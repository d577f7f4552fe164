import Minirel.Catalog.Lookup

/-!
# Updating the catalogs

`addInfo` runs the destructor of its scan and leaves nothing behind but the tuple. `removeInfo` and
`dropRelation` free theirs without one: a deletion is in the frames of the pool, and its pins are
never given back.

## Main definitions

* `Leaves`: what is left behind by a client that has changed files.
* `HeapFile.addTuple`: the common body of the two functions `addInfo`.

## Main results

* `addTuple_spec`: one more tuple, and not a pin more.
* `RelCatalog.removeInfo_spec`: the first tuple with the name is deleted.
* `AttrCatalog.dropLoop_spec`: all tuples with the name are deleted.
-/

namespace Minirel

open Comp HeapFile HeapFileScan

/-! ## What is left behind -/

/-- What is left by a client that had the pins `P` before it and has opened, closed and changed
files of `S` only: the pins of at most `k` more frames have not been given back. -/
structure Leaves (S : FileName → Prop) (k : Nat) (P : Multiset Pin) (v : View) (s : Sys)
    (P' : Multiset Pin) (v' : View) : Prop where
  coh : Coh s P' v'
  later : Later S v v'
  other : ∀ nm, ¬S nm → v'.file nm = v.file nm
  pins : ∃ L, P' = L + P ∧ L.card ≤ k ∧ Accounted v v' L

theorem HasRead.leaves {S : FileName → Prop} {k : Nat} {P P' : Multiset Pin} {v v' : View} {s : Sys}
    (h : HasRead S k P v s P' v') : Leaves S k P v s P' v' := by
  obtain ⟨L, hP, hk, hacc, -⟩ := h.pins
  exact ⟨h.coh, h.later, fun nm _ => by rw [h.file], L, hP, hk, hacc⟩

namespace Leaves

variable {S S' : FileName → Prop} {k k' : Nat} {P P' P'' : Multiset Pin} {v v' v'' : View}
  {s s' : Sys} {nm : FileName} {fv : FileView} {H : Heap}

theorem refl (S : FileName → Prop) (hc : Coh s P v) : Leaves S 0 P v s P v :=
  (HasRead.refl S hc).leaves

theorem trans (h : Leaves S k P v s P' v') (h' : Leaves S k' P' v' s' P'' v'') :
    Leaves S (k + k') P v s' P'' v'' := by
  obtain ⟨L, rfl, hk, hacc⟩ := h.pins
  obtain ⟨L', rfl, hk', hacc'⟩ := h'.pins
  refine ⟨h'.coh, h.later.trans h'.later, fun nm hnm => (h'.other nm hnm).trans (h.other nm hnm),
    L' + L, (add_assoc _ _ _).symm, ?_, hacc.trans h.later h'.later hacc'⟩
  rw [Multiset.card_add]
  omega

theorem mono (h : Leaves S k P v s P' v') (hS : ∀ nm, S nm → S' nm) (hk : k ≤ k') :
    Leaves S' k' P v s P' v' := by
  obtain ⟨L, hP, hle, hacc⟩ := h.pins
  exact ⟨h.coh, h.later.mono hS, fun nm hnm => h.other nm fun hs => hnm (hS nm hs), L, hP,
    hle.trans hk, hacc⟩

/-- The heap files that have not been changed are still there. -/
theorem isHeap (h : Leaves S k P v s P' v') (hnm : ¬S nm) (hH : IsHeap v nm fv H) :
    IsHeap v' nm fv H :=
  hH.same h.later (h.other nm hnm)

theorem freeFrames_le (h : Leaves S k P v s P' v') :
    freeFrames v.numBufs P ≤ freeFrames v'.numBufs P' + k := by
  obtain ⟨L, rfl, hk, -⟩ := h.pins
  have := freeFrames_add v.numBufs L P
  rw [h.later.numBufs]
  omega

end Leaves

/-! ## Adding a tuple -/

/-- The body of `RelCatalog::addInfo` and `AttrCatalog::addInfo`. -/
def HeapFile.addTuple (nm : FileName) (rec : Record) : M Status := do
  let (status, ifs) ← InsertFileScan.new nm
  if status ≠ .OK then return status else
  let (status, _, ifs) ← ifs.insertRecord rec
  ifs.delete
  return status

theorem RelCatalog.addInfo_eq (record : RelDesc) :
    addInfo record = addTuple RELCATNAME ⟨record.bytes, 36⟩ := rfl

theorem AttrCatalog.addInfo_eq (record : AttrDesc) :
    addInfo record = addTuple ATTRCATNAME ⟨record.bytes, 76⟩ := rfl

/-- A file that is opened, changed and closed again. -/
theorem View.reopened {v : View} {nm : FileName} {h : Option (FilePtr × Int)}
    {o o' : Option FileView} :
    ((((v.setHandle nm h).setFile nm o).setFile nm o').setHandle nm (v.handle nm)) =
      v.setFile nm o' := by
  simp [View.setHandle, View.setFile]

/-- If nobody else has the file open, the other pins are on other files. -/
theorem Coh.file_ne_of_opened {s s' : Sys} {P P' : Multiset Pin} {v : View} {nm : FileName}
    {f : FilePtr} (hc : Coh s P v) (hpos : ∀ f c, v.handle nm = some (f, c) → 0 < c)
    (hc' : Coh s' P' (v.setHandle nm (some (f, v.openCnt nm + 1)))) (hone : v.openCnt nm + 1 = 1) :
    ∀ z ∈ P, z.file ≠ f := by
  intro z hz he
  obtain ⟨nm', c, fv', hh', -, -⟩ := hc.cached _ _ _ (hc.pins z hz)
  have hne : nm' ≠ nm := by
    rintro rfl
    have hcnt : v.openCnt nm' = c := by rw [View.openCnt, hh']
    have := hpos _ _ hh'
    omega
  refine hne (hc'.name_unique (c := c) ?_ View.handle_setHandle_self)
  rw [← he]
  exact (View.handle_setHandle_of_ne hne).trans hh'

section Tuples

variable {T : Prop} {s : Sys} {P : Multiset Pin} {v : View} {nm : FileName}
  {fv : FileView} {H : Heap}

/-- The handle of a file after it has been opened once more and closed again. -/
theorem closed_openCnt {f : FilePtr} (hpos : ∀ f c, v.handle nm = some (f, c) → 0 < c)
    (hsame : ∀ f' c', v.handle nm = some (f', c') → f = f') :
    closed f (v.openCnt nm + 1) = v.handle nm := by
  unfold closed View.openCnt
  cases hh : v.handle nm with
  | none => rfl
  | some d =>
    obtain ⟨g, c⟩ := d
    have hc := hpos g c hh
    obtain rfl := hsame g c hh
    dsimp only
    rw [if_neg (by omega), Int.add_sub_cancel]

/-- A tuple is added to a heap file; the file is closed as often as it has been opened. -/
theorem addTuple_spec {rec : Record} (hc : Coh s P v) (hH : IsHeap v nm fv H) (hread : rec.Readable)
    (hpos : 1 ≤ rec.length) (hle : rec.length ≤ 1000) (hT : T → 3 ≤ freeFrames v.numBufs P) :
    Clean T (addTuple nm rec) s fun st s' => st = .OK ∧
    ∃ fv' H', Coh s' P (v.setFile nm (some fv')) ∧
      IsHeap (v.setFile nm (some fv')) nm fv' H' ∧ H.Le H' ∧ ∃ rid, H.rec? rid = none ∧
        H'.rec? = Function.update H.rec? rid (some rec.bytes) := by
  unfold addTuple
  refine (new_insert hc hH.name hH.file hH.heapAt hH.opened fun ht => ?_).bind ?_
  · have := hT ht
    omega
  rintro ⟨st, h⟩ s₁ ⟨f, n, m, hr, hsame, hc₁⟩
  cases hr
  dsimp only
  rw [if_neg fun hn => hn rfl]
  have hh : (v.setHandle nm (some (f, v.openCnt nm + 1))).handle nm = some (f, v.openCnt nm + 1) :=
    View.handle_setHandle_self
  have hspec := insertRecord_spec (T := T) (R := P)
    (h := { opened f H n m with curPageNo := H.hdr.lastPage }) hc₁ hh hH.file hH.heapAt
    ⟨rfl, rfl, rfl, rfl, nofun⟩ ⟨rfl, rfl, rfl, hH.heapAt.last_mem⟩
    fun (_ : 0 ≤ rec.length) _ => ⟨hread, Or.inr rfl⟩
  refine Clean.bind (P := fun r s₂ => r.1 = .OK ∧ ∃ x' y' fv' H',
    Coh s₂ (y' ::ₘ x' ::ₘ P) ((v.setHandle nm (some (f, v.openCnt nm + 1))).setFile nm (some fv')) ∧
    Grown { opened f H n m with curPageNo := H.hdr.lastPage } r.2.2 x' y' fv fv' H H' ∧
    Added r.1 r.2.1 rec.bytes H H') ?_ ?_
  · refine hspec.mono ?_
    rintro ⟨st, rid, h'⟩ e s₂ ⟨x', y', fv', H', hc₂, hg, hadd, hfull, hst⟩
    refine ⟨fun ht => ?_, fun he => ⟨?_, x', y', fv', H', hc₂, hg, hadd⟩⟩
    · rw [← Bool.not_eq_true]
      intro he
      -- two of three frames are taken by the object
      have hzero := hc₁.freeFrames_eq_zero (hfull he)
      have h₁ := freeFrames_cons v.numBufs ⟨f, H.hdr.lastPage, m,
        false⟩ (⟨f, H.hdrNo, n, false⟩ ::ₘ P)
      have h₂ := freeFrames_cons v.numBufs ⟨f, H.hdrNo, n, false⟩ P
      have h₃ := hT ht
      rw [View.numBufs_setHandle] at hzero
      omega
    · have hstatus := hst he (by omega) (by unfold DATASIZE; omega)
      rwa [if_pos hle] at hstatus
  rintro ⟨st, rid, h'⟩ s₂ ⟨hst, x', y', fv', H', hc₂, hg, hadd⟩
  dsimp only at hst hg hadd ⊢
  have hf' : h'.filePtr = f := hg.filePtr
  obtain ⟨s₃, fv'', hdel, hc₃, hfor⟩ := delete_insert hc₂ (hf'.symm ▸ hh) View.file_setFile_self
    hg.header hg.page (by have := hH.openCnt_nonneg; omega)
    fun hone => hf' ▸ hc.file_ne_of_opened hH.opened hc₁ hone
  rw [clean_bind_of_yields hdel, clean_pure]
  rw [hf', closed_openCnt hH.opened hsame, View.reopened] at hc₃
  obtain ⟨-, hnone, hrec, -⟩ | ⟨hne, -⟩ := hadd
  swap
  · exact absurd hst hne
  have hbytes : rec.bytes ≠ [] := Record.bytes_ne_nil hread hpos
  exact ⟨hst, fv'', H', hc₃, ⟨hH.name, View.file_setFile_self, hfor.heapAt hg.heapAt,
    hH.sized.insert hbytes hrec, hH.opened⟩, hg.le, rid, hnone, hrec⟩

end Tuples

/-! ## Deleting tuples -/

namespace Heap.Tuples

variable {n : Nat} {H H' : Heap} {rid : RID} {b : Bytes}

theorem insert (h : H.Tuples n) (hb : b.length = n ∧ Named b)
    (hrec : H'.rec? = Function.update H.rec? rid (some b)) : H'.Tuples n := by
  intro q b' hq
  rw [hrec, Function.update_apply] at hq
  split at hq
  next =>
    cases hq
    exact hb
  next => exact h q b' hq

theorem delete (h : H.Tuples n) (hrec : H'.rec? = Function.update H.rec? rid none) :
    H'.Tuples n := by
  intro q b' hq
  rw [hrec, Function.update_apply] at hq
  split at hq
  next => cases hq
  next => exact h q b' hq

end Heap.Tuples

section Delete

variable {T : Prop} {s : Sys} {P R : Multiset Pin} {v : View} {nm : FileName} {c : Int} {n : Nat}
  {sat : Bytes → Bool} {fv : FileView} {H : Heap} {h : HeapFileScan} {x : Pin}
  {l : List (RID × Bytes)} {st : Status} {rid : RID} {b : Bytes} {relation : Bytes}

/-- The record under the cursor is deleted. -/
theorem HeapFileScan.Streams.delete_rows (hs : Streams T R v nm c sat s h fv H x l)
    (hr : OnRecord h H rid b) (htuples : H.Tuples n) :
    ∃ s' fv' H', let h' : HeapFileScan := { h with curDirtyFlag := true, hdrDirtyFlag := true }
      Yields (deleteRecord h) s (.OK, h') false s' ∧
      Streams T R v nm c sat s' h' fv' H' { x with wrote := true } l ∧ H'.Tuples n ∧
      fv'.kept = fv.kept ∧ H.SamePages H' ∧ H.rows = b ::ₘ H'.rows ∧
      H.rids.length = H'.rids.length + 1 := by
  obtain ⟨s', fv', H', hy, hs', hkept, -, hpages, hrec⟩ := hs.delete hr
  exact ⟨s', fv', H', hy, hs', htuples.delete hrec, hkept, hpages,
    Heap.rows_delete hs.heapAt hs'.heapAt hr.record hrec,
    hs.heapAt.length_rids_delete hs'.heapAt hr.record hrec⟩

/-- The scan is not used any more: its two pins stay, and so does its file. -/
theorem leaves_of_abandon {f : FilePtr} {fv' : FileView} {H' : Heap}
    (hs : Streams T P (v.setHandle nm (some (f, v.openCnt nm + 1))) nm
      (v.openCnt nm + 1) sat s h fv'
      H' x l)
    (hH : IsHeap v nm fv H)
      (hlater : Later (· = nm) v (v.setHandle nm (some (f, v.openCnt nm + 1)))) :
    ∃ P' v', Leaves (· = nm) 2 P v s P' v' ∧ IsHeap v' nm fv' H' := by
  obtain ⟨y, hc, -, hfile⟩ := hs.abandon
  refine ⟨_, _, ⟨hc, hlater.setFile nm _, fun nm' hnm => ?_, _, rfl, le_refl 2,
      Accounted.setHandle hc fun z hz => (hfile z hz).trans hs.filePtr⟩,
    hH.name, View.file_setFile_self, hs.heapAt, hs.sized, hlater.pos nm hH.opened⟩
  exact View.file_setFile_of_ne hnm

/-- The loop of `removeInfo` deletes the first tuple with the name among those that are left. -/
theorem RelCatalog.removeLoop_spec (fuel : Nat) {ret : Status}
    (hs : Streams T R v nm c sat s h fv H x l.tail) (hnext : Next h H l st rid)
    (hclean : h.curDirtyFlag = false) (htuples : H.Tuples 36) (hnul : (0 : UInt8) ∉ relation)
    (hT : T → 0 < freeFrames v.numBufs (x ::ₘ R) ∧
      (l.map Prod.snd).findIdx (hasName relation) + H.rids.length + H.pages.length + 1 ≤ fuel) :
    Clean T (removeLoop relation ret fuel st h) s fun st' s' =>
      match (l.map Prod.snd).find? (hasName relation) with
      | none => st' = ret ∧ ∃ h', Streams T R v nm c sat s' h' fv H x [] ∧ h'.curDirtyFlag = false
      | some b => st' = .OK ∧ ∃ fv' H' h' x' l', Streams T R v nm c sat s' h' fv' H' x' l' ∧
        H'.Tuples 36 ∧ fv'.kept = fv.kept ∧ H.SamePages H' ∧ H.rows = b ::ₘ H'.rows := by
  induction fuel generalizing s h l st rid with
  | zero => exact Clean.failure fun ht => absurd (hT ht).2 (Nat.not_succ_le_zero _)
  | succ fuel ih =>
    unfold removeLoop
    cases hnext with
    | eof =>
      rw [if_pos rfl, clean_pure]
      exact ⟨rfl, h, hs, hclean⟩
    | @record rid b l hr =>
      rw [if_neg nofun, if_neg fun hn => hn rfl]
      have hb36 := (htuples _ _ hr.record).1
      obtain ⟨rec, hget, -, hcopy, -⟩ := copyRecord_spec hs hr
      have hcopy : Yields (copyRecord h rec 36) s b false s := by
        have := hcopy b.length le_rfl
        rwa [List.take_length, hb36] at this
      rw [clean_bind_of_yields hget]
      dsimp only
      rw [if_neg fun hn => hn rfl, clean_bind_of_yields hcopy]
      have hcmp := strcmpEq_name (t := []) (htuples.nul hr.record) hnul
      rw [List.append_nil] at hcmp
      rw [hcmp, clean_ofOption_some_bind, List.map_cons]
      by_cases hb : cstr b = relation
      · -- this is the tuple
        have hname : hasName relation b = true := decide_eq_true hb
        obtain ⟨s', fv', H', hdel, hs', htuples', hkept, hpages, hrows, -⟩ :=
          hs.delete_rows hr htuples
        rw [decide_eq_true hb, if_pos rfl, clean_bind_of_yields hdel, clean_pure,
          List.find?_cons_of_pos hname]
        exact ⟨rfl, fv', H', _, _, _, hs', htuples', hkept, hpages, hrows⟩
      · have hname : ¬hasName relation b = true := fun hn => hb (of_decide_eq_true hn)
        rw [decide_eq_false hb, if_neg Bool.false_ne_true, List.find?_cons_of_neg hname]
        have hT' : T → 0 < freeFrames v.numBufs (x ::ₘ R) ∧
            (l.map Prod.snd).findIdx (hasName relation) + H.rids.length + H.pages.length + 1 ≤
              fuel := fun ht => by
          obtain ⟨h₁, h₂⟩ := hT ht
          rw [List.map_cons, List.findIdx_cons, Bool.eq_false_iff.mpr hname] at h₂
          dsimp only [cond_false] at h₂
          exact ⟨h₁, by omega⟩
        refine (hs.next_clean fuel hclean fun ht => ?_).bind ?_
        · obtain ⟨h₁, h₂⟩ := hT' ht
          exact ⟨h₁, by omega⟩
        rintro ⟨st', rid', h'⟩ s' ⟨hclean', hs', hnext'⟩
        exact ih hs' hnext' hclean' hT'

/-- A filter that the tuples with the name pass does not change which one is the first. -/
theorem Heap.find?_select (hpass : ∀ b ∈ H.contents, hasName relation b = true → sat b = true) :
    ((H.select sat H.rids).map Prod.snd).find? (hasName relation) =
      H.contents.find? (hasName relation) := by
  rw [Heap.map_select, List.find?_filter]
  refine List.find?_congr fun b hb => ?_
  cases hname : hasName relation b with
  | true => simp [hpass b hb hname]
  | false => simp

/-- The tuples with the name pass the filter for it. -/
theorem Heap.Tuples.passes (htuples : H.Tuples n) :
    ∀ b ∈ H.contents, hasName relation b = true →
      satisfies 0 (cSize relation) .STRING (some (relation ++ [0])) .EQ b = true := by
  intro b hb hname
  rw [htuples.passes_eq (htuples.isName_of_mem hb hname) hb]
  exact hname

/-- `removeInfo` deletes the first tuple of `relcat` with the name, for any name that `startScan`
accepts. The value of its local `status` that it tests is `OK`; it returns without a value if there
is no tuple. -/
theorem RelCatalog.removeInfo_filter (fuel : Nat) {ret : Status} (hc : Coh s P v)
    (hH : IsHeap v RELCATNAME fv H) (htuples : H.Tuples 36) (hnul : (0 : UInt8) ∉ relation)
    (hpos : 1 ≤ cSize relation) (hne : relation ≠ [])
    (hT : T → 2 ≤ freeFrames v.numBufs P ∧ ((H.select (satisfies 0 (cSize relation) .STRING
      (some (relation ++ [0])) .EQ) H.rids).map Prod.snd).findIdx (hasName relation) +
        H.rids.length + H.pages.length + 1 ≤ fuel) :
    Clean T (removeInfo fuel .OK ret relation) s fun st s' => ∃ P' v',
      Leaves (· = RELCATNAME) 2 P v s' P' v' ∧
      match H.contents.find? (hasName relation) with
      | none => st = ret ∧ v'.file = v.file
      | some b => st = .OK ∧ ∃ fv' H', IsHeap v' RELCATNAME fv' H' ∧ H'.Tuples 36 ∧
        fv'.kept = fv.kept ∧ H.SamePages H' ∧ H.rows = b ::ₘ H'.rows := by
  unfold removeInfo
  rw [if_neg hne]
  refine (new_scanFilter hc hH hpos fun ht => (hT ht).1).bind ?_
  rintro ⟨st, h⟩ s₁ ⟨-, h', x, hstart, hx, hlater, hs, hclean⟩
  dsimp only at hstart ⊢
  rw [if_neg fun hn => hn rfl, hstart]
  dsimp only
  rw [if_neg fun hn => hn rfl]
  have hfree : T → 0 < freeFrames v.numBufs (x ::ₘ P) := fun ht => by
    have := (hT ht).1
    have := freeFrames_cons v.numBufs x P
    omega
  refine (hs.next_clean fuel hclean fun ht => ?_).bind ?_
  · have := (hT ht).2
    exact ⟨hfree ht, by omega⟩
  rintro ⟨st, rid, h₂⟩ s₂ ⟨hclean₂, hs₂, hnext⟩
  dsimp only at hclean₂ hs₂ hnext ⊢
  refine (removeLoop_spec fuel hs₂ hnext hclean₂ htuples hnul fun ht => ⟨hfree ht,
    (hT ht).2⟩).mono ?_
  rw [Heap.find?_select htuples.passes]
  intro st s₃ hcase
  cases hfind : H.contents.find? (hasName relation) with
  | none =>
    rw [hfind] at hcase
    obtain ⟨rfl, h₃, hs₃, hclean₃⟩ := hcase
    obtain ⟨P', hread⟩ := hasRead_of_abandon hs₃ hH hlater hx hclean₃
    exact ⟨P', _, hread.leaves, rfl, rfl⟩
  | some b =>
    rw [hfind] at hcase
    obtain ⟨rfl, fv', H', h₃, x', l', hs₃, htuples', hkept, hpages, hrows⟩ := hcase
    obtain ⟨P', v', hleaves, hH'⟩ := leaves_of_abandon hs₃ hH hlater
    exact ⟨P', v', hleaves, rfl, fv', H', hH', htuples', hkept, hpages, hrows⟩

/-- `removeInfo` deletes the first tuple of `relcat` with the name. The value of its local `status`
that it tests is `OK`; it returns without a value if there is no tuple. -/
theorem RelCatalog.removeInfo_spec (fuel : Nat) {ret : Status} (hc : Coh s P v)
    (hH : IsHeap v RELCATNAME fv H) (htuples : H.Tuples 36) (hname : IsName relation)
    (hne : relation ≠ [])
    (hT : T → 2 ≤ freeFrames v.numBufs P ∧ H.rids.length + H.pages.length + 1 ≤ fuel) :
    Clean T (removeInfo fuel .OK ret relation) s fun st s' => ∃ P' v',
      Leaves (· = RELCATNAME) 2 P v s' P' v' ∧
      match H.contents.find? (hasName relation) with
      | none => st = ret ∧ v'.file = v.file
      | some b => st = .OK ∧ ∃ fv' H', IsHeap v' RELCATNAME fv' H' ∧ H'.Tuples 36 ∧
        fv'.kept = fv.kept ∧ H.SamePages H' ∧ H.rows = b ::ₘ H'.rows := by
  have hsel : ((H.select (satisfies 0 (cSize relation) .STRING (some (relation ++ [0])) .EQ)
      H.rids).map Prod.snd).findIdx (hasName relation) = 0 := by
    rw [hname.cSize, htuples.select_name hname, Heap.select_rids]
    cases hl : H.records.filter fun q => hasName relation q.2 with
    | nil => rfl
    | cons q l =>
      have hq : q ∈ H.records.filter fun q => hasName relation q.2 := hl ▸ List.mem_cons_self
      rw [List.map_cons, List.findIdx_cons, (List.mem_filter.mp hq).2]
      rfl
  have hpos : 1 ≤ cSize relation := by
    rw [hname.cSize]
    omega
  exact removeInfo_filter fuel hc hH htuples hname.nul hpos hne (by rwa [hsel, Nat.zero_add])

/-- The loop of `dropRelation` deletes all the tuples with the name that are left. Without any it
leaves no trace. -/
theorem AttrCatalog.dropLoop_spec (fuel : Nat) {got : Status}
    (hs : Streams T R v nm c (fun _ => true) s h fv H x l.tail) (hnext : Next h H l st rid)
    (htuples : H.Tuples n) (hname : IsName relation)
    (hT : T → 0 < freeFrames v.numBufs (x ::ₘ R) ∧
      l.length + H.rids.length + H.pages.length + 1 ≤ fuel) :
    Clean T (dropLoop relation fuel st got h) s fun r s' => r.1 = .FILEEOF ∧ ∃ fv' H' x',
      Streams T R v nm c (fun _ => true) s' r.2.2 fv' H' x' [] ∧ H'.Tuples n ∧
      H.SamePages H' ∧ H.rows = ((l.map Prod.snd).filter (hasName relation) : Multiset Bytes) +
      H'.rows ∧
      (h.curDirtyFlag = false → (∀ q ∈ l, hasName relation q.2 = false) →
        r.2.2.curDirtyFlag = false ∧ fv' = fv ∧ H' = H ∧ x' = x) := by
  induction fuel generalizing s h l st rid got fv H x with
  | zero => exact Clean.failure fun ht => absurd (hT ht).2 (Nat.not_succ_le_zero _)
  | succ fuel ih =>
    unfold dropLoop
    cases hnext with
    | eof =>
      rw [if_pos nofun, clean_pure]
      exact ⟨rfl, fv, H, x, hs, htuples, .refl H, (zero_add _).symm,
        fun hclean _ => ⟨hclean, rfl, rfl, rfl⟩⟩
    | @record rid b l hr =>
      rw [if_neg fun hn => hn rfl]
      obtain ⟨rec, hget, -, -, t, hcopy⟩ := copyRecord_spec hs hr
      rw [clean_bind_of_yields hget]
      dsimp only
      rw [if_neg fun hn => hn rfl, clean_bind_of_yields hcopy,
        strcmpEq_name (htuples.nul hr.record) hname.nul, clean_ofOption_some_bind]
      rw [List.tail_cons] at hs
      by_cases hb : cstr b = relation
      · -- the tuple is deleted
        have hname' : hasName relation b = true := decide_eq_true hb
        obtain ⟨s₁, fv₁, H₁, hdel, hs₁, htuples₁, -, hpages₁, hrows₁, hlen₁⟩ :=
          hs.delete_rows hr htuples
        rw [decide_eq_true hb, if_pos rfl, clean_bind_of_yields hdel]
        dsimp only
        have hT₁ : T → 0 < freeFrames v.numBufs ({ x with wrote := true } ::ₘ R) ∧
            l.length + H₁.rids.length + H₁.pages.length + 1 ≤ fuel := fun ht => by
          obtain ⟨h₁, h₂⟩ := hT ht
          rw [List.length_cons] at h₂
          rw [freeFrames_wrote, hpages₁.pages]
          exact ⟨h₁, by omega⟩
        refine (hs₁.next fuel fun ht => ?_).bind ?_
        · obtain ⟨h₁, h₂⟩ := hT₁ ht
          exact ⟨h₁, by omega⟩
        rintro ⟨st', rid', h'⟩ s₂ ⟨fv₂, -, -, hs₂, hnext₂⟩
        dsimp only at hs₂ hnext₂ ⊢
        refine (ih hs₂ hnext₂ htuples₁ hT₁).mono ?_
        rintro r s' ⟨hst, fv', H', x', hs', htuples', hpages, hrows, -⟩
        refine ⟨hst, fv', H', x', hs', htuples', hpages₁.trans hpages, ?_, fun _ hnone => ?_⟩
        · rw [List.map_cons, List.filter_cons_of_pos hname', ← Multiset.cons_coe, Multiset.cons_add,
            hrows₁, hrows]
        · exact Bool.noConfusion ((hnone _ List.mem_cons_self).symm.trans hname')
      · have hname' : hasName relation b = false := decide_eq_false hb
        rw [decide_eq_false hb, if_neg Bool.false_ne_true]
        have hT₁ : T → 0 < freeFrames v.numBufs (x ::ₘ R) ∧
            l.length + H.rids.length + H.pages.length + 1 ≤ fuel := fun ht => by
          obtain ⟨h₁, h₂⟩ := hT ht
          rw [List.length_cons] at h₂
          exact ⟨h₁, by omega⟩
        refine (hs.next fuel fun ht => ?_).bind ?_
        · obtain ⟨h₁, h₂⟩ := hT₁ ht
          exact ⟨h₁, by omega⟩
        rintro ⟨st', rid', h'⟩ s₂ ⟨fv₂, hfor, hmoves, hs₂, hnext₂⟩
        dsimp only at hmoves hs₂ hnext₂ ⊢
        refine (ih hs₂ hnext₂ htuples hT₁).mono ?_
        rintro r s' ⟨hst, fv', H', x', hs', htuples', hpages, hrows, hclean'⟩
        refine ⟨hst, fv', H', x', hs', htuples', hpages, ?_, fun hclean hnone => ?_⟩
        · rw [List.map_cons, List.filter_cons_of_neg (by rw [hname']; exact Bool.false_ne_true)]
          exact hrows
        · obtain rfl : fv₂ = fv := hfor.eq_of_not fun p hp => by
            rw [hclean] at hp
            cases hp.1
          exact hclean' (hmoves.clean_of hclean) fun q hq => hnone q (List.mem_cons_of_mem _ hq)

/-- The tuples that do not have the name. -/
def withoutName (relation : Bytes) (rows : Multiset Bytes) : Multiset Bytes :=
  rows.filter fun b => ¬hasName relation b = true

/-- What `dropRelation` does to each of the catalogs, up to the call of `endScan`. -/
theorem AttrCatalog.dropScan_spec (fuel : Nat) (got : Status) (hc : Coh s P v)
    (hH : IsHeap v nm fv H) (htuples : H.Tuples n) (hname : IsName relation)
    (hT : T → 2 ≤ freeFrames v.numBufs P ∧ 2 * H.rids.length + H.pages.length + 1 ≤ fuel) :
    Clean T (HeapFileScan.new nm) s fun r s₁ => r.1 = .OK ∧ ∃ h₁,
      r.2.startScan 0 0 .STRING none .EQ = (.OK, h₁) ∧
      Clean T (scanNext fuel h₁) s₁ fun r s₂ =>
        Clean T (dropLoop relation fuel r.1 got r.2.2) s₂ fun r s₃ => r.1 = .FILEEOF ∧
          ∃ s₄ h₄ P' v',
          Yields (endScan r.2.2) s₃ (.OK, h₄) false s₄ ∧ Leaves (· = nm) 1 P v s₄ P' v' ∧
          ∃ fv' H', IsHeap v' nm fv' H' ∧ H'.Tuples n ∧ H.SamePages H' ∧
            H'.rows = withoutName relation H.rows ∧
            ((∀ b ∈ H.rows, hasName relation b = false) → fv' = fv ∧ H' = H) := by
  refine (new_scanAll hc hH fun ht => (hT ht).1).mono ?_
  rintro ⟨st, h⟩ s₁ ⟨hst, h₁, x, hstart, -, hlater, hs, hclean⟩
  refine ⟨hst, h₁, hstart, ?_⟩
  have hrecs : H.records.length ≤ H.rids.length := List.length_filterMap_le _ _
  have hfree : T → 0 < freeFrames (v.setHandle nm (some (h₁.filePtr, v.openCnt nm + 1))).numBufs
      (x ::ₘ P) := fun ht => by
    have := (hT ht).1
    have := freeFrames_cons v.numBufs x P
    show 0 < freeFrames v.numBufs _
    omega
  refine (hs.next_clean fuel hclean fun ht => ?_).mono ?_
  · have := (hT ht).2
    exact ⟨hfree ht, by omega⟩
  rintro ⟨st, rid, h₂⟩ s₂ ⟨hclean₂, hs₂, hnext⟩
  dsimp only at hclean₂ hs₂ hnext ⊢
  refine (dropLoop_spec fuel hs₂ hnext htuples hname fun ht => ?_).mono ?_
  · have := (hT ht).2
    exact ⟨hfree ht, by omega⟩
  rintro ⟨st, got', h₃⟩ s₃ ⟨hst, fv', H', x', hs₃, htuples', hpages, hrows, hsame⟩
  dsimp only at hst hs₃ hsame ⊢
  obtain ⟨s₄, h₄, fv'', hend, hfor, -, hc₄⟩ := hs₃.endScan
  refine ⟨hst, s₄, h₄, _, _, hend, ⟨hc₄, hlater.setFile nm _, fun nm' hnm => ?_, {x'},
    rfl, le_refl 1,
      Accounted.setHandle hc₄ fun z hz => ?_⟩,
    fv'', H', ⟨hH.name, View.file_setFile_self, hfor.heapAt hs₃.heapAt, hs₃.sized,
      hlater.pos nm hH.opened⟩, htuples', hpages, ?_, fun hnone => ?_⟩
  · exact View.file_setFile_of_ne hnm
  · rw [Multiset.mem_singleton.mp hz]
    exact hs₃.header.file.trans hs₃.filePtr
  · have hfilter : H.rows.filter (fun b => hasName relation b = true) =
        ((H.records.map Prod.snd).filter (hasName relation) : Multiset Bytes) := by
      simp only [Heap.rows, Heap.contents, Multiset.filter_coe, Bool.decide_eq_true]
    have hsplit := Multiset.filter_add_not (fun b => hasName relation b = true) H.rows
    rw [hfilter] at hsplit
    exact add_left_cancel (hrows.symm.trans hsplit.symm)
  · obtain ⟨hclean', rfl, rfl, -⟩ := hsame hclean₂ fun q hq =>
      hnone q.2 (Multiset.mem_coe.mpr (List.mem_map_of_mem hq))
    refine ⟨hfor.eq_of_not fun p hp => ?_, rfl⟩
    rw [hclean'] at hp
    cases hp.1

/-- `dropRelation` deletes all the tuples with the name from both catalogs. -/
theorem AttrCatalog.dropRelation_spec (fuel : Nat) {got ended : Status} {fvA : FileView} {HA : Heap}
    {m : Nat} (hc : Coh s P v) (hH : IsHeap v RELCATNAME fv H) (htuples : H.Tuples n)
    (hHA : IsHeap v ATTRCATNAME fvA HA) (htuplesA : HA.Tuples m) (hname : IsName relation)
    (hne : relation ≠ [])
    (hT : T → 3 ≤ freeFrames v.numBufs P ∧ 2 * H.rids.length + H.pages.length + 1 ≤ fuel ∧
      2 * HA.rids.length + HA.pages.length + 1 ≤ fuel) :
    Clean T (dropRelation fuel got ended relation) s fun st s' => st = .OK ∧ ∃ P' v',
      Leaves (fun nm => nm = RELCATNAME ∨ nm = ATTRCATNAME) 2 P v s' P' v' ∧
      (∃ fv' H', IsHeap v' RELCATNAME fv' H' ∧ H'.Tuples n ∧ H.SamePages H' ∧
        H'.rows = withoutName relation H.rows ∧
        ((∀ b ∈ H.rows, hasName relation b = false) → fv' = fv ∧ H' = H)) ∧
      ∃ fvA' HA', IsHeap v' ATTRCATNAME fvA' HA' ∧ HA'.Tuples m ∧ HA.SamePages HA' ∧
        HA'.rows = withoutName relation HA.rows := by
  unfold dropRelation
  rw [if_neg hne]
  refine (dropScan_spec fuel .OK hc hH htuples hname fun ht => ?_).bind ?_
  · obtain ⟨h₁, h₂, -⟩ := hT ht
    exact ⟨by omega, h₂⟩
  rintro ⟨st, h⟩ s₁ ⟨hst, h₁, hstart, hscan⟩
  dsimp only at hst hstart ⊢
  subst hst
  rw [if_neg fun hn => hn rfl, hstart]
  dsimp only
  rw [if_neg fun hn => hn rfl]
  refine hscan.bind ?_
  intro r s₂ hloop
  refine hloop.bind ?_
  rintro ⟨st, got', h₃⟩ s₃ ⟨hst, s₄, h₄, P₄, v₄, hend, hleaves, fv', H', hH', htuples', hpages',
    hrows', hsame⟩
  dsimp only at hst hend ⊢
  subst hst
  rw [if_neg nofun, if_neg fun hn => hn rfl, clean_bind_of_yields hend]
  dsimp only
  rw [if_neg fun hn => hn rfl]
  -- the same for the other catalog
  have hne' : ¬ATTRCATNAME = RELCATNAME := by decide
  unfold dropAttrs
  refine (dropScan_spec fuel got hleaves.coh (hleaves.isHeap hne' hHA) htuplesA hname
    fun ht => ?_).bind ?_
  · obtain ⟨h₁, -, h₂⟩ := hT ht
    have := hleaves.freeFrames_le
    exact ⟨by omega, h₂⟩
  rintro ⟨st, h⟩ s₅ ⟨hst, h₅, hstart, hscan⟩
  dsimp only at hst hstart ⊢
  subst hst
  rw [if_neg fun hn => hn rfl, hstart]
  dsimp only
  rw [if_neg fun hn => hn rfl]
  refine hscan.bind ?_
  intro r s₆ hloop
  refine hloop.bind ?_
  rintro ⟨st, got'', h₇⟩ s₇ ⟨hst, s₈, h₈, P₈, v₈, hend, hleaves', fvA', HA', hHA', htuplesA',
    hpagesA', hrowsA', -⟩
  dsimp only at hst hend ⊢
  subst hst
  rw [if_neg fun hn => hn rfl, clean_bind_of_yields hend, clean_pure]
  refine ⟨rfl, P₈, v₈, (hleaves.mono (fun _ => Or.inl) le_rfl).trans
    (hleaves'.mono (fun _ => Or.inr) le_rfl), ⟨fv', H', ?_, htuples', hpages', hrows', hsame⟩,
    fvA', HA', hHA', htuplesA', hpagesA', hrowsA'⟩
  exact hleaves'.isHeap (by decide) hH'

end Delete

end Minirel
