import Mathlib.Data.List.Find
import Minirel.Catalog.Tuple
import Minirel.HeapFile.Stream

/-!
# Looking up the catalogs

`getInfo` and `getRelInfo` read tuples of the catalogs. They change no file, but the scans that
they free without running a destructor keep pages pinned and files open.

## Main definitions

* `Later`: files have been opened between two views, and none has been closed.
* `HasRead`: what is left by a client that has only read.
* `Heap.Tuples`: a file of named tuples of one size.

## Main results

* `RelCatalog.getInfo_spec`, `AttrCatalog.getInfo_spec`: the first tuple with the names.
* `AttrCatalog.getRelInfo_spec`: all the tuples of a relation.
-/

namespace Minirel

open Comp HeapFile HeapFileScan

/-! ## What is left behind -/

/-- Files of `S` have been opened between the two views, and no file has been closed for good. -/
structure Later (S : FileName → Prop) (v v' : View) : Prop where
  numBufs : v'.numBufs = v.numBufs
  foreign : v'.foreign = v.foreign
  other : ∀ nm, ¬S nm → v'.handle nm = v.handle nm
  handle : ∀ nm f c, v.handle nm = some (f, c) → ∃ c', c ≤ c' ∧ v'.handle nm = some (f, c')
  pos : ∀ nm, (∀ f c, v.handle nm = some (f, c) → 0 < c) →
    ∀ f c, v'.handle nm = some (f, c) → 0 < c

namespace Later

variable {S S' : FileName → Prop} {v v' v'' : View} {nm : FileName} {f : FilePtr}

theorem refl (S : FileName → Prop) (v : View) : Later S v v :=
  ⟨rfl, rfl, fun _ _ => rfl, fun _ _ c hh => ⟨c, le_refl c, hh⟩, fun _ h => h⟩

theorem trans (h : Later S v v') (h' : Later S v' v'') : Later S v v'' where
  numBufs := h'.numBufs.trans h.numBufs
  foreign := h'.foreign.trans h.foreign
  other nm hnm := (h'.other nm hnm).trans (h.other nm hnm)
  handle nm f c hh := by
    obtain ⟨c', hle, hh'⟩ := h.handle nm f c hh
    obtain ⟨c'', hle', hh''⟩ := h'.handle nm f c' hh'
    exact ⟨c'', hle.trans hle', hh''⟩
  pos nm hpos := h'.pos nm (h.pos nm hpos)

theorem mono (h : Later S v v') (hS : ∀ nm, S nm → S' nm) : Later S' v v' :=
  { h with other := fun nm hnm => h.other nm (mt (hS nm) hnm) }

/-- Changing a file is not opening one. -/
theorem setFile (h : Later S v v') (nm : FileName) (o : Option FileView) :
    Later S v (v'.setFile nm o) :=
  ⟨h.numBufs, h.foreign, h.other, h.handle, h.pos⟩

/-- Opening a file once more. -/
theorem setHandle (hpos : ∀ g c, v.handle nm = some (g, c) → 0 < c)
    (hsame : ∀ g c, v.handle nm = some (g, c) → f = g) :
    Later (· = nm) v (v.setHandle nm (some (f, v.openCnt nm + 1))) where
  numBufs := rfl
  foreign := rfl
  other nm' hnm := View.handle_setHandle_of_ne hnm
  handle nm' g c hh := by
    by_cases hnm : nm' = nm
    · subst hnm
      refine ⟨v.openCnt nm' + 1, ?_, ?_⟩
      · unfold View.openCnt
        rw [hh]
        exact Int.le_add_one (le_refl c)
      · rw [View.handle_setHandle_self, hsame g c hh]
    · exact ⟨c, le_refl c, (View.handle_setHandle_of_ne hnm).trans hh⟩
  pos nm' hpos' g c hh := by
    by_cases hnm : nm' = nm
    · subst hnm
      rw [View.handle_setHandle_self] at hh
      cases hh
      unfold View.openCnt
      split
      next e he =>
        have := hpos _ _ he
        omega
      next => decide
    · rw [View.handle_setHandle_of_ne hnm] at hh
      exact hpos' g c hh

end Later

/-- Files are opened, and this one is not changed. -/
theorem IsHeap.same {S : FileName → Prop} {v v' : View} {nm : FileName} {fv : FileView} {H : Heap}
    (h : IsHeap v nm fv H) (hlater : Later S v v') (hfile : v'.file nm = v.file nm) :
    IsHeap v' nm fv H :=
  ⟨h.name, hfile.trans h.file, h.heapAt, h.sized, hlater.pos nm h.opened⟩

/-- The files that the pins `L` are on are not open as often as before. -/
def Accounted (v v' : View) (L : Multiset Pin) : Prop :=
  ∀ nm f c, v.handle nm = some (f, c) → v'.handle nm = some (f, c) → ∀ z ∈ L, z.file ≠ f

namespace Accounted

variable {S : FileName → Prop} {v v' v'' : View} {L L' : Multiset Pin} {nm : FileName} {f : FilePtr}

theorem zero (v v' : View) : Accounted v v' 0 :=
  fun _ _ _ _ _ z hz => absurd hz (Multiset.notMem_zero z)

theorem trans (hlater : Later S v v') (hlater' : Later S v' v'') (h : Accounted v v' L)
    (h' : Accounted v' v'' L') : Accounted v v'' (L' + L) := by
  intro nm f c hh hh'' z hz
  -- the file is open as often as before, so it has been in between
  obtain ⟨c₁, hle, hh'⟩ := hlater.handle nm f c hh
  obtain ⟨c₂, hle', hh₂⟩ := hlater'.handle nm f c₁ hh'
  have hc₂ : c₂ = c := congrArg Prod.snd (Option.some.inj (hh₂.symm.trans hh''))
  obtain rfl : c₁ = c := le_antisymm (hc₂ ▸ hle') hle
  rcases Multiset.mem_add.mp hz with hz | hz
  · exact h' nm f c₁ hh' hh'' z hz
  · exact h nm f c₁ hh hh' z hz

/-- A file has been opened, and there are pins on it. -/
theorem setHandle {s : Sys} {P : Multiset Pin} {o : Option FileView}
    (hc : Coh s P ((v.setHandle nm (some (f, v.openCnt nm + 1))).setFile nm o))
    (hL : ∀ z ∈ L, z.file = f) : Accounted v (v.setHandle nm (some (f, v.openCnt nm + 1))) L := by
  intro nm' g c hh hh' z hz hg
  by_cases hnm : nm' = nm
  · subst hnm
    -- the count has changed
    rw [View.handle_setHandle_self] at hh'
    have hcnt : v.openCnt nm' = c := by rw [View.openCnt, hh]
    have hc : v.openCnt nm' + 1 = c := congrArg Prod.snd (Option.some.inj hh')
    omega
  · have hopen : (v.setHandle nm (some (f, v.openCnt nm + 1))).handle nm =
        some (g, v.openCnt nm + 1) := by
      rw [View.handle_setHandle_self, ← hg, hL z hz]
    exact hnm (hc.name_unique hh' hopen)

end Accounted

/-- What is left by a client that has read files of `S`, and had the pins `P` before it: all files
are as they were, and the pins of at most `k` more frames have not been given back. -/
structure HasRead (S : FileName → Prop) (k : Nat) (P : Multiset Pin) (v : View) (s : Sys)
    (P' : Multiset Pin) (v' : View) : Prop where
  coh : Coh s P' v'
  later : Later S v v'
  file : v'.file = v.file
  pins : ∃ L, P' = L + P ∧ L.card ≤ k ∧ Accounted v v' L ∧ ∀ z ∈ L, z.wrote = false

namespace HasRead

variable {S S' : FileName → Prop} {k k' : Nat} {P P' P'' : Multiset Pin} {v v' v'' : View}
  {s s' : Sys} {nm : FileName} {fv : FileView} {H : Heap}

theorem refl (S : FileName → Prop) (hc : Coh s P v) : HasRead S 0 P v s P v :=
  ⟨hc, .refl S v, rfl, 0, (zero_add P).symm, le_refl 0, .zero v v,
    fun _ hz => absurd hz (Multiset.notMem_zero _)⟩

theorem trans (h : HasRead S k P v s P' v') (h' : HasRead S k' P' v' s' P'' v'') :
    HasRead S (k + k') P v s' P'' v'' := by
  obtain ⟨L, rfl, hk, hacc, hL⟩ := h.pins
  obtain ⟨L', rfl, hk', hacc', hL'⟩ := h'.pins
  refine ⟨h'.coh, h.later.trans h'.later, h'.file.trans h.file, L' + L, (add_assoc _ _ _).symm, ?_,
    hacc.trans h.later h'.later hacc', fun z hz => ?_⟩
  · rw [Multiset.card_add]
    omega
  · rcases Multiset.mem_add.mp hz with hz | hz
    · exact hL' z hz
    · exact hL z hz

theorem mono (h : HasRead S k P v s P' v') (hS : ∀ nm, S nm → S' nm) (hk : k ≤ k') :
    HasRead S' k' P v s P' v' := by
  obtain ⟨L, hP, hle, hL⟩ := h.pins
  exact ⟨h.coh, h.later.mono hS, h.file, L, hP, hle.trans hk, hL⟩

/-- What has been read has not been written to. -/
theorem mem_of_wrote {z : Pin} (h : HasRead S k P v s P' v') (hz : z ∈ P') (hw : z.wrote = true) :
    z ∈ P := by
  obtain ⟨L, rfl, -, -, hL⟩ := h.pins
  refine (Multiset.mem_add.mp hz).resolve_left fun hz => ?_
  rw [hL z hz] at hw
  cases hw

/-- The heap files are still there. -/
theorem isHeap (h : HasRead S k P v s P' v') (hH : IsHeap v nm fv H) : IsHeap v' nm fv H :=
  hH.same h.later (congrFun h.file nm)

end HasRead

/-- Each pin takes one frame at most. -/
theorem freeFrames_add (N : Nat) (L P : Multiset Pin) :
    freeFrames N P ≤ freeFrames N (L + P) + L.card := by
  induction L using Multiset.induction_on with
  | empty => rw [zero_add, Multiset.card_zero, add_zero]
  | cons x L ih =>
    have := freeFrames_cons N x (L + P)
    rw [Multiset.cons_add, Multiset.card_cons]
    omega

theorem HasRead.freeFrames_le {S : FileName → Prop} {k : Nat} {P P' : Multiset Pin} {v v' : View}
    {s : Sys} (h : HasRead S k P v s P' v') :
    freeFrames v.numBufs P ≤ freeFrames v'.numBufs P' + k := by
  obtain ⟨L, rfl, hk, -⟩ := h.pins
  have := freeFrames_add v.numBufs L P
  rw [h.later.numBufs]
  omega

/-! ## Files of tuples -/

/-- The records of the file are named tuples of `n` bytes. -/
def Heap.Tuples (n : Nat) (H : Heap) : Prop := ∀ rid b, H.rec? rid = some b → b.length = n ∧ Named b

/-- The tuple has this name. -/
def hasName (name : Bytes) (b : Bytes) : Bool := decide (cstr b = name)

theorem Heap.exists_of_mem_contents {H : Heap} {b : Bytes} (hb : b ∈ H.contents) :
    ∃ rid, H.rec? rid = some b := by
  rw [Heap.contents_eq] at hb
  obtain ⟨rid, -, hrid⟩ := List.mem_filterMap.mp hb
  exact ⟨rid, hrid⟩

namespace Heap.Tuples

variable {n : Nat} {H H' : Heap} {name : Bytes} {rid : RID} {b : Bytes}

theorem nul (h : H.Tuples n) (hb : H.rec? rid = some b) : 0 ∈ b :=
  List.mem_of_mem_take (h rid b hb).2.nul

/-- The name of a tuple is a C string that fits into its array. -/
theorem name_of_mem (h : H.Tuples n) (hb : b ∈ H.contents) (hname : hasName name b = true) :
    (0 : UInt8) ∉ name ∧ name.length < MAXNAME := by
  obtain ⟨rid, hrid⟩ := Heap.exists_of_mem_contents hb
  rw [← of_decide_eq_true hname]
  refine ⟨fun h0 => ?_, length_cstr_lt (h rid b hrid).2.nul⟩
  have hne := List.mem_takeWhile_imp h0
  simp at hne

theorem isName_of_mem (h : H.Tuples n) (hb : b ∈ H.contents) (hname : hasName name b = true) :
    IsName name := by
  obtain ⟨hnul, hlt⟩ := h.name_of_mem hb hname
  exact ⟨hnul, hlt.trans (by decide)⟩

/-- The filter with which the catalogs look for a name lets the tuples of that name pass. -/
theorem passes_eq (h : H.Tuples n) (hname : IsName name) (hb : b ∈ H.contents) :
    satisfies 0 (cSize name) .STRING (some (name ++ [0])) .EQ b = hasName name b := by
  obtain ⟨rid, hrid⟩ := Heap.exists_of_mem_contents hb
  rw [hname.cSize, satisfies_name (h rid b hrid).2 hname]
  rfl

/-- No tuple has a name that does not fit into its array. -/
theorem find?_long (h : H.Tuples n) (hlong : MAXNAME ≤ name.length) :
    H.contents.find? (hasName name) = none := by
  rw [List.find?_eq_none]
  exact fun b hb hname => absurd (h.name_of_mem hb hname).2 (not_lt.mpr hlong)

/-- It selects them. -/
theorem select_name (h : H.Tuples n) (hname : IsName name) (L : List RID) :
    H.select (satisfies 0 (name.length + 1) .STRING (some (name ++ [0])) .EQ) L =
      H.select (hasName name) L := by
  unfold Heap.select
  refine List.filterMap_congr fun rid _ => ?_
  cases hb : H.rec? rid with
  | none => rfl
  | some b =>
    rw [Option.bind_some, Option.bind_some, satisfies_name (h rid b hb).2 hname]
    rfl

end Heap.Tuples

/-! ## Copying a tuple -/

section Copy

variable {T : Prop} {s : Sys} {P R : Multiset Pin} {v : View} {nm : FileName} {c : Int}
  {sat : Bytes → Bool} {fv : FileView} {H : Heap} {h : HeapFileScan} {x : Pin}
  {rid : RID} {b : Bytes} {l : List (RID × Bytes)}

/-- `memcpy` of the current record: its first bytes, or the rest of the page from it on. -/
theorem copyRecord_spec (hs : Streams T R v nm c sat s h fv H x l) (hr : OnRecord h H rid b) :
    ∃ rec, Yields (HeapFileScan.getRecord h) s (.OK, rec) false s ∧ rec.length = b.length ∧
      (∀ n : Nat, n ≤ b.length → Yields (copyRecord h rec n) s (b.take n) false s) ∧
      ∃ t, Yields (copyRecord h rec (DATASIZE + SLOTSIZE - rec.data)) s (b ++ t) false s := by
  obtain ⟨rec, blk, hy, hlen, hblk, hfirst, t, hall⟩ := hs.getRecord hr
  refine ⟨rec, hy, hlen, fun n hn => ?_, t, ?_⟩
  · unfold copyRecord
    refine hblk.bind (d := false) ?_
    rw [hfirst n hn]
    exact Yields.pure _ _
  · unfold copyRecord
    refine hblk.bind (d := false) ?_
    rw [hall]
    exact Yields.pure _ _

/-- `memcpy` over memory of the same size. -/
theorem memcpy_eq {dst src : Bytes} (h : src.length = dst.length) : memcpy dst src = some src := by
  unfold memcpy
  rw [if_pos h.le, h, List.drop_length, List.append_nil]

/-- A scan of a catalog with the filter for a name. -/
theorem new_scanFilter {name : Bytes} (hc : Coh s P v) (hH : IsHeap v nm fv H)
    (hpos : 1 ≤ cSize name) (hT : T → 2 ≤ freeFrames v.numBufs P) :
    Clean T (HeapFileScan.new nm) s fun r s' => r.1 = .OK ∧ ∃ (h' : HeapFileScan) (x : Pin),
      r.2.startScan 0 (cSize name) .STRING (some (cStr name)) .EQ = (.OK, h') ∧
      x.wrote = false ∧ Later (· = nm) v (v.setHandle nm (some (h'.filePtr, v.openCnt nm + 1))) ∧
      Streams T P (v.setHandle nm (some (h'.filePtr, v.openCnt nm + 1))) nm (v.openCnt nm + 1)
        (satisfies 0 (cSize name) .STRING (some (name ++ [0])) .EQ) s' h' fv H x
        (H.select (satisfies 0 (cSize name) .STRING (some (name ++ [0])) .EQ) H.rids) ∧
      h'.curDirtyFlag = false := by
  refine (new_streams hc hH hT).mono ?_
  rintro ⟨st, h⟩ s' ⟨hst, -, x, hx, hsame, hstream⟩
  have hcmp := compares_name hpos
  refine ⟨hst, _, x, startScan_some hcmp.offset_nonneg hcmp.length_pos hcmp.length_word, hx,
    .setHandle hH.opened hsame, ?_⟩
  exact hstream _ _ rfl (answers_filter rfl hcmp fun _ _ _ _ _ _ _ => rfl)

/-- `startScan` does not accept a size that is not a positive `int`. -/
theorem startScan_refused {name : Bytes} (hneg : cSize name < 1) :
    h.startScan 0 (cSize name) .STRING (some (cStr name)) .EQ = (.BADSCANPARM, h) := by
  unfold HeapFileScan.startScan
  rw [if_neg (show ¬(some (cStr name)).isNone = true from Bool.false_ne_true),
    if_pos (Or.inl (Or.inr hneg))]

/-- A scan of all the tuples of a catalog. -/
theorem new_scanAll (hc : Coh s P v) (hH : IsHeap v nm fv H) (hT : T → 2 ≤ freeFrames v.numBufs P) :
    Clean T (HeapFileScan.new nm) s fun r s' => r.1 = .OK ∧ ∃ (h' : HeapFileScan) (x : Pin),
      r.2.startScan 0 0 .STRING none .EQ = (.OK, h') ∧
      x.wrote = false ∧ Later (· = nm) v (v.setHandle nm (some (h'.filePtr, v.openCnt nm + 1))) ∧
      Streams T P (v.setHandle nm (some (h'.filePtr, v.openCnt nm + 1))) nm (v.openCnt nm + 1)
        (fun _ => true) s' h' fv H x H.records ∧ h'.curDirtyFlag = false := by
  refine (new_streams hc hH hT).mono ?_
  rintro ⟨st, h⟩ s' ⟨hst, -, x, hx, hsame, hstream⟩
  have hall : H.select (fun _ => true) H.rids = H.records := by
    rw [Heap.select_rids]
    exact List.filter_true _
  refine ⟨hst, { h with filter := none }, x, rfl, hx, .setHandle hH.opened hsame, ?_⟩
  rw [← hall]
  exact hstream _ _ rfl (answers_all _ _ _ _ rfl)

/-- What a scan leaves that has read, and has given its data page back. -/
theorem hasRead_of_endScan {f : FilePtr} (hc : Coh s (x ::ₘ P)
      ((v.setHandle nm (some (f, v.openCnt nm + 1))).setFile nm (some fv)))
    (hH : IsHeap v nm fv H)
      (hlater : Later (· = nm) v (v.setHandle nm (some (f, v.openCnt nm + 1))))
    (hx : x.wrote = false) (hfile : x.file = f) :
    HasRead (· = nm) 1 P v s (x ::ₘ P) (v.setHandle nm (some (f, v.openCnt nm + 1))) := by
  have hwf : (v.setHandle nm (some (f, v.openCnt nm + 1))).file nm = some fv := hH.file
  have hacc : Accounted v _ {x} := .setHandle hc fun z hz => by
    rw [Multiset.mem_singleton.mp hz]
    exact hfile
  rw [View.setFile_self hwf] at hc
  refine ⟨hc, hlater, rfl, {x}, rfl, le_refl 1, hacc, fun z hz => ?_⟩
  rw [Multiset.mem_singleton.mp hz]
  exact hx

/-- What a scan leaves that has read, and has not given its data page back. -/
theorem hasRead_of_abandon {f : FilePtr}
    (hs : Streams T P (v.setHandle nm (some (f, v.openCnt nm + 1))) nm
      (v.openCnt nm + 1) sat s h fv H
      x l)
    (hH : IsHeap v nm fv H)
      (hlater : Later (· = nm) v (v.setHandle nm (some (f, v.openCnt nm + 1))))
    (hx : x.wrote = false) (hclean : h.curDirtyFlag = false) :
    ∃ P', HasRead (· = nm) 2 P v s P' (v.setHandle nm (some (f, v.openCnt nm + 1))) := by
  obtain ⟨y, hc, hy, hfile⟩ := hs.abandon
  have hwf : (v.setHandle nm (some (f, v.openCnt nm + 1))).file nm = some fv := hH.file
  have hacc : Accounted v _ (y ::ₘ x ::ₘ 0) :=
    .setHandle hc fun z hz => (hfile z hz).trans hs.filePtr
  rw [View.setFile_self hwf] at hc
  refine ⟨_, hc, hlater, rfl, _, rfl, le_refl 2, hacc, fun z hz => ?_⟩
  rcases Multiset.mem_cons.mp hz with rfl | hz
  · exact Bool.eq_false_iff.mpr fun ht => by
      rw [hy ht] at hclean
      cases hclean
  · rw [Multiset.mem_singleton.mp hz]
    exact hx

end Copy

/-- The records that are selected. -/
theorem Heap.map_select (H : Heap) (sat : Bytes → Bool) :
    (H.select sat H.rids).map Prod.snd = H.contents.filter sat := by
  rw [Heap.select_rids]
  exact List.filter_map.symm

/-- The first record that is selected. -/
theorem Heap.find?_contents (H : Heap) (sat : Bytes → Bool) :
    H.contents.find? sat = (H.select sat H.rids).head?.map Prod.snd := by
  rw [Heap.select_rids, List.head?_filter]
  exact List.find?_map

/-- The filter for a name finds the first tuple that has it. -/
theorem Heap.Tuples.find?_name {n : Nat} {H : Heap} {name : Bytes} (h : H.Tuples n)
    (hname : IsName name) :
    H.contents.find? (satisfies 0 (cSize name) .STRING (some (name ++ [0])) .EQ) =
      H.contents.find? (hasName name) :=
  List.find?_congr fun _ hb => h.passes_eq hname hb

/-! ## `getInfo` -/

section GetInfo

variable {T : Prop} {s : Sys} {P : Multiset Pin} {v : View} {fv : FileView} {H : Heap}
  {relation : Bytes}

/-- `RelCatalog::getInfo` returns the first tuple of `relcat` that passes its filter. -/
theorem RelCatalog.getInfo_filter (fuel : Nat) {record : RelDesc} (hc : Coh s P v)
    (hH : IsHeap v RELCATNAME fv H) (htuples : H.Tuples 36) (hpos : 1 ≤ cSize relation)
    (hne : relation ≠ []) (hrec : record.Sized)
    (hT : T → 2 ≤ freeFrames v.numBufs P ∧ H.rids.length + H.pages.length + 1 ≤ fuel) :
    Clean T (RelCatalog.getInfo fuel relation record) s fun r s' =>
      (∃ P' v', HasRead (· = RELCATNAME) 1 P v s' P' v') ∧
      r = (H.contents.find? (satisfies 0 (cSize relation) .STRING
        (some (relation ++ [0])) .EQ)).elim
        (.RELNOTFOUND, record) fun b => (.OK, RelDesc.ofBytes b) := by
  unfold RelCatalog.getInfo
  rw [if_neg hne]
  refine (new_scanFilter hc hH hpos fun ht => (hT ht).1).bind ?_
  rintro ⟨st, h⟩ s₁ ⟨hst, h', x, hstart, hx, hlater, hs, hclean⟩
  dsimp only at hst hstart ⊢
  subst hst
  rw [if_neg fun hn => hn rfl, hstart]
  dsimp only
  rw [if_neg fun hn => hn rfl]
  refine (hs.next_clean fuel hclean fun ht => ?_).bind ?_
  · have := hT ht
    have := freeFrames_cons v.numBufs x P
    show 0 < freeFrames v.numBufs _ ∧ _
    omega
  rintro ⟨st, rid, h₂⟩ s₂ ⟨hclean₂, hs₂, hnext⟩
  dsimp only at hclean₂ hs₂ hnext ⊢
  obtain ⟨s₃, h₃, hend, hc₃⟩ := hs₂.endScan_clean hclean₂
  have hread := hasRead_of_endScan hc₃ hH hlater hx (hs₂.header.file.trans hs₂.filePtr)
  rw [Heap.find?_contents]
  generalize H.select _ H.rids = l at hnext ⊢
  cases hnext with
  | @record rid b l hr =>
    rw [if_pos rfl]
    obtain ⟨rec, hget, hlen, hcopy, -⟩ := copyRecord_spec hs₂ hr
    rw [clean_bind_of_yields hget]
    dsimp only
    rw [if_neg fun hn => hn rfl, hlen, clean_bind_of_yields (hcopy b.length le_rfl),
      List.take_length,
      memcpy_eq (by rw [RelDesc.length_bytes hrec, (htuples _ _ hr.record).1]),
      clean_ofOption_some_bind, clean_bind_of_yields hend, clean_pure]
    exact ⟨⟨_, _, hread⟩, rfl⟩
  | eof =>
    rw [if_neg nofun, clean_bind_of_yields hend, if_pos rfl, clean_pure]
    exact ⟨⟨_, _, hread⟩, rfl⟩

/-- `RelCatalog::getInfo` returns the first tuple of `relcat` with the name. -/
theorem RelCatalog.getInfo_spec (fuel : Nat) {record : RelDesc} (hc : Coh s P v)
    (hH : IsHeap v RELCATNAME fv H) (htuples : H.Tuples 36) (hname : IsName relation)
    (hne : relation ≠ []) (hrec : record.Sized)
    (hT : T → 2 ≤ freeFrames v.numBufs P ∧ H.rids.length + H.pages.length + 1 ≤ fuel) :
    Clean T (RelCatalog.getInfo fuel relation record) s fun r s' =>
      (∃ P' v', HasRead (· = RELCATNAME) 1 P v s' P' v') ∧
      r = (H.contents.find? (hasName relation)).elim (.RELNOTFOUND, record)
        fun b => (.OK, RelDesc.ofBytes b) := by
  rw [← htuples.find?_name hname]
  exact getInfo_filter fuel hc hH htuples (by rw [hname.cSize]; omega) hne hrec hT

/-- `RelCatalog::getInfo` of a string whose size is not a positive `int`. -/
theorem RelCatalog.getInfo_refused (fuel : Nat) {record : RelDesc} (hc : Coh s P v)
    (hH : IsHeap v RELCATNAME fv H) (hneg : cSize relation < 1) (hne : relation ≠ [])
    (hT : T → 2 ≤ freeFrames v.numBufs P) :
    Clean T (RelCatalog.getInfo fuel relation record) s fun r _ => r = (.BADSCANPARM, record) := by
  unfold RelCatalog.getInfo
  rw [if_neg hne]
  refine (new_streams hc hH hT).bind ?_
  rintro ⟨st, h⟩ s₁ ⟨hst, -⟩
  dsimp only at hst ⊢
  subst hst
  rw [if_neg fun hn => hn rfl, startScan_refused hneg]
  dsimp only
  rw [if_pos nofun, clean_pure]

end GetInfo

/-! ## `AttrCatalog::getInfo` -/

/-- The tuple is that of this attribute. -/
def hasNames (relation attrName : Bytes) (b : Bytes) : Bool :=
  hasName relation b && decide (cstr (b.drop MAXNAME) = attrName)

/-- The records of the file are tuples of attributes: both names are C strings in their arrays. -/
structure Heap.AttrTuples (H : Heap) : Prop where
  tuples : H.Tuples 76
  nul : ∀ rid b, H.rec? rid = some b → 0 ∈ (b.drop MAXNAME).take MAXNAME

section GetAttr

variable {T : Prop} {s : Sys} {P R : Multiset Pin} {v : View} {nm : FileName} {c : Int}
  {sat : Bytes → Bool} {fv : FileView} {H : Heap} {h : HeapFileScan} {x : Pin} {rid : RID}
  {l : List (RID × Bytes)} {st : Status} {relation attrName : Bytes}

/-- The name of an attribute in its tuple. -/
theorem Heap.AttrTuples.cString (h : H.AttrTuples) {b : Bytes} (hb : H.rec? rid = some b) :
    Minirel.cString (b.drop MAXNAME) = some (cstr (b.drop MAXNAME)) :=
  if_pos (List.mem_of_mem_take (h.nul rid b hb))

/-- A tuple fills a descriptor. -/
theorem Heap.AttrTuples.sized (h : H.AttrTuples) {b : Bytes} (hb : H.rec? rid = some b) :
    (AttrDesc.ofBytes b).Sized := by
  obtain ⟨hlen, hnamed⟩ := h.tuples rid b hb
  refine ⟨List.length_take_of_le hnamed.length, ?_⟩
  unfold AttrDesc.ofBytes MAXNAME
  rw [List.length_take, List.length_drop]
  omega

/-- The second name of the tuple. -/
def hasAttrName (attrName : Bytes) (b : Bytes) : Bool := decide (cstr (b.drop MAXNAME) = attrName)

/-- The loop of `getInfo` stops at the first tuple that is left and has the name. -/
theorem AttrCatalog.getLoop_spec (fuel : Nat) {record : AttrDesc}
    (hs : Streams T R v nm c sat s h fv H x l.tail) (hnext : Next h H l st rid)
    (hclean : h.curDirtyFlag = false) (htuples : H.AttrTuples) (hrec : record.Sized)
    (hT : T → 0 < freeFrames v.numBufs (x ::ₘ R) ∧
      l.length + H.rids.length + H.pages.length + 1 ≤ fuel) :
    Clean T (getLoop attrName fuel st h record) s fun r s' =>
      ∃ h' l', Streams T R v nm c sat s' h' fv H x l' ∧ h'.curDirtyFlag = false ∧
        match (l.map Prod.snd).find? (hasAttrName attrName) with
        | some b => r = (none, .OK, h', AttrDesc.ofBytes b)
        | none => ∃ d, d.Sized ∧ r = (none, .FILEEOF, h', d) := by
  induction fuel generalizing s h l st rid record with
  | zero => exact Clean.failure fun ht => absurd (hT ht).2 (Nat.not_succ_le_zero _)
  | succ fuel ih =>
    unfold getLoop
    cases hnext with
    | eof =>
      rw [if_pos nofun, clean_pure]
      exact ⟨h, _, hs, hclean, record, hrec, rfl⟩
    | @record rid b l hr =>
      obtain ⟨rec, hget, hlen, hcopy, -⟩ := copyRecord_spec hs hr
      rw [if_neg fun hn => hn rfl, clean_bind_of_yields hget]
      dsimp only
      rw [if_neg fun hn => hn rfl, hlen, clean_bind_of_yields (hcopy b.length le_rfl),
        List.take_length,
        memcpy_eq (by rw [AttrDesc.length_bytes hrec, (htuples.tuples _ _ hr.record).1]),
        clean_ofOption_some_bind, htuples.cString hr.record, clean_ofOption_some_bind,
        List.map_cons]
      by_cases hname : cstr (b.drop MAXNAME) = attrName
      · rw [if_pos hname, clean_pure, List.find?_cons_of_pos (p := hasAttrName attrName)
          (decide_eq_true hname)]
        exact ⟨h, _, hs, hclean, rfl⟩
      · -- the scan moves on to the next candidate
        rw [if_neg hname, List.find?_cons_of_neg (p := hasAttrName attrName) fun ht => hname
          (of_decide_eq_true ht)]
        have hfuel : T → 0 < freeFrames v.numBufs (x ::ₘ R) ∧
            l.length + H.rids.length + H.pages.length + 1 ≤ fuel := fun ht => by
          obtain ⟨h₁, h₂⟩ := hT ht
          rw [List.length_cons] at h₂
          exact ⟨h₁, by omega⟩
        refine (hs.next_clean fuel hclean fun ht => ?_).bind ?_
        · obtain ⟨h₁, h₂⟩ := hfuel ht
          exact ⟨h₁, by omega⟩
        rintro ⟨st', rid', h'⟩ s' ⟨hclean', hs', hnext'⟩
        exact ih hs' hnext' hclean' (htuples.sized hr.record) hfuel

/-- What a lookup looks for: the tuples that pass the filter for the relation and have the name of
the attribute. -/
def AttrCatalog.candidate (relation attrName b : Bytes) : Bool :=
  satisfies 0 (cSize relation) .STRING (some (relation ++ [0])) .EQ b && hasAttrName attrName b

namespace AttrCatalog

/-- The part of `getInfo` before it merges its statuses: the status that is returned early, if there
is one, the status of the last `scanNext`, the scan, and the record. -/
def scanFor (fuel : Nat) (relation attrName : Bytes) (record : AttrDesc) :
    M (Option Status × Status × HeapFileScan × AttrDesc) := do
  let (status, hfs) ← HeapFileScan.new ATTRCATNAME
  if status ≠ .OK then return (some status, status, hfs, record) else
  let (status, hfs) := hfs.startScan 0 (cSize relation) .STRING (some (cStr relation)) .EQ
  if status ≠ .OK then return (some status, status, hfs, record) else
  let (status, _, hfs) ← hfs.scanNext fuel
  getLoop attrName fuel status hfs record

/-- The part of `getInfo` that merges them. -/
def merge (r : Option Status × Status × HeapFileScan × AttrDesc) : M (Status × AttrDesc) :=
  match r.1 with
  | some status => return (status, r.2.2.2)
  | none => do
    if r.2.1 ≠ .FILEEOF then
      let (status, _) ← r.2.2.1.endScan
      return (status, r.2.2.2)
    else return (.ATTRNOTFOUND, r.2.2.2)

theorem getInfo_eq (fuel : Nat) (hne : relation ≠ []) (hne' : attrName ≠ []) :
    getInfo fuel relation attrName record = scanFor fuel relation attrName record >>= merge := by
  unfold getInfo scanFor
  rw [if_neg (not_or_intro hne hne'), bind_assoc]
  refine bind_congr fun r => ?_
  dsimp only
  split
  · rw [pure_bind]
    rfl
  split
  · rw [pure_bind]
    rfl
  rw [bind_assoc]
  refine bind_congr fun q => ?_
  refine bind_congr fun l => ?_
  unfold merge
  rfl

/-- Without faults the scan of a lookup ends with the first candidate, or at the end of the file. -/
theorem scanFor_spec (fuel : Nat) {record : AttrDesc} (hc : Coh s P v)
    (hH : IsHeap v ATTRCATNAME fv H) (htuples : H.AttrTuples) (hpos : 1 ≤ cSize relation)
    (hrec : record.Sized)
    (hT : T → 2 ≤ freeFrames v.numBufs P ∧ 2 * H.rids.length + H.pages.length + 1 ≤ fuel) :
    Clean T (scanFor fuel relation attrName record) s fun r s' => ∃ (h : HeapFileScan)
    (x : Pin) (l : _),
      x.wrote = false ∧
      Later (· = ATTRCATNAME) v (v.setHandle ATTRCATNAME (some (h.filePtr,
      v.openCnt ATTRCATNAME + 1))) ∧
      Streams T P (v.setHandle ATTRCATNAME (some (h.filePtr,
      v.openCnt ATTRCATNAME + 1))) ATTRCATNAME
        (v.openCnt ATTRCATNAME + 1) (satisfies 0 (cSize relation) .STRING
          (some (relation ++ [0])) .EQ) s' h
        fv H x l ∧ h.curDirtyFlag = false ∧
      match H.contents.find? (candidate relation attrName) with
      | some b => r = (none, .OK, h, AttrDesc.ofBytes b)
      | none => ∃ d, d.Sized ∧ r = (none, .FILEEOF, h, d) := by
  unfold scanFor
  refine (new_scanFilter hc hH hpos fun ht => (hT ht).1).bind ?_
  rintro ⟨st, h⟩ s₁ ⟨hst, h', x, hstart, hx, hlater, hs, hclean⟩
  dsimp only at hst hstart ⊢
  subst hst
  rw [if_neg fun hn => hn rfl, hstart]
  dsimp only
  rw [if_neg fun hn => hn rfl]
  have hfree : T → 0 < freeFrames v.numBufs (x ::ₘ P) := fun ht => by
    have := (hT ht).1
    have := freeFrames_cons v.numBufs x P
    omega
  refine (hs.next_clean fuel hclean fun ht => ?_).bind ?_
  · have := (hT ht).2
    exact ⟨hfree ht, by omega⟩
  rintro ⟨st, rid, h₂⟩ s₂ ⟨hclean₂, hs₂, hnext⟩
  dsimp only at hclean₂ hs₂ hnext ⊢
  refine (getLoop_spec fuel hs₂ hnext hclean₂ htuples hrec fun ht => ?_).mono ?_
  · have hsel : (H.select (satisfies 0 (cSize relation) .STRING (some (relation ++ [0])) .EQ)
        H.rids).length ≤ H.rids.length := List.length_filterMap_le _ _
    have := (hT ht).2
    exact ⟨hfree ht, by omega⟩
  rintro r s₃ ⟨h₃, l', hs₃, hclean₃, hr⟩
  -- the loop looks among the tuples that pass the filter
  have hfind : (H.contents.filter (satisfies 0 (cSize relation) .STRING
    (some (relation ++ [0])) .EQ)).find?
      (hasAttrName attrName) = H.contents.find? (candidate relation attrName) := by
    rw [List.find?_filter]
    exact congrArg (List.find? · H.contents) (funext fun b => by simp [candidate])
  rw [Heap.map_select, hfind] at hr
  have hptr : h₃.filePtr = h'.filePtr := hs₃.filePtr
  exact ⟨h₃, x, l', hx, hptr ▸ hlater, hptr ▸ hs₃, hclean₃, hr⟩

end AttrCatalog

/-- `AttrCatalog::getInfo` returns the first candidate. -/
theorem AttrCatalog.getInfo_filter (fuel : Nat) {record : AttrDesc} (hc : Coh s P v)
    (hH : IsHeap v ATTRCATNAME fv H) (htuples : H.AttrTuples) (hpos : 1 ≤ cSize relation)
    (hne : relation ≠ []) (hne' : attrName ≠ []) (hrec : record.Sized)
    (hT : T → 2 ≤ freeFrames v.numBufs P ∧ 2 * H.rids.length + H.pages.length + 1 ≤ fuel) :
    Clean T (getInfo fuel relation attrName record) s fun r s' =>
      match H.contents.find? (candidate relation attrName) with
      | some b =>
        r = (.OK, AttrDesc.ofBytes b) ∧ ∃ x v', HasRead (· = ATTRCATNAME) 1 P v s' (x ::ₘ P) v' ∧
          x.pageNo = H.hdrNo ∧ ∃ c, v'.handle ATTRCATNAME = some (x.file, c)
      | none =>
        r.1 = .ATTRNOTFOUND ∧ r.2.Sized ∧ ∃ P' v', HasRead (· = ATTRCATNAME) 2 P v s' P' v' := by
  rw [getInfo_eq fuel hne hne']
  refine (scanFor_spec fuel hc hH htuples hpos hrec hT).bind ?_
  rintro r s₃ ⟨h, x, l, hx, hlater, hs₃, hclean₃, hr⟩
  unfold merge
  cases hb : H.contents.find? (candidate relation attrName) with
  | some b =>
    rw [hb] at hr
    cases hr
    obtain ⟨s₄, h₅, hend, hc₄⟩ := hs₃.endScan_clean hclean₃
    dsimp only
    rw [if_pos nofun, clean_bind_of_yields hend, clean_pure]
    have hread := hasRead_of_endScan hc₄ hH hlater hx (hs₃.header.file.trans hs₃.filePtr)
    refine ⟨rfl, x, _, hread, hs₃.header.pageNo, v.openCnt ATTRCATNAME + 1, ?_⟩
    rw [View.handle_setHandle_self, hs₃.header.file, hs₃.filePtr]
  | none =>
    rw [hb] at hr
    obtain ⟨d', hsized, hr⟩ := hr
    cases hr
    dsimp only
    rw [if_neg fun hn => hn rfl, clean_pure]
    obtain ⟨P', hread⟩ := hasRead_of_abandon hs₃ hH hlater hx hclean₃
    exact ⟨rfl, hsized, P', _, hread⟩

/-- The filter for the relation lets the tuple of the attribute pass, and no tuple of another
relation. -/
theorem Heap.Tuples.find?_names {n : Nat} (h : H.Tuples n) (hname : IsName relation) :
    H.contents.find? (AttrCatalog.candidate relation attrName) =
      H.contents.find? (hasNames relation attrName) := by
  refine List.find?_congr fun b hb => ?_
  unfold AttrCatalog.candidate
  rw [h.passes_eq hname hb]
  rfl

/-- `AttrCatalog::getInfo` returns the first tuple of `attrcat` with the names. -/
theorem AttrCatalog.getInfo_spec (fuel : Nat) {record : AttrDesc} (hc : Coh s P v)
    (hH : IsHeap v ATTRCATNAME fv H) (htuples : H.AttrTuples) (hname : IsName relation)
    (hne : relation ≠ []) (hne' : attrName ≠ []) (hrec : record.Sized)
    (hT : T → 2 ≤ freeFrames v.numBufs P ∧ 2 * H.rids.length + H.pages.length + 1 ≤ fuel) :
    Clean T (getInfo fuel relation attrName record) s fun r s' =>
      match H.contents.find? (hasNames relation attrName) with
      | some b =>
        r = (.OK, AttrDesc.ofBytes b) ∧ ∃ x v', HasRead (· = ATTRCATNAME) 1 P v s' (x ::ₘ P) v' ∧
          x.pageNo = H.hdrNo ∧ ∃ c, v'.handle ATTRCATNAME = some (x.file, c)
      | none =>
        r.1 = .ATTRNOTFOUND ∧ r.2.Sized ∧ ∃ P' v', HasRead (· = ATTRCATNAME) 2 P v s' P' v' := by
  rw [← htuples.tuples.find?_names hname]
  exact getInfo_filter fuel hc hH htuples (by rw [hname.cSize]; omega) hne hne' hrec hT

end GetAttr

/-! ## `getRelInfo` -/

section GetRelInfo

variable {T : Prop} {s : Sys} {P R : Multiset Pin} {v : View} {nm : FileName} {c : Int} {n : Nat}
  {fv : FileView} {H : Heap} {h : HeapFileScan} {x : Pin} {l : List (RID × Bytes)} {st : Status}
  {relation : Bytes}

/-- The descriptors in the tuples of a relation. -/
def relAttrs (relation : Bytes) (l : List Bytes) : List AttrDesc :=
  (l.filter (hasName relation)).map AttrDesc.ofBytes

theorem relAttrs_cons_of_name {b : Bytes} {bs : List Bytes} (h : cstr b = relation) :
    relAttrs relation (b :: bs) = AttrDesc.ofBytes b :: relAttrs relation bs := by
  unfold relAttrs
  rw [List.filter_cons_of_pos (show hasName relation b = true from decide_eq_true h), List.map_cons]

theorem relAttrs_cons_of_ne {b : Bytes} {bs : List Bytes} (h : cstr b ≠ relation) :
    relAttrs relation (b :: bs) = relAttrs relation bs := by
  unfold relAttrs
  rw [List.filter_cons_of_neg (p := hasName relation) fun ht => h (of_decide_eq_true ht)]

theorem drop_set_self {α : Type} {l : List α} {n : Nat} {a : α} (h : n < l.length) :
    (l.set n a).drop n = a :: l.drop (n + 1) := by
  rw [List.drop_eq_getElem_cons (by rwa [List.length_set]), List.getElem_set_self,
    List.drop_set_of_lt (Nat.lt_succ_self n)]

/-- The array of `getRelInfo` after the tuples `l`, with `amount` the index of the entry to fill
next. -/
def fillAttrs (relation : Bytes) : List Bytes → Int → List AttrDesc → List AttrDesc
  | [], _, attrs => attrs
  | b :: l, amount, attrs =>
    if amount < 0 then attrs else
    fillAttrs relation l (if cstr b = relation then amount - 1 else amount)
      (attrs.set amount.toNat (AttrDesc.ofBytes b))

theorem fillAttrs_of_neg {l : List Bytes} {amount : Int} {attrs : List AttrDesc} (h : amount < 0) :
    fillAttrs relation l amount attrs = attrs := by
  cases l with
  | nil => rfl
  | cons b l =>
    unfold fillAttrs
    rw [if_pos h]

/-- The array is filled from its end. An entry with the tuple of another relation is overwritten, as
long as there are tuples of the relation left for all the entries. -/
theorem fillAttrs_eq {l : List Bytes} {n : Nat} {attrs : List AttrDesc}
    (hn : n ≤ (relAttrs relation l).length) (hlen : n ≤ attrs.length) :
    fillAttrs relation l (n - 1) attrs = ((relAttrs relation l).take n).reverse ++
    attrs.drop n := by
  induction l generalizing n attrs with
  | nil =>
    obtain rfl : n = 0 := Nat.le_zero.mp hn
    rfl
  | cons b l ih =>
    cases n with
    | zero =>
      -- all entries have been filled
      rw [fillAttrs_of_neg (by decide)]
      rfl
    | succ n =>
      have hidx : ((n + 1 : Nat) : Int) - 1 = (n : Nat) := by omega
      unfold fillAttrs
      rw [hidx, if_neg (by omega), Int.toNat_natCast]
      by_cases hb : cstr b = relation
      · -- the entry stays as it is
        rw [relAttrs_cons_of_name hb, List.length_cons] at hn
        rw [if_pos hb, ih (Nat.le_of_succ_le_succ hn)
          (by rw [List.length_set]; exact Nat.le_of_succ_le hlen), drop_set_self hlen,
          relAttrs_cons_of_name hb, List.take_succ_cons, List.reverse_cons, List.append_assoc]
        rfl
      · -- the entry is going to be overwritten
        rw [relAttrs_cons_of_ne hb] at hn ⊢
        rw [if_neg hb, ← hidx, ih hn (by rwa [List.length_set]),
          List.drop_set_of_lt (Nat.lt_succ_self n)]

/-- The loop of `getRelInfo` fills the array with the tuples that are left. -/
theorem AttrCatalog.relInfoLoop_spec (fuel : Nat) {amount : Int} {attrs : List AttrDesc}
    (hs : Streams T R v nm c (fun _ => true) s h fv H x l.tail) (hnext : Next h H l st rid)
    (hclean : h.curDirtyFlag = false) (htuples : H.Tuples 76) (hnul : (0 : UInt8) ∉ relation)
    (hT : T → 0 < freeFrames v.numBufs (x ::ₘ R) ∧
      l.length + H.rids.length + H.pages.length + 1 ≤ fuel) :
    Clean T (relInfoLoop relation fuel st h amount attrs) s fun r s' =>
      r = (.OK, fillAttrs relation (l.map Prod.snd) amount attrs) ∧
      ∃ h' l', Streams T R v nm c (fun _ => true) s' h' fv H x l' ∧ h'.curDirtyFlag = false := by
  induction fuel generalizing s h l st rid amount attrs with
  | zero => exact Clean.failure fun ht => absurd (hT ht).2 (Nat.not_succ_le_zero _)
  | succ fuel ih =>
    unfold relInfoLoop
    cases hnext with
    | eof =>
      rw [if_pos rfl, clean_pure]
      exact ⟨rfl, h, _, hs, hclean⟩
    | @record rid b l hr =>
      rw [if_neg nofun, List.map_cons]
      by_cases hneg : amount < 0
      · -- the array is full
        rw [if_pos hneg, clean_pure, fillAttrs_of_neg hneg]
        exact ⟨rfl, h, _, hs, hclean⟩
      rw [if_neg hneg, if_neg fun hn => hn rfl]
      have hb76 := (htuples _ _ hr.record).1
      obtain ⟨rec, hget, -, hcopy, -⟩ := copyRecord_spec hs hr
      have hcopy : Yields (copyRecord h rec 76) s b false s := by
        have := hcopy b.length le_rfl
        rwa [List.take_length, hb76] at this
      rw [clean_bind_of_yields hget]
      dsimp only
      rw [if_neg fun hn => hn rfl, clean_bind_of_yields hcopy]
      have hcmp := strcmpEq_name (t := []) (htuples.nul hr.record) hnul
      rw [List.append_nil] at hcmp
      rw [hcmp, clean_ofOption_some_bind]
      have hfuel : T → 0 < freeFrames v.numBufs (x ::ₘ R) ∧
          l.length + H.rids.length + H.pages.length + 1 ≤ fuel := fun ht => by
        obtain ⟨h₁, h₂⟩ := hT ht
        rw [List.length_cons] at h₂
        exact ⟨h₁, by omega⟩
      refine (hs.next_clean fuel hclean fun ht => ?_).bind ?_
      · obtain ⟨h₁, h₂⟩ := hfuel ht
        exact ⟨h₁, by omega⟩
      rintro ⟨st', rid', h'⟩ s' ⟨hclean', hs', hnext'⟩
      dsimp only at hclean' hs' hnext' ⊢
      refine (ih hs' hnext' hclean' hfuel).mono ?_
      rintro r s'' ⟨rfl, hrest⟩
      refine ⟨?_, hrest⟩
      rw [fillAttrs, if_neg hneg]
      simp only [decide_eq_true_eq]
      rfl

/-- `AttrCatalog::getRelInfo` asks for as many tuples as the first tuple of `relcat` that passes the
filter says. -/
theorem AttrCatalog.getRelInfo_filter (fuel : Nat) {junk : RelDesc} {junkAttr : AttrDesc}
    {attrCnt : Int} {attrs : List AttrDesc} {fvA : FileView} {HA : Heap} (hc : Coh s P v)
    (hH : IsHeap v RELCATNAME fv H) (htuples : H.Tuples 36) (hHA : IsHeap v ATTRCATNAME fvA HA)
    (htuplesA : HA.Tuples 76) (hnul : (0 : UInt8) ∉ relation) (hpos : 1 ≤ cSize relation)
    (hne : relation ≠ []) (hjunk : junk.Sized)
    (hT : T → 3 ≤ freeFrames v.numBufs P ∧ H.rids.length + H.pages.length + 1 ≤ fuel ∧
      2 * HA.rids.length + HA.pages.length + 1 ≤ fuel ∧
      ∀ b, H.contents.find? (satisfies 0 (cSize relation) .STRING (some (relation ++ [0])) .EQ) =
        some b → 0 ≤ (RelDesc.ofBytes b).attrCnt) :
    Clean T (getRelInfo fuel junk junkAttr relation attrCnt attrs) s fun r s' =>
      (∃ P' v', HasRead (fun nm => nm = RELCATNAME ∨ nm = ATTRCATNAME) 3 P v s' P' v') ∧
      match H.contents.find? (satisfies 0 (cSize relation) .STRING
        (some (relation ++ [0])) .EQ) with
      | none => r = (.RELNOTFOUND, attrCnt, attrs)
      | some b => 0 ≤ (RelDesc.ofBytes b).attrCnt ∧ r = (.OK, (RelDesc.ofBytes b).attrCnt,
        fillAttrs relation HA.contents ((RelDesc.ofBytes b).attrCnt - 1)
          (List.replicate (RelDesc.ofBytes b).attrCnt.toNat junkAttr)) := by
  unfold getRelInfo
  rw [if_neg hne]
  refine (RelCatalog.getInfo_filter fuel hc hH htuples hpos hne hjunk fun ht => ?_).bind ?_
  · obtain ⟨h₁, h₂, -⟩ := hT ht
    exact ⟨by omega, h₂⟩
  rintro ⟨st, d⟩ s₁ ⟨⟨P₁, v₁, hread⟩, hr⟩
  cases hfind : H.contents.find?
    (satisfies 0 (cSize relation) .STRING (some (relation ++ [0])) .EQ) with
  | none =>
    rw [hfind] at hr
    cases hr
    dsimp only
    rw [if_pos nofun, clean_pure]
    exact ⟨⟨P₁, v₁, hread.mono (fun _ => Or.inl) (by decide)⟩, rfl⟩
  | some b =>
    rw [hfind] at hr
    cases hr
    dsimp only
    rw [if_neg fun hn => hn rfl]
    by_cases hcnt : (RelDesc.ofBytes b).attrCnt < 0
    · rw [if_pos hcnt]
      exact Clean.failure fun ht => absurd ((hT ht).2.2.2 b hfind) (not_le.mpr hcnt)
    rw [if_neg hcnt]
    have hHA₁ := hread.isHeap hHA
    refine (new_scanAll hread.coh hHA₁ fun ht => ?_).bind ?_
    · have := (hT ht).1
      have := hread.freeFrames_le
      omega
    rintro ⟨st, h⟩ s₂ ⟨hst, h', x, hstart, hx, hlater, hs, hclean⟩
    dsimp only at hst hstart ⊢
    subst hst
    rw [if_neg fun hn => hn rfl, hstart]
    dsimp only
    rw [if_neg fun hn => hn rfl]
    have hrecs : HA.records.length ≤ HA.rids.length := List.length_filterMap_le _ _
    have hfree : T → 0 < freeFrames v₁.numBufs (x ::ₘ P₁) := fun ht => by
      have := (hT ht).1
      have := hread.freeFrames_le
      have := freeFrames_cons v₁.numBufs x P₁
      omega
    refine (hs.next_clean fuel hclean fun ht => ?_).bind ?_
    · have := (hT ht).2.2.1
      exact ⟨hfree ht, by omega⟩
    rintro ⟨st, rid, h₂⟩ s₃ ⟨hclean₂, hs₂, hnext⟩
    dsimp only at hclean₂ hs₂ hnext ⊢
    refine (relInfoLoop_spec fuel hs₂ hnext hclean₂ htuplesA hnul fun ht => ?_).bind ?_
    · have := (hT ht).2.2.1
      exact ⟨hfree ht, by omega⟩
    rintro ⟨st, l⟩ s₄ ⟨hr, h₃, l', hs₃, hclean₃⟩
    cases hr
    rw [clean_pure]
    obtain ⟨P₂, hread₂⟩ := hasRead_of_abandon hs₃ hHA₁ hlater hx hclean₃
    exact ⟨⟨P₂, _, (hread.mono (fun _ => Or.inl) le_rfl).trans
      (hread₂.mono (fun _ => Or.inr) le_rfl)⟩,
      not_lt.mp hcnt, rfl⟩

/-- `AttrCatalog::getRelInfo`, if `attrcat` has as many tuples of the relation as `relcat` says. -/
theorem AttrCatalog.getRelInfo_spec (fuel : Nat) {junk : RelDesc} {junkAttr : AttrDesc}
    {attrCnt : Int} {attrs : List AttrDesc} {fvA : FileView} {HA : Heap} {b : Bytes}
    (hc : Coh s P v) (hH : IsHeap v RELCATNAME fv H) (htuples : H.Tuples 36)
    (hHA : IsHeap v ATTRCATNAME fvA HA) (htuplesA : HA.Tuples 76) (hname : IsName relation)
    (hne : relation ≠ []) (hjunk : junk.Sized)
    (hfind : H.contents.find? (hasName relation) = some b)
    (hcnt : (RelDesc.ofBytes b).attrCnt = (relAttrs relation HA.contents).length)
    (hT : T → 3 ≤ freeFrames v.numBufs P ∧ H.rids.length + H.pages.length + 1 ≤ fuel ∧
      2 * HA.rids.length + HA.pages.length + 1 ≤ fuel) :
    Clean T (getRelInfo fuel junk junkAttr relation attrCnt attrs) s fun r s' =>
      (∃ P' v', HasRead (fun nm => nm = RELCATNAME ∨ nm = ATTRCATNAME) 3 P v s' P' v') ∧
      r = (.OK, ((relAttrs relation HA.contents).length : Int),
        (relAttrs relation HA.contents).reverse) := by
  rw [← htuples.find?_name hname] at hfind
  refine (getRelInfo_filter fuel hc hH htuples hHA htuplesA hname.nul
    (by rw [hname.cSize]; omega) hne
    hjunk fun ht => ?_).mono ?_
  · obtain ⟨h₁, h₂, h₃⟩ := hT ht
    refine ⟨h₁, h₂, h₃, fun b' hb' => ?_⟩
    cases hfind.symm.trans hb'
    rw [hcnt]
    exact Int.natCast_nonneg _
  · rintro r s' ⟨hread, hr⟩
    rw [hfind] at hr
    refine ⟨hread, hr.2.trans ?_⟩
    rw [hcnt, Int.toNat_natCast, fillAttrs_eq (le_refl _) (by rw [List.length_replicate]),
      List.take_length, List.drop_of_length_le (by rw [List.length_replicate]), List.append_nil]

end GetRelInfo

end Minirel
