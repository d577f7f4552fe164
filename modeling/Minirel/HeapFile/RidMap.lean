import Minirel.HeapFile.Run

/-!
# A heap file is a map from RIDs to records

A program that inserts records through one `InsertFileScan` at a time, and deletes records that
its scans have just returned, has in the heap file what a map from RIDs to records would have
after the same insertions and deletions.

## Main definitions

* `fetch`: what a client does to read the record under a RID.
* `ridMap`: the records that the calls of a program have inserted and not deleted since.
* `RidMapOk`: the heap file and the map agree.

## Main results

* `HeapFile.getRecord_spec`: a record is found under its RID.
* `ridMap_of_run`: they agree in every state that a program reaches.
-/

namespace Minirel

open Comp HeapFile

/-! ## Reading a record -/

/-- Open a heap file, ask for the record under a RID, and read it through the pointer returned. -/
def fetch (nm : FileName) (rid : RID) : M (Status × Bytes) := do
  let (_, h) ← HeapFile.new nm
  let (status, rec, h) ← h.getRecord rid
  let blk ← derefPage h.curPage
  let bytes ← ofOption (blk.asPage.bytes? rec.data rec.length)
  return (status, bytes)

section GetRecord

variable {T : Prop} {s : Sys} {P : Multiset Pin} {v : View} {nm : FileName} {c : Int}
  {fv : FileView} {H : Heap} {h : HeapFile} {x y : Pin} {rid : RID} {b : Bytes}

/-- What `getRecord` returns for a record: where it is on the page, which is pinned. -/
structure Fetched (h : HeapFile) (H : Heap) (x y : Pin) (rid : RID) (b : Bytes) (rec : PageRecord)
    (h' : HeapFile) : Prop where
  filePtr : h'.filePtr = h.filePtr
  header : HasHeader h' H x
  page : HasPage h' H y
  pageNo : h'.curPageNo = rid.pageNo
  dirty : y.wrote = true → h'.curDirtyFlag = true
  length : rec.length = b.length
  data : 0 ≤ rec.data ∧ rec.data + rec.length ≤ 1004
  bytes : (H.page rid.pageNo).bytes? rec.data rec.length = some b

/-- A record is found on its page. -/
theorem getRecord_of_page (hH : HeapAt fv H) (hb : H.rec? rid = some b) (hne : b ≠ []) :
    rid.pageNo ∈ H.pages ∧ ∃ rec, (H.page rid.pageNo).getRecord rid = some (.OK, rec) ∧
      rec.length = b.length ∧ 0 ≤ rec.data ∧ rec.data + rec.length ≤ 1004 ∧
      (H.page rid.pageNo).bytes? rec.data rec.length = some b := by
  have hrec := hb
  unfold Heap.rec? at hrec
  split at hrec
  next hc =>
    obtain ⟨rec, hget, h₁, h₂, h₃, h₄⟩ :=
      Page.getRecord_spec (hH.wf _ hc.1) hrec hne rid.pageNo
    rw [Int.toNat_of_nonneg hc.2] at hget
    exact ⟨hc.1, rec, hget, h₁, h₂, h₃, h₄⟩
  next => cases hrec

/-- `HeapFile::getRecord` finds a record under its RID, on the page it has or on another one. -/
theorem HeapFile.getRecord_spec (hc : Coh s (y ::ₘ x ::ₘ P) v)
    (hh : v.handle nm = some (h.filePtr, c)) (hf : v.file nm = some fv) (hH : HeapAt fv H)
    (hx : HasHeader h H x) (hy : HasPage h H y) (hw : y.wrote = true → h.curDirtyFlag = true)
    (hT : T → 0 < freeFrames v.numBufs (x ::ₘ P)) (hb : H.rec? rid = some b) (hne : b ≠ []) :
    Clean T (h.getRecord rid) s fun r s' => r.1 = .OK ∧ ∃ y' fv',
      Coh s' (y' ::ₘ x ::ₘ P) (v.setFile nm (some fv')) ∧
      FileView.Forgets (fun p => h.curDirtyFlag = true ∧ p = h.curPageNo) fv fv' ∧
      Fetched h H x y' rid b r.2.1 r.2.2 := by
  obtain ⟨hmem, rec, hget, hlen, hd₁, hd₂, hbytes⟩ := getRecord_of_page hH hb hne
  unfold HeapFile.getRecord
  rw [if_neg (by rw [hy.curPage]; exact nofun)]
  by_cases hpg : rid.pageNo = h.curPageNo
  · -- the record is on the page that is pinned
    obtain ⟨blk, hd, hblk⟩ := hy.deref hc (Multiset.mem_cons_self _ _) hh hf hH
    rw [← hpg] at hblk
    rw [if_pos hpg, clean_bind_of_yields hd, hblk, hget, clean_ofOption_some_bind, clean_pure]
    refine ⟨rfl, y, fv, ?_, FileView.Forgets.refl fv, ?_⟩
    · rw [View.setFile_self hf]
      exact hc
    · exact ⟨rfl, ⟨hx.file, hx.pageNo, hx.headerPageNo, hx.headerPage, hx.dirty⟩,
        ⟨hy.file, hy.pageNo, hy.curPage, hy.mem⟩, hpg.symm, hw, hlen, ⟨hd₁, hd₂⟩, hbytes⟩
  · obtain ⟨s₁, fv₁, hy₁, hc₁, hfor⟩ := hy.unpin hc hh hf h.curDirtyFlag hw
    have hH₁ := hfor.heapAt hH
    rw [if_neg hpg, clean_bind_of_yields hy₁, if_neg fun hn => hn rfl]
    unfold HeapFile.fetchRecord
    refine (clean_readPage hc₁ hh View.file_setFile_self (hH₁.alloc _ hmem) hT _).bind ?_
    rintro ⟨st, curPage⟩ s₂ ⟨n, hr, hc₂⟩
    cases hr
    dsimp only
    rw [if_neg fun hn => hn rfl]
    obtain ⟨blk, hcur, hblk⟩ := hH₁.exists_page hmem
    have hd := hc₂.derefPage (x := ⟨h.filePtr, rid.pageNo, n, false⟩)
      (Multiset.mem_cons_self _ _) hh
      View.file_setFile_self hcur
    have hd' : Yields (derefPage (.frame n)) s₂ blk false s₂ := hd
    rw [clean_bind_of_yields hd', hblk, hget, clean_ofOption_some_bind, clean_pure]
    exact ⟨rfl, _, fv₁, hc₂, hfor, rfl,
      ⟨hx.file, hx.pageNo, hx.headerPageNo, hx.headerPage, hx.dirty⟩, ⟨rfl, rfl, rfl, hmem⟩, rfl,
      nofun, hlen, ⟨hd₁, hd₂⟩, hbytes⟩

/-- The client finds the record under its RID. -/
theorem fetch_spec (hc : Coh s P v) (hnm : nm ≠ []) (hf : v.file nm = some fv) (hH : HeapAt fv H)
    (hpos : ∀ f c, v.handle nm = some (f, c) → 0 < c) (hT : T → 2 ≤ freeFrames v.numBufs P)
    (hb : H.rec? rid = some b) (hne : b ≠ []) :
    Clean T (fetch nm rid) s fun r _ => r = (.OK, b) := by
  unfold fetch
  refine (new_spec hc hnm hf hH hpos hT).bind ?_
  rintro ⟨st, h⟩ s₁ ⟨f, n, m, hr, -, hc₁⟩
  cases hr
  have hh : (v.setHandle nm (some (f, v.openCnt nm + 1))).handle nm =
      some (f, v.openCnt nm + 1) := View.handle_setHandle_self
  dsimp only
  refine (HeapFile.getRecord_spec (T := T) (h := opened f H n m) (x := ⟨f, H.hdrNo, n, false⟩)
    (y := ⟨f, H.hdr.firstPage, m, false⟩) hc₁ hh hf hH ⟨rfl, rfl, rfl, rfl, nofun⟩
    ⟨rfl, rfl, rfl, hH.first_mem⟩ nofun (fun ht => ?_) hb hne).bind ?_
  · have h₁ := hT ht
    have h₂ := freeFrames_cons v.numBufs ⟨f, H.hdrNo, n, false⟩ P
    show 0 < freeFrames v.numBufs (_ ::ₘ P)
    omega
  rintro ⟨st, rec, h⟩ s₂ ⟨hst, y', fv', hc₂, hfor, hft⟩
  dsimp only at hst hft ⊢
  subst hst
  obtain ⟨blk, hd, hblk⟩ := hft.page.deref hc₂ (Multiset.mem_cons_self _ _)
    (by rw [hft.filePtr]; exact hh) View.file_setFile_self (hfor.heapAt hH)
  rw [hft.pageNo] at hblk
  rw [clean_bind_of_yields hd, hblk, hft.bytes, clean_ofOption_some_bind, clean_pure]

end GetRecord

/-! ## The map of a program -/

/-- What a call does to a map from RIDs to records: a record that has been inserted is added, and
the one that has been returned before a deletion is removed. -/
def Call.apply (m : RID → Option Bytes) : Call → RID → Option Bytes
  | .insert _ rec st rid => if st = .OK then Function.update m rid (some rec.bytes) else m
  | .delete _ (some rid) _ => Function.update m rid none
  | _ => m

/-- The records that have been inserted and not deleted since. -/
def ridMap (cs : List Call) : RID → Option Bytes := cs.foldl Call.apply fun _ => none

theorem ridMap_append (cs : List Call) (c : Call) :
    ridMap (cs ++ [c]) = Call.apply (ridMap cs) c := by
  unfold ridMap
  rw [List.foldl_append]
  rfl

/-- There is one `InsertFileScan` at a time, and it is given records of length 1 to 1000; a record
is deleted by the scan that has just returned it; no call exceeds the buffer pool. -/
def Disciplined (w : Clients) (c : Call) (e : Bool) : Prop :=
  e = false ∧ match c with
    | .openInsert => w.inserts = 0
    | .insert _ rec _ _ => 1 ≤ rec.length ∧ rec.length ≤ 1000 ∧ rec.Readable
    | .delete _ just _ => just ≠ none
    | _ => True

/-- The heap file `nm` has the records that the calls `cs` have inserted and not deleted since. -/
structure RidMapOk (nm : FileName) (cs : List Call) (w : Clients) : Prop where
  /-- The chain of pages is as the header says, and has exactly these records. -/
  heap : ∃ H, w.sys.heap? nm = some H ∧ H.Chained ∧ H.rec? = ridMap cs
  /-- `getRecord` returns each of them. -/
  fetch : ∀ rid b, ridMap cs rid = some b →
    Clean (2 ≤ w.sys.freeFrames) (fetch nm rid) w.sys fun r _ => r = (.OK, b)
  /-- No insertion has returned a RID that was in use. -/
  fresh : ∀ pre h rec rid post, cs = pre ++ .insert h rec .OK rid :: post → ridMap pre rid = none

namespace Clients

variable {nm : FileName} {R : Multiset Pin} {v : View} {w w₀ w' : Clients}
  {cs : List Call} {c : Call} {fv : FileView} {H H' : Heap}

/-- What holds in the states that a disciplined program reaches. -/
structure Mapped (nm : FileName) (R : Multiset Pin) (v : View) (cs : List Call) (w : Clients)
    (fv : FileView) (H : Heap) : Prop where
  inv : Inv nm R v w fv H
  rec? : H.rec? = ridMap cs
  sized : H.Sized
  single : Multiset.card w.inserts ≤ 1
  onLast : OnLast w H
  fresh : ∀ pre h rec rid post, cs = pre ++ .insert h rec .OK rid :: post → ridMap pre rid = none

/-- A call of a disciplined program is safe. -/
theorem Mapped.safe {e : Bool} (hm : Mapped nm R v cs w fv H) (hG : Disciplined w c e)
    (hstep : Step nm w c e w') : Safe nm w c := by
  obtain ⟨rfl, hG⟩ := hG
  cases hstep with
  | @insert s s' I S h h' rec st rid e hy =>
    refine fun _ _ => ⟨hG.2.2, fun H₁ hH₁ => Or.inr ?_⟩
    -- the object is on the last page
    obtain ⟨H₂, hH₂, hsame⟩ := hm.inv.heap?
    rw [hH₁] at hH₂
    cases hH₂
    rw [hsame.hdr]
    exact hm.onLast h (Multiset.mem_cons_self h I)
  | @delete s s' I S h h' o st e hy =>
    obtain ⟨rid, rfl⟩ := Option.ne_none_iff_exists'.mp hG
    exact hm.inv.just.2
  | openInsert => trivial
  | closeInsert => trivial
  | openScan => trivial
  | startScan => trivial
  | scanNext => trivial
  | closeScan => trivial

/-- A call changes the records of the file as it changes the map. -/
theorem Mapped.apply {e : Bool} (hm : Mapped nm R v cs w fv H) (hG : Disciplined w c e)
    (hstep : Step nm w c e w') (heff : Effect H H' c) :
    H'.rec? = Call.apply (ridMap cs) c ∧ H'.Sized ∧
      ∀ h rec rid, c = .insert h rec .OK rid → ridMap cs rid = none := by
  obtain ⟨rfl, hG⟩ := hG
  -- the calls that do not change the file
  have hsame : H' = H → H'.rec? = ridMap cs ∧ H'.Sized := by
    rintro rfl
    exact ⟨hm.rec?, hm.sized⟩
  cases hstep with
  | @insert s s' I S h h' rec st rid e hy =>
    rcases heff with ⟨rfl, hnone, hrec, -⟩ | ⟨hst, hrec, -⟩
    · rw [hm.rec?] at hnone hrec
      exact ⟨hrec, hm.sized.insert (Record.bytes_ne_nil hG.2.2 hG.1) (hm.rec?.symm ▸ hrec),
        fun _ _ _ he => by cases he; exact hnone⟩
    · have happ : Call.apply (ridMap cs) (.insert h rec st rid) = ridMap cs := if_neg hst
      refine ⟨?_, fun r b hb => hm.sized r b (hrec ▸ hb), fun _ _ _ he => ?_⟩
      · rw [happ, hrec, hm.rec?]
      · cases he
        exact absurd rfl hst
  | @delete s s' I S h h' o st e hy =>
    obtain ⟨rid, rfl⟩ := Option.ne_none_iff_exists'.mp hG
    rw [Effect, hm.inv.just.1] at heff
    obtain ⟨-, ⟨-, b, hb, hne, hrec⟩ | ⟨-, hnone, hrec⟩⟩ := heff
    · have hrec' := hrec
      rw [hm.rec?] at hrec'
      exact ⟨hrec', hm.sized.delete hrec, fun _ _ _ he => by cases he⟩
    · -- the record has already been deleted by another scan
      have hnone : ridMap cs rid = none := by
        rw [← hm.rec?]
        exact hnone.resolve_right fun he => hm.sized rid [] he rfl
      refine ⟨?_, fun r b hb => hm.sized r b (hrec ▸ hb), fun _ _ _ he => by cases he⟩
      rw [hrec, hm.rec?]
      show ridMap cs = Function.update (ridMap cs) rid none
      rw [← hnone, Function.update_eq_self]
  | openInsert => exact ⟨(hsame heff).1, (hsame heff).2, fun _ _ _ he => by cases he⟩
  | closeInsert => exact ⟨(hsame heff).1, (hsame heff).2, fun _ _ _ he => by cases he⟩
  | openScan => exact ⟨(hsame heff).1, (hsame heff).2, fun _ _ _ he => by cases he⟩
  | startScan => exact ⟨(hsame heff).1, (hsame heff).2, fun _ _ _ he => by cases he⟩
  | scanNext => exact ⟨(hsame heff).1, (hsame heff).2, fun _ _ _ he => by cases he⟩
  | closeScan => exact ⟨(hsame heff).1, (hsame heff).2, fun _ _ _ he => by cases he⟩

/-- One call of a disciplined program. -/
theorem Mapped.step {e : Bool} (hm : Mapped nm R v cs w fv H) (hG : Disciplined w c e)
    (hstep : Step nm w c e w') : ∃ fv' H', Mapped nm R v (cs ++ [c]) w' fv' H' := by
  obtain ⟨fv', H', hinv, heff, hon⟩ := hm.inv.step hstep (hm.safe hG hstep)
  obtain ⟨hrec, hsized, hfresh⟩ := hm.apply hG hstep heff
  refine ⟨fv', H', hinv, hrec.trans (ridMap_append cs c).symm, hsized, ?_, hon hm.single hm.onLast,
    fun pre h rec rid post heq => ?_⟩
  · have hsingle := hm.single
    cases hstep with
    | openInsert =>
      have hI := hG.2
      dsimp only at hI ⊢
      rw [hI]
      rfl
    | closeInsert =>
      dsimp only at hsingle ⊢
      rw [Multiset.card_cons] at hsingle
      omega
    | insert =>
      dsimp only at hsingle ⊢
      rwa [Multiset.card_cons] at hsingle ⊢
    | _ => exact hsingle
  · -- the call is the last one, or an earlier one
    rcases List.eq_nil_or_concat post with rfl | ⟨post', d, rfl⟩
    · obtain ⟨rfl, hc⟩ := List.append_inj' heq rfl
      exact hfresh h rec rid (List.cons.inj hc).1
    · rw [List.concat_eq_append, ← List.cons_append, ← List.append_assoc] at heq
      exact hm.fresh pre h rec rid post' (List.append_inj' heq rfl).1

end Clients

open Clients

/-- In every state that a disciplined program reaches on a new heap file, the file is the map from
the RIDs handed out to the records. -/
theorem ridMap_of_run {s s₀ : Sys} {P : Multiset Pin} {v : View} {nm : FileName} {cs : List Call}
    {w : Clients} (hc : Coh s P v) (hnm : nm ≠ []) (hf : v.file nm = none)
    (hforeign : ¬v.foreign nm) (hcreate : Yields (createHeapFile nm) s .OK false s₀)
    (hrun : Run nm Disciplined ⟨s₀, 0, 0⟩ cs w) : RidMapOk nm cs w := by
  obtain ⟨-, p, q, pg, fv₀, hc₀, hH₀⟩ := (createHeapFile_spec (T := False) hc hnm hf hforeign
    fun hf => hf.elim).of_yields hcreate
  have hh : v.handle nm = none := hc.handle_eq_none hf
  have hm : ∃ fv H, Mapped nm P (v.setFile nm (some fv₀)) cs w fv H := by
    induction hrun with
    | start =>
      refine ⟨fv₀, _, Inv.start hnm hc₀ View.file_setFile_self hH₀ hh, funext Heap.rec?_fresh,
        fun r b hb => ?_, Nat.zero_le _, fun h hh => absurd hh (Multiset.notMem_zero h),
        fun pre h rec rid post heq => ?_⟩
      · rw [Heap.rec?_fresh] at hb
        cases hb
      · exact absurd heq (by simp)
    | step _ hG hstep ih =>
      obtain ⟨fv, H, hm⟩ := ih
      exact hm.step hG hstep
  obtain ⟨fv, H, hm⟩ := hm
  obtain ⟨H', hH', hsame⟩ := hm.inv.heap?
  refine ⟨⟨H', hH', (hsame.heapAt hm.inv.heapAt).chained, hsame.rec?.trans hm.rec?⟩,
    fun rid b hb => ?_, hm.fresh⟩
  obtain ⟨f, I, S, -, -, hcoh⟩ := hm.inv.holds
  rw [← hm.rec?] at hb
  refine fetch_spec hcoh hnm View.file_shared hm.inv.heapAt (fun _ _ => pos_of_shared)
    (fun ht => ?_)
    hb (hm.sized rid b hb)
  rw [← hcoh.freeFrames_eq]
  exact ht

/-- Make a heap file, insert a record, delete it under a scan, and insert another one. -/
def insertDeleteInsert : M (List Status × List RID) := do
  let st ← createHeapFile [82]
  let (st₁, h) ← InsertFileScan.new [82]
  let (st₂, rid, h) ← InsertFileScan.insertRecord h ⟨[1, 2, 3], 3⟩
  let (st₃, q) ← HeapFileScan.new [82]
  let (st₄, rid', q) ← HeapFileScan.scanNext 2 q
  let (st₅, _) ← HeapFileScan.deleteRecord q
  let (st₆, rid'', _) ← InsertFileScan.insertRecord h ⟨[4, 5], 2⟩
  return ([st, st₁, st₂, st₃, st₄, st₅, st₆], [rid, rid', rid''])

/-- A program that deletes the record it has inserted; the next record is inserted under the
same RID. -/
theorem ridMap_of_run_reused : ∃ w h h' q, RidMapOk [82]
    [.openInsert, .insert h ⟨[1, 2, 3], 3⟩ .OK ⟨2, 0⟩, .openScan, .scanNext .OK ⟨2, 0⟩,
      .delete q (some ⟨2, 0⟩) .OK, .insert h' ⟨[4, 5], 2⟩ .OK ⟨2, 0⟩] w := by
  obtain ⟨r, e, s, hy, hv⟩ := exists_of_eval (s := Sys.blank 3)
    (x := insertDeleteInsert)
    (g := fun r e _ => (r, e)) (v := (([.OK, .OK, .OK, .OK, .OK, .OK, .OK],
      [⟨2, 0⟩, ⟨2, 0⟩, ⟨2, 0⟩]), false)) (by decide +kernel)
  obtain ⟨st, e₀, s₀, _, hy₀, k₀, rfl⟩ := hy.of_bind
  obtain ⟨⟨st₁, h⟩, e₁, s₁, _, hy₁, k₁, rfl⟩ := k₀.of_bind
  obtain ⟨⟨st₂, rid, h'⟩, e₂, s₂, _, hy₂, k₂, rfl⟩ := k₁.of_bind
  obtain ⟨⟨st₃, q⟩, e₃, s₃, _, hy₃, k₃, rfl⟩ := k₂.of_bind
  obtain ⟨⟨st₄, rid', q'⟩, e₄, s₄, _, hy₄, k₄, rfl⟩ := k₃.of_bind
  obtain ⟨⟨st₅, q''⟩, e₅, s₅, _, hy₅, k₅, rfl⟩ := k₄.of_bind
  obtain ⟨⟨st₆, rid'', h''⟩, e₆, s₆, _, hy₆, k₆, rfl⟩ := k₅.of_bind
  obtain ⟨rfl, rfl, -⟩ := yields_pure.mp k₆
  simp only [Prod.mk.injEq, List.cons.injEq, and_true, Bool.or_eq_false_iff] at hv
  obtain ⟨⟨⟨rfl, rfl, rfl, rfl, rfl, rfl, rfl⟩, rfl, rfl, rfl⟩,
    rfl, rfl, rfl, rfl, rfl, rfl, rfl, -⟩ := hv
  have t₁ : Step [82] ⟨s₀, 0, 0⟩ .openInsert false ⟨s₁, h ::ₘ 0, 0⟩ := .openInsert hy₁
  have t₂ : Step [82] ⟨s₁, h ::ₘ 0, 0⟩ (.insert h ⟨[1, 2, 3], 3⟩ .OK ⟨2, 0⟩) false
      ⟨s₂, h' ::ₘ 0, 0⟩ := .insert hy₂
  have t₃ : Step [82] ⟨s₂, h' ::ₘ 0, 0⟩ .openScan false ⟨s₃, h' ::ₘ 0, (q, none) ::ₘ 0⟩ :=
    .openScan hy₃
  have t₄ : Step [82] ⟨s₃, h' ::ₘ 0, (q, none) ::ₘ 0⟩ (.scanNext .OK ⟨2, 0⟩) false
      ⟨s₄, h' ::ₘ 0, (q', some ⟨2, 0⟩) ::ₘ 0⟩ := .scanNext hy₄
  have t₅ : Step [82] ⟨s₄, h' ::ₘ 0, (q', some ⟨2, 0⟩) ::ₘ 0⟩ (.delete q' (some ⟨2, 0⟩) .OK) false
      ⟨s₅, h' ::ₘ 0, (q'', none) ::ₘ 0⟩ := .delete hy₅
  have t₆ : Step [82] ⟨s₅, h' ::ₘ 0, (q'', none) ::ₘ 0⟩ (.insert h' ⟨[4, 5], 2⟩ .OK ⟨2, 0⟩) false
      ⟨s₆, h'' ::ₘ 0, (q'', none) ::ₘ 0⟩ := .insert hy₆
  have hG₂ : Disciplined ⟨s₁, h ::ₘ 0, 0⟩ (.insert h ⟨[1, 2, 3], 3⟩ .OK ⟨2, 0⟩) false :=
    ⟨rfl, by decide, by decide, by decide, by decide⟩
  have hG₆ : Disciplined ⟨s₅, h' ::ₘ 0, (q'', none) ::ₘ 0⟩
      (.insert h' ⟨[4, 5], 2⟩ .OK ⟨2, 0⟩) false :=
    ⟨rfl, by decide, by decide, by decide, by decide⟩
  have hrun : Run [82] Disciplined ⟨s₀, 0, 0⟩ _ ⟨s₆, h'' ::ₘ 0, (q'', none) ::ₘ 0⟩ :=
    .step (.step (c := .delete q' (some ⟨2, 0⟩) .OK) (.step (c := .scanNext .OK ⟨2, 0⟩)
      (.step (c := .openScan) (.step (.step (c := .openInsert) .start ⟨rfl, rfl⟩ t₁)
      hG₂ t₂) ⟨rfl, trivial⟩ t₃) ⟨rfl, trivial⟩ t₄) ⟨rfl, nofun⟩ t₅) hG₆ t₆
  exact ⟨_, h, h', q', ridMap_of_run (Coh.blank 3) (List.cons_ne_nil 82 []) rfl id hy₀ hrun⟩

end Minirel
