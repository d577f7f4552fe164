import Minirel.HeapFile.FullScan
import Minirel.HeapFile.Reliable

/-!
# Calls that break a heap file

Two things can go wrong with a heap file. An `InsertFileScan` that is not on the last page any more
links a new page behind its own one, and cuts off the pages that were there. And `deleteRecord`
counts a record off even if it has not deleted one. As long as neither happens, several writers
lose nothing and the record count is exact. For the count it is said of each call that no failing
Unix call makes a difference to it.

## Main definitions

* `AtLast`: a record that does not fit is inserted on the last page only.
* `OnRecord`: a deletion finds a record under the cursor.
* `Unaffected`: a call does what it would do if no Unix call failed.
* `inserted`: the records that a program has inserted.

## Main results

* `records_of_run`: two writers lose nothing as long as they are `AtLast`.
* `counted_of_run`: the record count is exact as long as insertions are `AtLast`, deletions are
  `OnRecord` and the calls are `Unaffected`.
-/

namespace Minirel

open Comp HeapFile

/-- A record that does not fit on the page of an object is inserted by an object that is on the
last page. -/
def AtLast (nm : FileName) (w : Clients) : Call → Prop
  | .insert h rec _ _ => ∀ H, w.sys.heap? nm = some H →
      rec.length + 4 ≤ (H.page h.curPageNo).freeSpace ∨ h.curPageNo = H.hdr.lastPage
  | _ => True

/-! ## Writers -/

/-- The records that have been inserted, each with the RID returned. -/
def inserted (cs : List Call) : List (RID × Bytes) :=
  cs.filterMap fun
    | .insert _ rec .OK rid => some (rid, rec.bytes)
    | _ => none

/-- Two objects at most insert records of length 1 to 1000, and no call exceeds the buffer pool. -/
def TwoWriters (w : Clients) (c : Call) (e : Bool) : Prop :=
  e = false ∧ match c with
    | .openInsert => Multiset.card w.inserts < 2
    | .insert _ rec _ _ => 1 ≤ rec.length ∧ rec.length ≤ 1000 ∧ rec.Readable
    | .closeInsert => True
    | _ => False

section Records

variable {fv fv' : FileView} {H H' : Heap} {rid : RID} {b : Bytes}

theorem Heap.nodup_records (hH : HeapAt fv H) : H.records.Nodup :=
  List.Nodup.of_map Prod.fst (by rw [Heap.map_records hH]; exact hH.nodup_rids)

/-- The records of a file with one record more. -/
theorem Heap.records_insert (hH : HeapAt fv H) (hH' : HeapAt fv' H') (hnone : H.rec? rid = none)
    (hrec : H'.rec? = Function.update H.rec? rid (some b)) :
    H'.records.Perm ((rid, b) :: H.records) := by
  have hnew : (rid, b) ∉ H.records := fun hm => by
    rw [Heap.mem_records hH, hnone] at hm
    cases hm
  rw [List.perm_ext_iff_of_nodup (nodup_records hH')
    (List.nodup_cons.mpr ⟨hnew, nodup_records hH⟩)]
  rintro ⟨r, b'⟩
  rw [Heap.mem_records hH', List.mem_cons, Heap.mem_records hH, hrec]
  by_cases hr : r = rid
  · subst hr
    rw [Function.update_self, hnone]
    simp [eq_comm]
  · rw [Function.update_of_ne hr]
    simp [hr]

/-- The records of a file depend on the map only. -/
theorem Heap.records_congr (hH : HeapAt fv H) (hH' : HeapAt fv' H') (hrec : H'.rec? = H.rec?) :
    H'.records.Perm H.records := by
  rw [List.perm_ext_iff_of_nodup (nodup_records hH') (nodup_records hH)]
  rintro ⟨r, b'⟩
  rw [Heap.mem_records hH', Heap.mem_records hH, hrec]

end Records

namespace Clients

variable {nm : FileName} {R : Multiset Pin} {v : View} {w w' w₀ : Clients} {c : Call}
  {cs : List Call} {fv : FileView} {H H₀ : Heap} {e : Bool}

/-- One call of two writers that link no page behind another one than the last. -/
theorem Inv.step_writers (hinv : Inv nm R v w fv H) (hsized : H.Sized)
    (hperm : H.records.Perm (H₀.records ++ inserted cs)) (hG : TwoWriters w c e)
    (hlast : AtLast nm w c) (hstep : Step nm w c e w') :
    ∃ fv' H', Inv nm R v w' fv' H' ∧ H'.Sized ∧
      H'.records.Perm (H₀.records ++ inserted (cs ++ [c])) := by
  obtain ⟨rfl, hG⟩ := hG
  have happ : inserted (cs ++ [c]) = inserted cs ++ inserted [c] := List.filterMap_append
  -- what does not insert a record leaves the file alone
  have hsame : ∀ {fv' H'}, Inv nm R v w' fv' H' → H'.rec? = H.rec? → inserted [c] = [] →
      ∃ fv' H', Inv nm R v w' fv' H' ∧ H'.Sized ∧
        H'.records.Perm (H₀.records ++ inserted (cs ++ [c])) := by
    intro fv' H' hinv' hrec hc
    refine ⟨fv', H', hinv', fun r b hb => hsized r b (hrec ▸ hb), ?_⟩
    rw [happ, hc, List.append_nil]
    exact (Heap.records_congr hinv.heapAt hinv'.heapAt hrec).trans hperm
  cases hstep with
  | @insert s s' I S h h' rec st rid e hy =>
    have hsafe : Safe nm ⟨s, h ::ₘ I, S⟩ (.insert h rec st rid) := fun _ _ => ⟨hG.2.2, hlast⟩
    obtain ⟨fv', H', hinv', heff, -⟩ := hinv.step (.insert hy) hsafe
    rcases heff with ⟨rfl, hnone, hrec, -⟩ | ⟨hst, hrec, -⟩
    · refine ⟨fv', H', hinv', hsized.insert (Record.bytes_ne_nil hG.2.2 hG.1) hrec, ?_⟩
      have hc : inserted [.insert h rec .OK rid] = [(rid, rec.bytes)] := rfl
      rw [happ, hc, ← List.append_assoc]
      exact (Heap.records_insert hinv.heapAt hinv'.heapAt hnone hrec).trans
        ((hperm.cons _).trans (List.perm_append_singleton _ _).symm)
    · refine hsame hinv' hrec ?_
      cases st with
      | OK => exact absurd rfl hst
      | _ => rfl
  | openInsert hy => exact hsame (hinv.openInsert hy).1 rfl rfl
  | closeInsert hy =>
    obtain ⟨fv', hinv'⟩ := hinv.closeInsert hy
    exact hsame hinv' rfl rfl
  | _ => exact hG.elim

end Clients

open Clients

/-- What two writers lose nothing means: the chain is as the header says, the records are those
that were there before and those inserted since, the page of each of these is in the chain, and a
full scan returns each record once. -/
structure NothingLost (nm : FileName) (H₀ : Heap) (cs : List Call) (w : Clients) (H : Heap) :
    Prop where
  heap : w.sys.heap? nm = some H
  chained : H.Chained
  records : H.records.Perm (H₀.records ++ inserted cs)
  nodup : (H.records.map Prod.fst).Nodup
  reachable : ∀ x ∈ inserted cs, x.1.pageNo ∈ H.pages
  scan : ∀ fuel, Clean (2 ≤ w.sys.freeFrames ∧ H.rids.length + H.pages.length + 1 ≤ fuel)
    (fullScan nm fuel) w.sys fun r _ => r = (.FILEEOF, H.records)

/-- As long as a record that does not fit is inserted on the last page, two writers lose nothing. -/
theorem records_of_run {s : Sys} {P : Multiset Pin} {v : View} {nm : FileName} {fv₀ : FileView}
    {H₀ : Heap} {cs : List Call} {w : Clients} (hc : Coh s P v) (hnm : nm ≠ [])
    (hf : v.file nm = some fv₀) (hh : v.handle nm = none) (hH₀ : HeapAt fv₀ H₀) (hsized : H₀.Sized)
    (hrun : Run nm (fun w c e => TwoWriters w c e ∧ AtLast nm w c) ⟨s, 0, 0⟩ cs w) :
    ∃ H, NothingLost nm H₀ cs w H := by
  have hinv : ∃ fv H, Inv nm P v w fv H ∧ H.Sized ∧
      H.records.Perm (H₀.records ++ inserted cs) := by
    induction hrun with
    | start =>
      refine ⟨fv₀, H₀, Inv.start hnm hc hf hH₀ hh, hsized, ?_⟩
      rw [show inserted [] = [] from rfl, List.append_nil]
    | step _ hG hstep ih =>
      obtain ⟨fv, H, hinv, hsized, hperm⟩ := ih
      exact hinv.step_writers hsized hperm hG.1 hG.2 hstep
  obtain ⟨fv, H, hinv, hsized, hperm⟩ := hinv
  obtain ⟨H', hH', hsame⟩ := hinv.heap?
  have hHat := hsame.heapAt hinv.heapAt
  have hrec : H'.records.Perm (H₀.records ++ inserted cs) :=
    (Heap.records_congr hinv.heapAt hHat hsame.rec?).trans hperm
  refine ⟨H', hH', hHat.chained, hrec, ?_, fun x hx => ?_, fun fuel => ?_⟩
  · rw [Heap.map_records hHat]
    exact hHat.nodup_rids
  · have hmem : x ∈ H'.records := hrec.mem_iff.mpr (List.mem_append_right _ hx)
    have hrec := (Heap.mem_records hHat).mp (show (x.1, x.2) ∈ H'.records from hmem)
    unfold Heap.rec? at hrec
    split at hrec
    next hc => exact hc.1
    next => cases hrec
  · obtain ⟨f, I, S, -, -, hcoh⟩ := hinv.holds
    refine fullScan_spec fuel hcoh hnm View.file_shared hHat (fun r b hb => ?_)
      (fun _ _ => pos_of_shared) fun ht => ⟨?_, ht.2⟩
    · rw [hsame.rec?] at hb
      exact hsized r b hb
    · rw [← hcoh.freeFrames_eq]
      exact ht.1

/-! ## The record count -/

namespace Clients

/-- The record under the cursor of a deletion has not been deleted yet, and is not empty. -/
def OnRecord (nm : FileName) (w : Clients) : Call → Prop
  | .delete h _ _ => ∀ H, w.sys.heap? nm = some H →
      ∃ b, H.rec? ⟨h.curPageNo, h.curRec.slotNo⟩ = some b ∧ b ≠ []
  | _ => True

/-- The program, with all Unix calls from now on succeeding. -/
def good (w : Clients) : Clients := { w with sys := w.sys.good }

/-- No failing Unix call makes a difference to the call: it does what it would do if all of them
succeeded. -/
def Unaffected (nm : FileName) (w : Clients) (c : Call) : Prop :=
  ∀ e w', Step nm w c e w' → Step nm w.good c e w'.good

variable {nm : FileName} {R : Multiset Pin} {v : View} {w w' w₀ : Clients} {c : Call}
  {cs : List Call} {fv : FileView} {H : Heap} {e : Bool}

theorem Run.mono {G G' : Clients → Call → Bool → Prop}     (hrun : Run nm G w₀ cs w)
    (hG : ∀ w c e, G w c e → G' w c e) : Run nm G' w₀ cs w := by
  induction hrun with
  | start => exact .start
  | step _ h hstep ih => exact .step ih (hG _ _ _ h) hstep

/-- A run whose calls are unaffected is one in which no Unix call fails. -/
theorem Run.good {G : Clients → Call → Bool → Prop} (hG : ∀ w c e, G w c e → G w.good c e)
    (hrun : Run nm (fun w c e => G w c e ∧ Unaffected nm w c) w₀ cs w) :
    Run nm G w₀.good cs w.good := by
  induction hrun with
  | start => exact .start
  | step _ h hstep ih => exact .step ih (hG _ _ _ h.1) (h.2 _ _ hstep)

/-- The conditions on the objects and on the file are the same if no Unix call fails. -/
theorem counting_good (h : Safe nm w c ∧ OnRecord nm w c) :
    Safe nm w.good c ∧ OnRecord nm w.good c := by
  have hheap : ∀ nm, w.good.sys.heap? nm = w.sys.heap? nm := w.sys.heap?_good
  cases c with
  | insert h' rec st rid =>
    refine ⟨fun h₀ h₁ => ?_, trivial⟩
    obtain ⟨hread, hlast⟩ := h.1 h₀ h₁
    exact ⟨hread, fun H hH => hlast H (hheap nm ▸ hH)⟩
  | delete h' o st => exact ⟨h.1, fun H hH => h.2 H (hheap nm ▸ hH)⟩
  | _ => exact ⟨h.1, trivial⟩

theorem Inv.good (hinv : Inv nm R v w fv H) : w.good = w := by
  obtain ⟨f, I, S, -, -, hc⟩ := hinv.holds
  show { w with sys := w.sys.good } = w
  rw [Sys.good_of_io hc.io]

/-- If no Unix call fails, no call is affected by one. -/
theorem Inv.run_unaffected (hinv : Inv nm R v w₀ fv H)
    (hrun : Run nm (fun w c _ => Safe nm w c ∧ OnRecord nm w c) w₀ cs w) :
    Run nm (fun w c _ => (Safe nm w c ∧ OnRecord nm w c) ∧ Unaffected nm w c) w₀ cs w := by
  suffices h : (∃ fv H, Inv nm R v w fv H) ∧
      Run nm (fun w c _ => (Safe nm w c ∧ OnRecord nm w c) ∧ Unaffected nm w c) w₀ cs w from h.2
  induction hrun with
  | start => exact ⟨⟨fv, H, hinv⟩, .start⟩
  | step _ hG hstep ih =>
    obtain ⟨⟨fv₁, H₁, hinv₁⟩, hrun⟩ := ih
    have hnext : ∀ {e w'}, Step nm _ _ e w' → ∃ fv' H', Inv nm R v w' fv' H' := fun hstep => by
      obtain ⟨fv', H', hinv', -⟩ := hinv₁.step hstep hG.1
      exact ⟨fv', H', hinv'⟩
    refine ⟨hnext hstep, .step hrun ⟨hG, fun e w' hstep' => ?_⟩ hstep⟩
    obtain ⟨fv', H', hinv'⟩ := hnext hstep'
    rw [hinv₁.good, hinv'.good]
    exact hstep'

/-- One call that keeps the record count exact. -/
theorem Inv.step_counted (hinv : Inv nm R v w fv H) (hcnt : H.Counted) (hsafe : Safe nm w c)
    (hon : OnRecord nm w c) (hstep : Step nm w c e w') :
    ∃ fv' H', Inv nm R v w' fv' H' ∧ H'.Counted := by
  obtain ⟨fv', H', hinv', heff, -⟩ := hinv.step hstep hsafe
  refine ⟨fv', H', hinv', ?_⟩
  cases c with
  | insert h rec st rid => exact Added.counted heff hinv.heapAt hinv'.heapAt hcnt
  | delete h o st =>
    obtain ⟨H₁, hH₁, hsame⟩ := hinv.heap?
    obtain ⟨b, hb, hne⟩ := hon H₁ hH₁
    rw [hsame.rec?] at hb
    obtain ⟨hhdr, ⟨-, b', hb', -, hrec⟩ | ⟨-, hdead, -⟩⟩ := heff
    · have hlen := hinv.heapAt.length_rids_delete hinv'.heapAt hb' hrec
      unfold Heap.Counted at hcnt ⊢
      rw [hhdr]
      show H.hdr.recCnt - 1 = _
      rw [hcnt, hlen]
      omega
    · -- there is a record, so that the deletion has not failed
      rw [hb] at hdead
      rcases hdead with hd | hd
      · cases hd
      · exact absurd (Option.some.inj hd) hne
  | _ => rw [show H' = H from heff]; exact hcnt

/-- The record count of the header is what an object returns. -/
theorem Inv.getRecCnt (hinv : Inv nm R v w fv H) {h : HeapFile}
    (hmem : h ∈ w.inserts ∨ ∃ q ∈ w.scans, q.1.toHeapFile = h) :
    Yields (HeapFile.getRecCnt h) w.sys H.hdr.recCnt false w.sys := by
  obtain ⟨f, I, S, hI, hS, hc⟩ := hinv.holds
  have hx : ∃ x ∈ I.sum + (S.sum + R), h.filePtr = f ∧ HasHeader h H x := by
    rcases hmem with hh | ⟨q, hq, rfl⟩
    · obtain ⟨P, hP, hf, x, y, rfl, hx, -⟩ := Multiset.exists_mem_of_rel_of_mem hI hh
      refine ⟨x, Multiset.mem_add.mpr (Or.inl (Multiset.mem_join.mpr ⟨_, hP, ?_⟩)), hf, hx⟩
      exact Multiset.mem_cons_of_mem (Multiset.mem_cons_self x 0)
    · obtain ⟨Q, hQ, hf, -, x, hx, hcase⟩ := Multiset.exists_mem_of_rel_of_mem hS hq
      refine ⟨x, Multiset.mem_add.mpr (Or.inr (Multiset.mem_add.mpr (Or.inl
        (Multiset.mem_join.mpr ⟨Q, hQ, ?_⟩)))), hf, hx⟩
      rcases hcase with ⟨rfl, -⟩ | ⟨y, rfl, -⟩
      · exact Multiset.mem_cons_self x 0
      · exact Multiset.mem_cons_of_mem (Multiset.mem_cons_self x 0)
  obtain ⟨x, hxP, rfl, hx⟩ := hx
  -- there is an object, hence the file is open
  have hpos : Multiset.card w.inserts + Multiset.card w.scans ≠ 0 := by
    rcases hmem with hh | ⟨q, hq, -⟩
    · have := Multiset.card_pos_iff_exists_mem.mpr ⟨h, hh⟩
      omega
    · have := Multiset.card_pos_iff_exists_mem.mpr ⟨q, hq⟩
      omega
  have hh : (v.shared nm fv h.filePtr (Multiset.card w.inserts + Multiset.card w.scans)).handle nm =
      some (h.filePtr, _) := View.handle_shared.trans (if_neg hpos)
  obtain ⟨blk, hd, hblk⟩ := hx.deref hc hxP hh View.file_shared hinv.heapAt
  unfold HeapFile.getRecCnt
  refine hd.bind (d := false) ?_
  rw [hblk]
  exact Yields.pure _ _

end Clients

/-- `getRecCnt` makes no Unix call. -/
theorem HeapFile.getRecCnt_of_good {h : HeapFile} {s : Sys} {n : Int} {e : Bool}
    (hy : Yields (getRecCnt h) s.good n e s.good) : Yields (getRecCnt h) s n e s := by
  unfold getRecCnt at hy ⊢
  cases hpage : h.headerPage with
  | frame k =>
    rw [hpage] at hy
    obtain ⟨blk, e₁, s₁, e₂, hd, hr, rfl⟩ := hy.of_bind
    have hd' : Yields (derefPage (.frame k)) s.good (s.buf.bufPool k) false s.good := rfl
    obtain ⟨rfl, rfl, rfl⟩ := hd'.unique hd
    obtain ⟨rfl, -, rfl⟩ := yields_pure.mp hr
    exact (show Yields (derefPage (.frame k)) s (s.buf.bufPool k) false s from rfl).bind
      (Yields.pure _ _)
  | _ =>
    rw [hpage] at hy
    obtain ⟨blk, e₁, s₁, e₂, hd, -⟩ := hy.of_bind
    cases hd

/-- As long as insertions that do not fit are made on the last page, deletions find a record and no
failing Unix call makes a difference to a call, the record count is exact, and what `getRecCnt`
returns. -/
theorem counted_of_run {s : Sys} {P : Multiset Pin} {v : View} {nm : FileName} {fv₀ : FileView}
    {H₀ : Heap} {cs : List Call} {w : Clients} (hc : Coh s.good P v) (hnm : nm ≠ [])
    (hf : v.file nm = some fv₀) (hh : v.handle nm = none) (hH₀ : HeapAt fv₀ H₀) (hcnt : H₀.Counted)
    (hrun : Run nm (fun w c _ => (Safe nm w c ∧ OnRecord nm w c) ∧ Unaffected nm w c) ⟨s, 0, 0⟩
      cs w) :
    ∃ H, w.sys.heap? nm = some H ∧ H.Chained ∧ H.Counted ∧
      (∀ h ∈ w.inserts, Yields (HeapFile.getRecCnt h) w.sys H.hdr.recCnt false w.sys) ∧
      ∀ q ∈ w.scans, Yields (HeapFile.getRecCnt q.1.toHeapFile) w.sys H.hdr.recCnt false w.sys := by
  have hinv : ∃ fv H, Inv nm P v w.good fv H ∧ H.Counted := by
    have hgood := hrun.good fun _ _ _ => counting_good
    clear hrun
    generalize hw₀ : (⟨s, 0, 0⟩ : Clients).good = w₀ at hgood
    generalize w.good = w' at hgood ⊢
    subst hw₀
    induction hgood with
    | start => exact ⟨fv₀, H₀, Inv.start hnm hc hf hH₀ hh, hcnt⟩
    | step _ hG hstep ih =>
      obtain ⟨fv, H, hinv, hcnt⟩ := ih
      exact hinv.step_counted hcnt hG.1 hG.2 hstep
  obtain ⟨fv, H, hinv, hcnt⟩ := hinv
  obtain ⟨H', hH', hsame⟩ := hinv.heap?
  have hcount : ∀ h : HeapFile, (h ∈ w.inserts ∨ ∃ q ∈ w.scans, q.1.toHeapFile = h) →
      Yields (HeapFile.getRecCnt h) w.sys H'.hdr.recCnt false w.sys := fun h hmem => by
    rw [hsame.hdr]
    exact HeapFile.getRecCnt_of_good (hinv.getRecCnt hmem)
  refine ⟨H', (w.sys.heap?_good nm).symm.trans hH', (hsame.heapAt hinv.heapAt).chained,
    hsame.counted hcnt, fun h hh => hcount h (Or.inl hh),
    fun q hq => hcount _ (Or.inr ⟨q, hq, rfl⟩)⟩

/-! ## Runs on a new file -/

/-- A record of 600 bytes, so that one fits on a page. -/
def halfPage : Record := ⟨List.replicate 600 1, 600⟩

theorem halfPage_bounds : 1 ≤ halfPage.length ∧ halfPage.length ≤ 1000 ∧ halfPage.Readable := by
  refine ⟨by decide, by decide, by decide, ?_⟩
  show (600 : Int) ≤ (List.replicate 600 (1 : UInt8)).length
  rw [List.length_replicate]
  rfl

/-- Two writers are opened, and one of them inserts two records. -/
def insertTwo : M (List Status × List RID × Bool × Bool) := do
  let st ← createHeapFile [82]
  let (st₁, h) ← InsertFileScan.new [82]
  let (st₂, _) ← InsertFileScan.new [82]
  let s₁ ← get
  let (st₃, rid₁, h') ← InsertFileScan.insertRecord h halfPage
  let s₂ ← get
  let (st₄, rid₂, _) ← InsertFileScan.insertRecord h' halfPage
  return ([st, st₁, st₂, st₃, st₄], [rid₁, rid₂],
    (s₁.heap? [82]).all fun H => h.curPageNo = H.hdr.lastPage,
    (s₂.heap? [82]).all fun H => h'.curPageNo = H.hdr.lastPage)

/-- One of two writers inserts two records and moves on to a new page. -/
theorem records_of_run_two : ∃ s₀ p q pg h h' w H,
    Yields (createHeapFile [82]) (Sys.blank 3) .OK false s₀ ∧
    NothingLost [82] (Heap.fresh [82] p q pg) [.openInsert, .openInsert,
      .insert h halfPage .OK ⟨2, 0⟩, .insert h' halfPage .OK ⟨3, 0⟩] w H := by
  obtain ⟨r, e, s, hy, hv⟩ := exists_of_eval (s := Sys.blank 3)
    (x := insertTwo)
    (g := fun r e _ => (r, e))
    (v := (([.OK, .OK, .OK, .OK, .OK], [⟨2, 0⟩, ⟨3, 0⟩], true, true), false)) (by decide +kernel)
  obtain ⟨st, e₀, s₀, _, hy₀, k₀, rfl⟩ := hy.of_bind
  obtain ⟨⟨st₁, h⟩, e₁, s₁, _, hy₁, k₁, rfl⟩ := k₀.of_bind
  obtain ⟨⟨st₂, g⟩, e₂, s₂, _, hy₂, k₂, rfl⟩ := k₁.of_bind
  obtain ⟨_, _, _, _, hg₁, k₃, rfl⟩ := k₂.of_bind
  obtain ⟨rfl, rfl, rfl⟩ := hg₁.unique (Yields.get s₂)
  obtain ⟨⟨st₃, rid₁, h'⟩, e₃, s₃, _, hy₃, k₄, rfl⟩ := k₃.of_bind
  obtain ⟨_, _, _, _, hg₂, k₅, rfl⟩ := k₄.of_bind
  obtain ⟨rfl, rfl, rfl⟩ := hg₂.unique (Yields.get s₃)
  obtain ⟨⟨st₄, rid₂, h''⟩, e₄, s₄, _, hy₄, k₆, rfl⟩ := k₅.of_bind
  obtain ⟨rfl, -, rfl⟩ := yields_pure.mp k₆
  simp only [Prod.mk.injEq, List.cons.injEq, and_true, Bool.or_eq_false_iff, Bool.false_or] at hv
  obtain ⟨⟨⟨rfl, rfl, rfl, rfl, rfl⟩, ⟨rfl, rfl⟩, hl₁, hl₂⟩, rfl, rfl, rfl, rfl, rfl⟩ := hv
  have hnm : ([82] : FileName) ≠ [] := List.cons_ne_nil 82 []
  have hspec := createHeapFile_spec (T := False) (Coh.blank 3) hnm rfl id fun hf => hf.elim
  obtain ⟨-, p, q, pg, fv₀, hc₀, hH₀⟩ := hspec.of_yields hy₀
  have hsized : (Heap.fresh [82] p q pg).Sized := by
    intro r b hb
    rw [Heap.rec?_fresh] at hb
    cases hb
  have hall : ∀ {s' : Sys} {k : InsertFileScan}, ((s'.heap? [82]).all fun H =>
      k.curPageNo = H.hdr.lastPage) = true → ∀ H, s'.heap? [82] = some H →
      k.curPageNo = H.hdr.lastPage := by
    intro s' k hk H hH
    rw [hH] at hk
    exact of_decide_eq_true hk
  have t₁ : Step [82] ⟨s₀, 0, 0⟩ .openInsert false ⟨s₁, h ::ₘ 0, 0⟩ := .openInsert hy₁
  have t₂ : Step [82] ⟨s₁, h ::ₘ 0, 0⟩ .openInsert false ⟨s₂, h ::ₘ g ::ₘ 0, 0⟩ := by
    rw [Multiset.cons_swap]
    exact .openInsert hy₂
  have t₃ : Step [82] ⟨s₂, h ::ₘ g ::ₘ 0, 0⟩ (.insert h halfPage .OK ⟨2, 0⟩) false
      ⟨s₃, h' ::ₘ g ::ₘ 0, 0⟩ := .insert hy₃
  have t₄ : Step [82] ⟨s₃, h' ::ₘ g ::ₘ 0, 0⟩ (.insert h' halfPage .OK ⟨3, 0⟩) false
      ⟨s₄, h'' ::ₘ g ::ₘ 0, 0⟩ := .insert hy₄
  have hlast₃ : AtLast [82] ⟨s₂, h ::ₘ g ::ₘ 0, 0⟩ (.insert h halfPage .OK ⟨2, 0⟩) :=
    fun H hH => Or.inr (hall hl₁ H hH)
  have hlast₄ : AtLast [82] ⟨s₃, h' ::ₘ g ::ₘ 0, 0⟩ (.insert h' halfPage .OK ⟨3, 0⟩) :=
    fun H hH => Or.inr (hall hl₂ H hH)
  have hrun : Run [82] (fun w c e => TwoWriters w c e ∧ AtLast [82] w c) ⟨s₀, 0, 0⟩ _
      ⟨s₄, h'' ::ₘ g ::ₘ 0, 0⟩ :=
    .step (.step (.step (c := .openInsert) (.step (c := .openInsert) .start
      ⟨⟨rfl, Nat.zero_lt_two⟩, trivial⟩ t₁) ⟨⟨rfl, Nat.one_lt_two⟩, trivial⟩ t₂)
        ⟨⟨rfl, halfPage_bounds⟩, hlast₃⟩ t₃)
      ⟨⟨rfl, halfPage_bounds⟩, hlast₄⟩ t₄
  obtain ⟨H, hH⟩ := records_of_run hc₀ hnm View.file_setFile_self rfl hH₀ hsized hrun
  exact ⟨s₀, p, q, pg, h, h', _, H, hy₀, hH⟩

/-- Two writers are opened; one of them fills two pages, then the other one goes on from the
first. -/
def insertBetween : M (List Status × List RID) := do
  let st ← createHeapFile [82]
  let (st₁, h) ← InsertFileScan.new [82]
  let (st₂, g) ← InsertFileScan.new [82]
  let (st₃, rid₁, h) ← InsertFileScan.insertRecord h halfPage
  let (st₄, rid₂, _) ← InsertFileScan.insertRecord h halfPage
  let (st₅, rid₃, _) ← InsertFileScan.insertRecord g halfPage
  return ([st, st₁, st₂, st₃, st₄, st₅], [rid₁, rid₂, rid₃])

/-- Both writers start on the first page. The first one goes on to a page of its own; then the
second one links another page behind the first one, and the record on the page between is out of
reach. -/
theorem record_lost_by_two_writers : ∃ s₀ cs w H,
    Yields (createHeapFile [82]) (Sys.blank 4) .OK false s₀ ∧ Run [82] TwoWriters ⟨s₀, 0, 0⟩ cs w ∧
    w.sys.heap? [82] = some H ∧ (∃ x ∈ inserted cs, x.1.pageNo ∉ H.pages) ∧
    H.hdr.pageCnt ≠ H.pages.length := by
  obtain ⟨r, e, s, hy, hv⟩ := exists_of_eval (s := Sys.blank 4)
    (x := insertBetween)
    (g := fun r e s => (r, e, (s.heap? [82]).map fun H => (H.pages, H.hdr.pageCnt)))
    (v := (([.OK, .OK, .OK, .OK, .OK, .OK], [⟨2, 0⟩, ⟨3, 0⟩, ⟨4, 0⟩]), false,
      some ([2, 4], 3))) (by decide +kernel)
  obtain ⟨st, e₀, s₀, _, hy₀, k₀, rfl⟩ := hy.of_bind
  obtain ⟨⟨st₁, h⟩, e₁, s₁, _, hy₁, k₁, rfl⟩ := k₀.of_bind
  obtain ⟨⟨st₂, g⟩, e₂, s₂, _, hy₂, k₂, rfl⟩ := k₁.of_bind
  obtain ⟨⟨st₃, rid₁, h'⟩, e₃, s₃, _, hy₃, k₃, rfl⟩ := k₂.of_bind
  obtain ⟨⟨st₄, rid₂, h''⟩, e₄, s₄, _, hy₄, k₄, rfl⟩ := k₃.of_bind
  obtain ⟨⟨st₅, rid₃, g'⟩, e₅, s₅, _, hy₅, k₅, rfl⟩ := k₄.of_bind
  obtain ⟨rfl, rfl, -⟩ := yields_pure.mp k₅
  simp only [Prod.mk.injEq, List.cons.injEq, and_true, Bool.or_eq_false_iff] at hv
  obtain ⟨⟨⟨rfl, rfl, rfl, rfl, rfl, rfl⟩, ⟨rfl, rfl, rfl⟩⟩, ⟨rfl, rfl, rfl, rfl, rfl, rfl,
    -⟩, hH⟩ := hv
  obtain ⟨H, hH, hpages⟩ := Option.map_eq_some_iff.mp hH
  obtain ⟨hpages, hcnt⟩ := Prod.mk.inj hpages
  have t₁ : Step [82] ⟨s₀, 0, 0⟩ .openInsert false ⟨s₁, h ::ₘ 0, 0⟩ := .openInsert hy₁
  have t₂ : Step [82] ⟨s₁, h ::ₘ 0, 0⟩ .openInsert false ⟨s₂, g ::ₘ h ::ₘ 0, 0⟩ := .openInsert hy₂
  have t₃ : Step [82] ⟨s₂, h ::ₘ g ::ₘ 0, 0⟩ (.insert h halfPage .OK ⟨2, 0⟩) false
      ⟨s₃, h' ::ₘ g ::ₘ 0, 0⟩ := .insert hy₃
  have t₄ : Step [82] ⟨s₃, h' ::ₘ g ::ₘ 0, 0⟩ (.insert h' halfPage .OK ⟨3, 0⟩) false
      ⟨s₄, h'' ::ₘ g ::ₘ 0, 0⟩ := .insert hy₄
  have t₅ : Step [82] ⟨s₄, g ::ₘ h'' ::ₘ 0, 0⟩ (.insert g halfPage .OK ⟨4, 0⟩) false
      ⟨s₅, g' ::ₘ h'' ::ₘ 0, 0⟩ := .insert hy₅
  rw [Multiset.cons_swap] at t₂ t₅
  have hrun : Run [82] TwoWriters ⟨s₀, 0, 0⟩ [.openInsert, .openInsert,
    .insert h halfPage .OK ⟨2, 0⟩,
      .insert h' halfPage .OK ⟨3, 0⟩, .insert g halfPage .OK ⟨4, 0⟩] ⟨s₅, g' ::ₘ h'' ::ₘ 0, 0⟩ :=
    .step (.step (.step (.step (.step .start ⟨rfl, Nat.zero_lt_two⟩ t₁) ⟨rfl, Nat.one_lt_two⟩ t₂)
      ⟨rfl, halfPage_bounds⟩ t₃) ⟨rfl, halfPage_bounds⟩ t₄) ⟨rfl, halfPage_bounds⟩ t₅
  refine ⟨s₀, _, _, H, hy₀, hrun, hH, ⟨(⟨3, 0⟩, halfPage.bytes), ?_, ?_⟩, ?_⟩
  · show _ ∈ [_, _, _]
    exact List.mem_cons_of_mem _ List.mem_cons_self
  · rw [hpages]
    decide
  · rw [hpages, hcnt]
    decide

/-- Insert a record, scan it and delete it twice. -/
def deleteTwice : M (List Status × List RID × List Bool) := do
  let st ← createHeapFile [82]
  let (st₁, h) ← InsertFileScan.new [82]
  let s₁ ← get
  let (st₂, rid, _) ← InsertFileScan.insertRecord h ⟨[1, 2, 3], 3⟩
  let (st₃, q) ← HeapFileScan.new [82]
  let (st₄, rid', q) ← HeapFileScan.scanNext 2 q
  let s₄ ← get
  let (st₅, q') ← HeapFileScan.deleteRecord q
  let (st₆, _) ← HeapFileScan.deleteRecord q'
  return ([st, st₁, st₂, st₃, st₄, st₅, st₆], [rid, rid'],
    [(s₁.heap? [82]).all fun H => h.curPageNo = H.hdr.lastPage,
      (s₄.heap? [82]).all fun H => H.rec? ⟨q.curPageNo, q.curRec.slotNo⟩ = some [1, 2, 3],
      0 ≤ q.curRec.slotNo, 0 ≤ q'.curRec.slotNo])

/-- A record is inserted, and deleted under the cursor of a scan that has returned it; then
`deleteRecord` is called once more. -/
theorem exists_deleted_twice : ∃ s₀ cs w q w',
    Yields (createHeapFile [82]) (Sys.blank 3) .OK false s₀ ∧
    Run [82] (fun w c _ => Safe [82] w c ∧ OnRecord [82] w c) ⟨s₀, 0, 0⟩ cs w ∧
    Step [82] w (.delete q none .INVALIDSLOTNO) false w' ∧
    Safe [82] w (.delete q none .INVALIDSLOTNO) ∧
    (w'.sys.heap? [82]).map (fun H => (H.hdr.recCnt, H.rids)) = some (-1, []) := by
  obtain ⟨r, e, s, hy, hv⟩ := exists_of_eval (s := Sys.blank 3)
    (x := deleteTwice)
    (g := fun r e s => (r, e, (s.heap? [82]).map fun H => (H.hdr.recCnt, H.rids)))
    (v := (([.OK, .OK, .OK, .OK, .OK, .OK, .INVALIDSLOTNO], [⟨2, 0⟩, ⟨2, 0⟩],
      [true, true, true, true]), false, some (-1, []))) (by decide +kernel)
  obtain ⟨st, e₀, s₀, _, hy₀, k₀, rfl⟩ := hy.of_bind
  obtain ⟨⟨st₁, h⟩, e₁, s₁, _, hy₁, k₁, rfl⟩ := k₀.of_bind
  obtain ⟨_, _, _, _, hg₁, k₁', rfl⟩ := k₁.of_bind
  obtain ⟨rfl, rfl, rfl⟩ := hg₁.unique (Yields.get s₁)
  obtain ⟨⟨st₂, rid, h'⟩, e₂, s₂, _, hy₂, k₂, rfl⟩ := k₁'.of_bind
  obtain ⟨⟨st₃, q⟩, e₃, s₃, _, hy₃, k₃, rfl⟩ := k₂.of_bind
  obtain ⟨⟨st₄, rid', q₁⟩, e₄, s₄, _, hy₄, k₄, rfl⟩ := k₃.of_bind
  obtain ⟨_, _, _, _, hg₄, k₄', rfl⟩ := k₄.of_bind
  obtain ⟨rfl, rfl, rfl⟩ := hg₄.unique (Yields.get s₄)
  obtain ⟨⟨st₅, q₂⟩, e₅, s₅, _, hy₅, k₅, rfl⟩ := k₄'.of_bind
  obtain ⟨⟨st₆, q₃⟩, e₆, s₆, _, hy₆, k₆, rfl⟩ := k₅.of_bind
  obtain ⟨rfl, rfl, -⟩ := yields_pure.mp k₆
  simp only [Prod.mk.injEq, List.cons.injEq, and_true, Bool.or_eq_false_iff, Bool.false_or,
    decide_eq_true_eq] at hv
  obtain ⟨⟨⟨rfl, rfl, rfl, rfl, rfl, rfl, rfl⟩, ⟨rfl, rfl⟩, hl, hr, hp, hp'⟩,
    ⟨rfl, rfl, rfl, rfl, rfl, rfl, rfl, -⟩, hH⟩ := hv
  have t₁ : Step [82] ⟨s₀, 0, 0⟩ .openInsert false ⟨s₁, h ::ₘ 0, 0⟩ := .openInsert hy₁
  have t₂ : Step [82] ⟨s₁, h ::ₘ 0, 0⟩ (.insert h ⟨[1, 2, 3], 3⟩ .OK ⟨2, 0⟩) false
      ⟨s₂, h' ::ₘ 0, 0⟩ := .insert hy₂
  have t₃ : Step [82] ⟨s₂, h' ::ₘ 0, 0⟩ .openScan false ⟨s₃, h' ::ₘ 0, (q, none) ::ₘ 0⟩ :=
    .openScan hy₃
  have t₄ : Step [82] ⟨s₃, h' ::ₘ 0, (q, none) ::ₘ 0⟩ (.scanNext .OK ⟨2, 0⟩) false
      ⟨s₄, h' ::ₘ 0, (q₁, some ⟨2, 0⟩) ::ₘ 0⟩ := .scanNext hy₄
  have t₅ : Step [82] ⟨s₄, h' ::ₘ 0, (q₁, some ⟨2, 0⟩) ::ₘ 0⟩ (.delete q₁ (some ⟨2, 0⟩) .OK) false
      ⟨s₅, h' ::ₘ 0, (q₂, none) ::ₘ 0⟩ := .delete hy₅
  have hsafe : Safe [82] ⟨s₁, h ::ₘ 0, 0⟩ (.insert h ⟨[1, 2, 3], 3⟩ .OK ⟨2, 0⟩) := by
    refine fun _ _ => ⟨⟨by decide, by decide⟩, fun H hH => Or.inr ?_⟩
    rw [hH] at hl
    exact of_decide_eq_true hl
  have hon : OnRecord [82] ⟨s₄, h' ::ₘ 0, (q₁, some ⟨2, 0⟩) ::ₘ 0⟩
      (.delete q₁ (some ⟨2, 0⟩) .OK) := by
    intro H hH
    rw [hH] at hr
    exact ⟨[1, 2, 3], of_decide_eq_true hr, List.cons_ne_nil 1 [2, 3]⟩
  have hrun : Run [82] (fun w c _ => Safe [82] w c ∧ OnRecord [82] w c) ⟨s₀, 0, 0⟩ _
      ⟨s₅, h' ::ₘ 0, (q₂, none) ::ₘ 0⟩ :=
    .step (.step (c := .scanNext .OK ⟨2, 0⟩)
      (.step (c := .openScan) (.step (.step (c := .openInsert)
      .start ⟨trivial, trivial⟩ t₁) ⟨hsafe, trivial⟩ t₂) ⟨trivial, trivial⟩ t₃)
      ⟨trivial, trivial⟩ t₄) (c := .delete q₁ (some ⟨2, 0⟩) .OK) ⟨hp, hon⟩ t₅
  exact ⟨s₀, _, _, q₂, _, hy₀, hrun, .delete hy₆, hp', hH⟩

/-- A record is inserted and deleted. -/
theorem counted_of_run_deleted : ∃ (s₀ : Sys) (w : Clients) (H : Heap),
    Yields (createHeapFile [82]) (Sys.blank 3) .OK false s₀ ∧
    w.sys.heap? [82] = some H ∧ H.Chained ∧ H.Counted ∧
    (∀ h ∈ w.inserts, Yields (HeapFile.getRecCnt h) w.sys H.hdr.recCnt false w.sys) ∧
    ∀ q ∈ w.scans, Yields (HeapFile.getRecCnt q.1.toHeapFile) w.sys H.hdr.recCnt false w.sys := by
  obtain ⟨s₀, cs, w, -, -, hy₀, hrun, -⟩ := exists_deleted_twice
  have hnm : ([82] : FileName) ≠ [] := List.cons_ne_nil 82 []
  have hspec := createHeapFile_spec (T := False) (Coh.blank 3) hnm rfl id fun hf => hf.elim
  obtain ⟨-, p, q, pg, fv₀, hc₀, hH₀⟩ := hspec.of_yields hy₀
  have hinv := Inv.start hnm hc₀ View.file_setFile_self hH₀ rfl
  have hc₀' : Coh s₀.good 0 _ := (Sys.good_of_io hc₀.io).symm ▸ hc₀
  obtain ⟨H, hH⟩ := counted_of_run hc₀' hnm View.file_setFile_self rfl hH₀ Heap.counted_fresh
    (hinv.run_unaffected hrun)
  exact ⟨s₀, w, H, hy₀, hH⟩

/-- The second deletion fails, and counts a record off. -/
theorem miscounted_after_second_deletion : ∃ s₀ cs w H,
    Yields (createHeapFile [82]) (Sys.blank 3) .OK false s₀ ∧
    Run [82] (fun w c _ => Safe [82] w c) ⟨s₀, 0, 0⟩ cs w ∧
    w.sys.heap? [82] = some H ∧ ¬H.Counted := by
  obtain ⟨s₀, cs, w, q, w', hy₀, hrun, hstep, hsafe, hv⟩ := exists_deleted_twice
  obtain ⟨H, hH, hcnt⟩ := Option.map_eq_some_iff.mp hv
  obtain ⟨hcnt, hrids⟩ := Prod.mk.inj hcnt
  refine ⟨s₀, _, w', H, hy₀, .step (hrun.mono fun _ _ _ h => h.1) hsafe hstep, hH, ?_⟩
  unfold Heap.Counted
  rw [hcnt, hrids]
  decide

end Minirel
