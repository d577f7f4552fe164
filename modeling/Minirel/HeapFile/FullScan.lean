import Minirel.HeapFile.RidMap

/-!
# Scanning a whole file

A client that constructs a scan without a filter and calls `scanNext` until it returns something
else than `OK` is given every record once, in the order of the chain and of the slots.

## Main definitions

* `fullScan`: what such a client does.
* `Heap.records`: the records of a heap file with their RIDs, in the order of a scan.

## Main results

* `fullScan_spec`: it is given the records of the file.
-/

namespace Minirel

open Comp HeapFile

/-- The records of a heap file with their RIDs, in the order of a scan. -/
def Heap.records (H : Heap) : List (RID × Bytes) :=
  H.rids.filterMap fun rid => (H.rec? rid).map (rid, ·)

/-- The records without their RIDs. -/
def Heap.contents (H : Heap) : List Bytes := H.records.map Prod.snd

theorem Heap.contents_eq (H : Heap) : H.contents = H.rids.filterMap H.rec? := by
  unfold contents records
  rw [List.map_filterMap]
  refine List.filterMap_congr fun rid _ => ?_
  cases H.rec? rid <;> rfl

theorem Heap.Same.records {H H' : Heap} (h : H.Same H') : H'.records = H.records := by
  unfold Heap.records
  rw [h.rids, h.rec?]

/-- The record a scan is on, read through the pointer that `getRecord` returns. -/
def HeapFileScan.currentBytes (h : HeapFileScan) : M Bytes := do
  let (_, rec) ← h.getRecord
  let blk ← derefPage h.curPage
  ofOption (blk.asPage.bytes? rec.data rec.length)

/-- Call `scanNext` until it does not return `OK`, and keep the records. The first argument bounds
the number of calls. -/
def collect (fuel : Nat) : Nat → HeapFileScan → M (Status × List (RID × Bytes) × HeapFileScan)
  | 0, _ => failure
  | n + 1, h => do
    let (status, rid, h) ← h.scanNext fuel
    if status ≠ .OK then return (status, [], h) else
    let bytes ← h.currentBytes
    let (status, l, h) ← collect fuel n h
    return (status, (rid, bytes) :: l, h)

/-- Scan a heap file from its beginning to its end. -/
def fullScan (nm : FileName) (fuel : Nat) : M (Status × List (RID × Bytes)) := do
  let (_, h) ← HeapFileScan.new nm
  let (status, l, _) ← collect fuel fuel h
  return (status, l)

namespace HeapFileScan

variable {T : Prop} {s : Sys} {R : Multiset Pin} {v : View} {nm : FileName} {c : Int}
  {fv : FileView} {H : Heap} {h : HeapFileScan} {x : Pin} {k : Nat}

/-- The bytes of the record under the cursor. -/
theorem currentBytes_spec {j : Nat} {b : Bytes} (hd : Holds s R (v.setFile nm (some fv)) h H x)
    (hh : v.handle nm = some (h.filePtr, c)) (hH : HeapAt fv H) (hj : h.curRec.slotNo = j)
    (hb : H.rec? ⟨h.curPageNo, j⟩ = some b) (hne : b ≠ []) :
    Yields (currentBytes h) s b false s := by
  obtain ⟨rec, hy, -, -, -, hbytes⟩ := getRecord_spec hd hh hH hj hb hne
  obtain ⟨blk, hy', hblk⟩ := hd.deref hh hH
  unfold currentBytes
  refine hy.bind (d := false) (hy'.bind (d := false) ?_)
  rw [hblk, hbytes]
  rfl

/-- Without a filter a call stops at the first record that remains. -/
theorem Visited.of_all {L : List RID} {st : Status} {rid : RID}
    (hv : Visited H (fun _ _ _ a => a = true) L st rid h k) (hsized : H.Sized) :
    h.curRec.slotNo = k - 1 ∧
      ((st = .OK ∧ h.curRec = rid ∧ rid.pageNo = h.curPageNo ∧ (∃ b, H.rec? rid = some b ∧ b ≠ []) ∧
          L = rid :: H.ridsAfter h.curPageNo k) ∨
        (st = .FILEEOF ∧ L = [] ∧ H.ridsAfter h.curPageNo k = [])) := by
  obtain ⟨hk, pre, hpre, hcase⟩ := hv
  -- no record has been passed over
  have hnil : pre = [] := by
    cases pre with
    | nil => rfl
    | cons q pre =>
      obtain ⟨_, _, _, _, _, hM⟩ := hpre q List.mem_cons_self
      cases hM
  subst hnil
  refine ⟨hk, ?_⟩
  rcases hcase with ⟨h₁, h₂, h₃, ⟨b, -, hb, hne, -, -⟩, h₄⟩ | ⟨h₁, -, h₂, h₃⟩ | ⟨-, -, -, hb, -⟩
  · exact Or.inl ⟨h₁, h₂, h₃, ⟨b, hb, hne⟩, h₄⟩
  · exact Or.inr ⟨h₁, h₂, h₃⟩
  · exact absurd rfl (hsized _ _ hb)

/-- How a call of `scanNext` without a filter ends: it takes the first of the RIDs `L` that
remained, and the cursor is behind it, or it is at the end of the file. -/
inductive Took (H : Heap) (L : List RID) (h : HeapFileScan) (k : Nat) : Status → RID → Prop
  | record (j : Nat) (b : Bytes) (hjk : j < k) (hcur : h.curRec = ⟨h.curPageNo, j⟩)
      (hb : H.rec? ⟨h.curPageNo, j⟩ = some b) (hne : b ≠ [])
      (hL : L = ⟨h.curPageNo, j⟩ :: H.ridsAfter h.curPageNo k) : Took H L h k .OK ⟨h.curPageNo, j⟩
  | eof (rid : RID) (hL : L = []) (hend : H.ridsAfter h.curPageNo k = []) :
      Took H L h k .FILEEOF rid

/-- `scanNext` without a filter. -/
theorem scanNext_all (fuel : Nat) (hd : Holds s R (v.setFile nm (some fv)) h H x)
    (hh : v.handle nm = some (h.filePtr, c)) (hH : HeapAt fv H) (hsized : H.Sized)
    (hfilter : h.filter = none) (hk : h.curRec.slotNo = k - 1)
    (hT : T → 0 < freeFrames v.numBufs (x ::ₘ R) ∧
      (H.ridsAfter h.curPageNo k).length + H.pages.length + 1 ≤ fuel) :
    Clean T (scanNext fuel h) s fun r s' => ∃ (fv' : FileView) (k' : Nat),
      FileView.Forgets (fun p => h.curDirtyFlag = true ∧ p = h.curPageNo) fv fv' ∧
      Moves h r.2.2 ∧ r.2.2.filter = none ∧ v.handle nm = some (r.2.2.filePtr, c) ∧
      HeapAt fv' H ∧ Holds s' R (v.setFile nm (some fv')) r.2.2 H x ∧
      r.2.2.curRec.slotNo = k' - 1 ∧
      Took H (H.ridsAfter h.curPageNo k) r.2.2 k' r.1 r.2.1 := by
  have hlt := Heap.length_after_lt hd.mem
  refine Runs.mono (scanNext_spec fuel hd hh hH (answers_all T R v nm hfilter) hk fun ht => ?_) ?_
  · have := (hT ht).2
    omega
  rintro ⟨st, rid, h'⟩ e s' ⟨fv', hfor, hm, ⟨rfl, -, hfull, -⟩ | ⟨rfl, hd', k', hv⟩⟩
  · exact ⟨fun ht => absurd hfull (Nat.ne_of_gt (hT ht).1), nofun⟩
  refine ⟨fun _ => rfl, fun _ => ⟨fv', k', hfor, hm, ?_, ?_, hfor.heapAt hH, hd', hv.1, ?_⟩⟩
  · obtain ⟨_, _, _, _, rfl, -⟩ := hm
    exact hfilter
  · rw [hm.filePtr]
    exact hh
  obtain ⟨hk', ⟨rfl, hcur, hpg, ⟨b, hb, hne⟩, hL⟩ | ⟨rfl, hL, hend⟩⟩ := hv.of_all hsized
  · -- the slot is a number of a slot
    have hpos := Clients.slotNo_nonneg hb
    dsimp only at hcur hpg hb hL ⊢
    obtain ⟨j, rfl⟩ : ∃ j : Nat, rid = ⟨h'.curPageNo, j⟩ :=
      ⟨rid.slotNo.toNat, by rw [Int.toNat_of_nonneg hpos, ← hpg]⟩
    refine .record j b ?_ hcur hb hne hL
    rw [hcur] at hk'
    dsimp only at hk'
    omega
  · exact .eof rid hL hend

/-- `collect` returns the records that remain. -/
theorem collect_spec (fuel n : Nat) (hd : Holds s R (v.setFile nm (some fv)) h H x)
    (hh : v.handle nm = some (h.filePtr, c)) (hH : HeapAt fv H) (hsized : H.Sized)
    (hfilter : h.filter = none) (hk : h.curRec.slotNo = k - 1)
    (hT : T → 0 < freeFrames v.numBufs (x ::ₘ R) ∧ (H.ridsAfter h.curPageNo k).length < n ∧
      (H.ridsAfter h.curPageNo k).length + H.pages.length + 1 ≤ fuel) :
    Clean T (collect fuel n h) s fun r s' => r.1 = .FILEEOF ∧
      r.2.1 = (H.ridsAfter h.curPageNo k).filterMap (fun rid => (H.rec? rid).map (rid, ·)) ∧
      ∃ fv', FileView.Forgets (fun p => h.curDirtyFlag = true ∧ p = h.curPageNo) fv fv' ∧
        Moves h r.2.2 ∧ Holds s' R (v.setFile nm (some fv')) r.2.2 H x := by
  induction n generalizing s fv h k with
  | zero => exact Clean.failure fun ht => absurd (hT ht).2.1 (Nat.not_lt_zero _)
  | succ n ih =>
    unfold collect
    refine (scanNext_all fuel hd hh hH hsized hfilter hk fun ht => ⟨(hT ht).1, (hT ht).2.2⟩).bind ?_
    rintro ⟨st, rid, h'⟩ s₁ ⟨fv₁, k', hfor, hm, hfilter', hh₁, hH₁, hd₁, hk', htook⟩
    dsimp only at hm hfilter' hh₁ hd₁ hk' htook ⊢
    cases htook with
    | record j b _ hcur hb hne hL =>
      rw [if_neg fun hn => hn rfl]
      have hj : h'.curRec.slotNo = j := by rw [hcur]
      rw [clean_bind_of_yields (currentBytes_spec hd₁ hh₁ hH₁ hj hb hne)]
      refine (ih hd₁ hh₁ hH₁ hfilter' hk' fun ht => ?_).bind ?_
      · obtain ⟨h₁, h₂, h₃⟩ := hT ht
        rw [hL, List.length_cons] at h₂ h₃
        exact ⟨h₁, by omega, by omega⟩
      rintro ⟨st, l, h''⟩ s₂ ⟨hst, hl, fv₂, hfor₂, hm₂, hd₂⟩
      rw [clean_pure]
      refine ⟨hst, ?_, fv₂, hfor.trans (hm.forgets hfor₂), hm.trans hm₂, hd₂⟩
      dsimp only at hl ⊢
      rw [hL, List.filterMap_cons, hb, hl]
      rfl
    | eof rid hL =>
      rw [if_pos (by decide), clean_pure, hL]
      exact ⟨rfl, rfl, fv₁, hfor, hm, hd₁⟩

end HeapFileScan

/-- The RIDs of a scan are those of the file. -/
theorem Heap.map_records {fv : FileView} {H : Heap} (hH : HeapAt fv H) :
    H.records.map Prod.fst = H.rids := by
  have key : ∀ l : List RID, (∀ r ∈ l, H.rec? r ≠ none) →
      (l.filterMap fun rid => (H.rec? rid).map (rid, ·)).map Prod.fst = l := by
    intro l hl
    induction l with
    | nil => rfl
    | cons r l ih =>
      obtain ⟨b, hb⟩ := Option.ne_none_iff_exists'.mp (hl r List.mem_cons_self)
      rw [List.filterMap_cons, hb]
      exact congrArg (r :: ·) (ih fun q hq => hl q (List.mem_cons_of_mem r hq))
  exact key H.rids fun r hr => hH.mem_rids.mp hr

theorem Heap.mem_records {fv : FileView} {H : Heap} (hH : HeapAt fv H) {rid : RID} {b : Bytes} :
    (rid, b) ∈ H.records ↔ H.rec? rid = some b := by
  unfold Heap.records
  rw [List.mem_filterMap]
  constructor
  · rintro ⟨r, -, hr⟩
    obtain ⟨b', hb', he⟩ := Option.map_eq_some_iff.mp hr
    cases he
    exact hb'
  · intro hb
    exact ⟨rid, hH.mem_rids.mpr (by rw [hb]; exact nofun), by rw [hb]; rfl⟩

/-- A new scan is in front of the first record of the file, and has no filter. -/
structure NewScan (P : Multiset Pin) (v : View) (nm : FileName) (fv : FileView) (H : Heap)
    (h : HeapFileScan) (x : Pin) (s : Sys) : Prop where
  coh : HeapFileScan.Holds s P
    ((v.setHandle nm (some (h.filePtr, v.openCnt nm + 1))).setFile nm (some fv)) h H x
  header : HasHeader h.toHeapFile H x
  curPageNo : h.curPageNo = H.hdr.firstPage
  slot : h.curRec.slotNo = ((0 : Nat) : Int) - 1
  clean : h.curDirtyFlag = false
  filter : h.filter = none
  /-- If the file was open the scan uses the same object for it. -/
  same : ∀ f c, v.handle nm = some (f, c) → h.filePtr = f

/-- The constructor of `HeapFileScan`. -/
theorem HeapFileScan.new_spec {T : Prop} {s : Sys} {P : Multiset Pin} {v : View} {nm : FileName}
    {fv : FileView} {H : Heap} (hc : Coh s P v) (hnm : nm ≠ []) (hf : v.file nm = some fv)
    (hH : HeapAt fv H) (hpos : ∀ f c, v.handle nm = some (f, c) → 0 < c)
    (hT : T → 2 ≤ freeFrames v.numBufs P) :
    Clean T (HeapFileScan.new nm) s fun r s' => r.1 = .OK ∧ ∃ x,
      (T → 0 < freeFrames v.numBufs (x ::ₘ P)) ∧ NewScan P v nm fv H r.2 x s' := by
  unfold HeapFileScan.new
  refine (HeapFile.new_spec hc hnm hf hH hpos hT).bind ?_
  rintro ⟨st, h⟩ s₁ ⟨f, n, m, hr, hsame, hc₁⟩
  cases hr
  rw [clean_pure]
  refine ⟨rfl, ⟨f, H.hdrNo, n, false⟩, fun ht => ?_, ?_, ⟨rfl, rfl, rfl, rfl, nofun⟩, rfl,
    rfl, rfl, rfl,
    hsame⟩
  · have := freeFrames_cons v.numBufs ⟨f, H.hdrNo, n, false⟩ P
    have := hT ht
    omega
  · have hwf : (v.setHandle nm (some (f, v.openCnt nm + 1))).file nm = some fv := hf
    refine ⟨⟨f, H.hdr.firstPage, m, false⟩, ?_, ⟨rfl, rfl, rfl, hH.first_mem⟩, nofun⟩
    show Coh s₁ _ ((v.setHandle nm (some (f, v.openCnt nm + 1))).setFile nm (some fv))
    rw [View.setFile_self hwf]
    exact hc₁

/-- All records remain for a new scan. -/
theorem NewScan.ridsAfter {s : Sys} {P : Multiset Pin} {v : View} {nm : FileName} {fv : FileView}
    {H : Heap} {h : HeapFileScan} {x : Pin} (hn : NewScan P v nm fv H h x s) (hH : HeapAt fv H) :
    H.ridsAfter h.curPageNo 0 = H.rids := by
  rw [hn.curPageNo]
  exact hH.rids_eq.symm

/-- If the scan is the only object on the file, the other pins are on other files. -/
theorem NewScan.file_ne {s₀ s : Sys} {P : Multiset Pin} {v : View} {nm : FileName} {fv : FileView}
    {H : Heap} {h : HeapFileScan} {x : Pin} (hn : NewScan P v nm fv H h x s) (hc : Coh s₀ P v)
    (hpos : ∀ f c, v.handle nm = some (f, c) → 0 < c) (hone : v.openCnt nm + 1 = 1) :
    ∀ z ∈ P, z.file ≠ h.filePtr := by
  intro z hz he
  obtain ⟨nm', c, fv', hh', -, -⟩ := hc.cached _ _ _ (hc.pins z hz)
  obtain ⟨y, hc', -, -⟩ := hn.coh
  have hne : nm' ≠ nm := by
    rintro rfl
    have hcnt : v.openCnt nm' = c := by rw [View.openCnt, hh']
    have := hpos _ _ hh'
    omega
  refine hne (hc'.name_unique (c := c) ?_ View.handle_setHandle_self)
  rw [← he]
  exact (View.handle_setHandle_of_ne hne).trans hh'

/-- A full scan returns the records of the file. -/
theorem fullScan_spec {T : Prop} {s : Sys} {P : Multiset Pin} {v : View} {nm : FileName}
    {fv : FileView} {H : Heap} (fuel : Nat) (hc : Coh s P v) (hnm : nm ≠ [])
    (hf : v.file nm = some fv) (hH : HeapAt fv H) (hsized : H.Sized)
    (hpos : ∀ f c, v.handle nm = some (f, c) → 0 < c)
    (hT : T → 2 ≤ freeFrames v.numBufs P ∧ H.rids.length + H.pages.length + 1 ≤ fuel) :
    Clean T (fullScan nm fuel) s fun r _ => r = (.FILEEOF, H.records) := by
  unfold fullScan
  refine (HeapFileScan.new_spec hc hnm hf hH hpos fun ht => (hT ht).1).bind ?_
  rintro ⟨st, h⟩ s₁ ⟨-, x, hfree, hn⟩
  dsimp only at hn ⊢
  have hL := hn.ridsAfter hH
  refine (HeapFileScan.collect_spec (k := 0) fuel fuel hn.coh View.handle_setHandle_self hH hsized
    hn.filter hn.slot fun ht => ?_).bind ?_
  · have := (hT ht).2
    rw [hL]
    exact ⟨hfree ht, by omega, by omega⟩
  rintro ⟨st, l, h'⟩ s₂ ⟨hst, hl, -⟩
  rw [clean_pure]
  dsimp only at hst hl
  rw [hst, hl, hL]
  rfl

end Minirel
