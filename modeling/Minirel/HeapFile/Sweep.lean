import Minirel.HeapFile.Filter
import Minirel.HeapFile.Hazards

/-!
# Deleting during a scan

A client scans a file with a filter and deletes some of the records that it is given. A deletion
takes the slot under the cursor away, and may take slots behind it away too, but it does not touch
the records that remain: these are the ones that a scan without deletions would have come to.

## Main definitions

* `scanDelete`: what such a client does.
* `Heap.select`: the records among a list of RIDs that satisfy a predicate.

## Main results

* `sweep_spec`: the client is given the records that satisfy the predicate, and the file keeps the
  records that have not been deleted.
-/

namespace Minirel

open Comp HeapFile Clients

/-! ## What remains after a deletion -/

section Remaining

variable {fv fv' : FileView} {H H' : Heap} {p : Int} {j k : Nat}

/-- The RIDs of a page from a slot on depend on these slots only. -/
theorem Heap.ridsFrom_congr (hwf : (H.page p).WF) (hwf' : (H'.page p).WF)
    (h : ∀ i, k ≤ i → (H'.page p).rec? i = (H.page p).rec? i) :
    H'.ridsFrom k p = H.ridsFrom k p := by
  have hslots : (H'.page p).live.filter (k ≤ ·) = (H.page p).live.filter (k ≤ ·) := by
    -- two increasing lists of the same slots
    refine List.Perm.eq_of_pairwise' ((H'.page p).pairwise_live.filter _)
      ((H.page p).pairwise_live.filter _) ?_
    rw [List.perm_ext_iff_of_nodup ((H'.page p).nodup_live.filter _)
      ((H.page p).nodup_live.filter _)]
    intro i
    simp only [List.mem_filter, Page.mem_live hwf, Page.mem_live hwf', decide_eq_true_eq]
    refine and_congr_left fun hi => ?_
    rw [h i hi]
  unfold Heap.ridsFrom
  rw [hslots]

/-- A page is not behind itself. -/
theorem HeapAt.not_mem_after (h : HeapAt fv H) (hp : p ∈ H.pages) : p ∉ H.after p := by
  obtain ⟨l, hl⟩ := Heap.exists_before hp
  have hnd := h.nodup
  rw [hl, List.nodup_append] at hnd
  exact (List.nodup_cons.mp hnd.2.1).1

/-- The slots in front of the cursor do not remain. -/
theorem HeapAt.not_mem_ridsAfter (h : HeapAt fv H) (hp : p ∈ H.pages) (hjk : j < k) :
    (⟨p, j⟩ : RID) ∉ H.ridsAfter p k := by
  intro hm
  rcases List.mem_append.mp hm with hm | hm
  · have := ((h.mem_ridsFrom hp).mp hm).2.1
    dsimp only at this
    omega
  · obtain ⟨q, hq, hm⟩ := List.mem_flatMap.mp hm
    have hpq : p = q := ((h.mem_ridsFrom (HeapAt.mem_of_after hp hq)).mp hm).1
    exact h.not_mem_after hp (hpq ▸ hq)

/-- The deletion of a record in front of the cursor leaves alone what remains. -/
theorem HeapAt.ridsAfter_delete (h : HeapAt fv H) (h' : HeapAt fv' H') (hpg : H'.pages = H.pages)
    (hp : p ∈ H.pages) (hrec : H'.rec? = Function.update H.rec? ⟨p, j⟩ none) (hjk : j < k) :
    H'.ridsAfter p k = H.ridsAfter p k := by
  have hafter : H'.after p = H.after p := by
    unfold Heap.after
    rw [hpg]
  have hslot : ∀ q ∈ H.pages, ∀ i : Nat, (⟨q, i⟩ : RID) ≠ ⟨p, j⟩ →
      (H'.page q).rec? i = (H.page q).rec? i := by
    intro q hq i hne
    rw [← HeapAt.rec?_of_mem hq, ← HeapAt.rec?_of_mem (hpg ▸ hq), hrec, Function.update_of_ne hne]
  unfold Heap.ridsAfter Heap.rest
  rw [hafter]
  congr 1
  · refine Heap.ridsFrom_congr (h.wf p hp)
      (h'.wf p (hpg ▸ hp)) fun i hi => hslot p hp i fun he => ?_
    have := congrArg RID.slotNo he
    dsimp only at this
    omega
  · refine List.flatMap_congr fun q hq => ?_
    have hqm := HeapAt.mem_of_after hp hq
    refine Heap.ridsFrom_congr (h.wf q hqm)
      (h'.wf q (hpg ▸ hqm)) fun i _ => hslot q hqm i fun he => ?_
    have hqp : q = p := congrArg RID.pageNo he
    exact h.not_mem_after hp (hqp ▸ hq)

end Remaining

/-! ## The records of a predicate -/

/-- The records among a list of RIDs that satisfy a predicate. -/
def Heap.select (H : Heap) (sat : Bytes → Bool) (L : List RID) : List (RID × Bytes) :=
  L.filterMap fun rid => (H.rec? rid).bind fun b => if sat b then some (rid, b) else none

namespace Heap

variable {H H' : Heap} {sat : Bytes → Bool} {L pre : List RID} {rid : RID} {b : Bytes}

/-- Records that were passed over. -/
theorem select_append_of_not
    (hpre : ∀ q ∈ pre, HeapFileScan.Judged H (fun _ _ b a => a = sat b) q false) :
    H.select sat (pre ++ L) = H.select sat L := by
  unfold select
  rw [List.filterMap_append, List.filterMap_eq_nil_iff.mpr fun q hq => ?_, List.nil_append]
  obtain ⟨b, -, hb, -, -, hsat⟩ := hpre q hq
  rw [hb, Option.bind_some, ← hsat]
  rfl

/-- A record that was returned. -/
theorem select_cons_of_mem (hb : H.rec? rid = some b) (hsat : true = sat b) :
    H.select sat (rid :: L) = (rid, b) :: H.select sat L := by
  unfold select
  rw [List.filterMap_cons, hb, Option.bind_some, ← hsat]
  rfl

theorem select_congr (h : ∀ q ∈ L, H'.rec? q = H.rec? q) : H'.select sat L = H.select sat L :=
  List.filterMap_congr fun q hq => by rw [h q hq]

/-- The records of the file that satisfy a predicate. -/
theorem select_rids : H.select sat H.rids = H.records.filter fun q => sat q.2 := by
  unfold select records
  rw [List.filter_filterMap]
  refine List.filterMap_congr fun rid _ => ?_
  cases H.rec? rid with
  | none => rfl
  | some b => cases hsat : sat b <;> simp [Option.filter, hsat]

end Heap

/-! ## Programs -/

/-- Call `scanNext` until it does not return `OK`, delete the records that `del` asks for, and keep
all of them. The second number bounds the number of calls. -/
def scanDelete (fuel : Nat) (del : RID → Bool) :
    Nat → HeapFileScan → M (Status × List (RID × Bytes) × HeapFileScan)
  | 0, _ => failure
  | n + 1, h => do
    let (status, rid, h) ← h.scanNext fuel
    if status ≠ .OK then return (status, [], h) else
    let bytes ← h.currentBytes
    if del rid then
      let (status, h) ← h.deleteRecord
      if status ≠ .OK then return (status, [(rid, bytes)], h) else
      let (status, l, h) ← scanDelete fuel del n h
      return (status, (rid, bytes) :: l, h)
    else
      let (status, l, h) ← scanDelete fuel del n h
      return (status, (rid, bytes) :: l, h)

/-- Call `scanNext` again a number of times, and keep what it returns. -/
def scanAgain (fuel : Nat) : Nat → HeapFileScan → M (List Status × HeapFileScan)
  | 0, h => return ([], h)
  | n + 1, h => do
    let (status, _, h) ← h.scanNext fuel
    let (l, h) ← scanAgain fuel n h
    return (status :: l, h)

/-- Scan a file with a filter, delete the records that `del` asks for, and call `scanNext` another
`n` times. -/
def sweep (nm : FileName) (offset length : Int) (type : Datatype) (filter : Option Bytes)
    (op : Operator) (del : RID → Bool) (fuel n : Nat) :
    M (Status × Status × List (RID × Bytes) × List Status) := do
  let (_, h) ← HeapFileScan.new nm
  let (st, h) := h.startScan offset length type (filter.map .client) op
  let (status, l, h) ← scanDelete fuel del fuel h
  let (l', _) ← scanAgain fuel n h
  return (st, status, l, l')

namespace HeapFileScan

variable {T : Prop} {s : Sys} {R : Multiset Pin} {v : View} {nm : FileName} {c : Int}
  {fv : FileView} {H : Heap} {h : HeapFileScan} {x : Pin} {k : Nat} {sat : Bytes → Bool}

/-- At the end of the file `scanNext` returns `FILEEOF`, whatever the filter. -/
theorem scanNext_end (fuel : Nat) (hd : Holds s R (v.setFile nm (some fv)) h H x)
    (hh : v.handle nm = some (h.filePtr, c)) (hH : HeapAt fv H) (hk : h.curRec.slotNo = k - 1)
    (hend : H.ridsAfter h.curPageNo k = [])
    (hT : T → 0 < freeFrames v.numBufs (x ::ₘ R) ∧ H.pages.length + 1 ≤ fuel) :
    Clean T (scanNext fuel h) s fun r s' => r.1 = .FILEEOF ∧ ∃ fv',
      FileView.Forgets (fun p => h.curDirtyFlag = true ∧ p = h.curPageNo) fv fv' ∧
      Moves h r.2.2 ∧ Holds s' R (v.setFile nm (some fv')) r.2.2 H x ∧
      r.2.2.curRec.slotNo = k - 1 ∧ H.ridsAfter r.2.2.curPageNo k = [] := by
  have hlt := Heap.length_after_lt hd.mem
  obtain ⟨y, hc, hyp, hw⟩ := hd
  obtain ⟨uf, -, hst, -⟩ := hc.stored nm fv View.file_setFile_self
  have hpos : 1 ≤ h.curPageNo := (hst.range (hH.alloc _ hyp.mem)).1
  unfold scanNext
  rw [if_neg (by omega), if_neg (by rw [hyp.curPage]; exact nofun)]
  cases fuel with
  | zero => exact Clean.failure fun ht => absurd (hT ht).2 (by omega)
  | succ fuel =>
    unfold scanLoop
    have hadv : Clean T (advance fuel h) s fun r s' => r.1 = .FILEEOF ∧ ∃ fv',
        FileView.Forgets (fun p => h.curDirtyFlag = true ∧ p = h.curPageNo) fv fv' ∧
        Moves h r.2 ∧ Holds s' R (v.setFile nm (some fv')) r.2 H x ∧
        r.2.curRec = h.curRec ∧ H.ridsAfter r.2.curPageNo k = [] := by
      refine Runs.mono (advance_spec fuel ⟨y, hc, hyp, hw⟩ hh hH hk fun ht => ?_) ?_
      · have := (hT ht).2
        omega
      rintro r e s' ⟨fv', hfor, hm, ⟨rfl, -, hfull, -⟩ | ⟨rfl, hd', hcase⟩⟩
      · exact ⟨fun ht => absurd hfull (Nat.ne_of_gt (hT ht).1), fun he => Bool.noConfusion he⟩
      · refine ⟨fun _ => rfl, fun _ => ?_⟩
        rcases hcase with ⟨-, j, -, hl, -⟩ | ⟨hst, hcr, -, hend'⟩
        · rw [hend] at hl
          cases hl
        · exact ⟨hst, fv', hfor, hm, hd', hcr, hend'⟩
    refine hadv.bind ?_
    rintro ⟨st, h'⟩ s' ⟨rfl, fv', hfor, hm, hd', hcr, hend'⟩
    dsimp only at hm hd' hcr hend' ⊢
    rw [if_pos (by decide), clean_pure]
    exact ⟨rfl, fv', hfor, hm, hd', hcr ▸ hk, hend'⟩

/-- `scanNext` goes on to return `FILEEOF`. -/
theorem scanAgain_spec (fuel n : Nat) (hd : Holds s R (v.setFile nm (some fv)) h H x)
    (hh : v.handle nm = some (h.filePtr, c)) (hH : HeapAt fv H) (hk : h.curRec.slotNo = k - 1)
    (hend : H.ridsAfter h.curPageNo k = [])
    (hT : T → 0 < freeFrames v.numBufs (x ::ₘ R) ∧ H.pages.length + 1 ≤ fuel) :
    Clean T (scanAgain fuel n h) s fun r s' => r.1 = List.replicate n .FILEEOF ∧
      ∃ fv', HeapAt fv' H ∧ Holds s' R (v.setFile nm (some fv')) r.2 H x := by
  induction n generalizing s fv h with
  | zero =>
    unfold scanAgain
    rw [clean_pure]
    exact ⟨rfl, fv, hH, hd⟩
  | succ n ih =>
    unfold scanAgain
    refine (scanNext_end fuel hd hh hH hk hend hT).bind ?_
    rintro ⟨st, rid, h'⟩ s' ⟨rfl, fv', hfor, hm, hd', hk', hend'⟩
    have hh' : v.handle nm = some (h'.filePtr, c) := by
      rw [hm.filePtr]
      exact hh
    refine (ih hd' hh' (hfor.heapAt hH) hk' hend').bind ?_
    rintro ⟨l, h''⟩ s'' ⟨hl, hrest⟩
    dsimp only at hl ⊢
    rw [clean_pure, hl]
    exact ⟨rfl, hrest⟩

/-- What a client has done that has been given the records `l` and has deleted those that `del`
asks for. The scan is at the end of the file. -/
structure Swept (R : Multiset Pin) (v : View) (nm : FileName) (c : Int) (del : RID → Bool)
    (H : Heap) (x : Pin) (l : List (RID × Bytes)) (h : HeapFileScan) (s : Sys) (fv : FileView)
    (H' : Heap) (x' : Pin) (k : Nat) : Prop where
  holds : Holds s R (v.setFile nm (some fv)) h H' x'
  handle : v.handle nm = some (h.filePtr, c)
  heapAt : HeapAt fv H'
  slot : h.curRec.slotNo = k - 1
  ended : H'.ridsAfter h.curPageNo k = []
  free : freeFrames v.numBufs (x' ::ₘ R) = freeFrames v.numBufs (x ::ₘ R)
  pages : H'.pages = H.pages
  rec? : H'.rec? = fun r => if r ∈ l.map Prod.fst ∧ del r = true then none else H.rec? r

/-- `scanDelete` returns the records that remain and satisfy the predicate, and deletes those of
them that it is asked to delete. -/
theorem scanDelete_spec (fuel n : Nat) (del : RID → Bool)
    (hd : Holds s R (v.setFile nm (some fv)) h H x) (hh : v.handle nm = some (h.filePtr, c))
    (hH : HeapAt fv H) (hx : HasHeader h.toHeapFile H x) (hsized : H.Sized)
    (hM : H.ridsAfter h.curPageNo k ≠ [] → Answers T R v nm h fun _ _ b a => a = sat b)
    (hk : h.curRec.slotNo = k - 1)
    (hT : T → 0 < freeFrames v.numBufs (x ::ₘ R) ∧ (H.ridsAfter h.curPageNo k).length < n ∧
      (H.ridsAfter h.curPageNo k).length + H.pages.length + 1 ≤ fuel) :
    Clean T (scanDelete fuel del n h) s fun r s' => r.1 = .FILEEOF ∧
      r.2.1 = H.select sat (H.ridsAfter h.curPageNo k) ∧
      ∃ fv' H' x' k', Swept R v nm c del H x r.2.1 r.2.2 s' fv' H' x' k' := by
  induction n generalizing s fv h H x k with
  | zero => exact Clean.failure fun ht => absurd (hT ht).2.1 (Nat.not_lt_zero _)
  | succ n ih =>
    unfold scanDelete
    have hlt := Heap.length_after_lt hd.mem
    by_cases hnil : H.ridsAfter h.curPageNo k = []
    · refine (scanNext_end fuel hd hh hH hk hnil fun ht => ?_).bind ?_
      · obtain ⟨h₁, -, h₃⟩ := hT ht
        exact ⟨h₁, by omega⟩
      rintro ⟨st, rid, h'⟩ s' ⟨rfl, fv', hfor, hm, hd', hk', hend'⟩
      dsimp only at hm hd' hk' hend' ⊢
      rw [if_pos (by decide), clean_pure, hnil]
      refine ⟨rfl, rfl, fv', H, x, k, hd', ?_, hfor.heapAt hH, hk', hend', rfl, rfl, ?_⟩
      · rw [hm.filePtr]
        exact hh
      · funext r
        rw [if_neg (by simp)]
    replace hM := hM hnil
    have hstep : Clean T (scanNext fuel h) s fun r s' => ∃ fv',
        FileView.Forgets (fun p => h.curDirtyFlag = true ∧ p = h.curPageNo) fv fv' ∧
        Moves h r.2.2 ∧ Holds s' R (v.setFile nm (some fv')) r.2.2 H x ∧
        ∃ k', Visited H (fun _ _ b a => a = sat b) (H.ridsAfter h.curPageNo k) r.1 r.2.1
          r.2.2 k' := by
      refine Runs.mono (scanNext_spec fuel hd hh hH hM hk fun ht => ?_) ?_
      · have := (hT ht).2.2
        omega
      rintro r e s' ⟨fv', hfor, hm, ⟨rfl, -, hfull, -⟩ | ⟨rfl, hd', hv⟩⟩
      · exact ⟨fun ht => absurd hfull (Nat.ne_of_gt (hT ht).1), nofun⟩
      · exact ⟨fun _ => rfl, fun _ => ⟨fv', hfor, hm, hd', hv⟩⟩
    refine hstep.bind ?_
    rintro ⟨st, rid, h'⟩ s₁ ⟨fv₁, hfor, hm, hd₁, k', hk', pre, hpre, hcase⟩
    dsimp only at hm hd₁ hk' hcase ⊢
    have hh₁ : v.handle nm = some (h'.filePtr, c) := by
      rw [hm.filePtr]
      exact hh
    have hH₁ := hfor.heapAt hH
    have hx₁ := hm.hasHeader hx
    have hM₁ := hM.moves hm
    rcases hcase with ⟨rfl, hcur, hpg, ⟨b, -, hb, hne, -, hsat⟩, hL⟩ | ⟨rfl, -, hL, hend⟩ |
        ⟨-, -, -, hb, -⟩
    · rw [if_neg fun hn => hn rfl]
      -- the slot of the record
      have hpos := Clients.slotNo_nonneg hb
      have hslot : rid = ⟨h'.curPageNo, ((rid.slotNo.toNat : Nat) : Int)⟩ := by
        rw [Int.toNat_of_nonneg hpos, ← hpg]
      have hj : h'.curRec.slotNo = ((rid.slotNo.toNat : Nat) : Int) := by
        rw [hcur, Int.toNat_of_nonneg hpos]
      have hjk : rid.slotNo.toNat < k' := by omega
      have hb' : H.rec? ⟨h'.curPageNo, ((rid.slotNo.toNat : Nat) : Int)⟩ = some b := hslot ▸ hb
      rw [clean_bind_of_yields (currentBytes_spec hd₁ hh₁ hH₁ hj hb' hne)]
      have hlen := congrArg List.length hL
      rw [List.length_append, List.length_cons] at hlen
      have hsel : H.select sat (H.ridsAfter h.curPageNo k) =
          (rid, b) :: H.select sat (H.ridsAfter h'.curPageNo k') := by
        rw [hL, Heap.select_append_of_not hpre, Heap.select_cons_of_mem hb hsat]
      have hnot : rid ∉ H.ridsAfter h'.curPageNo k' := by
        rw [hslot]
        exact hH₁.not_mem_ridsAfter hd₁.mem hjk
      -- what is selected behind the record lies behind it
      have hnotsel : rid ∉ (H.select sat (H.ridsAfter h'.curPageNo k')).map Prod.fst := by
        intro hmem
        obtain ⟨q, hq, hqr⟩ := List.mem_map.mp hmem
        obtain ⟨r, hr, hrq⟩ := List.mem_filterMap.mp hq
        obtain ⟨b', -, hif⟩ := Option.bind_eq_some_iff.mp hrq
        split at hif
        · cases hif
          exact hnot (hqr ▸ hr)
        · cases hif
      by_cases hdel : del rid = true
      · rw [if_pos hdel]
        obtain ⟨s₂, fv₂, H₂, hy₂, hd₂, hH₂, hx₂, -, -, -, -, hpg₂, -, hrec₂⟩ :=
          deleteRecord_spec hd₁ hh₁ hH₁ hx₁ hj hb' hne
        rw [clean_bind_of_yields hy₂]
        dsimp only
        rw [if_neg fun hn => hn rfl]
        have hrem := hH₁.ridsAfter_delete hH₂ hpg₂ hd₁.mem hrec₂ hjk
        rw [← hslot] at hrec₂
        have hM₂ : Answers T R v nm { h' with curDirtyFlag := true, hdrDirtyFlag := true }
            fun _ _ b a => a = sat b := hM₁
        refine (ih hd₂ hh₁ hH₂ hx₂ (hsized.delete hrec₂) (fun _ => hM₂) hk' fun ht => ?_).bind ?_
        · obtain ⟨h₁, h₂, h₃⟩ := hT ht
          rw [freeFrames_wrote, hrem, hpg₂]
          exact ⟨h₁, by omega, by omega⟩
        rintro ⟨st, l, h''⟩ s₃ ⟨hst, hl, fv₃, H₃, x₃, k₃, hsw⟩
        rw [clean_pure]
        dsimp only at hst hl hsw hrem ⊢
        have hl' : l = H.select sat (H.ridsAfter h'.curPageNo k') := by
          rw [hl, hrem]
          refine Heap.select_congr fun q hq => ?_
          rw [hrec₂, Function.update_of_ne]
          rintro rfl
          exact hnot hq
        refine ⟨hst, by rw [hsel, hl'], fv₃, H₃, x₃, k₃, hsw.holds, hsw.handle, hsw.heapAt,
          hsw.slot, hsw.ended, hsw.free.trans (freeFrames_wrote _ _ _ _), hsw.pages.trans hpg₂, ?_⟩
        rw [hsw.rec?, hrec₂]
        funext r
        by_cases hr : r = rid
        · subst hr
          rw [Function.update_self, ite_self, if_pos ⟨List.mem_cons_self, hdel⟩]
        · rw [Function.update_of_ne hr]
          refine if_congr (and_congr_left fun _ => ?_) rfl rfl
          exact ⟨List.mem_cons_of_mem _, fun hm => (List.mem_cons.mp hm).resolve_left hr⟩
      · rw [if_neg hdel]
        refine (ih hd₁ hh₁ hH₁ hx₁ hsized (fun _ => hM₁) hk' fun ht => ?_).bind ?_
        · obtain ⟨h₁, h₂, h₃⟩ := hT ht
          exact ⟨h₁, by omega, by omega⟩
        rintro ⟨st, l, h''⟩ s₂ ⟨hst, hl, fv₂, H₂, x₂, k₂, hsw⟩
        rw [clean_pure]
        dsimp only at hst hl hsw ⊢
        refine ⟨hst, by rw [hsel, hl], fv₂, H₂, x₂, k₂, hsw.holds, hsw.handle, hsw.heapAt, hsw.slot,
          hsw.ended, hsw.free, hsw.pages, ?_⟩
        rw [hsw.rec?]
        funext r
        by_cases hr : r = rid
        · subst hr
          rw [if_neg fun hc => hdel hc.2, if_neg fun hc => hdel hc.2]
        · refine if_congr (and_congr_left fun _ => ?_) rfl rfl
          exact ⟨List.mem_cons_of_mem _, fun hm => (List.mem_cons.mp hm).resolve_left hr⟩
    · rw [if_pos (by decide), clean_pure]
      refine ⟨rfl, ?_, fv₁, H, x, k', hd₁, hh₁, hH₁, hk', hend, rfl, rfl, ?_⟩
      · rw [hL, ← List.append_nil pre, Heap.select_append_of_not hpre]
        rfl
      · funext r
        rw [if_neg (by simp)]
    · exact absurd rfl (hsized _ _ hb)

end HeapFileScan

/-- The RIDs of the records that satisfy a predicate. -/
theorem Heap.mem_select_rids {fv : FileView} {H : Heap} (hH : HeapAt fv H) {sat : Bytes → Bool}
    {rid : RID} : rid ∈ (H.select sat H.rids).map Prod.fst ↔
      ∃ b, H.rec? rid = some b ∧ sat b = true := by
  rw [Heap.select_rids, List.mem_map]
  constructor
  · rintro ⟨⟨r, b⟩, hm, rfl⟩
    obtain ⟨hm, hsat⟩ := List.mem_filter.mp hm
    exact ⟨b, (Heap.mem_records hH).mp hm, hsat⟩
  · rintro ⟨b, hb, hsat⟩
    exact ⟨(rid, b), List.mem_filter.mpr ⟨(Heap.mem_records hH).mpr hb, hsat⟩, rfl⟩

/-- A client that deletes records during a scan is given every record that satisfies the predicate
once, in the order of the file, and then `FILEEOF` for good. The file keeps the other records. -/
theorem sweep_spec {s : Sys} {P : Multiset Pin} {v : View} {nm : FileName} {fv : FileView}
    {H : Heap} (hc : Coh s P v) (hnm : nm ≠ []) (hf : v.file nm = some fv) (hH : HeapAt fv H)
    (hsized : H.Sized) (hpos : ∀ f c, v.handle nm = some (f, c) → 0 < c) {offset length : Int}
    {type : Datatype} {filter : Option Bytes} {op : Operator}
    (haccept : ∀ h : HeapFileScan,
      (h.startScan offset length type (filter.map .client) op).1 = .OK)
    (hread : ∀ f, filter = some f → length ≤ f.length ∨ type = .STRING ∧ 0 ∈ f)
    (hend : filter = none ∨ offset + length < 2147483648 ∨ H.rids = []) (del : RID → Bool)
    (fuel n : Nat) :
    Clean (2 ≤ s.freeFrames ∧ H.rids.length + H.pages.length + 1 ≤ fuel)
      (sweep nm offset length type filter op del fuel n) s fun r s' =>
        r = (.OK, .FILEEOF, H.records.filter (fun q => satisfies offset length type filter op q.2),
          List.replicate n .FILEEOF) ∧
        ∃ H', s'.heap? nm = some H' ∧ H'.Chained ∧ ∀ rid, H'.rec? rid =
          (H.rec? rid).filter fun b => !(del rid && satisfies offset length type filter op b) := by
  unfold sweep
  rw [hc.freeFrames_eq]
  refine (HeapFileScan.new_spec hc hnm hf hH hpos And.left).bind ?_
  rintro ⟨st, h⟩ s₁ ⟨-, x, hfree, hn⟩
  dsimp only at hn ⊢
  -- the scan with its filter
  obtain ⟨h', hstart, hd, hx, hfp, hpg, hsl, hM⟩ : ∃ h' : HeapFileScan,
      h.startScan offset length type (filter.map .client) op = (.OK, h') ∧
      HeapFileScan.Holds s₁ P
        ((v.setHandle nm (some (h.filePtr, v.openCnt nm + 1))).setFile nm (some fv)) h' H x ∧
      HasHeader h'.toHeapFile H x ∧ h'.filePtr = h.filePtr ∧ h'.curPageNo = H.hdr.firstPage ∧
      h'.curRec.slotNo = ((0 : Nat) : Int) - 1 ∧ (H.rids ≠ [] →
        HeapFileScan.Answers (2 ≤ freeFrames v.numBufs P ∧
        H.rids.length + H.pages.length + 1 ≤ fuel)
          P (v.setHandle nm (some (h.filePtr, v.openCnt nm + 1))) nm h' fun _ _ b a =>
            a = satisfies offset length type filter op b) := by
    cases filter with
    | none =>
      exact ⟨{ h with filter := none }, rfl, hn.coh, hn.header, rfl, hn.curPageNo, hn.slot,
        fun _ => HeapFileScan.answers_all _ _ _ _ rfl⟩
    | some f =>
      obtain ⟨h₁, h₂, h₃⟩ := HeapFileScan.startScan_ok (haccept h)
      refine ⟨_, HeapFileScan.startScan_some h₁ h₂ h₃, hn.coh, hn.header, rfl, hn.curPageNo,
        hn.slot, fun hne => ?_⟩
      have hend := (hend.resolve_left nofun).resolve_right hne
      exact HeapFileScan.answers_filter rfl ⟨h₁, h₂, h₃, hend, hread f rfl⟩
        fun _ _ _ _ _ _ _ => rfl
  rw [hstart]
  dsimp only
  have hL : H.ridsAfter h'.curPageNo 0 = H.rids := by
    rw [hpg]
    exact hH.rids_eq.symm
  refine (HeapFileScan.scanDelete_spec fuel fuel del hd
    (by rw [hfp]; exact View.handle_setHandle_self) hH hx hsized (fun hne => hM (hL ▸ hne)) hsl
    fun ht => ?_).bind ?_
  · have := ht.2
    rw [hL]
    exact ⟨hfree ht, by omega, by omega⟩
  rintro ⟨st, l, h''⟩ s₂ ⟨hst, hl, fv', H', x', k', hsw⟩
  dsimp only at hst hl hsw ⊢
  refine (HeapFileScan.scanAgain_spec fuel n hsw.holds hsw.handle hsw.heapAt hsw.slot hsw.ended
    fun ht => ?_).bind ?_
  · have := ht.2
    rw [hsw.free, hsw.pages]
    exact ⟨hfree ht, by omega⟩
  rintro ⟨l', h₃⟩ s₃ ⟨hl', fv₃, hH₃, y, hc₃, -, -⟩
  rw [clean_pure]
  dsimp only at hl' hc₃
  rw [hL] at hl
  obtain ⟨H₃, hH₃', hsame⟩ := hc₃.heap? View.file_setFile_self hH₃
  refine ⟨by rw [hst, hl, hl', Heap.select_rids], H₃, hH₃', (hsame.heapAt hH₃).chained,
    fun rid => ?_⟩
  rw [hsame.rec?, hsw.rec?, hl]
  dsimp only
  have hmem : rid ∈ (H.select (satisfies offset length type filter op) H.rids).map Prod.fst ↔ _ :=
    Heap.mem_select_rids hH
  cases hb : H.rec? rid with
  | none =>
    rw [ite_self]
    rfl
  | some b =>
    rw [Option.filter_some]
    by_cases hc : del rid = true ∧ satisfies offset length type filter op b = true
    · rw [if_pos ⟨hmem.mpr ⟨b, hb, hc.2⟩, hc.1⟩, hc.1, hc.2]
      rfl
    · rw [if_neg, if_pos]
      · rw [Bool.not_eq_true', Bool.and_eq_false_iff, ← Bool.not_eq_true, ← Bool.not_eq_true]
        exact not_and_or.mp hc
      · rintro ⟨hm, hdel⟩
        obtain ⟨b', hb', hsat⟩ := hmem.mp hm
        rw [hb] at hb'
        cases hb'
        exact hc ⟨hdel, hsat⟩

/-! ## Filters beyond the largest `int` -/

namespace HeapFileScan

variable {s : Sys} {R : Multiset Pin} {v : View} {nm : FileName} {c : Int} {fv : FileView}
  {H : Heap} {h : HeapFileScan} {x : Pin} {k : Nat} {filter : CharPtr}

/-- If the end of the attribute is not an `int` the bound test is passed, and an attribute that
starts behind the page is read. -/
theorem matchRec_overflow (hfilter : h.filter = some filter) (ho : 1008 ≤ h.offset)
    (ho' : h.offset < 2147483648) (hl : 1 ≤ h.length) (hl' : h.length < 2147483648)
    (hend : 2147483648 < h.offset + h.length) (page : Page) {rec : PageRecord}
    (hdata : 0 ≤ rec.data) (hlen : 0 ≤ rec.length) :
    Clean False (h.matchRec page rec) s fun _ _ => False := by
  have hwrap : toInt (toInt (h.offset + h.length) - 1) = h.offset + h.length - 1 - 4294967296 := by
    unfold toInt
    omega
  have hbytes : page.bytes? (rec.data + h.offset) h.length = none := by
    unfold Page.bytes? DATASIZE SLOTSIZE
    rw [if_neg (by omega)]
  unfold matchRec
  rw [hfilter]
  dsimp only
  rw [hwrap, if_neg (by omega), clean_get_bind]
  cases h.type with
  | INTEGER =>
    dsimp only
    rw [hbytes]
    exact Clean.ofOption_bind (fun hf => hf.elim) nofun
  | FLOAT =>
    dsimp only
    rw [hbytes]
    exact Clean.ofOption_bind (fun hf => hf.elim) nofun
  | STRING =>
    dsimp only
    obtain ⟨n, hn⟩ : ∃ n, h.length.toNat = n + 1 := ⟨h.length.toNat - 1, by omega⟩
    have hbyte : page.byte? (rec.data + h.offset + ((0 : Nat) : Int)) = none := by
      unfold Page.byte? DATASIZE SLOTSIZE
      rw [if_neg (by omega)]
    rw [hn]
    unfold strncmp
    rw [hbyte]
    exact Clean.ofOption_bind (fun hf => hf.elim) fun d hd => absurd hd.symm (Option.some_ne_none d)

/-- With such a filter `scanNext` does not return if there is a record to look at. -/
theorem scanNext_overflow (fuel : Nat) (hd : Holds s R (v.setFile nm (some fv)) h H x)
    (hh : v.handle nm = some (h.filePtr, c)) (hH : HeapAt fv H) (hsized : H.Sized)
    (hk : h.curRec.slotNo = k - 1) (hne : H.ridsAfter h.curPageNo k ≠ [])
    (hfilter : h.filter = some filter) (ho : 1008 ≤ h.offset)
    (ho' : h.offset < 2147483648) (hl : 1 ≤ h.length) (hl' : h.length < 2147483648)
    (hend : 2147483648 < h.offset + h.length) :
    Clean False (scanNext fuel h) s fun _ _ => False := by
  obtain ⟨y, hc, hyp, hw⟩ := hd
  obtain ⟨uf, -, hst, -⟩ := hc.stored nm fv View.file_setFile_self
  have hpos : 1 ≤ h.curPageNo := (hst.range (hH.alloc _ hyp.mem)).1
  unfold scanNext
  rw [if_neg (by omega), if_neg (by rw [hyp.curPage]; exact nofun)]
  cases fuel with
  | zero => exact Clean.failure id
  | succ fuel =>
    unfold scanLoop
    have hadv : Clean False (advance fuel h) s fun r s' => r.1 = .OK ∧ ∃ fv',
        FileView.Forgets (fun p => h.curDirtyFlag = true ∧ p = h.curPageNo) fv fv' ∧
        Moves h r.2 ∧ Holds s' R (v.setFile nm (some fv')) r.2 H x ∧
        ∃ j : Nat, r.2.curRec = ⟨r.2.curPageNo, j⟩ ∧ H.rec? r.2.curRec ≠ none := by
      refine Runs.mono (advance_spec fuel ⟨y, hc, hyp, hw⟩ hh hH hk fun hf => hf.elim) ?_
      rintro r e s' ⟨fv', hfor, hm, ⟨rfl, -⟩ | ⟨rfl, hd', hcase⟩⟩
      · exact ⟨fun hf => hf.elim, fun he => Bool.noConfusion he⟩
      · refine ⟨fun _ => rfl, fun _ => ?_⟩
        rcases hcase with ⟨hst, j, hj, hL, -⟩ | ⟨-, -, hL, -⟩
        · refine ⟨hst, fv', hfor, hm, hd', j, hj, hH.rec?_of_mem_ridsAfter hyp.mem (k := k) ?_⟩
          rw [hL, hj]
          exact List.mem_cons_self
        · exact absurd hL hne
    refine hadv.bind ?_
    rintro ⟨st, h'⟩ s' ⟨hst, fv', hfor, hm, hd', j, hj, hlive⟩
    dsimp only at hst hm hd' hj hlive ⊢
    subst hst
    rw [if_neg fun hn => hn rfl]
    have hh' : v.handle nm = some (h'.filePtr, c) := by
      rw [hm.filePtr]
      exact hh
    obtain ⟨blk, hy, hblk⟩ := hd'.deref hh' (hfor.heapAt hH)
    obtain ⟨b, hb⟩ := Option.ne_none_iff_exists'.mp hlive
    have hpg := hb
    rw [hj, HeapAt.rec?_of_mem hd'.mem] at hpg
    obtain ⟨rec, hget, hlen, h₁, h₂, -⟩ :=
      Page.getRecord_spec (hH.wf _ hd'.mem) hpg (hsized _ _ hb) h'.curPageNo
    rw [clean_bind_of_yields hy, hblk, hj, hget, clean_ofOption_some_bind]
    dsimp only
    rw [if_neg fun hn => hn rfl]
    obtain ⟨_, _, _, _, rfl, -⟩ := hm
    refine (matchRec_overflow hfilter ho ho' hl hl' hend _ h₁ (by omega)).bind ?_
    exact fun _ _ hf => hf.elim

end HeapFileScan

/-- A filter whose attribute starts behind the page and ends beyond the largest `int` is accepted,
and the scan does not return if there are records. -/
theorem sweep_overflow {s : Sys} {P : Multiset Pin} {v : View} {nm : FileName} {fv : FileView}
    {H : Heap} (hc : Coh s P v) (hnm : nm ≠ []) (hf : v.file nm = some fv) (hH : HeapAt fv H)
    (hsized : H.Sized) (hpos : ∀ f c, v.handle nm = some (f, c) → 0 < c) (hne : H.rids ≠ [])
    {offset length : Int} {type : Datatype} {f : Bytes} {op : Operator}
    (haccept : ∀ h : HeapFileScan, (h.startScan offset length type (some (.client f)) op).1 = .OK)
    (ho : 1008 ≤ offset) (ho' : offset < 2147483648) (hl : length < 2147483648)
    (hend : 2147483648 < offset + length) (del : RID → Bool) (fuel n : Nat) :
    Clean False (sweep nm offset length type (some f) op del fuel n) s fun _ _ => False := by
  unfold sweep
  refine (HeapFileScan.new_spec hc hnm hf hH hpos fun hf => hf.elim).bind ?_
  rintro ⟨st, h⟩ s₁ ⟨-, x, -, hn⟩
  obtain ⟨h₁, h₂, h₃⟩ := HeapFileScan.startScan_ok (haccept h)
  have hstart : h.startScan offset length type (Option.map CharPtr.client (some f)) op = _ :=
    HeapFileScan.startScan_some h₁ h₂ h₃
  dsimp only at hn ⊢
  rw [hstart]
  dsimp only
  cases fuel with
  | zero => exact (show Clean False (scanDelete 0 del 0 _) s₁ (fun _ _ => False) from
      Clean.failure id).bind fun _ _ hf => hf.elim
  | succ fuel =>
    have hnext : Clean False (HeapFileScan.scanNext (fuel + 1)
        { h with offset, length, type, filter := some (.client f), op }) s₁ fun _ _ => False := by
      refine HeapFileScan.scanNext_overflow (k := 0) (fuel + 1) hn.coh View.handle_setHandle_self hH
        hsized hn.slot ?_ rfl ho ho' h₂ hl hend
      show H.ridsAfter h.curPageNo 0 ≠ []
      rw [hn.ridsAfter hH]
      exact hne
    refine Clean.bind (P := fun _ _ => False) ?_ fun _ _ hf => hf.elim
    unfold scanDelete
    exact hnext.bind fun _ _ hf => hf.elim

/-! ## A file with one record -/

/-- Make a heap file, insert one record and close the file. -/
def makeFile (nm : FileName) (rec : Record) : M (List Status × RID) := do
  let st ← createHeapFile nm
  let (st₁, h) ← InsertFileScan.new nm
  let (st₂, rid, h) ← InsertFileScan.insertRecord h rec
  InsertFileScan.delete h
  return ([st, st₁, st₂], rid)

/-- The file then has this record, and the other files are as they were. -/
theorem makeFile_spec {s s' : Sys} {v : View} {nm : FileName} {rec : Record} {rid : RID}
    (hc : Coh s 0 v) (hnm : nm ≠ []) (hnone : v.file nm = none) (hforeign : ¬v.foreign nm)
    (hlen : 1 ≤ rec.length ∧ rec.length ≤ 1000) (hread : rec.Readable)
    (hy : Yields (makeFile nm rec) s ([.OK, .OK, .OK], rid) false s') :
    ∃ v' fv H, Coh s' 0 v' ∧ v'.file nm = some fv ∧ v'.handle nm = none ∧ HeapAt fv H ∧
      H.Sized ∧ H.records = [(rid, rec.bytes)] ∧ v'.foreign = v.foreign ∧
      ∀ nm', nm' ≠ nm → v'.file nm' = v.file nm' ∧ v'.handle nm' = v.handle nm' := by
  obtain ⟨st, e₀, s₀, _, hy₀, k₀, he₀⟩ := hy.of_bind
  obtain ⟨⟨st₁, h⟩, e₁, s₁, _, hy₁, k₁, rfl⟩ := k₀.of_bind
  obtain ⟨⟨st₂, r, h'⟩, e₂, s₂, _, hy₂, k₂, rfl⟩ := k₁.of_bind
  obtain ⟨⟨⟩, e₃, s₃, _, hy₃, k₃, rfl⟩ := k₂.of_bind
  obtain ⟨heq, rfl, rfl⟩ := yields_pure.mp k₃
  simp only [Prod.mk.injEq, List.cons.injEq, and_true] at heq
  obtain ⟨⟨rfl, rfl, rfl⟩, rfl⟩ := heq
  simp only [Bool.false_eq, Bool.or_eq_false_iff] at he₀
  obtain ⟨rfl, rfl, rfl, rfl, -⟩ := he₀
  have hspec := createHeapFile_spec (T := False) hc hnm hnone hforeign fun hf => hf.elim
  obtain ⟨-, p, q, pg, fv₀, hc₀, hH₀⟩ := hspec.of_yields hy₀
  have hsized : (Heap.fresh nm p q pg).Sized := by
    intro r b hb
    rw [Heap.rec?_fresh] at hb
    cases hb
  -- the object is on the last page
  obtain ⟨hinv₁, hon⟩ := (Inv.start hnm hc₀ View.file_setFile_self hH₀
    (hc.handle_eq_none hnone)).openInsert hy₁
  obtain ⟨fv₂, H₂, hinv₂, hadd, -⟩ := hinv₁.insert hy₂ fun _ _ => ⟨hread, Or.inr hon⟩
  obtain ⟨fv₃, hinv₃⟩ := hinv₂.closeInsert hy₃
  obtain ⟨f, P, Q, hP, hQ, hc₃⟩ := hinv₃.holds
  obtain rfl := Multiset.rel_zero_left.mp hP
  obtain rfl := Multiset.rel_zero_left.mp hQ
  rcases hadd with ⟨-, hfree, hrec, -⟩ | ⟨hst, -⟩
  · refine ⟨_, fv₃, H₂, hc₃, View.file_shared, ?_, hinv₃.heapAt, ?_, ?_, rfl, fun nm' hne => ?_⟩
    · rw [View.handle_shared]
      rfl
    · exact hsized.insert (Record.bytes_ne_nil hread (by omega)) hrec
    · have hperm := Heap.records_insert hH₀ hinv₃.heapAt hfree hrec
      have hfresh : (Heap.fresh nm p q pg).records = [] := by
        unfold Heap.records
        rw [Heap.rids_fresh]
        rfl
      rw [hfresh] at hperm
      exact List.perm_singleton.mp hperm
    · exact ⟨(View.file_setFile_of_ne hne).trans (View.file_setFile_of_ne hne),
        View.handle_setHandle_of_ne hne⟩
  · exact absurd rfl hst

/-- A process that has made a heap file with one record, and has closed it. -/
theorem exists_oneRecord : ∃ s v fv H, Coh s 0 v ∧ v.file [82] = some fv ∧ v.handle [82] = none ∧
    HeapAt fv H ∧ H.Sized ∧ H.records = [(⟨2, 0⟩, [1, 2, 3])] ∧ s.freeFrames = 4 ∧
    ∀ nm, nm ≠ [82] → v.file nm = none ∧ ¬v.foreign nm := by
  obtain ⟨r, e, s, hy, hv⟩ := exists_of_eval (s := Sys.blank 3)
    (x := makeFile [82] ⟨[1, 2, 3], 3⟩)
    (g := fun r e s => (r, e, s.freeFrames))
    (v := (([.OK, .OK, .OK], ⟨2, 0⟩), false, 4)) (by decide +kernel)
  obtain ⟨rfl, rfl, hfree⟩ : r = _ ∧ e = _ ∧ s.freeFrames = _ := by
    simpa only [Prod.mk.injEq] using hv
  obtain ⟨v, fv, H, hc, hf, hh, hH, hsized, hrec, hforeign, hothers⟩ := makeFile_spec (Coh.blank 3)
    (List.cons_ne_nil 82 []) rfl id ⟨by decide, by decide⟩ ⟨by decide, by decide⟩ hy
  refine ⟨s, v, fv, H, hc, hf, hh, hH, hsized, hrec, hfree, fun nm hne => ⟨(hothers nm hne).1, ?_⟩⟩
  rw [hforeign]
  exact id

/-- The record is returned, and deleted. -/
theorem sweep_spec_oneRecord : ∃ s fuel s',
    Yields (sweep [82] 0 3 .STRING (some [1, 2, 3]) .EQ (fun _ => true) fuel 2) s
      (.OK, .FILEEOF, [(⟨2, 0⟩, [1, 2, 3])], [.FILEEOF, .FILEEOF]) false s' := by
  obtain ⟨s, v, fv, H, hc, hf, hh, hH, hsized, hrec, hfree, -⟩ := exists_oneRecord
  have hspec : Clean _ (sweep [82] 0 3 .STRING (some [1, 2, 3]) .EQ (fun _ => true)
      (H.rids.length + H.pages.length + 1) 2) s _ :=
    sweep_spec hc (show ([82] : FileName) ≠ [] from nofun) hf hH hsized
      (fun f c he => by rw [hh] at he; cases he) (fun _ => rfl)
      (fun f hf => by cases hf; exact Or.inl (by decide)) (Or.inr (Or.inl (by decide)))
      (fun _ => true) _ 2
  obtain ⟨r, s', hy, hr, -⟩ := hspec.exists ⟨by rw [hfree]; decide, le_refl _⟩
  rw [hrec] at hr
  exact ⟨s, _, s', hr ▸ hy⟩

/-- A filter for the two bytes that end beyond the largest `int`: the scan does not return. -/
theorem sweep_lost_oneRecord : ∃ s v fv H, Coh s 0 v ∧ v.file [82] = some fv ∧ HeapAt fv H ∧
    H.Sized ∧ 2 ≤ s.freeFrames ∧
    (∀ h : HeapFileScan,
      (h.startScan 2147483647 2 .STRING (some (.client [97, 0])) .EQ).1 = .OK) ∧
    ∀ fuel n r s', ¬Yields
      (sweep [82] 2147483647 2 .STRING (some [97, 0]) .EQ (fun _ => false) fuel n) s r
        false s' := by
  obtain ⟨s, v, fv, H, hc, hf, hh, hH, hsized, hrec, hfree, -⟩ := exists_oneRecord
  have hne : H.rids ≠ [] := by
    intro hnil
    unfold Heap.records at hrec
    rw [hnil] at hrec
    cases hrec
  have haccept : ∀ h : HeapFileScan,
      (h.startScan 2147483647 2 .STRING (some (.client [97, 0])) .EQ).1 = .OK := fun _ => rfl
  refine ⟨s, v, fv, H, hc, hf, hH, hsized, by rw [hfree]; decide, haccept,
    fun fuel n r s' hy => ?_⟩
  have hover := sweep_overflow hc (show ([82] : FileName) ≠ [] from nofun) hf hH hsized
    (fun f c he => by rw [hh] at he; cases he) hne haccept (by decide) (by decide) (by decide)
    (by decide) (fun _ => false) fuel n
  exact hover.of_yields hy

end Minirel
