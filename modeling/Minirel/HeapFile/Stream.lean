import Minirel.HeapFile.Hazards
import Minirel.HeapFile.Sweep

/-!
# Scans as streams of records

What a client of a scan works with: the list of the records that it is still going to be given.
`scanNext` takes the first record off the list, `getRecord` and `memcpy` return its bytes, and
`deleteRecord` removes it from the file without changing the list.

## Main definitions

* `Heap.rows`: the records of a file, in no order.
* `IsHeap`: a heap file that can be opened.
* `Streams`: a scan in progress, with the records that are left.
* `OnRecord`: the record that the scan has come to.

## Main results

* `Streams.next`, `Streams.getRecord`, `Streams.delete`, `Streams.endScan`: one call each.
-/

namespace Minirel

open Comp HeapFile

/-! ## The records of a file -/

namespace Heap

/-- The records of the file, in no order. -/
def rows (H : Heap) : Multiset Bytes := H.contents

variable {fv fv' : FileView} {H H' : Heap} {rid : RID} {b : Bytes}

theorem mem_rows (hH : HeapAt fv H) : b ∈ H.rows ↔ ∃ rid, H.rec? rid = some b := by
  unfold rows contents
  rw [Multiset.mem_coe, List.mem_map]
  constructor
  · rintro ⟨⟨r, b'⟩, hm, rfl⟩
    exact ⟨r, (mem_records hH).mp hm⟩
  · rintro ⟨r, hr⟩
    exact ⟨(r, b), (mem_records hH).mpr hr, rfl⟩

/-- The rows depend on the map only. -/
theorem rows_congr (hH : HeapAt fv H) (hH' : HeapAt fv' H') (hrec : H'.rec? = H.rec?) :
    H'.rows = H.rows :=
  Multiset.coe_eq_coe.mpr ((records_congr hH hH' hrec).map Prod.snd)

theorem rows_insert (hH : HeapAt fv H) (hH' : HeapAt fv' H') (hnone : H.rec? rid = none)
    (hrec : H'.rec? = Function.update H.rec? rid (some b)) : H'.rows = b ::ₘ H.rows :=
  Multiset.coe_eq_coe.mpr ((records_insert hH hH' hnone hrec).map Prod.snd)

theorem rows_delete (hH : HeapAt fv H) (hH' : HeapAt fv' H') (hsome : H.rec? rid = some b)
    (hrec : H'.rec? = Function.update H.rec? rid none) : H.rows = b ::ₘ H'.rows := by
  have hnone : H'.rec? rid = none := by rw [hrec, Function.update_self]
  refine rows_insert hH' hH hnone ?_
  rw [hrec, Function.update_idem, ← hsome, Function.update_eq_self]

/-- A file that has just been created has no rows. -/
theorem rows_fresh {nm : FileName} {p q : Int} {pg : Page} : (fresh nm p q pg).rows = 0 := by
  unfold rows
  rw [contents_eq, rids_fresh]
  rfl

end Heap

/-- The file `nm` is the heap file `H`. It can be opened: what is open as this file has not been
closed as often as it has been opened. -/
structure IsHeap (v : View) (nm : FileName) (fv : FileView) (H : Heap) : Prop where
  name : nm ≠ []
  file : v.file nm = some fv
  heapAt : HeapAt fv H
  sized : H.Sized
  opened : ∀ f c, v.handle nm = some (f, c) → 0 < c

theorem IsHeap.openCnt_nonneg {v : View} {nm : FileName} {fv : FileView} {H : Heap}
    (h : IsHeap v nm fv H) : 0 ≤ v.openCnt nm := by
  unfold View.openCnt
  cases hh : v.handle nm with
  | none => exact le_refl 0
  | some d => exact (h.opened d.1 d.2 hh).le

/-- The rows are those that are read off the state. -/
theorem Coh.rows {s : Sys} {P : Multiset Pin} {v : View} {nm : FileName} {fv : FileView} {H : Heap}
    (hc : Coh s P v) (hf : v.file nm = some fv) (hH : HeapAt fv H) :
    (s.heap? nm).map Heap.rows = some H.rows := by
  obtain ⟨H', hH', hsame⟩ := hc.heap? hf hH
  rw [hH', Option.map_some, Heap.rows_congr hH (hsame.heapAt hH) hsame.rec?]

theorem IsHeap.heap? {s : Sys} {P : Multiset Pin} {v : View} {nm : FileName}
    {fv : FileView} {H : Heap} (h : IsHeap v nm fv H) (hc : Coh s P v) :
    (s.heap? nm).map Heap.rows = some H.rows :=
  hc.rows h.file h.heapAt

/-! ## Scans in progress -/

namespace HeapFileScan

/-- A scan in progress that is going to return the records `l`, those left of the file that satisfy
`sat`. It has the header page pinned as `x`, and a data page. -/
structure Streams (T : Prop) (R : Multiset Pin) (v : View) (nm : FileName) (c : Int)
    (sat : Bytes → Bool) (s : Sys) (h : HeapFileScan) (fv : FileView) (H : Heap) (x : Pin)
    (l : List (RID × Bytes)) : Prop where
  holds : Holds s R (v.setFile nm (some fv)) h H x
  handle : v.handle nm = some (h.filePtr, c)
  heapAt : HeapAt fv H
  header : HasHeader h.toHeapFile H x
  sized : H.Sized
  answers : Answers T R v nm h fun _ _ b a => a = sat b
  left : ∃ k : Nat, h.curRec.slotNo = k - 1 ∧ l = H.select sat (H.ridsAfter h.curPageNo k)

/-- The scan has come to the record `rid` with the bytes `b`. -/
structure OnRecord (h : HeapFileScan) (H : Heap) (rid : RID) (b : Bytes) : Prop where
  cur : h.curRec = rid
  page : rid.pageNo = h.curPageNo
  record : H.rec? rid = some b

/-- How a call of `scanNext` ends if the records of the list were left, and what it returns. -/
inductive Next (h : HeapFileScan) (H : Heap) : List (RID × Bytes) → Status → RID → Prop
  | record {rid : RID} {b : Bytes} {l : List (RID × Bytes)} (hr : OnRecord h H rid b) :
      Next h H ((rid, b) :: l) .OK rid
  | eof : Next h H [] .FILEEOF NULLRID

variable {T : Prop} {s : Sys} {P R : Multiset Pin} {v : View} {nm : FileName} {c : Int}
  {sat : Bytes → Bool} {fv : FileView} {H : Heap} {h : HeapFileScan} {x : Pin}
  {rid : RID} {b : Bytes} {l : List (RID × Bytes)}

/-- The scan has stopped at a record, whose number is that of a slot. -/
theorem OnRecord.slot (hr : OnRecord h H rid b) :
    ∃ j : Nat, rid = ⟨h.curPageNo, j⟩ ∧ h.curRec.slotNo = j := by
  have hpos := Clients.slotNo_nonneg hr.record
  refine ⟨rid.slotNo.toNat, ?_, ?_⟩
  · rw [Int.toNat_of_nonneg hpos, ← hr.page]
  · rw [hr.cur, Int.toNat_of_nonneg hpos]

theorem length_select_le (L : List RID) : (H.select sat L).length ≤ L.length :=
  List.length_filterMap_le _ _

/-- A scan that has not written to its page has not either after a call. -/
theorem Moves.clean_of {h' : HeapFileScan} (hm : Moves h h') (hclean : h.curDirtyFlag = false) :
    h'.curDirtyFlag = false := by
  obtain ⟨_, _, d, _, rfl, hd⟩ := hm
  cases d with
  | false => rfl
  | true =>
    rw [(hd rfl).1] at hclean
    cases hclean

/-- Where a call has stopped among the records that were left. -/
theorem Streams.of_visited {L : List RID} {st : Status} {k : Nat}
    (hd : Holds s R (v.setFile nm (some fv)) h H x) (hh : v.handle nm = some (h.filePtr, c))
    (hH : HeapAt fv H) (hx : HasHeader h.toHeapFile H x) (hsized : H.Sized)
    (hans : Answers T R v nm h fun _ _ b a => a = sat b)
    (hv : Visited H (fun _ _ b a => a = sat b) L st rid h k) :
    Next h H (H.select sat L) st rid ∧ Streams T R v nm c sat s h fv H x (H.select sat L).tail := by
  obtain ⟨hk, pre, hpre, hcase⟩ := hv
  have hstream : ∀ l', l' = H.select sat (H.ridsAfter h.curPageNo k) →
      Streams T R v nm c sat s h fv H x l' :=
        fun l' hl' => ⟨hd, hh, hH, hx, hsized, hans, k, hk, hl'⟩
  rcases hcase with ⟨rfl, hcur, hpg, ⟨b, -, hb, -, -, hsat⟩, rfl⟩ | ⟨rfl, rfl, rfl,
    hend⟩ | ⟨-, -, -, hb, -⟩
  · rw [Heap.select_append_of_not hpre, Heap.select_cons_of_mem hb hsat]
    exact ⟨.record ⟨hcur, hpg, hb⟩, hstream _ rfl⟩
  · rw [← List.append_nil L, Heap.select_append_of_not hpre]
    refine ⟨.eof, hstream _ ?_⟩
    rw [hend]
    rfl
  · exact absurd rfl (hsized _ _ hb)

/-- `scanNext` takes the first record off the list. -/
theorem Streams.next (fuel : Nat) (hs : Streams T R v nm c sat s h fv H x l)
    (hT : T → 0 < freeFrames v.numBufs (x ::ₘ R) ∧ H.rids.length + H.pages.length + 1 ≤ fuel) :
    Clean T (scanNext fuel h) s fun r s' => ∃ fv',
      FileView.Forgets (fun p => h.curDirtyFlag = true ∧ p = h.curPageNo) fv fv' ∧
      Moves h r.2.2 ∧ Streams T R v nm c sat s' r.2.2 fv' H x l.tail ∧
      Next r.2.2 H l r.1 r.2.1 := by
  obtain ⟨k, hk, hl⟩ := hs.left
  have hmem := hs.holds.mem
  have hlt := Heap.length_after_lt hmem
  have hle : (H.ridsAfter h.curPageNo k).length ≤ H.rids.length := Heap.length_ridsAfter_le hmem
  refine Runs.mono (scanNext_spec fuel hs.holds hs.handle hs.heapAt hs.answers hk fun ht => ?_) ?_
  · have := (hT ht).2
    omega
  rintro ⟨st, rid, h'⟩ e s' ⟨fv', hfor, hm, ⟨rfl, -, hfull, -⟩ | ⟨rfl, hd, k', hv⟩⟩
  · exact ⟨fun ht => absurd hfull (Nat.ne_of_gt (hT ht).1), nofun⟩
  dsimp only at hm hd hv ⊢
  obtain ⟨hnext, hs'⟩ := Streams.of_visited hd (by rw [hm.filePtr]; exact hs.handle)
    (hfor.heapAt hs.heapAt) (hm.hasHeader hs.header) hs.sized (hs.answers.moves hm) hv
  rw [← hl] at hnext hs'
  exact ⟨fun _ => rfl, fun _ => ⟨fv', hfor, hm, hs', hnext⟩⟩

/-- A scan that has not written to its page forgets nothing. -/
theorem Streams.next_clean (fuel : Nat) (hs : Streams T R v nm c sat s h fv H x l)
    (hclean : h.curDirtyFlag = false)
    (hT : T → 0 < freeFrames v.numBufs (x ::ₘ R) ∧ H.rids.length + H.pages.length + 1 ≤ fuel) :
    Clean T (scanNext fuel h) s fun r s' => r.2.2.curDirtyFlag = false ∧
      Streams T R v nm c sat s' r.2.2 fv H x l.tail ∧ Next r.2.2 H l r.1 r.2.1 := by
  refine (hs.next fuel hT).mono ?_
  rintro ⟨st, rid, h'⟩ s' ⟨fv', hfor, hm, hs', hnext⟩
  obtain rfl : fv' = fv := hfor.eq_of_not fun p hp => by
    rw [hclean] at hp
    cases hp.1
  exact ⟨hm.clean_of hclean, hs', hnext⟩

/-- `getRecord` and `memcpy` at a record: its first bytes, or all of them with what follows on the
page. -/
theorem Streams.getRecord (hs : Streams T R v nm c sat s h fv H x l) (hr : OnRecord h H rid b) :
    ∃ rec blk, Yields (getRecord h) s (.OK, rec) false s ∧ rec.length = b.length ∧
      Yields (derefPage h.curPage) s blk false s ∧
      (∀ n : Nat, n ≤ b.length → blk.asPage.bytes? rec.data n = some (b.take n)) ∧
      ∃ t, blk.asPage.bytes? rec.data (DATASIZE + SLOTSIZE - rec.data) = some (b ++ t) := by
  obtain ⟨j, hrid, hj⟩ := hr.slot
  have hb := hr.record
  rw [hrid] at hb
  obtain ⟨rec, hy, hlen, hnonneg, hle, hbytes⟩ :=
    getRecord_spec hs.holds hs.handle hs.heapAt hj hb (hs.sized _ _ hb)
  obtain ⟨blk, hblk, hpage⟩ := hs.holds.deref hs.handle hs.heapAt
  refine ⟨rec, blk, hy, hlen, hblk, fun n hn => ?_, ?_⟩
  · have := Page.bytes?_slice hbytes hnonneg hle (le_refl 0) (l := (n : Int)) (by omega) (by omega)
    rw [hpage]
    rwa [add_zero] at this
  · rw [hpage]
    rw [Page.bytes?_eq_span _ hnonneg (by omega) hle] at hbytes
    have hcut : (DATASIZE + SLOTSIZE - rec.data).toNat =
        rec.length.toNat + (DATASIZE + SLOTSIZE - rec.data - rec.length).toNat := by
      unfold DATASIZE SLOTSIZE
      omega
    unfold Page.bytes?
    rw [if_pos (by unfold DATASIZE SLOTSIZE; omega), hcut, List.range_add, List.map_append]
    exact ⟨_, congrArg (fun b => some (b ++ _)) (Option.some.inj hbytes)⟩

/-- `deleteRecord` at a record. -/
theorem Streams.delete (hs : Streams T R v nm c sat s h fv H x l) (hr : OnRecord h H rid b) :
    ∃ s' fv' H', let h' : HeapFileScan := { h with curDirtyFlag := true, hdrDirtyFlag := true }
      Yields (deleteRecord h) s (.OK, h') false s' ∧
      Streams T R v nm c sat s' h' fv' H' { x with wrote := true } l ∧
      fv'.kept = fv.kept ∧ H'.hdr = { H.hdr with recCnt := H.hdr.recCnt - 1 } ∧
      H.SamePages H' ∧ H'.rec? = Function.update H.rec? rid none := by
  obtain ⟨k, hk, hl⟩ := hs.left
  obtain ⟨j, hrid, hj⟩ := hr.slot
  have hb := hr.record
  rw [hrid] at hb
  obtain ⟨s', fv', H', hy, hd, hH', hx', -, -, hkept, hno, hpages, hhdr, hrec⟩ :=
    deleteRecord_spec hs.holds hs.handle hs.heapAt hs.header hj hb (hs.sized _ _ hb)
  have hjk : j < k := by omega
  -- what is left lies behind the record
  have hrem := hs.heapAt.ridsAfter_delete hH' hpages hs.holds.mem hrec hjk
  refine ⟨s', fv', H', hy, ⟨hd, hs.handle, hH', hx', hs.sized.delete hrec, hs.answers, k, hk, ?_⟩,
    hkept, hhdr, ⟨hno, hpages⟩, hrid ▸ hrec⟩
  rw [hl]
  show _ = H'.select sat (H'.ridsAfter h.curPageNo k)
  rw [hrem]
  refine (Heap.select_congr fun q hq => ?_).symm
  rw [hrec, Function.update_of_ne]
  rintro rfl
  exact hs.heapAt.not_mem_ridsAfter hs.holds.mem hjk hq

theorem Streams.filePtr {f : FilePtr} {d : Int}
    (hs : Streams T R (v.setHandle nm (some (f, d))) nm c sat s h fv H x l) : h.filePtr = f := by
  have hh := hs.handle
  rw [View.handle_setHandle_self] at hh
  exact (congrArg Prod.fst (Option.some.inj hh)).symm

/-- The pins of a scan that is not going to be used any more. -/
theorem Streams.abandon (hs : Streams T R v nm c sat s h fv H x l) :
    ∃ y : Pin, Coh s ((y ::ₘ x ::ₘ 0) + R) (v.setFile nm (some fv)) ∧
      (y.wrote = true → h.curDirtyFlag = true) ∧ ∀ z ∈ y ::ₘ x ::ₘ 0, z.file = h.filePtr := by
  obtain ⟨y, hc, hp, hw⟩ := hs.holds
  refine ⟨y, ?_, hw, fun z hz => ?_⟩
  swap
  · rcases Multiset.mem_cons.mp hz with rfl | hz
    · exact hp.file
    · rw [Multiset.mem_singleton.mp hz]
      exact hs.header.file
  rw [Multiset.cons_add, Multiset.cons_add, zero_add]
  exact hc

/-- `endScan` gives the data page back. -/
theorem Streams.endScan (hs : Streams T R v nm c sat s h fv H x l) :
    ∃ s' h' fv', Yields (endScan h) s (.OK, h') false s' ∧
      FileView.Forgets (fun p => h.curDirtyFlag = true ∧ p = h.curPageNo) fv fv' ∧
      h' = { h with curPage := .null, curPageNo := 0, curDirtyFlag := false } ∧
      Coh s' (x ::ₘ R) (v.setFile nm (some fv')) := by
  obtain ⟨y, hc, hp, hw⟩ := hs.holds
  obtain ⟨s', fv', hy, hc', hfor⟩ := hp.unpin hc hs.handle View.file_setFile_self h.curDirtyFlag hw
  rw [View.setFile_setFile] at hc'
  exact ⟨s', _, fv', yields_endScan hp hy, hfor, rfl, hc'⟩

/-- A scan that has not written to its page ends without a trace of it. -/
theorem Streams.endScan_clean (hs : Streams T R v nm c sat s h fv H x l)
    (hclean : h.curDirtyFlag = false) :
    ∃ s' h', Yields (HeapFileScan.endScan h) s (.OK, h') false s' ∧
      Coh s' (x ::ₘ R) (v.setFile nm (some fv)) := by
  obtain ⟨s', h', fv', hy, hfor, -, hc⟩ := hs.endScan
  obtain rfl : fv' = fv := hfor.eq_of_not fun p hp => by
    rw [hclean] at hp
    cases hp.1
  exact ⟨s', h', hy, hc⟩

/-- The constructor of `HeapFileScan` reads the first page. A `startScan` leaves it there. -/
theorem new_holds (hc : Coh s P v) (hH : IsHeap v nm fv H)
    (hT : T → 2 ≤ freeFrames v.numBufs P) :
    Clean T (HeapFileScan.new nm) s fun r s' => r.1 = .OK ∧ r.2.filter = none ∧
      ∃ x : Pin, x.wrote = false ∧ (∀ g d, v.handle nm = some (g, d) → r.2.filePtr = g) ∧
      ∀ h' : HeapFileScan, h'.toHeapFile = r.2.toHeapFile →
        Holds s' P ((v.setHandle nm (some (r.2.filePtr, v.openCnt nm + 1))).setFile nm
          (some fv)) h' H
          x ∧ h'.filePtr = r.2.filePtr ∧ HasHeader h'.toHeapFile H x ∧
        h'.curPageNo = H.hdr.firstPage ∧ h'.curRec.slotNo = ((0 : Nat) : Int) - 1 ∧
        h'.curDirtyFlag = false := by
  unfold HeapFileScan.new
  refine (HeapFile.new_spec hc hH.name hH.file hH.heapAt hH.opened hT).bind ?_
  rintro ⟨st, h⟩ s₁ ⟨f, n, m, hr, hsame, hc₁⟩
  cases hr
  rw [clean_pure]
  refine ⟨rfl, rfl, ⟨f, H.hdrNo, n, false⟩, rfl, fun g d hg => hsame g d hg, ?_⟩
  rintro ⟨⟨fp, hp, hno, hd, cp, cno, cd, rid⟩, off, len, ty, filter, op, mp, mr⟩ hh'
  dsimp only [HeapFile.opened] at hh'
  cases hh'
  have hwf : (v.setHandle nm (some (f, v.openCnt nm + 1))).file nm = some fv := hH.file
  refine ⟨⟨⟨f, H.hdr.firstPage, m, false⟩, ?_, ⟨rfl, rfl, rfl, hH.heapAt.first_mem⟩, nofun⟩, rfl,
    ⟨rfl, rfl, rfl, rfl, nofun⟩, rfl, rfl, rfl⟩
  show Coh s₁ _ ((v.setHandle nm (some (f, v.openCnt nm + 1))).setFile nm (some fv))
  rw [View.setFile_self hwf]
  exact hc₁

/-- The scan that is going to return the records that satisfy a predicate. -/
theorem new_streams (hc : Coh s P v) (hH : IsHeap v nm fv H)
    (hT : T → 2 ≤ freeFrames v.numBufs P) :
    Clean T (HeapFileScan.new nm) s fun r s' => r.1 = .OK ∧ r.2.filter = none ∧
      ∃ x : Pin, x.wrote = false ∧ (∀ g d, v.handle nm = some (g, d) → r.2.filePtr = g) ∧
      ∀ (sat : Bytes → Bool) (h' : HeapFileScan), h'.toHeapFile = r.2.toHeapFile →
        Answers T P (v.setHandle nm (some (r.2.filePtr, v.openCnt nm + 1))) nm h'
          (fun _ _ b a => a = sat b) →
        Streams T P (v.setHandle nm (some (r.2.filePtr, v.openCnt nm + 1))) nm
          (v.openCnt nm + 1) sat
          s' h' fv H x (H.select sat H.rids) ∧ h'.curDirtyFlag = false := by
  refine (new_holds hc hH hT).mono ?_
  rintro ⟨st, h⟩ s₁ ⟨hst, hfilter, x, hx, hsame, hnew⟩
  refine ⟨hst, hfilter, x, hx, hsame, fun sat h' hh' hans => ?_⟩
  obtain ⟨hd, hfp, hhdr, hpg, hslot, hclean⟩ := hnew h' hh'
  refine ⟨⟨hd, by rw [hfp]; exact View.handle_setHandle_self, hH.heapAt, hhdr, hH.sized, hans, 0,
    hslot, ?_⟩, hclean⟩
  rw [hpg, hH.heapAt.rids_eq]

end HeapFileScan

end Minirel
