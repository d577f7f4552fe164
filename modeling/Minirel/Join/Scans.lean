import Minirel.Catalog.Session
import Minirel.HeapFile.Append
import Minirel.Join

/-!
# Several open files

A join has three files open at once, and each call moves the pins of one object only. What is known
of an object is said here without the state and without the pins of the others, so that it is
carried over the calls on the other two.

## Main definitions

* `HeapFileScan.Reader`: a scan that has only read, with the records that are left.
* `InsertFileScan.Writer`: an object on the last page of its file.
* `RecPtr.At`: a pointer to a record on a pinned page.

## Main results

* `Reader.next`, `Reader.getRecord`, `Reader.close`: the calls on a scan.
* `Writer.insert`, `Writer.close`: the calls on the file that grows.
* `RecPtr.At.read`, `RecPtr.At.charAt`: the bytes of the record, as long as the page is pinned.
-/

namespace Minirel

open Comp HeapFile

/-- The two pins of an object and those of another one. -/
theorem pins_swap (x y x' y' : Pin) (P : Multiset Pin) :
    y ::ₘ x ::ₘ y' ::ₘ x' ::ₘ P = y' ::ₘ x' ::ₘ y ::ₘ x ::ₘ P := by
  rw [Multiset.cons_swap x y', Multiset.cons_swap x x', Multiset.cons_swap y y',
    Multiset.cons_swap y x']

/-! ## Records on pinned pages -/

namespace RecPtr

/-- The pointer is to the record `b` on the page of the file `nm` that is pinned as `y`. -/
structure At (v : View) (nm : FileName) (y : Pin) (r : RecPtr) (b : Bytes) : Prop where
  page : r.page = .frame y.frame
  length : r.record.length = b.length
  data_nonneg : 0 ≤ r.record.data
  data_le : r.record.data + r.record.length ≤ 1004
  opened : ∃ c, v.handle nm = some (y.file, c)
  onPage : ∃ fv blk, v.file nm = some fv ∧ fv.cur y.pageNo = some blk ∧
    blk.asPage.bytes? r.record.data r.record.length = some b

variable {s : Sys} {P : Multiset Pin} {v v' : View} {nm : FileName} {y : Pin}
  {r : RecPtr} {b : Bytes} {o n : Int}

/-- Nothing has been done to the file. -/
theorem At.congr (h : At v nm y r b) (hfile : v'.file nm = v.file nm)
    (hhandle : v'.handle nm = v.handle nm) : At v' nm y r b := by
  obtain ⟨c, hh⟩ := h.opened
  obtain ⟨fv, blk, hf, hblk⟩ := h.onPage
  exact { h with opened := ⟨c, hhandle.trans hh⟩, onPage := ⟨fv, blk, hfile.trans hf, hblk⟩ }

/-- What the pool has at the pointer. -/
theorem At.block (h : At v nm y r b) (hc : Coh s P v) (hy : y ∈ P) : ∃ blk,
    Yields (derefPage r.page) s blk false s ∧ s.buf.bufPool y.frame = blk ∧
    blk.asPage.bytes? r.record.data r.record.length = some b := by
  obtain ⟨c, hh⟩ := h.opened
  obtain ⟨fv, blk, hf, hcur, hbytes⟩ := h.onPage
  rw [h.page]
  exact ⟨blk, hc.derefPage hy hh hf hcur,
    hc.content hy hh hf (hc.alloc_of_pin hy hh hf) hcur, hbytes⟩

/-- Reading a part of the record. -/
theorem At.read (h : At v nm y r b) (hc : Coh s P v) (hy : y ∈ P) (ho : 0 ≤ o) (hn : 0 ≤ n)
    (hon : o + n ≤ b.length) :
    Yields (r.read o n) s ((b.drop o.toNat).take n.toNat) false s := by
  obtain ⟨blk, hblk, -, hbytes⟩ := h.block hc hy
  have hlen := h.length
  have hslice := Page.bytes?_slice hbytes h.data_nonneg h.data_le ho hn (by omega)
  unfold RecPtr.read
  refine hblk.bind (d := false) ?_
  rw [hslice]
  rfl

/-- The memory from a place in the record on. -/
theorem At.charAt (h : At v nm y r b) (hc : Coh s P v) (hy : y ∈ P) (ho : 0 ≤ o)
    (hon : o + n ≤ b.length) {i : Nat} (hi : i < n.toNat) :
    s.charAt (.pool y.frame (r.record.data + o)) i = ((b.drop o.toNat).take n.toNat)[i]? := by
  obtain ⟨blk, -, hblk, hbytes⟩ := h.block hc hy
  have hlen := h.length
  show (s.buf.bufPool y.frame).asPage.byte? _ = _
  rw [hblk]
  exact Page.byte?_slice hbytes h.data_nonneg h.data_le ho (by omega) hi

end RecPtr

/-! ## Scans -/

namespace HeapFileScan

/-- A scan that has only read and is going to return the records `l`, those left of the file that
satisfy `sat`. -/
structure Reader (v : View) (nm : FileName) (c : Int) (sat : Bytes → Bool) (h : HeapFileScan)
    (fv : FileView) (H : Heap) (x y : Pin) (l : List (RID × Bytes)) : Prop where
  file : v.file nm = some fv
  handle : v.handle nm = some (h.filePtr, c)
  heapAt : HeapAt fv H
  sized : H.Sized
  reads : h.toHeapFile.Reads H x y
  left : ∃ k : Nat, h.curRec.slotNo = k - 1 ∧ l = H.select sat (H.ridsAfter h.curPageNo k)

variable {T : Prop} {s : Sys} {P R : Multiset Pin} {v v' : View} {nm : FileName} {c : Int}
  {sat : Bytes → Bool} {fv : FileView} {H : Heap} {h : HeapFileScan} {x y : Pin}
  {rid : RID} {b : Bytes} {l : List (RID × Bytes)}

/-- Nothing has been done to the file. -/
theorem Reader.congr (hr : Reader v nm c sat h fv H x y l) (hfile : v'.file nm = v.file nm)
    (hhandle : v'.handle nm = v.handle nm) : Reader v' nm c sat h fv H x y l :=
  { hr with file := hfile.trans hr.file, handle := hhandle.trans hr.handle }

/-- The scan, in a state. -/
theorem Reader.streams (hr : Reader v nm c sat h fv H x y l) (hc : Coh s (y ::ₘ x ::ₘ R) v)
    (hans : Answers T R v nm h fun _ _ b a => a = sat b) : Streams T R v nm c sat s h fv H x l := by
  refine ⟨⟨y, ?_, hr.reads.page, fun hw => ?_⟩, hr.handle, hr.heapAt, hr.reads.header,
    hr.sized, hans,
    hr.left⟩
  · rw [View.setFile_self hr.file]
    exact hc
  · rw [hr.reads.unwritten.2] at hw
    cases hw

/-- `scanNext` takes the first record off the list and moves the pin of the data page. -/
theorem Reader.next (fuel : Nat) (hr : Reader v nm c sat h fv H x y l)
    (hc : Coh s (y ::ₘ x ::ₘ R) v) (hans : Answers T R v nm h fun _ _ b a => a = sat b)
    (hT : T → 0 < freeFrames v.numBufs (x ::ₘ R) ∧ H.rids.length + H.pages.length + 1 ≤ fuel) :
    Clean T (scanNext fuel h) s fun r s' => Moves h r.2.2 ∧ Next r.2.2 H l r.1 r.2.1 ∧
      ∃ y', Coh s' (y' ::ₘ x ::ₘ R) v ∧ Reader v nm c sat r.2.2 fv H x y' l.tail := by
  refine ((hr.streams hc hans).next fuel hT).mono ?_
  rintro ⟨st, rid, h'⟩ s' ⟨fv', hfor, hm, hs', hnext⟩
  have hclean := hm.clean_of hr.reads.curClean
  obtain rfl : fv' = fv := hfor.eq_of_not fun p hp => by
    rw [hr.reads.curClean] at hp
    cases hp.1
  obtain ⟨y', hc', hy', hw⟩ := hs'.holds
  rw [View.setFile_self hr.file] at hc'
  have hunwritten : y'.wrote = false := Bool.eq_false_iff.mpr fun ht => by
    rw [hw ht] at hclean
    cases hclean
  have hdr : h'.hdrDirtyFlag = false := by
    obtain ⟨_, _, _, _, rfl, -⟩ := hm
    exact hr.reads.hdrClean
  exact ⟨hm, hnext, y', hc', hr.file, hs'.handle, hr.heapAt, hr.sized,
    ⟨hs'.header, hy', ⟨hr.reads.unwritten.1, hunwritten⟩, hdr, hclean⟩, hs'.left⟩

/-- `getRecord` returns a pointer to the record under the cursor. -/
theorem Reader.getRecord (hr : Reader v nm c sat h fv H x y l) (hc : Coh s (y ::ₘ x ::ₘ R) v)
    (hrec : OnRecord h H rid b) :
    ∃ rec, Yields (getRecord h) s (.OK, rec) false s ∧ RecPtr.At v nm y ⟨h.curPage, rec⟩ b := by
  obtain ⟨j, hrid, hj⟩ := hrec.slot
  have hb := hrec.record
  rw [hrid] at hb
  have hd : Holds s R (v.setFile nm (some fv)) h H x := by
    refine ⟨y, ?_, hr.reads.page, fun hw => ?_⟩
    · rw [View.setFile_self hr.file]
      exact hc
    · rw [hr.reads.unwritten.2] at hw
      cases hw
  obtain ⟨rec, hy, hlen, hnonneg, hle, hbytes⟩ :=
    getRecord_spec hd hr.handle hr.heapAt hj hb (hr.sized _ _ hb)
  obtain ⟨blk, hcur, hblk⟩ := hr.heapAt.exists_page hr.reads.page.mem
  refine ⟨rec, hy, hr.reads.page.curPage, hlen, hnonneg, hle, ⟨c, ?_⟩, fv, blk, hr.file, ?_, ?_⟩
  · rw [hr.reads.page.file]
    exact hr.handle
  · rw [hr.reads.page.pageNo]
    exact hcur
  · rw [hblk]
    exact hbytes

/-- The destructor gives the pins back and closes the file. -/
theorem Reader.close (hr : Reader v nm c sat h fv H x y l) (hc : Coh s (y ::ₘ x ::ₘ R) v)
    (hpos : 0 < c) (hlast : c = 1 → ∀ z ∈ R, z.file ≠ h.filePtr) :
    ∃ s', Yields (HeapFileScan.delete h) s () false s' ∧
      Coh s' R (v.setHandle nm (closed h.filePtr c)) := by
  have hw : y.wrote = true → h.curDirtyFlag = true := fun hw => by
    rw [hr.reads.unwritten.2] at hw
    cases hw
  obtain ⟨s', fv', hy, hc', hfor⟩ :=
    delete_scan hc hr.handle hr.file hr.reads.header hr.reads.page hw hpos hlast
  obtain rfl : fv' = fv := hfor.eq_of_not fun p hp => by
    rw [hr.reads.curClean, hr.reads.hdrClean] at hp
    rcases hp with ⟨hp, -⟩ | ⟨hp, -⟩ <;> cases hp
  rw [View.setFile_self hr.file] at hc'
  exact ⟨s', hy, hc'⟩

/-- The constructor. A `startScan` does not move the scan, and decides which records are going to be
returned. -/
theorem new_reader (hc : Coh s P v) (hH : IsHeap v nm fv H) (hT : T → 2 ≤ freeFrames v.numBufs P) :
    Clean T (HeapFileScan.new nm) s fun r s' => r.1 = .OK ∧ r.2.filter = none ∧ ∃ x y,
      (∀ f c, v.handle nm = some (f, c) → r.2.filePtr = f) ∧
      Coh s' (y ::ₘ x ::ₘ P) (v.setHandle nm (some (r.2.filePtr, v.openCnt nm + 1))) ∧
      ∀ (sat : Bytes → Bool) (h' : HeapFileScan), h'.toHeapFile = r.2.toHeapFile →
        Reader (v.setHandle nm (some (r.2.filePtr, v.openCnt nm + 1))) nm
          (v.openCnt nm + 1) sat h' fv H x
          y (H.select sat H.rids) := by
  unfold HeapFileScan.new
  refine (HeapFile.new_spec hc hH.name hH.file hH.heapAt hH.opened hT).bind ?_
  rintro ⟨st, h⟩ s₁ ⟨f, n, m, hr, hsame, hc₁⟩
  cases hr
  rw [clean_pure]
  refine ⟨rfl, rfl, ⟨f, H.hdrNo, n, false⟩, ⟨f, H.hdr.firstPage, m, false⟩, hsame, hc₁,
    fun sat h' hh' => ?_⟩
  obtain ⟨⟨fp, hp, hno, hd, cp, cno, cd, rid⟩, off, len, ty, filter, op, mp, mr⟩ := h'
  dsimp only [HeapFile.opened] at hh'
  cases hh'
  refine ⟨hH.file, View.handle_setHandle_self, hH.heapAt, hH.sized, ⟨⟨rfl, rfl, rfl, rfl, nofun⟩,
    ⟨rfl, rfl, rfl, hH.heapAt.first_mem⟩, ⟨rfl, rfl⟩, rfl, rfl⟩, 0, rfl, ?_⟩
  rw [hH.heapAt.rids_eq]

end HeapFileScan

/-! ## The file that grows -/

namespace InsertFileScan

/-- An object on the last page of its file. -/
structure Writer (v : View) (nm : FileName) (c : Int) (h : InsertFileScan)
    (fv : FileView) (H : Heap) (x y : Pin) : Prop where
  file : v.file nm = some fv
  handle : v.handle nm = some (h.filePtr, c)
  heapAt : HeapAt fv H
  header : HasHeader h H x
  page : HasPage h H y
  last : h.curPageNo = H.hdr.lastPage

variable {T : Prop} {s : Sys} {P R : Multiset Pin} {v v' : View} {nm : FileName} {c : Int}
  {fv : FileView} {H : Heap} {h : InsertFileScan} {x y : Pin} {rec : Record}

/-- Nothing has been done to the file. -/
theorem Writer.congr (hw : Writer v nm c h fv H x y) (hfile : v'.file nm = v.file nm)
    (hhandle : v'.handle nm = v.handle nm) : Writer v' nm c h fv H x y :=
  { hw with file := hfile.trans hw.file, handle := hhandle.trans hw.handle }

/-- The object, in a state. -/
theorem Writer.appends (hw : Writer v nm c h fv H x y) (hc : Coh s (y ::ₘ x ::ₘ R) v) :
    Appends R v nm c s h fv H x y := by
  refine ⟨?_, hw.handle, hw.heapAt, hw.header, hw.page, hw.last⟩
  rw [View.setFile_self hw.file]
  exact hc

theorem Appends.writer (hs : Appends R v nm c s h fv H x y) :
    Writer (v.setFile nm (some fv)) nm c h fv H x y :=
  ⟨View.file_setFile_self, hs.handle, hs.heapAt, hs.header, hs.page, hs.last⟩

/-- `insertRecord` adds a record that fits on a page. -/
theorem Writer.insert (hw : Writer v nm c h fv H x y) (hc : Coh s (y ::ₘ x ::ₘ R) v)
    (hread : rec.Readable) (h₀ : 0 ≤ rec.length) (h₁ : rec.length ≤ 1000)
    (hT : T → 0 < freeFrames v.numBufs (y ::ₘ x ::ₘ R)) :
    Clean T (InsertFileScan.insertRecord h rec) s fun r s' => r.1 = .OK ∧ ∃ x' y' fv' H',
      Coh s' (y' ::ₘ x' ::ₘ R) (v.setFile nm (some fv')) ∧
      Writer (v.setFile nm (some fv')) nm c r.2.2 fv' H' x' y' ∧ Heap.Grows fv fv' H H' ∧
      Added .OK r.2.1 rec.bytes H H' := by
  refine ((hw.appends hc).insert (fun _ _ => hread) hT).mono ?_
  rintro ⟨st, rid, h'⟩ s' ⟨hst, x', y', fv', H', hs', hgrows, hadd⟩
  have hok : st = .OK := hst.trans (insertStatus_of_le h₀ h₁)
  subst hok
  exact ⟨rfl, x', y', fv', H', hs'.coh, hs'.writer, hgrows, hadd⟩

/-- The destructor closes the file. -/
theorem Writer.close (hw : Writer v nm c h fv H x y) (hc : Coh s (y ::ₘ x ::ₘ R) v) (hpos : 0 < c)
    (hlast : c = 1 → ∀ z ∈ R, z.file ≠ h.filePtr) :
    ∃ s' fv', Yields (InsertFileScan.delete h) s () false s' ∧ HeapAt fv' H ∧
      Coh s' R ((v.setFile nm (some fv')).setHandle nm (closed h.filePtr c)) :=
  (hw.appends hc).close hpos hlast

/-- The constructor. -/
theorem new_writer (hc : Coh s P v) (hH : IsHeap v nm fv H) (hT : T → 2 ≤ freeFrames v.numBufs P) :
    Clean T (InsertFileScan.new nm) s fun r s' => r.1 = .OK ∧ ∃ x y,
      (∀ f c, v.handle nm = some (f, c) → r.2.filePtr = f) ∧
      Coh s' (y ::ₘ x ::ₘ P) (v.setHandle nm (some (r.2.filePtr, v.openCnt nm + 1))) ∧
      Writer (v.setHandle nm (some (r.2.filePtr, v.openCnt nm + 1))) nm
        (v.openCnt nm + 1) r.2 fv H x y := by
  refine (new_appends hc hH hT).mono ?_
  rintro ⟨st, h⟩ s' ⟨hst, x, y, hsame, hs⟩
  have hf : (v.setHandle nm (some (h.filePtr, v.openCnt nm + 1))).file nm = some fv := hH.file
  have hcoh := hs.coh
  rw [View.setFile_self hf] at hcoh
  exact ⟨hst, x, y, hsame, hcoh, hf, hs.handle, hs.heapAt, hs.header, hs.page, hs.last⟩

end InsertFileScan

end Minirel
