import Minirel.HeapFile
import Minirel.HeapFile.Contents
import Minirel.Lib.Transfer

/-!
# Scans without faults

The operations of a scan return a status other than `OK` and `FILEEOF` when a Unix call fails or
when the pool has no free frame. If the status is one of the two, no call has failed, and the
outcome is also one of the state in which no Unix call fails.

## Main definitions

* `Sys.good`: the state from which no Unix call fails.
* `Undisturbed`: no failing Unix call makes a difference to a computation.
* `Status.Fine`: the statuses of a scan that goes on or is at its end.

## Main results

* `HeapFile.new_reliable`, `HeapFileScan.scanNext_reliable`: a scan that is opened and read on with
  these statuses is a scan without faults.
-/

namespace Minirel

open Comp

/-- The state, with all Unix calls from now on succeeding. -/
def Sys.good (s : Sys) : Sys := { s with io := fun _ => true }

theorem Sys.good_of_io {s : Sys} (hio : s.io = fun _ => true) : s.good = s := by
  unfold Sys.good
  rw [← hio]

/-- The files are the same. -/
@[simp]
theorem Sys.heap?_good (s : Sys) (nm : FileName) : s.good.heap? nm = s.heap? nm :=
  heap?_congr rfl fun _ => rfl

/-- No failing Unix call makes a difference to the computation: it does what it would do if all of
them succeeded. -/
def Undisturbed {α : Type} (x : M α) (s : Sys) : Prop :=
  ∀ a e s', Yields x s a e s' → Yields x s.good a e s'.good

/-- Where all Unix calls succeed, none makes a difference. -/
theorem undisturbed_of_io {α : Type} {x : M α} {s : Sys} (hio : s.io = fun _ => true)
    (h : ∀ a e s', Yields x s a e s' → s'.io = fun _ => true) : Undisturbed x s := by
  intro a e s' hy
  rw [Sys.good_of_io hio, Sys.good_of_io (h a e s' hy)]
  exact hy

/-- The statuses of a scan that goes on, or is at the end of the file. -/
def Status.Fine (st : Status) : Prop := st = .OK ∨ st = .FILEEOF

namespace Status

theorem ne_OK_of_not_fine {st : Status} (h : ¬st.Fine) : st ≠ .OK := fun hst => h (Or.inl hst)

theorem not_fine_UNIXERR : ¬Status.UNIXERR.Fine := by
  rintro (h | h) <;> cases h

/-- A status that is not fine is returned at once. -/
theorem refuses_of_not_fine {α : Type} {ok : α → Prop} {st : Status} {x y : M α} (hst : ¬st.Fine)
    (hx : Avoids ok x) : Avoids ok (if st ≠ .OK then x else y) :=
  .ite (fun _ => hx) fun hok => absurd (ne_OK_of_not_fine hst) hok

theorem not_fine_BUFFEREXCEEDED : ¬Status.BUFFEREXCEEDED.Fine := by
  rintro (h | h) <;> cases h

end Status

/-! ## Unix calls -/

section Calls

variable {α : Type} {ok : α → Prop}

theorem unixCall_reliable : Reliable Sys.good (· = true) unixCall := by
  intro s a e s' hy ha
  have h : Yields unixCall s (s.io 0) false { s with io := fun n => s.io (n + 1) } := rfl
  obtain ⟨hio, rfl, rfl⟩ := h.unique hy
  rw [ha]
  exact ⟨rfl, rfl⟩

theorem fileAt_reliable {ok : File → Prop} (file : FilePtr) : Reliable Sys.good ok (fileAt file) :=
  .get_bind (fun _ => rfl) fun _ => .ofOption _

theorem setFile_reliable {ok : Unit → Prop} (file : FilePtr) (fo : Option File) :
    Reliable Sys.good ok (setFile file fo) := .of_modify fun _ => rfl

theorem setUnix_reliable {ok : Unit → Prop} (name : FileName) (uf : Option UnixFile) :
    Reliable Sys.good ok (setUnix name uf) := .of_modify fun _ => rfl

theorem modifyBuf_reliable {ok : Unit → Prop} (g : BufMgr → BufMgr) :
    Reliable Sys.good ok (modifyBuf g) := .of_modify fun _ => rfl

theorem derefPage_reliable {ok : Block → Prop} (page : PagePtr) :
    Reliable Sys.good ok (derefPage page) := by
  cases page with
  | null => exact .failure
  | frame n => exact .get_bind (fun _ => rfl) fun _ => .pure _
  | wild => exact .failure

end Calls

/-! ## Pages of files -/

namespace File

theorem intread_reliable (file : FilePtr) (pageNo : Int) (pagePtr : Block) :
    Reliable Sys.good (fun r => r.1.Fine) (intread file pageNo pagePtr) := by
  unfold intread
  refine .bind_of_true (fileAt_reliable file) fun fo => ?_
  refine .bind unixCall_reliable (fun b _ => ?_) fun b hb => .bind fun s => ?_
  · refine .get_bind (fun _ => rfl) fun s => .ite (fun _ => ?_) fun _ => .pure _
    cases (s.unix fo.fileName).bind fun uf => uf.page? pageNo with
    | none => exact .pure _
    | some blk => exact .pure _
  · rw [if_neg fun h => hb h.1]
    exact .pure Status.not_fine_UNIXERR

theorem intwrite_reliable (file : FilePtr) (pageNo : Int) (pagePtr : Block) :
    Reliable Sys.good Status.Fine (intwrite file pageNo pagePtr) := by
  unfold intwrite
  refine .bind_of_true (fileAt_reliable file) fun fo => ?_
  refine .bind unixCall_reliable (fun b _ => ?_) fun b hb => .bind fun s => ?_
  · refine .get_bind (fun _ => rfl) fun s => .ite (fun _ => ?_) fun _ => .pure _
    cases s.unix fo.fileName with
    | none => exact .pure _
    | some uf => exact .bind_of_true (setUnix_reliable _ _) fun _ => .pure _
  · rw [if_neg fun h => hb h.1]
    exact .pure Status.not_fine_UNIXERR

theorem readPage_reliable (file : FilePtr) (pageNo : Int) (pagePtr : Block) :
    Reliable Sys.good (fun r => r.1.Fine) (readPage file pageNo pagePtr) :=
  .ite (fun _ => .pure _) fun _ => intread_reliable file pageNo pagePtr

theorem writePage_reliable (file : FilePtr) (pageNo : Int) (pagePtr : Block) :
    Reliable Sys.good Status.Fine (writePage file pageNo pagePtr) :=
  .ite (fun _ => .pure _) fun _ => intwrite_reliable file pageNo pagePtr

theorem getFirstPage_reliable (file : FilePtr) :
    Reliable Sys.good (fun r => r.1.Fine) (getFirstPage file) :=
  .bind (intread_reliable file 0 Block.zero) (fun _ _ => .pure _) fun _ hbad => .pure hbad

theorem open_reliable (file : FilePtr) : Reliable Sys.good Status.Fine (File.open file) := by
  unfold File.open
  refine .bind_of_true (fileAt_reliable file) fun fo => .ite (fun _ => ?_) fun _ => ?_
  · refine .get_bind (fun _ => rfl) fun s => .bind unixCall_reliable (fun b _ => ?_) fun b hb => ?_
    · exact .ite (fun _ => .bind_of_true (setFile_reliable _ _) fun _ => .pure _) fun _ => .pure _
    · rw [if_neg fun h => hb h.1]
      exact .pure Status.not_fine_UNIXERR
  · exact .bind_of_true (setFile_reliable _ _) fun _ => .pure _

end File

/-! ## Pages in the pool -/

namespace BufMgr

theorem allocBuf_reliable : Reliable Sys.good (fun r => r.1.Fine) allocBuf := by
  unfold allocBuf
  refine fun s => .get_bind ?_
  dsimp only
  refine .ite (fun _ => ?_) fun _ => .set_bind (.ite (fun _ => ?_) fun _ => .pure rfl)
  · exact .of_avoids (.bind fun _ => .bind fun _ => .pure Status.not_fine_BUFFEREXCEEDED)
  · -- the page that leaves the frame is written back
    refine .bind (File.writePage_reliable _ _ _ _) (fun _ _ _ => .pure rfl) ?_
    intro st e s' _ hbad r e' s'' hy
    obtain ⟨rfl, -⟩ := yields_pure.mp hy
    exact hbad

theorem enterPage_reliable {ok : Status × PagePtr → Prop} (file : FilePtr)
    (pageNo : Int) (n : Nat) :
    Reliable Sys.good ok (enterPage file pageNo n) := by
  unfold enterPage
  refine fun s => .get_bind ?_
  dsimp only
  exact .set_bind (.pure rfl)

/-- A page that has been pinned has been read, whatever the status. -/
theorem readPage_reliable (file : FilePtr) (pageNo : Int) (page : PagePtr) :
    Reliable Sys.good (fun r => r.1.Fine ∨ r.2 ≠ page) (readPage file pageNo page) := by
  unfold readPage
  refine .get_bind (fun _ => rfl) fun s => ?_
  cases s.buf.hashTable.lookup file pageNo with
  | some n => exact .bind_of_true (modifyBuf_reliable _) fun _ => .pure _
  | none =>
    have hbad {st : Status} (hst : ¬st.Fine) : ¬(st.Fine ∨ page ≠ page) :=
      not_or_intro hst fun hne => hne rfl
    refine .bind allocBuf_reliable (fun r _ => ?_) fun r hr => ?_
    · refine .ite (fun _ => .pure _) fun _ => .get_bind (fun _ => rfl) fun s => ?_
      refine .bind (File.readPage_reliable _ _ _) (fun r _ => ?_) fun r hr => .bind fun _ => ?_
      · refine .bind_of_true (modifyBuf_reliable _) fun _ => ?_
        exact .ite (fun _ => .pure _) fun _ => enterPage_reliable _ _ _
      · exact Status.refuses_of_not_fine hr (.pure (hbad hr))
    · exact Status.refuses_of_not_fine hr (.pure (hbad hr))

theorem unPinPage_reliable {ok : Status → Prop} (file : FilePtr) (pageNo : Int) (dirty : Bool) :
    Reliable Sys.good ok (unPinPage file pageNo dirty) := by
  unfold unPinPage
  refine .get_bind (fun _ => rfl) fun s => ?_
  cases s.buf.hashTable.lookup file pageNo with
  | none => exact .pure _
  | some n =>
    refine .ite (fun _ => ?_) fun _ => ?_
    · exact .bind_of_true (modifyBuf_reliable _) fun _ => .pure _
    · exact .bind_of_true (modifyBuf_reliable _) fun _ => .pure _

end BufMgr

/-! ## Opening files -/

theorem DB.openFile_reliable (nm : FileName) :
    Reliable Sys.good (fun r => r.1.Fine) (DB.openFile nm) := by
  unfold DB.openFile
  refine .ite (fun _ => .pure _) fun _ => .get_bind (fun _ => rfl) fun s => ?_
  cases s.openFiles.find nm with
  | some f => exact .bind (File.open_reliable f) (fun _ _ => .pure _) fun _ hbad => .pure hbad
  | none =>
    refine .bind_of_true (fun s => .get_bind (.set_bind (.pure rfl))) fun f => ?_
    refine .bind (File.open_reliable f) (fun st _ => ?_) fun st hbad => ?_
    · refine .ite (fun _ => .bind_of_true (setFile_reliable _ _) fun _ => .pure _)
        fun _ s => .get_bind ?_
      dsimp only
      exact .set_bind (.pure rfl)
    · exact Status.refuses_of_not_fine hbad (.bind fun _ => .pure hbad)

namespace HeapFile

/-- An object that has been opened with its first data page. -/
theorem new_reliable (nm : FileName) :
    Reliable Sys.good (fun r => r.1.Fine ∧ r.2.curPage ≠ .wild) (HeapFile.new nm) := by
  unfold HeapFile.new
  refine .bind (DB.openFile_reliable nm) (fun r _ => .ite (fun _ => .pure _) fun _ => ?_)
    fun r hbad => ?_
  swap
  · exact Status.refuses_of_not_fine hbad (.pure fun h => hbad h.1)
  refine .bind (File.getFirstPage_reliable r.2) (fun q _ => .ite (fun _ => .failure) fun _ => ?_)
    fun q hbad => ?_
  swap
  · exact Status.refuses_of_not_fine hbad .failure
  -- a page that has not been pinned cannot be followed
  refine .bind (BufMgr.readPage_reliable r.2 q.2 .wild) (fun p _ => ?_) fun p hbad => ?_
  · refine .bind_of_true (derefPage_reliable p.2) fun hdr => ?_
    refine .bind (BufMgr.readPage_reliable r.2 hdr.asFileHdr.firstPage .wild) (fun _ _ => .pure _)
      fun _ hbad => .pure fun h => hbad (Or.inr h.2)
  · have hwild : p.2 = .wild := not_not.mp fun hne => hbad (Or.inr hne)
    dsimp only
    rw [hwild]
    exact .bind_of_failure

end HeapFile

namespace HeapFileScan

variable {h : HeapFileScan}

theorem new_reliable (nm : FileName) :
    Reliable Sys.good (fun r => r.1.Fine ∧ r.2.curPage ≠ .wild) (HeapFileScan.new nm) :=
  .bind (HeapFile.new_reliable nm) (fun _ _ => .pure _) fun _ hbad => .pure hbad

theorem matchRec_reliable {ok : Bool → Prop} (h : HeapFileScan) (page : Page) (rec : PageRecord) :
    Reliable Sys.good ok (h.matchRec page rec) := by
  unfold matchRec
  cases h.filter with
  | none => exact .pure _
  | some filter =>
    refine .ite (fun _ => .pure _) fun _ => .get_bind (fun _ => rfl) fun s => ?_
    cases h.type with
    | STRING => exact .of_isPure (.ofOption_bind fun _ => .pure _)
    | INTEGER => exact .of_isPure (.ofOption_bind fun _ => .ofOption_bind fun _ => .pure _)
    | FLOAT => exact .of_isPure (.ofOption_bind fun _ => .ofOption_bind fun _ => .pure _)

theorem seekPage_reliable (fuel : Nat) (h : HeapFileScan) :
    Reliable Sys.good (fun r => r.1.Fine) (seekPage fuel h) := by
  induction fuel generalizing h with
  | zero => exact .failure
  | succ fuel ih =>
    unfold seekPage
    refine .bind_of_true (derefPage_reliable _) fun blk => .ite (fun _ => .pure _) fun _ => ?_
    refine .bind_of_true (BufMgr.unPinPage_reliable _ _ _) fun st => .ite
      (fun _ => .pure _) fun _ => ?_
    refine .bind (BufMgr.readPage_reliable _ _ _) (fun r _ => .ite (fun _ => .pure _) fun _ => ?_)
      fun r hbad => ?_
    · refine .bind_of_true (derefPage_reliable _) fun blk => ?_
      exact .bind_of_true (.ofOption _) fun q => .ite (fun _ => .pure _) fun _ => ih _
    · have hst : ¬r.1.Fine := fun hst => hbad (Or.inl hst)
      exact Status.refuses_of_not_fine hst (.pure hst)

theorem advance_reliable (fuel : Nat) (h : HeapFileScan) :
    Reliable Sys.good (fun r => r.1.Fine) (advance fuel h) := by
  unfold advance
  refine .bind_of_true (derefPage_reliable _) fun blk => ?_
  exact .bind_of_true (.ofOption _) fun q => .ite (fun _ => .pure _) fun _ =>
    seekPage_reliable fuel h

theorem scanLoop_reliable (fuel : Nat) (h : HeapFileScan) :
    Reliable Sys.good (fun r => r.1.Fine) (scanLoop fuel h) := by
  induction fuel generalizing h with
  | zero => exact .failure
  | succ fuel ih =>
    unfold scanLoop
    refine .bind (advance_reliable fuel h) (fun r _ => .ite (fun _ => .pure _) fun _ => ?_)
      fun r hbad => ?_
    · refine .bind_of_true (derefPage_reliable _) fun blk => ?_
      refine .bind_of_true (.ofOption _) fun q => .ite (fun _ => .pure _) fun _ => ?_
      exact .bind_of_true (matchRec_reliable _ _ _) fun found => .ite (fun _ => .pure _)
        fun _ => ih _
    · exact Status.refuses_of_not_fine hbad (.pure hbad)

theorem scanFirst_reliable (fuel : Nat) (h : HeapFileScan) :
    Reliable Sys.good (fun r => r.1.Fine) (scanFirst fuel h) := by
  unfold scanFirst
  refine .bind_of_true (derefPage_reliable _) fun hdr => .ite (fun _ => .pure _) fun _ => ?_
  refine .bind (BufMgr.readPage_reliable _ _ _) (fun r _ => .ite (fun _ => .pure _) fun _ => ?_)
    fun r hbad => ?_
  · refine .bind_of_true (derefPage_reliable _) fun blk => ?_
    refine .bind_of_true (.ofOption _) fun q => .ite (fun _ => ?_) fun _ => ?_
    · exact .bind_of_true (BufMgr.unPinPage_reliable _ _ _) fun st => .ite (fun _ => .pure _)
        fun _ => .pure _
    · refine .bind_of_true (.ofOption _) fun p => .ite (fun _ => .pure _) fun _ => ?_
      refine .bind_of_true (matchRec_reliable _ _ _) fun found => ?_
      exact .ite (fun _ => .pure _) fun _ => scanLoop_reliable fuel _
  · have hst : ¬r.1.Fine := fun hst => hbad (Or.inl hst)
    exact Status.refuses_of_not_fine hst (.pure hst)

/-- A scan that goes on, or is at the end of the file, has met no fault. -/
theorem scanNext_reliable (fuel : Nat) (h : HeapFileScan) :
    Reliable Sys.good (fun r => r.1.Fine) (scanNext fuel h) :=
  .ite (fun _ => .pure _) fun _ => .ite (fun _ => scanFirst_reliable fuel h) fun _ =>
    scanLoop_reliable fuel h

theorem getRecord_reliable {ok : Status × PageRecord → Prop} (h : HeapFileScan) :
    Reliable Sys.good ok (getRecord h) :=
  .bind_of_true (derefPage_reliable _) fun _ => .ofOption _

theorem endScan_reliable {ok : Status × HeapFileScan → Prop} (h : HeapFileScan) :
    Reliable Sys.good ok (endScan h) :=
  .ite (fun _ => .bind_of_true (BufMgr.unPinPage_reliable _ _ _) fun _ => .pure _) fun _ => .pure _

end HeapFileScan

end Minirel
