import Minirel.HeapFile

/-!
# Sorted files (`sort.h`, `sort.cpp`)

`class SortedFile` splits a heap file into runs, each of them sorted and written to a heap file of
its own, and merges the runs. The library function `qsort` is a parameter: what it does with
elements that compare equal is not specified.

Records are given to callers as pointers into the pool. The file name of a run is modelled without
the NUL that `ends` appends to it; Unix is given the name up to that NUL.
-/

namespace Minirel

open Comp

/-- `memcmp`: the sign of the difference of the first two bytes that differ, among `n`. -/
def memcmp : Nat → Bytes → Bytes → Option Ordering
  | 0, _, _ => some .eq
  | n + 1, a :: as, b :: bs => if a = b then memcmp n as bs else some (compare a.toNat b.toNat)
  | _, _, _ => none

/-- `reccmp` on the bytes at the two pointers. The sign of the difference goes through a `float`,
and has no value as an `int` if it is not a number. -/
def reccmp (p1 p2 : Bytes) (p1Len p2Len : Int) (type : Datatype) : Option Int := do
  let diff ← match type with
    | .INTEGER =>
      if 4 ≤ p1.length ∧ 4 ≤ p2.length then
        some (compare (toInt (intOfBytes p1 - intOfBytes p2)) 0)
      else none
    | .FLOAT => if 4 ≤ p1.length ∧ 4 ≤ p2.length then floatSign p1 p2 else none
    | .STRING => memcmp (min p1Len p2Len).toNat p1 p2
  match diff with
  | .lt => return -1
  | .eq => return 0
  | .gt => return 1

/-- `SORTREC`. -/
structure SORTREC where
  /-- Record id of the record. -/
  rid : RID
  /-- A copy of its sort field. -/
  field : Bytes
  /-- Length of the field. -/
  length : Int

/-- `qsort` for an array of `SORTREC`. -/
abbrev Qsort := (SORTREC → SORTREC → Option Int) → List SORTREC → List SORTREC

/-- `intcmp`, `floatcmp` and `stringcmp`, by the type they are for. -/
def sortcmp (type : Datatype) (p1 p2 : SORTREC) : Option Int :=
  reccmp p1.field p2.field p1.length p2.length type

/-- A record as `getRecord` hands it out: its data is on a pinned page. -/
structure RecPtr where
  /-- The page. -/
  page : PagePtr
  /-- Offset and length of the record on the page. -/
  record : PageRecord

/-- `n` bytes from an offset of a record on. -/
def RecPtr.read (r : RecPtr) (offset n : Int) : M Bytes := do
  let blk ← derefPage r.page
  ofOption (blk.asPage.bytes? (r.record.data + offset) n)

/-- `SortedFile::RUN`, without the scan that only `generateRun` uses. -/
structure RUN where
  /-- Name of the run file. -/
  name : FileName
  /-- The scan of the run file. -/
  inFile : HeapFileScan
  /-- Whether `record` is the next record of the run. -/
  valid : Bool
  /-- The record fetched last, `rec` in the source. -/
  record : RecPtr
  /-- Its RID; the page number is negative after the last record. -/
  rid : RID
  /-- The RID when the mark was set. -/
  mark : RID

/-- A `RUN` whose members have not been set. -/
def RUN.new (name : FileName) : RUN where
  name := name
  inFile :=
    { toHeapFile := HeapFile.uninit, offset := 0, length := 0, type := .STRING, filter := none
      op := .LT, markedPageNo := 0, markedRec := NULLRID }
  valid := false
  record := ⟨.wild, ⟨0, 0⟩⟩
  rid := NULLRID
  mark := NULLRID

/-- `class SortedFile`, without the buffer that only `sortFile` uses. -/
structure SortedFile where
  /-- The runs. -/
  runs : List RUN
  /-- Name of the source file. -/
  fileName : FileName
  /-- Type of the sort attribute. -/
  type : Datatype
  /-- Its offset. -/
  offset : Int
  /-- Its length. -/
  length : Int
  /-- The largest number of records in a run. -/
  maxItems : Int

/-- The decimal digits of a number, as an output stream writes them. -/
def digits (n : Nat) : Bytes := (Nat.toDigits 10 n).map fun c => UInt8.ofNat c.toNat

namespace SortedFile

/-- The file name of run number `k`: the string literal is `".sort."`. -/
def runName (fileName : FileName) (k : Nat) : FileName :=
  fileName ++ [46, 115, 111, 114, 116, 46] ++ digits k

/-! ## Splitting the source file -/

/-- The inner loop of `sortFile`: collect up to `n` records from the scan of the source file. -/
def fillBuffer (fuel : Nat) (offset length : Int) :
    Nat → HeapFileScan → M (Status × List SORTREC × HeapFileScan)
  | 0, hfs => return (.OK, [], hfs)
  | n + 1, hfs => do
    let (status, rid, hfs) ← hfs.scanNext fuel
    if status = .FILEEOF then return (.OK, [], hfs)
    else if status ≠ .OK then return (status, [], hfs) else
    let (status, rec) ← hfs.getRecord
    if status ≠ .OK then return (status, [], hfs) else
    let field ← RecPtr.read ⟨hfs.curPage, rec⟩ offset length
    let (status, items, hfs) ← fillBuffer fuel offset length n hfs
    return (status, ⟨rid, field, length⟩ :: items, hfs)

/-- The loop of `generateRun`: fetch each record from the source file and insert it into the run
file. -/
def copyItems : List SORTREC → HeapFile → InsertFileScan → M (Status × HeapFile × InsertFileScan)
  | [], hfile, outFile => return (.OK, hfile, outFile)
  | item :: items, hfile, outFile => do
    let (status, rec, hfile) ← hfile.getRecord item.rid
    if status ≠ .OK then return (status, hfile, outFile) else
    let data ← RecPtr.read ⟨hfile.curPage, rec⟩ 0 rec.length
    let (status, _, outFile) ← outFile.insertRecord ⟨data, rec.length⟩
    if status ≠ .OK then return (status, hfile, outFile) else copyItems items hfile outFile

/-- `SortedFile::generateRun`. The run file is created and destroyed again, so that the
`InsertFileScan` is constructed on a file that does not exist. -/
def generateRun (qsort : Qsort) (f : SortedFile) (buffer : List SORTREC) :
    M (Status × SortedFile) := do
  let buffer := qsort (sortcmp f.type) buffer
  let name := runName f.fileName (f.runs.length + 1)
  let f := { f with runs := f.runs ++ [RUN.new name] }
  let status ← DB.createFile name
  if status ≠ .OK then return (status, f) else
  let status ← DB.destroyFile name
  if status ≠ .OK then return (status, f) else
  let (status, outFile) ← InsertFileScan.new name
  if status ≠ .OK then return (status, f) else
  let (status, hfile) ← HeapFile.new f.fileName
  if status ≠ .OK then return (status, f) else
  let (status, hfile, outFile) ← copyItems buffer hfile outFile
  if status ≠ .OK then return (status, f) else
  InsertFileScan.delete outFile
  HeapFile.delete hfile
  return (.OK, f)

/-- The outer loop of `sortFile`: collect records and write runs until no record is left. The
second number bounds the rounds. -/
def sortLoop (qsort : Qsort) (fuel : Nat) :
    Nat → HeapFileScan → SortedFile → M (Status × HeapFileScan × SortedFile)
  | 0, _, _ => failure
  | n + 1, hfs, f => do
    let (status, buffer, hfs) ← fillBuffer fuel f.offset f.length f.maxItems.toNat hfs
    if status ≠ .OK then return (status, hfs, f) else
    if buffer = [] then return (.OK, hfs, f) else
    let (status, f) ← generateRun qsort f buffer
    if status ≠ .OK then return (status, hfs, f) else sortLoop qsort fuel n hfs f

/-- The loop of `startScans`. -/
def startRuns : List RUN → M (Status × List RUN)
  | [] => return (.OK, [])
  | run :: runs => do
    let (status, inFile) ← HeapFileScan.new run.name
    if status ≠ .OK then return (status, { run with inFile } :: runs) else
    let (status, inFile) := inFile.startScan 0 0 .STRING none .EQ
    if status ≠ .OK then return (status, { run with inFile } :: runs) else
    let run := { run with inFile, valid := false, rid := ⟨-1, -1⟩ }
    let (status, runs) ← startRuns runs
    return (status, run :: runs)

/-- `SortedFile::startScans`. -/
def startScans (f : SortedFile) : M (Status × SortedFile) := do
  let (status, runs) ← startRuns f.runs
  return (status, { f with runs })

/-- `SortedFile::sortFile`. -/
def sortFile (qsort : Qsort) (fuel : Nat) (f : SortedFile) : M (Status × SortedFile) := do
  let (status, hfs) ← HeapFileScan.new f.fileName
  if status ≠ .OK then return (status, f) else
  let (status, hfs) := hfs.startScan 0 0 .STRING none .EQ
  if status ≠ .OK then return (status, f) else
  let (status, hfs, f) ← sortLoop qsort fuel fuel hfs f
  if status ≠ .OK then return (status, f) else
  HeapFileScan.delete hfs
  startScans f

/-- The constructor. -/
def new (qsort : Qsort) (fuel : Nat) (fileName : FileName) (offset len : Int) (type : Datatype)
    (maxItems : Int) : M (Status × SortedFile) :=
  let f : SortedFile := ⟨[], fileName, type, offset, len, maxItems⟩
  if offset < 0 ∨ len < 1 then return (.BADSORTPARM, f)
  else if type = .INTEGER ∧ len ≠ 4 ∨ type = .FLOAT ∧ len ≠ 4 then return (.BADSORTPARM, f)
  else if maxItems < 2 then return (.INSUFMEM, f)
  else sortFile qsort fuel f

/-! ## Merging the runs -/

/-- The part of the loop of `next` that fetches the next record of a run. -/
def fetch (fuel : Nat) (run : RUN) : M (Status × RUN) := do
  if run.valid then return (.OK, run) else
  let (status, rid, inFile) ← run.inFile.scanNext fuel
  let run := { run with inFile }
  if status = .FILEEOF then
    return (.OK, { run with rid := { run.rid with pageNo := -1 }, valid := true })
  else if status ≠ .OK then return (status, run) else
  let (status, rec) ← inFile.getRecord
  let run := { run with rid, record := ⟨inFile.curPage, rec⟩ }
  if status ≠ .OK then return (status, run) else return (.OK, { run with valid := true })

/-- The loop of `next` over the runs that have not been looked at; `smallest` is the number of the
run with the smallest record so far. -/
def findSmallest (fuel : Nat) (offset length : Int) (type : Datatype) :
    List RUN → Option Nat → List RUN → M (Status × Option Nat × List RUN)
  | done, smallest, [] => return (.OK, smallest, done)
  | done, smallest, run :: runs => do
    let (status, run) ← fetch fuel run
    if status ≠ .OK then return (status, smallest, done ++ run :: runs) else
    if run.rid.pageNo < 0 then
      findSmallest fuel offset length type (done ++ [run]) smallest runs
    else
      match smallest with
      | none => findSmallest fuel offset length type (done ++ [run]) (some done.length) runs
      | some i =>
        let best ← ofOption done[i]?
        let a ← best.record.read offset length
        let b ← run.record.read offset length
        let cmp ← ofOption (reccmp a b length length type)
        findSmallest fuel offset length type (done ++ [run])
          (if cmp > 0 then some done.length else some i) runs

/-- `SortedFile::next`. -/
def next (fuel : Nat) (f : SortedFile) : M (Status × Option RecPtr × SortedFile) := do
  if f.runs = [] then return (.FILEEOF, none, f) else
  let (status, smallest, runs) ← findSmallest fuel f.offset f.length f.type [] none f.runs
  if status ≠ .OK then return (status, none, { f with runs }) else
  match smallest with
  | none => return (.FILEEOF, none, { f with runs })
  | some i =>
    let run ← ofOption runs[i]?
    return (.OK, some run.record, { f with runs := runs.set i { run with valid := false } })

/-! ## Marks -/

/-- `SortedFile::setMark`. -/
def setMark (f : SortedFile) : SortedFile :=
  { f with
    runs := f.runs.map fun run => { run with inFile := run.inFile.markScan, mark := run.rid } }

/-- The loop of `gotoMark`. -/
def resetRuns : List RUN → M (Status × List RUN)
  | [] => return (.OK, [])
  | run :: runs => do
    let (status, inFile) ← run.inFile.resetScan
    let run := { run with inFile }
    if status ≠ .OK then return (status, run :: runs) else
    let run := { run with rid := run.mark }
    if (0 : Int) ≤ run.rid.pageNo then
      let (status, rec) ← inFile.getRecord
      let run := { run with record := ⟨inFile.curPage, rec⟩ }
      if status ≠ .OK then return (status, run :: runs) else
      let (status, runs) ← resetRuns runs
      return (status, { run with valid := true } :: runs)
    else
      let (status, runs) ← resetRuns runs
      return (status, { run with valid := true } :: runs)

/-- `SortedFile::gotoMark`. -/
def gotoMark (f : SortedFile) : M (Status × SortedFile) := do
  let (status, runs) ← resetRuns f.runs
  return (status, { f with runs })

/-- The destructor. -/
def delete (f : SortedFile) : M Unit :=
  f.runs.forM fun run => do
    HeapFileScan.delete run.inFile
    let _ ← DB.destroyFile run.name
    return ()

end SortedFile

end Minirel
