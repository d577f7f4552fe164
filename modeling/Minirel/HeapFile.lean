import Minirel.DB

/-!
# Heap files and their scans (`heapfile.h`, `heapfile.cpp`)

`HeapFile`, `HeapFileScan` and `InsertFileScan` objects are values that an operation takes and
returns changed. Data members that a constructor leaves unset hold wild pointers.

`scanNext` runs two loops whose number of rounds depends on the file; they take a bound on it as
first argument and have no outcome if it is too small.
-/

namespace Minirel

open Comp

/-- `enum Datatype`. -/
inductive Datatype
  | STRING | INTEGER | FLOAT
  deriving DecidableEq, Repr

/-- `enum Operator`. -/
inductive Operator
  | LT | LTE | EQ | GTE | GT | NE
  deriving DecidableEq, Repr

/-- A `const char*`: memory of the caller, or an offset in a frame of the pool. -/
inductive CharPtr
  | client (b : Bytes)
  | pool (frame : Nat) (offset : Int)

/-- The byte `i` places after a pointer. -/
def Sys.charAt (s : Sys) : CharPtr → Nat → Option UInt8
  | .client b, i => b[i]?
  | .pool frame offset, i => (s.buf.bufPool frame).asPage.byte? (offset + i)

/-- `class HeapFile`. -/
structure HeapFile where
  /-- The underlying `File` object. -/
  filePtr : FilePtr
  /-- The pinned header page. -/
  headerPage : PagePtr
  /-- Its page number. -/
  headerPageNo : Int
  /-- Whether the header page has been updated. -/
  hdrDirtyFlag : Bool
  /-- The pinned data page. -/
  curPage : PagePtr
  /-- Its page number. -/
  curPageNo : Int
  /-- Whether it has been updated. -/
  curDirtyFlag : Bool
  /-- The record returned last. -/
  curRec : RID
  deriving DecidableEq

/-- `class HeapFileScan`. -/
structure HeapFileScan extends HeapFile where
  /-- Offset of the filter attribute. -/
  offset : Int
  /-- Its length. -/
  length : Int
  /-- Its type. -/
  type : Datatype
  /-- The comparison value, `none` if there is no filter. -/
  filter : Option CharPtr
  /-- The comparison operator. -/
  op : Operator
  /-- The data page pinned when the scan was marked. -/
  markedPageNo : Int
  /-- The record returned last when the scan was marked. -/
  markedRec : RID

/-- `class InsertFileScan`, which has no members of its own. -/
abbrev InsertFileScan := HeapFile

/-- Update the header page a `HeapFile` has pinned. -/
def HeapFile.modifyHeader (h : HeapFile) (g : FileHdrPage → FileHdrPage) : M Unit := do
  let blk ← derefPage h.headerPage
  assignPage h.headerPage (.fileHdr (g blk.asFileHdr))

/-! ## Creating and destroying heap files -/

/-- `createHeapFile`. -/
def createHeapFile (fileName : FileName) : M Status := do
  let (status, _) ← DB.openFile fileName
  if status = .OK then return .FILEEXISTS else
  let status ← DB.createFile fileName
  if status ≠ .OK then return status else
  let (status, file) ← DB.openFile fileName
  if status ≠ .OK then return status else
  let (status, hdrPageNo, hdrPage) ← BufMgr.allocPage file .wild
  if status ≠ .OK then return status else
  let blk ← derefPage hdrPage
  assignPage hdrPage (.fileHdr { blk.asFileHdr with fileName := strncpy fileName MAXNAMESIZE })
  let (status, newPageNo, newPage) ← BufMgr.allocPage file hdrPage
  if status ≠ .OK then return status else
  let blk ← derefPage newPage
  assignPage newPage (.page ((blk.asPage.init newPageNo).setNextPage (-1)))
  let blk ← derefPage hdrPage
  assignPage hdrPage (.fileHdr
    { blk.asFileHdr with recCnt := 0, pageCnt := 1, firstPage := newPageNo, lastPage := newPageNo })
  let status ← BufMgr.unPinPage file newPageNo true
  if status ≠ .OK then return status else
  let status ← BufMgr.unPinPage file hdrPageNo true
  if status ≠ .OK then return status else
  let status ← BufMgr.flushFile file
  if status ≠ .OK then return status else
  DB.closeFile file

/-- `destroyHeapFile`. -/
def destroyHeapFile (fileName : FileName) : M Status := DB.destroyFile fileName

/-! ## `class HeapFile` -/

namespace HeapFile

/-- An object whose members have not been set. -/
def uninit : HeapFile := ⟨0, .wild, 0, false, .wild, 0, false, NULLRID⟩

/-- The constructor `HeapFile::HeapFile`. Failures of the reads after `openFile` do not reach the
returned status. -/
def new (fileName : FileName) : M (Status × HeapFile) := do
  let (status, filePtr) ← DB.openFile fileName
  if status ≠ .OK then return (status, uninit) else
  let (status, headerPageNo) ← File.getFirstPage filePtr
  -- the source goes on with a page number that was never set
  if status ≠ .OK then failure else
  let (_, headerPage) ← BufMgr.readPage filePtr headerPageNo .wild
  let hdr ← derefPage headerPage
  let curPageNo := hdr.asFileHdr.firstPage
  let (_, curPage) ← BufMgr.readPage filePtr curPageNo .wild
  return (.OK,
    { filePtr, headerPage, headerPageNo, hdrDirtyFlag := false, curPage, curPageNo
      curDirtyFlag := false, curRec := NULLRID })

/-- The part of the destructor after the data page has been unpinned. -/
def deleteHeader (h : HeapFile) : M Unit := do
  let _ ← BufMgr.unPinPage h.filePtr h.headerPageNo h.hdrDirtyFlag
  let _ ← DB.closeFile h.filePtr
  return ()

/-- The destructor `HeapFile::~HeapFile`. -/
def delete (h : HeapFile) : M Unit := do
  if h.curPage ≠ .null then
    let _ ← BufMgr.unPinPage h.filePtr h.curPageNo h.curDirtyFlag
    deleteHeader h
  else deleteHeader h

/-- `HeapFile::getRecCnt`. -/
def getRecCnt (h : HeapFile) : M Int := do
  let hdr ← derefPage h.headerPage
  return hdr.asFileHdr.recCnt

/-- The part of `HeapFile::getRecord` that reads the page of the record. -/
def fetchRecord (h : HeapFile) (rid : RID) : M (Status × PageRecord × HeapFile) := do
  let (status, curPage) ← BufMgr.readPage h.filePtr rid.pageNo h.curPage
  if status ≠ .OK then return (status, ⟨0, 0⟩, { h with curPage }) else
  let h := { h with curPage, curPageNo := rid.pageNo, curDirtyFlag := false, curRec := rid }
  let blk ← derefPage curPage
  let (status, rec) ← ofOption (blk.asPage.getRecord rid)
  return (status, rec, h)

/-- `HeapFile::getRecord`. -/
def getRecord (h : HeapFile) (rid : RID) : M (Status × PageRecord × HeapFile) := do
  if h.curPage = .null then fetchRecord h rid
  else if rid.pageNo = h.curPageNo then
    let blk ← derefPage h.curPage
    let (status, rec) ← ofOption (blk.asPage.getRecord rid)
    return (status, rec, { h with curRec := rid })
  else
    let status ← BufMgr.unPinPage h.filePtr h.curPageNo h.curDirtyFlag
    if status ≠ .OK then
      return (status, ⟨0, 0⟩, { h with curPage := .null, curPageNo := 0, curDirtyFlag := false })
    else fetchRecord h rid

end HeapFile

/-! ## `class HeapFileScan` -/

/-- Whether the difference of attribute and filter value is as the operator asks; `none` is the
difference of floating point numbers that do not compare. -/
def Operator.holds : Operator → Option Ordering → Bool
  | .LT, d => d = some .lt
  | .LTE, d => d = some .lt ∨ d = some .eq
  | .EQ, d => d = some .eq
  | .GTE, d => d = some .gt ∨ d = some .eq
  | .GT, d => d = some .gt
  | .NE, d => d ≠ some .eq

/-- The sign of a difference of `float`s. -/
def floatSign (a b : Bytes) : Option Ordering :=
  let bits (x : Bytes) : UInt32 := UInt32.ofNat (intOfBytes x % 4294967296).toNat
  let diff := Float32.ofBits (bits a) - Float32.ofBits (bits b)
  if diff < 0 then some .lt else if diff == 0 then some .eq else if diff > 0 then some .gt else none

namespace HeapFileScan

/-- The constructor. It sets `filter` and leaves the other members unset: those of the filter are
not read before `startScan` has set them, and the mark is for `markScan` to set. -/
def new (name : FileName) : M (Status × HeapFileScan) := do
  let (status, h) ← HeapFile.new name
  return (status,
    { toHeapFile := h, offset := 0, length := 0, type := .STRING, filter := none, op := .LT
      markedPageNo := 0, markedRec := NULLRID })

/-- `HeapFileScan::startScan`. -/
def startScan (h : HeapFileScan) (offset length : Int) (type : Datatype)
    (filter : Option CharPtr) (op : Operator) : Status × HeapFileScan :=
  if filter.isNone then (.OK, { h with filter := none })
  else if (offset < 0 ∨ length < 1) ∨
      (type = .INTEGER ∧ length ≠ 4 ∨ type = .FLOAT ∧ length ≠ 4) then (.BADSCANPARM, h)
  else (.OK, { h with offset, length, type, filter, op })

/-- `HeapFileScan::endScan`. -/
def endScan (h : HeapFileScan) : M (Status × HeapFileScan) := do
  if h.curPage ≠ .null then
    let status ← BufMgr.unPinPage h.filePtr h.curPageNo h.curDirtyFlag
    return (status, { h with curPage := .null, curPageNo := 0, curDirtyFlag := false })
  else return (.OK, h)

/-- The destructor, with the one of `HeapFile` that runs after it. -/
def delete (h : HeapFileScan) : M Unit := do
  let (_, h) ← endScan h
  HeapFile.delete h.toHeapFile

/-- `HeapFileScan::markScan`. -/
def markScan (h : HeapFileScan) : HeapFileScan :=
  { h with markedPageNo := h.curPageNo, markedRec := h.curRec }

/-- The part of `resetScan` that reads the marked page. -/
def resetPage (h : HeapFileScan) : M (Status × HeapFileScan) := do
  let h := { h with curPageNo := h.markedPageNo, curRec := h.markedRec }
  let (status, curPage) ← BufMgr.readPage h.filePtr h.curPageNo h.curPage
  if status ≠ .OK then return (status, { h with curPage }) else
  return (.OK, { h with curPage, curDirtyFlag := false })

/-- `HeapFileScan::resetScan`. -/
def resetScan (h : HeapFileScan) : M (Status × HeapFileScan) := do
  if h.markedPageNo ≠ h.curPageNo then
    if h.curPage ≠ .null then
      let status ← BufMgr.unPinPage h.filePtr h.curPageNo h.curDirtyFlag
      if status ≠ .OK then return (status, h) else resetPage h
    else resetPage h
  else return (.OK, { h with curRec := h.markedRec })

/-- `HeapFileScan::matchRec` for a record of the page `page`. The bound test is made in `int`
arithmetic, where a sum that is out of range wraps. -/
def matchRec (h : HeapFileScan) (page : Page) (rec : PageRecord) : M Bool := do
  match h.filter with
  | none => return true
  | some filter =>
    if toInt (toInt (h.offset + h.length) - 1) ≥ rec.length then return false else
    let s ← get
    let attr := rec.data + h.offset
    match h.type with
    | .INTEGER =>
      let iattr ← ofOption (page.bytes? attr h.length)
      let ifltr ← ofOption ((List.range h.length.toNat).mapM (s.charAt filter))
      let diff := toInt (intOfBytes iattr - intOfBytes ifltr)
      return h.op.holds (some (compare diff 0))
    | .FLOAT =>
      let fattr ← ofOption (page.bytes? attr h.length)
      let ffltr ← ofOption ((List.range h.length.toNat).mapM (s.charAt filter))
      return h.op.holds (floatSign fattr ffltr)
    | .STRING =>
      let diff ← ofOption
        (strncmp (fun i => page.byte? (attr + i)) (s.charAt filter) h.length.toNat 0)
      return h.op.holds (some diff)

/-- The inner loop of `scanNext`: move on to the first record of a later page. The status is `OK`
if there is one, and otherwise the one `scanNext` returns. -/
def seekPage : Nat → HeapFileScan → M (Status × HeapFileScan)
  | 0, _ => failure
  | fuel + 1, h => do
    let blk ← derefPage h.curPage
    let nextPageNo := blk.asPage.nextPage
    if nextPageNo = -1 then return (.FILEEOF, h) else
    let status ← BufMgr.unPinPage h.filePtr h.curPageNo h.curDirtyFlag
    if status ≠ .OK then return (status, { h with curPage := .null, curPageNo := -1 }) else
    let h := { h with curPage := .null, curPageNo := nextPageNo, curDirtyFlag := false }
    let (status, curPage) ← BufMgr.readPage h.filePtr h.curPageNo h.curPage
    let h := { h with curPage }
    if status ≠ .OK then return (status, h) else
    let blk ← derefPage h.curPage
    let (status, rid) ← ofOption blk.asPage.firstRecord
    if status = .OK then return (.OK, { h with curRec := rid }) else seekPage fuel h

/-- One move of the cursor in `scanNext`: to the next record of the page, or on to a later page. -/
def advance (fuel : Nat) (h : HeapFileScan) : M (Status × HeapFileScan) := do
  let blk ← derefPage h.curPage
  let (status, nextRid) ← ofOption (blk.asPage.nextRecord h.curRec)
  if status = .OK then return (.OK, { h with curRec := nextRid }) else seekPage fuel h

/-- The outer loop of `scanNext`: look for a record that satisfies the predicate, starting after
the current one. -/
def scanLoop : Nat → HeapFileScan → M (Status × RID × HeapFileScan)
  | 0, _ => failure
  | fuel + 1, h => do
    let (status, h) ← advance fuel h
    if status ≠ .OK then return (status, NULLRID, h) else
    let blk ← derefPage h.curPage
    let (status, rec) ← ofOption (blk.asPage.getRecord h.curRec)
    if status ≠ .OK then return (status, NULLRID, h) else
    let found ← h.matchRec blk.asPage rec
    if found then return (.OK, h.curRec, h) else scanLoop fuel h

/-- The part of `scanNext` for a scan without a pinned data page, which starts over at the first
record of the first page. -/
def scanFirst (fuel : Nat) (h : HeapFileScan) : M (Status × RID × HeapFileScan) := do
  let hdr ← derefPage h.headerPage
  let h := { h with curPageNo := hdr.asFileHdr.firstPage }
  if h.curPageNo = -1 then return (.FILEEOF, NULLRID, h) else
  let (status, curPage) ← BufMgr.readPage h.filePtr h.curPageNo h.curPage
  let h := { h with curPage, curDirtyFlag := false, curRec := NULLRID }
  if status ≠ .OK then return (status, NULLRID, h) else
  let blk ← derefPage h.curPage
  let (status, tmpRid) ← ofOption blk.asPage.firstRecord
  if status = .NORECORDS then
    let status ← BufMgr.unPinPage h.filePtr h.curPageNo h.curDirtyFlag
    if status ≠ .OK then return (status, NULLRID, h) else
    return (.FILEEOF, NULLRID, { h with curPage := .null, curPageNo := -1 })
  else
    let h := { h with curRec := tmpRid }
    let (status, rec) ← ofOption (blk.asPage.getRecord tmpRid)
    if status ≠ .OK then return (status, NULLRID, h) else
    let found ← h.matchRec blk.asPage rec
    if found then return (.OK, tmpRid, h) else scanLoop fuel h

/-- `HeapFileScan::scanNext`. -/
def scanNext (fuel : Nat) (h : HeapFileScan) : M (Status × RID × HeapFileScan) :=
  if h.curPageNo < 0 then return (.FILEEOF, NULLRID, h)
  else if h.curPage = .null then scanFirst fuel h
  else scanLoop fuel h

/-- `HeapFileScan::getRecord`. -/
def getRecord (h : HeapFileScan) : M (Status × PageRecord) := do
  let blk ← derefPage h.curPage
  ofOption (blk.asPage.getRecord h.curRec)

/-- `HeapFileScan::deleteRecord`. -/
def deleteRecord (h : HeapFileScan) : M (Status × HeapFileScan) := do
  let blk ← derefPage h.curPage
  let (status, p) ← ofOption (blk.asPage.deleteRecord h.curRec)
  assignPage h.curPage (.page p)
  h.toHeapFile.modifyHeader fun hdr => { hdr with recCnt := hdr.recCnt - 1 }
  return (status, { h with curDirtyFlag := true, hdrDirtyFlag := true })

/-- `HeapFileScan::markDirty`. -/
def markDirty (h : HeapFileScan) : HeapFileScan := { h with curDirtyFlag := true }

end HeapFileScan

/-! ## `class InsertFileScan` -/

namespace InsertFileScan

/-- The constructor. It goes on after a failure of the constructor of `HeapFile`, and what it does
on the last page sets the status again. -/
def new (name : FileName) : M (Status × InsertFileScan) := do
  let (status, h) ← HeapFile.new name
  let hdr ← derefPage h.headerPage
  if h.curPage ≠ .null ∧ h.curPageNo ≠ hdr.asFileHdr.lastPage then
    let _ ← BufMgr.unPinPage h.filePtr h.curPageNo h.curDirtyFlag
    let curPageNo := hdr.asFileHdr.lastPage
    let (status, curPage) ← BufMgr.readPage h.filePtr curPageNo h.curPage
    return (status, { h with curPage, curPageNo, curDirtyFlag := false })
  else return (status, h)

/-- The destructor, with the one of `HeapFile` that runs after it. -/
def delete (h : InsertFileScan) : M Unit := do
  if h.curPage ≠ .null then
    let _ ← BufMgr.unPinPage h.filePtr h.curPageNo true
    HeapFile.delete { h with curPage := .null, curPageNo := 0 }
  else HeapFile.delete h

/-- The part of `insertRecord` that adds a page to the file because the record did not go on the
current one, and tries again. -/
def insertOverflow (h : InsertFileScan) (rec : Record) : M (Status × RID × InsertFileScan) := do
  let (status, newPageNo, newPage) ← BufMgr.allocPage h.filePtr .wild
  if status ≠ .OK then return (status, NULLRID, h) else
  let blk ← derefPage newPage
  assignPage newPage (.page ((blk.asPage.init newPageNo).setNextPage (-1)))
  h.modifyHeader fun hdr => { hdr with lastPage := newPageNo, pageCnt := hdr.pageCnt + 1 }
  let h := { h with hdrDirtyFlag := true }
  let blk ← derefPage h.curPage
  assignPage h.curPage (.page (blk.asPage.setNextPage newPageNo))
  let status ← BufMgr.unPinPage h.filePtr h.curPageNo true
  if status ≠ .OK then
    let _ ← BufMgr.unPinPage h.filePtr newPageNo true
    return (status, NULLRID, { h with curPage := .null, curPageNo := -1, curDirtyFlag := false })
  else
  let h := { h with curPage := newPage, curPageNo := newPageNo }
  let blk ← derefPage h.curPage
  let (status, rid, p) ← ofOption (blk.asPage.insertRecord rec)
  if status = .OK then
    assignPage h.curPage (.page p)
    h.modifyHeader fun hdr => { hdr with recCnt := hdr.recCnt + 1 }
    return (.OK, rid, { h with curDirtyFlag := true, hdrDirtyFlag := true })
  else return (status, NULLRID, h)

/-- The part of `insertRecord` after a data page has been pinned. -/
def insertCurrent (h : InsertFileScan) (rec : Record) : M (Status × RID × InsertFileScan) := do
  let blk ← derefPage h.curPage
  let (status, rid, p) ← ofOption (blk.asPage.insertRecord rec)
  if status = .OK then
    assignPage h.curPage (.page p)
    h.modifyHeader fun hdr => { hdr with recCnt := hdr.recCnt + 1 }
    return (.OK, rid, { h with hdrDirtyFlag := true, curDirtyFlag := true })
  else insertOverflow h rec

/-- `InsertFileScan::insertRecord`. The length is compared as an `unsigned int`, so that a
negative one is too large. -/
def insertRecord (h : InsertFileScan) (rec : Record) : M (Status × RID × InsertFileScan) := do
  if rec.length < 0 ∨ rec.length > DATASIZE then return (.INVALIDRECLEN, NULLRID, h) else
  if h.curPage = .null then
    let hdr ← derefPage h.headerPage
    let h := { h with curPageNo := hdr.asFileHdr.lastPage }
    let (status, curPage) ← BufMgr.readPage h.filePtr h.curPageNo h.curPage
    let h := { h with curPage }
    if status ≠ .OK then return (status, NULLRID, h) else insertCurrent h rec
  else insertCurrent h rec

end InsertFileScan

end Minirel
