import Minirel.System

/-!
# The buffer manager (`buf.h`, `buf.cpp`)

The operations of `class BufMgr` on the buffer manager of the process. The hash table is used
through `insert`, `lookup` and `remove` with the status codes of `bufHash.cpp`.

A `Page*&` parameter is a pointer passed in and returned, so that an operation that fails leaves
the caller's pointer as it was.
-/

namespace Minirel

open Comp

/-! ## The buffer pool hash table -/

namespace BufHashTbl

/-- `BufHashTbl::insert`. -/
def insert (t : BufHashTbl) (file : FilePtr) (pageNo : Int) (frameNo : Nat) :
    Status × BufHashTbl :=
  match t.insert? (file, pageNo) frameNo with
  | some t' => (.OK, t')
  | none => (.HASHTBLERROR, t)

/-- `BufHashTbl::lookup`, the frame being `none` if the page is not found. -/
def lookup (t : BufHashTbl) (file : FilePtr) (pageNo : Int) : Option Nat := t.find (file, pageNo)

/-- `BufHashTbl::remove`. -/
def remove (t : BufHashTbl) (file : FilePtr) (pageNo : Int) : Status × BufHashTbl :=
  match t.erase? (file, pageNo) with
  | some t' => (.OK, t')
  | none => (.HASHTBLERROR, t)

end BufHashTbl

namespace BufDesc

/-- `BufDesc::Clear`; it does not touch the reference bit. -/
def Clear (_ : BufDesc) : BufDesc := ⟨0, -1, 0, false, false⟩

/-- `BufDesc::Set`; it also sets the reference bit. -/
def Set (_ : BufDesc) (filePtr : FilePtr) (pageNum : Int) : BufDesc :=
  ⟨filePtr, pageNum, 1, false, true⟩

end BufDesc

namespace BufMgr

/-! ## Frames -/

/-- The state after `memset(bufTable, 0, ..)`. -/
def zeroDesc : BufDesc := ⟨0, 0, 0, false, false⟩

/-- The size of the hash table for a pool of `bufs` frames. -/
def htsize (bufs : Nat) : Nat := bufs * 12 / 10 + 1

theorem htsize_one_pos : 0 < htsize 1 := Nat.succ_pos _

/-- The constructor of `BufMgr`, for a hash function with values in range. -/
def new (bufs : Nat) (hash : FilePtr × Int → Fin (htsize bufs)) : BufMgr where
  numBufs := bufs
  clockHand := bufs - 1
  hashTable := ChainTable.empty (htsize bufs) hash
  bufTable := fun _ => zeroDesc
  refbit := fun _ => false
  bufPool := fun _ => Block.zero

/-- Overwrite the descriptor of a frame. -/
def setDesc (b : BufMgr) (frame : Nat) (d : BufDesc) : BufMgr :=
  { b with bufTable := Function.update b.bufTable frame d }

/-- Overwrite the contents of a frame. -/
def setPool (b : BufMgr) (frame : Nat) (blk : Block) : BufMgr :=
  { b with bufPool := Function.update b.bufPool frame blk }

/-- Overwrite the reference bit of a frame. -/
def setRefbit (b : BufMgr) (frame : Nat) (r : Bool) : BufMgr :=
  { b with refbit := Function.update b.refbit frame r }

/-- `BufMgr::advanceClock`. -/
def advanceClock (b : BufMgr) : BufMgr := { b with clockHand := (b.clockHand + 1) % b.numBufs }

/-- The loop of `allocBuf`; the first argument is `2*numBufs - numScanned`. The results are the
state, `found`, and what is left of the first argument. -/
def clockSweep : Nat → BufMgr → BufMgr × Bool × Nat
  | 0, b => (b, false, 0)
  | n + 1, b =>
    let b := b.advanceClock
    let d := b.bufTable b.clockHand
    if ¬d.valid then (b, false, n)
    else if ¬b.refbit b.clockHand then
      if d.pinCnt = 0 then
        ({ b with hashTable := (b.hashTable.remove d.file d.pageNo).2 }, true, n)
      else clockSweep n b
    else clockSweep n (b.setRefbit b.clockHand false)

end BufMgr

/-- Change the buffer manager. -/
def modifyBuf (g : BufMgr → BufMgr) : M Unit := modify fun s => { s with buf := g s.buf }

namespace BufMgr

/-! ## The operations -/

/-- `BufMgr::allocBuf`. -/
def allocBuf : M (Status × Nat) := do
  let s ← get
  let (b, found, left) := clockSweep (2 * s.buf.numBufs) s.buf
  if ¬found ∧ left = 0 then
    set { s with buf := b }
    raise
    return (.BUFFEREXCEEDED, 0)
  else
    set { s with buf := b }
    let d := b.bufTable b.clockHand
    if d.dirty then
      let status ← File.writePage d.file d.pageNo (b.bufPool b.clockHand)
      return (status, b.clockHand)
    else return (.OK, b.clockHand)

/-- The part of `readPage` and `allocPage` that enters a page into the pool once its frame is
chosen. -/
def enterPage (file : FilePtr) (pageNo : Int) (frameNo : Nat) : M (Status × PagePtr) := do
  let s ← get
  let b := (s.buf.setDesc frameNo ((s.buf.bufTable frameNo).Set file pageNo)).setRefbit frameNo true
  let (status, t) := b.hashTable.insert file pageNo frameNo
  set { s with buf := { b with hashTable := t } }
  return (status, .frame frameNo)

/-- `BufMgr::readPage`. -/
def readPage (file : FilePtr) (pageNo : Int) (page : PagePtr) : M (Status × PagePtr) := do
  let s ← get
  match s.buf.hashTable.lookup file pageNo with
  | some frameNo =>
    let d := s.buf.bufTable frameNo
    modifyBuf fun b => (b.setRefbit frameNo true).setDesc frameNo { d with pinCnt := d.pinCnt + 1 }
    return (.OK, .frame frameNo)
  | none =>
    let (status, frameNo) ← allocBuf
    if status ≠ .OK then return (status, page) else
    let s ← get
    let (status, blk) ← File.readPage file pageNo (s.buf.bufPool frameNo)
    modifyBuf fun b => b.setPool frameNo blk
    if status ≠ .OK then return (status, page) else
    enterPage file pageNo frameNo

/-- `BufMgr::unPinPage`. -/
def unPinPage (file : FilePtr) (pageNo : Int) (dirty : Bool) : M Status := do
  let s ← get
  match s.buf.hashTable.lookup file pageNo with
  | none => return .HASHNOTFOUND
  | some frameNo =>
    let d := s.buf.bufTable frameNo
    let d := if dirty then { d with dirty := true } else d
    if d.pinCnt = 0 then
      modifyBuf fun b => b.setDesc frameNo d
      return .PAGENOTPINNED
    else
      modifyBuf fun b => b.setDesc frameNo { d with pinCnt := d.pinCnt - 1 }
      return .OK

/-- The write-back step of `flushFile` for a frame that holds a page of the file and is not
pinned. -/
def flushFrame (i : Nat) : M Status := do
  let s ← get
  let d := s.buf.bufTable i
  if d.dirty then
    let status ← File.writePage d.file d.pageNo (s.buf.bufPool i)
    if status ≠ .OK then return status else
    modifyBuf fun b => b.setDesc i { d with dirty := false }
    return .OK
  else return .OK

/-- The loop of `flushFile`, from frame `i` on with `n` frames left. -/
def flushFrames (file : FilePtr) : Nat → Nat → M Status
  | 0, _ => return .OK
  | n + 1, i => do
    let s ← get
    let d := s.buf.bufTable i
    if d.valid ∧ d.file = file then
      if d.pinCnt > 0 then return .PAGEPINNED else
      let status ← flushFrame i
      if status ≠ .OK then return status else
      modifyBuf fun b =>
        { b.setDesc i ⟨0, -1, d.pinCnt, false, false⟩ with
          hashTable := (b.hashTable.remove file d.pageNo).2 }
      flushFrames file n (i + 1)
    else if ¬d.valid ∧ d.file = file then return .BADBUFFER
    else flushFrames file n (i + 1)

/-- `BufMgr::flushFile`. -/
def flushFile (file : FilePtr) : M Status := do
  let s ← get
  flushFrames file s.buf.numBufs 0

/-- `BufMgr::disposePage`. -/
def disposePage (file : FilePtr) (pageNo : Int) : M Status := do
  let s ← get
  match s.buf.hashTable.lookup file pageNo with
  | some frameNo => modifyBuf fun b => b.setDesc frameNo (b.bufTable frameNo).Clear
  | none => pure ()
  modifyBuf fun b => { b with hashTable := (b.hashTable.remove file pageNo).2 }
  File.disposePage file pageNo

/-- `BufMgr::allocPage`; the page number is the one `File::allocatePage` set. -/
def allocPage (file : FilePtr) (page : PagePtr) : M (Status × Int × PagePtr) := do
  let (status, pageNo) ← File.allocatePage file
  if status ≠ .OK then return (status, pageNo, page) else
  let (status, frameNo) ← allocBuf
  if status ≠ .OK then return (status, pageNo, page) else
  let (status, page) ← enterPage file pageNo frameNo
  return (status, pageNo, page)

/-- The loop of the destructor, from frame `i` on with `n` frames left. -/
def writeBackFrames : Nat → Nat → M Unit
  | 0, _ => return ()
  | n + 1, i => do
    let s ← get
    let d := s.buf.bufTable i
    if d.valid ∧ d.dirty then
      let _ ← File.writePage d.file d.pageNo (s.buf.bufPool i)
      writeBackFrames n (i + 1)
    else writeBackFrames n (i + 1)

/-- `BufMgr::~BufMgr`. -/
def delete : M Unit := do
  let s ← get
  writeBackFrames s.buf.numBufs 0

end BufMgr

/-! ## Pointers into the pool -/

/-- Follow a pointer into the pool. -/
def derefPage (page : PagePtr) : M Block := do
  match page with
  | .frame n =>
    let s ← get
    return s.buf.bufPool n
  | _ => failure

/-- Assign through a pointer into the pool. -/
def assignPage (page : PagePtr) (blk : Block) : M Unit :=
  match page with
  | .frame n => modifyBuf fun b => b.setPool n blk
  | _ => failure

end Minirel
