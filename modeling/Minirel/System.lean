import Minirel.Block
import Minirel.Lib.Comp
import Minirel.Lib.ChainTable
import Mathlib.Logic.Function.Basic

/-!
# The state of a Minirel process and the Unix calls it makes

`Sys` is everything the storage layers of a process share: the Unix file system, the `File`
objects, the open-file table of `db` and the buffer manager. A function of the source is a
computation over this state; it has no outcome where the source does not return or its behavior
is undefined.

Unix calls may fail. Whether the next one does is read off the stream `io`, one entry for each
call (an `lseek` and the transfer after it count as one call); a call that fails transfers
nothing. A computation raises its flag when the buffer manager returns `BUFFEREXCEEDED`; no
operation can see the flag.
-/

namespace Minirel

/-- A pointer to a `File` object; `0` is `NULL`. -/
abbrev FilePtr := Nat

/-- A pointer into the buffer pool, possibly never set. -/
inductive PagePtr
  | null
  | frame (n : Nat)
  | wild
  deriving DecidableEq, Repr

/-- A Unix file of the database, in pages. -/
structure UnixFile where
  /-- Length of the file in pages. -/
  size : Nat
  /-- Contents of the pages below `size`. -/
  page : Nat → Block

/-- `class File`, without its static functions. -/
structure File where
  /-- The name of the file. -/
  fileName : FileName
  /-- Number of times the file has been opened. -/
  openCnt : Int
  /-- Whether `unixFile` is an open descriptor. -/
  unixFile : Bool

/-- The buffer pool hash table, from `(file, pageNo)` to a frame. -/
abbrev BufHashTbl := ChainTable (FilePtr × Int) Nat

/-- The table of open files. -/
abbrev OpenFileHashTbl := ChainTable FileName FilePtr

/-- `class BufDesc`: what one frame of the pool holds. Its reference bit is kept in `BufMgr`. -/
structure BufDesc where
  /-- The file of the page. -/
  file : FilePtr
  /-- The page within the file. -/
  pageNo : Int
  /-- Number of times the page has been pinned. -/
  pinCnt : Nat
  /-- Whether the frame must be written back. -/
  dirty : Bool
  /-- Whether the frame holds a page. -/
  valid : Bool
  deriving DecidableEq, Repr

/-- `class BufMgr`. -/
structure BufMgr where
  /-- Number of frames. -/
  numBufs : Nat
  /-- The frame considered last for replacement. -/
  clockHand : Nat
  /-- Where a page is buffered. -/
  hashTable : BufHashTbl
  /-- What each frame holds. -/
  bufTable : Nat → BufDesc
  /-- The `refbit` of each frame. -/
  refbit : Nat → Bool
  /-- The frames. -/
  bufPool : Nat → Block

/-- The state of a process. -/
structure Sys where
  /-- The Unix files of the database. -/
  unix : FileName → Option UnixFile
  /-- The Unix files outside the database, byte by byte. -/
  dataFile : FileName → Option Bytes
  /-- Whether the next Unix calls succeed. -/
  io : Nat → Bool
  /-- The `File` objects. -/
  files : FilePtr → Option File
  /-- The next address that `new File` returns. -/
  nextFile : FilePtr
  /-- `db.openFiles`. -/
  openFiles : OpenFileHashTbl
  /-- `*bufMgr`. -/
  buf : BufMgr

/-- A function of the source. -/
abbrev M := StateT Sys Comp.Outcome

open Comp

/-! ## Unix calls -/

/-- Whether the next Unix call succeeds. -/
def unixCall : M Bool := do
  let s ← get
  set { s with io := fun n => s.io (n + 1) }
  return s.io 0

/-- Follow a `File*`. -/
def fileAt (file : FilePtr) : M File := do
  let s ← get
  ofOption (s.files file)

/-- Overwrite a `File` object. -/
def setFile (file : FilePtr) (fo : Option File) : M Unit :=
  modify fun s => { s with files := Function.update s.files file fo }

/-- Replace or remove a Unix file. -/
def setUnix (name : FileName) (uf : Option UnixFile) : M Unit :=
  modify fun s => { s with unix := Function.update s.unix name uf }

/-- A Unix file with one page written; pages between the old end and the new page are zero. -/
def UnixFile.write (uf : UnixFile) (p : Nat) (b : Block) : UnixFile where
  size := max uf.size (p + 1)
  page := fun i => if i = p then b else if i < uf.size then uf.page i else Block.zero

/-- The block at page `p` of a Unix file, if the file is that long. -/
def UnixFile.page? (uf : UnixFile) (p : Int) : Option Block :=
  if 0 ≤ p ∧ p < uf.size then some (uf.page p.toNat) else none

/-! ## `class File`: pages of a Unix file (`db.cpp`) -/

namespace File

/-- `File::intread` into a page whose old contents are `pagePtr`. -/
def intread (file : FilePtr) (pageNo : Int) (pagePtr : Block) : M (Status × Block) := do
  let fo ← fileAt file
  let ok ← unixCall
  let s ← get
  if ok ∧ fo.unixFile then
    match (s.unix fo.fileName).bind fun uf => uf.page? pageNo with
    | some b => return (.OK, b)
    | none => return (.UNIXERR, pagePtr)
  else return (.UNIXERR, pagePtr)

/-- `File::intwrite`. -/
def intwrite (file : FilePtr) (pageNo : Int) (pagePtr : Block) : M Status := do
  let fo ← fileAt file
  let ok ← unixCall
  let s ← get
  if ok ∧ fo.unixFile ∧ 0 ≤ pageNo then
    match s.unix fo.fileName with
    | some uf =>
      setUnix fo.fileName (some (uf.write pageNo.toNat pagePtr))
      return .OK
    | none => return .UNIXERR
  else return .UNIXERR

/-- `File::readPage`. -/
def readPage (file : FilePtr) (pageNo : Int) (pagePtr : Block) : M (Status × Block) :=
  if pageNo < 1 then return (.BADPAGENO, pagePtr) else intread file pageNo pagePtr

/-- `File::writePage`. -/
def writePage (file : FilePtr) (pageNo : Int) (pagePtr : Block) : M Status :=
  if pageNo < 1 then return .BADPAGENO else intwrite file pageNo pagePtr

/-- `File::getFirstPage`. -/
def getFirstPage (file : FilePtr) : M (Status × Int) := do
  let (status, header) ← intread file 0 Block.zero
  return (status, header.asDBPage.firstPage)

/-- `File::allocatePage`. -/
def allocatePage (file : FilePtr) : M (Status × Int) := do
  let (status, header) ← intread file 0 Block.zero
  if status ≠ .OK then return (status, 0) else
  let h := header.asDBPage
  if h.nextFree ≠ -1 then
    -- take the first page of the free list
    let (status, firstFree) ← intread file h.nextFree Block.zero
    if status ≠ .OK then return (status, h.nextFree) else
    let status ← intwrite file 0 (.dbPage { h with nextFree := firstFree.asDBPage.nextFree })
    return (status, h.nextFree)
  else
    -- no free page, extend the file
    let status ← intwrite file h.numPages Block.zero
    if status ≠ .OK then return (status, h.numPages) else
    let status ← intwrite file 0 (.dbPage
      { h with
        numPages := h.numPages + 1
        firstPage := if h.firstPage = -1 then h.numPages else h.firstPage })
    return (status, h.numPages)

/-- `File::disposePage`. -/
def disposePage (file : FilePtr) (pageNo : Int) : M Status := do
  if pageNo < 1 then return .BADPAGENO else
  let (status, header) ← intread file 0 Block.zero
  if status ≠ .OK then return status else
  let h := header.asDBPage
  if h.firstPage = pageNo ∨ pageNo ≥ h.numPages then return .BADPAGENO else
  let (status, _) ← intread file pageNo Block.zero
  if status ≠ .OK then return status else
  let status ← intwrite file pageNo (.dbPage ⟨h.nextFree, 0, 0⟩)
  if status ≠ .OK then return status else
  intwrite file 0 (.dbPage { h with nextFree := pageNo })

/-- `File::create`. -/
def create (fileName : FileName) : M Status := do
  let s ← get
  let ok ← unixCall
  if (s.unix fileName).isSome then return .FILEEXISTS else
  if ¬ok then return .UNIXERR else
  setUnix fileName (some ⟨0, fun _ => Block.zero⟩)
  let ok ← unixCall
  if ¬ok then return .UNIXERR else
  setUnix fileName (some ⟨1, fun _ => .dbPage ⟨-1, -1, 1⟩⟩)
  let ok ← unixCall
  if ¬ok then return .UNIXERR else return .OK

/-- `File::destroy`. -/
def destroy (fileName : FileName) : M Status := do
  let s ← get
  let ok ← unixCall
  if ok ∧ (s.unix fileName).isSome then
    setUnix fileName none
    return .OK
  else return .UNIXERR

/-- `File::open`. -/
def «open» (file : FilePtr) : M Status := do
  let fo ← fileAt file
  if fo.openCnt = 0 then
    let s ← get
    let ok ← unixCall
    if ok ∧ (s.unix fo.fileName).isSome then
      setFile file (some { fo with openCnt := 1, unixFile := true })
      return .OK
    else return .UNIXERR
  else
    setFile file (some { fo with openCnt := fo.openCnt + 1 })
    return .OK

end File

end Minirel
