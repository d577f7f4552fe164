import Minirel.Page

/-!
# The three layouts of a page-sized block

A block of 1024 bytes, on disk or in a frame of the buffer pool, is used under three layouts: the
header page of a Unix file (`DBPage`), the header page of a heap file (`FileHdrPage`) and a data
page (`Page`). A `Block` records the layout it was last written under. A pointer cast reads it
under another layout by going through its bytes.
-/

namespace Minirel

/-- `MAXNAMESIZE`. -/
def MAXNAMESIZE : Nat := 50

/-- `DBPage`, page `0` of a Unix file. -/
structure DBPage where
  /-- First page of the free list, `-1` if there is none. -/
  nextFree : Int
  /-- The page allocated first, `-1` if there is none. -/
  firstPage : Int
  /-- Number of pages, this one included. -/
  numPages : Int
  deriving DecidableEq, Repr

/-- `struct FileHdrPage`, the first page of a heap file. -/
structure FileHdrPage where
  /-- The name of the file. -/
  fileName : Bytes
  /-- Number of the first data page. -/
  firstPage : Int
  /-- Number of the last data page. -/
  lastPage : Int
  /-- Number of data pages. -/
  pageCnt : Int
  /-- Number of records. -/
  recCnt : Int
  deriving DecidableEq, Repr

/-- A block of 1024 bytes under the layout it was last written under. -/
inductive Block
  | dbPage (h : DBPage)
  | fileHdr (h : FileHdrPage)
  | page (p : Page)

namespace Block

/-- The block of zero bytes. -/
def zero : Block := .page Page.zero

/-- The bytes of a block. -/
def bytes : Block → Bytes
  | .dbPage h => intBytes h.nextFree ++ intBytes h.firstPage ++ intBytes h.numPages
  | .fileHdr h =>
    (strncpy h.fileName (MAXNAMESIZE + 2)) ++ intBytes h.firstPage ++ intBytes h.lastPage ++
      intBytes h.pageCnt ++ intBytes h.recCnt
  | .page p =>
    (List.range 1008).map p.mem ++ (intBytes p.slotCnt).take 2 ++ (intBytes p.freePtr).take 2 ++
      (intBytes p.freeSpace).take 2 ++ (intBytes p.dummy).take 2 ++ intBytes p.nextPage ++
      intBytes p.curPage

/-- The cast `(DBPage*)`. -/
def asDBPage : Block → DBPage
  | .dbPage h => h
  | b => ⟨intOfBytes b.bytes, intOfBytes (b.bytes.drop 4), intOfBytes (b.bytes.drop 8)⟩

/-- The cast `(FileHdrPage*)`. -/
def asFileHdr : Block → FileHdrPage
  | .fileHdr h => h
  | b =>
    ⟨b.bytes.take MAXNAMESIZE, intOfBytes (b.bytes.drop 52), intOfBytes (b.bytes.drop 56),
      intOfBytes (b.bytes.drop 60), intOfBytes (b.bytes.drop 64)⟩

/-- The cast `(Page*)`. -/
def asPage : Block → Page
  | .page p => p
  | b =>
    { mem := fun a => b.bytes.getD a 0
      slotCnt := shortOfBytes (b.bytes.getD 1008 0) (b.bytes.getD 1009 0)
      freePtr := shortOfBytes (b.bytes.getD 1010 0) (b.bytes.getD 1011 0)
      freeSpace := shortOfBytes (b.bytes.getD 1012 0) (b.bytes.getD 1013 0)
      dummy := shortOfBytes (b.bytes.getD 1014 0) (b.bytes.getD 1015 0)
      nextPage := intOfBytes (b.bytes.drop 1016)
      curPage := intOfBytes (b.bytes.drop 1020) }

@[simp] theorem asDBPage_dbPage (h : DBPage) : (Block.dbPage h).asDBPage = h := rfl

@[simp] theorem asFileHdr_fileHdr (h : FileHdrPage) : (Block.fileHdr h).asFileHdr = h := rfl

@[simp] theorem asPage_page (p : Page) : (Block.page p).asPage = p := rfl

end Block

end Minirel
