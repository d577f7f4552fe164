import Minirel.BufMgr

/-!
# Opening and closing files (`db.cpp`)

`OpenFileHashTbl`, the part of `class File` that closes a file, and `class DB`. A `File` object is
created by the first `openFile` of a name and deleted by the `closeFile` that drops the last
reference; `new File` returns addresses in increasing order.
-/

namespace Minirel

open Comp

/-! ## The table of open files -/

namespace OpenFileHashTbl

/-- `HTSIZE`. -/
def HTSIZE : Nat := 113

/-- The value of a `char`. -/
def charValue (c : UInt8) : Int := if c.toNat < 128 then c.toNat else c.toNat - 256

/-- `OpenFileHashTbl::hash`. -/
def hash (fileName : FileName) : Fin HTSIZE :=
  let value := fileName.foldl (fun value c => toInt (31 * value + charValue c)) 0
  ⟨(value.tmod HTSIZE).natAbs, by rw [Int.natAbs_tmod]; exact Nat.mod_lt _ (by decide)⟩

/-- The constructor. -/
def new : OpenFileHashTbl := ChainTable.empty HTSIZE hash

/-- `OpenFileHashTbl::insert`. -/
def insert (t : OpenFileHashTbl) (fileName : FileName) (file : FilePtr) :
    Status × OpenFileHashTbl :=
  match t.insert? fileName file with
  | some t' => (.OK, t')
  | none => (.HASHTBLERROR, t)

/-- `OpenFileHashTbl::find`, the file being `none` if the name is not found. -/
def find (t : OpenFileHashTbl) (fileName : FileName) : Option FilePtr := ChainTable.find t fileName

/-- `OpenFileHashTbl::erase`. -/
def erase (t : OpenFileHashTbl) (fileName : FileName) : Status × OpenFileHashTbl :=
  match t.erase? fileName with
  | some t' => (.OK, t')
  | none => (.HASHTBLERROR, t)

end OpenFileHashTbl

/-- `File::close`. The status of `flushFile` is ignored. -/
def File.close (file : FilePtr) : M Status := do
  let fo ← fileAt file
  if fo.openCnt ≤ 0 then return .FILENOTOPEN else
  setFile file (some { fo with openCnt := fo.openCnt - 1 })
  if fo.openCnt - 1 = 0 then
    let _ ← BufMgr.flushFile file
    let ok ← unixCall
    let fo ← fileAt file
    setFile file (some { fo with unixFile := false })
    if ¬ok then return .UNIXERR else return .OK
  else return .OK

namespace DB

/-- `DB::createFile`. -/
def createFile (fileName : FileName) : M Status := do
  if fileName = [] then return .BADFILE else
  let s ← get
  if (s.openFiles.find fileName).isSome then return .FILEEXISTS else
  File.create fileName

/-- `DB::destroyFile`. -/
def destroyFile (fileName : FileName) : M Status := do
  if fileName = [] then return .BADFILE else
  let s ← get
  if (s.openFiles.find fileName).isSome then return .FILEOPEN else
  File.destroy fileName

/-- `new File(fileName)`. -/
def newFile (fileName : FileName) : M FilePtr := do
  let s ← get
  set { s with
    files := Function.update s.files s.nextFile (some ⟨fileName, 0, false⟩)
    nextFile := s.nextFile + 1 }
  return s.nextFile

/-- `DB::openFile`. -/
def openFile (fileName : FileName) : M (Status × FilePtr) := do
  if fileName = [] then return (.BADFILE, 0) else
  let s ← get
  match s.openFiles.find fileName with
  | some file =>
    let status ← File.open file
    return (status, file)
  | none =>
    let filePtr ← newFile fileName
    let status ← File.open filePtr
    if status ≠ .OK then
      setFile filePtr none
      return (status, filePtr)
    else
      let s ← get
      let (status, t) := OpenFileHashTbl.insert s.openFiles fileName filePtr
      set { s with openFiles := t }
      return (status, filePtr)

/-- `DB::closeFile`. The status of `File::close` is ignored. -/
def closeFile (file : FilePtr) : M Status := do
  if file = 0 then return .BADFILEPTR else
  let _ ← File.close file
  let fo ← fileAt file
  if fo.openCnt = 0 then
    let s ← get
    let (status, t) := OpenFileHashTbl.erase s.openFiles fo.fileName
    set { s with openFiles := t }
    if status ≠ .OK then return .BADFILEPTR else
    setFile file none
    return .OK
  else return .OK

end DB

end Minirel
