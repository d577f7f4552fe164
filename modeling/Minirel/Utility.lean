import Minirel.Catalog

/-!
# Sessions: starting, loading, quitting (`minirel.cpp`, `dbcreate.cpp`, `load.cpp`, `quit.cpp`)

The programs `dbcreate` and `minirel` up to the prompt, `UT_Load` and `UT_Quit`. A new process
starts on the Unix files that earlier ones left, with no open file and an empty buffer pool.

The destructor of the global `db`, which runs after `UT_Quit` and would use the deleted buffer
manager for files still open, is not part of the model.
-/

namespace Minirel

open Comp

/-- Number of frames of the buffer pool of `dbcreate` and `minirel`. -/
def BUFS : Nat := 100

/-- A hash function of the buffer pool hash table. -/
abbrev BufHash := FilePtr × Int → Fin (BufMgr.htsize BUFS)

/-- The state of a process that has just created its buffer manager. -/
def Sys.start (unix : FileName → Option UnixFile) (dataFile : FileName → Option Bytes)
    (io : Nat → Bool) (hash : BufHash) : Sys where
  unix := unix
  dataFile := dataFile
  io := io
  files := fun _ => none
  nextFile := 1
  openFiles := OpenFileHashTbl.new
  buf := BufMgr.new BUFS hash

/-- The constructors of `RelCatalog` and `AttrCatalog`, as `main` calls them. -/
def openCatalogs : M (Status × HeapFile × HeapFile) := do
  let (status, relCat) ← HeapFile.new RELCATNAME
  if status ≠ .OK then return (status, relCat, HeapFile.uninit) else
  let (status, attrCat) ← HeapFile.new ATTRCATNAME
  return (status, relCat, attrCat)

/-- `UT_Quit`. -/
def UT_Quit (relCat attrCat : HeapFile) : M Unit := do
  relCat.delete
  attrCat.delete
  BufMgr.delete

/-! ## `dbcreate` -/

/-- The string literal `"relName"`. -/
def relNameStr : Bytes := [114, 101, 108, 78, 97, 109, 101]

/-- The string literal `"attrCnt"`. -/
def attrCntStr : Bytes := [97, 116, 116, 114, 67, 110, 116]

/-- The string literal `"attrName"`. -/
def attrNameStr : Bytes := [97, 116, 116, 114, 78, 97, 109, 101]

/-- The string literal `"attrOffset"`. -/
def attrOffsetStr : Bytes := [97, 116, 116, 114, 79, 102, 102, 115, 101, 116]

/-- The string literal `"attrType"`. -/
def attrTypeStr : Bytes := [97, 116, 116, 114, 84, 121, 112, 101]

/-- The string literal `"attrLen"`. -/
def attrLenStr : Bytes := [97, 116, 116, 114, 76, 101, 110]

/-- One entry of a catalog in `dbcreate`, with the bytes of the local `ad`: fill in the names and
numbers of an attribute and add its tuple. -/
def catalogAttr (ad : AttrDesc) (relName attrName : Bytes) (attrOffset : Int) (attrType : Datatype)
    (attrLen : Int) : M (Status × AttrDesc) := do
  let rn ← ofOption (strcpy ad.relName relName)
  let an ← ofOption (strcpy ad.attrName attrName)
  let ad : AttrDesc := ⟨rn, an, attrOffset, attrType.code, attrLen⟩
  let status ← AttrCatalog.addInfo ad
  return (status, ad)

/-- One tuple of `relcat` in `dbcreate`, with the bytes of the local `rd`. -/
def catalogRel (rd : RelDesc) (relName : Bytes) (attrCnt : Int) : M (Status × RelDesc) := do
  let rn ← ofOption (strcpy rd.relName relName)
  let rd : RelDesc := ⟨rn, attrCnt⟩
  let status ← RelCatalog.addInfo rd
  return (status, rd)

/-- The tuples that `dbcreate` adds to the catalogs, with the initial bytes of its locals `rd` and
`ad`; the status is the first one that is not `OK`. -/
def describeCatalogs (rd : RelDesc) (ad : AttrDesc) : M Status := do
  let (status, rd) ← catalogRel rd RELCATNAME 2
  if status ≠ .OK then return status else
  let (status, ad) ← catalogAttr ad RELCATNAME relNameStr 0 .STRING 32
  if status ≠ .OK then return status else
  let (status, ad) ← catalogAttr ad RELCATNAME attrCntStr 32 .INTEGER 4
  if status ≠ .OK then return status else
  let (status, _) ← catalogRel rd ATTRCATNAME 5
  if status ≠ .OK then return status else
  let (status, ad) ← catalogAttr ad ATTRCATNAME relNameStr 0 .STRING 32
  if status ≠ .OK then return status else
  let (status, ad) ← catalogAttr ad ATTRCATNAME attrNameStr 32 .STRING 32
  if status ≠ .OK then return status else
  let (status, ad) ← catalogAttr ad ATTRCATNAME attrOffsetStr 64 .INTEGER 4
  if status ≠ .OK then return status else
  let (status, ad) ← catalogAttr ad ATTRCATNAME attrTypeStr 68 .INTEGER 4
  if status ≠ .OK then return status else
  let (status, _) ← catalogAttr ad ATTRCATNAME attrLenStr 72 .INTEGER 4
  return status

/-- `main` of `dbcreate`, in the new directory. The status is the one of the step that failed. -/
def dbcreate (rd : RelDesc) (ad : AttrDesc) : M Status := do
  let status ← createHeapFile RELCATNAME
  if status ≠ .OK then return status else
  let status ← createHeapFile ATTRCATNAME
  if status ≠ .OK then return status else
  let (status, relCat, attrCat) ← openCatalogs
  if status ≠ .OK then return status else
  let status ← describeCatalogs rd ad
  if status ≠ .OK then return status else
  UT_Quit relCat attrCat
  return .OK

/-! ## `UT_Load` -/

/-- The loop of `UT_Load` over the rest of the data file; `none` for the status means that the
input is used up. -/
def loadTuples (width : Int) : Nat → Bytes → InsertFileScan → M (Option Status × InsertFileScan)
  | 0, _, _ => failure
  | fuel + 1, rest, iFile => do
    let ok ← unixCall
    if ok ∧ width ≤ rest.length then
      let (status, _, iFile) ← iFile.insertRecord ⟨rest.take width.toNat, width⟩
      if status ≠ .OK then return (some status, iFile)
      else loadTuples width fuel (rest.drop width.toNat) iFile
    else return (none, iFile)

/-- The sum of the attribute lengths that `UT_Load` forms. -/
def tupleWidth (attrs : List AttrDesc) : Int :=
  attrs.foldl (fun width a => toInt (width + a.attrLen)) 0

/-- `UT_Load`, with the initial bytes of its local `rd` and of the locals of the functions it
calls. The `InsertFileScan` is never deleted. -/
def UT_Load (fuel : Nat) (rd junk : RelDesc) (junkAttr : AttrDesc) (relation fileName : Bytes) :
    M Status := do
  if relation = [] ∨ fileName = [] ∨ relation = RELCATNAME ∨ relation = ATTRCATNAME then
    return .BADCATPARM
  else
  let ok ← unixCall
  let s ← get
  match s.dataFile fileName with
  | none => return .UNIXERR
  | some data =>
    if ¬ok then return .UNIXERR else
    let (status, rd) ← RelCatalog.getInfo fuel relation rd
    if status ≠ .OK then return status else
    let relName ← ofOption (cString rd.relName)
    let (status, _, attrs) ← AttrCatalog.getRelInfo fuel junk junkAttr relName 0 []
    if status ≠ .OK then return status else
    let (status, iFile) ← InsertFileScan.new relName
    if status ≠ .OK then return status else
    let width := tupleWidth attrs
    -- `new` refuses a negative width
    if width < 0 then failure else
    let (status, _) ← loadTuples width fuel data iFile
    match status with
    | some status => return status
    | none =>
      let ok ← unixCall
      if ¬ok then return .UNIXERR else return .OK

end Minirel
