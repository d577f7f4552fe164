import Minirel.HeapFile

/-!
# The catalogs (`catalog.h`, `catalog.cpp`, `create.cpp`, `destroy.cpp`)

The operations of `RelCatalog` and `AttrCatalog`. None of them uses the `HeapFile` object it is
called on: each opens scans of its own on the heap files `relcat` and `attrcat`. A scan given to
`free` is dropped without its destructor.

Values that the source reads without having set them are parameters: the status locals that some
functions return or test, and the bytes of stack records (`junk`). Loops over a scan take a bound
on their number of rounds, as `scanNext` does.
-/

namespace Minirel

open Comp

/-- `RELCATNAME`: `"relcat"`. -/
def RELCATNAME : FileName := [114, 101, 108, 99, 97, 116]

/-- `ATTRCATNAME`: `"attrcat"`. -/
def ATTRCATNAME : FileName := [97, 116, 116, 114, 99, 97, 116]

/-- `MAXNAME`. -/
def MAXNAME : Nat := 32

/-- The integer codes of `enum Datatype`. -/
def Datatype.code : Datatype → Int
  | .STRING => 0
  | .INTEGER => 1
  | .FLOAT => 2

/-- `RelDesc`, a tuple of `relcat`. -/
structure RelDesc where
  /-- The array `relName` of `MAXNAME` bytes. -/
  relName : Bytes
  /-- Number of attributes. -/
  attrCnt : Int
  deriving DecidableEq, Repr

/-- `AttrDesc`, a tuple of `attrcat`. -/
structure AttrDesc where
  /-- The array `relName` of `MAXNAME` bytes. -/
  relName : Bytes
  /-- The array `attrName` of `MAXNAME` bytes. -/
  attrName : Bytes
  /-- Offset of the attribute in a tuple. -/
  attrOffset : Int
  /-- Type of the attribute. -/
  attrType : Int
  /-- Length of the attribute. -/
  attrLen : Int
  deriving DecidableEq, Repr

/-- `attrInfo`, an attribute as declared; the names without their NUL. -/
structure AttrInfo where
  /-- Relation name. -/
  relName : Bytes
  /-- Attribute name. -/
  attrName : Bytes
  /-- Type of the attribute. -/
  attrType : Int
  /-- Length of the attribute. -/
  attrLen : Int
  deriving DecidableEq, Repr

namespace RelDesc

/-- The 36 bytes of a `RelDesc`. -/
def bytes (d : RelDesc) : Bytes := d.relName ++ intBytes d.attrCnt

/-- The `RelDesc` stored in memory. -/
def ofBytes (b : Bytes) : RelDesc := ⟨b.take MAXNAME, intOfBytes (b.drop MAXNAME)⟩

end RelDesc

namespace AttrDesc

/-- The 76 bytes of an `AttrDesc`. -/
def bytes (d : AttrDesc) : Bytes :=
  d.relName ++ d.attrName ++ intBytes d.attrOffset ++ intBytes d.attrType ++ intBytes d.attrLen

/-- The `AttrDesc` stored in memory. -/
def ofBytes (b : Bytes) : AttrDesc :=
  ⟨b.take MAXNAME, (b.drop MAXNAME).take MAXNAME, intOfBytes (b.drop (2 * MAXNAME)),
    intOfBytes (b.drop (2 * MAXNAME + 4)), intOfBytes (b.drop (2 * MAXNAME + 8))⟩

end AttrDesc

/-- `memcpy` of `src` over the start of the memory `dst`; `none` if it does not fit. -/
def memcpy (dst src : Bytes) : Option Bytes :=
  if src.length ≤ dst.length then some (src ++ dst.drop src.length) else none

/-- The argument `str.c_str()` of a string without NUL bytes. -/
def cStr (str : Bytes) : CharPtr := .client (str ++ [0])

/-- `relation.length() + 1` as an argument of type `int`. -/
def cSize (b : Bytes) : Int := (BitVec.ofNat 32 (b.length + 1)).toInt

/-- The C string at the start of a stretch of memory; `none` if it has no NUL. -/
def cString (b : Bytes) : Option Bytes := if 0 ∈ b then some (cstr b) else none

/-- Copy `n` bytes of the current record of a scan out of the pool. -/
def copyRecord (h : HeapFileScan) (rec : PageRecord) (n : Int) : M Bytes := do
  let blk ← derefPage h.curPage
  ofOption (blk.asPage.bytes? rec.data n)

/-! ## `class RelCatalog` -/

namespace RelCatalog

/-- `RelCatalog::getInfo`. -/
def getInfo (fuel : Nat) (relation : Bytes) (record : RelDesc) : M (Status × RelDesc) := do
  if relation = [] then return (.BADCATPARM, record) else
  let (status, scan) ← HeapFileScan.new RELCATNAME
  if status ≠ .OK then return (status, record) else
  let (status, scan) := scan.startScan 0 (cSize relation) .STRING (some (cStr relation)) .EQ
  if status ≠ .OK then return (status, record) else
  let (status, _, scan) ← scan.scanNext fuel
  if status = .OK then
    let (status, rec) ← scan.getRecord
    if status ≠ .OK then return (status, record) else
    let b ← copyRecord scan rec rec.length
    let record ← ofOption (memcpy record.bytes b)
    let (status, _) ← scan.endScan
    return (status, RelDesc.ofBytes record)
  else
    let _ ← scan.endScan
    return (if status = .FILEEOF then .RELNOTFOUND else status, record)

/-- `RelCatalog::addInfo`. -/
def addInfo (record : RelDesc) : M Status := do
  let (status, ifs) ← InsertFileScan.new RELCATNAME
  if status ≠ .OK then return status else
  let (status, _, ifs) ← ifs.insertRecord ⟨record.bytes, 36⟩
  ifs.delete
  return status

/-- The loop of `removeInfo`, from the status of the last `scanNext` on; `ret` is what the
function returns when it ends without a `return`. -/
def removeLoop (relation : Bytes) (ret : Status) : Nat → Status → HeapFileScan → M Status
  | 0, _, _ => failure
  | fuel + 1, status, hfs => do
    if status = .FILEEOF then return ret else
    if status ≠ .OK then return status else
    let (status, rec) ← hfs.getRecord
    if status ≠ .OK then return status else
    let b ← copyRecord hfs rec 36
    let same ← ofOption (strcmpEq b (relation ++ [0]))
    if same then
      let _ ← hfs.deleteRecord
      return .OK
    else
      let (status, _, hfs) ← hfs.scanNext fuel
      removeLoop relation ret fuel status hfs

/-- `RelCatalog::removeInfo`, with the initial value of its local `status` and the value returned
when it ends without a `return`. -/
def removeInfo (fuel : Nat) (status ret : Status) (relation : Bytes) : M Status := do
  if relation = [] then return .BADCATPARM else
  let (opened, hfs) ← HeapFileScan.new RELCATNAME
  if status ≠ .OK then return opened else
  let (status, hfs) := hfs.startScan 0 (cSize relation) .STRING (some (cStr relation)) .EQ
  if status ≠ .OK then return status else
  let (status, _, hfs) ← hfs.scanNext fuel
  removeLoop relation ret fuel status hfs

end RelCatalog

/-! ## `class AttrCatalog` -/

namespace AttrCatalog

/-- The loop of `getInfo`, from the status of the last `scanNext` on. The status returned is the
one the function returns early, if it does. -/
def getLoop (attrName : Bytes) :
    Nat → Status → HeapFileScan → AttrDesc → M (Option Status × Status × HeapFileScan × AttrDesc)
  | 0, _, _, _ => failure
  | fuel + 1, status, hfs, record => do
    if status ≠ .OK then return (none, status, hfs, record) else
    let (got, rec) ← hfs.getRecord
    if got ≠ .OK then return (some got, status, hfs, record) else
    let b ← copyRecord hfs rec rec.length
    let mem ← ofOption (memcpy record.bytes b)
    let record := AttrDesc.ofBytes mem
    let name ← ofOption (cString (mem.drop MAXNAME))
    if name = attrName then return (none, status, hfs, record) else
    let (status, _, hfs) ← hfs.scanNext fuel
    getLoop attrName fuel status hfs record

/-- `AttrCatalog::getInfo`. -/
def getInfo (fuel : Nat) (relation attrName : Bytes) (record : AttrDesc) :
    M (Status × AttrDesc) := do
  if relation = [] ∨ attrName = [] then return (.BADCATPARM, record) else
  let (status, hfs) ← HeapFileScan.new ATTRCATNAME
  if status ≠ .OK then return (status, record) else
  let (status, hfs) := hfs.startScan 0 (cSize relation) .STRING (some (cStr relation)) .EQ
  if status ≠ .OK then return (status, record) else
  let (status, _, hfs) ← hfs.scanNext fuel
  let (early, status, hfs, record) ← getLoop attrName fuel status hfs record
  match early with
  | some status => return (status, record)
  | none =>
    if status ≠ .FILEEOF then
      let (status, _) ← hfs.endScan
      return (status, record)
    else return (.ATTRNOTFOUND, record)

/-- `AttrCatalog::addInfo`. -/
def addInfo (record : AttrDesc) : M Status := do
  let (status, ifs) ← InsertFileScan.new ATTRCATNAME
  if status ≠ .OK then return status else
  let (status, _, ifs) ← ifs.insertRecord ⟨record.bytes, 76⟩
  ifs.delete
  return status

/-- The loop of `removeInfo`. It does not move the scan on, so that it ends in its first round or
never. The result is a status returned early, if there is one. -/
def removeLoop (attrName : Bytes) : Nat → HeapFileScan → AttrDesc → M (Option Status)
  | 0, _, _ => failure
  | fuel + 1, hfs, record => do
    let (got, rec) ← hfs.getRecord
    if got ≠ .OK then return some got else
    let b ← copyRecord hfs rec rec.length
    let mem ← ofOption (memcpy record.bytes b)
    let name ← ofOption (cString (mem.drop MAXNAME))
    if name = attrName then return none else removeLoop attrName fuel hfs (AttrDesc.ofBytes mem)

/-- `AttrCatalog::removeInfo`, with the initial bytes of its local `record`. -/
def removeInfo (fuel : Nat) (junk : AttrDesc) (relation attrName : Bytes) : M Status := do
  if relation = [] ∨ attrName = [] then return .BADCATPARM else
  let (status, hfs) ← HeapFileScan.new ATTRCATNAME
  if status ≠ .OK then return status else
  let (status, hfs) := hfs.startScan 0 (cSize relation) .STRING (some (cStr relation)) .EQ
  if status ≠ .OK then return status else
  let (status, _, hfs) ← hfs.scanNext fuel
  if status = .OK then
    match ← removeLoop attrName fuel hfs junk with
    | some status => return status
    | none =>
      let (deleted, hfs) ← hfs.deleteRecord
      let _ ← hfs.endScan
      return deleted
  else
    let _ ← hfs.endScan
    return .RELNOTFOUND

/-- The loop of `getRelInfo`, from the status of the last `scanNext` on, with `amount` the index
of the entry to fill next. -/
def relInfoLoop (relation : Bytes) :
    Nat → Status → HeapFileScan → Int → List AttrDesc → M (Status × List AttrDesc)
  | 0, _, _, _, _ => failure
  | fuel + 1, status, hfs, amount, attrs => do
    if status = .FILEEOF then return (.OK, attrs) else
    if amount < 0 then return (.OK, attrs) else
    if status ≠ .OK then return (status, attrs) else
    let (got, rec) ← hfs.getRecord
    if got ≠ .OK then return (got, attrs) else
    let b ← copyRecord hfs rec 76
    let attrs := attrs.set amount.toNat (AttrDesc.ofBytes b)
    let same ← ofOption (strcmpEq b (relation ++ [0]))
    let (status, _, hfs) ← hfs.scanNext fuel
    relInfoLoop relation fuel status hfs (if same then amount - 1 else amount) attrs

/-- `AttrCatalog::getRelInfo`, with the initial bytes of its local `descriptor` and of the
array it allocates. The count and the array are those set when it returns. -/
def getRelInfo (fuel : Nat) (junk : RelDesc) (junkAttr : AttrDesc) (relation : Bytes)
    (attrCnt : Int) (attrs : List AttrDesc) : M (Status × Int × List AttrDesc) := do
  if relation = [] then return (.BADCATPARM, attrCnt, attrs) else
  let (status, descriptor) ← RelCatalog.getInfo fuel relation junk
  if status ≠ .OK then return (status, attrCnt, attrs) else
  let attrCnt := descriptor.attrCnt
  -- `new` refuses a negative count
  if attrCnt < 0 then failure else
  let attrs := List.replicate attrCnt.toNat junkAttr
  let (status, hfs) ← HeapFileScan.new ATTRCATNAME
  if status ≠ .OK then return (status, attrCnt, attrs) else
  let (status, hfs) := hfs.startScan 0 0 .STRING none .EQ
  if status ≠ .OK then return (status, attrCnt, attrs) else
  let (status, _, hfs) ← hfs.scanNext fuel
  let (status, attrs) ← relInfoLoop relation fuel status hfs (attrCnt - 1) attrs
  return (status, attrCnt, attrs)

/-- The loop of `dropRelation` over one catalog: delete the tuples whose first bytes are the
relation name. The results are the status of the last `scanNext`, the one of the last `getRecord`
and the scan. -/
def dropLoop (relation : Bytes) :
    Nat → Status → Status → HeapFileScan → M (Status × Status × HeapFileScan)
  | 0, _, _, _ => failure
  | fuel + 1, status, got, scan => do
    if status ≠ .OK then return (status, got, scan) else
    let (got, rec) ← scan.getRecord
    if got ≠ .OK then return (status, got, scan) else
    let b ← copyRecord scan rec (DATASIZE + SLOTSIZE - rec.data)
    let same ← ofOption (strcmpEq b (relation ++ [0]))
    if same then
      let (_, scan) ← scan.deleteRecord
      let (status, _, scan) ← scan.scanNext fuel
      dropLoop relation fuel status got scan
    else
      let (status, _, scan) ← scan.scanNext fuel
      dropLoop relation fuel status got scan

/-- The part of `dropRelation` for `attrcat`. A failure of `scanNext` is answered with the status
of the last `getRecord`. -/
def dropAttrs (fuel : Nat) (got : Status) (relation : Bytes) : M Status := do
  let (status, scan) ← HeapFileScan.new ATTRCATNAME
  if status ≠ .OK then return status else
  let (status, scan) := scan.startScan 0 0 .STRING none .EQ
  if status ≠ .OK then return status else
  let (status, _, scan) ← scan.scanNext fuel
  let (status, got, scan) ← dropLoop relation fuel status got scan
  if status ≠ .FILEEOF then return got else
  let (status, _) ← scan.endScan
  return status

/-- `AttrCatalog::dropRelation`, with the initial values of its locals `getRecordReturned2` and
`endScanReturned2`. -/
def dropRelation (fuel : Nat) (got ended : Status) (relation : Bytes) : M Status := do
  if relation = [] then return .BADCATPARM else
  let (status, scan) ← HeapFileScan.new RELCATNAME
  if status ≠ .OK then return status else
  let (status, scan) := scan.startScan 0 0 .STRING none .EQ
  if status ≠ .OK then return status else
  let (status, _, scan) ← scan.scanNext fuel
  let (status, got₁, scan) ← dropLoop relation fuel status .OK scan
  if status = .OK then return got₁ else
  if status ≠ .FILEEOF then return status else
  let (status, _) ← scan.endScan
  if status ≠ .OK then return ended else
  dropAttrs fuel got relation

end AttrCatalog

/-! ## Creating and destroying relations -/

namespace RelCatalog

/-- The loop of `createRel` over the declared attributes, with the bytes of its local `ad`. The
status of `addInfo` is ignored. -/
def addAttrs (attrList : List AttrInfo) : Nat → Nat → Int → AttrDesc → M Unit
  | 0, _, _, _ => return ()
  | n + 1, i, ordering, ad => do
    let a ← ofOption attrList[i]?
    let attrName ← ofOption (strcpy ad.attrName a.attrName)
    let relName ← ofOption (strcpy ad.relName a.relName)
    let ad : AttrDesc := ⟨relName, attrName, ordering, a.attrType, a.attrLen⟩
    let _ ← AttrCatalog.addInfo ad
    addAttrs attrList n (i + 1) (toInt (ordering + a.attrLen)) ad

/-- `RelCatalog::createRel`, with the initial bytes of its locals `rd` and `ad`. -/
def createRel (fuel : Nat) (rd : RelDesc) (ad : AttrDesc) (relation : Bytes) (attrCnt : Int)
    (attrList : List AttrInfo) : M Status := do
  if relation = [] ∨ attrCnt < 1 then return .BADCATPARM else
  if relation.length ≥ MAXNAME then return .NAMETOOLONG else
  let (status, rd) ← getInfo fuel relation rd
  if status = .OK then return .RELEXISTS else
  if status ≠ .RELNOTFOUND then return status else
  let relName ← ofOption (strcpy rd.relName relation)
  let status ← addInfo ⟨relName, attrCnt⟩
  if status ≠ .OK then return status else
  addAttrs attrList attrCnt.toNat 0 0 ad
  createHeapFile relation

/-- The locals that `destroyRel` and the functions it calls read without having set them. -/
structure Unset where
  /-- `status` in `removeInfo`. -/
  status : Status
  /-- What `removeInfo` returns when it ends without a `return`. -/
  ret : Status
  /-- `getRecordReturned2` in `dropRelation`. -/
  got : Status
  /-- `endScanReturned2` in `dropRelation`. -/
  ended : Status

/-- `RelCatalog::destroyRel`. -/
def destroyRel (fuel : Nat) (u : Unset) (relation : Bytes) : M Status := do
  if relation = [] ∨ relation = RELCATNAME ∨ relation = ATTRCATNAME then return .BADCATPARM else
  let status ← removeInfo fuel u.status u.ret relation
  if status ≠ .OK then return status else
  let status ← AttrCatalog.dropRelation fuel u.got u.ended relation
  if status ≠ .OK then return status else
  destroyHeapFile relation

end RelCatalog

end Minirel
