import Minirel.Select
import Minirel.Sort

/-!
# Joins (`query.h`, `join.cpp`)

`QU_NL_Join` joins two relations by nested scans and appends what it finds to the heap file of the
result. `QU_SM_Join` and `QU_Hash_Join` compare the types and return. The number that a join prints
is part of what it returns here.

The objects of `QU_NL_Join` are destroyed in the reverse order wherever it returns. A scan whose
constructor has failed has members that were never set, and there is no outcome when it is
destroyed; a failed `ASSERT` ends the process.
-/

namespace Minirel

open Comp

/-- `enum JoinType`. -/
inductive JoinType
  | NLJoin | SMJoin | HashJoin
  deriving DecidableEq, Repr

/-- `myop`: the operator with its operands exchanged. -/
def Operator.mirror : Operator → Operator
  | .EQ => .EQ
  | .GT => .LT
  | .GTE => .LTE
  | .LT => .GT
  | .LTE => .GTE
  | .NE => .NE

/-- An `int` as a value of `enum Datatype`. -/
def Datatype.ofCode (code : Int) : Option Datatype :=
  if code = 0 then some .STRING else if code = 1 then some .INTEGER
  else if code = 2 then some .FLOAT else none

/-- `memcpy` of `src` to an offset of the memory `dst`; `none` if it does not fit. -/
def memcpyAt (dst : Bytes) (offset : Int) (src : Bytes) : Option Bytes :=
  if 0 ≤ offset ∧ offset.toNat + src.length ≤ dst.length then
    some (dst.take offset.toNat ++ src ++ dst.drop (offset.toNat + src.length))
  else none

/-- The address of a byte of a record. -/
def RecPtr.charPtr (r : RecPtr) (offset : Int) : Option CharPtr :=
  match r.page with
  | .frame n => some (.pool n (r.record.data + offset))
  | _ => none

/-! ## `QU_NL_Join` -/

/-- What `QU_NL_Join` has found in the catalog. -/
structure JoinPlan where
  /-- The attributes of a result record. -/
  attrDescArray : List AttrDesc
  /-- The join attribute of the outer relation. -/
  attrDesc1 : AttrDesc
  /-- The join attribute of the inner relation. -/
  attrDesc2 : AttrDesc
  /-- Length of a result record. -/
  reclen : Int
  /-- The comparison of the inner scan. -/
  myop : Operator

/-- The variables of `QU_NL_Join` that change with each result record. -/
structure JoinOutput where
  /-- The file of the result. -/
  resultRel : InsertFileScan
  /-- The memory of a result record. -/
  outputData : Bytes
  /-- Number of result records. -/
  resultTupCnt : Int

/-- The loop that copies the attributes of a pair into the result record, from `outputOffset` on. -/
def copyAttrs (relName : Bytes) (outerRec innerRec : RecPtr) : List AttrDesc → Int → Bytes → M Bytes
  | [], _, outputData => return outputData
  | d :: ds, outputOffset, outputData => do
    let ofOuter ← ofOption (strcmpEq d.relName relName)
    let attr ← (if ofOuter then outerRec else innerRec).read d.attrOffset d.attrLen
    let outputData ← ofOption (memcpyAt outputData outputOffset attr)
    copyAttrs relName outerRec innerRec ds (toInt (outputOffset + d.attrLen)) outputData

/-- What is done with a pair that matches. -/
def joinPair (plan : JoinPlan) (outerRec innerRec : RecPtr) (out : JoinOutput) : M JoinOutput := do
  let outputData ←
    copyAttrs plan.attrDesc1.relName outerRec innerRec plan.attrDescArray 0 out.outputData
  let (status, _, resultRel) ← out.resultRel.insertRecord ⟨outputData, plan.reclen⟩
  if status ≠ .OK then failure else
  return ⟨resultRel, outputData, toInt (out.resultTupCnt + 1)⟩

/-- The scan of the inner relation for one record of the outer relation. -/
def innerLoop (fuel : Nat) (plan : JoinPlan) (outerRec : RecPtr) :
    Nat → HeapFileScan → JoinOutput → M (HeapFileScan × JoinOutput)
  | 0, _, _ => failure
  | n + 1, innerScan, out => do
    let (status, _, innerScan) ← innerScan.scanNext fuel
    if status ≠ .OK then return (innerScan, out) else
    let (status, innerRec) ← innerScan.getRecord
    if status ≠ .OK then failure else
    let out ← joinPair plan outerRec ⟨innerScan.curPage, innerRec⟩ out
    innerLoop fuel plan outerRec n innerScan out

/-- What is done with one record of the outer relation. The status is the one that the function
returns, if it does. -/
def joinOuter (fuel : Nat) (plan : JoinPlan) (outerRec : RecPtr) (out : JoinOutput) :
    M (Option Status × JoinOutput) := do
  let relName ← ofOption (cString plan.attrDesc2.relName)
  let (status, innerScan) ← HeapFileScan.new relName
  if status ≠ .OK then failure else
  let filter ← ofOption (outerRec.charPtr plan.attrDesc1.attrOffset)
  -- `startScan` does not know other values of the enumeration
  let (status, innerScan) :=
    match Datatype.ofCode plan.attrDesc2.attrType with
    | some type => innerScan.startScan plan.attrDesc2.attrOffset plan.attrDesc2.attrLen type
        (some filter) plan.myop
    | none => (.BADSCANPARM, innerScan)
  if status ≠ .OK then
    innerScan.delete
    return (some status, out)
  else
    let (innerScan, out) ← innerLoop fuel plan outerRec fuel innerScan out
    innerScan.delete
    return (none, out)

/-- The scan of the outer relation. -/
def outerLoop (fuel : Nat) (plan : JoinPlan) :
    Nat → HeapFileScan → JoinOutput → M (Option Status × HeapFileScan × JoinOutput)
  | 0, _, _ => failure
  | n + 1, outerScan, out => do
    let (status, _, outerScan) ← outerScan.scanNext fuel
    if status ≠ .OK then return (none, outerScan, out) else
    let (status, outerRec) ← outerScan.getRecord
    if status ≠ .OK then failure else
    let (early, out) ← joinOuter fuel plan ⟨outerScan.curPage, outerRec⟩ out
    match early with
    | some status => return (some status, outerScan, out)
    | none => outerLoop fuel plan n outerScan out

/-- The part of `QU_NL_Join` after the attributes have been looked up. `junkData` are the initial
bytes of `outputData`. -/
def joinScans (fuel : Nat) (junkData : Nat → UInt8) (plan : JoinPlan) (result : FileName) :
    M (Status × Option Int) := do
  let (status, resultRel) ← InsertFileScan.new result
  if status ≠ .OK then
    resultRel.delete
    return (status, none)
  else
  -- no array has a negative length
  if plan.reclen < 0 then failure else
  let outputData := (List.range plan.reclen.toNat).map junkData
  let relName ← ofOption (cString plan.attrDesc1.relName)
  let (status, outerScan) ← HeapFileScan.new relName
  if status ≠ .OK then failure else
  let (status, outerScan) := outerScan.startScan 0 0 .STRING none .EQ
  if status ≠ .OK then
    outerScan.delete
    resultRel.delete
    return (status, none)
  else
  let (early, outerScan, out) ← outerLoop fuel plan fuel outerScan ⟨resultRel, outputData, 0⟩
  outerScan.delete
  out.resultRel.delete
  match early with
  | some status => return (status, none)
  | none => return (.OK, some out.resultTupCnt)

/-- The locals of `QU_NL_Join` before they are set. -/
structure JoinLocals where
  /-- `attrDescArray`. -/
  attrDescArray : Nat → AttrDesc
  /-- `attrDesc1`. -/
  attrDesc1 : AttrDesc
  /-- `attrDesc2`. -/
  attrDesc2 : AttrDesc
  /-- `outputData`. -/
  outputData : Nat → UInt8

/-- `QU_NL_Join`, with what it prints. -/
def QU_NL_Join (fuel : Nat) (junk : JoinLocals) (result : FileName) (projCnt : Int)
    (projNames : List AttrInfo) (attr1 : AttrInfo) (op : Operator) (attr2 : AttrInfo) :
    M (Status × Option Int) := do
  if attr1.attrType ≠ attr2.attrType ∨ attr1.attrLen ≠ attr2.attrLen then
    return (.ATTRTYPEMISMATCH, none)
  else
  if projCnt < 0 then failure else
  let (early, _, attrDescArray) ←
    resolveLoop fuel projCnt projNames 0 ((List.range projCnt.toNat).map junk.attrDescArray)
  match early with
  | some status => return (status, none)
  | none =>
    let (status, attrDesc1) ← AttrCatalog.getInfo fuel attr1.relName attr1.attrName junk.attrDesc1
    if status ≠ .OK then return (status, none) else
    let (status, attrDesc2) ← AttrCatalog.getInfo fuel attr2.relName attr2.attrName junk.attrDesc2
    if status ≠ .OK then return (status, none) else
    let reclen ← ofOption (lengthLoop projCnt attrDescArray 0 0)
    joinScans fuel junk.outputData ⟨attrDescArray, attrDesc1, attrDesc2, reclen, op.mirror⟩ result

/-! ## The other methods -/

/-- `QU_SM_Join`. -/
def QU_SM_Join (_result : FileName) (_projCnt : Int) (_projNames : List AttrInfo) (attr1 : AttrInfo)
    (_op : Operator) (attr2 : AttrInfo) : M (Status × Option Int) := do
  if attr1.attrType ≠ attr2.attrType ∨ attr1.attrLen ≠ attr2.attrLen then
    return (.ATTRTYPEMISMATCH, none)
  else return (.OK, some 0)

/-- `QU_Hash_Join`. -/
def QU_Hash_Join (_result : FileName) (_projCnt : Int) (_projNames : List AttrInfo)
    (attr1 : AttrInfo) (_op : Operator) (attr2 : AttrInfo) : M (Status × Option Int) := do
  if attr1.attrType ≠ attr2.attrType ∨ attr1.attrLen ≠ attr2.attrLen then
    return (.ATTRTYPEMISMATCH, none)
  else return (.OK, some 0)

/-- `QU_Join`, with the method that `main` has chosen. -/
def QU_Join (JoinMethod : JoinType) (fuel : Nat) (junk : JoinLocals) (result : FileName)
    (projCnt : Int) (projNames : List AttrInfo) (attr1 : AttrInfo) (op : Operator)
    (attr2 : AttrInfo) :
    M (Status × Option Int) :=
  if JoinMethod = .NLJoin ∨ (JoinMethod = .HashJoin ∧ op ≠ .EQ) then
    QU_NL_Join fuel junk result projCnt projNames attr1 op attr2
  else if JoinMethod = .SMJoin then QU_SM_Join result projCnt projNames attr1 op attr2
  else QU_Hash_Join result projCnt projNames attr1 op attr2

end Minirel
