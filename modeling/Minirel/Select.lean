import Minirel.Catalog

/-!
# Selection (`select.cpp`)

`QU_Select` prepares a selection and hands it over to `ScanSelect`, which has an empty body: the
model ends with the arguments of that call. Its two loops share the counter `i`, which is never set.
The conversion of a number with a fraction is a parameter.
-/

namespace Minirel

open Comp

/-- `isspace` in the C locale. -/
def isSpace (c : UInt8) : Bool := decide (c = 32 ∨ 9 ≤ c ∧ c ≤ 13)

/-- `atoi`: `strtol`, which stops at the range of a `long`, cut to an `int`. -/
def atoi (str : Bytes) : Int :=
  let (negative, digits) :=
    match str.dropWhile isSpace with
    | 45 :: rest => (true, rest)
    | 43 :: rest => (false, rest)
    | rest => (false, rest)
  let n : Nat := (digits.takeWhile fun c => decide (48 ≤ c ∧ c ≤ 57)).foldl
    (fun n c => 10 * n + (c.toNat - 48)) 0
  toInt (if negative then max (-9223372036854775808) (-n) else min 9223372036854775807 n)

/-- The arguments of a call of `ScanSelect`. -/
structure ScanSelectArgs where
  /-- Name of the result relation. -/
  result : FileName
  /-- Length of the projection list. -/
  projCnt : Int
  /-- The attributes to project on. -/
  projNames : List AttrDesc
  /-- The attribute to select by. -/
  attrDesc : AttrDesc
  /-- The comparison. -/
  op : Operator
  /-- The value to compare with. -/
  filter : CharPtr
  /-- Length of a result record. -/
  reclen : Int

/-- The first loop of `QU_Select`, with the value of the counter and the array of descriptors. The
results are the status that the function returns early, if it does, and the new values. -/
def resolveLoop (fuel : Nat) (projCnt : Int) (projNames : List AttrInfo) (i : Int)
    (theProjections : List AttrDesc) : M (Option Status × Int × List AttrDesc) := do
  if i < projCnt then
    -- an index outside of the arrays
    if i < 0 then failure else
    let p ← ofOption projNames[i.toNat]?
    let d ← ofOption theProjections[i.toNat]?
    let (status, d) ← AttrCatalog.getInfo fuel p.relName p.attrName d
    let theProjections := theProjections.set i.toNat d
    if status ≠ .OK then return (some status, i, theProjections) else
    resolveLoop fuel projCnt projNames (i + 1) theProjections
  else return (none, i, theProjections)
termination_by (projCnt - i).toNat

/-- The second loop of `QU_Select`, from the value of the counter and of `lengthOfAttrs` on. -/
def lengthLoop (projCnt : Int) (theProjections : List AttrDesc) (i lengthOfAttrs : Int) :
    Option Int :=
  if i < projCnt then
    if i < 0 then none else do
    let d ← theProjections[i.toNat]?
    lengthLoop projCnt theProjections (i + 1) (toInt (lengthOfAttrs + d.attrLen))
  else some lengthOfAttrs
termination_by (projCnt - i).toNat

/-- `QU_Select`, with the initial values of its counter, of the descriptors in the array that it
allocates and of its local `attrDesc`. The result is the status that it returns, or its call of
`ScanSelect`. -/
def QU_Select (fuel : Nat) (atof : Bytes → Int) (i : Int) (junk : Nat → AttrDesc)
    (attrDesc : AttrDesc) (result : FileName) (projCnt : Int) (projNames : List AttrInfo)
    (attr : Option AttrInfo) (op : Operator) (attrValue : Bytes) : M (Status ⊕ ScanSelectArgs) := do
  -- `new` refuses a negative size
  if projCnt < 0 then failure else
  let theProjections := (List.range projCnt.toNat).map junk
  let (early, i, theProjections) ← resolveLoop fuel projCnt projNames i theProjections
  match early with
  | some status => return .inl status
  | none =>
    match attr with
    | none => return .inl .ATTRTYPEMISMATCH
    | some attr =>
      let (status, attrDesc) ← AttrCatalog.getInfo fuel attr.relName attr.attrName attrDesc
      if status ≠ .OK then return .inl status else
      let lengthOfAttrs ← ofOption (lengthLoop projCnt theProjections i 0)
      let change : CharPtr :=
        if attrDesc.attrType = Datatype.code .FLOAT then .client (intBytes (atof attrValue))
        else if attrDesc.attrType = Datatype.code .INTEGER then .client (intBytes (atoi attrValue))
        else cStr attrValue
      return .inr ⟨result, projCnt, theProjections, attrDesc, op, change, lengthOfAttrs⟩

end Minirel
