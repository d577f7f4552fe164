import Minirel.Join

/-!
# Printing (`print.cpp`, `help.cpp`)

`UT_Print` prints the tuples of a relation in columns, and `RelCatalog::help` the attributes of one.
What is written to the standard output is part of what they return here.

The width of a column is also the precision of a string, so that `printf` reads from an attribute as
many bytes as the column is wide. The text of a `float` with two decimals is a parameter.
-/

namespace Minirel

open Comp

/-! ## Formats -/

/-- The bytes of a text of ASCII characters. -/
def ascii (str : String) : Bytes := str.toList.map fun c => UInt8.ofNat c.toNat

/-- The conversion `%d`. -/
def decimal (n : Int) : Bytes := if n < 0 then 45 :: digits n.natAbs else digits n.natAbs

/-- A text on the left side of a field, as with the flag `-`. -/
def padRight (width : Int) (text : Bytes) : Bytes :=
  text ++ List.replicate (width.toNat - text.length) 32

/-- A text on the right side of a field, as with `setw`. -/
def padLeft (width : Int) (text : Bytes) : Bytes :=
  List.replicate (width.toNat - text.length) 32 ++ text

/-- The conversion `%.*s`: at most `n` characters of a string are read. -/
def textAt (char : Nat → Option UInt8) : Nat → Nat → Option Bytes
  | 0, _ => some []
  | n + 1, i => do
    let c ← char i
    if c = 0 then some [] else
    let rest ← textAt char n (i + 1)
    return c :: rest

/-! ## `print.cpp` -/

/-- The width of a column in `UT_computeWidth`. For another type the entry of the array is never
set. -/
def columnWidth (d : AttrDesc) : Option Int := do
  let name ← cString d.attrName
  match ← Datatype.ofCode d.attrType with
  | .INTEGER => some (min (max (name.length : Int) 5) 7)
  | .FLOAT => some (min (max (name.length : Int) 5) 7)
  | .STRING => some (min (max (name.length : Int) d.attrLen) 20)

/-- `UT_computeWidth`. -/
def UT_computeWidth (attrs : List AttrDesc) : Option (List Int) := attrs.mapM columnWidth

/-- The conversion `%-*.*s` of a string in a record, with the width as the precision. -/
def printString (rec : RecPtr) (offset attrWidth : Int) : M Bytes := do
  let attr ← ofOption (rec.charPtr offset)
  let s ← get
  let text ← ofOption (textAt (s.charAt attr) attrWidth.toNat 0)
  return padRight attrWidth text

/-- The text of an attribute of the record in `UT_printRec`. -/
def printAttr (formatFloat : Bytes → Bytes) (rec : RecPtr) (d : AttrDesc) (attrWidth : Int) :
    M Bytes := do
  match Datatype.ofCode d.attrType with
  | some .INTEGER =>
    let tempi ← rec.read d.attrOffset 4
    return padRight attrWidth (decimal (intOfBytes tempi)) ++ ascii "  "
  | some .FLOAT =>
    let tempf ← rec.read d.attrOffset 4
    return padRight attrWidth (formatFloat tempf) ++ ascii "  "
  | _ =>
    let text ← printString rec d.attrOffset attrWidth
    return text ++ ascii "  "

/-- `UT_printRec`, for the attributes with the widths of their columns. -/
def UT_printRec (formatFloat : Bytes → Bytes) (rec : RecPtr) : List (AttrDesc × Int) → M Bytes
  | [] => return ascii "\n"
  | (d, attrWidth) :: columns => do
    let text ← printAttr formatFloat rec d attrWidth
    let rest ← UT_printRec formatFloat rec columns
    return text ++ rest

/-- The name of an attribute above its column. -/
def printName (d : AttrDesc) (attrWidth : Int) : Option Bytes := do
  let name ← textAt (fun i => d.attrName[i]?) attrWidth.toNat 0
  return padRight attrWidth name ++ ascii " "

/-- The lines of `UT_Print` above the tuples. -/
def printHeading (relName : Bytes) (columns : List (AttrDesc × Int)) : Option Bytes := do
  let names ← columns.mapM fun column => printName column.1 column.2
  let rules := columns.map fun column => List.replicate column.2.toNat 45 ++ ascii "  "
  return ascii "Relation name: " ++ relName ++ ascii "\n\n" ++ names.flatten ++ ascii "\n" ++
    rules.flatten ++ ascii "\n"

/-- The loop of `UT_Print`, with the number of records and what has been printed. The status is the
one that the function returns early, if it does, or that of the last `scanNext`. -/
def printLoop (formatFloat : Bytes → Bytes) (fuel : Nat) (columns : List (AttrDesc × Int)) :
    Nat → HeapFileScan → Int → Bytes → M ((Status ⊕ Status) × HeapFileScan × Int × Bytes)
  | 0, _, _, _ => failure
  | n + 1, hfile, records, out => do
    let (status, _, hfile) ← hfile.scanNext fuel
    if status ≠ .OK then return (.inr status, hfile, records, out) else
    let (status, rec) ← hfile.getRecord
    if status ≠ .OK then return (.inl status, hfile, records, out) else
    let line ← UT_printRec formatFloat ⟨hfile.curPage, rec⟩ columns
    printLoop formatFloat fuel columns n hfile (toInt (records + 1)) (out ++ line)

/-- What locals hold before they are set: those of `UT_Print` or `help`, and those of
`getRelInfo`. -/
structure PrintLocals where
  /-- `rd`. -/
  rd : RelDesc
  /-- `descriptor`. -/
  junk : RelDesc
  /-- The entries of `attrs`. -/
  junkAttr : AttrDesc

/-- `UT_Print`. -/
def UT_Print (formatFloat : Bytes → Bytes) (fuel : Nat) (locals : PrintLocals) (relation : Bytes) :
    M (Status × Bytes) := do
  let relation := if relation = [] then RELCATNAME else relation
  let (status, rd) ← RelCatalog.getInfo fuel relation locals.rd
  if status ≠ .OK then return (status, []) else
  let relName ← ofOption (cString rd.relName)
  let (status, _, attrs) ← AttrCatalog.getRelInfo fuel locals.junk locals.junkAttr relName 0 []
  if status ≠ .OK then return (status, []) else
  let attrWidth ← ofOption (UT_computeWidth attrs)
  let (status, hfile) ← HeapFileScan.new relName
  if status ≠ .OK then return (status, []) else
  let columns := attrs.zip attrWidth
  let heading ← ofOption (printHeading relName columns)
  let (status, hfile) := hfile.startScan 0 0 .INTEGER none .EQ
  if status ≠ .OK then return (status, heading) else
  let (status, hfile, records, out) ← printLoop formatFloat fuel columns fuel hfile 0 heading
  match status with
  | .inl status => return (status, out)
  | .inr status =>
    if status ≠ .FILEEOF then return (status, out) else
    let out := out ++ ascii "\nNumber of records: " ++ decimal records ++ ascii "\n"
    let (status, hfile) ← hfile.endScan
    if status ≠ .OK then return (status, out) else
    hfile.delete
    return (.OK, out)

/-! ## `help.cpp` -/

/-- The line of an attribute in `help`. -/
def helpLine (d : AttrDesc) : Option Bytes := do
  let attrName ← cString d.attrName
  let convertType :=
    if d.attrType = 1 then ascii "int" else if d.attrType = 0 then ascii "string" else ascii "float"
  return padLeft 8 attrName ++ padLeft 20 (decimal d.attrLen) ++ padLeft 18 convertType ++
    padLeft 15 (decimal d.attrOffset) ++ ascii "\n"

/-- `RelCatalog::help`. -/
def RelCatalog.help (formatFloat : Bytes → Bytes) (fuel : Nat) (locals : PrintLocals)
    (relation : Bytes) :
    M (Status × Bytes) := do
  if relation = [] then UT_Print formatFloat fuel locals RELCATNAME else
  let (status, rd) ← RelCatalog.getInfo fuel relation locals.rd
  if status ≠ .OK then return (status, []) else
  let (status, _, attrs) ← AttrCatalog.getRelInfo fuel locals.junk locals.junkAttr relation 0 []
  if status ≠ .OK then return (status, []) else
  let relName ← ofOption (cString rd.relName)
  let lines ← ofOption (attrs.mapM helpLine)
  return (.OK, ascii "All Relations Currently in Catalog: \n\n" ++
    ascii "Name of Relation: " ++ relName ++ ascii " | Number of Attributes: " ++
    decimal rd.attrCnt ++
    ascii " \n\n" ++
    ascii "Attribute Name | Attribute Length | Attribute Type | Attribute Offset \n" ++
    ascii "_______________|__________________|________________|_________________\n" ++
    lines.flatten)

end Minirel
