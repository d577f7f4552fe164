import Minirel.Sort

/-!
# Partitions (`partition.h`, `partition.cpp`)

`class Partition` distributes the records of a heap file over `P` heap files by a hash function of
the caller. As in `Sort.lean` the names are modelled without the NUL that `ends` appends.
-/

namespace Minirel

open Comp

/-- `class Partition`. -/
structure Partition where
  /-- Number of partitions. -/
  P : Int
  /-- Names of the partition files; there are none before they have been opened. -/
  partName : List FileName

namespace Partition

/-- The name of partition number `p`: the string literals are `"/tmp/"` and `"."`. -/
def fileName (base : FileName) (p : Nat) : FileName :=
  [47, 116, 109, 112, 47] ++ base ++ [46] ++ digits p

/-- The loop that opens the partition files. -/
def openParts : List FileName → M (Status × List InsertFileScan)
  | [] => return (.OK, [])
  | name :: names => do
    let (status, part) ← InsertFileScan.new name
    if status ≠ .OK then return (status, [part]) else
    let (status, parts) ← openParts names
    return (status, part :: parts)

/-- The loop that distributes the records. The second number bounds the rounds. -/
def distribute (fuel : Nat) (P : Int) (hashfcn : Bytes → Int → Int) :
    Nat → HeapFileScan → List InsertFileScan → M (Status × HeapFileScan × List InsertFileScan)
  | 0, _, _ => failure
  | n + 1, rel, part => do
    let (status, _, rel) ← rel.scanNext fuel
    if status ≠ .OK then return (status, rel, part) else
    let (status, rec) ← rel.getRecord
    if status ≠ .OK then return (status, rel, part) else
    let data ← RecPtr.read ⟨rel.curPage, rec⟩ 0 rec.length
    let p := hashfcn data P
    -- an index outside the array
    if p < 0 then failure else
    let out ← ofOption part[p.toNat]?
    let (status, _, out) ← out.insertRecord ⟨data, rec.length⟩
    let part := part.set p.toNat out
    if status ≠ .OK then return (status, rel, part) else distribute fuel P hashfcn n rel part

/-- The constructor. -/
def new (fuel : Nat) (rel : HeapFileScan) (base : FileName) (P : Int)
    (hashfcn : Bytes → Int → Int) : M (Status × Partition × HeapFileScan) := do
  -- `new` refuses a negative size
  if P < 0 then failure else
  let names := (List.range P.toNat).map (fileName base)
  let (status, part) ← openParts names
  if status ≠ .OK then return (status, ⟨P, []⟩, rel) else
  let (status, rel) := rel.startScan 0 4 .INTEGER none .EQ
  if status ≠ .OK then return (status, ⟨P, names⟩, rel) else
  let (status, rel, part) ← distribute fuel P hashfcn fuel rel part
  if status ≠ .FILEEOF then return (status, ⟨P, names⟩, rel) else
  part.forM InsertFileScan.delete
  let (status, rel) ← rel.endScan
  return (status, ⟨P, names⟩, rel)

/-- The destructor. -/
def delete (part : Partition) : M Unit :=
  part.partName.forM fun name => do
    let _ ← DB.destroyFile name
    return ()

end Partition

end Minirel
