import Minirel.Catalog

/-!
# The hash table of a hash join (`joinHT.h`, `joinHT.cpp`)

`class joinHashTbl` keeps pairs of a join attribute and a record identifier, several for one
attribute value if need be. The tuples and the attribute values it is given are pointers into
memory of the caller: the bytes from the pointer to the end of that memory. A function has no
outcome where the source reads or writes past the end of memory or leaves an array.
-/

namespace Minirel

/-- `union JAttrType`, with the member that has been written to. -/
inductive JAttrType
  | iValue (v : Int)
  | fValue (b : Bytes)
  | sValue (b : Bytes)
  | unset
  deriving DecidableEq, Repr

/-- `struct joinhashBucket`, without the link to the next one. -/
structure joinhashBucket where
  /-- The join attribute. -/
  attrValue : JAttrType
  /-- The record it belongs to. -/
  rid : RID
  deriving DecidableEq, Repr

/-- `struct HTentry`. -/
structure HTentry where
  /-- Number of buckets on the chain. -/
  bucketCnt : Nat
  /-- The chain, from its first bucket on. -/
  chain : List joinhashBucket
  deriving DecidableEq, Repr

/-- `class joinHashTbl`. -/
structure joinHashTbl where
  /-- The attribute joined on. -/
  joinAttr : AttrDesc
  /-- Size of the table. -/
  HTSIZE : Int
  /-- The table. -/
  ht : List HTentry
  deriving DecidableEq, Repr

namespace joinHashTbl

/-- The constructor; an array of negative size cannot be allocated. -/
def new (size : Int) (attr : AttrDesc) : Option joinHashTbl :=
  if size < 0 then none else some ⟨attr, size, List.replicate size.toNat ⟨0, []⟩⟩

/-- The loop of `hash` over a string: `while (*attrPtr++) value = 31*value + (int)*attrPtr`. It
leaves out the first character and takes in the terminating NUL. -/
def hashString : Bytes → Int → Option Int
  | [], _ => none
  | c :: attrPtr, value =>
    if c = 0 then some value
    else match attrPtr with
      | [] => none
      | d :: _ => hashString attrPtr (toInt (31 * value + OpenFileHashTbl.charValue d))

/-- The `float` stored in the first four bytes of a list. -/
def floatOfBytes (b : Bytes) : Float32 :=
  Float32.ofBits (UInt32.ofNat (intOfBytes b % 4294967296).toNat)

/-- The conversion of a `float` to `int`, undefined out of range. -/
def intOfFloat (x : Float32) : Option Int :=
  if -2147483648 ≤ x ∧ x < 2147483648 then some x.toInt32.toInt else none

/-- The `switch` of `hash` on the type of the attribute. -/
def hashValue (HTSIZE : Int) (attrPtr : Bytes) (attrType : Int) : Option Int :=
  if attrType = Datatype.INTEGER.code then
    if attrPtr.length < 4 then none
    else some (toInt (toInt (intOfBytes attrPtr * HTSIZE) * 31))
  else if attrType = Datatype.FLOAT.code then
    if attrPtr.length < 4 then none
    else intOfFloat (floatOfBytes attrPtr * Float32.ofInt HTSIZE * 31)
  else if attrType = Datatype.STRING.code then hashString attrPtr 0
  else some 0

/-- `joinHashTbl::hash`; a remainder by zero is undefined. -/
def hash (HTSIZE : Int) (attrPtr : Bytes) (attrType : Int) : Option Int := do
  let value ← hashValue HTSIZE attrPtr attrType
  if HTSIZE = 0 then none else some (value.tmod HTSIZE).natAbs

/-- `ht[index]`, undefined outside the table. -/
def entry (t : joinHashTbl) (index : Int) : Option HTentry :=
  if index < 0 then none else t.ht[index.toNat]?

/-- The pointer to the join attribute of a tuple; undefined outside the memory of the tuple. -/
def joinAttrPtr (t : joinHashTbl) (tuple : Bytes) : Option Bytes :=
  if t.joinAttr.attrOffset < 0 ∨ tuple.length < t.joinAttr.attrOffset then none
  else some (tuple.drop t.joinAttr.attrOffset.toNat)

/-- The join attribute as `insert` stores it. -/
def storeValue (attr : AttrDesc) (attrPtr : Bytes) : Option JAttrType :=
  if attr.attrType = Datatype.INTEGER.code then
    if attrPtr.length < 4 then none else some (.iValue (intOfBytes attrPtr))
  else if attr.attrType = Datatype.FLOAT.code then
    if attrPtr.length < 4 then none else some (.fValue (attrPtr.take 4))
  else if attr.attrType = Datatype.STRING.code then
    if attr.attrLen < 0 ∨ attrPtr.length < attr.attrLen then none
    else some (.sValue (attrPtr.take attr.attrLen.toNat))
  else some .unset

/-- `joinHashTbl::insert`. -/
def insert (t : joinHashTbl) (newRid : RID) (tuple : Bytes) : Option (Status × joinHashTbl) := do
  let attrPtr ← t.joinAttrPtr tuple
  let index ← hash t.HTSIZE attrPtr t.joinAttr.attrType
  let e ← t.entry index
  let attrValue ← storeValue t.joinAttr attrPtr
  let e' : HTentry := ⟨e.bucketCnt + 1, ⟨attrValue, newRid⟩ :: e.chain⟩
  some (.OK, { t with ht := t.ht.set index.toNat e' })

/-- The comparison of `lookup` between the attribute in a bucket and the one looked up. -/
def matches? (attr : AttrDesc) (value : JAttrType) (attrPtr : Bytes) : Option Bool :=
  if attr.attrType = Datatype.INTEGER.code then
    match value with
    | .iValue v => if attrPtr.length < 4 then none else some (v = intOfBytes attrPtr)
    | _ => none
  else if attr.attrType = Datatype.FLOAT.code then
    match value with
    | .fValue b =>
      if attrPtr.length < 4 then none else some (floatOfBytes b == floatOfBytes attrPtr)
    | _ => none
  else if attr.attrType = Datatype.STRING.code then
    match value with
    | .sValue b => do
      let r ← strncmp (fun i => b[i]?) (fun i => attrPtr[i]?) attr.attrLen.toNat 0
      some (r = .eq)
    | _ => none
  else some false

/-- The loop of `lookup` over a chain; `ridCnt` and the array `outRids` are the ones so far. -/
def lookupChain (attr : AttrDesc) (attrPtr : Bytes) :
    List joinhashBucket → Nat → List (Option RID) → Option (Nat × List (Option RID))
  | [], ridCnt, outRids => some (ridCnt, outRids)
  | b :: chain, ridCnt, outRids => do
    let found ← matches? attr b.attrValue attrPtr
    if found then
      if ridCnt < outRids.length then
        lookupChain attr attrPtr chain (ridCnt + 1) (outRids.set ridCnt (some b.rid))
      else none
    else lookupChain attr attrPtr chain ridCnt outRids

/-- `joinHashTbl::lookup`: the status, `ridCnt` and the array `outRids`, whose elements are
`none` as long as they have not been set. -/
def lookup (t : joinHashTbl) (innerJoinAttrPtr : Bytes) :
    Option (Status × Nat × List (Option RID)) := do
  let index ← hash t.HTSIZE innerJoinAttrPtr t.joinAttr.attrType
  let e ← t.entry index
  let (ridCnt, outRids) ← lookupChain t.joinAttr innerJoinAttrPtr e.chain 0
    (List.replicate e.bucketCnt none)
  some (.OK, ridCnt, outRids)

end joinHashTbl

end Minirel
