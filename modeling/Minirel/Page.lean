import Minirel.Basic

/-!
# Slotted data pages (`page.h`, `page.cpp`)

A data page is a block of 1024 bytes. Records grow upwards from its start, the slot array grows
downwards from `slot[0]`, and six header fields take up the last 16 bytes. The bytes of `data`
and of the slot array are one stretch of memory here, as in the source, so that a record written
too far would overwrite slot entries; the header fields are separate.

`slot[i]` is read for any `int` index: the array has one declared element and grows backwards, so
`slot[1]` to `slot[4]` are the header fields, and other indices are outside the page. A function
of the page returns `none` where the source would touch memory outside the page.

The 32-bit fields `nextPage` and `curPage` hold page numbers and are unbounded integers here; the
`short` fields wrap.
-/

namespace Minirel

/-- `PAGESIZE - DPFIXED`: the size of the array `data`, which `slot[0]` follows. -/
def DATASIZE : Int := 1004

/-- `sizeof(slot_t)`. -/
def SLOTSIZE : Int := 4

/-- `struct slot_t`: where a record lies on its page. -/
structure Slot where
  /-- Offset of the record in `data`. -/
  offset : Int
  /-- Length of the record, `-1` if the slot is not in use. -/
  length : Int
  deriving DecidableEq, Repr

/-- A record in the memory of the caller: `struct Record` as passed to `insertRecord`. -/
structure Record where
  /-- The memory that `data` points to. -/
  data : Bytes
  /-- The stated length. -/
  length : Int
  deriving DecidableEq, Repr

/-- A record on a page: `struct Record` as filled in by `getRecord`. -/
structure PageRecord where
  /-- Where `data` points, as an offset in the page. -/
  data : Int
  /-- The length of the record. -/
  length : Int
  deriving DecidableEq, Repr

/-- `class Page`. -/
structure Page where
  /-- `data` and, from byte 1004 downwards in steps of four, the slot array. -/
  mem : Nat → UInt8
  /-- Minus the number of slots. -/
  slotCnt : Int
  /-- Offset of the first free byte in `data`. -/
  freePtr : Int
  /-- Number of free bytes. -/
  freeSpace : Int
  /-- Alignment. -/
  dummy : Int
  /-- Number of the next page of the file. -/
  nextPage : Int
  /-- Number of this page. -/
  curPage : Int

namespace Page

/-- A page of zero bytes. -/
def zero : Page := ⟨fun _ => 0, 0, 0, 0, 0, 0, 0⟩

/-! ## Memory of a page -/

/-- The address of `slot[i]` in the page, for `i ≤ 0`. -/
def slotAddr (i : Int) : Nat := (DATASIZE + SLOTSIZE * i).toNat

/-- Indices of slots that lie inside the page below `slot[1]`. -/
def InSlots (i : Int) : Prop := -251 ≤ i ∧ i ≤ 0

instance (i : Int) : Decidable (InSlots i) := inferInstanceAs (Decidable (_ ∧ _))

/-- The slot entry at an index inside the page below `slot[1]`. -/
def slotEntry (p : Page) (i : Int) : Slot :=
  let a := slotAddr i
  ⟨shortOfBytes (p.mem a) (p.mem (a + 1)), shortOfBytes (p.mem (a + 2)) (p.mem (a + 3))⟩

/-- The memory of a page with a slot entry written. -/
def setSlotEntry (p : Page) (i : Int) (s : Slot) : Page :=
  let a := slotAddr i
  { p with
    mem := fun x =>
      if x = a then byteOf s.offset 1
      else if x = a + 1 then byteOf s.offset 256
      else if x = a + 2 then byteOf s.length 1
      else if x = a + 3 then byteOf s.length 256
      else p.mem x }

/-- Read `slot[i]`. -/
def slot? (p : Page) (i : Int) : Option Slot :=
  if InSlots i then some (p.slotEntry i)
  else if i = 1 then some ⟨p.slotCnt, p.freePtr⟩
  else if i = 2 then some ⟨p.freeSpace, p.dummy⟩
  else if i = 3 then some ⟨toShort p.nextPage, toShort (p.nextPage / 65536)⟩
  else if i = 4 then some ⟨toShort p.curPage, toShort (p.curPage / 65536)⟩
  else none

/-- Write `slot[i]`. -/
def setSlot? (p : Page) (i : Int) (s : Slot) : Option Page :=
  if InSlots i then some (p.setSlotEntry i s)
  else if i = 1 then some { p with slotCnt := toShort s.offset, freePtr := toShort s.length }
  else if i = 2 then some { p with freeSpace := toShort s.offset, dummy := toShort s.length }
  else if i = 3 then some { p with nextPage := toInt (s.offset % 65536 + 65536 * s.length) }
  else if i = 4 then some { p with curPage := toInt (s.offset % 65536 + 65536 * s.length) }
  else none

/-- The byte at an offset in `data` and the slot array. -/
def byte? (p : Page) (a : Int) : Option UInt8 :=
  if 0 ≤ a ∧ a < DATASIZE + SLOTSIZE then some (p.mem a.toNat) else none

/-- `memcpy` of `n` bytes from an offset of the page to the caller. -/
def bytes? (p : Page) (a n : Int) : Option Bytes :=
  if 0 ≤ a ∧ 0 ≤ n ∧ a + n ≤ DATASIZE + SLOTSIZE then
    some ((List.range n.toNat).map fun i => p.mem (a.toNat + i))
  else none

/-- `memcpy(&data[a], rec.data, rec.length)`. -/
def store? (p : Page) (a : Int) (rec : Record) : Option Page :=
  if 0 ≤ a ∧ 0 ≤ rec.length ∧ rec.length ≤ rec.data.length ∧
      a + rec.length ≤ DATASIZE + SLOTSIZE then
    some { p with
      mem := fun x =>
        if a.toNat ≤ x ∧ x < a.toNat + rec.length.toNat then rec.data.getD (x - a.toNat) 0
        else p.mem x }
  else none

/-- `bcopy(&data[src], &data[dst], cnt)`, correct for overlapping stretches. -/
def move? (p : Page) (src dst cnt : Int) : Option Page :=
  if 0 ≤ cnt ∧ 0 ≤ src ∧ 0 ≤ dst ∧ src + cnt ≤ DATASIZE + SLOTSIZE ∧
      dst + cnt ≤ DATASIZE + SLOTSIZE then
    some { p with
      mem := fun x =>
        if dst.toNat ≤ x ∧ x < dst.toNat + cnt.toNat then p.mem (x - dst.toNat + src.toNat)
        else p.mem x }
  else none

/-! ## The operations -/

/-- `Page::init`. -/
def init (p : Page) (pageNo : Int) : Page :=
  { p with nextPage := -1, slotCnt := 0, curPage := pageNo, freePtr := 0, freeSpace := DATASIZE }

/-- `Page::setNextPage`. -/
def setNextPage (p : Page) (pageNo : Int) : Page := { p with nextPage := pageNo }

/-- The loop of `insertRecord` looking for an empty slot; the first argument counts the indices
left above `slotCnt`. -/
def emptySlot (p : Page) : Nat → Int → Option Int
  | 0, i => some i
  | n + 1, i => do
    let s ← p.slot? i
    if s.length = -1 then some i else p.emptySlot n (i - 1)

/-- `Page::insertRecord`. -/
def insertRecord (p : Page) (rec : Record) : Option (Status × RID × Page) :=
  let spaceNeeded := rec.length + SLOTSIZE
  if spaceNeeded > p.freeSpace then some (.NOSPACE, NULLRID, p)
  else do
    let i ← p.emptySlot (-p.slotCnt).toNat 0
    -- a new slot takes space for its entry, a reused one does not
    let p₁ :=
      if i = p.slotCnt then
        { p with
          freeSpace := toShort (p.freeSpace - spaceNeeded), slotCnt := toShort (p.slotCnt - 1) }
      else { p with freeSpace := toShort (p.freeSpace - rec.length) }
    let p₂ ← p₁.setSlot? i ⟨p₁.freePtr, toShort rec.length⟩
    let p₃ ← p₂.store? p₂.freePtr rec
    some (.OK, ⟨p₃.curPage, -i⟩, { p₃ with freePtr := toShort (p₃.freePtr + rec.length) })

/-- The loop of `deleteRecord` adjusting the offsets of the records to the right of the deleted
one; the first argument counts the indices left above `slotCnt`. -/
def shiftOffsets (slotNo recLen : Int) : Nat → Int → Page → Option Page
  | 0, _, p => some p
  | n + 1, i, p => do
    let s ← p.slot? i
    let d ← p.slot? slotNo
    if s.length ≥ 0 ∧ s.offset > d.offset then
      let p' ← p.setSlot? i ⟨toShort (s.offset - recLen), s.length⟩
      shiftOffsets slotNo recLen n (i - 1) p'
    else shiftOffsets slotNo recLen n (i - 1) p

/-- The loop of `deleteRecord` dropping free slots from the end of the slot array; the first
argument bounds the number of slots. -/
def trimSlots : Nat → Page → Option Page
  | 0, p => some p
  | n + 1, p =>
    let p' := { p with
      slotCnt := toShort (p.slotCnt + 1), freeSpace := toShort (p.freeSpace + SLOTSIZE) }
    if p'.slotCnt < 0 then do
      let s ← p'.slot? (p'.slotCnt + 1)
      if s.length = -1 then trimSlots n p' else some p'
    else some p'

/-- `Page::deleteRecord`. -/
def deleteRecord (p : Page) (rid : RID) : Option (Status × Page) :=
  let slotNo := -rid.slotNo
  if slotNo > p.slotCnt then do
    let d ← p.slot? slotNo
    if d.length > 0 then
      let recLen := d.length
      let nextOffset := d.offset + recLen
      let p₁ ← p.move? nextOffset d.offset (p.freePtr - nextOffset)
      let p₂ ← p₁.shiftOffsets slotNo recLen (-p₁.slotCnt).toNat 0
      let p₃ := { p₂ with
        freePtr := toShort (p₂.freePtr - recLen), freeSpace := toShort (p₂.freeSpace + recLen) }
      if slotNo = p₃.slotCnt + 1 then do
        let p₄ ← p₃.trimSlots (-p₃.slotCnt).toNat
        some (.OK, p₄)
      else do
        let p₄ ← p₃.setSlot? slotNo ⟨0, -1⟩
        some (.OK, p₄)
    else some (.INVALIDSLOTNO, p)
  else some (.INVALIDSLOTNO, p)

/-- The loop of `firstRecord` and `nextRecord` skipping empty slots; the first argument counts the
indices left above `slotCnt`. -/
def usedSlot (p : Page) : Nat → Int → Option Int
  | 0, i => some i
  | n + 1, i => do
    let s ← p.slot? i
    if s.length = -1 then p.usedSlot n (i - 1) else some i

/-- `Page::firstRecord`. -/
def firstRecord (p : Page) : Option (Status × RID) := do
  let i ← p.usedSlot (-p.slotCnt).toNat 0
  if i = p.slotCnt then some (.NORECORDS, NULLRID)
  else do
    let s ← p.slot? i
    if s.length = -1 then some (.NORECORDS, NULLRID) else some (.OK, ⟨p.curPage, -i⟩)

/-- `Page::nextRecord`. -/
def nextRecord (p : Page) (curRid : RID) : Option (Status × RID) := do
  let i ← p.usedSlot (-curRid.slotNo - 1 - p.slotCnt).toNat (-curRid.slotNo - 1)
  if i ≤ p.slotCnt then some (.ENDOFPAGE, NULLRID)
  else do
    let s ← p.slot? i
    if s.length = -1 then some (.ENDOFPAGE, NULLRID) else some (.OK, ⟨p.curPage, -i⟩)

/-- `Page::getRecord`. -/
def getRecord (p : Page) (rid : RID) : Option (Status × PageRecord) :=
  let slotNo := -rid.slotNo
  if slotNo > p.slotCnt then do
    let s ← p.slot? slotNo
    if s.length > 0 then some (.OK, ⟨s.offset, s.length⟩)
    else some (.INVALIDSLOTNO, ⟨0, 0⟩)
  else some (.INVALIDSLOTNO, ⟨0, 0⟩)

end Page

end Minirel
