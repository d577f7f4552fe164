import Minirel.Page
import Mathlib.Logic.Function.Basic

/-!
# A slotted page is a finite map from slots to records

The operations of `class Page` keep the layout of a page well formed and act on it as on a map
from slot numbers to byte strings: an insertion takes the lowest free slot, a deletion with its
compaction of the data area neither moves nor alters any other record as far as a reader can tell.

## Main definitions

* `Page.WF`: the records of a page and its slot array lie within the page and do not overlap.
* `Page.rec?`: the bytes of the record in a slot.

## Main results

* `Page.insertRecord_spec`, `Page.deleteRecord_spec`, `Page.deleteRecord_invalid`
* `Page.getRecord_spec`, `Page.getRecord_invalid`
* `Page.firstRecord_spec`, `Page.nextRecord_spec`
-/

namespace Minirel

namespace Record

/-- The stated length is not negative and the memory of the record is that long. -/
def Readable (rec : Record) : Prop := 0 ≤ rec.length ∧ rec.length ≤ rec.data.length

/-- The bytes that the record consists of. -/
def bytes (rec : Record) : Bytes := rec.data.take rec.length.toNat

theorem length_bytes {rec : Record} (h : rec.Readable) : rec.bytes.length = rec.length.toNat := by
  unfold Readable at h
  unfold bytes
  rw [List.length_take]
  omega

theorem bytes_ne_nil {rec : Record} (h : rec.Readable) (hpos : 1 ≤ rec.length) :
    rec.bytes ≠ [] := by
  rw [← List.length_pos_iff, length_bytes h]
  omega

end Record

namespace Page

/-- The number of entries of the slot array. -/
def slots (p : Page) : Nat := (-p.slotCnt).toNat

/-- The entry of slot number `j`. -/
def entry (p : Page) (j : Nat) : Slot := p.slotEntry (-j)

/-- Slot number `j` holds a record. -/
def InUse (p : Page) (j : Nat) : Prop := j < p.slots ∧ (p.entry j).length ≠ -1

instance (p : Page) (j : Nat) : Decidable (p.InUse j) := inferInstanceAs (Decidable (_ ∧ _))

/-- Stretch of the data area as bytes. -/
def span (p : Page) (a n : Int) : Bytes := (List.range n.toNat).map fun i => p.mem (a.toNat + i)

/-- The record in slot number `j`. -/
def rec? (p : Page) (j : Nat) : Option Bytes :=
  if p.InUse j then some (p.span (p.entry j).offset (p.entry j).length) else none

/-- The layout of a page: the records lie below `freePtr` and do not overlap, the slot array lies
above the free space. -/
structure WF (p : Page) : Prop where
  slotCnt_nonpos : p.slotCnt ≤ 0
  freePtr_nonneg : 0 ≤ p.freePtr
  freeSpace_nonneg : 0 ≤ p.freeSpace
  space : p.freeSpace + p.freePtr + 4 * p.slots = 1004
  range : ∀ j, p.InUse j → 0 ≤ (p.entry j).length ∧ 0 ≤ (p.entry j).offset ∧
    (p.entry j).offset + (p.entry j).length ≤ p.freePtr
  disjoint : ∀ i j, p.InUse i → p.InUse j → i ≠ j →
    (p.entry i).offset + (p.entry i).length ≤ (p.entry j).offset ∨
      (p.entry j).offset + (p.entry j).length ≤ (p.entry i).offset

namespace WF

variable {p : Page}

theorem slotCnt_eq (hp : p.WF) : p.slotCnt = -p.slots := by
  have := hp.slotCnt_nonpos
  unfold slots
  omega

theorem slots_le (hp : p.WF) : p.slots ≤ 251 := by
  have := hp.space
  have := hp.freePtr_nonneg
  have := hp.freeSpace_nonneg
  omega

end WF

/-- A freshly initialized page is well formed. -/
theorem wf_init (p : Page) (pageNo : Int) : (p.init pageNo).WF where
  slotCnt_nonpos := le_refl 0
  freePtr_nonneg := le_refl 0
  freeSpace_nonneg := by simp [init, DATASIZE]
  space := by simp [init, DATASIZE, slots]
  range := by
    intro j hj
    simp [InUse, init, slots] at hj
  disjoint := by
    intro i j hi
    simp [InUse, init, slots] at hi

/-- A freshly initialized page holds no record. -/
@[simp]
theorem rec?_init (p : Page) (pageNo : Int) (j : Nat) : (p.init pageNo).rec? j = none := by
  simp [rec?, InUse, init, slots]

theorem wf_setNextPage {p : Page} (hp : p.WF) (q : Int) : (p.setNextPage q).WF :=
  ⟨hp.slotCnt_nonpos, hp.freePtr_nonneg, hp.freeSpace_nonneg, hp.space, hp.range, hp.disjoint⟩

@[simp]
theorem rec?_setNextPage (p : Page) (q : Int) : (p.setNextPage q).rec? = p.rec? := rfl

@[simp]
theorem nextPage_setNextPage (p : Page) (q : Int) : (p.setNextPage q).nextPage = q := rfl

@[simp]
theorem curPage_setNextPage (p : Page) (q : Int) : (p.setNextPage q).curPage = p.curPage := rfl

@[simp]
theorem curPage_init (p : Page) (q : Int) : (p.init q).curPage = q := rfl

/-! ## Slot entries and memory -/

theorem slotAddr_neg {j : Nat} (hj : j ≤ 251) : slotAddr (-j) = 1004 - 4 * j := by
  unfold slotAddr DATASIZE SLOTSIZE
  omega

theorem slot?_neg (p : Page) {j : Nat} (hj : j ≤ 251) : p.slot? (-j) = some (p.entry j) := by
  unfold slot?
  rw [if_pos (show InSlots (-j) from ⟨by omega, by omega⟩)]
  rfl

theorem setSlot?_neg (p : Page) {j : Nat} (hj : j ≤ 251) (s : Slot) :
    p.setSlot? (-j) s = some (p.setSlotEntry (-j) s) := by
  unfold setSlot?
  rw [if_pos (show InSlots (-j) from ⟨by omega, by omega⟩)]

@[simp]
theorem freePtr_setSlotEntry (p : Page) (i : Int) (s : Slot) :
    (p.setSlotEntry i s).freePtr = p.freePtr := rfl

/-- Writing a slot entry leaves the memory below it alone. -/
theorem mem_setSlotEntry_of_lt (p : Page) {j : Nat} (hj : j ≤ 251) (s : Slot) {x : Nat}
    (hx : x < 1004 - 4 * j) : (p.setSlotEntry (-j) s).mem x = p.mem x := by
  simp only [setSlotEntry, slotAddr_neg hj]
  rw [if_neg (by omega), if_neg (by omega), if_neg (by omega), if_neg (by omega)]

/-- A slot entry is read back as written. -/
theorem entry_setSlotEntry_self (p : Page) (j : Nat) (s : Slot) :
    (p.setSlotEntry (-j) s).entry j = ⟨toShort s.offset, toShort s.length⟩ := by
  simp [entry, slotEntry, setSlotEntry]

/-- Writing a slot entry leaves the other entries alone. -/
theorem entry_setSlotEntry_of_ne (p : Page) {i j : Nat} (hi : i ≤ 251) (hj : j ≤ 251)
    (hij : j ≠ i) (s : Slot) : (p.setSlotEntry (-i) s).entry j = p.entry j := by
  have key : ∀ k < 4, (p.setSlotEntry (-i) s).mem (1004 - 4 * j + k) = p.mem
    (1004 - 4 * j + k) := by
    intro k hk
    simp only [setSlotEntry, slotAddr_neg hi]
    rw [if_neg (by omega), if_neg (by omega), if_neg (by omega), if_neg (by omega)]
  have h₀ := key 0 (by omega)
  have h₁ := key 1 (by omega)
  have h₂ := key 2 (by omega)
  have h₃ := key 3 (by omega)
  rw [Nat.add_zero] at h₀
  simp only [entry, slotEntry, slotAddr_neg hj, h₀, h₁, h₂, h₃]

/-- Entries are determined by the memory of the slot array. -/
theorem entry_congr {p p' : Page} {j : Nat} (hj : j ≤ 251)
    (h : ∀ x, 1004 - 4 * j ≤ x → p'.mem x = p.mem x) : p'.entry j = p.entry j := by
  simp only [entry, slotEntry, slotAddr_neg hj]
  rw [h _ (by omega), h _ (by omega), h _ (by omega), h _ (by omega)]

theorem length_span (p : Page) (a n : Int) : (p.span a n).length = n.toNat := by
  simp [span]

/-- Equal memory gives equal stretches, also at different addresses. -/
theorem span_congr {p p' : Page} {a a' n : Int}
    (h : ∀ i < n.toNat, p'.mem (a'.toNat + i) = p.mem (a.toNat + i)) :
    p'.span a' n = p.span a n := by
  unfold span
  exact List.map_congr_left fun i hi => h i (List.mem_range.mp hi)

/-- The stretch of a page that is read as bytes. -/
theorem bytes?_eq_span (p : Page) {a n : Int} (ha : 0 ≤ a) (hn : 0 ≤ n) (hle : a + n ≤ 1004) :
    p.bytes? a n = some (p.span a n) := by
  unfold bytes? DATASIZE SLOTSIZE
  rw [if_pos ⟨ha, hn, by omega⟩]
  rfl

/-! ## Looking for slots -/

private theorem emptySlot_succ (p : Page) (n : Nat) (i : Int) :
    p.emptySlot (n + 1) i =
      (p.slot? i).bind fun s => if s.length = -1 then some i else p.emptySlot n (i - 1) := rfl

private theorem usedSlot_succ (p : Page) (n : Nat) (i : Int) :
    p.usedSlot (n + 1) i =
      (p.slot? i).bind fun s => if s.length = -1 then p.usedSlot n (i - 1) else some i := rfl

/-- The loop of `insertRecord` stops at the first free slot from `k` on, or after the last slot. -/
theorem emptySlot_spec {p : Page} (hp : p.slots ≤ 251) (n k : Nat) (hk : k + n = p.slots) :
    ∃ j : Nat, p.emptySlot n (-k) = some (-(j : Int)) ∧ k ≤ j ∧ j ≤ p.slots ∧
      (∀ i, k ≤ i → i < j → (p.entry i).length ≠ -1) ∧
      (j < p.slots → (p.entry j).length = -1) := by
  induction n generalizing k with
  | zero =>
    exact ⟨k, rfl, le_refl k, by omega, fun i h₁ h₂ => by omega, fun h => by omega⟩
  | succ n ih =>
    by_cases hfree : (p.entry k).length = -1
    · refine ⟨k, ?_, le_refl k, by omega, fun i h₁ h₂ => by omega, fun _ => hfree⟩
      rw [emptySlot_succ, slot?_neg p (by omega), Option.bind_some, if_pos hfree]
    · obtain ⟨j, hj, hkj, hjs, hall, hend⟩ := ih (k + 1) (by omega)
      refine ⟨j, ?_, by omega, hjs, fun i h₁ h₂ => ?_, hend⟩
      · have hidx : (-(k : Int) - 1) = -((k + 1 : Nat) : Int) := by omega
        rw [emptySlot_succ, slot?_neg p (by omega), Option.bind_some, if_neg hfree, hidx, hj]
      · rcases Nat.eq_or_lt_of_le h₁ with rfl | h
        · exact hfree
        · exact hall i h h₂

/-- The loop of `firstRecord` and `nextRecord` stops at the first used slot from `k` on, or after
the last slot. -/
theorem usedSlot_spec {p : Page} (hp : p.slots ≤ 251) (n k : Nat) (hk : k + n = p.slots) :
    ∃ j : Nat, p.usedSlot n (-k) = some (-(j : Int)) ∧ k ≤ j ∧ j ≤ p.slots ∧
      (∀ i, k ≤ i → i < j → (p.entry i).length = -1) ∧
      (j < p.slots → (p.entry j).length ≠ -1) := by
  induction n generalizing k with
  | zero =>
    exact ⟨k, rfl, le_refl k, by omega, fun i h₁ h₂ => by omega, fun h => by omega⟩
  | succ n ih =>
    by_cases hfree : (p.entry k).length = -1
    · obtain ⟨j, hj, hkj, hjs, hall, hend⟩ := ih (k + 1) (by omega)
      refine ⟨j, ?_, by omega, hjs, fun i h₁ h₂ => ?_, hend⟩
      · have hidx : (-(k : Int) - 1) = -((k + 1 : Nat) : Int) := by omega
        rw [usedSlot_succ, slot?_neg p (by omega), Option.bind_some, if_pos hfree, hidx, hj]
      · rcases Nat.eq_or_lt_of_le h₁ with rfl | h
        · exact hfree
        · exact hall i h h₂
    · refine ⟨k, ?_, le_refl k, by omega, fun i h₁ h₂ => by omega, fun _ => hfree⟩
      rw [usedSlot_succ, slot?_neg p (by omega), Option.bind_some, if_neg hfree]

theorem rec?_eq_none_iff (p : Page) (j : Nat) :
    p.rec? j = none ↔ p.slots ≤ j ∨ (p.entry j).length = -1 := by
  by_cases h : p.InUse j
  · simp only [rec?, h, ↓reduceIte, reduceCtorEq, false_iff, not_or, not_le]
    exact h
  · simp only [rec?, h, ↓reduceIte, true_iff]
    unfold InUse at h
    omega

theorem rec?_ne_none_iff (p : Page) (j : Nat) : p.rec? j ≠ none ↔ p.InUse j := by
  unfold rec?
  split <;> simp [*]

/-! ## Insertion -/

section Insert

variable {p : Page} {rec : Record} {j : Nat}

/-- The page after a record has been inserted into slot `j`. -/
def inserted (p : Page) (rec : Record) (j : Nat) : Page :=
  let q := p.setSlotEntry (-j) ⟨p.freePtr, toShort rec.length⟩
  { q with
    mem := fun x =>
      if p.freePtr.toNat ≤ x ∧ x < p.freePtr.toNat + rec.length.toNat then
        rec.data.getD (x - p.freePtr.toNat) 0
      else q.mem x
    slotCnt := if j = p.slots then p.slotCnt - 1 else p.slotCnt
    freeSpace := if j = p.slots then p.freeSpace - rec.length - 4 else p.freeSpace - rec.length
    freePtr := p.freePtr + rec.length }

theorem insertRecord_eq (hp : p.WF) (hrec : rec.Readable) (hfit : rec.length + 4 ≤ p.freeSpace) :
    ∃ j : Nat, p.insertRecord rec = some (.OK, ⟨p.curPage, j⟩, p.inserted rec j) ∧ j ≤ p.slots ∧
      p.rec? j = none ∧ ∀ i < j, p.rec? i ≠ none := by
  have hspace := hp.space
  have hcnt := hp.slotCnt_eq
  have hle := hp.slots_le
  have hptr := hp.freePtr_nonneg
  obtain ⟨hlen, hdata⟩ := hrec
  obtain ⟨j, hj, -, hjs, hall, hfree⟩ := emptySlot_spec (p := p) hle p.slots 0 (by omega)
  refine ⟨j, ?_, hjs, ?_, fun i hi => ?_⟩
  · have hmin : (-p.slotCnt).toNat = p.slots := rfl
    have hiff : (-(j : Int) = p.slotCnt) ↔ j = p.slots := by omega
    rw [Nat.cast_zero, neg_zero] at hj
    unfold insertRecord SLOTSIZE
    rw [if_neg (by omega), hmin, hj]
    simp only [Option.bind_eq_bind, Option.bind_some, hiff, setSlot?_neg _ (show j ≤ 251 by omega)]
    have hst : ∀ q : Page, q.store? p.freePtr rec = some { q with
        mem := fun x =>
          if p.freePtr.toNat ≤ x ∧ x < p.freePtr.toNat + rec.length.toNat then
            rec.data.getD (x - p.freePtr.toNat) 0
          else q.mem x } := by
      intro q
      unfold store? DATASIZE SLOTSIZE
      rw [if_pos ⟨hptr, hlen, hdata, by omega⟩]
    have hptr' : toShort (p.freePtr + rec.length) = p.freePtr + rec.length :=
      toShort_eq (by omega) (by omega)
    by_cases hnew : j = p.slots
    · have h₁ : toShort (p.freeSpace - (rec.length + 4)) = p.freeSpace - rec.length - 4 := by
        rw [toShort_eq (by omega) (by omega)]; omega
      have h₂ : toShort (p.slotCnt - 1) = p.slotCnt - 1 := toShort_eq (by omega) (by omega)
      simp only [hnew, ↓reduceIte, freePtr_setSlotEntry, hst, Option.bind_some]
      simp only [setSlotEntry, inserted, ↓reduceIte, h₁, h₂, hptr', neg_neg]
    · have h₁ : toShort (p.freeSpace - rec.length) = p.freeSpace - rec.length :=
        toShort_eq (by omega) (by omega)
      simp only [hnew, ↓reduceIte, freePtr_setSlotEntry, hst, Option.bind_some]
      simp only [setSlotEntry, inserted, hnew, ↓reduceIte, h₁, hptr', neg_neg]
  · rw [rec?_eq_none_iff]
    rcases Nat.lt_or_ge j p.slots with h | h
    · exact Or.inr (hfree h)
    · exact Or.inl h
  · rw [rec?_ne_none_iff]
    exact ⟨by omega, hall i (by omega) hi⟩

theorem slots_inserted (hp : p.WF) :
    (p.inserted rec j).slots = if j = p.slots then p.slots + 1 else p.slots := by
  have := hp.slotCnt_nonpos
  unfold inserted slots
  dsimp only
  split <;> omega

theorem entry_inserted (hp : p.WF) (hrec : rec.Readable) (hfit : rec.length + 4 ≤ p.freeSpace)
    (hj : j ≤ p.slots) {i : Nat} (hi : i ≤ p.slots) :
    (p.inserted rec j).entry i = if i = j then ⟨p.freePtr, rec.length⟩ else p.entry i := by
  have hspace := hp.space
  have hptr := hp.freePtr_nonneg
  have hle := hp.slots_le
  obtain ⟨hlen, hdata⟩ := hrec
  have hsame : (p.inserted rec j).entry i =
      (p.setSlotEntry (-j) ⟨p.freePtr, toShort rec.length⟩).entry i := by
    refine entry_congr (by omega) fun x hx => ?_
    simp only [inserted]
    rw [if_neg (by omega)]
  rw [hsame]
  split
  next h =>
    rw [h, entry_setSlotEntry_self]
    simp only [toShort_eq (show (-32768 : Int) ≤ p.freePtr by omega) (by omega),
      toShort_eq (show (-32768 : Int) ≤ rec.length by omega) (by omega)]
  next h => exact entry_setSlotEntry_of_ne p (by omega) (by omega) h _

/-- Below the old free space an insertion changes nothing. -/
theorem mem_inserted_of_lt (hp : p.WF) (hj : j ≤ p.slots) {x : Nat} (hx : (x : Int) < p.freePtr)
    (hrec : rec.length + 4 ≤ p.freeSpace) (hlen : 0 ≤ rec.length) :
    (p.inserted rec j).mem x = p.mem x := by
  have hspace := hp.space
  have hle := hp.slots_le
  simp only [inserted]
  rw [if_neg (by omega), mem_setSlotEntry_of_lt p (by omega) _ (by omega)]

theorem inUse_inserted (hp : p.WF) (hrec : rec.Readable) (hfit : rec.length + 4 ≤ p.freeSpace)
    (hj : j ≤ p.slots) (hfree : p.rec? j = none) (i : Nat) :
    (p.inserted rec j).InUse i ↔ i = j ∨ p.InUse i := by
  have hlen := hrec.1
  unfold InUse
  rw [slots_inserted hp]
  rw [rec?_eq_none_iff] at hfree
  by_cases hi : i ≤ p.slots
  · rw [entry_inserted hp hrec hfit hj hi]
    by_cases hij : i = j
    · subst hij
      simp only [↓reduceIte, true_or, iff_true]
      split <;> exact ⟨by omega, by omega⟩
    · simp only [hij, ↓reduceIte, false_or]
      split <;> constructor <;> rintro ⟨h₁, h₂⟩ <;> exact ⟨by omega, h₂⟩
  · split <;> constructor <;> intro h <;> omega

theorem wf_inserted (hp : p.WF) (hrec : rec.Readable) (hfit : rec.length + 4 ≤ p.freeSpace)
    (hj : j ≤ p.slots) (hfree : p.rec? j = none) : (p.inserted rec j).WF := by
  have hspace := hp.space
  have hlen := hrec.1
  have hptr := hp.freePtr_nonneg
  have hcnt := hp.slotCnt_nonpos
  have hentry : ∀ i, (p.inserted rec j).InUse i →
      (p.inserted rec j).entry i = if i = j then ⟨p.freePtr, rec.length⟩ else p.entry i := by
    intro i hi
    have hi := (inUse_inserted hp hrec hfit hj hfree i).mp hi
    refine entry_inserted hp hrec hfit hj ?_
    rcases hi with rfl | hi
    · exact hj
    · exact le_of_lt hi.1
  have hold : ∀ i, (p.inserted rec j).InUse i → i ≠ j → p.InUse i := fun i hi hne =>
    ((inUse_inserted hp hrec hfit hj hfree i).mp hi).resolve_left hne
  refine ⟨?_, ?_, ?_, ?_, fun i hi => ?_, fun i k hi hk hik => ?_⟩
  · simp only [inserted]
    split <;> omega
  · simp only [inserted]
    omega
  · simp only [inserted]
    split <;> omega
  · rw [slots_inserted hp]
    simp only [inserted]
    split <;> omega
  · rw [hentry i hi]
    have hfp : (p.inserted rec j).freePtr = p.freePtr + rec.length := rfl
    rw [hfp]
    split
    next => exact ⟨hlen, hptr, le_refl _⟩
    next h =>
      obtain ⟨h₁, h₂, h₃⟩ := hp.range i (hold i hi h)
      exact ⟨h₁, h₂, by omega⟩
  · rw [hentry i hi, hentry k hk]
    by_cases hij : i = j
    · have hkj : k ≠ j := fun h => hik (hij.trans h.symm)
      simp only [hij, hkj, ↓reduceIte]
      exact Or.inr (hp.range k (hold k hk hkj)).2.2
    · by_cases hkj : k = j
      · simp only [hij, hkj, ↓reduceIte]
        exact Or.inl (hp.range i (hold i hi hij)).2.2
      · simp only [hij, hkj, ↓reduceIte]
        exact hp.disjoint i k (hold i hi hij) (hold k hk hkj) hik

/-- The bytes of the new record. -/
theorem mem_inserted_new {x : Nat} (hx : x < rec.length.toNat) :
    (p.inserted rec j).mem (p.freePtr.toNat + x) = rec.data.getD x 0 := by
  have h : p.freePtr.toNat ≤ p.freePtr.toNat + x ∧
      p.freePtr.toNat + x < p.freePtr.toNat + rec.length.toNat := by omega
  have hsub : p.freePtr.toNat + x - p.freePtr.toNat = x := by omega
  unfold inserted
  dsimp only
  rw [if_pos h, hsub]

/-- The stretch of the new record. -/
theorem span_inserted_new (hrec : rec.Readable) :
    (p.inserted rec j).span p.freePtr rec.length = rec.bytes := by
  obtain ⟨hlen, hdata⟩ := hrec
  refine List.ext_getElem ?_ fun k h₁ h₂ => ?_
  · rw [length_span, Record.bytes, List.length_take]
    omega
  · rw [length_span] at h₁
    have hk : k < rec.data.length := by omega
    simp only [span, List.getElem_map, List.getElem_range, Record.bytes, List.getElem_take]
    rw [mem_inserted_new h₁, List.getD_eq_getElem?_getD, List.getElem?_eq_getElem hk,
      Option.getD_some]

theorem rec?_inserted (hp : p.WF) (hrec : rec.Readable) (hfit : rec.length + 4 ≤ p.freeSpace)
    (hj : j ≤ p.slots) (hfree : p.rec? j = none) :
    (p.inserted rec j).rec? = Function.update p.rec? j (some rec.bytes) := by
  have hptr := hp.freePtr_nonneg
  funext i
  have huse := inUse_inserted hp hrec hfit hj hfree i
  by_cases hij : i = j
  · subst hij
    have hentry := entry_inserted hp hrec hfit hj hj
    rw [if_pos rfl] at hentry
    rw [Function.update_self, rec?, if_pos (huse.mpr (Or.inl rfl)), hentry]
    exact congrArg some (span_inserted_new hrec)
  · rw [Function.update_of_ne hij]
    unfold rec?
    by_cases hi : p.InUse i
    · have hentry := entry_inserted hp hrec hfit hj (le_of_lt hi.1)
      rw [if_neg hij] at hentry
      rw [if_pos (huse.mpr (Or.inr hi)), if_pos hi, hentry]
      obtain ⟨h₁, h₂, h₃⟩ := hp.range i hi
      refine congrArg some (span_congr fun x hx => ?_)
      exact mem_inserted_of_lt hp hj (by omega) hfit hrec.1
    · rw [if_neg (fun h => (huse.mp h).elim hij hi), if_neg hi]

/-- An insertion is refused exactly if record and slot entry exceed the free space; otherwise the
record goes into the lowest free slot. -/
theorem insertRecord_spec (hp : p.WF) (hrec : rec.Readable) :
    (p.freeSpace < rec.length + 4 ∧ p.insertRecord rec = some (.NOSPACE, NULLRID, p)) ∨
    (rec.length + 4 ≤ p.freeSpace ∧ ∃ (j : Nat) (p' : Page), p.insertRecord rec = some (.OK,
    ⟨p.curPage, j⟩, p') ∧
      p'.WF ∧ p.rec? j = none ∧ (∀ i < j, p.rec? i ≠ none) ∧
      p'.rec? = Function.update p.rec? j (some rec.bytes) ∧
      p'.curPage = p.curPage ∧ p'.nextPage = p.nextPage) := by
  by_cases hfit : rec.length + 4 ≤ p.freeSpace
  · obtain ⟨j, heq, hj, hfree, hlow⟩ := insertRecord_eq hp hrec hfit
    exact Or.inr ⟨hfit, j, _, heq, wf_inserted hp hrec hfit hj hfree, hfree, hlow,
      rec?_inserted hp hrec hfit hj hfree, rfl, rfl⟩
  · refine Or.inl ⟨by omega, ?_⟩
    unfold insertRecord SLOTSIZE
    rw [if_pos (by omega)]

end Insert

/-! ## Deletion -/

section Delete

variable {p : Page} {j : Nat}

/-- The offset of an entry after the record at offset `o`, of length `n`, has been cut out. -/
def shifted (o n : Int) (s : Slot) : Slot :=
  if s.length ≥ 0 ∧ s.offset > o then ⟨s.offset - n, s.length⟩ else s

private theorem shiftOffsets_succ (slotNo recLen : Int) (n : Nat) (i : Int) (p : Page) :
    shiftOffsets slotNo recLen (n + 1) i p =
      (p.slot? i).bind fun s => (p.slot? slotNo).bind fun d =>
        if s.length ≥ 0 ∧ s.offset > d.offset then
          (p.setSlot? i ⟨toShort (s.offset - recLen), s.length⟩).bind
            fun p' => shiftOffsets slotNo recLen n (i - 1) p'
        else shiftOffsets slotNo recLen n (i - 1) p := rfl

/-- What the loop of `deleteRecord` over the slots does to the page: it changes nothing but the
offsets of the entries from `k` on. -/
theorem shiftOffsets_spec {o n : Int} (hn : 0 ≤ n) (hj : j ≤ 251) :
    ∀ (m k : Nat) (p : Page), k + m ≤ 252 → (p.entry j).offset = o →
      (∀ i, k ≤ i → i < k + m → (p.entry i).length ≥ 0 → (p.entry i).offset > o →
        n ≤ (p.entry i).offset ∧ (p.entry i).offset ≤ 1004 ∧ (p.entry i).length ≤ 1004) →
      ∃ q, p.shiftOffsets (-j) n m (-k) = some q ∧
        q = { p with mem := q.mem } ∧
        (∀ x, x < 1008 - 4 * (k + m) → q.mem x = p.mem x) ∧
        (∀ i, i ≤ 251 → q.entry i = if k ≤ i ∧ i < k + m then shifted o n (p.entry i)
          else p.entry i)
  | 0, k, p => by
    intro _ _ _
    refine ⟨p, rfl, rfl, fun _ _ => rfl, fun i _ => ?_⟩
    rw [if_neg (by omega)]
  | m + 1, k, p => by
    intro hk hjo hrange
    have hidx : (-(k : Int) - 1) = -((k + 1 : Nat) : Int) := by omega
    have hread := slot?_neg p (show k ≤ 251 by omega)
    have hreadj := slot?_neg p hj
    by_cases hc : (p.entry k).length ≥ 0 ∧ (p.entry k).offset > o
    · -- the record of slot `k` lies to the right of the one that is cut out
      obtain ⟨h₁, h₂, h₃⟩ := hrange k (le_refl k) (by omega) hc.1 hc.2
      have hkj : j ≠ k := by
        rintro rfl
        omega
      have hoff : toShort ((p.entry k).offset - n) = (p.entry k).offset - n :=
        toShort_eq (by omega) (by omega)
      have hlen : toShort (p.entry k).length = (p.entry k).length :=
        toShort_eq (by omega) (by omega)
      have hother : ∀ i, i ≤ 251 → i ≠ k → ∀ s, (p.setSlotEntry (-k) s).entry i = p.entry i :=
        fun i hi hik s => entry_setSlotEntry_of_ne p (by omega) hi hik s
      obtain ⟨q, hq, hsame, hmem, hentry⟩ := shiftOffsets_spec (o := o) hn hj m (k + 1)
        (p.setSlotEntry (-k) ⟨toShort ((p.entry k).offset - n), (p.entry k).length⟩)
        (by omega) (by rw [hother j hj hkj]; exact hjo)
        (fun i hki hi => by
          rw [hother i (by omega) (by omega)]
          exact hrange i (by omega) (by omega))
      refine ⟨q, ?_, ?_, fun x hx => ?_, fun i hi => ?_⟩
      · rw [shiftOffsets_succ, hread, hreadj, Option.bind_some, Option.bind_some, hjo, if_pos hc,
          setSlot?_neg p (by omega), Option.bind_some, hidx, hq]
      · rw [hsame]
        simp only [setSlotEntry]
      · rw [hmem x (by omega), mem_setSlotEntry_of_lt p (by omega) _ (by omega)]
      · rw [hentry i hi]
        by_cases hik : i = k
        · subst hik
          rw [if_neg (by omega), if_pos (by omega), entry_setSlotEntry_self, shifted, if_pos hc]
          simp only [hoff, hlen]
        · rw [hother i hi hik]
          by_cases h : k ≤ i ∧ i < k + (m + 1)
          · rw [if_pos (by omega), if_pos h]
          · rw [if_neg (by omega), if_neg h]
    · obtain ⟨q, hq, hsame, hmem, hentry⟩ := shiftOffsets_spec hn hj m (k + 1) p (by omega) hjo
        (fun i hki hi => hrange i (by omega) (by omega))
      refine ⟨q, ?_, hsame, fun x hx => hmem x (by omega), fun i hi => ?_⟩
      · rw [shiftOffsets_succ, hread, hreadj, Option.bind_some, Option.bind_some, hjo, if_neg hc,
          hidx, hq]
      · rw [hentry i hi]
        by_cases hik : i = k
        · subst hik
          rw [if_neg (by omega), if_pos (by omega), shifted, if_neg hc]
        · by_cases h : k ≤ i ∧ i < k + (m + 1)
          · rw [if_pos (by omega), if_pos h]
          · rw [if_neg (by omega), if_neg h]

private theorem trimSlots_succ (n : Nat) (p : Page) (c f : Int) (hc : toShort (p.slotCnt + 1) = c)
    (hf : toShort (p.freeSpace + SLOTSIZE) = f) :
    trimSlots (n + 1) p =
      if c < 0 then
        (({ p with slotCnt := c, freeSpace := f } : Page).slot? (c + 1)).bind fun s =>
          if s.length = -1 then trimSlots n { p with slotCnt := c, freeSpace := f }
          else some { p with slotCnt := c, freeSpace := f }
      else some { p with slotCnt := c, freeSpace := f } := by
  subst hc hf
  rfl

/-- The loop of `deleteRecord` over the end of the slot array drops the last slot and the free
slots before it. -/
theorem trimSlots_spec : ∀ (n : Nat) (p : Page), p.slotCnt = -(n + 1) → n ≤ 250 →
    0 ≤ p.freeSpace → p.freeSpace + 4 * (n + 1) ≤ 1004 →
    ∃ m : Nat, m ≤ n ∧
      p.trimSlots (n + 1) = some { p with
        slotCnt := -m, freeSpace := p.freeSpace + 4 * (n + 1 - m) } ∧
      (∀ i, m ≤ i → i < n → (p.entry i).length = -1) ∧
      (∀ i, i + 1 = m → (p.entry i).length ≠ -1)
  | n, p => by
    intro hcnt hn hfree hle
    have h₁ : toShort (p.slotCnt + 1) = -(n : Int) := by
      rw [toShort_eq (by omega) (by omega)]; omega
    have h₂ : toShort (p.freeSpace + SLOTSIZE) = p.freeSpace + 4 := by
      unfold SLOTSIZE; exact toShort_eq (by omega) (by omega)
    have hstop : p.trimSlots (n + 1) = some { p with
        slotCnt := -n, freeSpace := p.freeSpace + 4 } →
      (∀ i, i + 1 = n → (p.entry i).length ≠ -1) → ∃ m : Nat, m ≤ n ∧
      p.trimSlots (n + 1) = some { p with
        slotCnt := -m, freeSpace := p.freeSpace + 4 * (n + 1 - m) } ∧
      (∀ i, m ≤ i → i < n → (p.entry i).length = -1) ∧
      (∀ i, i + 1 = m → (p.entry i).length ≠ -1) := by
      intro h hused
      refine ⟨n, le_refl n, ?_, fun i h₃ h₄ => by omega, hused⟩
      rw [h, show p.freeSpace + 4 * ((n : Int) + 1 - n) = p.freeSpace + 4 by omega]
    match n, hcnt, hn, hle, h₁, hstop with
    | 0, hcnt, hn, hle, h₁, hstop =>
      refine hstop ?_ (fun i hi => by omega)
      rw [trimSlots_succ 0 p _ _ h₁ h₂, if_neg (by omega)]
    | n + 1, hcnt, hn, hle, h₁, hstop =>
      have hneg : (-((n + 1 : Nat) : Int) < 0) := by omega
      have hidx : (-((n + 1 : Nat) : Int) + 1) = -(n : Int) := by omega
      have hread := slot?_neg { p with
        slotCnt := -((n + 1 : Nat) : Int), freeSpace := p.freeSpace + 4 } (show n ≤ 251 by omega)
      have hent : ({ p with slotCnt := -((n + 1 : Nat) : Int), freeSpace := p.freeSpace + 4 } :
        Page).entry n = p.entry n := rfl
      rw [hent] at hread
      by_cases hlast : (p.entry n).length = -1
      · obtain ⟨m, hm, heq, hall, hused⟩ := trimSlots_spec n
          { p with slotCnt := -((n + 1 : Nat) : Int), freeSpace := p.freeSpace + 4 }
          (by simp only; omega) (by omega) (by simp only; omega) (by simp only; omega)
        have hsum : p.freeSpace + 4 + 4 * ((n : Int) + 1 - m) =
            p.freeSpace + 4 * (((n + 1 : Nat) : Int) + 1 - m) := by omega
        refine ⟨m, by omega, ?_, fun i h₃ h₄ => ?_, hused⟩
        · rw [trimSlots_succ (n + 1) p _ _ h₁ h₂, if_pos hneg, hidx, hread, Option.bind_some,
            if_pos hlast, heq]
          simp only [hsum]
        · rcases Nat.eq_or_lt_of_le (Nat.le_of_lt_succ h₄) with rfl | h
          · exact hlast
          · exact hall i h₃ h
      · refine hstop ?_ (fun i hi => ?_)
        · rw [trimSlots_succ (n + 1) p _ _ h₁ h₂, if_pos hneg, hidx, hread, Option.bind_some,
            if_neg hlast]
        · rwa [Nat.succ.inj hi]

/-- Where a byte of a record before the one that is cut out lies. -/
private theorem toNat_before {a l o m : Int} {x : Nat} (ha : 0 ≤ a) (hl : a + l ≤ o) (hm : o ≤ m)
    (hx : x < l.toNat) : ((a.toNat + x : Nat) : Int) < m ∧ ((a.toNat + x : Nat) : Int) < o := by
  omega

/-- Where a byte of a record behind the one that is cut out lies, before and after. -/
private theorem toNat_behind {a l o m n : Int} {x : Nat} (ho : 0 ≤ o) (hn : 0 ≤ n) (ha : o + n ≤ a)
    (hm : a + l ≤ m) (hx : x < l.toNat) :
    (((a - n).toNat + x : Nat) : Int) < m - n ∧ ¬(((a - n).toNat + x : Nat) : Int) < o ∧
      (a - n).toNat + x + n.toNat = a.toNat + x := by
  omega

/-- Two stretches that do not overlap still do not after the bytes of a third one, of length `n`,
have been cut out. -/
private theorem disjoint_cut {a l a' b k b' o n : Int} (hdis : a + l ≤ b ∨ b + k ≤ a)
    (ha : a + l ≤ o ∧ a' = a ∨ o + n ≤ a ∧ a' = a - n)
    (hb : b + k ≤ o ∧ b' = b ∨ o + n ≤ b ∧ b' = b - n) : a' + l ≤ b' ∨ b' + k ≤ a' := by
  rcases ha with ⟨ha, rfl⟩ | ⟨ha, rfl⟩ <;> rcases hb with ⟨hb, rfl⟩ | ⟨hb, rfl⟩ <;> omega

/-- A stretch beside the one that is cut out lies below the new end of the data. -/
private theorem range_cut {a l a' o n m : Int} (hl : 0 ≤ l) (ha : 0 ≤ a) (ho : 0 ≤ o)
    (hom : o + n ≤ m) (ham : a + l ≤ m)
    (hside : a + l ≤ o ∧ a' = a ∨ o + n ≤ a ∧ a' = a - n) :
    0 ≤ l ∧ 0 ≤ a' ∧ a' + l ≤ m - n := by
  rcases hside with ⟨h, rfl⟩ | ⟨h, rfl⟩
  · exact ⟨hl, ha, by omega⟩
  · exact ⟨hl, by omega, by omega⟩

@[simp]
private theorem length_shifted (o n : Int) (s : Slot) : (shifted o n s).length = s.length := by
  unfold shifted
  split <;> rfl

/-- The numbers of a slot entry behind the stretch that is cut out. -/
private theorem behind_range {a l o n m : Int} (hl : 0 ≤ l) (hm : a + l ≤ m) (ho : 0 ≤ o)
    (hm' : m ≤ 1004) (hside : a + l ≤ o ∨ o + n ≤ a) (h : a > o) : n ≤ a ∧ a ≤ 1004 ∧ l ≤ 1004 := by
  rcases hside with h' | h' <;> omega

private theorem shifted_of_before {o n : Int} {s : Slot} (h : s.offset + s.length ≤ o) :
    shifted o n s = s :=
  if_neg (by omega)

private theorem shifted_of_behind {o n : Int} {s : Slot} (hn : 0 < n) (hl : 0 ≤ s.length)
    (h : o + n ≤ s.offset) : shifted o n s = ⟨s.offset - n, s.length⟩ :=
  if_pos ⟨hl, by omega⟩

/-- A page whose record `j` has been cut out of the data area, with the offsets behind it
adjusted, is well formed and holds the other records unchanged. -/
theorem wf_of_cut {p' : Page} {o n : Int} (hp : p.WF) (hj : p.InUse j)
    (ho : (p.entry j).offset = o) (hn : (p.entry j).length = n) (hpos : 0 < n)
    (hcnt : p'.slotCnt ≤ 0) (hptr : p'.freePtr = p.freePtr - n) (hfree : 0 ≤ p'.freeSpace)
    (hspace : p'.freeSpace + p'.freePtr + 4 * p'.slots = 1004)
    (huse : ∀ i, p'.InUse i ↔ p.InUse i ∧ i ≠ j)
    (hentry : ∀ i, p'.InUse i → p'.entry i = shifted o n (p.entry i))
    (hmem : ∀ x : Nat, (x : Int) < p.freePtr - n →
      p'.mem x = if (x : Int) < o then p.mem x else p.mem (x + n.toNat)) :
    p'.WF ∧ p'.rec? = Function.update p.rec? j none := by
  obtain ⟨-, hj₂, hj₃⟩ := hp.range j hj
  rw [ho] at hj₂
  rw [ho, hn] at hj₃
  -- a record lies either before the one that is cut out or behind it
  have hside : ∀ i, p'.InUse i → 0 ≤ (p.entry i).length ∧ 0 ≤ (p.entry i).offset ∧
      (p.entry i).offset + (p.entry i).length ≤ p.freePtr ∧
      (p'.entry i).length = (p.entry i).length ∧
      ((p.entry i).offset + (p.entry i).length ≤ o ∧ (p'.entry i).offset = (p.entry i).offset ∨
        o + n ≤ (p.entry i).offset ∧ (p'.entry i).offset = (p.entry i).offset - n) := by
    intro i hi
    obtain ⟨hold, hne⟩ := (huse i).mp hi
    obtain ⟨h₁, h₂, h₃⟩ := hp.range i hold
    have hdis := hp.disjoint i j hold hj hne
    rw [ho, hn] at hdis
    rw [hentry i hi]
    rcases hdis with h | h
    · rw [shifted_of_before h]
      exact ⟨h₁, h₂, h₃, rfl, Or.inl ⟨h, rfl⟩⟩
    · rw [shifted_of_behind hpos h₁ h]
      exact ⟨h₁, h₂, h₃, rfl, Or.inr ⟨h, rfl⟩⟩
  refine ⟨⟨hcnt, by omega, hfree, hspace, fun i hi => ?_, fun i k hi hk hik => ?_⟩, ?_⟩
  · obtain ⟨h₁, h₂, h₃, h₄, h₅⟩ := hside i hi
    rw [h₄, hptr]
    exact range_cut h₁ h₂ hj₂ hj₃ h₃ h₅
  · have hdis := hp.disjoint i k ((huse i).mp hi).1 ((huse k).mp hk).1 hik
    obtain ⟨a₁, a₂, a₃, a₄, a₅⟩ := hside i hi
    obtain ⟨b₁, b₂, b₃, b₄, b₅⟩ := hside k hk
    rw [a₄, b₄]
    exact disjoint_cut hdis a₅ b₅
  · funext i
    by_cases hij : i = j
    · subst hij
      rw [Function.update_self]
      unfold rec?
      rw [if_neg (fun h => ((huse i).mp h).2 rfl)]
    · rw [Function.update_of_ne hij]
      unfold rec?
      by_cases hi : p.InUse i
      · have hi' := (huse i).mpr ⟨hi, hij⟩
        rw [if_pos hi', if_pos hi]
        obtain ⟨h₁, h₂, h₃, h₄, h₅⟩ := hside i hi'
        rw [h₄]
        refine congrArg some (span_congr fun x hx => ?_)
        rcases h₅ with ⟨h₅, h₆⟩ | ⟨h₅, h₆⟩
        · obtain ⟨hlt, hlo⟩ := toNat_before h₂ h₅ (le_sub_iff_add_le.mpr hj₃) hx
          rw [h₆, hmem _ hlt, if_pos hlo]
        · obtain ⟨hlt, hlo, heq⟩ := toNat_behind hj₂ (le_of_lt hpos) h₅ h₃ hx
          rw [h₆, hmem _ hlt, if_neg hlo, heq]
      · rw [if_neg (fun h => hi ((huse i).mp h).1), if_neg hi]

/-- The page after the bytes behind the stretch of length `n` at offset `o` have been moved. -/
def moved (p : Page) (o n : Int) : Page :=
  { p with
    mem := fun x =>
      if o.toNat ≤ x ∧ x < o.toNat + (p.freePtr - (o + n)).toNat then
        p.mem (x - o.toNat + (o + n).toNat)
      else p.mem x }

@[simp]
theorem slotCnt_moved (p : Page) (o n : Int) : (p.moved o n).slotCnt = p.slotCnt := by
  simp only [moved]

theorem move?_eq {o n : Int} (ho : 0 ≤ o) (hn : 0 ≤ n) (hle : o + n ≤ p.freePtr)
    (hptr : p.freePtr ≤ 1004) :
    p.move? (o + n) o (p.freePtr - (o + n)) = some (p.moved o n) := by
  unfold move? DATASIZE SLOTSIZE
  rw [if_pos (by omega)]
  rfl

/-- The bytes behind the stretch move down, those before it stay. -/
theorem mem_moved {o n : Int} (ho : 0 ≤ o) (hn : 0 ≤ n) {x : Nat} (hx : (x : Int) < p.freePtr - n) :
    (p.moved o n).mem x = if (x : Int) < o then p.mem x else p.mem (x + n.toNat) := by
  unfold moved
  dsimp only
  by_cases hxo : (x : Int) < o
  · have h : ¬(o.toNat ≤ x ∧ x < o.toNat + (p.freePtr - (o + n)).toNat) := by omega
    rw [if_neg h, if_pos hxo]
  · have h : o.toNat ≤ x ∧ x < o.toNat + (p.freePtr - (o + n)).toNat := by omega
    have hsum : x - o.toNat + (o + n).toNat = x + n.toNat := by omega
    rw [if_pos h, if_neg hxo, hsum]

theorem entry_moved {o n : Int} (hn : 0 ≤ n)
    (hptr : p.freePtr + 4 * p.slots ≤ 1004) (ho : 0 ≤ o) {i : Nat} (hi : i < p.slots)
    (hi' : i ≤ 251) : (p.moved o n).entry i = p.entry i := by
  refine entry_congr hi' fun x hx => ?_
  have h : ¬(o.toNat ≤ x ∧ x < o.toNat + (p.freePtr - (o + n)).toNat) := by omega
  unfold moved
  dsimp only
  rw [if_neg h]

/-- The page after the bytes of a record and the offsets behind it have been adjusted, before its
slot is freed. -/
theorem compact_spec {o n : Int} (hp : p.WF) (hj : p.InUse j) (ho : (p.entry j).offset = o)
    (hn : (p.entry j).length = n) (hpos : 0 < n) :
    ∃ q, p.move? (o + n) o (p.freePtr - (o + n)) = some (p.moved o n) ∧
      (p.moved o n).shiftOffsets (-j) n p.slots 0 = some q ∧
      q = { p with mem := q.mem } ∧
      (∀ x : Nat, (x : Int) < p.freePtr - n →
        q.mem x = if (x : Int) < o then p.mem x else p.mem (x + n.toNat)) ∧
      (∀ i, i < p.slots → q.entry i = shifted o n (p.entry i)) := by
  obtain ⟨hj₁, hj₂, hj₃⟩ := hp.range j hj
  have hspace := hp.space
  have hfree := hp.freeSpace_nonneg
  have hslots := hp.slots_le
  have hjs := hj.1
  rw [ho, hn] at hj₃
  rw [ho] at hj₂
  have hn' : 0 ≤ n := le_of_lt hpos
  have hptr : p.freePtr ≤ 1004 := by omega
  have hroom : p.freePtr + 4 * p.slots ≤ 1004 := by omega
  have hkeep : ∀ i, i < p.slots → (p.moved o n).entry i = p.entry i := fun i hi =>
    entry_moved hn' hroom hj₂ hi (by omega)
  obtain ⟨q, hq, hsame, hmem, hent⟩ := shiftOffsets_spec (o := o) (n := n) hn'
    (show j ≤ 251 by omega) p.slots 0 (p.moved o n) (by omega)
    (by rw [hkeep j hjs]; exact ho)
    (by
      intro i _ hi hlen hoff
      rw [Nat.zero_add] at hi
      rw [hkeep i hi] at hlen hoff ⊢
      have hi' : p.InUse i := ⟨hi, fun h => by rw [h] at hlen; exact absurd hlen (by decide)⟩
      have hij : i ≠ j := by
        rintro rfl
        exact absurd ho (ne_of_gt hoff)
      obtain ⟨hr₁, hr₂, hr₃⟩ := hp.range i hi'
      have hd := hp.disjoint i j hi' hj hij
      rw [ho, hn] at hd
      exact behind_range hr₁ hr₃ hj₂ hptr hd hoff)
  refine ⟨q, move?_eq hj₂ hn' hj₃ hptr, hq, ?_, fun x hx => ?_, fun i hi => ?_⟩
  · rw [hsame]
    rfl
  · rw [hmem x (by omega), mem_moved hj₂ hn' hx]
  · rw [hent i (by omega), if_pos (by omega), hkeep i hi]

/-- The length of a record is the one its slot entry states. -/
theorem length_of_rec? (hp : p.WF) {b : Bytes} (h : p.rec? j = some b) :
    p.InUse j ∧ p.span (p.entry j).offset (p.entry j).length = b ∧
      (p.entry j).length = b.length := by
  have huse : p.InUse j := (rec?_ne_none_iff p j).mp (by rw [h]; simp)
  unfold rec? at h
  rw [if_pos huse, Option.some.injEq] at h
  refine ⟨huse, h, ?_⟩
  rw [← h, length_span]
  exact (Int.toNat_of_nonneg (hp.range j huse).1).symm

/-- `deleteRecord` on a slot with a record: the data area is compacted, and then the slot is
dropped from the end of the slot array or marked free. -/
private theorem deleteRecord_eq {n : Int} {q₁ q₂ : Page} (hj : j < p.slots) (hj' : j ≤ 251)
    (hn : (p.entry j).length = n) (hpos : 0 < n)
    (h₁ : p.move? ((p.entry j).offset + n) (p.entry j).offset
      (p.freePtr - ((p.entry j).offset + n)) = some q₁)
    (hq : q₁.slotCnt = p.slotCnt) (h₂ : q₁.shiftOffsets (-j) n p.slots 0 = some q₂) (q : Int) :
    p.deleteRecord ⟨q, j⟩ =
      (let p₃ := { q₂ with
        freePtr := toShort (q₂.freePtr - n), freeSpace := toShort (q₂.freeSpace + n) }
      if -(j : Int) = p₃.slotCnt + 1 then
        (p₃.trimSlots (-p₃.slotCnt).toNat).bind fun p₄ => some (.OK, p₄)
      else (p₃.setSlot? (-j) ⟨0, -1⟩).bind fun p₄ => some (.OK, p₄)) := by
  have hgt : -(j : Int) > p.slotCnt := by
    unfold slots at hj
    omega
  unfold deleteRecord
  dsimp only
  rw [if_pos hgt, Option.bind_eq_bind, slot?_neg p hj', Option.bind_some, hn, if_pos hpos,
    Option.bind_eq_bind, h₁, Option.bind_some, hq, show (-p.slotCnt).toNat = p.slots from rfl, h₂,
    Option.bind_some]

/-- Deleting a record that is not empty gives its bytes back, and either leaves the slot array as
long as it was, when the slot is not the last one, or cuts it down to the last slot in use. -/
theorem deleteRecord_full (hp : p.WF) {b : Bytes} (hrec : p.rec? j = some b) (hb : b ≠ [])
    (q : Int) :
    ∃ p', p.deleteRecord ⟨q, j⟩ = some (.OK, p') ∧ p'.WF ∧
      p'.rec? = Function.update p.rec? j none ∧ p'.curPage = p.curPage ∧
      p'.nextPage = p.nextPage ∧ p'.freePtr = p.freePtr - b.length ∧
      (j + 1 < p.slots ∧ p'.slots = p.slots ∨ ∀ i, i + 1 = p'.slots → p'.InUse i) := by
  obtain ⟨huse, -, hn⟩ := length_of_rec? hp hrec
  have hpos : 0 < (b.length : Int) := by
    have := List.length_pos_iff.mpr hb
    omega
  have hspace := hp.space
  have hslots := hp.slots_le
  have hcnt := hp.slotCnt_eq
  have hfree := hp.freeSpace_nonneg
  have hptr := hp.freePtr_nonneg
  have hjs := huse.1
  obtain ⟨-, hr₂, hr₃⟩ := hp.range j huse
  rw [hn] at hr₃
  have hn₁ : (b.length : Int) ≤ p.freePtr := by omega
  have hfp : toShort (p.freePtr - b.length) = p.freePtr - b.length :=
    toShort_eq (by omega) (by omega)
  have hfs : toShort (p.freeSpace + b.length) = p.freeSpace + b.length :=
    toShort_eq (by omega) (by omega)
  obtain ⟨q₂, hmove, hshift, hsame, hmem, hent⟩ := compact_spec hp huse rfl hn hpos
  obtain ⟨hf₁, hf₂, hf₃, hf₄, hf₅⟩ : q₂.freePtr = p.freePtr ∧ q₂.freeSpace = p.freeSpace ∧
      q₂.slotCnt = p.slotCnt ∧ q₂.curPage = p.curPage ∧ q₂.nextPage = p.nextPage := by
    rw [hsame]
    exact ⟨rfl, rfl, rfl, rfl, rfl⟩
  rw [deleteRecord_eq hjs (by omega) hn hpos hmove (slotCnt_moved _ _ _) hshift q, hf₁,
    hf₂, hfp, hfs]
  dsimp only
  rw [hf₃]
  by_cases hlast : -(j : Int) = p.slotCnt + 1
  · -- the slot is the last one: the end of the slot array goes
    have hslots' : p.slots = j + 1 := by omega
    obtain ⟨m, hm, htrim, hall, hused⟩ := trimSlots_spec j
      { q₂ with
        slotCnt := p.slotCnt, freePtr := p.freePtr - b.length
        freeSpace := p.freeSpace + b.length }
      (by dsimp only; omega) (by omega) (by dsimp only; omega) (by dsimp only; omega)
    rw [if_pos hlast, show (-p.slotCnt).toNat = j + 1 from hslots', htrim]
    refine ⟨_, rfl, and_assoc.mp ⟨?_, hf₄, hf₅, rfl, Or.inr fun i hi => ?_⟩⟩
    swap
    · simp only [slots, neg_neg, Int.toNat_natCast] at hi
      exact ⟨by simp only [slots, neg_neg, Int.toNat_natCast]; omega, hused i hi⟩
    have hkept : ∀ i, i < m → q₂.entry i = shifted (p.entry j).offset b.length (p.entry i) :=
      fun i hi => hent i (by omega)
    refine wf_of_cut hp huse rfl hn hpos (by dsimp only; omega) rfl (by dsimp only; omega)
      (by simp only [slots, neg_neg, Int.toNat_natCast]; omega) (fun i => ?_)
      (fun i hi => hkept i (by simpa [slots] using hi.1)) hmem
    simp only [InUse, slots, neg_neg, Int.toNat_natCast]
    constructor
    · rintro ⟨him, hlen⟩
      have hlen : (q₂.entry i).length ≠ -1 := hlen
      rw [hkept i him, length_shifted] at hlen
      exact ⟨⟨show i < p.slots by omega, hlen⟩, by omega⟩
    · rintro ⟨⟨hi, hlen⟩, hij⟩
      have hi : i < p.slots := hi
      have him : i < m := by
        by_contra hge
        have hfreed : (q₂.entry i).length = -1 := hall i (by omega) (by omega)
        rw [hent i hi, length_shifted] at hfreed
        exact hlen hfreed
      refine ⟨him, ?_⟩
      show (q₂.entry i).length ≠ -1
      rwa [hkept i him, length_shifted]
  · -- the slot is marked free
    rw [if_neg hlast, setSlot?_neg _ (by omega), Option.bind_some]
    refine ⟨_, rfl, and_assoc.mp ⟨?_, hf₄, hf₅, rfl, Or.inl ⟨by omega, rfl⟩⟩⟩
    obtain ⟨p₃, hp₃⟩ : ∃ p₃ : Page, p₃ = { q₂ with
      slotCnt := p.slotCnt, freePtr := p.freePtr - b.length
      freeSpace := p.freeSpace + b.length } := ⟨_, rfl⟩
    have hsl : (p₃.setSlotEntry (-j) ⟨0, -1⟩).slots = p.slots := by
      rw [hp₃]
      rfl
    have hself : ((p₃.setSlotEntry (-j) ⟨0, -1⟩).entry j).length = -1 := by
      rw [entry_setSlotEntry_self]
      rfl
    have hother : ∀ i, i < p.slots → i ≠ j → (p₃.setSlotEntry (-j) ⟨0, -1⟩).entry i =
        shifted (p.entry j).offset b.length (p.entry i) := by
      intro i hi hij
      rw [entry_setSlotEntry_of_ne p₃ (by omega) (by omega) hij, hp₃]
      exact hent i hi
    rw [← hp₃]
    refine wf_of_cut hp huse rfl hn hpos ?_ ?_ ?_ ?_ (fun i => ?_) (fun i hi => ?_)
      (fun x hx => ?_)
    · rw [hp₃]
      simp only [setSlotEntry]
      omega
    · rw [hp₃]
      rfl
    · rw [hp₃]
      simp only [setSlotEntry]
      omega
    · rw [hsl, hp₃]
      simp only [setSlotEntry]
      omega
    · unfold InUse
      rw [hsl]
      by_cases hij : i = j
      · subst hij
        exact ⟨fun h => absurd hself h.2, fun h => absurd rfl h.2⟩
      · constructor
        · rintro ⟨hi, hlen⟩
          rw [hother i hi hij, length_shifted] at hlen
          exact ⟨⟨hi, hlen⟩, hij⟩
        · rintro ⟨⟨hi, hlen⟩, -⟩
          refine ⟨hi, ?_⟩
          rwa [hother i hi hij, length_shifted]
    · have hij : i ≠ j := by
        rintro rfl
        exact hi.2 hself
      exact hother i (hsl ▸ hi.1) hij
    · rw [mem_setSlotEntry_of_lt p₃ (by omega) _ (by omega), hp₃]
      exact hmem x hx

/-- Deleting a record that is not empty removes it and leaves every other record as it was. -/
theorem deleteRecord_spec (hp : p.WF) {b : Bytes} (hrec : p.rec? j = some b) (hb : b ≠ [])
    (q : Int) :
    ∃ p', p.deleteRecord ⟨q, j⟩ = some (.OK, p') ∧ p'.WF ∧
      p'.rec? = Function.update p.rec? j none ∧ p'.curPage = p.curPage ∧
      p'.nextPage = p.nextPage := by
  obtain ⟨p', hdel, hwf, hrec', hcur, hnext, -⟩ := deleteRecord_full hp hrec hb q
  exact ⟨p', hdel, hwf, hrec', hcur, hnext⟩

/-- Deleting a free slot, a slot that does not exist or an empty record changes nothing. -/
theorem deleteRecord_invalid (hp : p.WF) (hrec : p.rec? j = none ∨ p.rec? j = some []) (q : Int) :
    p.deleteRecord ⟨q, j⟩ = some (.INVALIDSLOTNO, p) := by
  have hcnt := hp.slotCnt_eq
  have hslots := hp.slots_le
  unfold deleteRecord
  dsimp only
  by_cases hj : j < p.slots
  · have hlen : ¬(p.entry j).length > 0 := by
      rcases hrec with h | h
      · rcases (rec?_eq_none_iff p j).mp h with h | h
        · omega
        · rw [h]
          decide
      · rw [(length_of_rec? hp h).2.2]
        decide
    rw [if_pos (by omega), Option.bind_eq_bind, slot?_neg p (by omega), Option.bind_some,
      if_neg hlen]
  · rw [if_neg (by omega)]

end Delete

/-! ## Reading -/

section Read

variable {p : Page} {j : Nat}

/-- A record that is not empty is found under its slot number. -/
theorem getRecord_spec (hp : p.WF) {b : Bytes} (hrec : p.rec? j = some b) (hb : b ≠ []) (q : Int) :
    ∃ r, p.getRecord ⟨q, j⟩ = some (.OK, r) ∧ r.length = b.length ∧ 0 ≤ r.data ∧
      r.data + r.length ≤ 1004 ∧ p.bytes? r.data r.length = some b := by
  obtain ⟨huse, hspan, hn⟩ := length_of_rec? hp hrec
  have hspace := hp.space
  have hslots := hp.slots_le
  have hcnt := hp.slotCnt_eq
  have hfree := hp.freeSpace_nonneg
  obtain ⟨hr₁, hr₂, hr₃⟩ := hp.range j huse
  have hjs := huse.1
  have hpos : (p.entry j).length > 0 := by
    have := List.length_pos_iff.mpr hb
    rw [hn]
    omega
  have hle : (p.entry j).offset + (p.entry j).length ≤ 1004 := le_trans hr₃ (by omega)
  refine ⟨⟨(p.entry j).offset, (p.entry j).length⟩, ?_, hn, hr₂, hle, ?_⟩
  · unfold getRecord
    dsimp only
    rw [if_pos (by omega), Option.bind_eq_bind, slot?_neg p (by omega), Option.bind_some,
      if_pos hpos]
  · rw [bytes?_eq_span p hr₂ hr₁ hle, hspan]

/-- A free slot, a slot that does not exist and an empty record are refused. -/
theorem getRecord_invalid (hp : p.WF) (hrec : p.rec? j = none ∨ p.rec? j = some []) (q : Int) :
    p.getRecord ⟨q, j⟩ = some (.INVALIDSLOTNO, ⟨0, 0⟩) := by
  have hcnt := hp.slotCnt_eq
  have hslots := hp.slots_le
  unfold getRecord
  dsimp only
  by_cases hj : j < p.slots
  · have hlen : ¬(p.entry j).length > 0 := by
      rcases hrec with h | h
      · rcases (rec?_eq_none_iff p j).mp h with h | h
        · omega
        · rw [h]
          decide
      · rw [(length_of_rec? hp h).2.2]
        decide
    rw [if_pos (by omega), Option.bind_eq_bind, slot?_neg p (by omega), Option.bind_some,
      if_neg hlen]
  · rw [if_neg (by omega)]

/-- The first record of a page is the one in the lowest used slot. -/
theorem firstRecord_spec (hp : p.WF) :
    ((∀ j, p.rec? j = none) ∧ p.firstRecord = some (.NORECORDS, NULLRID)) ∨
    ∃ j : Nat, p.rec? j ≠ none ∧ (∀ i < j, p.rec? i = none) ∧
      p.firstRecord = some (.OK, ⟨p.curPage, j⟩) := by
  have hcnt := hp.slotCnt_eq
  have hslots := hp.slots_le
  obtain ⟨j, hj, -, hjs, hall, hend⟩ := usedSlot_spec (p := p) hslots p.slots 0 (by omega)
  rw [Nat.cast_zero, neg_zero] at hj
  have hlow : ∀ i < j, p.rec? i = none := fun i hi =>
    (rec?_eq_none_iff p i).mpr (Or.inr (hall i (by omega) hi))
  unfold firstRecord
  rw [show (-p.slotCnt).toNat = p.slots from rfl, hj, Option.bind_eq_bind, Option.bind_some]
  rcases Nat.lt_or_ge j p.slots with h | h
  · right
    have hused := hend h
    refine ⟨j, (rec?_ne_none_iff p j).mpr ⟨h, hused⟩, hlow, ?_⟩
    rw [if_neg (by omega), slot?_neg p (by omega), Option.bind_eq_bind, Option.bind_some,
      if_neg hused, neg_neg]
  · left
    refine ⟨fun i => ?_, ?_⟩
    · rcases Nat.lt_or_ge i j with hi | hi
      · exact hlow i hi
      · exact (rec?_eq_none_iff p i).mpr (Or.inl (by omega))
    · rw [if_pos (by omega)]

/-- The next record of a page is the one in the lowest used slot from `k` on, if the current one
is in slot `k - 1` (or there is none yet and `k` is `0`). -/
theorem nextRecord_spec (hp : p.WF) (k : Nat) {rid : RID} (hrid : rid.slotNo = k - 1) :
    ((∀ j, k ≤ j → p.rec? j = none) ∧ p.nextRecord rid = some (.ENDOFPAGE, NULLRID)) ∨
    ∃ j : Nat, k ≤ j ∧ p.rec? j ≠ none ∧ (∀ i, k ≤ i → i < j → p.rec? i = none) ∧
      p.nextRecord rid = some (.OK, ⟨p.curPage, j⟩) := by
  have hcnt := hp.slotCnt_eq
  have hslots := hp.slots_le
  have hidx : -rid.slotNo - 1 = -(k : Int) := by omega
  unfold nextRecord
  rw [hidx, show (-(k : Int) - p.slotCnt).toNat = p.slots - k by omega]
  rcases Nat.lt_or_ge p.slots k with hk | hk
  · -- the current record was beyond the slot array
    left
    refine ⟨fun i hi => (rec?_eq_none_iff p i).mpr (Or.inl (by omega)), ?_⟩
    rw [show p.slots - k = 0 by omega, usedSlot, Option.bind_eq_bind, Option.bind_some,
      if_pos (by omega)]
  · obtain ⟨j, hj, hkj, hjs, hall, hend⟩ :=
      usedSlot_spec (p := p) hslots (p.slots - k) k (by omega)
    have hlow : ∀ i, k ≤ i → i < j → p.rec? i = none := fun i hki hi =>
      (rec?_eq_none_iff p i).mpr (Or.inr (hall i hki hi))
    rw [hj, Option.bind_eq_bind, Option.bind_some]
    rcases Nat.lt_or_ge j p.slots with h | h
    · right
      have hused := hend h
      refine ⟨j, hkj, (rec?_ne_none_iff p j).mpr ⟨h, hused⟩, hlow, ?_⟩
      rw [if_neg (by omega), slot?_neg p (by omega), Option.bind_eq_bind, Option.bind_some,
        if_neg hused, neg_neg]
    · left
      refine ⟨fun i hi => ?_, ?_⟩
      · rcases Nat.lt_or_ge i j with hij | hij
        · exact hlow i hi hij
        · exact (rec?_eq_none_iff p i).mpr (Or.inl (by omega))
      · rw [if_pos (by omega)]

end Read

end Page

end Minirel
