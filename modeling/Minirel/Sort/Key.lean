import Minirel.Sort.TempFile
import Minirel.Lib.Merge
import Mathlib.Data.List.Lex

/-!
# The order of the sort attribute

`reccmp` compares two sort attributes as the values of a linear order: strings byte by byte, and
integers as numbers as long as their difference is an `int`.

## Main definitions

* `SortedFile.sortKey`: the value of the sort attribute of a record.
* `SortedFile.Item`: a record of a run, with the number of the run and its position in the run.
* `SortedFile.Merged`: the records of the runs in the order in which `next` is to return them.

## Main results

* `SortedFile.reccmp_spec`: `reccmp` compares the values.
* `SortedFile.merged_mergeSort`: the stable sort of the records of all runs is in this order.
-/

namespace Minirel

open Comp

namespace SortedFile

/-- `memcmp` compares the bytes as numbers, in the order of the places. -/
theorem memcmp_spec (n : Nat) {a b : Bytes} (ha : a.length = n) (hb : b.length = n) :
    ∃ o, memcmp n a b = some o ∧
      (o = .lt ↔ a.map (fun c => (c.toNat : Int)) < b.map fun c => (c.toNat : Int)) ∧
      (o = .eq ↔ a.map (fun c => (c.toNat : Int)) = b.map fun c => (c.toNat : Int)) := by
  induction n generalizing a b with
  | zero =>
    rw [List.length_eq_zero_iff.mp ha, List.length_eq_zero_iff.mp hb]
    exact ⟨.eq, rfl, by simp, by simp⟩
  | succ n ih =>
    obtain ⟨x, a, rfl⟩ := List.exists_cons_of_length_eq_add_one ha
    obtain ⟨y, b, rfl⟩ := List.exists_cons_of_length_eq_add_one hb
    rw [List.length_cons, Nat.add_right_cancel_iff] at ha hb
    simp only [List.map_cons, List.cons_lt_cons_iff, List.cons.injEq, Int.ofNat_lt, Int.natCast_inj]
    by_cases hxy : x = y
    · -- the first bytes do not decide
      subst hxy
      obtain ⟨o, ho, hlt, heq⟩ := ih ha hb
      refine ⟨o, ?_, by simp [hlt], by simp [heq]⟩
      unfold memcmp
      rw [if_pos rfl]
      exact ho
    · have hne : x.toNat ≠ y.toNat := fun h => hxy (UInt8.toNat_inj.mp h)
      refine ⟨compare x.toNat y.toNat, ?_, ?_, ?_⟩
      · unfold memcmp
        rw [if_neg hxy]
      · rw [Nat.compare_eq_lt]
        simp [hne]
      · rw [Nat.compare_eq_eq]
        simp [hne]

/-- The sort attribute of a record. -/
def sortField (offset length : Int) (b : Bytes) : Bytes := (b.drop offset.toNat).take length.toNat

/-- The value of the sort attribute: the number, or the numbers of the characters. -/
def sortKey (offset length : Int) (type : Datatype) (b : Bytes) : List Int :=
  match type with
  | .INTEGER => [intOfBytes (sortField offset length b)]
  | _ => (sortField offset length b).map fun c => (c.toNat : Int)

/-- Each of the records `l` has the sort attribute. -/
structure Attribute (offset length : Int) (l : List Bytes) : Prop where
  offset_nonneg : 0 ≤ offset
  length_pos : 1 ≤ length
  reach : ∀ b ∈ l, offset + length ≤ b.length

/-- What a caller has to see to so that the records `l` can be compared: each of them has the
attribute, which is a string, or a number none of whose differences overflows. -/
structure Comparable (offset length : Int) (type : Datatype) (l : List Bytes) : Prop extends
    Attribute offset length l where
  type_ne : type ≠ .FLOAT
  word : type = .INTEGER → length = 4
  diff : type = .INTEGER → ∀ a ∈ l, ∀ b ∈ l,
    -2147483648 ≤ intOfBytes (sortField offset length a) - intOfBytes (sortField offset length b) ∧
      intOfBytes (sortField offset length a) - intOfBytes (sortField offset length b) < 2147483648

/-- The attribute is as long as it is to be. -/
theorem Attribute.length_sortField {offset length : Int} {l : List Bytes} {b : Bytes}
    (h : Attribute offset length l) (hb : b ∈ l) :
    (sortField offset length b).length = length.toNat := by
  have := h.reach b hb
  have := h.offset_nonneg
  have := h.length_pos
  unfold sortField
  rw [List.length_take, List.length_drop]
  omega

/-- What `reccmp` makes of the outcome of a comparison. -/
theorem exists_sign (o : Ordering) :
    ∃ c : Int, (match o with
      | .lt => pure (-1)
      | .eq => pure 0
      | .gt => pure 1 : Option Int) = some c ∧ (c < 0 ↔ o = .lt) ∧ (c = 0 ↔ o = .eq) := by
  cases o with
  | lt => exact ⟨-1, rfl, by decide, by decide⟩
  | eq => exact ⟨0, rfl, by decide, by decide⟩
  | gt => exact ⟨1, rfl, by decide, by decide⟩

/-- `reccmp` compares two numbers by their difference, which wraps. -/
theorem reccmp_integer (m n : Int) {p q : Bytes} (hp : 4 ≤ p.length) (hq : 4 ≤ q.length) :
    ∃ c, reccmp p q m n .INTEGER = some c ∧ (c < 0 ↔ toInt (intOfBytes p - intOfBytes q) < 0) ∧
      (c = 0 ↔ toInt (intOfBytes p - intOfBytes q) = 0) := by
  unfold reccmp
  dsimp only
  rw [if_pos ⟨hp, hq⟩, Option.bind_eq_bind, Option.bind_some]
  generalize toInt (intOfBytes p - intOfBytes q) = diff
  generalize ho : compare diff 0 = o
  obtain ⟨c, hc, hlt, heq⟩ := exists_sign o
  exact ⟨c, hc, hlt.trans (ho ▸ Int.compare_eq_lt), heq.trans (ho ▸ Int.compare_eq_eq)⟩

/-- `reccmp` compares two strings of one length byte by byte. -/
theorem reccmp_string {n : Int} {p q : Bytes} {o : Ordering} (ho : memcmp n.toNat p q = some o) :
    ∃ c, reccmp p q n n .STRING = some c ∧ (c < 0 ↔ o = .lt) ∧ (c = 0 ↔ o = .eq) := by
  obtain ⟨c, hc, hlt, heq⟩ := exists_sign o
  refine ⟨c, ?_, hlt, heq⟩
  unfold reccmp
  dsimp only
  rw [min_self, ho]
  exact hc

/-- `reccmp` compares the values of the attributes. -/
theorem reccmp_spec {offset length : Int} {type : Datatype} {l : List Bytes} {a b : Bytes}
    (h : Comparable offset length type l) (ha : a ∈ l) (hb : b ∈ l) :
    ∃ c, reccmp (sortField offset length a)
    (sortField offset length b) length length type = some c ∧
      (c < 0 ↔ sortKey offset length type a < sortKey offset length type b) ∧
      (c = 0 ↔ sortKey offset length type a = sortKey offset length type b) := by
  have hla := h.toAttribute.length_sortField ha
  have hlb := h.toAttribute.length_sortField hb
  cases htype : type with
  | INTEGER =>
    have h4 := h.word htype
    obtain ⟨hlo, hhi⟩ := h.diff htype a ha b hb
    obtain ⟨c, hc, hlt, heq⟩ := reccmp_integer length length
      (show 4 ≤ (sortField offset length a).length by omega)
      (show 4 ≤ (sortField offset length b).length by omega)
    rw [toInt_eq hlo hhi] at hlt heq
    refine ⟨c, hc, hlt.trans ?_, heq.trans ?_⟩
    · unfold sortKey
      rw [sub_neg, List.cons_lt_cons_iff]
      simp
    · unfold sortKey
      rw [sub_eq_zero]
      simp
  | FLOAT => exact absurd htype h.type_ne
  | STRING =>
    obtain ⟨o, ho, hlt, heq⟩ := memcmp_spec length.toNat hla hlb
    obtain ⟨c, hc, hlt', heq'⟩ := reccmp_string ho
    exact ⟨c, hc, hlt'.trans hlt, heq'.trans heq⟩

/-! ## The records of the runs -/

/-- A record of a run. -/
structure Item where
  /-- The number of the run, from zero on. -/
  run : Nat
  /-- The position in the run. -/
  pos : Nat
  /-- The record. -/
  bytes : Bytes

/-- The records of run number `i`. -/
def tag (i : Nat) (l : List Bytes) : List Item := l.mapIdx fun j b => ⟨i, j, b⟩

/-- The records of each run. -/
def tagAll (ls : List (List Bytes)) : List (List Item) := ls.mapIdx tag

/-- The value of the sort attribute of a record of a run. -/
def itemKey (offset length : Int) (type : Datatype) (x : Item) : List Int :=
  sortKey offset length type x.bytes

/-- The comparison of `next`: whether the record `a` is greater than the record `b`. -/
def greater (offset length : Int) (type : Datatype) (a b : Item) : Option Bool :=
  (reccmp (sortField offset length a.bytes)
    (sortField offset length b.bytes) length length type).map
    fun c => decide (c > 0)

/-- `a` is to be returned before `b`: it is less in the order of `reccmp`, or it is equal and in
front of `b` in the order of the runs and of the positions in them. -/
def Before (offset length : Int) (type : Datatype) (a b : Item) : Prop :=
  ∃ c, reccmp (sortField offset length a.bytes) (sortField offset length b.bytes) length length type
      = some c ∧
    (c < 0 ∨ c = 0 ∧ (a.run < b.run ∨ a.run = b.run ∧ a.pos < b.pos))

/-- All records of the runs `ls`, each of them once, in the order in which they are to be
returned. -/
def Merged (offset length : Int) (type : Datatype) (ls : List (List Bytes)) (out : List Bytes) :
    Prop :=
  ∃ l : List Item, l.Perm (tagAll ls).flatten ∧ l.Pairwise (Before offset length type) ∧
    l.map Item.bytes = out

/-- The comparison of `next` agrees with the values of the attributes. -/
theorem agrees_greater {offset length : Int} {type : Datatype} {l : List Bytes}
    (h : Comparable offset length type l) :
    Merge.Agrees (itemKey offset length type)
    (greater offset length type) fun x => x.bytes ∈ l := by
  intro a b ha hb
  obtain ⟨c, hc, hlt, heq⟩ := reccmp_spec h ha hb
  unfold greater itemKey
  rw [hc, Option.map_some]
  congr 1
  rw [decide_eq_decide]
  constructor
  · intro hpos
    refine lt_of_le_of_ne (not_lt.mp fun hn => ?_) fun hn => ?_
    · have := hlt.mpr hn
      omega
    · have := heq.mpr hn.symm
      omega
  · intro hk
    by_contra hpos
    rcases Int.lt_or_eq_of_le (not_lt.mp hpos) with hneg | hzero
    · exact lt_asymm hk (hlt.mp hneg)
    · have hkey := heq.mp hzero
      rw [hkey] at hk
      exact lt_irrefl _ hk

@[simp] theorem map_bytes_tag (i : Nat) (l : List Bytes) : (tag i l).map Item.bytes = l := by
  unfold tag
  apply List.ext_getElem
  · simp
  · intro j h₁ h₂
    simp

@[simp] theorem length_tagAll (ls : List (List Bytes)) : (tagAll ls).length = ls.length :=
  List.length_mapIdx

theorem map_tagAll (ls : List (List Bytes)) : (tagAll ls).map (List.map Item.bytes) = ls := by
  unfold tagAll
  apply List.ext_getElem
  · simp
  · intro i h₁ h₂
    simp

/-- The records of the runs are those of the lists. -/
theorem mem_tagAll {ls : List (List Bytes)} {x : Item} (hx : x ∈ (tagAll ls).flatten) :
    x.bytes ∈ ls.flatten := by
  obtain ⟨l, hl, hx⟩ := List.mem_flatten.mp hx
  refine List.mem_flatten.mpr ⟨l.map Item.bytes, ?_, List.mem_map_of_mem hx⟩
  rw [← map_tagAll ls]
  exact List.mem_map_of_mem hl

/-- The records of a run are in the order of their positions. -/
theorem pairwise_tag (i : Nat) (l : List Bytes) :
    (tag i l).Pairwise fun a b => a.run < b.run ∨ a.run = b.run ∧ a.pos < b.pos := by
  unfold tag
  rw [List.pairwise_iff_getElem]
  intro j k hj hk hjk
  rw [List.getElem_mapIdx, List.getElem_mapIdx]
  exact Or.inr ⟨rfl, hjk⟩

theorem run_of_mem_tag {i : Nat} {l : List Bytes} {x : Item} (hx : x ∈ tag i l) : x.run = i := by
  obtain ⟨j, hj, rfl⟩ := List.mem_mapIdx.mp hx
  rfl

/-- The records of all runs are in the order of the runs and of the positions in them. -/
theorem pairwise_tagAll (ls : List (List Bytes)) :
    (tagAll ls).flatten.Pairwise fun a b => a.run < b.run ∨ a.run = b.run ∧ a.pos < b.pos := by
  unfold tagAll
  rw [List.pairwise_flatten]
  constructor
  · intro l hl
    obtain ⟨i, hi, rfl⟩ := List.mem_mapIdx.mp hl
    exact pairwise_tag i _
  · rw [List.pairwise_iff_getElem]
    intro i j hi hj hij a ha b hb
    rw [List.getElem_mapIdx] at ha hb
    rw [run_of_mem_tag ha, run_of_mem_tag hb]
    exact Or.inl hij

/-- The stable sort of the records of all runs. -/
theorem merged_mergeSort {offset length : Int} {type : Datatype} {ls : List (List Bytes)}
    (h : Comparable offset length type ls.flatten) : Merged offset length type ls
      (((tagAll ls).flatten.mergeSort (Merge.leKey (itemKey offset length type))).map
        Item.bytes) := by
  refine ⟨_, List.mergeSort_perm _ _, ?_, rfl⟩
  refine (Merge.pairwise_mergeSort (pairwise_tagAll ls)).imp_of_mem fun {a b} ha hb hab => ?_
  obtain ⟨c, hc, hlt, heq⟩ := reccmp_spec h
    (mem_tagAll ((List.mergeSort_perm _ _).mem_iff.mp ha))
    (mem_tagAll ((List.mergeSort_perm _ _).mem_iff.mp hb))
  exact ⟨c, hc, hab.imp hlt.mpr (And.imp_left heq.mpr)⟩

end SortedFile

end Minirel
