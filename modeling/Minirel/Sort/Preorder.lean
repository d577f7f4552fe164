import Minirel.Lib.Comparison
import Minirel.Sort.Verdict

/-!
# When `reccmp` is an order

`qsort` and the merge of the runs need a comparison that is total and transitive and whose sign
changes with its arguments. `reccmp` compares strings by `memcmp`, which is such a comparison.
Numbers it compares by their difference as an `int`, which is one on sets of numbers that are less
than 2147483648 apart.

## Main definitions

* `OrdersFields`: `reccmp` orders a set of fields, and numbers by their value.

## Main results

* `ordersFields_iff`: the sets of fields that `reccmp` orders.
-/

namespace Minirel

open SortedFile Comparison

/-! ## The value of `reccmp` -/

section Value

variable {p q : Bytes}

/-- Of numbers `reccmp` returns the sign of the difference, which has wrapped. -/
theorem reccmp_integer_eq (m n : Int) (hp : 4 ≤ p.length) (hq : 4 ≤ q.length) :
    reccmp p q m n .INTEGER = some (toInt (intOfBytes p - intOfBytes q)).sign := by
  unfold reccmp
  dsimp only
  rw [if_pos ⟨hp, hq⟩, Option.bind_eq_bind, Option.bind_some]
  generalize toInt (intOfBytes p - intOfBytes q) = d
  rcases lt_trichotomy d 0 with hlt | rfl | hgt
  · rw [Int.compare_eq_lt.mpr hlt, Int.sign_eq_neg_one_of_neg hlt]
    rfl
  · rfl
  · rw [Int.compare_eq_gt.mpr hgt, Int.sign_eq_one_of_pos hgt]
    rfl

/-- The numbers of the characters of a string. -/
def charCodes (p : Bytes) : List Int := p.map fun c => (c.toNat : Int)

/-- Strings of one length are compared character by character. -/
theorem comparesBy_string {n : Int} {S : Set Bytes} (hS : ∀ p ∈ S, (p.length : Int) = n) :
    ComparesBy (fun p q => reccmp p q n n .STRING) charCodes S := by
  intro p hp q hq
  have hlen : p.length = n.toNat ∧ q.length = n.toNat := by
    have := hS p hp
    have := hS q hq
    omega
  obtain ⟨o, ho, hlt, heq⟩ := memcmp_spec n.toNat hlen.1 hlen.2
  unfold reccmp
  dsimp only
  rw [min_self, ho, Option.bind_eq_bind, Option.bind_some]
  cases o with
  | lt =>
    have hless : charCodes p < charCodes q := hlt.mp rfl
    rw [if_pos hless]
    rfl
  | eq =>
    have hcodes : charCodes p = charCodes q := heq.mp rfl
    rw [hcodes, if_neg (lt_irrefl _), if_neg (lt_irrefl _)]
    rfl
  | gt =>
    have hge : ¬charCodes p < charCodes q := mt hlt.mpr nofun
    have hne : charCodes p ≠ charCodes q := mt heq.mpr nofun
    rw [if_neg hge, if_pos (lt_of_le_of_ne (not_lt.mp hge) hne.symm)]
    rfl

end Value

/-! ## Sets of fields -/

/-- `reccmp` is such a comparison on the fields `S`, and numbers are compared by their value. -/
structure OrdersFields (length : Int) (type : Datatype) (S : Set Bytes) : Prop where
  preorder : TotalPreorder (fun p q => reccmp p q length length type) S
  numeric : type = .INTEGER → ∀ p ∈ S, ∀ q ∈ S,
    reccmp p q length length type = some (intOfBytes p - intOfBytes q).sign

section Fields

variable {length : Int} {type : Datatype} {S : Set Bytes}

/-- The sign of a difference that has wrapped is right exactly if the difference is an `int`. -/
theorem sign_toInt_iff {x y : Int} (hx : -2147483648 ≤ x ∧ x < 2147483648)
    (hy : -2147483648 ≤ y ∧ y < 2147483648) :
    (toInt (x - y)).sign = (x - y).sign ↔ -2147483648 ≤ x - y ∧ x - y < 2147483648 := by
  constructor
  · intro h
    by_contra hout
    -- a difference that is no `int` comes back with the other sign
    rcases lt_or_ge (x - y) 0 with hneg | hpos
    · have hwrap : 0 ≤ toInt (x - y) := by
        unfold toInt
        omega
      rw [Int.sign_eq_neg_one_of_neg hneg] at h
      exact absurd (Int.sign_eq_neg_one_iff_neg.mp h) (not_lt.mpr hwrap)
    · have hwrap : toInt (x - y) < 0 := by
        unfold toInt
        omega
      rw [Int.sign_eq_neg_one_of_neg hwrap] at h
      exact absurd (Int.sign_eq_neg_one_iff_neg.mp h.symm) (not_lt.mpr hpos)
  · intro h
    have hsame : toInt (x - y) = x - y := by
      unfold toInt
      omega
    rw [hsame]

/-- `reccmp` orders all sets of strings, and exactly the sets of numbers no two of which are
2147483648 or more apart. -/
theorem ordersFields_iff (hword : type = .INTEGER → length = 4) (hfloat : type ≠ .FLOAT)
    (hS : ∀ p ∈ S, (p.length : Int) = length) :
    OrdersFields length type S ↔
      (type = .INTEGER → ∀ p ∈ S, ∀ q ∈ S, intOfBytes p - intOfBytes q < 2147483648) := by
  cases type with
  | FLOAT => exact absurd rfl hfloat
  | STRING =>
    exact iff_of_true ⟨(comparesBy_string hS).totalPreorder, nofun⟩ nofun
  | INTEGER =>
    have hlen : ∀ p ∈ S, 4 ≤ p.length := fun p hp => by
      have := hS p hp
      have := hword rfl
      omega
    constructor
    · intro h _ p hp q hq
      have hnum := h.numeric rfl p hp q hq
      rw [reccmp_integer_eq length length (hlen p hp) (hlen q hq), Option.some.injEq,
        sign_toInt_iff (intOfBytes_range p) (intOfBytes_range q)] at hnum
      exact hnum.2
    · intro h
      have hsign : ∀ p ∈ S, ∀ q ∈ S, reccmp p q length length .INTEGER =
          some (intOfBytes p - intOfBytes q).sign := fun p hp q hq => by
        have h₁ := h rfl p hp q hq
        have h₂ := h rfl q hq p hp
        rw [reccmp_integer_eq length length (hlen p hp) (hlen q hq),
          (sign_toInt_iff (intOfBytes_range p) (intOfBytes_range q)).mpr ⟨by omega, h₁⟩]
      have hcmp : ComparesBy (fun p q => reccmp p q length length .INTEGER) intOfBytes S := by
        intro p hp q hq
        dsimp only
        rw [hsign p hp q hq]
        rcases lt_trichotomy (intOfBytes p) (intOfBytes q) with hlt | heq | hgt
        · rw [if_pos hlt, Int.sign_eq_neg_one_of_neg (by omega)]
        · rw [heq, if_neg (lt_irrefl _), if_neg (lt_irrefl _), Int.sub_self, Int.sign_zero]
        · rw [if_neg hgt.asymm, if_pos hgt, Int.sign_eq_one_of_pos (by omega)]
      exact ⟨hcmp.totalPreorder, fun _ => hsign⟩

end Fields

/-- The numbers 1 and 2. -/
theorem ordersFields_one_two : OrdersFields 4 .INTEGER {[1, 0, 0, 0], [2, 0, 0, 0]} := by
  have hfloat : Datatype.INTEGER ≠ .FLOAT := nofun
  refine (ordersFields_iff (fun _ => rfl) hfloat ?_).mpr fun _ => ?_
  · rintro p (rfl | rfl)
    · rfl
    · rfl
  · rintro p (rfl | rfl) q (rfl | rfl)
    · decide
    · decide
    · decide
    · decide

/-- Of 0 and -2147483648 each comes before the other. -/
theorem not_ordersFields_minimum : ¬OrdersFields 4 .INTEGER {p | p.length = 4} := by
  intro h
  obtain ⟨c, hc, hneg⟩ := h.preorder.antisymm [0, 0, 0, 0] rfl [0, 0, 0, 128] rfl
  have h₁ : reccmp [0, 0, 0, 0] [0, 0, 0, 128] 4 4 .INTEGER = some (-1) := by decide
  have h₂ : reccmp [0, 0, 0, 128] [0, 0, 0, 0] 4 4 .INTEGER = some (-1) := by decide
  rw [h₁] at hc
  rw [h₂] at hneg
  cases hc
  cases hneg

end Minirel
