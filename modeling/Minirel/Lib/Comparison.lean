import Mathlib.Order.Lattice
import Mathlib.Data.Set.Defs

/-!
# Comparisons by keys

A comparison function answers with a number whose sign says which of its arguments comes first, or
it has no answer. Sorting needs one that is antisymmetric in sign, transitive and total on the
elements to be sorted; a comparison of the elements by their keys in a linear order is one.

## Main definitions

* `ComparesBy`: a comparison of elements by their keys in a linear order.
* `TotalPreorder`: what sorting needs.

## Main results

* `ComparesBy.totalPreorder`: a comparison by keys is what sorting needs.
-/

namespace Comparison

variable {α κ : Type} [LinearOrder κ]

/-- The comparison `f` of the elements of `S` is that of their keys. -/
def ComparesBy (f : α → α → Option Int) (key : α → κ) (S : Set α) : Prop :=
  ∀ p ∈ S, ∀ q ∈ S, f p q = some (if key p < key q then -1 else if key q < key p then 1 else 0)

/-- The comparison finds that `p` does not come after `q`. -/
def FindsLe (f : α → α → Option Int) (p q : α) : Prop := ∃ c, f p q = some c ∧ c ≤ 0

/-- The comparison is antisymmetric in sign, transitive and total on the elements of `S`. -/
structure TotalPreorder (f : α → α → Option Int) (S : Set α) : Prop where
  antisymm : ∀ p ∈ S, ∀ q ∈ S, ∃ c, f p q = some c ∧ f q p = some (-c)
  trans : ∀ p ∈ S, ∀ q ∈ S, ∀ r ∈ S, FindsLe f p q → FindsLe f q r → FindsLe f p r
  total : ∀ p ∈ S, ∀ q ∈ S, FindsLe f p q ∨ FindsLe f q p

variable {f : α → α → Option Int} {key : α → κ} {S : Set α}

theorem ComparesBy.findsLe_iff (h : ComparesBy f key S) {p q : α} (hp : p ∈ S) (hq : q ∈ S) :
    FindsLe f p q ↔ key p ≤ key q := by
  unfold FindsLe
  rw [h p hp q hq]
  constructor
  · rintro ⟨c, hc, hle⟩
    cases hc
    by_contra hlt
    rw [if_neg fun hn => hlt hn.le, if_pos (not_le.mp hlt)] at hle
    exact absurd hle (by decide)
  · intro hle
    refine ⟨_, rfl, ?_⟩
    rw [if_neg (c := key q < key p) (not_lt.mpr hle)]
    split
    · decide
    · decide

/-- A comparison by keys is antisymmetric, transitive and total. -/
theorem ComparesBy.totalPreorder (h : ComparesBy f key S) : TotalPreorder f S where
  antisymm p hp q hq := by
    refine ⟨_, h p hp q hq, ?_⟩
    rw [h q hq p hp]
    rcases lt_trichotomy (key p) (key q) with hlt | heq | hgt
    · rw [if_neg hlt.asymm, if_pos hlt, if_pos hlt]
      rfl
    · rw [heq, if_neg (lt_irrefl _), if_neg (lt_irrefl _)]
      rfl
    · rw [if_pos hgt, if_neg hgt.asymm, if_pos hgt]
  trans p hp q hq r hr hpq hqr := by
    rw [h.findsLe_iff hp hq] at hpq
    rw [h.findsLe_iff hq hr] at hqr
    rw [h.findsLe_iff hp hr]
    exact hpq.trans hqr
  total p hp q hq := by
    rw [h.findsLe_iff hp hq, h.findsLe_iff hq hp]
    exact le_total (key p) (key q)

end Comparison
