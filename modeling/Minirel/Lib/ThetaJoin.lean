import Mathlib.Data.Multiset.Bind

/-!
# Joins of lists by a condition

The join of two lists by a condition on pairs is the list of what is made of the pairs that meet it,
with the pairs in the order of the first list and, for each of its elements, in the order of the
second one.

## Main definitions

* `thetaJoin`: the join.

## Main results

* `coe_thetaJoin`: which rows there are, without their order.
* `thetaJoin_perm_swap`: up to order, the two lists may be exchanged.
-/

namespace Relational

variable {α β γ : Type}

/-- The join of two lists by the condition `θ`; `f` makes a row of a pair. -/
def thetaJoin (θ : α → β → Bool) (f : α → β → γ) (A : List α) (B : List β) : List γ :=
  A.flatMap fun a => (B.filter (θ a)).map (f a)

variable {θ θ' : α → β → Bool} {f : α → β → γ} {A : List α} {B : List β}

@[simp]
theorem thetaJoin_nil (θ : α → β → Bool) (f : α → β → γ) (B : List β) :
    thetaJoin θ f [] B = [] := rfl

theorem thetaJoin_cons (a : α) :
    thetaJoin θ f (a :: A) B = (B.filter (θ a)).map (f a) ++ thetaJoin θ f A B := rfl

theorem thetaJoin_singleton (a : α) : thetaJoin θ f [a] B = (B.filter (θ a)).map (f a) :=
  List.append_nil _

/-- Only the pairs of the two lists matter. -/
theorem thetaJoin_congr (h : ∀ a ∈ A, ∀ b ∈ B, θ a b = θ' a b) :
    thetaJoin θ f A B = thetaJoin θ' f A B := by
  refine List.flatMap_congr fun a ha => ?_
  rw [List.filter_congr fun b hb => h a ha b hb]

/-- A pair gives one row if it meets the condition, and none otherwise. -/
theorem coe_thetaJoin : (thetaJoin θ f A B : Multiset γ) =
    (A : Multiset α).bind fun a => (B : Multiset β).bind fun b => if θ a b then {f a b} else 0 := by
  unfold thetaJoin
  rw [← Multiset.coe_bind]
  refine Multiset.bind_congr fun a _ => ?_
  induction B with
  | nil => rfl
  | cons b B ih =>
    rw [← Multiset.cons_coe, Multiset.cons_bind, ← ih, List.filter_cons]
    by_cases hb : θ a b = true
    · rw [if_pos hb, if_pos hb]
      rfl
    · rw [if_neg hb, if_neg hb, zero_add]

/-- A join from the other side has the same rows. -/
theorem thetaJoin_perm_swap : (thetaJoin θ f A B).Perm
    (thetaJoin (fun b a => θ a b) (fun b a => f a b) B A) := by
  rw [← Multiset.coe_eq_coe, coe_thetaJoin, coe_thetaJoin]
  exact Multiset.bind_bind _ _

end Relational
