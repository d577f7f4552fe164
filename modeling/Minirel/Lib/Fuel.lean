import Minirel.Lib.Comp

/-!
# Computations with more fuel

A loop that may run for ever is modelled with a bound on its number of rounds, and has no outcome
when the bound is reached. With a larger bound it has the outcomes it had, and maybe one where it
had none.

## Main definitions

* `Extends x y`: the outcomes of `x` are outcomes of `y`.

## Main results

* `Clean.of_extends`: what a computation is known to do once its bound is large enough, it does
  whenever it returns.
-/

namespace Comp

variable {σ α β : Type}

/-- Every outcome of `x` is one of `y`. -/
def Extends (x y : StateT σ Outcome α) : Prop :=
  ∀ s a e s', Yields x s a e s' → Yields y s a e s'

namespace Extends

variable {x y z : StateT σ Outcome α} {f g : α → StateT σ Outcome β}

theorem refl (x : StateT σ Outcome α) : Extends x x := fun _ _ _ _ h => h

theorem trans (h : Extends x y) (h' : Extends y z) : Extends x z :=
  fun s a e s' hx => h' s a e s' (h s a e s' hx)

/-- A computation without an outcome is extended by every other. -/
theorem failure (y : StateT σ Outcome α) : Extends failure y := by
  intro s a e s' h
  cases h

theorem bind (hx : Extends x y) (hf : ∀ a, Extends (f a) (g a)) : Extends (x >>= f) (y >>= g) := by
  intro s b e'' s'' h
  obtain ⟨a, e, s', e', h₁, h₂, rfl⟩ := h.of_bind
  exact (hx s a e s' h₁).bind (hf a s' b e' s'' h₂)

/-- Only what comes after the first step has another bound. -/
theorem bind_right (x : StateT σ Outcome α) (hf : ∀ a, Extends (f a) (g a)) :
    Extends (x >>= f) (x >>= g) := (refl x).bind hf

theorem ite {c : Prop} [Decidable c] {x' y' : StateT σ Outcome α} (ht : Extends x y)
    (hf : Extends x' y') : Extends (if c then x else x') (if c then y else y') := by
  split
  · exact ht
  · exact hf

/-- A bound that grows by any amount, once it may grow by one. -/
theorem of_le {F : Nat → StateT σ Outcome α} (hF : ∀ n, Extends (F n) (F (n + 1))) {n m : Nat}
    (h : n ≤ m) : Extends (F n) (F m) := by
  induction h with
  | refl => exact refl _
  | step _ ih => exact ih.trans (hF _)

end Extends

/-- A computation that is extended by one that is known to return does what that one does. -/
theorem Clean.of_extends {T : Prop} {x y : StateT σ Outcome α} {s s' : σ} {Q : α → σ → Prop} {a : α}
    {e : Bool} (h : Clean T y s Q) (hT : T) (hle : Extends x y) (hx : Yields x s a e s') :
    e = false ∧ Q a s' := by
  obtain ⟨hflag, hQ⟩ := h.1 a e s' (hle s a e s' hx)
  exact ⟨hflag hT, hQ (hflag hT)⟩

end Comp
