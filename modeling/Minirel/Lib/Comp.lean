import Mathlib.Logic.Basic

/-!
# Pre- and postconditions for stateful computations that may be undefined

A computation `StateT σ Outcome α` reads and changes a state of type `σ`. It may have no outcome
at all, which stands for a program that never returns or whose behavior is undefined, and it may
raise a flag, which stands for an event that is recorded and never taken back. This file is the
small program logic used to reason about such computations.

## Main definitions

* `Outcome`: no outcome, or a value and the flag.
* `Yields x s a e s'`: started in `s`, the computation `x` returns `a` in state `s'` with flag `e`.
* `Runs T x s Q`: every outcome of `x` from `s` satisfies `Q`, and there is one if `T` holds. This
  is partial correctness for `T = False` and total correctness for `T = True`.
* `Clean T x s Q`: the same for the outcomes without the flag; if `T` holds, the flag is not raised.
* `Preserves x R`: every outcome of `x` is related by `R` to the state `x` started in.
* `IsPure x`: the computation `x` does not look at the state.

Each notion comes with one rule for every way of composing computations.
-/

namespace Comp

/-- No outcome, or a value and whether the flag was raised on the way. -/
def Outcome (α : Type) : Type := Option (α × Bool)

namespace Outcome

/-- Sequential composition: the flag stays raised. -/
def bind {α β : Type} (x : Outcome α) (f : α → Outcome β) : Outcome β :=
  match x with
  | none => none
  | some (a, e) =>
    match f a with
    | none => none
    | some (b, e') => some (b, e || e')

instance : Monad Outcome where
  pure a := some (a, false)
  bind := bind

instance : LawfulMonad Outcome := LawfulMonad.mk' Outcome
  (fun x => by
    rcases x with _ | ⟨a, e⟩
    · rfl
    · show some (a, e || false) = some (a, e)
      rw [Bool.or_false])
  (fun a f => by
    show bind (some (a, false)) f = f a
    unfold bind
    rcases h : f a with _ | ⟨b, e⟩ <;> simp only [h] <;> rfl)
  (fun x f g => by
    show bind (bind x f) g = bind x fun a => bind (f a) g
    rcases x with _ | ⟨a, e⟩
    · rfl
    · rcases hf : f a with _ | ⟨b, e'⟩
      · simp only [bind, hf]
        rfl
      · rcases hg : g b with _ | ⟨c, e''⟩
        · simp only [bind, hf, hg]
          rfl
        · simp only [bind, hf, hg, Bool.or_assoc]
          rfl)

instance : Alternative Outcome where
  failure := none
  orElse x y := Option.orElse x y

end Outcome

variable {σ α β : Type}

/-- Raise the flag. -/
def raise : StateT σ Outcome Unit := fun s => some (((), s), true)

/-- A pure value that may be undefined. -/
def ofOption (o : Option α) : StateT σ Outcome α := fun s =>
  match o with
  | none => none
  | some a => some ((a, s), false)

/-- Started in `s`, the computation `x` returns `a` in state `s'`, with flag `e`. -/
def Yields (x : StateT σ Outcome α) (s : σ) (a : α) (e : Bool) (s' : σ) : Prop :=
  x.run s = some ((a, s'), e)

/-- Every outcome of `x` from `s` satisfies `Q`, and if `T` holds there is one. -/
def Runs (T : Prop) (x : StateT σ Outcome α) (s : σ) (Q : α → Bool → σ → Prop) : Prop :=
  (∀ a e s', Yields x s a e s' → Q a e s') ∧ (T → ∃ a e s', Yields x s a e s')

/-- Every outcome of `x` from `s` that does not raise the flag satisfies `Q`, and if `T` holds
there is an outcome and it does not raise the flag. -/
def Clean (T : Prop) (x : StateT σ Outcome α) (s : σ) (Q : α → σ → Prop) : Prop :=
  Runs T x s fun a e s' => (T → e = false) ∧ (e = false → Q a s')

/-- A value read off the outcome of `x` from `s`, so that it can be computed. -/
def eval (x : StateT σ Outcome α) (s : σ) (g : α → Bool → σ → β) : Option β :=
  match x.run s with
  | none => none
  | some ((a, s'), e) => some (g a e s')

/-- Every outcome of `x` is related by `R` to the state that `x` started in. -/
def Preserves (x : StateT σ Outcome α) (R : σ → σ → Prop) : Prop :=
  ∀ s, Runs False x s fun _ _ s' => R s s'

/-- The computation neither looks at the state nor changes it, and does not raise the flag. -/
def IsPure (x : StateT σ Outcome α) : Prop := ∃ o, x = ofOption o

/-! ## Outcomes of composed computations -/

/-- What comes after a conditional comes after each of its branches. -/
theorem ite_bind {c : Prop} [Decidable c] (x y : StateT σ Outcome α) (f : α → StateT σ Outcome β) :
    (if c then x else y) >>= f = if c then x >>= f else y >>= f := by
  split <;> rfl

section Yields

variable {s s' s'' : σ} {x : StateT σ Outcome α} {f : α → StateT σ Outcome β} {a : α} {b : β}
  {e e' : Bool}

/-- A computation has at most one outcome. -/
theorem Yields.unique {a' : α} (h : Yields x s a e s') (h' : Yields x s a' e' s'') :
    a' = a ∧ e' = e ∧ s'' = s' := by
  unfold Yields at h h'
  rw [h] at h'
  cases h'
  exact ⟨rfl, rfl, rfl⟩

theorem Yields.pure (a : α) (s : σ) : Yields (Pure.pure a) s a false s := rfl

theorem Yields.get (s : σ) : Yields (get : StateT σ Outcome σ) s s false s := rfl

theorem Yields.set (s s' : σ) :
    Yields (set s' : StateT σ Outcome PUnit) s PUnit.unit false s' := rfl

theorem Yields.bind {t : σ} {d : Bool} (h : Yields x s a e t) (h' : Yields (f a) t b d s'') :
    Yields (x >>= f) s b (e || d) s'' := by
  unfold Yields at h h' ⊢
  show Outcome.bind (x.run s) (fun p => (f p.1).run p.2) = _
  rw [h]
  simp only [Outcome.bind, h']
  rfl

/-- An outcome of `x >>= f` comes from an outcome of `x` and one of `f`. -/
theorem Yields.of_bind {e'' : Bool} (h : Yields (x >>= f) s b e'' s'') :
    ∃ a e s' e', Yields x s a e s' ∧ Yields (f a) s' b e' s'' ∧ e'' = (e || e') := by
  have h : Outcome.bind (x.run s) (fun p => (f p.1).run p.2) = some ((b, s''), e'') := h
  unfold Outcome.bind at h
  split at h
  next => cases h
  next p e hx =>
    split at h
    next => cases h
    next q e' hf =>
      cases h
      exact ⟨p.1, e, p.2, e', hx, hf, rfl⟩

/-- What `eval` has computed belongs to an outcome. -/
theorem exists_of_eval {γ : Type} {g : α → Bool → σ → γ} {v : γ} (h : eval x s g = some v) :
    ∃ a e s', Yields x s a e s' ∧ g a e s' = v := by
  unfold eval at h
  split at h
  next => cases h
  next a s' e hx =>
    cases h
    exact ⟨a, e, s', hx, rfl⟩

@[simp]
theorem yields_pure {a' : α} : Yields (Pure.pure a) s a' e s' ↔ a = a' ∧ s = s' ∧ e = false := by
  constructor
  · intro h
    obtain ⟨rfl, rfl, rfl⟩ := Yields.unique (Yields.pure a s) h
    exact ⟨rfl, rfl, rfl⟩
  · rintro ⟨rfl, rfl, rfl⟩
    rfl

end Yields

section Rules

variable {T : Prop} {s s' : σ} {x : StateT σ Outcome α} {f : α → StateT σ Outcome β}
  {P Q : α → Bool → σ → Prop} {Q' : β → Bool → σ → Prop} {a : α}

/-! ## Rules for `Runs` -/

theorem Runs.mono (h : Runs T x s P) (himp : ∀ a e s', P a e s' → Q a e s') : Runs T x s Q :=
  ⟨fun a e s' hx => himp a e s' (h.1 a e s' hx), h.2⟩

theorem Runs.and {T' : Prop} (h : Runs T x s P) (h' : Runs T' x s Q) :
    Runs T x s fun a e s' => P a e s' ∧ Q a e s' :=
  ⟨fun a e s' hy => ⟨h.1 a e s' hy, h'.1 a e s' hy⟩, h.2⟩

theorem Runs.of_yields {e : Bool} (h : Yields x s a e s') (hQ : Q a e s') : Runs T x s Q := by
  refine ⟨fun a' e' s'' h' => ?_, fun _ => ⟨a, e, s', h⟩⟩
  obtain ⟨rfl, rfl, rfl⟩ := h.unique h'
  exact hQ

theorem Runs.exists (h : Runs True x s Q) : ∃ a e s', Yields x s a e s' ∧ Q a e s' := by
  obtain ⟨a, e, s', hx⟩ := h.2 trivial
  exact ⟨a, e, s', hx, h.1 a e s' hx⟩

/-- The outcome of a computation whose value and flag are known. -/
theorem Runs.yields {e : Bool} {R : σ → Prop}
    (h : Runs True x s fun a' e' s' => a' = a ∧ e' = e ∧ R s') :
    ∃ s', Yields x s a e s' ∧ R s' := by
  obtain ⟨a', e', s', hy, rfl, rfl, hR⟩ := h.exists
  exact ⟨s', hy, hR⟩

theorem Runs.bind (hx : Runs T x s P)
    (hf : ∀ a e s', P a e s' → Runs T (f a) s' fun b e' s'' => Q' b (e || e') s'') :
    Runs T (x >>= f) s Q' := by
  constructor
  · intro b e'' s'' h
    obtain ⟨a, e, s', e', h₁, h₂, rfl⟩ := h.of_bind
    exact (hf a e s' (hx.1 a e s' h₁)).1 b e' s'' h₂
  · intro hT
    obtain ⟨a, e, s', h₁⟩ := hx.2 hT
    obtain ⟨b, e', s'', h₂⟩ := (hf a e s' (hx.1 a e s' h₁)).2 hT
    exact ⟨b, _, s'', h₁.bind h₂⟩

/-- A result that is right however the computation goes on from its first step. -/
theorem Runs.bind_forall {R : β → Prop} (hf : ∀ a s', Runs False (f a) s' fun b _ _ => R b) :
    Runs False (x >>= f) s fun b _ _ => R b :=
  Runs.bind (P := fun _ _ _ => True) ⟨fun _ _ _ _ => trivial, nofun⟩ fun a _ s' _ => hf a s'

/-- A computation without an outcome has none when it goes on. -/
theorem Runs.bind_of_false (h : Runs T x s fun _ _ _ => False) : Runs T (x >>= f) s Q' :=
  h.bind fun _ _ _ hfalse => hfalse.elim

@[simp]
theorem runs_pure : Runs T (Pure.pure a) s Q ↔ Q a false s :=
  ⟨fun h => h.1 a false s rfl, fun h => Runs.of_yields (Yields.pure a s) h⟩

/-- A computation that starts with one of outcome `a` and no flag goes on from there. -/
theorem runs_bind_of_yields (h : Yields x s a false s') :
    Runs T (x >>= f) s Q' ↔ Runs T (f a) s' Q' := by
  have key : (x >>= f).run s = (f a).run s' := by
    unfold Yields at h
    show Outcome.bind (x.run s) (fun p => (f p.1).run p.2) = _
    rw [h]
    cases h' : (f a).run s' with
    | none =>
      simp only [Outcome.bind, h']
      rfl
    | some r =>
      simp only [Outcome.bind, h', Bool.false_or]
      rfl
  unfold Runs Yields
  rw [key]

@[simp]
theorem runs_pure_bind : Runs T (Pure.pure a >>= f) s Q' ↔ Runs T (f a) s Q' :=
  runs_bind_of_yields (Yields.pure a s)

@[simp]
theorem runs_get_bind {f : σ → StateT σ Outcome β} :
    Runs T (get >>= f) s Q' ↔ Runs T (f s) s Q' :=
  runs_bind_of_yields rfl

@[simp]
theorem runs_set_bind {f : PUnit → StateT σ Outcome β} :
    Runs T (set s' >>= f) s Q' ↔ Runs T (f ⟨⟩) s' Q' :=
  runs_bind_of_yields rfl

@[simp]
theorem runs_modify_bind {g : σ → σ} {f : PUnit → StateT σ Outcome β} :
    Runs T (modify g >>= f) s Q' ↔ Runs T (f ⟨⟩) (g s) Q' :=
  runs_bind_of_yields rfl

@[simp]
theorem runs_modify {g : σ → σ} {Q : PUnit → Bool → σ → Prop} :
    Runs T (modify g) s Q ↔ Q ⟨⟩ false (g s) :=
  ⟨fun h => h.1 ⟨⟩ false (g s) rfl,
    fun h => Runs.of_yields (rfl : Yields (modify g) s PUnit.unit false (g s)) h⟩

@[simp]
theorem runs_raise_bind {f : Unit → StateT σ Outcome β} :
    Runs T (raise >>= f) s Q' ↔ Runs T (f ()) s fun b _ s' => Q' b true s' := by
  constructor
  · intro h
    constructor
    · intro b e s' hf
      exact h.1 b _ s' (Yields.bind (e := true) rfl hf)
    · intro hT
      obtain ⟨b, e, s', hx⟩ := h.2 hT
      obtain ⟨a, e₁, s₁, e₂, h₁, h₂, -⟩ := hx.of_bind
      obtain ⟨rfl, -, rfl⟩ := Yields.unique (rfl : Yields raise s () true s) h₁
      exact ⟨b, e₂, s', h₂⟩
  · intro h
    refine Runs.bind (Runs.of_yields (rfl : Yields raise s () true s)
      (Q := fun _ e s' => e = true ∧ s' = s) ⟨rfl, rfl⟩) ?_
    rintro ⟨⟩ e s' ⟨rfl, rfl⟩
    simpa using h

@[simp]
theorem runs_ofOption_some : Runs T (ofOption (some a)) s Q ↔ Q a false s :=
  ⟨fun h => h.1 a false s rfl,
    fun h => Runs.of_yields (rfl : Yields (ofOption (some a)) s a false s) h⟩

@[simp]
theorem runs_ofOption_some_bind : Runs T (ofOption (some a) >>= f) s Q' ↔ Runs T (f a) s Q' :=
  runs_bind_of_yields rfl

/-- A pure value that may be undefined: whatever holds of it is known afterwards. -/
theorem Runs.ofOption_bind {o : Option α} (ho : T → o.isSome)
    (hf : ∀ a, o = some a → Runs T (f a) s Q') : Runs T (ofOption o >>= f) s Q' := by
  cases o with
  | none =>
    refine ⟨fun b e s' h => ?_, fun hT => absurd (ho hT) (by simp)⟩
    obtain ⟨a, e, s', e', h₁, -, -⟩ := h.of_bind
    cases h₁
  | some a => simpa using hf a rfl

/-- The undefined computation satisfies everything, but does not terminate. -/
theorem Runs.failure (hT : ¬T) : Runs T (failure : StateT σ Outcome α) s Q :=
  ⟨fun _ _ _ h => absurd h (Option.some_ne_none _).symm, fun h => absurd h hT⟩

theorem Runs.ite {c : Prop} [Decidable c] {y : StateT σ Outcome α}
    (ht : c → Runs T x s Q) (hf : ¬c → Runs T y s Q) : Runs T (if c then x else y) s Q := by
  split
  · exact ht ‹_›
  · exact hf ‹_›

end Rules

section Clean

variable {T : Prop} {s s' : σ} {x : StateT σ Outcome α} {f : α → StateT σ Outcome β}
  {P Q : α → σ → Prop} {Q' : β → σ → Prop} {a : α}

/-! ## Rules for `Clean` -/

theorem Clean.mono (h : Clean T x s P) (himp : ∀ a s', P a s' → Q a s') : Clean T x s Q :=
  Runs.mono h fun a _ s' hP => ⟨hP.1, fun he => himp a s' (hP.2 he)⟩

/-- A computation goes on with one that may not return, although it raises no flag. -/
theorem Clean.bind_runs {F : Prop} (hx : Clean F x s P) (hT : T → F) (hf : ∀ a s', P a s' →
    Runs T (f a) s' fun b e s'' => (F → e = false) ∧ (e = false → Q' b s'')) :
    Runs T (x >>= f) s fun b e s'' => (F → e = false) ∧ (e = false → Q' b s'') := by
  refine Runs.bind ⟨hx.1, fun ht => hx.2 (hT ht)⟩ fun a e s' hP => ?_
  cases e with
  | false =>
    refine Runs.mono (hf a s' (hP.2 rfl)) fun b e' s'' hQ => ?_
    simpa using hQ
  | true =>
    have hF : ¬F := fun hF => Bool.noConfusion (hP.1 hF)
    exact ⟨fun b e' s'' _ => ⟨fun h => absurd h hF, fun h => by simp at h⟩,
      fun ht => absurd (hT ht) hF⟩

theorem Clean.bind (hx : Clean T x s P) (hf : ∀ a s', P a s' → Clean T (f a) s' Q') :
    Clean T (x >>= f) s Q' :=
  hx.bind_runs id hf

/-- A computation without an outcome has none when it goes on. -/
theorem Clean.bind_of_false (h : Clean T x s fun _ _ => False) : Clean T (x >>= f) s Q' :=
  h.bind fun _ _ hfalse => hfalse.elim

/-- What holds of an outcome without flag. -/
theorem Clean.of_yields (h : Clean T x s Q) (hx : Yields x s a false s') : Q a s' :=
  (h.1 a false s' hx).2 rfl

/-- The outcome of a computation that terminates. -/
theorem Clean.exists (h : Clean T x s Q) (hT : T) : ∃ a s', Yields x s a false s' ∧ Q a s' := by
  obtain ⟨a, e, s', hx⟩ := h.2 hT
  have hP := h.1 a e s' hx
  have he := hP.1 hT
  exact ⟨a, s', he ▸ hx, hP.2 he⟩

@[simp]
theorem clean_pure : Clean T (Pure.pure a) s Q ↔ Q a s := by
  unfold Clean
  simp

theorem clean_bind_of_yields (h : Yields x s a false s') :
    Clean T (x >>= f) s Q' ↔ Clean T (f a) s' Q' := runs_bind_of_yields h

@[simp]
theorem clean_pure_bind : Clean T (Pure.pure a >>= f) s Q' ↔ Clean T (f a) s Q' :=
  runs_pure_bind

@[simp]
theorem clean_get_bind {f : σ → StateT σ Outcome β} :
    Clean T (get >>= f) s Q' ↔ Clean T (f s) s Q' := runs_get_bind

@[simp]
theorem clean_modify {g : σ → σ} {Q : PUnit → σ → Prop} :
    Clean T (modify g) s Q ↔ Q ⟨⟩ (g s) := by
  unfold Clean
  simp

@[simp]
theorem clean_ofOption_some : Clean T (ofOption (some a)) s Q ↔ Q a s := by
  unfold Clean
  simp

@[simp]
theorem clean_ofOption_some_bind : Clean T (ofOption (some a) >>= f) s Q' ↔ Clean T (f a) s Q' :=
  runs_ofOption_some_bind

theorem Clean.ofOption_bind {o : Option α} (ho : T → o.isSome)
    (hf : ∀ a, o = some a → Clean T (f a) s Q') : Clean T (ofOption o >>= f) s Q' :=
  Runs.ofOption_bind ho hf

/-- The outcome itself may be kept along with what is known of it. -/
theorem Clean.yields (h : Clean T x s Q) :
    Clean T x s fun a s' => Yields x s a false s' ∧ Q a s' := by
  refine ⟨fun a e s' hy => ⟨(h.1 a e s' hy).1, ?_⟩, h.2⟩
  rintro rfl
  exact ⟨hy, (h.1 a false s' hy).2 rfl⟩

theorem Clean.failure (hT : ¬T) : Clean T (failure : StateT σ Outcome α) s Q := Runs.failure hT

end Clean

section Preserves

variable {x : StateT σ Outcome α} {f : α → StateT σ Outcome β} {R : σ → σ → Prop} {a : α}

/-! ## Rules for `Preserves` -/

theorem Preserves.pure (hrefl : ∀ s, R s s) : Preserves (Pure.pure a) R :=
  fun s => runs_pure.mpr (hrefl s)

theorem Preserves.bind (htrans : ∀ s₁ s₂ s₃, R s₁ s₂ → R s₂ s₃ → R s₁ s₃)
    (hx : Preserves x R) (hf : ∀ a, Preserves (f a) R) : Preserves (x >>= f) R :=
  fun s => (hx s).bind fun a _ s' h => (hf a s').mono fun _ _ s'' h' => htrans s s' s'' h h'

theorem Preserves.get_bind {f : σ → StateT σ Outcome β}
    (hf : ∀ s, Runs False (f s) s fun _ _ s' => R s s') : Preserves (get >>= f) R :=
  fun s => runs_get_bind.mpr (hf s)

theorem Preserves.ite {c : Prop} [Decidable c] {y : StateT σ Outcome α}
    (hx : Preserves x R) (hy : Preserves y R) : Preserves (if c then x else y) R := by
  split
  · exact hx
  · exact hy

end Preserves

section IsPure

variable {x : StateT σ Outcome α} {f : α → StateT σ Outcome β} {a a' : α}

/-! ## Computations that do not look at the state -/

theorem IsPure.pure (a : α) : IsPure (Pure.pure a : StateT σ Outcome α) := ⟨some a, rfl⟩

theorem IsPure.ofOption_bind {o : Option α} (hf : ∀ a, IsPure (f a)) :
    IsPure (ofOption o >>= f) := by
  cases o with
  | none => exact ⟨none, rfl⟩
  | some a =>
    rw [show (ofOption (some a) : StateT σ Outcome α) = Pure.pure a from rfl, pure_bind]
    exact hf a

theorem IsPure.get_bind {y : StateT σ Outcome β} (hy : IsPure y) : IsPure (get >>= fun _ => y) := by
  obtain ⟨o, rfl⟩ := hy
  refine ⟨o, funext fun s => ?_⟩
  cases o <;> rfl

/-- The value is the same in every state. -/
theorem IsPure.unique (h : IsPure x) {s t s' t' : σ} {e e' : Bool} (hs : Yields x s a e s')
    (ht : Yields x t a' e' t') : a = a' := by
  obtain ⟨o, rfl⟩ := h
  cases o with
  | none => cases hs
  | some b =>
    cases hs
    cases ht
    rfl

end IsPure

end Comp
