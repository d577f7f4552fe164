import Mathlib.Data.List.Nodup

/-!
# Linked structures

`Linked next stop a l`: following the links `next` from `a` one comes through the elements of `l`
in this order and then to `stop`. The links are a function, so that the same predicate serves for
lists threaded through a heap, through a table or through the pages of a file.

The results say how links may change without changing the list (`Linked.congr`), how a list grows
at its front and at its end (`linked_cons`, `Linked.append_new`), and that a list that comes to an
end has no element twice (`Linked.nodup`).
-/

variable {α : Type}

/-- Following `next` from `a` leads through `l` and then to `stop`. -/
def Linked (next : α → α) (stop : α) : α → List α → Prop
  | a, [] => a = stop
  | a, b :: l => b = a ∧ b ≠ stop ∧ Linked next stop (next b) l

namespace Linked

variable {next next' : α → α} {stop a b : α} {l l' : List α}

@[simp]
theorem nil_iff : Linked next stop a [] ↔ a = stop := Iff.rfl

/-- The list is empty exactly if it starts at the end. -/
theorem eq_nil_iff (h : Linked next stop a l) : l = [] ↔ a = stop := by
  cases l with
  | nil => exact ⟨fun _ => h, fun _ => rfl⟩
  | cons b l =>
    obtain ⟨rfl, hb, -⟩ := h
    exact ⟨nofun, fun he => absurd he hb⟩

/-- The first element. -/
theorem exists_cons (h : Linked next stop a l) (ha : a ≠ stop) :
    ∃ l', l = a :: l' ∧ Linked next stop (next a) l' := by
  cases l with
  | nil => exact absurd h ha
  | cons b l =>
    obtain ⟨rfl, -, hl⟩ := h
    exact ⟨l, rfl, hl⟩

theorem ne_stop_of_mem (h : Linked next stop a l) (hb : b ∈ l) : b ≠ stop := by
  induction l generalizing a with
  | nil => simp at hb
  | cons c l ih =>
    obtain ⟨rfl, hc, hl⟩ := h
    rcases List.mem_cons.mp hb with rfl | hb
    · exact hc
    · exact ih hl hb

/-- The links determine the list. -/
theorem unique (h : Linked next stop a l) (h' : Linked next stop a l') : l = l' := by
  induction l generalizing a l' with
  | nil => exact ((h'.eq_nil_iff).mpr h).symm
  | cons b l ih =>
    obtain ⟨rfl, hb, hl⟩ := h
    obtain ⟨l'', rfl, hl'⟩ := h'.exists_cons hb
    rw [ih hl hl']

/-- Only the links of the elements matter. -/
theorem congr (h : Linked next stop a l) (hnext : ∀ b ∈ l, next' b = next b) :
    Linked next' stop a l := by
  induction l generalizing a with
  | nil => exact h
  | cons b l ih =>
    obtain ⟨rfl, hb, hl⟩ := h
    refine ⟨rfl, hb, ?_⟩
    rw [hnext b List.mem_cons_self]
    exact ih hl fun c hc => hnext c (List.mem_cons_of_mem b hc)

/-- What follows an element is linked from there. -/
theorem of_append_cons {l₁ l₂ : List α} (h : Linked next stop a (l₁ ++ b :: l₂)) :
    Linked next stop (next b) l₂ := by
  induction l₁ generalizing a with
  | nil => exact h.2.2
  | cons c l₁ ih => exact ih h.2.2

/-- A list that comes to an end has no element twice. -/
theorem nodup (h : Linked next stop a l) : l.Nodup := by
  induction l generalizing a with
  | nil => exact List.nodup_nil
  | cons b l ih =>
    obtain ⟨rfl, -, hl⟩ := h
    refine List.nodup_cons.mpr ⟨fun hb => ?_, ih hl⟩
    -- from a second occurrence of `b` the rest of the list would be its own proper suffix
    obtain ⟨l₁, l₂, rfl⟩ := List.append_of_mem hb
    have := congrArg List.length (hl.unique hl.of_append_cons)
    simp only [List.length_append, List.length_cons] at this
    omega

/-- The list grows at its end by an element `b` that it did not have; the link of the element that
was last so far has to be changed. -/
theorem append_new [DecidableEq α] {z : α} (h : Linked next stop a (l ++ [z])) (hb : b ∉ l ++ [z])
    (hbs : b ≠ stop) :
    Linked (fun c => if c = b then stop else if c = z then b else next c) stop a
      (l ++ [z, b]) := by
  induction l generalizing a with
  | nil =>
    obtain ⟨rfl, hz, -⟩ := h
    have hzb : z ≠ b := fun he => hb (by simp [he])
    exact ⟨rfl, hz, by simp [hzb], hbs, by simp⟩
  | cons c l ih =>
    have hnd := h.nodup
    obtain ⟨rfl, hc, hl⟩ := h
    have hcz : c ≠ z := by
      rintro rfl
      exact (List.nodup_cons.mp hnd).1 (by simp)
    have hcb : c ≠ b := by
      rintro rfl
      exact hb (by simp)
    refine ⟨rfl, hc, ?_⟩
    simp only [if_neg hcb, if_neg hcz]
    exact ih hl fun hm => hb (List.mem_cons_of_mem c hm)

end Linked
