import Mathlib.Order.Lattice
import Mathlib.Data.List.Basic

/-!
# Merging sorted lists

Several sorted lists are merged by taking away, again and again, the first element of the first
list whose first element is least. What is taken away, in this order, is the stable sort of the
lists one after the other: the elements in the order of their keys, and elements with equal keys
in the order of the lists and of the places in them.

## Main definitions

* `leKey`: the order of the keys, as a test.
* `FirstMin`: the number of the list to take from.

## Main results

* `pairwise_mergeSort`: the stable sort is ordered by the keys, and then by the places.
* `FirstMin.mergeSort`: taking one element away takes the first one off the stable sort.
-/

namespace Merge

variable {α κ : Type} [LinearOrder κ] {key : α → κ}

/-- The order of the keys, as a test. -/
def leKey (key : α → κ) (a b : α) : Bool := decide (key a ≤ key b)

theorem leKey_iff {a b : α} : leKey key a b = true ↔ key a ≤ key b := decide_eq_true_iff

theorem leKey_trans (a b c : α) (hab : leKey key a b = true) (hbc : leKey key b c = true) :
    leKey key a c = true :=
  leKey_iff.mpr ((leKey_iff.mp hab).trans (leKey_iff.mp hbc))

theorem leKey_total (a b : α) : (leKey key a b || leKey key b a) = true := by
  rw [Bool.or_eq_true, leKey_iff, leKey_iff]
  exact le_total (key a) (key b)

/-- The sorted order. -/
def Sorted (key : α → κ) (l : List α) : Prop := l.Pairwise fun a b => key a ≤ key b

/-- `mergeSort` sorts. -/
theorem sorted_mergeSort (key : α → κ) (l : List α) : Sorted key (l.mergeSort (leKey key)) :=
  (List.pairwise_mergeSort leKey_trans leKey_total l).imp leKey_iff.mp

/-- Where an element of a sorted list is found does not depend on how it is looked for. -/
theorem append_inj_of_sorted {x : α} {l₁ l₂ m₁ m₂ : List α} (heq : l₁ ++ l₂ = m₁ ++ m₂)
    (hl₁ : ∀ b ∈ l₁, key b < key x) (hl₂ : ∀ b ∈ l₂, key x ≤ key b)
    (hm₁ : ∀ b ∈ m₁, key b < key x) (hm₂ : ∀ b ∈ m₂, key x ≤ key b) : l₁ = m₁ ∧ l₂ = m₂ := by
  induction l₁ generalizing m₁ with
  | nil =>
    cases m₁ with
    | nil => exact ⟨rfl, heq⟩
    | cons c m₁ =>
      -- the first element would be both less and not less
      rw [List.nil_append] at heq
      have hc : c ∈ l₂ := heq ▸ List.mem_cons_self
      exact absurd (hm₁ c List.mem_cons_self) (not_lt.mpr (hl₂ c hc))
  | cons b l₁ ih =>
    cases m₁ with
    | nil =>
      rw [List.nil_append] at heq
      have hb : b ∈ m₂ := heq ▸ List.mem_cons_self
      exact absurd (hl₁ b List.mem_cons_self) (not_lt.mpr (hm₂ b hb))
    | cons c m₁ =>
      obtain ⟨rfl, htail⟩ := List.cons.inj heq
      obtain ⟨rfl, rfl⟩ := ih htail (fun d hd => hl₁ d (List.mem_cons_of_mem b hd))
        fun d hd => hm₁ d (List.mem_cons_of_mem b hd)
      exact ⟨rfl, rfl⟩

/-- What `mergeSort` makes of one element more, at the front. -/
theorem mergeSort_cons_split (key : α → κ) (x : α) (l : List α) :
    ∃ l₁ l₂, (x :: l).mergeSort (leKey key) = l₁ ++ x :: l₂ ∧ l.mergeSort (leKey key) = l₁ ++ l₂ ∧
      (∀ b ∈ l₁, key b < key x) ∧ ∀ b ∈ l₂, key x ≤ key b := by
  obtain ⟨l₁, l₂, hcons, htail, hlt⟩ :=
    @List.mergeSort_cons α (leKey key) leKey_trans leKey_total x l
  refine ⟨l₁, l₂, hcons, htail, fun b hb => ?_, fun b hb => ?_⟩
  · have := hlt b hb
    rw [Bool.not_eq_true', ← Bool.not_eq_true, leKey_iff] at this
    exact not_le.mp this
  · have hsorted := sorted_mergeSort key (x :: l)
    rw [hcons] at hsorted
    exact (List.pairwise_cons.mp (List.pairwise_append.mp hsorted).2.1).1 b hb

/-- The sort is stable: elements with equal keys stay in the order in which they were. -/
theorem pairwise_mergeSort {r : α → α → Prop} {l : List α} (hl : l.Pairwise r) :
    (l.mergeSort (leKey key)).Pairwise fun a b => key a < key b ∨ key a = key b ∧ r a b := by
  induction l with
  | nil =>
    rw [List.mergeSort_nil]
    exact List.Pairwise.nil
  | cons x l ih =>
    obtain ⟨hx, hl⟩ := List.pairwise_cons.mp hl
    obtain ⟨l₁, l₂, hcons, htail, hlt, hle⟩ := mergeSort_cons_split key x l
    have hpair := ih hl
    rw [htail, List.pairwise_append] at hpair
    obtain ⟨h₁, h₂, h₁₂⟩ := hpair
    rw [hcons, List.pairwise_append, List.pairwise_cons]
    refine ⟨h₁, ⟨fun b hb => ?_, h₂⟩, fun a ha b hb => ?_⟩
    · -- `x` was in front of all others
      have hmem : b ∈ l := (List.mergeSort_perm l (leKey key)).mem_iff.mp
        (htail ▸ List.mem_append_right l₁ hb)
      exact (hle b hb).lt_or_eq.imp_right fun he => ⟨he, hx b hmem⟩
    · rcases List.mem_cons.mp hb with rfl | hb
      · exact Or.inl (hlt a ha)
      · exact h₁₂ a ha b hb

/-- An element comes first if it is less than those in front of it and not greater than those
behind it. -/
theorem mergeSort_of_first {a : α} {pre post : List α} (hpre : ∀ b ∈ pre, key a < key b)
    (hpost : ∀ b ∈ post, key a ≤ key b) :
    (pre ++ a :: post).mergeSort (leKey key) = a :: (pre ++ post).mergeSort (leKey key) := by
  induction pre with
  | nil =>
    obtain ⟨l₁, l₂, hcons, htail, hlt, -⟩ := mergeSort_cons_split key a post
    -- nothing of the rest comes before
    have hnil : l₁ = [] := by
      refine List.eq_nil_iff_forall_not_mem.mpr fun b hb => ?_
      have hmem : b ∈ post := (List.mergeSort_perm post _).mem_iff.mp
        (htail ▸ List.mem_append_left l₂ hb)
      exact absurd (hlt b hb) (not_lt.mpr (hpost b hmem))
    rw [List.nil_append, List.nil_append, hcons, htail, hnil]
    rfl
  | cons x pre ih =>
    replace ih := ih fun b hb => hpre b (List.mem_cons_of_mem x hb)
    obtain ⟨l₁, l₂, hcons, htail, hlt, hle⟩ := mergeSort_cons_split key x (pre ++ a :: post)
    obtain ⟨m₁, m₂, hcons', htail', hlt', hle'⟩ := mergeSort_cons_split key x (pre ++ post)
    rw [ih] at htail
    cases l₁ with
    | nil =>
      -- `a` would come behind `x`
      have ha : a ∈ l₂ := (show a :: _ = l₂ from htail) ▸ List.mem_cons_self
      exact absurd (hpre x List.mem_cons_self) (not_lt.mpr (hle a ha))
    | cons b l₁ =>
      obtain ⟨rfl, hrest⟩ := List.cons.inj (htail.trans (List.cons_append ..))
      rw [htail'] at hrest
      obtain ⟨rfl, rfl⟩ := append_inj_of_sorted hrest hlt' hle'
        (fun b hb => hlt b (List.mem_cons_of_mem a hb)) hle
      rw [List.cons_append, List.cons_append, hcons, hcons']
      rfl

/-- The number of the first list whose first element is least; `none` if all lists are empty. -/
def FirstMin (key : α → κ) (ls : List (List α)) : Option Nat → Prop
  | none => ∀ l ∈ ls, l = []
  | some i => ∃ pre a t post, ls = pre ++ (a :: t) :: post ∧ pre.length = i ∧
      (∀ l ∈ pre, ∀ b ∈ l.head?, key a < key b) ∧ ∀ l ∈ post, ∀ b ∈ l.head?, key a ≤ key b

namespace FirstMin

variable {ls : List (List α)} {o : Option Nat} {i : Nat} {a b : α} {t u : List α}

theorem nil : FirstMin key [] none := nofun

/-- An empty list is passed over. -/
theorem append_nil (h : FirstMin key ls o) : FirstMin key (ls ++ [[]]) o := by
  cases o with
  | none =>
    intro l hl
    rcases List.mem_append.mp hl with hl | hl
    · exact h l hl
    · exact List.mem_singleton.mp hl
  | some i =>
    obtain ⟨pre, a, t, post, rfl, hi, hpre, hpost⟩ := h
    refine ⟨pre, a, t, post ++ [[]], by rw [List.append_assoc, List.cons_append], hi, hpre, ?_⟩
    intro l hl b hb
    rcases List.mem_append.mp hl with hl | hl
    · exact hpost l hl b hb
    · rw [List.mem_singleton.mp hl] at hb
      cases hb

/-- The first list that is not empty. -/
theorem first (h : FirstMin key ls none) : FirstMin key (ls ++ [a :: t]) (some ls.length) := by
  refine ⟨ls, a, t, [], rfl, rfl, fun l hl b hb => ?_, nofun⟩
  rw [h l hl] at hb
  cases hb

/-- The least element stays the least. -/
theorem keep (h : FirstMin key ls (some i)) (hi : ls[i]? = some (b :: u)) (hle : key b ≤ key a) :
    FirstMin key (ls ++ [a :: t]) (some i) := by
  obtain ⟨pre, c, v, post, rfl, rfl, hpre, hpost⟩ := h
  rw [List.getElem?_append_right (Nat.le_refl _), Nat.sub_self] at hi
  obtain ⟨rfl, rfl⟩ := List.cons.inj (Option.some.inj hi)
  refine ⟨pre, c, v, post ++ [a :: t], by rw [List.append_assoc, List.cons_append], rfl, hpre, ?_⟩
  intro l hl d hd
  rcases List.mem_append.mp hl with hl | hl
  · exact hpost l hl d hd
  · rw [List.mem_singleton.mp hl] at hd
    cases hd
    exact hle

/-- A lesser element takes its place. -/
theorem replace (h : FirstMin key ls (some i)) (hi : ls[i]? = some (b :: u)) (hlt : key a < key b) :
    FirstMin key (ls ++ [a :: t]) (some ls.length) := by
  obtain ⟨pre, c, v, post, rfl, rfl, hpre, hpost⟩ := h
  rw [List.getElem?_append_right (Nat.le_refl _), Nat.sub_self] at hi
  obtain ⟨rfl, rfl⟩ := List.cons.inj (Option.some.inj hi)
  refine ⟨_, a, t, [], rfl, rfl, fun l hl d hd => ?_, nofun⟩
  rcases List.mem_append.mp hl with hl | hl
  · exact hlt.trans (hpre l hl d hd)
  · rcases List.mem_cons.mp hl with rfl | hl
    · cases hd
      exact hlt
    · exact hlt.trans_le (hpost l hl d hd)

/-- The first element of a sorted list is less than another key, or not greater, if this holds of
all of them. -/
theorem sorted_le {l : List α} {k : κ} (hl : Sorted key l) (hhead : ∀ b ∈ l.head?, k ≤ key b) :
    ∀ b ∈ l, k ≤ key b := by
  cases l with
  | nil => nofun
  | cons c l =>
    intro b hb
    have hc : k ≤ key c := hhead c rfl
    rcases List.mem_cons.mp hb with rfl | hb
    · exact hc
    · exact hc.trans ((List.pairwise_cons.mp hl).1 b hb)

theorem sorted_lt {l : List α} {k : κ} (hl : Sorted key l) (hhead : ∀ b ∈ l.head?, k < key b) :
    ∀ b ∈ l, k < key b := by
  cases l with
  | nil => nofun
  | cons c l =>
    intro b hb
    have hc : k < key c := hhead c rfl
    rcases List.mem_cons.mp hb with rfl | hb
    · exact hc
    · exact hc.trans_le ((List.pairwise_cons.mp hl).1 b hb)

/-- Taking the element away takes the first element off the stable sort. -/
theorem mergeSort (h : FirstMin key ls (some i)) (hsorted : ∀ l ∈ ls, Sorted key l)
    (hi : ls[i]? = some (a :: t)) :
    ls.flatten.mergeSort (leKey key) = a :: (ls.set i t).flatten.mergeSort (leKey key) := by
  obtain ⟨pre, c, v, post, rfl, rfl, hpre, hpost⟩ := h
  rw [List.getElem?_append_right (Nat.le_refl _), Nat.sub_self] at hi
  obtain ⟨rfl, rfl⟩ := List.cons.inj (Option.some.inj hi)
  have hset : (pre ++ (c :: v) :: post).set pre.length v = pre ++ v :: post := by
    rw [List.set_append_right _ _ (Nat.le_refl _), Nat.sub_self]
    rfl
  rw [hset]
  simp only [List.flatten_append, List.flatten_cons, List.cons_append]
  refine mergeSort_of_first (fun b hb => ?_) fun b hb => ?_
  · obtain ⟨l, hl, hb⟩ := List.mem_flatten.mp hb
    exact sorted_lt (hsorted l (List.mem_append_left _ hl)) (hpre l hl) b hb
  · rcases List.mem_append.mp hb with hb | hb
    · have hcv := hsorted (c :: v) (List.mem_append_right _ List.mem_cons_self)
      exact (List.pairwise_cons.mp hcv).1 b hb
    · obtain ⟨l, hl, hb⟩ := List.mem_flatten.mp hb
      exact sorted_le (hsorted l (List.mem_append_right _ (List.mem_cons_of_mem _ hl)))
        (hpost l hl) b hb

end FirstMin

/-! ## Picking by comparisons -/

variable {gt : α → α → Option Bool}

/-- Look at the first elements of the lists one after the other, and keep the number of a list and
its first element; `gt` compares the element that is kept with the next one, and may have no value.
The first list has the number `k`. -/
def pick (gt : α → α → Option Bool) :
    Nat → Option (Nat × α) → List (List α) → Option (Option (Nat × α))
  | _, o, [] => some o
  | k, o, [] :: ls => pick gt (k + 1) o ls
  | k, none, (x :: _) :: ls => pick gt (k + 1) (some (k, x)) ls
  | k, some (i, b), (x :: _) :: ls =>
    (gt b x).bind fun g => pick gt (k + 1) (some (if g then (k, x) else (i, b))) ls

/-- The element that is kept is compared with the next one. -/
theorem pick_some_cons {k i : Nat} {b x : α} {t : List α} {ls : List (List α)} :
    pick gt k (some (i, b)) ((x :: t) :: ls) =
      (gt b x).bind fun g => pick gt (k + 1) (some (if g then (k, x) else (i, b))) ls := rfl

/-- Merging takes away the element that is picked, as long as there is one. -/
inductive Merges (gt : α → α → Option Bool) : List (List α) → List α → Prop
  | nil {ls : List (List α)} (h : pick gt 0 none ls = some none) : Merges gt ls []
  | cons {ls : List (List α)} {i : Nat} {x : α} {t out : List α}
      (h : pick gt 0 none ls = some (some (i, x))) (hi : ls[i]? = some (x :: t))
      (hrest : Merges gt (ls.set i t) out) : Merges gt ls (x :: out)

/-- Nothing is picked if the lists are empty. -/
theorem pick_eq_none {k : Nat} {o : Option (Nat × α)} {ls : List (List α)}
    (h : pick gt k o ls = some none) : o = none ∧ ∀ l ∈ ls, l = [] := by
  induction ls generalizing k o with
  | nil => exact ⟨Option.some.inj h, nofun⟩
  | cons l ls ih =>
    cases l with
    | nil =>
      obtain ⟨ho, hls⟩ := ih (o := o) h
      refine ⟨ho, fun l hl => ?_⟩
      rcases List.mem_cons.mp hl with rfl | hl
      · rfl
      · exact hls l hl
    | cons x t =>
      -- what has been kept once is not given up
      cases o with
      | none => cases (ih (o := some (k, x)) h).1
      | some b =>
        obtain ⟨i, b⟩ := b
        obtain ⟨g, -, h⟩ := Option.bind_eq_some_iff.mp h
        cases (ih h).1

/-- What is picked is the first element of the list with the number. -/
theorem getElem?_of_pick {k i : Nat} {x : α} {o : Option (Nat × α)} {ls : List (List α)}
    (h : pick gt k o ls = some (some (i, x))) :
    o = some (i, x) ∨ ∃ t, k ≤ i ∧ ls[i - k]? = some (x :: t) := by
  induction ls generalizing k o with
  | nil => exact Or.inl (Option.some.inj h)
  | cons l ls ih =>
    -- the lists behind the first one have greater numbers
    have hrest : ∀ {o' : Option (Nat × α)}, pick gt (k + 1) o' ls = some (some (i, x)) →
        o' = some (i, x) ∨ ∃ t, k ≤ i ∧ (l :: ls)[i - k]? = some (x :: t) := by
      intro o' h'
      refine (ih h').imp_right fun ⟨t, hle, ht⟩ => ⟨t, by omega, ?_⟩
      rw [show i - k = i - (k + 1) + 1 by omega, List.getElem?_cons_succ]
      exact ht
    cases l with
    | nil => exact hrest h
    | cons y u =>
      cases o with
      | none =>
        rcases hrest h with he | ht
        · cases he
          refine Or.inr ⟨u, Nat.le_refl _, ?_⟩
          rw [Nat.sub_self]
          rfl
        · exact Or.inr ht
      | some b =>
        obtain ⟨j, b⟩ := b
        obtain ⟨g, -, h⟩ := Option.bind_eq_some_iff.mp h
        rcases hrest h with he | ht
        · cases g with
          | true =>
            cases he
            refine Or.inr ⟨u, Nat.le_refl _, ?_⟩
            rw [Nat.sub_self]
            rfl
          | false => exact Or.inl he
        · exact Or.inr ht

/-- If all comparisons have values, something is picked, or there is nothing. -/
theorem isSome_pick {S : α → Prop} (hgt : ∀ a b, S a → S b → (gt a b).isSome) {k : Nat}
    {o : Option (Nat × α)} {ls : List (List α)} (ho : ∀ i b, o = some (i, b) → S b)
    (hls : ∀ l ∈ ls, ∀ a ∈ l, S a) : (pick gt k o ls).isSome := by
  induction ls generalizing k o with
  | nil => rfl
  | cons l ls ih =>
    have htail : ∀ l' ∈ ls, ∀ a ∈ l', S a := fun l' hl' => hls l' (List.mem_cons_of_mem l hl')
    cases l with
    | nil => exact ih ho htail
    | cons x t =>
      have hx : S x := hls _ List.mem_cons_self x List.mem_cons_self
      cases o with
      | none => exact ih (fun i b he => by cases he; exact hx) htail
      | some b =>
        obtain ⟨j, b⟩ := b
        obtain ⟨g, hg⟩ := Option.isSome_iff_exists.mp (hgt b x (ho j b rfl) hx)
        rw [pick_some_cons, hg, Option.bind_some]
        refine ih (fun i c he => ?_) htail
        cases g with
        | true => cases he; exact hx
        | false => cases he; exact ho j b rfl

/-- Taking an element away. -/
theorem perm_flatten_set {ls : List (List α)} {i : Nat} {x : α} {t : List α}
    (hi : ls[i]? = some (x :: t)) : (x :: (ls.set i t).flatten).Perm ls.flatten := by
  induction ls generalizing i with
  | nil => cases hi
  | cons l ls ih =>
    cases i with
    | zero =>
      cases hi
      exact List.Perm.refl _
    | succ i =>
      rw [List.set_cons_succ, List.flatten_cons, List.flatten_cons]
      exact List.perm_middle.symm.trans ((ih hi).append_left l)

/-- Merging takes each element once. -/
theorem Merges.perm {ls : List (List α)} {out : List α} (h : Merges gt ls out) :
    out.Perm ls.flatten := by
  induction h with
  | nil h =>
    rw [List.flatten_eq_nil_iff.mpr (pick_eq_none h).2]
  | cons _ hi _ ih => exact (ih.cons _).trans (perm_flatten_set hi)

/-- If all comparisons have values the lists can be merged. -/
theorem exists_merges {S : α → Prop} (hgt : ∀ a b, S a → S b → (gt a b).isSome)
    (ls : List (List α)) (hls : ∀ l ∈ ls, ∀ a ∈ l, S a) : ∃ out, Merges gt ls out := by
  generalize hn : ls.flatten.length = n
  induction n generalizing ls with
  | zero =>
    have hnil := List.flatten_eq_nil_iff.mp (List.length_eq_zero_iff.mp hn)
    obtain ⟨o, ho⟩ := Option.isSome_iff_exists.mp
      (isSome_pick (k := 0) (o := none) hgt (fun _ _ he => by cases he) hls)
    cases o with
    | none => exact ⟨[], .nil ho⟩
    | some e =>
      obtain ⟨i, x⟩ := e
      rcases getElem?_of_pick ho with he | ⟨t, -, ht⟩
      · cases he
      · cases hnil _ (List.mem_of_getElem? ht)
  | succ n ih =>
    obtain ⟨o, ho⟩ := Option.isSome_iff_exists.mp
      (isSome_pick (k := 0) (o := none) hgt (fun _ _ he => by cases he) hls)
    cases o with
    | none => exact ⟨[], .nil ho⟩
    | some e =>
      obtain ⟨i, x⟩ := e
      rcases getElem?_of_pick ho with he | ⟨t, -, ht⟩
      · cases he
      · rw [Nat.sub_zero] at ht
        have hlen := (perm_flatten_set ht).length_eq
        rw [List.length_cons, hn] at hlen
        have hls' : ∀ l ∈ ls.set i t, ∀ a ∈ l, S a := by
          intro l hl a ha
          rcases List.mem_or_eq_of_mem_set hl with hl | rfl
          · exact hls l hl a ha
          · exact hls _ (List.mem_of_getElem? ht) a (List.mem_cons_of_mem x ha)
        obtain ⟨out, hout⟩ := ih (ls.set i t) hls' (by omega)
        exact ⟨x :: out, .cons ho ht hout⟩

/-- The comparisons agree with the keys of the elements with the property `S`. -/
def Agrees (key : α → κ) (gt : α → α → Option Bool) (S : α → Prop) : Prop :=
  ∀ a b, S a → S b → gt a b = some (decide (key b < key a))

/-- Then the element that is picked is the first one with the least key. -/
theorem firstMin_pick {S : α → Prop} (hgt : Agrees key gt S) {pre ls : List (List α)}
    {o o' : Option (Nat × α)} (h : pick gt pre.length o ls = some o')
    (ho : ∀ i b, o = some (i, b) → S b ∧ ∃ u, pre[i]? = some (b :: u))
    (hmin : FirstMin key pre (o.map Prod.fst)) (hls : ∀ l ∈ ls, ∀ a ∈ l, S a) :
    FirstMin key (pre ++ ls) (o'.map Prod.fst) := by
  induction ls generalizing pre o with
  | nil =>
    cases Option.some.inj h
    rw [List.append_nil]
    exact hmin
  | cons l ls ih =>
    have htail : ∀ l' ∈ ls, ∀ a ∈ l', S a := fun l' hl' => hls l' (List.mem_cons_of_mem l hl')
    have hlen : (pre ++ [l]).length = pre.length + 1 := List.length_append
    -- the rest of the lists, with one more list in front of them
    have hrest : ∀ o₁ : Option (Nat × α), pick gt (pre.length + 1) o₁ ls = some o' →
        (∀ i b, o₁ = some (i, b) → S b ∧ ∃ u, (pre ++ [l])[i]? = some (b :: u)) →
        FirstMin key (pre ++ [l]) (o₁.map Prod.fst) →
        FirstMin key (pre ++ l :: ls) (o'.map Prod.fst) := by
      intro o₁ h₁ ho₁ hmin₁
      have h₂ : pick gt (pre ++ [l]).length o₁ ls = some o' := hlen ▸ h₁
      have := ih h₂ ho₁ hmin₁ htail
      rwa [List.append_assoc, List.singleton_append] at this
    have hold : ∀ {i : Nat} {b : α} {u : List α}, pre[i]? = some (b :: u) →
        (pre ++ [l])[i]? = some (b :: u) := fun hi => by
      rw [List.getElem?_append_left (List.getElem?_eq_some_iff.mp hi).1]
      exact hi
    have hnew : (pre ++ [l])[pre.length]? = some l := by
      rw [List.getElem?_append_right (Nat.le_refl _), Nat.sub_self]
      rfl
    cases l with
    | nil =>
      refine hrest o h (fun i b he => ?_) hmin.append_nil
      obtain ⟨hb, u, hu⟩ := ho i b he
      exact ⟨hb, u, hold hu⟩
    | cons x t =>
      have hx : S x := hls _ List.mem_cons_self x List.mem_cons_self
      cases o with
      | none =>
        refine hrest (some (pre.length, x)) h (fun i b he => ?_) hmin.first
        cases he
        exact ⟨hx, t, hnew⟩
      | some e =>
        obtain ⟨i, b⟩ := e
        obtain ⟨hb, u, hu⟩ := ho i b rfl
        obtain ⟨g, hg, h⟩ := Option.bind_eq_some_iff.mp h
        rw [hgt b x hb hx] at hg
        cases hg
        by_cases hlt : key x < key b
        · rw [decide_eq_true hlt] at h
          refine hrest (some (pre.length, x)) h (fun i b he => ?_) (hmin.replace hu hlt)
          cases he
          exact ⟨hx, t, hnew⟩
        · rw [decide_eq_false hlt] at h
          refine hrest (some (i, b)) h (fun i b he => ?_) (hmin.keep hu (not_lt.mp hlt))
          cases he
          exact ⟨hb, u, hold hu⟩

/-- If the lists are sorted, merging them sorts the elements, and is stable. -/
theorem Merges.eq_mergeSort {S : α → Prop} (hgt : Agrees key gt S) {ls : List (List α)}
    {out : List α} (h : Merges gt ls out) (hsorted : ∀ l ∈ ls, Sorted key l)
    (hls : ∀ l ∈ ls, ∀ a ∈ l, S a) : out = ls.flatten.mergeSort (leKey key) := by
  induction h with
  | nil h => rw [List.flatten_eq_nil_iff.mpr (pick_eq_none h).2, List.mergeSort_nil]
  | @cons ls i x t out h hi hrest ih =>
    have h' : pick gt ([] : List (List α)).length none ls = some (some (i, x)) := h
    have hmin := firstMin_pick hgt h' (fun _ _ he => by cases he) FirstMin.nil hls
    rw [List.nil_append] at hmin
    have hmem := List.mem_of_getElem? hi
    rw [hmin.mergeSort hsorted hi]
    congr 1
    refine ih (fun l hl => ?_) fun l hl a ha => ?_
    · rcases List.mem_or_eq_of_mem_set hl with hl | rfl
      · exact hsorted l hl
      · exact (List.pairwise_cons.mp (hsorted _ hmem)).2
    · rcases List.mem_or_eq_of_mem_set hl with hl | rfl
      · exact hls l hl a ha
      · exact hls _ hmem a (List.mem_cons_of_mem x ha)

end Merge
