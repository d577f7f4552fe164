import Minirel.HeapFile.Heap
import Mathlib.Data.List.Sort

/-!
# The order of a scan

A scan visits the pages along the chain and the slots of a page in order. Its position is a page
and a slot from which on it has not looked yet; what remains is the list of the RIDs from there.

## Main definitions

* `Heap.after H p`: the pages behind `p` in the chain.
* `Heap.ridsAfter H p k`: the RIDs that remain for a scan on page `p` from slot `k` on.
-/

namespace Minirel

namespace Heap

/-- The pages behind a page of the chain. -/
def after (H : Heap) (p : Int) : List Int := (H.pages.dropWhile (· ≠ p)).tail

/-- The RIDs on the pages behind a page. -/
def rest (H : Heap) (p : Int) : List RID := (H.after p).flatMap (H.ridsFrom 0)

/-- The RIDs from slot `k` of a page on, in the order of the chain and of the slots. -/
def ridsAfter (H : Heap) (p : Int) (k : Nat) : List RID := H.ridsFrom k p ++ H.rest p

variable {H : Heap} {p q : Int} {k j : Nat}

/-- If the chain is split at a page, what is behind it is what is behind it. -/
theorem after_eq {l r : List Int} (h : H.pages = l ++ p :: r) (hl : p ∉ l) : H.after p = r := by
  unfold after
  rw [h, List.dropWhile_append_of_pos]
  · simp
  · intro a ha
    simp only [ne_eq, decide_not, Bool.not_eq_eq_eq_not, Bool.not_true, decide_eq_false_iff_not]
    rintro rfl
    exact hl ha

/-- The pages up to a page and behind it make up the chain. -/
theorem exists_before (hp : p ∈ H.pages) : ∃ l, H.pages = l ++ p :: H.after p := by
  obtain ⟨l, r, hlr, hl⟩ := List.eq_append_cons_of_mem hp
  exact ⟨l, by rw [after_eq hlr hl, hlr]⟩

/-- There are fewer pages behind a page than in the chain. -/
theorem length_after_lt (hp : p ∈ H.pages) : (H.after p).length < H.pages.length := by
  obtain ⟨l, hl⟩ := exists_before hp
  have := congrArg List.length hl
  rw [List.length_append, List.length_cons] at this
  omega

/-- What remains is a part of all RIDs. -/
theorem length_ridsAfter_le (hp : p ∈ H.pages) : (H.ridsAfter p k).length ≤ H.rids.length := by
  obtain ⟨l, hl⟩ := exists_before hp
  have hfrom : (H.ridsFrom k p).length ≤ (H.ridsFrom 0 p).length := by
    unfold ridsFrom
    rw [List.length_map, List.length_map]
    exact (List.monotone_filter_right _ fun _ _ => decide_eq_true (Nat.zero_le _)).length_le
  unfold ridsAfter rest rids
  rw [hl, List.flatMap_append, List.flatMap_cons, List.length_append, List.length_append,
    List.length_append]
  omega

/-- No record of the page is in a slot from `k` on. -/
theorem ridsFrom_eq_nil (h : ∀ j, k ≤ j → (H.page p).rec? j = none) : H.ridsFrom k p = [] := by
  unfold ridsFrom
  rw [List.map_eq_nil_iff, List.filter_eq_nil_iff]
  intro j hj hk
  unfold Page.live at hj
  have hsome := (List.mem_filter.mp hj).2
  rw [h j (of_decide_eq_true hk)] at hsome
  cases hsome

/-- If no record is in a slot from `k` on, none is in a slot further on. -/
theorem ridsFrom_eq_nil_of_le (hkj : k ≤ j) (h : H.ridsFrom k p = []) : H.ridsFrom j p = [] := by
  unfold ridsFrom at h ⊢
  rw [List.map_eq_nil_iff, List.filter_eq_nil_iff] at h ⊢
  intro i hi hj
  exact h i hi (decide_eq_true (hkj.trans (of_decide_eq_true hj)))

/-- Slot `j` is the first one from `k` on with a record. -/
theorem ridsFrom_eq_cons (hwf : (H.page p).WF) (hkj : k ≤ j) (hj : (H.page p).rec? j ≠ none)
    (hlow : ∀ i, k ≤ i → i < j → (H.page p).rec? i = none) :
    H.ridsFrom k p = ⟨p, j⟩ :: H.ridsFrom (j + 1) p := by
  have hslots : (H.page p).live.filter (k ≤ ·) = j :: (H.page p).live.filter (j + 1 ≤ ·) := by
    -- two increasing lists of the same slots
    refine List.Perm.eq_of_pairwise' ((H.page p).pairwise_live.filter _) ?_ ?_
    · refine List.pairwise_cons.mpr ⟨fun i hi => ?_, (H.page p).pairwise_live.filter _⟩
      have := of_decide_eq_true (List.mem_filter.mp hi).2
      omega
    · have hnd : (j :: (H.page p).live.filter (j + 1 ≤ ·)).Nodup := by
        refine List.nodup_cons.mpr ⟨fun hm => ?_, (H.page p).nodup_live.filter _⟩
        have := of_decide_eq_true (List.mem_filter.mp hm).2
        omega
      rw [List.perm_ext_iff_of_nodup ((H.page p).nodup_live.filter _) hnd]
      intro i
      simp only [List.mem_cons, List.mem_filter, Page.mem_live hwf, decide_eq_true_eq]
      constructor
      · rintro ⟨hi, hki⟩
        rcases Nat.lt_trichotomy i j with h | h | h
        · exact absurd (hlow i hki h) hi
        · exact Or.inl h
        · exact Or.inr ⟨hi, h⟩
      · rintro (rfl | ⟨hi, hji⟩)
        · exact ⟨hj, hkj⟩
        · exact ⟨hi, by omega⟩
  unfold ridsFrom
  rw [hslots, List.map_cons]

end Heap

namespace HeapAt

variable {fv : FileView} {H : Heap} {p q : Int} {k : Nat} {l : List Int}

/-- The link of a page leads to the pages behind it. -/
theorem linked_after (h : HeapAt fv H) (hp : p ∈ H.pages) :
    Linked (fun q => (H.page q).nextPage) (-1) (H.page p).nextPage (H.after p) := by
  obtain ⟨l, hl⟩ := Heap.exists_before hp
  have hlink := h.linked
  rw [hl] at hlink
  exact hlink.of_append_cons

theorem mem_of_after (hp : p ∈ H.pages) (hq : q ∈ H.after p) : q ∈ H.pages := by
  obtain ⟨l, hl⟩ := Heap.exists_before hp
  rw [hl]
  exact List.mem_append_right _ (List.mem_cons_of_mem _ hq)

/-- The pages behind the next page. -/
theorem after_next (h : HeapAt fv H) (hp : p ∈ H.pages) (hafter : H.after p = q :: l) :
    H.after q = l := by
  obtain ⟨l₁, hl⟩ := Heap.exists_before hp
  rw [hafter] at hl
  have hnd := h.nodup
  have hl' : H.pages = (l₁ ++ [p]) ++ q :: l := by
    rw [hl, List.append_assoc]
    rfl
  refine Heap.after_eq hl' fun hq => ?_
  rw [hl', List.nodup_append] at hnd
  exact hnd.2.2 q hq q List.mem_cons_self rfl

/-- From the start of the first page on all RIDs remain. -/
theorem rids_eq (h : HeapAt fv H) : H.rids = H.ridsAfter H.hdr.firstPage 0 := by
  obtain ⟨l, hl, -⟩ := h.linked.exists_cons fun he => h.pages_ne_nil (h.linked.eq_nil_iff.mpr he)
  have hafter : H.after H.hdr.firstPage = l :=
    Heap.after_eq (l := []) hl List.not_mem_nil
  unfold Heap.rids Heap.ridsAfter Heap.rest
  rw [hafter, hl, List.flatMap_cons]

/-- What remains on the next page is what remains behind this one. -/
theorem rest_next (h : HeapAt fv H) (hp : p ∈ H.pages) (hafter : H.after p = q :: l) :
    H.rest p = H.ridsAfter q 0 := by
  unfold Heap.ridsAfter Heap.rest
  rw [h.after_next hp hafter, hafter, List.flatMap_cons]

/-- What remains is among the records. -/
theorem rec?_of_mem_ridsAfter {r : RID} (h : HeapAt fv H) (hp : p ∈ H.pages)
    (hr : r ∈ H.ridsAfter p k) : H.rec? r ≠ none := by
  rcases List.mem_append.mp hr with hr | hr
  · exact ((h.mem_ridsFrom hp).mp hr).2.2
  · obtain ⟨q, hq, hr⟩ := List.mem_flatMap.mp hr
    exact ((h.mem_ridsFrom (mem_of_after hp hq)).mp hr).2.2

end HeapAt

end Minirel
