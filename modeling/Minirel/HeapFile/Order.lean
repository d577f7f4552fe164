import Minirel.HeapFile.Heap

/-!
# The order of the records

A page gives a new record the lowest slot that is free. On a page whose used slots are the first
ones that is behind all records of the page, and on the last page of the chain it is behind all
records of the file.

## Main definitions

* `Page.Packed`, `Heap.Packed`: no free slot lies below a used one, on a page and on the last page.

## Main results

* `rids_setPage_insert`: a record on a packed last page gets the last RID.
* `rids_append`: an empty page at the end of the chain changes nothing.
-/

namespace Minirel

/-! ## Pages -/

namespace Page

variable {p p' : Page} {j : Nat} {o : Option Bytes}

/-- The used slots are the first ones. -/
def Packed (p : Page) : Prop := ∀ i j, i < j → p.rec? j ≠ none → p.rec? i ≠ none

theorem packed_of_empty (h : ∀ j, p.rec? j = none) : p.Packed := fun _ j _ hj => absurd (h j) hj

/-- The used slots of a page whose first free slot is `j`. -/
theorem live_eq_range (hj : j ≤ 252) (hused : ∀ i < j, p.rec? i ≠ none)
    (hfree : ∀ i, j ≤ i → p.rec? i = none) : p.live = List.range j := by
  have hsplit : 252 = j + (252 - j) := by omega
  unfold live
  rw [hsplit, List.range_add, List.filter_append, List.filter_eq_self.mpr,
    List.filter_eq_nil_iff.mpr, List.append_nil]
  · intro i hi
    obtain ⟨k, -, rfl⟩ := List.mem_map.mp hi
    simp [hfree (j + k) (Nat.le_add_right j k)]
  · intro i hi
    rw [Option.isSome_iff_ne_none]
    exact hused i (List.mem_range.mp hi)

/-- On a packed page nothing is behind the first free slot. -/
theorem Packed.eq_none (h : p.Packed) (hj : p.rec? j = none) {i : Nat} (hi : j ≤ i) :
    p.rec? i = none := by
  by_contra hne
  rcases hi.eq_or_lt with rfl | hlt
  · exact hne hj
  · exact h j i hlt hne hj

/-- The first free slot of a packed page is used. -/
theorem Packed.insert {b : Bytes} (h : p.Packed) (hj : p.rec? j = none)
    (hlow : ∀ i < j, p.rec? i ≠ none) (hrec : p'.rec? = Function.update p.rec? j (some b)) :
    p'.Packed := by
  have hiff : ∀ i, p'.rec? i ≠ none ↔ i < j + 1 := by
    intro i
    rw [hrec]
    by_cases hi : i = j
    · simp [hi]
    · rw [Function.update_of_ne hi]
      refine ⟨fun hne => ?_, fun hlt => hlow i (by omega)⟩
      have hnot : ¬j ≤ i := fun hle => hne (h.eq_none hj hle)
      omega
  intro i k hik hk
  rw [hiff] at hk ⊢
  omega

end Page

/-! ## Files -/

namespace Heap

variable {fv : FileView} {H : Heap} {p q : Int} {pg : Page} {j : Nat} {b : Bytes}

/-- The used slots of the last page are the first ones. -/
def Packed (H : Heap) : Prop := (H.page H.hdr.lastPage).Packed

@[simp] theorem packed_setRecCnt (n : Int) : (H.setRecCnt n).Packed ↔ H.Packed := Iff.rfl

theorem ridsFrom_eq_of_rec? {H' : Heap} {k : Nat} (h : (H'.page p).rec? = (H.page p).rec?) :
    H'.ridsFrom k p = H.ridsFrom k p := by
  unfold ridsFrom Page.live
  rw [h]

/-- A record that is put on the last page, in the lowest slot that is free. -/
theorem rids_setPage_insert (hH : HeapAt fv H) (hp : p = H.hdr.lastPage) (hpacked : H.Packed)
    (hj : (H.page p).rec? j = none) (hlow : ∀ i < j, (H.page p).rec? i ≠ none)
    (hrec : pg.rec? = Function.update (H.page p).rec? j (some b)) (hwf : pg.WF) :
    (H.setPage p pg).Packed ∧ (H.setPage p pg).rids = H.rids ++ [⟨p, j⟩] := by
  subst hp
  have hpacked' : (H.page H.hdr.lastPage).Packed := hpacked
  refine ⟨?_, ?_⟩
  · show ((H.setPage H.hdr.lastPage pg).page H.hdr.lastPage).Packed
    rw [page_setPage_self]
    exact hpacked'.insert hj hlow hrec
  have hlive : (H.page H.hdr.lastPage).live = List.range j := by
    refine Page.live_eq_range ?_ hlow fun i hi => hpacked'.eq_none hj hi
    have := Page.lt_of_rec? hwf (j := j) (by simp [hrec])
    omega
  have hlive' : pg.live = List.range (j + 1) := by
    refine Page.live_eq_range (Page.lt_of_rec? hwf (by simp [hrec])) (fun i hi => ?_) fun i hi => ?_
    · rw [hrec]
      by_cases hij : i = j
      · simp [hij]
      · rw [Function.update_of_ne hij]
        exact hlow i (by omega)
    · rw [hrec, Function.update_of_ne (by omega)]
      exact hpacked'.eq_none hj (by omega)
  -- only the last page of the chain has changed
  obtain ⟨l, hl⟩ : ∃ l, H.pages = l ++ [H.hdr.lastPage] :=
    ⟨H.pages.dropLast, (List.dropLast_append_getLast? _ hH.last).symm⟩
  have hnot : H.hdr.lastPage ∉ l := by
    have hnodup := hH.nodup
    rw [hl] at hnodup
    exact fun hmem => (List.nodup_append.mp hnodup).2.2 _ hmem _ (List.mem_singleton_self _) rfl
  have hinit : l.flatMap ((H.setPage H.hdr.lastPage pg).ridsFrom 0) = l.flatMap (H.ridsFrom 0) := by
    refine List.flatMap_congr fun q hq => ridsFrom_eq_of_rec? ?_
    have hne : q ≠ H.hdr.lastPage := fun he => hnot (he ▸ hq)
    rw [page_setPage_of_ne H hne]
  have hlast : (H.setPage H.hdr.lastPage pg).ridsFrom 0 H.hdr.lastPage =
      H.ridsFrom 0 H.hdr.lastPage ++ [⟨H.hdr.lastPage, j⟩] := by
    unfold ridsFrom
    rw [page_setPage_self, hlive, hlive', List.range_succ]
    simp
  unfold rids
  show (H.setPage H.hdr.lastPage pg).pages.flatMap _ = _
  rw [show (H.setPage H.hdr.lastPage pg).pages = H.pages from rfl, hl, List.flatMap_append,
    List.flatMap_append, hinit, List.flatMap_singleton, List.flatMap_singleton, hlast,
    List.append_assoc]

/-- An empty page at the end of the chain. -/
theorem rids_append (hq : q ∉ H.pages) (hpg : ∀ j, pg.rec? j = none) :
    (H.append q pg).Packed ∧ (H.append q pg).rids = H.rids := by
  refine ⟨?_, ?_⟩
  · show ((H.append q pg).page q).Packed
    rw [page_append_self]
    exact Page.packed_of_empty hpg
  have hold : H.pages.flatMap ((H.append q pg).ridsFrom 0) = H.pages.flatMap (H.ridsFrom 0) := by
    refine List.flatMap_congr fun p hp => ridsFrom_eq_of_rec? ?_
    have hne : p ≠ q := fun he => hq (he ▸ hp)
    rw [page_append_of_ne H hne]
    split
    next he => rw [he, Page.rec?_setNextPage]
    next => rfl
  have hnew : (H.append q pg).ridsFrom 0 q = [] := by
    unfold ridsFrom Page.live
    rw [page_append_self]
    simp [hpg]
  unfold rids
  show (H.pages ++ [q]).flatMap _ = _
  rw [List.flatMap_append, hold, List.flatMap_singleton, hnew, List.append_nil]

end Heap

end Minirel
