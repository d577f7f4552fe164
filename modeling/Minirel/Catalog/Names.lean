import Minirel.Catalog.Atomic

/-!
# Which names are found

`RelCatalog::getInfo` passes the size of the name, as an `int`, to a scan that compares this many
characters. The comparison covers the NUL, so that only the same name is found, unless the string is
so long that its size is no `int`.

## Main definitions

* `LooksUp`: `getInfo` finds the name it is asked for.
* `Searchable`: the strings for which it does.

## Main results

* `RelCatalog.looksUp_iff`: these are exactly the ones.
-/

namespace Minirel

open Comp

/-- `getInfo` returns the first tuple of `relcat` with the name, and `RELNOTFOUND` if there is none;
there is none if the string is as long as the array of a tuple or longer. -/
def LooksUp (s : Sys) (H : Heap) (relation : Bytes) (record : RelDesc) : Prop :=
  ∀ fuel, Clean (2 ≤ s.freeFrames ∧ H.rids.length + H.pages.length + 1 ≤ fuel)
    (RelCatalog.getInfo fuel relation record) s fun r _ =>
      r = (H.contents.find? (hasName relation)).elim (.RELNOTFOUND, record)
        (fun b => (.OK, RelDesc.ofBytes b)) ∧
      (MAXNAME ≤ relation.length → r.1 = .RELNOTFOUND)

/-- The size of the string with its NUL is an `int`, or it is one after it has wrapped, is positive,
and no name in `relcat` starts with this many characters of the string. -/
def Searchable (relation : Bytes) (contents : List Bytes) : Prop :=
  relation.length < 2147483647 ∨
    1 ≤ cSize relation ∧ ∀ b ∈ contents, ¬relation.take (cSize relation).toNat <+: cstr b

section Names

variable {s : Sys} {P : Multiset Pin} {v : View} {fv : FileView} {H : Heap} {relation : Bytes}
  {record : RelDesc} {n : Nat}

/-- What a scan finds that compares the first characters of a long string only. -/
theorem find?_filter_long (hnul : (0 : UInt8) ∉ relation) (hlong : 2147483647 ≤ relation.length)
    (hpos : 1 ≤ cSize relation) (l : List Bytes) :
    l.find? (satisfies 0 (cSize relation) .STRING (some (relation ++ [0])) .EQ) = none ↔
      ∀ b ∈ l, ¬relation.take (cSize relation).toNat <+: cstr b := by
  have hlt := cSize_lt relation
  obtain ⟨n, hn⟩ : ∃ n : Nat, cSize relation = n := ⟨(cSize relation).toNat, by omega⟩
  rw [List.find?_eq_none]
  refine forall₂_congr fun b _ => ?_
  rw [hn, satisfies_prefix hnul (by omega), Int.toNat_natCast, decide_eq_true_eq]

/-- For every content of `relcat` and every string without a NUL: `getInfo` finds exactly the name
it is asked for if and only if the string is searchable. -/
theorem RelCatalog.looksUp_iff (hc : Coh s P v) (hH : IsHeap v RELCATNAME fv H)
    (htuples : H.Tuples 36) (hnul : (0 : UInt8) ∉ relation) (hne : relation ≠ [])
    (hrec : record.Sized) :
    (Searchable relation H.contents → LooksUp s H relation record) ∧
      (2 ≤ s.freeFrames → LooksUp s H relation record → Searchable relation H.contents) := by
  unfold LooksUp Searchable
  rw [hc.freeFrames_eq]
  have hnotFound : MAXNAME ≤ relation.length → ∀ r : Status × RelDesc,
      r = (H.contents.find? (hasName relation)).elim (.RELNOTFOUND, record)
        (fun b => (.OK, RelDesc.ofBytes b)) → r.1 = .RELNOTFOUND := by
    rintro hlong r rfl
    rw [htuples.find?_long hlong]
    rfl
  by_cases hshort : relation.length < 2147483647
  · refine ⟨fun _ fuel => ?_, fun _ _ => Or.inl hshort⟩
    refine (getInfo_spec fuel hc hH htuples ⟨hnul, hshort⟩ hne hrec id).mono ?_
    rintro r s' ⟨-, hr⟩
    exact ⟨hr, fun hlong => hnotFound hlong r hr⟩
  have hlong : MAXNAME ≤ relation.length := le_trans (by decide) (not_lt.mp hshort)
  rw [or_iff_right hshort, htuples.find?_long hlong]
  by_cases hpos : 1 ≤ cSize relation
  · rw [and_iff_right hpos, ← find?_filter_long hnul (not_lt.mp hshort) hpos]
    have hspec (fuel : Nat) := getInfo_filter fuel hc hH htuples hpos hne hrec id
    constructor
    · intro hnone fuel
      refine (hspec fuel).mono ?_
      rintro r s' ⟨-, hr⟩
      rw [hnone] at hr
      exact ⟨hr, fun _ => by rw [hr]; rfl⟩
    · intro hframes hlook
      obtain ⟨r, s', hy, -, hr⟩ := (hspec _).exists ⟨hframes, le_refl _⟩
      have hst := ((hlook _).of_yields hy).2 hlong
      rw [hr] at hst
      cases hfind : H.contents.find?
          (satisfies 0 (cSize relation) .STRING (some (relation ++ [0])) .EQ) with
      | none => rfl
      | some b =>
        rw [hfind] at hst
        cases hst
  · refine ⟨fun h => absurd h.1 hpos, fun hframes hlook => ?_⟩
    -- `startScan` does not accept the size
    obtain ⟨r, s', hy, hr⟩ := (getInfo_refused _ hc hH (not_le.mp hpos) hne fun _ => hframes).exists
      trivial
    have hst := ((hlook (H.rids.length + H.pages.length + 1)).of_yields hy).2 hlong
    rw [hr] at hst
    cases hst

end Names

/-! ### Lookups in a new database -/

/-- A new database has no relation `[65]`. -/
theorem looksUp_iff_one : ∃ s H, NewSession (fun _ => none) s ∧ LooksUp s H [65] .zero ∧
    2 ≤ s.freeFrames := by
  obtain ⟨s, h₀⟩ : ∃ s, NewSession (fun _ => none) s := exists_newSession rfl rfl
  obtain ⟨P, v, fv, H, fvA, HA, h, hframes, -⟩ := h₀.catalogsAt
  refine ⟨s, H, h₀, ?_, le_trans (by decide) hframes⟩
  have hlook := RelCatalog.looksUp_iff h.coh h.catalogs.relcat h.catalogs.relTuples
    (show (0 : UInt8) ∉ [65] by decide) (List.cons_ne_nil 65 []) RelDesc.sized_zero
  exact hlook.1 (Or.inl (by decide))

/-- A string of 2147483647 characters is refused. -/
theorem not_looksUp_long : ∃ s v fv H P, NewSession (fun _ => none) s ∧ Coh s P v ∧
    IsHeap v RELCATNAME fv H ∧ H.Tuples 36 ∧ ¬LooksUp s H (List.replicate 2147483647 65) .zero := by
  obtain ⟨s, h₀⟩ : ∃ s, NewSession (fun _ => none) s := exists_newSession rfl rfl
  obtain ⟨P, v, fv, H, fvA, HA, h, hframes, -⟩ := h₀.catalogsAt
  refine ⟨s, v, fv, H, P, h₀, h.coh, h.catalogs.relcat, h.catalogs.relTuples, fun hlook => ?_⟩
  obtain ⟨relation, hrel⟩ : ∃ relation : Bytes, relation = List.replicate 2147483647 65 := ⟨_, rfl⟩
  rw [← hrel] at hlook
  have hlen : relation.length = 2147483647 := by rw [hrel, List.length_replicate]
  have hneg : cSize relation < 1 := by
    unfold cSize
    rw [hlen]
    decide
  have hne : relation ≠ [] := fun hn => by
    rw [hn] at hlen
    cases hlen
  have hfree := h.coh.freeFrames_eq ▸ hframes
  obtain ⟨r, s', hy, hr⟩ := (RelCatalog.getInfo_refused (H.rids.length + H.pages.length + 1) h.coh
    h.catalogs.relcat hneg hne fun _ : True => by omega).exists trivial
  have hst := ((hlook _).of_yields hy).2 (hlen ▸ (by decide : MAXNAME ≤ 2147483647))
  rw [hr] at hst
  cases hst

end Minirel
