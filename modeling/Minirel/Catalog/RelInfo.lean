import Minirel.Catalog.Removal

/-!
# What `getRelInfo` reports

`AttrCatalog::getRelInfo` allocates as many entries as `relcat` announces and fills them from the
end. If the scan of `attrcat` ends before the array is full, it still returns `OK`: the entries that
are left hold the bytes of the allocation, or the tuple of another relation.

## Main definitions

* `AttrCatalog.getRelInfoChecked`: the same call, which fails if it writes behind the array.
* `ReportsAttrs`: a report with `OK` is complete.

## Main results

* `AttrCatalog.getRelInfoChecked_eq`: no entry outside of the array is ever written.
* `AttrCatalog.reportsAttrs_iff`: the report is right exactly if `attrcat` has the tuples that
  `relcat` announces.
-/

namespace Minirel

open Comp

/-! ## The bounds of the array -/

namespace AttrCatalog

/-- `relInfoLoop`, which fails if it is about to write outside of the array. -/
def relInfoLoopChecked (relation : Bytes) :
    Nat → Status → HeapFileScan → Int → List AttrDesc → M (Status × List AttrDesc)
  | 0, _, _, _, _ => failure
  | fuel + 1, status, hfs, amount, attrs => do
    if status = .FILEEOF then return (.OK, attrs) else
    if amount < 0 then return (.OK, attrs) else
    if status ≠ .OK then return (status, attrs) else
    let (got, rec) ← hfs.getRecord
    if got ≠ .OK then return (got, attrs) else
    let b ← copyRecord hfs rec 76
    if (attrs.length : Int) ≤ amount then failure else
    let attrs := attrs.set amount.toNat (AttrDesc.ofBytes b)
    let same ← ofOption (strcmpEq b (relation ++ [0]))
    let (status, _, hfs) ← hfs.scanNext fuel
    relInfoLoopChecked relation fuel status hfs (if same then amount - 1 else amount) attrs

/-- `getRelInfo` with the loop that checks where it writes. -/
def getRelInfoChecked (fuel : Nat) (junk : RelDesc) (junkAttr : AttrDesc) (relation : Bytes)
    (attrCnt : Int) (attrs : List AttrDesc) : M (Status × Int × List AttrDesc) := do
  if relation = [] then return (.BADCATPARM, attrCnt, attrs) else
  let (status, descriptor) ← RelCatalog.getInfo fuel relation junk
  if status ≠ .OK then return (status, attrCnt, attrs) else
  let attrCnt := descriptor.attrCnt
  if attrCnt < 0 then failure else
  let attrs := List.replicate attrCnt.toNat junkAttr
  let (status, hfs) ← HeapFileScan.new ATTRCATNAME
  if status ≠ .OK then return (status, attrCnt, attrs) else
  let (status, hfs) := hfs.startScan 0 0 .STRING none .EQ
  if status ≠ .OK then return (status, attrCnt, attrs) else
  let (status, _, hfs) ← hfs.scanNext fuel
  let (status, attrs) ← relInfoLoopChecked relation fuel status hfs (attrCnt - 1) attrs
  return (status, attrCnt, attrs)

/-- The index never leaves the array. -/
theorem relInfoLoopChecked_eq (relation : Bytes) (fuel : Nat) (status : Status) (hfs : HeapFileScan)
    {amount : Int} {attrs : List AttrDesc} (hamount : amount < attrs.length) :
    relInfoLoopChecked relation fuel status hfs amount attrs =
      relInfoLoop relation fuel status hfs amount attrs := by
  induction fuel generalizing status hfs amount attrs with
  | zero => rfl
  | succ fuel ih =>
    unfold relInfoLoopChecked relInfoLoop
    -- the two differ in the rest of the loop only
    have hrest (b : Bytes) (same : Bool) (status : Status) (hfs : HeapFileScan) :
        relInfoLoopChecked relation fuel status hfs (if same then amount - 1 else amount)
            (attrs.set amount.toNat (AttrDesc.ofBytes b)) =
          relInfoLoop relation fuel status hfs (if same then amount - 1 else amount)
            (attrs.set amount.toNat (AttrDesc.ofBytes b)) := by
      refine ih status hfs ?_
      rw [List.length_set]
      split <;> omega
    simp only [if_neg (not_le.mpr hamount), hrest]

theorem getRelInfoChecked_eq (fuel : Nat) (junk : RelDesc) (junkAttr : AttrDesc) (relation : Bytes)
    (attrCnt : Int) (attrs : List AttrDesc) :
    getRelInfoChecked fuel junk junkAttr relation attrCnt attrs =
      getRelInfo fuel junk junkAttr relation attrCnt attrs := by
  unfold getRelInfoChecked getRelInfo
  split
  · rfl
  refine bind_congr fun r => ?_
  dsimp only
  split
  · rfl
  split
  · rfl
  next hcnt =>
    have hamount : r.2.attrCnt - 1 <
      ((List.replicate r.2.attrCnt.toNat junkAttr).length : Int) := by
      rw [List.length_replicate]
      omega
    simp only [relInfoLoopChecked_eq _ _ _ _ hamount]

end AttrCatalog

open HeapFile HeapFileScan

/-! ## Reports -/

/-- A report with `OK` has the count of the relation and as many tuples of it; if there are not that
many, the call returns an error; and no entry outside of the array is written. -/
structure ReportsAttrs (s : Sys) (H HA : Heap) (junk : RelDesc) (junkAttr : AttrDesc)
    (relation : Bytes) (attrCnt : Int) (attrs : List AttrDesc) : Prop where
  ok : ∀ fuel cnt attrs' s',
    Yields (AttrCatalog.getRelInfo fuel junk junkAttr relation attrCnt attrs) s (.OK, cnt,
    attrs') false
        s' →
      ∃ b, H.contents.find? (hasName relation) = some b ∧ cnt = (RelDesc.ofBytes b).attrCnt ∧
        (attrs'.length : Int) = cnt ∧ (attrs' : Multiset AttrDesc) ≤ relAttrs relation HA.contents
  missing : ∀ b, H.contents.find? (hasName relation) = some b →
    ((relAttrs relation HA.contents).length : Int) < (RelDesc.ofBytes b).attrCnt →
      ∃ N, ∀ fuel, N ≤ fuel → ∃ r s',
        Yields (AttrCatalog.getRelInfo fuel junk junkAttr relation attrCnt attrs) s r false s' ∧
          r.1 ≠ .OK
  inside : ∀ fuel, AttrCatalog.getRelInfoChecked fuel junk junkAttr relation attrCnt attrs =
    AttrCatalog.getRelInfo fuel junk junkAttr relation attrCnt attrs

section GetRelInfo

variable {T : Prop} {s : Sys} {P : Multiset Pin} {v : View} {fv fvA : FileView} {H HA : Heap}
  {relation : Bytes} {junk : RelDesc} {junkAttr : AttrDesc} {attrCnt : Int} {attrs : List AttrDesc}
  {b : Bytes} {n : Nat}

/-- A call with a name whose size is not a positive `int`. -/
theorem AttrCatalog.getRelInfo_refused (fuel : Nat) (hc : Coh s P v) (hH : IsHeap v RELCATNAME fv H)
    (hneg : cSize relation < 1) (hne : relation ≠ []) (hT : T → 2 ≤ freeFrames v.numBufs P) :
    Clean T (getRelInfo fuel junk junkAttr relation attrCnt attrs) s fun r _ => r.1 =
    .BADSCANPARM := by
  unfold getRelInfo
  rw [if_neg hne]
  refine (RelCatalog.getInfo_refused fuel hc hH hneg hne hT).bind ?_
  rintro r s₁ rfl
  dsimp only
  rw [if_pos nofun, clean_pure]

/-- For every content of the catalogs and every name: `getRelInfo` is right exactly if the name is
refused, or nothing passes the filter, or the first tuple that does has a negative count, or it has
the name and there are as many attributes as it says. -/
theorem AttrCatalog.reportsAttrs_iff (hc : Coh s P v) (hH : IsHeap v RELCATNAME fv H)
    (htuples : H.Tuples 36) (hHA : IsHeap v ATTRCATNAME fvA HA) (htuplesA : HA.Tuples 76)
    (hnul : (0 : UInt8) ∉ relation) (hjunk : junk.Sized) (hframes : 3 ≤ s.freeFrames) :
    ReportsAttrs s H HA junk junkAttr relation attrCnt attrs ↔
    (relation ≠ [] → 1 ≤ cSize relation → ∀ b,
      H.contents.find? (satisfies 0 (cSize relation) .STRING (some (relation ++ [0])) .EQ) =
      some b →
        (RelDesc.ofBytes b).attrCnt < 0 ∨ cstr b = relation ∧
          (RelDesc.ofBytes b).attrCnt ≤ (relAttrs relation HA.contents).length) := by
  rw [hc.freeFrames_eq] at hframes
  have hinside (fuel : Nat) := getRelInfoChecked_eq fuel junk junkAttr relation attrCnt attrs
  by_cases hne : relation = []
  · refine iff_of_true ⟨fun fuel cnt attrs' s' hy => ?_,
      fun b _ _ => ⟨0, fun fuel _ => ?_⟩, hinside⟩
      fun hn => absurd hne hn
    · unfold getRelInfo at hy
      rw [if_pos hne] at hy
      cases congrArg Prod.fst (yields_pure.mp hy).1
    · refine ⟨(.BADCATPARM, attrCnt, attrs), s, ?_, nofun⟩
      unfold getRelInfo
      rw [if_pos hne]
      exact Yields.pure _ _
  rw [forall_prop_of_true hne]
  -- a tuple with the name is found by the filter
  have hname : ∀ b, H.contents.find? (hasName relation) = some b → 1 ≤ cSize relation ∧
      H.contents.find? (satisfies 0 (cSize relation) .STRING (some (relation ++ [0])) .EQ) =
      some b := by
    intro b hb
    have hisName := htuples.isName_of_mem (List.mem_of_find?_eq_some hb) (List.find?_some hb)
    rw [htuples.find?_name hisName, hisName.cSize]
    exact ⟨by omega, hb⟩
  by_cases hpos : 1 ≤ cSize relation
  swap
  · refine iff_of_true ⟨fun fuel cnt attrs' s' hy => ?_,
      fun b hb => absurd (hname b hb).1 hpos, hinside⟩
      fun h => absurd h hpos
    cases (getRelInfo_refused (T := False) fuel hc hH (not_le.mp hpos) hne False.elim).of_yields hy
  rw [forall_prop_of_true hpos]
  have hspec (T : Prop) (fuel : Nat) hT :
      Clean T (getRelInfo fuel junk junkAttr relation attrCnt attrs) s _ :=
    getRelInfo_filter fuel hc hH htuples hHA htuplesA hnul hpos hne hjunk hT
  cases hfind : H.contents.find?
    (satisfies 0 (cSize relation) .STRING (some (relation ++ [0])) .EQ) with
  | none =>
    refine iff_of_true ⟨fun fuel cnt attrs' s' hy => ?_, fun b hb => ?_, hinside⟩ nofun
    · have hr := ((hspec False fuel False.elim).of_yields hy).2
      rw [hfind] at hr
      cases hr
    · rw [hfind] at hname
      cases (hname b hb).2
  | some b =>
    rw [hfind] at hname hspec
    have hsame : ∀ b', H.contents.find? (hasName relation) = some b' → b' = b := fun b' hb' =>
      (Option.some.inj (hname b' hb').2).symm
    constructor
    · intro h b' hb'
      cases hb'
      by_contra! hcon
      obtain ⟨hcnt, hcon⟩ := hcon
      obtain ⟨N, hN⟩ : ∃ N, H.rids.length + H.pages.length + 1 +
        (2 * HA.rids.length + HA.pages.length + 1) = N := ⟨_, rfl⟩
      obtain ⟨r, s', hy, -, -, rfl⟩ := (hspec True N fun _ =>
        ⟨hframes, by omega, by omega, fun b' hb' => Option.some.inj hb' ▸ hcnt⟩).exists trivial
      obtain ⟨b', hb', -, hlen, hle⟩ := h.ok _ _ _ _ hy
      cases hsame b' hb'
      have hcard := Multiset.card_le_card hle
      rw [Multiset.coe_card, Multiset.coe_card] at hcard
      have hb : hasName relation b = true := List.find?_some hb'
      have := hcon (of_decide_eq_true hb)
      omega
    · intro h
      rcases h b rfl with hcnt | ⟨hb, hcnt⟩
      · -- `new` fails
        refine ⟨fun fuel cnt attrs' s' hy => ?_, fun b' hb' hless => ?_, hinside⟩
        · exact absurd hcnt (not_lt.mpr ((hspec False fuel False.elim).of_yields hy).2.1)
        · cases hsame b' hb'
          omega
      · have hb' : H.contents.find? (hasName relation) = some b := by
          cases hb' : H.contents.find? (hasName relation) with
          | none =>
            exact absurd (decide_eq_true hb)
              (List.find?_eq_none.mp hb' b (List.mem_of_find?_eq_some hfind))
          | some b' => rw [hsame b' hb']
        refine ⟨fun fuel cnt attrs' s' hy => ⟨b, hb', ?_⟩, fun b' hb' hless => ?_, hinside⟩
        · obtain ⟨-, hcnt0, hr⟩ := (hspec False fuel False.elim).of_yields hy
          obtain ⟨m, hm⟩ := Int.eq_ofNat_of_zero_le hcnt0
          rw [hm] at hr hcnt ⊢
          rw [Int.toNat_natCast,
            fillAttrs_eq (Int.ofNat_le.mp hcnt) (by rw [List.length_replicate]),
            List.drop_of_length_le (by rw [List.length_replicate]), List.append_nil, Prod.mk.injEq,
            Prod.mk.injEq] at hr
          obtain ⟨-, rfl, rfl⟩ := hr
          refine ⟨rfl, ?_, ?_⟩
          · rw [List.length_reverse, List.length_take, min_eq_left (Int.ofNat_le.mp hcnt)]
          · rw [Multiset.coe_reverse]
            exact (List.take_sublist _ _).subperm
        · cases hsame b' hb'
          omega

end GetRelInfo

/-- In a new database `relcat` announces its own two attributes. -/
theorem reportsAttrs_iff_relcat : ∃ s H HA, NewSession (fun _ => none) s ∧
    ReportsAttrs s H HA RelDesc.zero AttrDesc.zero RELCATNAME 0 [] := by
  obtain ⟨s, h₀⟩ : ∃ s, NewSession (fun _ => none) s := exists_newSession rfl rfl
  obtain ⟨P, v, fv, H, fvA, HA, hd, -, -, hframes⟩ := h₀.database
  have hR : Relation.relcat ∈ relations [] := List.mem_cons_self
  obtain ⟨b, hfind, hcnt⟩ := hd.find?_count hR
  have hname := (hd.wf _ hR).isName
  refine ⟨s, H, HA, h₀,
    (AttrCatalog.reportsAttrs_iff hd.coh hd.catalogs.relcat hd.catalogs.relTuples
    hd.catalogs.attrcat hd.catalogs.attrTuples hname.nul RelDesc.sized_zero
    (by rw [hd.coh.freeFrames_eq]; omega)).mpr fun _ _ b' hb' => Or.inr ?_⟩
  rw [hd.catalogs.relTuples.find?_name hname, hfind] at hb'
  cases hb'
  have hb : hasName RELCATNAME b = true := List.find?_some hfind
  exact ⟨of_decide_eq_true hb, hcnt.le⟩

/-- A tuple that announces one attribute of `[65]`, and `getRelInfo` returns `OK` although there is
none. -/
theorem not_reportsAttrs_missing : ∃ s s' P v fv fvA H HA, NewSession (fun _ => none) s ∧
    Yields (RelCatalog.addInfo ⟨65 :: List.replicate 31 0, 1⟩) s .OK false s' ∧ Coh s' P v ∧
    IsHeap v RELCATNAME fv H ∧ H.Tuples 36 ∧ IsHeap v ATTRCATNAME fvA HA ∧ HA.Tuples 76 ∧
    ¬ReportsAttrs s' H HA RelDesc.zero AttrDesc.zero [65] 0 [] := by
  obtain ⟨s, h₀⟩ : ∃ s, NewSession (fun _ => none) s := exists_newSession rfl rfl
  obtain ⟨P, v, fv, H, fvA, HA, hd, -, -, hframes⟩ := h₀.database
  obtain ⟨d, hd'⟩ : ∃ d : RelDesc, ⟨65 :: List.replicate 31 0, 1⟩ = d := ⟨_, rfl⟩
  have hsized : d.Sized := hd' ▸ rfl
  have h0 : 0 ∈ d.relName := hd' ▸ (by decide)
  have hdecode : RelDesc.decode d.bytes = ⟨[65], 1⟩ := by
    rw [RelDesc.decode_bytes hsized h0 (hd' ▸ by decide), ← hd']
    rfl
  obtain ⟨st, s', hy, rfl, fv', H', hc', hH', htuples', -, hrows⟩ :=
    (addTuple_rows (T := True) hd.coh hd.catalogs.relcat hd.catalogs.relTuples (by decide)
      (RelDesc.length_bytes hsized) (RelDesc.named_bytes hsized h0) fun _ => by
      omega).exists trivial
  have hl := leaves_setFile hc'
  have hHA' := hl.isHeap attrcat_ne_relcat hd.catalogs.attrcat
  refine ⟨s, s', P, _, fv', fvA, H', HA, h₀, ?_, hc', hH', htuples', hHA', hd.catalogs.attrTuples,
    fun hreports => ?_⟩
  · rw [hd', RelCatalog.addInfo_eq]
    exact hy
  have hunknown : ¬Known [65] H.rows :=
    fun hknown => absurd (hd.lists.mem_names.mpr hknown) (by decide)
  have hname : IsName [65] := ⟨by decide, by decide⟩
  have hnew : cstr d.bytes = [65] := congrArg RelDesc.relName hdecode
  -- what the catalogs say about `[65]`
  have hfind : ∃ b, H'.contents.find? (hasName [65]) = some b ∧
    (RelDesc.ofBytes b).attrCnt = 1 := by
    obtain ⟨b, hfind, hb, hbname⟩ | ⟨-, hnone⟩ := find?_hasName [65] H'
    · refine ⟨b, hfind, ?_⟩
      rw [hrows] at hb
      rcases Multiset.mem_cons.mp hb with rfl | hb
      · exact congrArg RelDesc.attrCnt hdecode
      · exact absurd ⟨b, hb, hbname⟩ hunknown
    · have := hnone _ (hrows ▸ Multiset.mem_cons_self _ _)
      exact absurd hnew (of_decide_eq_false this)
  have hattrs : relAttrs [65] HA.contents = [] := by
    unfold relAttrs
    rw [List.map_eq_nil_iff, List.filter_eq_nil_iff]
    intro b hb hbname
    have hall : ∀ d ∈ (relations []).flatMap Relation.attrDescs, d.relName ≠ [65] := by decide
    refine hall _ (hd.lists.decode_mem hb) ?_
    rw [hd.catalogs.attrTuples.named hd.catalogs.attrcat.heapAt (Multiset.mem_coe.mpr hb)]
    exact of_decide_eq_true hbname
  obtain ⟨b, hfind, hcnt⟩ := hfind
  obtain ⟨N, hN⟩ := hreports.missing b hfind (by rw [hattrs, hcnt]; decide)
  obtain ⟨N', hN'⟩ : ∃ N', N + (H'.rids.length + H'.pages.length + 1) +
    (2 * HA.rids.length + HA.pages.length + 1) = N' := ⟨_, rfl⟩
  obtain ⟨r, s₂, hy₂, hst⟩ := hN N' (by omega)
  have hspec := (AttrCatalog.getRelInfo_filter (T := False) N' hc' hH' htuples' hHA'
    hd.catalogs.attrTuples hname.nul (by decide) (List.cons_ne_nil 65 []) RelDesc.sized_zero
    False.elim).of_yields hy₂
  rw [htuples'.find?_name hname, hfind] at hspec
  exact hst (congrArg Prod.fst hspec.2.2)

end Minirel
