import Minirel.Join.Relational
import Minirel.Select.Projection

/-!
# `QU_NL_Join`

The function looks up the attributes of the projection list and the two that are compared, and joins
the relations. What it leaves open is `attrcat`: each lookup keeps a pin on its header page.

## Main definitions

* `Looked`: nothing but lookups has been done.
* `firstMissing`: the attribute that is not found.

## Main results

* `QU_NL_Join_refused`: an attribute that is not in the catalog.
* `QU_NL_Join_joined`: what is written to the result.
-/

namespace Minirel

open Comp HeapFile Relational

/-! ## Lookups -/

/-- Since the state with the pins `P` and the view `v` only `attrcat` has been read. There are `n`
frames for what comes after the lookups. -/
def Looked (T : Prop) (n : Nat) (H : Heap) (P : Multiset Pin) (v : View) (s : Sys) : Prop :=
  ∃ P' v' k, HasRead (· = ATTRCATNAME) k P v s P' v' ∧ (T → RoomFor n v' H P')

/-- Since then only `attrcat` has been read. Of `m` frames all but three are left. -/
def OnlyLooked (T : Prop) (m : Nat) (P : Multiset Pin) (v : View) (s : Sys) : Prop :=
  ∃ P' v' k, HasRead (· = ATTRCATNAME) k P v s P' v' ∧ (T → m ≤ freeFrames v'.numBufs P' + 3)

section Lookups

variable {T : Prop} {s : Sys} {P : Multiset Pin} {v : View} {fvA : FileView} {HA : Heap} {n : Nat}
  {a : AttrInfo}

/-- A lookup reads `attrcat` once more. -/
theorem finds_looked (fuel : Nat) (hH : IsHeap v ATTRCATNAME fvA HA) (htuples : HA.AttrTuples)
    (hname : IsName a.relName) (hn : 2 ≤ n)
    (hT : T → 2 * HA.rids.length + HA.pages.length + 1 ≤ fuel) :
    Finds T (Looked T n HA P v) (OnlyLooked T (n + 1) P v) fuel HA a := by
  rintro s d ⟨P₁, v₁, k, hread₁, hroom⟩ hd
  unfold AttrInfo.desc AttrInfo.refusal
  by_cases hempty : a.relName = [] ∨ a.attrName = []
  · unfold AttrCatalog.getInfo
    rw [if_pos hempty, if_pos hempty, if_pos hempty, clean_pure]
    refine ⟨rfl, P₁, v₁, k, hread₁, fun ht => ?_⟩
    have := (hroom ht).le
    omega
  rw [if_neg hempty, if_neg hempty]
  obtain ⟨hne, hne'⟩ := not_or.mp hempty
  refine (AttrCatalog.getInfo_spec fuel hread₁.coh (hread₁.isHeap hH) htuples hname hne hne' hd
    fun ht => ⟨hn.trans (hroom ht).le, hT ht⟩).mono fun r s' hr => ?_
  cases hfind : HA.contents.find? (hasNames a.relName a.attrName) with
  | some b =>
    rw [hfind] at hr
    obtain ⟨hr, x, v', hread, hpage, c, hfile⟩ := hr
    obtain ⟨rid, hrid⟩ :=
      (Heap.mem_rows hH.heapAt).mp (Multiset.mem_coe.mpr (List.mem_of_find?_eq_some hfind))
    exact ⟨hr, htuples.sized hrid, _, v', k + 1, hread₁.trans hread,
      fun ht => (hroom ht).next hread hpage hfile⟩
  | none =>
    rw [hfind] at hr
    obtain ⟨hr, -, P', v', hread⟩ := hr
    refine ⟨hr, P', v', k + 2, hread₁.trans hread, fun ht => ?_⟩
    have h₁ := (hroom ht).le
    have h₂ := hread.freeFrames_le
    omega

/-- The second loop adds the lengths, if no sum wraps. -/
theorem lengthLoop_eq {arr : List AttrDesc} (hpos : ∀ d ∈ arr, 0 ≤ d.attrLen) (n : Nat) {sum : Int}
    (hsum : 0 ≤ sum) (hmax : sum + ((arr.drop n).map AttrDesc.attrLen).sum < 2147483648) :
    lengthLoop arr.length arr n sum = some (sum + ((arr.drop n).map AttrDesc.attrLen).sum) := by
  obtain ⟨k, hk⟩ : ∃ k, arr.length - n = k := ⟨_, rfl⟩
  induction k generalizing n sum with
  | zero =>
    have hle : arr.length ≤ n := Nat.sub_eq_zero_iff_le.mp hk
    rw [lengthLoop, if_neg (by omega), List.drop_of_length_le hle, List.map_nil,
      List.sum_nil, add_zero]
  | succ k ih =>
    have hn : n < arr.length := by omega
    have hlen := hpos _ (List.getElem_mem hn)
    have hrest : 0 ≤ ((arr.drop (n + 1)).map AttrDesc.attrLen).sum := by
      refine List.sum_nonneg fun m hm => ?_
      obtain ⟨d, hd, rfl⟩ := List.mem_map.mp hm
      exact hpos d (List.mem_of_mem_drop hd)
    rw [List.drop_eq_getElem_cons hn, List.map_cons, List.sum_cons] at hmax ⊢
    rw [lengthLoop, if_pos (by omega), if_neg (by omega), Int.toNat_natCast,
      List.getElem?_eq_getElem hn, Option.bind_eq_bind, Option.bind_some,
      toInt_eq (by omega) (by omega), show (n : Int) + 1 = (n + 1 : Nat) from rfl,
      ih (n + 1) (by omega) (by omega) (by omega), add_assoc]

end Lookups

/-- The locals of `QU_NL_Join` have the memory of their types. -/
structure JoinLocals.Sized (junk : JoinLocals) : Prop where
  attrDescArray : ∀ k, (junk.attrDescArray k).Sized
  attrDesc1 : junk.attrDesc1.Sized
  attrDesc2 : junk.attrDesc2.Sized

section Join

variable {T : Prop} {s : Sys} {P : Multiset Pin} {v : View} {fvA fvO fvI fvR : FileView}
  {HA HO HI HR : Heap} {junk : JoinLocals} {result : FileName} {projNames : List AttrInfo}
  {attr1 attr2 : AttrInfo} {op : Operator} {ds : List AttrDesc} {d₁ d₂ : AttrDesc} {type : Datatype}

/-- The first attribute that is not in the catalog, in the order in which they are looked up. -/
def firstMissing (HA : Heap) (projNames : List AttrInfo) (attr1 attr2 : AttrInfo) :
    Option AttrInfo :=
  (projNames ++ [attr1, attr2]).find? fun a => (a.desc HA).isNone

/-- Without an attribute `QU_NL_Join` does not open the result. -/
theorem QU_NL_Join_refused (fuel : Nat) {a : AttrInfo} (hc : Coh s P v)
    (hA : IsHeap v ATTRCATNAME fvA HA) (htuples : HA.AttrTuples)
    (hnames : ∀ b ∈ projNames ++ [attr1, attr2], IsName b.relName) (hjunk : junk.Sized)
    (htypes : attr1.attrType = attr2.attrType ∧ attr1.attrLen = attr2.attrLen)
    (hmissing : firstMissing HA projNames attr1 attr2 = some a)
    (hT : T → 3 ≤ freeFrames v.numBufs P ∧ 2 * HA.rids.length + HA.pages.length + 1 ≤ fuel) :
    Clean T (QU_NL_Join fuel junk result projNames.length projNames attr1 op attr2) s fun r s' =>
      r = (a.refusal, none) ∧ OnlyLooked T (freeFrames v.numBufs P) P v s' := by
  -- the frames that the lookups leave
  let n := max 2 (freeFrames v.numBufs P - 1)
  have hn : T → n + 1 = freeFrames v.numBufs P := fun ht => by
    have := (hT ht).1
    omega
  suffices h : Clean T (QU_NL_Join fuel junk result projNames.length projNames attr1 op attr2)
    s fun r s' =>
      r = (a.refusal, none) ∧ OnlyLooked T (n + 1) P v s' by
    refine h.mono fun r s' hr => hr.imp_right ?_
    rintro ⟨P', v', k, hread, hframes⟩
    exact ⟨P', v', k, hread, fun ht => by rw [← hn ht]; exact hframes ht⟩
  have hfinds : ∀ b ∈ projNames ++ [attr1, attr2],
      Finds T (Looked T n HA P v) (OnlyLooked T (n + 1) P v) fuel HA b :=
    fun b hb => finds_looked fuel hA htuples (hnames b hb) (le_max_left _ _) fun ht => (hT ht).2
  have h₀ : Looked T n HA P v s := ⟨P, v, 0, .refl _ hc, fun ht => Or.inl (hn ht).le⟩
  have hst : ∀ {b : AttrInfo}, b.refusal ≠ .OK := fun {b} => by
    unfold AttrInfo.refusal
    split <;> nofun
  unfold QU_NL_Join
  rw [if_neg (by simp [htypes.1, htypes.2]), if_neg (not_lt.mpr (Int.natCast_nonneg _)),
    Int.toNat_natCast]
  refine (resolveLoop_of fuel 0 h₀ (fun b hb => hfinds b (List.mem_append_left _ hb))
    (by rw [List.length_map, List.length_range]) fun d hd => ?_).bind ?_
  · obtain ⟨k, -, rfl⟩ := List.mem_map.mp hd
    exact hjunk.attrDescArray k
  rintro ⟨early, i, arr⟩ s₁ hr
  rw [List.drop_zero] at hr
  unfold firstMissing at hmissing
  rw [List.find?_append] at hmissing
  cases hfind : projNames.find? fun b => (b.desc HA).isNone with
  | some b =>
    -- an attribute of the projection list
    rw [hfind] at hr hmissing
    obtain ⟨⟨_, _, hr⟩, hJ⟩ := hr
    cases hr
    cases hmissing
    dsimp only
    rw [clean_pure]
    exact ⟨rfl, hJ⟩
  | none =>
    rw [hfind] at hr hmissing
    obtain ⟨h₁, i, arr, hr, -⟩ := hr
    cases hr
    dsimp only
    refine (hfinds attr1 (by simp) s₁ _ h₁ hjunk.attrDesc1).bind ?_
    rintro ⟨st, d⟩ s₂ hr
    cases hdesc1 : attr1.desc HA with
    | none =>
      rw [hdesc1] at hr
      obtain ⟨hr, hJ⟩ := hr
      have ha : attr1 = a := by simpa [hdesc1] using hmissing
      subst ha
      dsimp only at hr ⊢
      rw [hr, if_pos hst, clean_pure]
      exact ⟨rfl, hJ⟩
    | some d₁ =>
      rw [hdesc1] at hr
      obtain ⟨hr, -, h₂⟩ := hr
      cases hr
      dsimp only
      rw [if_neg fun hn => hn rfl]
      refine (hfinds attr2 (by simp) s₂ _ h₂ hjunk.attrDesc2).bind ?_
      rintro ⟨st, d⟩ s₃ hr
      have hdesc2 : attr2.desc HA = none ∧ attr2 = a := by simpa [hdesc1] using hmissing
      obtain ⟨hdesc2, rfl⟩ := hdesc2
      rw [hdesc2] at hr
      obtain ⟨hr, hJ⟩ := hr
      dsimp only at hr ⊢
      rw [hr, if_pos hst, clean_pure]
      exact ⟨rfl, hJ⟩

/-- The relation name of a descriptor is a C string, and that of the attribute. -/
theorem AttrInfo.relName_of_desc {a : AttrInfo} {d : AttrDesc} (htuples : HA.AttrTuples)
    (h : a.desc HA = some d) : 0 ∈ d.relName ∧ cstr d.relName = a.relName := by
  unfold AttrInfo.desc at h
  split at h
  · cases h
  obtain ⟨b, hfind, rfl⟩ := Option.map_eq_some_iff.mp h
  obtain ⟨rid, hrid⟩ := Heap.exists_of_mem_contents (List.mem_of_find?_eq_some hfind)
  have hnul := (htuples.tuples rid b hrid).2.nul
  have hnames := List.find?_some hfind
  unfold hasNames at hnames
  have hname : cstr b = a.relName := of_decide_eq_true (Bool.and_eq_true_iff.mp hnames).1
  exact ⟨hnul, (cstr_take hnul).trans hname⟩

/-- What `QU_NL_Join` finds in the catalog, if it finds the descriptors. -/
abbrev JoinPlan.of (ds : List AttrDesc) (d₁ d₂ : AttrDesc) (op : Operator) : JoinPlan :=
  ⟨ds, d₁, d₂, (ds.map AttrDesc.attrLen).sum, op.mirror⟩

/-- `QU_NL_Join` writes the rows of the join behind the records of the result, and changes no other
file. -/
theorem QU_NL_Join_joined (fuel : Nat) (hc : Coh s P v) (hA : IsHeap v ATTRCATNAME fvA HA)
    (htuples : HA.AttrTuples) (hnames : ∀ b ∈ projNames ++ [attr1, attr2], IsName b.relName)
    (hjunk : junk.Sized) (htypes : attr1.attrType = attr2.attrType ∧ attr1.attrLen = attr2.attrLen)
    (hds : projNames.map (AttrInfo.desc HA) = ds.map some) (hd₁ : attr1.desc HA = some d₁)
    (hd₂ : attr2.desc HA = some d₂)
    (hplan : (JoinPlan.of ds d₁ d₂ op).Sound type HO.contents HI.contents)
    (hlens : ∀ d ∈ ds, 0 ≤ d.attrLen) (hO : IsHeap v attr1.relName fvO HO)
    (hI : IsHeap v attr2.relName fvI HI) (hR : IsHeap v result fvR HR)
    (hOI : attr1.relName ≠ attr2.relName) (hOR : attr1.relName ≠ result)
    (hIR : attr2.relName ≠ result)
    (hT : T → 8 ≤ freeFrames v.numBufs P ∧ 2 * HA.rids.length + HA.pages.length + 1 ≤ fuel ∧
      HO.rids.length + HO.pages.length + 1 ≤ fuel ∧ HI.rids.length + HI.pages.length + 1 ≤ fuel) :
    Clean T (QU_NL_Join fuel junk result projNames.length projNames attr1 op attr2) s fun r s' =>
      r = (JoinPlan.of ds d₁ d₂ op).result type HO.contents HI.contents ∧ ∃ P' v' k fv' H',
        Leaves (fun nm => nm = ATTRCATNAME ∨ nm = result) k P v s' P' v' ∧
        (∀ z ∈ P', z.wrote = true → z ∈ P) ∧ (∀ nm, nm ≠ result → v'.file nm = v.file nm) ∧
        (∀ nm, nm ≠ ATTRCATNAME → v'.handle nm = v.handle nm) ∧ IsHeap v' result fv' H' ∧
        (T → freeFrames v.numBufs P ≤ freeFrames v'.numBufs P' + 1) ∧
        (HR.Packed → H'.Packed ∧ H'.contents =
          HR.contents ++ (JoinPlan.of ds d₁ d₂ op).rows type HO.contents HI.contents) ∧
        (HR.Counted → H'.Counted) := by
  -- the frames that the lookups leave
  let n := max 7 (freeFrames v.numBufs P - 1)
  have hn : T → n + 1 = freeFrames v.numBufs P := fun ht => by
    have := (hT ht).1
    omega
  have hfinds : ∀ b ∈ projNames ++ [attr1, attr2],
      Finds T (Looked T n HA P v) (OnlyLooked T (n + 1) P v) fuel HA b :=
    fun b hb => finds_looked fuel hA htuples (hnames b hb)
      ((by decide : 2 ≤ 7).trans (le_max_left _ _))
      fun ht => (hT ht).2.1
  have h₀ : Looked T n HA P v s := ⟨P, v, 0, .refl _ hc, fun ht => Or.inl (hn ht).le⟩
  obtain ⟨h0₁, hcstr₁⟩ := AttrInfo.relName_of_desc htuples hd₁
  obtain ⟨h0₂, hcstr₂⟩ := AttrInfo.relName_of_desc htuples hd₂
  unfold QU_NL_Join
  rw [if_neg (by simp [htypes.1, htypes.2]), if_neg (not_lt.mpr (Int.natCast_nonneg _)),
    Int.toNat_natCast]
  refine (resolveLoop_of fuel 0 h₀ (fun b hb => hfinds b (List.mem_append_left _ hb))
    (by rw [List.length_map, List.length_range]) fun d hd => ?_).bind ?_
  · obtain ⟨k, -, rfl⟩ := List.mem_map.mp hd
    exact hjunk.attrDescArray k
  rintro ⟨early, i, arr⟩ s₁ hr
  rw [find?_desc_of_map hds 0] at hr
  obtain ⟨h₁, i, arr, hr, -, harr⟩ := hr
  cases hr
  rw [List.take_zero, List.map_nil, List.nil_append, List.drop_zero, hds] at harr
  obtain rfl : arr = ds := List.map_injective_iff.mpr (Option.some_injective _) harr
  dsimp only
  -- the attributes that are compared
  refine (hfinds attr1 (by simp) s₁ _ h₁ hjunk.attrDesc1).bind ?_
  rintro ⟨st, d⟩ s₂ hr
  rw [hd₁] at hr
  obtain ⟨hr, -, h₂⟩ := hr
  cases hr
  dsimp only
  rw [if_neg fun hn => hn rfl]
  refine (hfinds attr2 (by simp) s₂ _ h₂ hjunk.attrDesc2).bind ?_
  rintro ⟨st, d⟩ s₃ hr
  rw [hd₂] at hr
  obtain ⟨hr, -, P₃, v₃, k, hread, hroom⟩ := hr
  cases hr
  dsimp only
  have hlen : projNames.length = arr.length := by
    have := congrArg List.length hds
    rwa [List.length_map, List.length_map] at this
  have hwidth : (arr.map AttrDesc.attrLen).sum ≤ 1000 := hplan.width.2
  have hloop := lengthLoop_eq hlens 0 (le_refl (0 : Int)) (by rw [List.drop_zero]; omega)
  rw [List.drop_zero, zero_add] at hloop
  rw [if_neg fun hn => hn rfl, hlen, show lengthLoop arr.length arr 0 0 = _ from hloop,
    clean_ofOption_some_bind]
  -- the relations are joined
  have hnameO : cString d₁.relName = some attr1.relName := by
    rw [cString, if_pos h0₁, hcstr₁]
  have hnameI : cString d₂.relName = some attr2.relName := by
    rw [cString, if_pos h0₂, hcstr₂]
  refine (joinScans_spec fuel hplan hOI hOR hIR hnameO hnameI hread.coh (hread.isHeap hO)
    (hread.isHeap hI) (hread.isHeap hR) fun ht =>
      ⟨(le_max_left _ _).trans (hroom ht).le, (hT ht).2.2⟩).mono ?_
  rintro r s' ⟨hr, fv', H', hc', hR', -, hcontents⟩
  have hleaves := (hread.leaves.mono (fun _ => Or.inl) le_rfl).trans
    ((leaves_setFile hc').mono (fun _ => Or.inr) le_rfl)
  refine ⟨hr, P₃, _, _, fv', H', hleaves, fun z => hread.mem_of_wrote, fun nm hnm => ?_,
    hread.later.other, hR', fun ht => ?_, hcontents⟩
  · rw [View.file_setFile_of_ne hnm, hread.file]
  · rw [← hn ht]
    exact Nat.succ_le_succ (hroom ht).le

end Join

end Minirel
