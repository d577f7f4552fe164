import Minirel.Tables.Joined

/-!
# Joins of heap files

`QU_NL_Join` fills an empty result with the relational join of any two heap files whose records are
as long as the catalog says. Only the lengths that `startScan` does not accept stop it, at the first
record of the outer relation.

## Main definitions

* `JoinFiles`: the files of a join.
* `twoByTwo`: two relations that can be joined, and one for the result.

## Main results

* `QU_NL_Join_computes`: what is returned, and what the result holds.
-/

namespace Minirel

open Comp HeapFile Relational

/-- The two relations and an empty result are heap files, and `attrcat` is in order. -/
structure JoinFiles (s : Sys) (P : Multiset Pin) (v : View) (HA HO HI : Heap)
    (nmO nmI nmR : FileName) : Prop where
  coh : Coh s P v
  attrcat : ∃ fv, IsHeap v ATTRCATNAME fv HA
  attrTuples : HA.AttrTuples
  outer : ∃ fv, IsHeap v nmO fv HO
  inner : ∃ fv, IsHeap v nmI fv HI
  result : ∃ fv HR, IsHeap v nmR fv HR ∧ HR.contents = []
  result_ne : nmO ≠ nmR ∧ nmI ≠ nmR

/-! ## Joins of tables -/

/-- The files of a join of tables. -/
theorem Represents.joinFiles {unix : FileName → Option UnixFile} {s : Sys} {db : Tables}
    {P : Multiset Pin} {v : View} {fv fvA : FileView} {H HA : Heap} {nmO nmI nmR : FileName}
    {outer inner : List Bytes} (h : Represents unix s db P v fv H fvA HA)
    (hO : db.tuples nmO = some outer) (hI : db.tuples nmI = some inner)
    (hR : db.tuples nmR = some []) (hne : nmO ≠ nmR ∧ nmI ≠ nmR) :
    ∃ HO HI, HO.contents = outer ∧ HI.contents = inner ∧ JoinFiles s P v HA HO HI nmO nmI nmR := by
  have huser : ∀ nm ts, db.tuples nm = some ts → HasTuples v nm (some ts) := by
    intro nm ts hts
    have hcatalog : ¬IsCatalog nm := fun hn => by
      rw [(h.wf.catalogs nm hn).2] at hts
      cases hts
    exact hts ▸ h.tuples nm hcatalog
  obtain ⟨fvO, HO, hHO, -, -, rfl⟩ := huser _ _ hO
  obtain ⟨fvI, HI, hHI, -, -, rfl⟩ := huser _ _ hI
  obtain ⟨fvR, HR, hHR, -, -, hempty⟩ := huser _ _ hR
  exact ⟨HO, HI, rfl, rfl, h.database.coh, ⟨fvA, h.database.catalogs.attrcat⟩, h.attrTuples,
    ⟨fvO, hHO⟩, ⟨fvI, hHI⟩, ⟨fvR, HR, hHR, hempty⟩, hne⟩

/-- Two relations of two strings each, the first of which has the length `len`, are created and
loaded, and one for the result. -/
def twoByTwo (len : Int) (data data' : Bytes) : List Command :=
  [.load [67] [70] (some data'), .load [65] [70] (some data),
    .createRel [69] 2 [⟨[69], [66], 0, 4⟩, ⟨[69], [68], 0, 4⟩],
    .createRel [67] 2 [⟨[67], [68], 0, len⟩, ⟨[67], [71], 0, 4⟩],
    .createRel [65] 2 [⟨[65], [66], 0, len⟩, ⟨[65], [71], 0, 4⟩]]

theorem exists_twoByTwo {len : Int} (hlen : len = 0 ∨ len = 1) (data data' : Bytes) :
    ∃ s P v fv H fvA HA, Represents (fun _ => none) s
      (Tables.initial.replay (twoByTwo len data data')) P v fv H fvA HA ∧
      8 ≤ freeFrames v.numBufs P := by
  have hfits : Tables.initial.FitsAll (fun _ => none) (twoByTwo len data data') := by
    have hvalid : (∀ a ∈ ([⟨[65], [66], 0, len⟩, ⟨[65], [71], 0, 4⟩] : List AttrInfo),
          a.Valid ∧ a.relName = [65]) ∧
        ∀ a ∈ ([⟨[67], [68], 0, len⟩, ⟨[67], [71], 0, 4⟩] : List AttrInfo),
          a.Valid ∧ a.relName = [67] := by
      rcases hlen with rfl | rfl <;> decide
    have hwidth : 1 ≤ (⟨[65], [⟨[65], [66], 0, len⟩, ⟨[65], [71], 0, 4⟩]⟩ : Relation).width ∧
        1 ≤ (⟨[67], [⟨[67], [68], 0, len⟩, ⟨[67], [71], 0, 4⟩]⟩ : Relation).width := by
      rcases hlen with rfl | rfl <;> decide
    have hhalts : ∀ (R R' : Relation) (bytes bytes' : Bytes),
        1 ≤ R'.width → some (R', bytes') = some (R, bytes) → 1 ≤ R.width := by
      rintro R R' bytes bytes' hR he
      cases he
      exact hR
    exact ⟨⟨⟨⟨⟨trivial, ⟨⟨by decide, rfl, by decide, hvalid.1⟩, le_refl 2⟩, trivial⟩,
      ⟨⟨by decide, rfl, by decide, hvalid.2⟩, le_refl 2⟩, trivial⟩,
      ⟨⟨by decide, rfl, by decide, by decide⟩, by decide⟩, trivial⟩, ⟨by decide, by decide⟩,
      fun R bytes => hhalts R _ bytes data hwidth.1⟩, ⟨by decide, by decide⟩,
      fun R bytes => hhalts R _ bytes data' hwidth.2⟩
  obtain ⟨s₀, h₀⟩ : ∃ s₀, NewSession (fun _ => none) s₀ := exists_newSession rfl rfl
  have hframes := h₀.freeFrames
  have hcost : cost (twoByTwo len data data') = 15 := rfl
  obtain ⟨s, hrun, hle⟩ := h₀.realizes.exists_run hfits (by omega)
  obtain ⟨P, v, fv, H, fvA, HA, h⟩ := hrun.realizes h₀.realizes
  refine ⟨s, P, v, fv, H, fvA, HA, h, ?_⟩
  rw [← h.database.coh.freeFrames_eq]
  omega

/-- What `QU_NL_Join` finds in a session that has created and loaded two relations. -/
theorem exists_join_twoByTwo {len : Int} {data data' : Bytes} {projNames : List AttrInfo}
    {attr1 attr2 : AttrInfo} {op : Operator} {type : Datatype} {ds : List AttrDesc}
    {d₁ d₂ : AttrDesc} {outer inner : List Bytes} (hlen : len = 0 ∨ len = 1)
    (hj : (Tables.initial.replay (twoByTwo len data data')).Described projNames attr1 op attr2 type
      ds d₁ d₂ outer inner)
    (htypes : attr1.attrType = attr2.attrType ∧ attr1.attrLen = attr2.attrLen)
    (hO : (Tables.initial.replay (twoByTwo len data data')).tuples attr1.relName = some outer)
    (hI : (Tables.initial.replay (twoByTwo len data data')).tuples attr2.relName = some inner)
    (hne : attr1.relName ≠ [69] ∧ attr2.relName ≠ [69]) :
    ∃ s P v HA HO HI ds' d₁' d₂',
      JoinInput HA HO HI projNames attr1 op attr2 type ds' d₁' d₂' ∧
      JoinFiles s P v HA HO HI attr1.relName attr2.relName [69] ∧ 8 ≤ freeFrames v.numBufs P ∧
      HO.contents = outer ∧ d₂'.attrLen = d₂.attrLen ∧
      relationalJoin type op d₁' d₂' ds' HO.contents HI.contents =
        relationalJoin type op d₁ d₂ ds outer inner := by
  obtain ⟨s, P, v, fv, H, fvA, HA, h, hframes⟩ := exists_twoByTwo hlen data data'
  have hR : (Tables.initial.replay (twoByTwo len data data')).tuples [69] = some [] := rfl
  obtain ⟨HO, HI, rfl, rfl, hfiles⟩ := h.joinFiles hO hI hR hne
  obtain ⟨ds', d₁', d₂', hinput, hlen', hrows⟩ := h.joinInput hj htypes
  exact ⟨s, P, v, HA, HO, HI, ds', d₁', d₂', hinput, hfiles, hframes, rfl, hlen', hrows⟩

/-! ## Results -/

section Computes

variable {s s' : Sys} {P : Multiset Pin} {v : View} {HA HO HI : Heap} {junk : JoinLocals}
  {result : FileName} {projNames : List AttrInfo} {attr1 attr2 : AttrInfo} {op : Operator}
  {type : Datatype} {ds : List AttrDesc} {d₁ d₂ : AttrDesc}

/-- What `QU_NL_Join` returns and writes, whatever the length of the attributes. With eight free
frames it returns. -/
theorem JoinInput.fills (h : JoinInput HA HO HI projNames attr1 op attr2 type ds d₁ d₂)
    (hf : JoinFiles s P v HA HO HI attr1.relName attr2.relName result) (hjunk : junk.Sized) :
    (8 ≤ freeFrames v.numBufs P → ∃ N, ∀ fuel, N ≤ fuel → ∃ r s',
      Yields (QU_NL_Join fuel junk result projNames.length projNames attr1 op attr2) s
        r false s') ∧
    ∀ fuel r s', Yields (QU_NL_Join fuel junk result projNames.length projNames attr1 op attr2) s
      r false s' →
      r = (JoinPlan.of ds d₁ d₂ op).result type HO.contents HI.contents ∧
        s'.contents? result =
          some ((JoinPlan.of ds d₁ d₂ op).rows type HO.contents HI.contents) := by
  obtain ⟨fvA, hA⟩ := hf.attrcat
  obtain ⟨fvO, hO⟩ := hf.outer
  obtain ⟨fvI, hI⟩ := hf.inner
  obtain ⟨fvR, HR, hR, hempty⟩ := hf.result
  have hrun := fun T fuel => h.run (T := T) fuel hf.coh hA hf.attrTuples hjunk hO hI hR
    hf.result_ne.1 hf.result_ne.2
  refine ⟨fun hframes => ?_, fun fuel r s' hy => ?_⟩
  · refine ⟨(2 * HA.rids.length + HA.pages.length + 1) + (HO.rids.length + HO.pages.length + 1) +
      (HI.rids.length + HI.pages.length + 1), fun fuel hfuel => ?_⟩
    obtain ⟨r, s', hy, -⟩ :=
      (hrun True fuel fun _ => ⟨hframes, by omega, by omega, by omega⟩).exists trivial
    exact ⟨r, s', hy⟩
  obtain ⟨hr, P', v', k, fv', H', hl, -, -, -, hR', -, hcontents, -⟩ :=
    (hrun False fuel False.elim).of_yields hy
  -- an empty heap file takes the records in their order
  have hrids : HR.rids = [] := by
    rw [← List.length_eq_zero_iff, ← hR.heapAt.length_contents, hempty]
    rfl
  obtain ⟨-, hH'⟩ := hcontents (Heap.packed_of_rids hR.heapAt hrids).1
  rw [hempty, List.nil_append] at hH'
  exact ⟨hr, by rw [hR'.contents? hl.coh, hH']⟩

/-- `startScan` accepts the attribute of the inner relation if it has a length, which is four for an
integer. -/
theorem JoinInput.accepts_iff (h : JoinInput HA HO HI projNames attr1 op attr2 type ds d₁ d₂) :
    (JoinPlan.of ds d₁ d₂ op).Accepts type ↔
      1 ≤ d₂.attrLen ∧ (type = .INTEGER → d₂.attrLen = 4) := by
  refine and_congr_right fun _ => ?_
  have hfloat := h.compared.not_float
  cases type with
  | STRING => exact iff_of_true (fun hn => absurd rfl hn) nofun
  | INTEGER => exact ⟨fun hs _ => hs nofun, fun hi _ => hi rfl⟩
  | FLOAT => exact absurd rfl hfloat

/-- Where `startScan` refuses the attribute, the result stays empty. -/
theorem JoinInput.refused (h : JoinInput HA HO HI projNames attr1 op attr2 type ds d₁ d₂)
    (htuples : HA.AttrTuples)
    (hn : ¬(HO.contents = [] ∨ (JoinPlan.of ds d₁ d₂ op).Accepts type)) :
    (JoinPlan.of ds d₁ d₂ op).result type HO.contents HI.contents = (.BADSCANPARM, none) ∧
      (JoinPlan.of ds d₁ d₂ op).rows type HO.contents HI.contents = [] := by
  rw [h.rows_eq htuples, if_neg (not_or.mp hn).2]
  unfold JoinPlan.result JoinPlan.early
  rw [if_neg hn]
  exact ⟨rfl, rfl⟩

/-- `QU_NL_Join` returns `OK` and fills the result with the relational join, unless the outer
relation has a record and the attributes have a length that `startScan` does not accept. With eight
free frames it returns. -/
theorem QU_NL_Join_computes (h : JoinInput HA HO HI projNames attr1 op attr2 type ds d₁ d₂)
    (hf : JoinFiles s P v HA HO HI attr1.relName attr2.relName result) (hjunk : junk.Sized) :
    (8 ≤ freeFrames v.numBufs P → ∃ N, ∀ fuel, N ≤ fuel → ∃ r s',
      Yields (QU_NL_Join fuel junk result projNames.length projNames attr1 op attr2) s
        r false s') ∧
    ∀ fuel r s', Yields (QU_NL_Join fuel junk result projNames.length projNames attr1 op attr2) s
      r false s' →
      (HO.contents = [] ∨ 1 ≤ d₂.attrLen ∧ (type = .INTEGER → d₂.attrLen = 4) →
        r = (.OK, some (toInt (relationalJoin type op d₁ d₂ ds HO.contents HI.contents).length)) ∧
          s'.contents? result = some (relationalJoin type op d₁ d₂ ds HO.contents HI.contents)) ∧
      (¬(HO.contents = [] ∨ 1 ≤ d₂.attrLen ∧ (type = .INTEGER → d₂.attrLen = 4)) →
        r = (.BADSCANPARM, none) ∧ s'.contents? result = some []) := by
  obtain ⟨hreturns, hfills⟩ := h.fills hf hjunk
  refine ⟨hreturns, fun fuel r s' hy => ?_⟩
  obtain ⟨hr, hcontents⟩ := hfills fuel r s' hy
  rw [← h.accepts_iff, hr, hcontents]
  refine ⟨fun hok => ?_, fun hn => ?_⟩
  · obtain ⟨hrows, hresult⟩ := h.outcome hf.attrTuples hok
    exact ⟨hresult, congrArg some hrows⟩
  · obtain ⟨hresult, hrows⟩ := h.refused hf.attrTuples hn
    exact ⟨hresult, congrArg some hrows⟩

end Computes

/-- `A` and `C` have two records each, and three pairs have the first attribute of `A` up to that of
`C`. -/
theorem QU_NL_Join_computes_twoByTwo : ∃ s fuel s',
    Yields (QU_NL_Join fuel Locals.zero.join [69] 2 [⟨[67], [71], 0, 4⟩, ⟨[65], [71], 0, 4⟩]
      ⟨[65], [66], 0, 1⟩ .LTE ⟨[67], [68], 0, 1⟩) s (.OK, some 3) false s' ∧
    s'.contents? [69] = some [[3, 3, 3, 3, 1, 1, 1, 1], [4, 4, 4, 4, 1, 1, 1, 1],
      [4, 4, 4, 4, 2, 2, 2, 2]] := by
  have hj : (Tables.initial.replay (twoByTwo 1 [97, 1, 1, 1, 1, 99, 2, 2, 2, 2]
      [98, 3, 3, 3, 3, 99, 4, 4, 4, 4])).Described [⟨[67], [71], 0, 4⟩, ⟨[65], [71], 0, 4⟩]
      ⟨[65], [66], 0, 1⟩ .LTE ⟨[67], [68], 0, 1⟩ .STRING
      [⟨[67], [71], 1, 0, 4⟩, ⟨[65], [71], 1, 0, 4⟩] ⟨[65], [66], 0, 0, 1⟩ ⟨[67], [68], 0, 0, 1⟩
      [[97, 1, 1, 1, 1], [99, 2, 2, 2, 2]] [[98, 3, 3, 3, 3], [99, 4, 4, 4, 4]] :=
    ⟨by decide, by decide, rfl, rfl, rfl,
      ⟨⟨[65], [⟨[65], [66], 0, 1⟩, ⟨[65], [71], 0, 4⟩]⟩, rfl, by decide, by decide, by decide,
        by decide⟩,
      ⟨⟨[67], [⟨[67], [68], 0, 1⟩, ⟨[67], [71], 0, 4⟩]⟩, rfl, by decide, by decide, by decide,
        by decide⟩, ⟨rfl, rfl, rfl, Datatype.noConfusion, Datatype.noConfusion⟩, by decide⟩
  obtain ⟨s, P, v, HA, HO, HI, ds, d₁, d₂, hinput, hfiles, hframes, hO, hlen, hrows⟩ :=
    exists_join_twoByTwo (Or.inr rfl) hj ⟨rfl, rfl⟩ rfl rfl (by decide)
  have hjoin : relationalJoin .STRING .LTE d₁ d₂ ds HO.contents HI.contents =
      [[3, 3, 3, 3, 1, 1, 1, 1], [4, 4, 4, 4, 1, 1, 1, 1], [4, 4, 4, 4, 2, 2, 2, 2]] :=
    hrows.trans (by decide)
  obtain ⟨hreturns, hall⟩ := QU_NL_Join_computes hinput hfiles Locals.sized_zero.join
  obtain ⟨fuel, hreturns⟩ := hreturns hframes
  obtain ⟨r, s', hy⟩ := hreturns fuel (le_refl _)
  obtain ⟨rfl, hcontents⟩ :=
    (hall fuel r s' hy).1 (Or.inr ⟨by rw [hlen], Datatype.noConfusion⟩)
  rw [hjoin] at hy hcontents
  exact ⟨s, fuel, s', hy, hcontents⟩

/-- Attributes without a length are equal, but `startScan` does not accept them. -/
theorem not_QU_NL_Join_computes_emptyAttr : ∃ s P v HA HO HI ds d₁ d₂ fuel s',
    JoinInput HA HO HI [⟨[67], [71], 0, 4⟩] ⟨[65], [66], 0, 0⟩ .EQ ⟨[67], [68], 0, 0⟩ .STRING ds d₁
      d₂ ∧
    JoinFiles s P v HA HO HI [65] [67] [69] ∧ 8 ≤ freeFrames v.numBufs P ∧
    relationalJoin .STRING .EQ d₁ d₂ ds HO.contents HI.contents = [[2, 2, 2, 2]] ∧
    Yields (QU_NL_Join fuel Locals.zero.join [69] 1 [⟨[67], [71], 0, 4⟩] ⟨[65], [66], 0, 0⟩ .EQ
      ⟨[67], [68], 0, 0⟩) s (.BADSCANPARM, none) false s' ∧
    s'.contents? [69] = some [] := by
  have hj : (Tables.initial.replay (twoByTwo 0 [1, 1, 1, 1] [2, 2, 2, 2])).Described
      [⟨[67], [71], 0, 4⟩] ⟨[65], [66], 0, 0⟩ .EQ ⟨[67], [68], 0, 0⟩ .STRING [⟨[67], [71], 0, 0, 4⟩]
      ⟨[65], [66], 0, 0, 0⟩ ⟨[67], [68], 0, 0, 0⟩ [[1, 1, 1, 1]] [[2, 2, 2, 2]] :=
    ⟨by decide, by decide, rfl, rfl, rfl,
      ⟨⟨[65], [⟨[65], [66], 0, 0⟩, ⟨[65], [71], 0, 4⟩]⟩, rfl, by decide, by decide, by decide,
        by decide⟩,
      ⟨⟨[67], [⟨[67], [68], 0, 0⟩, ⟨[67], [71], 0, 4⟩]⟩, rfl, by decide, by decide, by decide,
        by decide⟩, ⟨rfl, rfl, rfl, Datatype.noConfusion, Datatype.noConfusion⟩, by decide⟩
  obtain ⟨s, P, v, HA, HO, HI, ds, d₁, d₂, hinput, hfiles, hframes, hO, hlen, hrows⟩ :=
    exists_join_twoByTwo (Or.inl rfl) hj ⟨rfl, rfl⟩ rfl rfl (by decide)
  have hn : ¬(HO.contents = [] ∨ (JoinPlan.of ds d₁ d₂ .EQ).Accepts .STRING) := by
    rw [hinput.accepts_iff, hO, hlen]
    decide
  obtain ⟨hresult, hempty⟩ := hinput.refused hfiles.attrTuples hn
  obtain ⟨hreturns, hfills⟩ := hinput.fills hfiles Locals.sized_zero.join
  obtain ⟨fuel, hreturns⟩ := hreturns hframes
  obtain ⟨r, s', hy⟩ := hreturns fuel (le_refl _)
  obtain ⟨rfl, hcontents⟩ := hfills fuel r s' hy
  rw [hresult] at hy
  rw [hempty] at hcontents
  exact ⟨s, P, v, HA, HO, HI, ds, d₁, d₂, fuel, s', hinput, hfiles, hframes, hrows, hy, hcontents⟩

end Minirel
