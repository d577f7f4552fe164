import Minirel.Join.Query

/-!
# What `QU_NL_Join` computes

If the records are as long as the catalog says, `QU_NL_Join` appends the records of the relational
join to the result, in the order of the scans.

## Main definitions

* `HasWidth`: the records of a relation, as `attrcat` describes them.
* `JoinInput`: what a caller of `QU_Join` sees to.

## Main results

* `JoinInput.rows_eq`: what the loops write is the join.
* `JoinInput.run`: the records of the result.
-/

namespace Minirel

open Comp HeapFile Relational

/-! ## Joins of relations -/

/-- The attributes that `attrcat` lists for the relation lie in its records, which are `w` bytes
long. -/
structure HasWidth (HA : Heap) (nm : FileName) (H : Heap) (w : Nat) : Prop where
  attrs : ∀ b ∈ HA.contents, hasName nm b = true → 0 ≤ (AttrDesc.ofBytes b).attrOffset ∧
    0 ≤ (AttrDesc.ofBytes b).attrLen ∧
    (AttrDesc.ofBytes b).attrOffset + (AttrDesc.ofBytes b).attrLen ≤ w
  records : ∀ b ∈ H.contents, b.length = w
  le : w < 2147483648

/-- The two attributes have one type and length, as strings or as numbers whose differences are in
the range of `int` if their order matters. -/
structure Comparable (type : Datatype) (op : Operator) (d₁ d₂ : AttrDesc)
    (outer inner : List Bytes) : Prop where
  ofCode : Datatype.ofCode d₂.attrType = some type
  attrType : d₁.attrType = d₂.attrType
  attrLen : d₁.attrLen = d₂.attrLen
  not_float : type ≠ .FLOAT
  diff : type = .INTEGER → op = .EQ ∨ op = .NE ∨ ∀ o ∈ outer, ∀ i ∈ inner,
    -2147483648 < intOfBytes (d₁.value o) - intOfBytes (d₂.value i) ∧
      intOfBytes (d₁.value o) - intOfBytes (d₂.value i) < 2147483648

/-- The two attributes can be compared, and they are long enough for `startScan`. -/
structure JoinTypes (type : Datatype) (op : Operator) (d₁ d₂ : AttrDesc)
    (outer inner : List Bytes) : Prop extends Comparable type op d₁ d₂ outer inner where
  pos : 1 ≤ d₂.attrLen
  word : type = .INTEGER → d₂.attrLen = 4

/-- The same comparison, from the other side. -/
theorem JoinTypes.swap {type : Datatype} {op : Operator} {d₁ d₂ : AttrDesc}
    {outer inner : List Bytes} (h : JoinTypes type op d₁ d₂ outer inner) :
    JoinTypes type op.mirror d₂ d₁ inner outer := by
  obtain ⟨⟨h₁, h₂, h₃, h₅, h₇⟩, h₄, h₆⟩ := h
  refine ⟨⟨h₂ ▸ h₁, h₂.symm, h₃.symm, h₅, fun htype => ?_⟩, h₃ ▸ h₄, h₃ ▸ h₆⟩
  rcases h₇ htype with rfl | rfl | hdiff
  · exact Or.inl rfl
  · exact Or.inr (Or.inl rfl)
  · refine Or.inr (Or.inr fun o ho i hi => ?_)
    have := hdiff i hi o ho
    omega

/-- `startScan` accepts attributes of these types. -/
theorem JoinTypes.accepts {type : Datatype} {op : Operator} {d₁ d₂ : AttrDesc}
    {outer inner : List Bytes} (h : JoinTypes type op d₁ d₂ outer inner) (ds : List AttrDesc) :
    (JoinPlan.of ds d₁ d₂ op).Accepts type := by
  refine ⟨h.pos, fun htype => ?_⟩
  cases type with
  | STRING => exact absurd rfl htype
  | INTEGER => exact h.word rfl
  | FLOAT => exact absurd rfl h.not_float

/-- What a caller of `QU_Join` sees to: the attributes are those of the two relations and are in the
catalog, the two that are compared have one type, and a result record fits on a page. -/
structure JoinInput (HA HO HI : Heap) (projNames : List AttrInfo) (attr1 : AttrInfo) (op : Operator)
    (attr2 : AttrInfo) (type : Datatype) (ds : List AttrDesc) (d₁ d₂ : AttrDesc) : Prop where
  types : attr1.attrType = attr2.attrType ∧ attr1.attrLen = attr2.attrLen
  descs : projNames.map (AttrInfo.desc HA) = ds.map some
  desc₁ : attr1.desc HA = some d₁
  desc₂ : attr2.desc HA = some d₂
  drawn : ∀ a ∈ projNames, a.relName = attr1.relName ∨ a.relName = attr2.relName
  distinct : attr1.relName ≠ attr2.relName
  width₁ : ∃ w, HasWidth HA attr1.relName HO w
  width₂ : ∃ w, HasWidth HA attr2.relName HI w
  compared : Comparable type op d₁ d₂ HO.contents HI.contents
  rowWidth : 1 ≤ (ds.map AttrDesc.attrLen).sum ∧ (ds.map AttrDesc.attrLen).sum ≤ 1000

section Input

variable {HA HO HI H : Heap} {projNames : List AttrInfo} {attr1 attr2 a : AttrInfo} {op : Operator}
  {type : Datatype} {ds : List AttrDesc} {d d₁ d₂ : AttrDesc} {nm : FileName} {w : Nat} {b : Bytes}

/-- The tuple that a descriptor has been read from. -/
theorem AttrInfo.exists_of_desc (h : a.desc HA = some d) :
    ∃ b ∈ HA.contents, hasName a.relName b = true ∧ d = AttrDesc.ofBytes b := by
  unfold AttrInfo.desc at h
  split at h
  · cases h
  obtain ⟨b, hfind, rfl⟩ := Option.map_eq_some_iff.mp h
  have hnames := List.find?_some hfind
  unfold hasNames at hnames
  exact ⟨b, List.mem_of_find?_eq_some hfind, (Bool.and_eq_true_iff.mp hnames).1, rfl⟩

/-- The descriptor of an attribute of the relation. -/
theorem HasWidth.desc (h : HasWidth HA nm H w) (hdesc : a.desc HA = some d)
    (hname : a.relName = nm) :
    0 ≤ d.attrOffset ∧ 0 ≤ d.attrLen ∧ d.attrOffset + d.attrLen ≤ w := by
  obtain ⟨b, hb, hhas, rfl⟩ := AttrInfo.exists_of_desc hdesc
  exact h.attrs b hb (hname ▸ hhas)

theorem HasWidth.within (h : HasWidth HA nm H w) (hdesc : a.desc HA = some d)
    (hname : a.relName = nm) (hb : b ∈ H.contents) : d.Within b := by
  obtain ⟨h₁, h₂, h₃⟩ := h.desc hdesc hname
  exact ⟨h₁, h₂, by rw [h.records b hb]; exact h₃⟩

namespace JoinInput

/-- The attribute that a descriptor of the projection list is for. -/
theorem exists_attr (h : JoinInput HA HO HI projNames attr1 op attr2 type ds d₁ d₂) (hd : d ∈ ds) :
    ∃ a : AttrInfo, a.desc HA = some d ∧
    (a.relName = attr1.relName ∨ a.relName = attr2.relName) := by
  have hmem : some d ∈ projNames.map (AttrInfo.desc HA) := by
    rw [h.descs]
    exact List.mem_map_of_mem hd
  obtain ⟨a, ha, hdesc⟩ := List.mem_map.mp hmem
  exact ⟨a, hdesc, h.drawn a ha⟩

theorem attrLen_nonneg (h : JoinInput HA HO HI projNames attr1 op attr2 type ds d₁ d₂) :
    ∀ d ∈ ds, 0 ≤ d.attrLen := by
  intro d hd
  obtain ⟨a, hdesc, hname | hname⟩ := h.exists_attr hd
  · obtain ⟨w, hw⟩ := h.width₁
    exact (hw.desc hdesc hname).2.1
  · obtain ⟨w, hw⟩ := h.width₂
    exact (hw.desc hdesc hname).2.1

/-- The names are C strings in the catalog. -/
theorem isName (h : JoinInput HA HO HI projNames attr1 op attr2 type ds d₁ d₂)
    (htuples : HA.AttrTuples) : ∀ b ∈ projNames ++ [attr1, attr2], IsName b.relName := by
  intro b hb
  obtain ⟨d, hd⟩ : ∃ d, b.desc HA = some d := by
    rcases List.mem_append.mp hb with hb | hb
    · have hmem : b.desc HA ∈ projNames.map (AttrInfo.desc HA) := List.mem_map_of_mem hb
      rw [h.descs] at hmem
      obtain ⟨d, -, hd⟩ := List.mem_map.mp hmem
      exact ⟨d, hd.symm⟩
    · rcases List.mem_pair.mp hb with rfl | rfl
      · exact ⟨d₁, h.desc₁⟩
      · exact ⟨d₂, h.desc₂⟩
  obtain ⟨t, ht, hhas, -⟩ := AttrInfo.exists_of_desc hd
  exact htuples.tuples.isName_of_mem ht hhas

/-- The loops can be run. -/
theorem sound (h : JoinInput HA HO HI projNames attr1 op attr2 type ds d₁ d₂)
    (htuples : HA.AttrTuples) :
    (JoinPlan.of ds d₁ d₂ op).Sound type HO.contents HI.contents := by
  obtain ⟨w₁, hw₁⟩ := h.width₁
  obtain ⟨w₂, hw₂⟩ := h.width₂
  have hc₁ := AttrInfo.relName_of_desc htuples h.desc₁
  obtain ⟨ho₁, -, -⟩ := hw₁.desc h.desc₁ rfl
  obtain ⟨ho₂, -, hend₂⟩ := hw₂.desc h.desc₂ rfl
  refine ⟨h.compared.ofCode, ⟨hc₁.1, fun d hd => ?_⟩, ⟨ho₁, fun o ho => ?_⟩,
    ⟨ho₂, ?_⟩, fun d hd o ho i hi => ?_, rfl, h.rowWidth⟩
  · obtain ⟨a, hdesc, -⟩ := h.exists_attr hd
    exact (AttrInfo.relName_of_desc htuples hdesc).1
  · rw [← h.compared.attrLen]
    exact (hw₁.within h.desc₁ rfl ho).end_le
  · have := hw₂.le
    show d₂.attrOffset + d₂.attrLen < 2147483648
    omega
  · obtain ⟨a, hdesc, hname⟩ := h.exists_attr hd
    have hcstr := (AttrInfo.relName_of_desc htuples hdesc).2
    unfold JoinPlan.source
    rcases hname with hname | hname
    · rw [if_pos (by rw [hcstr, hc₁.2, hname])]
      exact hw₁.within hdesc hname ho
    · rw [if_neg fun he => h.distinct ?_]
      · exact hw₂.within hdesc hname hi
      · rw [← hname, ← hcstr, ← hc₁.2]
        exact he.symm

/-- What the loops write. -/
theorem rows_eq (h : JoinInput HA HO HI projNames attr1 op attr2 type ds d₁ d₂)
    (htuples : HA.AttrTuples) :
    (JoinPlan.of ds d₁ d₂ op).rows type HO.contents HI.contents =
      if (JoinPlan.of ds d₁ d₂ op).Accepts type then
        relationalJoin type op d₁ d₂ ds HO.contents HI.contents
      else [] := by
  obtain ⟨w₂, hw₂⟩ := h.width₂
  unfold JoinPlan.rows
  congr 1
  refine (h.sound htuples).rows_eq h.compared.not_float rfl h.compared.attrLen
    (fun i hi => hw₂.within h.desc₂ rfl hi) fun htype o ho i hi => ?_
  unfold Operator.Subtracts
  rcases h.compared.diff htype with rfl | rfl | hdiff
  · exact Or.inl rfl
  · exact Or.inr (Or.inl rfl)
  · have := hdiff o ho i hi
    refine Or.inr (Or.inr ?_)
    dsimp only
    omega

/-- The outcome, if the outer relation is empty or `startScan` accepts the attribute. -/
theorem outcome (h : JoinInput HA HO HI projNames attr1 op attr2 type ds d₁ d₂)
    (htuples : HA.AttrTuples)
    (hacc : HO.contents = [] ∨ (JoinPlan.of ds d₁ d₂ op).Accepts type) :
    (JoinPlan.of ds d₁ d₂ op).rows type HO.contents HI.contents =
        relationalJoin type op d₁ d₂ ds HO.contents HI.contents ∧
      (JoinPlan.of ds d₁ d₂ op).result type HO.contents HI.contents =
        (.OK, some (toInt (relationalJoin type op d₁ d₂ ds HO.contents HI.contents).length)) := by
  have hrows : (JoinPlan.of ds d₁ d₂ op).rows type HO.contents HI.contents =
      relationalJoin type op d₁ d₂ ds HO.contents HI.contents := by
    rw [h.rows_eq htuples]
    rcases hacc with hnil | hacc
    · rw [hnil, relationalJoin_nil, ite_self]
    · exact if_pos hacc
  refine ⟨hrows, ?_⟩
  unfold JoinPlan.result JoinPlan.early
  rw [if_pos hacc, hrows]

end JoinInput

end Input

/-! ## The join -/

section Run

variable {T : Prop} {s : Sys} {P : Multiset Pin} {v : View} {fvA fvO fvI fvR : FileView}
  {HA HO HI HR : Heap} {junk : JoinLocals} {result : FileName} {projNames : List AttrInfo}
  {attr1 attr2 : AttrInfo} {op : Operator} {type : Datatype} {ds : List AttrDesc} {d₁ d₂ : AttrDesc}

/-- `QU_NL_Join` appends the relational join to the result, unless it is refused by `startScan`. -/
theorem JoinInput.run (fuel : Nat) (h : JoinInput HA HO HI projNames attr1 op attr2 type ds d₁ d₂)
    (hc : Coh s P v) (hA : IsHeap v ATTRCATNAME fvA HA) (htuples : HA.AttrTuples)
    (hjunk : junk.Sized) (hO : IsHeap v attr1.relName fvO HO) (hI : IsHeap v attr2.relName fvI HI)
    (hR : IsHeap v result fvR HR) (hOR : attr1.relName ≠ result) (hIR : attr2.relName ≠ result)
    (hT : T → 8 ≤ freeFrames v.numBufs P ∧ 2 * HA.rids.length + HA.pages.length + 1 ≤ fuel ∧
      HO.rids.length + HO.pages.length + 1 ≤ fuel ∧ HI.rids.length + HI.pages.length + 1 ≤ fuel) :
    Clean T (QU_NL_Join fuel junk result projNames.length projNames attr1 op attr2) s fun r s' =>
      r = (JoinPlan.of ds d₁ d₂ op).result type HO.contents HI.contents ∧ ∃ P' v' k fv' H',
        Leaves (fun nm => nm = ATTRCATNAME ∨ nm = result) k P v s' P' v' ∧
        (∀ z ∈ P', z.wrote = true → z ∈ P) ∧ (∀ nm, nm ≠ result → v'.file nm = v.file nm) ∧
        (∀ nm, nm ≠ ATTRCATNAME → v'.handle nm = v.handle nm) ∧ IsHeap v' result fv' H' ∧
        (T → freeFrames v.numBufs P ≤ freeFrames v'.numBufs P' + 1) ∧
        (HR.Packed → H'.Packed ∧ H'.contents =
          HR.contents ++ (JoinPlan.of ds d₁ d₂ op).rows type HO.contents HI.contents) ∧
        (HR.Counted → H'.Counted) :=
  QU_NL_Join_joined fuel hc hA htuples (h.isName htuples) hjunk h.types h.descs h.desc₁ h.desc₂
    (h.sound htuples) h.attrLen_nonneg hO hI hR h.distinct hOR hIR hT

end Run

end Minirel
