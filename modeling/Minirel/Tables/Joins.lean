import Minirel.Lib.Traverse
import Minirel.Print.Report
import Minirel.Tables.Represents

/-!
# Joins of tables

`QU_Join` finds the attributes by the catalog, and joins the relations as far as their tuples have
the attributes that the catalog lists.

## Main definitions

* `Tables.Regular`: the tuples of a relation are as its attributes say.
* `Tables.Described`: what the catalog has to say of a join.
* `Tables.Joinable`: the joins that `QU_NL_Join` computes.
* `Tables.joinResult`: the outcome of `QU_Join`.

## Main results

* `Represents.desc_strings`: what the catalog says of an attribute.
* `Represents.join`: `QU_Join` does what the command says.
-/

namespace Minirel

open Comp HeapFile Relational Traverse

/-! ## Descriptors -/

section Descriptors

variable {d : AttrDesc} {R : Relation}

/-- An attribute lies in a tuple of the relation. -/
theorem Relation.mem_attrDescs (hlen : ∀ a ∈ R.attrs, 0 ≤ a.attrLen)
    (hsum : sumLen R.attrs < 2147483648) (hd : d ∈ R.attrDescs) :
    0 ≤ d.attrOffset ∧ 0 ≤ d.attrLen ∧ d.attrOffset + d.attrLen ≤ sumLen R.attrs := by
  obtain ⟨i, hi⟩ := List.mem_iff_getElem?.mp hd
  have hlt : i < R.attrs.length := by
    have := (List.getElem?_eq_some_iff.mp hi).1
    rwa [Relation.length_attrDescs] at this
  have hspec := getElem?_descsFrom (le_refl (0 : Int)) hlen (by omega)
    (List.getElem?_eq_getElem hlt)
  have hd' : d = _ := Option.some.inj (hi.symm.trans hspec)
  subst hd'
  have hsplit : R.attrs.take (i + 1) = R.attrs.take i ++ [R.attrs[i]] :=
    List.take_succ_eq_append_getElem hlt
  have hle := sumLen_take_le hlen (i + 1)
  have htake : sumLen (R.attrs.take (i + 1)) = sumLen (R.attrs.take i) + R.attrs[i].attrLen := by
    unfold sumLen
    rw [hsplit, List.map_append, List.sum_append, List.map_singleton, List.sum_singleton]
  have hnonneg : 0 ≤ sumLen (R.attrs.take i) :=
    sumLen_nonneg fun a ha => hlen a (List.mem_of_mem_take ha)
  dsimp only
  exact ⟨by omega, hlen _ (List.getElem_mem hlt), by omega⟩

end Descriptors

namespace Represents

variable {unix : FileName → Option UnixFile} {s : Sys} {db : Tables} {P : Multiset Pin} {v : View}
  {fv fvA : FileView} {H HA : Heap} {a : AttrInfo} {R : Relation}

theorem attrTuples (h : Represents unix s db P v fv H fvA HA) : HA.AttrTuples := by
  refine h.database.lists.attrTuples h.database.catalogs.attrcat.heapAt
    h.database.catalogs.attrTuples ?_
  intro d hd
  obtain ⟨R, hR, hd⟩ := List.mem_flatMap.mp hd
  have hmem : d.attrName ∈ R.attrs.map AttrInfo.attrName := by
    have hnames : R.attrDescs.map AttrDesc.attrName = _ := map_attrName_descsFrom
    rw [← hnames]
    exact List.mem_map_of_mem hd
  obtain ⟨a, ha, hname⟩ := List.mem_map.mp hmem
  rw [← hname]
  exact (h.valid R hR a ha).nameLen

/-- A lookup searches the tuples of the relation. -/
theorem desc_eq (h : Represents unix s db P v fv H fvA HA) (hne : a.relName ≠ [])
    (hne' : a.attrName ≠ []) :
    (a.desc HA).map AttrDesc.strings =
      ((relAttrs a.relName HA.contents).map AttrDesc.strings).find? fun d => d.attrName =
      a.attrName := by
  unfold AttrInfo.desc relAttrs
  rw [if_neg (not_or.mpr ⟨hne, hne'⟩), List.map_map, List.find?_map, List.find?_filter,
    Option.map_map]
  congr 1
  refine List.find?_congr fun b hb => ?_
  obtain ⟨rid, hrid⟩ := Heap.exists_of_mem_contents hb
  have hnul := h.attrTuples.nul rid b hrid
  unfold hasNames
  rw [← cstr_take hnul, Bool.decide_and, Bool.decide_eq_true, Bool.decide_eq_true]
  rfl

/-- A relation that is not listed has no tuples in `attrcat`. -/
theorem relAttrs_eq_nil (h : Represents unix s db P v fv H fvA HA) {nm : Bytes}
    (hmem : nm ∉ names db.relations) : relAttrs nm HA.contents = [] := by
  unfold relAttrs
  rw [List.map_eq_nil_iff, List.filter_eq_nil_iff]
  intro b hb hhas
  obtain ⟨R, hR, hd⟩ := List.mem_flatMap.mp (h.database.lists.decode_mem hb)
  have hname : (AttrDesc.decode b).relName = nm :=
    (h.database.catalogs.attrTuples.named h.database.catalogs.attrcat.heapAt
      (Multiset.mem_coe.mpr hb)).trans
      (of_decide_eq_true hhas)
  rw [(h.database.wf R hR).relName hd] at hname
  exact hmem (hname ▸ List.mem_map_of_mem hR)

/-- The tuples of a relation that is listed. -/
theorem relAttrs_perm (h : Represents unix s db P v fv H fvA HA) {nm : Bytes}
    (hR : db.relation? nm = some R) :
    ((relAttrs nm HA.contents).map AttrDesc.strings).Perm R.attrDescs := by
  obtain ⟨hmem, rfl⟩ := Tables.relation?_eq_some hR
  exact Multiset.coe_eq_coe.mp (h.database.relAttrs hmem)

/-- `attrcat` has an attribute if the relation has it. -/
theorem isNone_desc (h : Represents unix s db P v fv H fvA HA) (a : AttrInfo) :
    (a.desc HA).isNone = (db.desc a).isNone := by
  unfold Tables.desc
  by_cases hne' : a.attrName = []
  · rw [if_pos hne']
    unfold AttrInfo.desc
    rw [if_pos (Or.inr hne')]
  rw [if_neg hne']
  cases hR : db.relation? a.relName with
  | none =>
    have hnot : a.relName ∉ names db.relations := fun hn => Tables.mem_names_iff.mp hn hR
    by_cases hne : a.relName = []
    · unfold AttrInfo.desc
      rw [if_pos (Or.inl hne)]
      rfl
    · have hdesc := h.desc_eq hne hne'
      rw [h.relAttrs_eq_nil hnot] at hdesc
      rw [Option.map_eq_none_iff.mp hdesc]
      rfl
  | some R =>
    have hne : a.relName ≠ [] := h.ne_nil (Tables.mem_names_iff.mpr (by rw [hR]; exact nofun))
    have hperm := h.relAttrs_perm hR
    have hdesc := h.desc_eq hne hne'
    rw [← Option.isNone_map (f := AttrDesc.strings), hdesc, Option.bind_some, Bool.eq_iff_iff,
      Option.isNone_iff_eq_none, Option.isNone_iff_eq_none, List.find?_eq_none, List.find?_eq_none]
    exact forall_congr' fun d => imp_congr_left hperm.mem_iff

/-- If the relation has no two attributes of one name, the descriptor is the one that the catalog
lists. -/
theorem desc_strings (h : Represents unix s db P v fv H fvA HA)
    (hR : db.relation? a.relName = some R) (hnodup : (R.attrs.map AttrInfo.attrName).Nodup) :
    (a.desc HA).map AttrDesc.strings = db.desc a := by
  unfold Tables.desc
  by_cases hne' : a.attrName = []
  · rw [if_pos hne']
    unfold AttrInfo.desc
    rw [if_pos (Or.inr hne')]
    rfl
  have hne : a.relName ≠ [] := h.ne_nil (Tables.mem_names_iff.mpr (by rw [hR]; exact nofun))
  have hperm := h.relAttrs_perm hR
  rw [if_neg hne', hR, Option.bind_some, h.desc_eq hne hne']
  refine find?_eq_of_perm hperm fun d hd d' hd' hname hname' => ?_
  have hnodup' : (R.attrDescs.map AttrDesc.attrName).Nodup := by
    unfold Relation.attrDescs
    rwa [map_attrName_descsFrom]
  refine List.inj_on_of_nodup_map hnodup' (hperm.mem_iff.mp hd) (hperm.mem_iff.mp hd') ?_
  rw [of_decide_eq_true hname, of_decide_eq_true hname']

end Represents

/-! ## Relations that can be joined -/

namespace Tables

/-- The relation can be used, and its tuples are as long as its attributes say. -/
structure Regular (db : Tables) (nm : FileName) (ts : List Bytes) (R : Relation) : Prop where
  relation : db.relation? nm = some R
  tuples : db.tuples nm = some ts
  usable : UsableList R.attrs
  length : ∀ t ∈ ts, (t.length : Int) = sumLen R.attrs

/-- The attributes of the relation lie in its tuples, whatever their lengths. -/
structure Laid (db : Tables) (nm : FileName) (ts : List Bytes) (R : Relation) : Prop where
  relation : db.relation? nm = some R
  nodup : (R.attrs.map AttrInfo.attrName).Nodup
  nonneg : ∀ a ∈ R.attrs, 0 ≤ a.attrLen
  le : sumLen R.attrs < 2147483648
  length : ∀ t ∈ ts, (t.length : Int) = sumLen R.attrs

theorem Regular.laid {db : Tables} {nm : FileName} {ts : List Bytes} {R : Relation}
    (h : db.Regular nm ts R) : db.Laid nm ts R where
  relation := h.relation
  nodup := h.usable.nodup
  nonneg a ha := by
    have := h.usable.pos a ha
    omega
  le := by
    have hmax := h.usable.fits.2
    unfold SLOTSIZE DATASIZE at hmax
    omega
  length := h.length

/-- The attributes of a join are those of two relations and can be compared, and a record of the
result fits on a page. -/
structure Described (db : Tables) (projNames : List AttrInfo) (attr1 : AttrInfo) (op : Operator)
    (attr2 : AttrInfo) (type : Datatype) (ds : List AttrDesc) (d₁ d₂ : AttrDesc)
    (outer inner : List Bytes) : Prop where
  distinct : attr1.relName ≠ attr2.relName
  drawn : ∀ a ∈ projNames, a.relName = attr1.relName ∨ a.relName = attr2.relName
  descs : projNames.map db.desc = ds.map some
  desc₁ : db.desc attr1 = some d₁
  desc₂ : db.desc attr2 = some d₂
  laid₁ : ∃ R, db.Laid attr1.relName outer R
  laid₂ : ∃ R, db.Laid attr2.relName inner R
  compared : Comparable type op d₁ d₂ outer inner
  rowWidth : 1 ≤ (ds.map AttrDesc.attrLen).sum ∧ (ds.map AttrDesc.attrLen).sum ≤ 1000

/-- A join that `QU_NL_Join` computes: of two relations with regular tuples, on attributes of them
that can be compared, and into a result whose records fit on a page. -/
structure Joinable (db : Tables) (result : FileName) (projNames : List AttrInfo) (attr1 : AttrInfo)
    (op : Operator) (attr2 : AttrInfo) (type : Datatype) (ds : List AttrDesc) (d₁ d₂ : AttrDesc)
    (outer inner : List Bytes) : Prop where
  written : (db.tuples result).isSome
  result_ne : attr1.relName ≠ result ∧ attr2.relName ≠ result
  distinct : attr1.relName ≠ attr2.relName
  drawn : ∀ a ∈ projNames, a.relName = attr1.relName ∨ a.relName = attr2.relName
  descs : projNames.map db.desc = ds.map some
  desc₁ : db.desc attr1 = some d₁
  desc₂ : db.desc attr2 = some d₂
  regular₁ : ∃ R, db.Regular attr1.relName outer R
  regular₂ : ∃ R, db.Regular attr2.relName inner R
  compared : JoinTypes type op d₁ d₂ outer inner
  rowWidth : 1 ≤ (ds.map AttrDesc.attrLen).sum ∧ (ds.map AttrDesc.attrLen).sum ≤ 1000

theorem Joinable.described {db : Tables} {result : FileName} {projNames : List AttrInfo}
    {attr1 attr2 : AttrInfo} {op : Operator} {type : Datatype} {ds : List AttrDesc}
    {d₁ d₂ : AttrDesc} {outer inner : List Bytes}
    (h : db.Joinable result projNames attr1 op attr2 type ds d₁ d₂ outer inner) :
    db.Described projNames attr1 op attr2 type ds d₁ d₂ outer inner where
  distinct := h.distinct
  drawn := h.drawn
  descs := h.descs
  desc₁ := h.desc₁
  desc₂ := h.desc₂
  laid₁ := h.regular₁.imp fun _ hR => hR.laid
  laid₂ := h.regular₂.imp fun _ hR => hR.laid
  compared := h.compared.toComparable
  rowWidth := h.rowWidth

section Strings

variable {type : Datatype} {op : Operator} {d d₁ d₂ : AttrDesc} {ds : List AttrDesc}
  {A B : List Bytes}

/-- What is behind the names of a descriptor does not matter to a join. -/
theorem relationalJoin_strings :
    relationalJoin type op d₁.strings d₂.strings (ds.map AttrDesc.strings) A B =
      relationalJoin type op d₁ d₂ ds A B := by
  have hrow : (fun o i => (ds.map AttrDesc.strings).flatMap fun d =>
      d.value (JoinPlan.source d₁.strings.relName d o i)) =
      fun o i => ds.flatMap fun d => d.value (JoinPlan.source d₁.relName d o i) := by
    funext o i
    rw [List.flatMap_map]
    refine List.flatMap_congr fun d _ => ?_
    unfold JoinPlan.source AttrDesc.strings
    dsimp only
    rw [cstr_cstr, cstr_cstr]
    rfl
  unfold relationalJoin
  rw [hrow]
  rfl

end Strings

end Tables

namespace Represents

variable {unix : FileName → Option UnixFile} {s : Sys} {db : Tables} {P : Multiset Pin} {v : View}
  {fv fvA fvO : FileView} {H HA HO HI : Heap} {nm result : FileName} {ts : List Bytes}
  {R : Relation} {projNames : List AttrInfo} {attr1 attr2 : AttrInfo} {op : Operator}
  {type : Datatype} {ds : List AttrDesc} {d₁ d₂ : AttrDesc}

/-- The catalog describes the tuples of the relation. -/
theorem hasWidth (h : Represents unix s db P v fv H fvA HA) (hR : db.Laid nm ts R)
    (hts : HO.contents = ts) :
    HasWidth HA nm HO (sumLen R.attrs).toNat := by
  have hpos := sumLen_nonneg hR.nonneg
  have hle := hR.le
  refine ⟨fun b hb hhas => ?_, fun b hb => ?_, by omega⟩
  · have hmem : (AttrDesc.ofBytes b).strings ∈ (relAttrs nm HA.contents).map AttrDesc.strings :=
      List.mem_map_of_mem (List.mem_map_of_mem (List.mem_filter.mpr ⟨hb, hhas⟩))
    have hd := (h.relAttrs_perm hR.relation).mem_iff.mp hmem
    obtain ⟨h₁, h₂, h₃⟩ := Relation.mem_attrDescs hR.nonneg hle hd
    refine ⟨h₁, h₂, ?_⟩
    rw [Int.toNat_of_nonneg hpos]
    exact h₃
  · have hlen := hR.length b (hts ▸ hb)
    omega

/-- What `QU_NL_Join` finds in the catalog. -/
theorem joinInput (h : Represents unix s db P v fv H fvA HA)
    (hj : db.Described projNames attr1 op attr2 type ds d₁ d₂ HO.contents HI.contents)
    (htypes : attr1.attrType = attr2.attrType ∧ attr1.attrLen = attr2.attrLen) :
    ∃ ds' d₁' d₂', JoinInput HA HO HI projNames attr1 op attr2 type ds' d₁' d₂' ∧
      d₂'.attrLen = d₂.attrLen ∧ relationalJoin type op d₁' d₂' ds' HO.contents HI.contents =
        relationalJoin type op d₁ d₂ ds HO.contents HI.contents := by
  obtain ⟨R₁, hR₁⟩ := hj.laid₁
  obtain ⟨R₂, hR₂⟩ := hj.laid₂
  have hdesc : ∀ a ∈ projNames ++ [attr1, attr2], (a.desc HA).map AttrDesc.strings = db.desc a := by
    intro a ha
    have hname : a.relName = attr1.relName ∨ a.relName = attr2.relName := by
      rcases List.mem_append.mp ha with ha | ha
      · exact hj.drawn a ha
      · rcases List.mem_pair.mp ha with rfl | rfl
        · exact Or.inl rfl
        · exact Or.inr rfl
    rcases hname with hname | hname
    · exact h.desc_strings (hname ▸ hR₁.relation) hR₁.nodup
    · exact h.desc_strings (hname ▸ hR₂.relation) hR₂.nodup
  obtain ⟨d₁', hd₁', rfl⟩ := Option.map_eq_some_iff.mp ((hdesc attr1 (by simp)).trans hj.desc₁)
  obtain ⟨d₂', hd₂', rfl⟩ := Option.map_eq_some_iff.mp ((hdesc attr2 (by simp)).trans hj.desc₂)
  have hmap : (projNames.map fun a => (a.desc HA).map AttrDesc.strings) = ds.map some := by
    rw [← hj.descs]
    exact List.map_congr_left fun a ha => hdesc a (List.mem_append_left _ ha)
  obtain ⟨ds', hds', rfl⟩ := exists_map_some hmap
  refine ⟨ds', d₁', d₂', ⟨htypes, hds', hd₁', hd₂', hj.drawn, hj.distinct,
    ⟨_, h.hasWidth hR₁ rfl⟩, ⟨_, h.hasWidth hR₂ rfl⟩, ?_, ?_⟩, rfl,
    Tables.relationalJoin_strings.symm⟩
  · obtain ⟨h₁, h₂, h₃, h₄, h₅⟩ := hj.compared
    exact ⟨h₁, h₂, h₃, h₄, h₅⟩
  · have hwidth := hj.rowWidth
    rw [List.map_map] at hwidth
    exact hwidth

/-- An attribute that is missed is missed in `attrcat`. -/
theorem firstMissing_eq (h : Represents unix s db P v fv H fvA HA) :
    firstMissing HA projNames attr1 attr2 =
      (projNames ++ [attr1, attr2]).find? fun a => (db.desc a).isNone := by
  unfold firstMissing
  exact congrArg (List.find? · _) (funext fun a => h.isNone_desc a)

end Represents

/-! ## `QU_Join` -/

namespace Tables

/-- The outcome of `QU_Join`: the status, and the number that is printed. -/
def joinResult (db : Tables) (method : JoinType) (projNames : List AttrInfo) (attr1 : AttrInfo)
    (op : Operator) (attr2 : AttrInfo) : Status × Option Int :=
  if attr1.attrType ≠ attr2.attrType ∨ attr1.attrLen ≠ attr2.attrLen then (.ATTRTYPEMISMATCH, none)
  else if ¬method.Compares op then (.OK, some 0)
  else match (projNames ++ [attr1, attr2]).find? fun a => (db.desc a).isNone with
    | some a => (a.refusal, none)
    | none => (.OK, some (toInt (db.joinRows method projNames attr1 op attr2).length))

/-- The strings are those of C, and if the join comes to compare records, it can. -/
def FitsJoin (db : Tables) (method : JoinType) (result : FileName) (projNames : List AttrInfo)
    (attr1 : AttrInfo) (op : Operator) (attr2 : AttrInfo) : Prop :=
  attr1.attrType = attr2.attrType → attr1.attrLen = attr2.attrLen → method.Compares op →
    (∀ a ∈ projNames ++ [attr1, attr2], IsName a.relName) ∧
    ((∀ a ∈ projNames ++ [attr1, attr2], db.desc a ≠ none) → ∃ type ds d₁ d₂ outer inner,
      db.Joinable result projNames attr1 op attr2 type ds d₁ d₂ outer inner)

section Rows

variable {db : Tables} {method : JoinType} {result : FileName} {projNames : List AttrInfo}
  {attr1 attr2 a : AttrInfo} {op : Operator} {type : Datatype} {ds : List AttrDesc}
  {d₁ d₂ : AttrDesc} {outer inner : List Bytes}

/-- Without one of the attributes there are no records. -/
theorem joinRows_of_missing (ha : a ∈ projNames ++ [attr1, attr2]) (hnone : db.desc a = none) :
    db.joinRows method projNames attr1 op attr2 = [] := by
  unfold joinRows
  split
  · rfl
  split
  next ds d₁ d₂ hds hd₁ hd₂ =>
    rcases List.mem_append.mp ha with ha | ha
    · rw [mapM_eq_none ha hnone] at hds
      cases hds
    · rcases List.mem_pair.mp ha with rfl | rfl
      · rw [hnone] at hd₁
        cases hd₁
      · rw [hnone] at hd₂
        cases hd₂
  next => rfl

/-- The records of relations that can be joined. -/
theorem Joinable.joinRows_eq
    (h : db.Joinable result projNames attr1 op attr2 type ds d₁ d₂ outer inner)
    (htypes : attr1.attrType = attr2.attrType ∧ attr1.attrLen = attr2.attrLen)
    (hmethod : method.Compares op) :
    db.joinRows method projNames attr1 op attr2 = relationalJoin type op d₁ d₂ ds outer inner := by
  obtain ⟨R₁, hR₁⟩ := h.regular₁
  obtain ⟨R₂, hR₂⟩ := h.regular₂
  unfold joinRows
  rw [if_neg (by simp [htypes.1, htypes.2, hmethod]), mapM_eq_some h.descs, h.desc₁, h.desc₂]
  dsimp only
  rw [h.compared.ofCode, hR₁.tuples, hR₂.tuples]
  rfl

end Rows

end Tables

namespace Represents

variable {unix : FileName → Option UnixFile} {s : Sys} {db : Tables} {P : Multiset Pin} {v : View}
  {fv fvA : FileView} {H HA : Heap} {method : JoinType} {result : FileName}
  {projNames : List AttrInfo} {attr1 attr2 : AttrInfo} {op : Operator} {type : Datatype}
  {ds : List AttrDesc} {d₁ d₂ : AttrDesc} {outer inner : List Bytes}

/-- `QU_NL_Join` of relations that can be joined. -/
theorem join_of_joinable (h : Represents unix s db P v fv H fvA HA)
    (hj : db.Joinable result projNames attr1 op attr2 type ds d₁ d₂ outer inner)
    (htypes : attr1.attrType = attr2.attrType ∧ attr1.attrLen = attr2.attrLen)
    (hmethod : method.Compares op) :
    ∃ N, ∀ fuel junk, junk.Sized → Clean (8 ≤ freeFrames v.numBufs P ∧ N ≤ fuel)
      (QU_NL_Join fuel junk result projNames.length projNames attr1 op attr2) s fun r s' =>
      r = (.OK, some (toInt (db.joinRows method projNames attr1 op attr2).length)) ∧
      Follows unix (8 ≤ freeFrames v.numBufs P ∧ N ≤ fuel) False result 1 P v H HA s'
        (db.apply (.join method result projNames attr1 op attr2)) := by
  have huser : ∀ nm ts, db.tuples nm = some ts → ¬IsCatalog nm := by
    intro nm ts hts hcatalog
    rw [(h.wf.catalogs nm hcatalog).2] at hts
    cases hts
  obtain ⟨R₁, hR₁⟩ := hj.regular₁
  obtain ⟨R₂, hR₂⟩ := hj.regular₂
  obtain ⟨old, hold⟩ := Option.isSome_iff_exists.mp hj.written
  have hO := h.tuples _ (huser _ _ hR₁.tuples)
  have hI := h.tuples _ (huser _ _ hR₂.tuples)
  have hR := h.tuples _ (huser _ _ hold)
  rw [hR₁.tuples] at hO
  rw [hR₂.tuples] at hI
  rw [hold] at hR
  obtain ⟨fvO, HO, hO, -, -, rfl⟩ := hO
  obtain ⟨fvI, HI, hI, -, -, rfl⟩ := hI
  obtain ⟨fvR, HR, hR, hpacked, hcounted, rfl⟩ := hR
  obtain ⟨ds', d₁', d₂', hinput, hlen, hrows⟩ := h.joinInput hj.described htypes
  have hacc : (JoinPlan.of ds' d₁' d₂' op).Accepts type := by
    obtain ⟨hpos, hword⟩ := hj.compared.accepts ds
    exact ⟨hlen ▸ hpos, fun hn => hlen.trans (hword hn)⟩
  obtain ⟨hwritten, houtcome⟩ := hinput.outcome h.attrTuples (Or.inr hacc)
  rw [hj.joinRows_eq htypes hmethod, ← hrows]
  refine ⟨(2 * HA.rids.length + HA.pages.length + 1) + (HO.rids.length + HO.pages.length + 1) +
    (HI.rids.length + HI.pages.length + 1), fun fuel junk hjunk => ?_⟩
  refine (hinput.run fuel h.database.coh h.database.catalogs.attrcat h.attrTuples hjunk hO hI hR
    hj.result_ne.1
    hj.result_ne.2 fun ht => ⟨ht.1, by omega, by omega, by omega⟩).mono ?_
  rintro r s' ⟨hr, P', v', k, fv', H', hl, hwrote, hfile, hhandle, hR', hframes,
    hcontents, hcounted'⟩
  rw [houtcome] at hr
  rw [hwritten] at hcontents
  have hcatalog := huser _ _ hold
  have hkept : ∀ nm, IsCatalog nm → v'.file nm = v.file nm := fun nm hnm =>
    hfile nm fun hn => hcatalog (hn ▸ hnm)
  have hcat : Catalogs v' fv H fvA HA := by
    obtain ⟨h₁, h₂, h₃, h₄⟩ := h.database.catalogs
    exact ⟨h₁.same hl.later (hkept _ (Or.inl rfl)), h₂, h₃.same hl.later (hkept _ (Or.inr rfl)), h₄⟩
  have hl' : Leaves (fun nm => IsCatalog nm ∨ nm = result) k P v s' P' v' :=
    hl.mono (fun nm hnm => hnm.imp_left Or.inr) le_rfl
  have hcats : LeavesCatalogs False _ k P v H HA s' P' v' H HA :=
    ⟨hl', .refl H, .refl HA, fun _ z hz hw => Or.inl (hwrote z hz hw)⟩
  refine ⟨hr, P', v', fv, H, fvA, HA, k, hcats, hframes,
    h.changed (.join method result projNames attr1 op attr2) hl' ?_ h.valid (fun _ => ?_)
      fun hn => ?_⟩
  · exact ⟨hl.coh, hcat, h.database.lists, h.database.nodup, h.database.wf,
      fun nm => hl.later.pos nm (h.database.opened nm)⟩
  · show HasTuples v' result
      ((db.append result (db.joinRows method projNames attr1 op attr2)).tuples result)
    rw [Tables.tuples_append_self, hold, hj.joinRows_eq htypes hmethod, ← hrows]
    obtain ⟨hpacked', hcontents⟩ := hcontents hpacked
    exact ⟨fv', H', hR', hpacked', hcounted' hcounted, hcontents⟩
  · show (v'.handle result).isSome = db.opened result
    rw [hhandle result fun hn => hcatalog (Or.inr hn)]
    exact h.opened result hcatalog

/-- `QU_Join`. -/
theorem join (h : Represents unix s db P v fv H fvA HA)
    (hfits : db.FitsJoin method result projNames attr1 op attr2) :
    ∃ N, ∀ fuel junk, junk.Sized → Clean (8 ≤ freeFrames v.numBufs P ∧ N ≤ fuel)
      (QU_Join method fuel junk result projNames.length projNames attr1 op attr2) s fun r s' =>
      r = db.joinResult method projNames attr1 op attr2 ∧
      Follows unix (8 ≤ freeFrames v.numBufs P ∧ N ≤ fuel) False result 3 P v H HA s'
        (db.apply (.join method result projNames attr1 op attr2)) := by
  -- nothing is written, and little has been read
  have hsame : ∀ {T : Prop} {s' P' v' k}, db.joinRows method projNames attr1 op attr2 = [] →
      HasRead IsCatalog k P v s' P' v' →
      (T → freeFrames v.numBufs P ≤ freeFrames v'.numBufs P' + 3) →
      Follows unix T False result 3 P v H HA s'
        (db.apply (.join method result projNames attr1 op attr2)) := by
    intro T s' P' v' k hrows hread hframes
    refine ⟨P', v', fv, H, fvA, HA, k, hread.leavesCatalogs.mono (fun _ => Or.inl) le_rfl, hframes,
      ?_⟩
    show Represents unix s' (db.append result (db.joinRows method projNames attr1 op attr2)) P'
      v' fv H fvA HA
    rw [hrows, Tables.append_nil]
    exact h.same hread.leaves hread.file (h.database.same hread.leaves hread.file)
  have hnone : HasRead IsCatalog 0 P v s P v := .refl _ h.database.coh
  by_cases htypes : attr1.attrType ≠ attr2.attrType ∨ attr1.attrLen ≠ attr2.attrLen
  · -- all methods look at the types first
    have hrows : db.joinRows method projNames attr1 op attr2 = [] := by
      unfold Tables.joinRows
      rw [if_pos (htypes.imp_right Or.inl)]
    refine ⟨0, fun fuel junk _ => ?_⟩
    unfold QU_Join QU_NL_Join QU_SM_Join QU_Hash_Join Tables.joinResult
    simp only [if_pos htypes, ite_self, clean_pure]
    exact ⟨trivial, hsame hrows hnone fun _ => by omega⟩
  obtain ⟨htype, hlen⟩ := not_or.mp htypes
  have htypes' : attr1.attrType = attr2.attrType ∧ attr1.attrLen = attr2.attrLen :=
    ⟨not_not.mp htype, not_not.mp hlen⟩
  by_cases hmethod : method.Compares op
  swap
  · have hrows : db.joinRows method projNames attr1 op attr2 = [] := by
      unfold Tables.joinRows
      rw [if_pos (Or.inr (Or.inr hmethod))]
    have hmethod' : ¬(method = .NLJoin ∨ (method = .HashJoin ∧ op ≠ .EQ)) := hmethod
    refine ⟨0, fun fuel junk _ => ?_⟩
    unfold QU_Join QU_SM_Join QU_Hash_Join Tables.joinResult
    rw [if_neg hmethod', if_neg htypes, if_pos hmethod]
    simp only [if_neg htypes, ite_self, clean_pure]
    exact ⟨trivial, hsame hrows hnone fun _ => by omega⟩
  obtain ⟨hnames, hjoin⟩ := hfits htypes'.1 htypes'.2 hmethod
  have hmethod' : method = .NLJoin ∨ (method = .HashJoin ∧ op ≠ .EQ) := hmethod
  unfold QU_Join Tables.joinResult
  simp only [if_pos hmethod']
  rw [if_neg htypes, if_neg (not_not.mpr hmethod)]
  cases hmissing : (projNames ++ [attr1, attr2]).find? fun a => (db.desc a).isNone with
  | some a =>
    have hnone : (db.desc a).isNone = true := by simpa using List.find?_some hmissing
    have hrows : db.joinRows method projNames attr1 op attr2 = [] :=
      Tables.joinRows_of_missing (List.mem_of_find?_eq_some hmissing)
        (Option.isNone_iff_eq_none.mp hnone)
    refine ⟨2 * HA.rids.length + HA.pages.length + 1, fun fuel junk hjunk => ?_⟩
    refine (QU_NL_Join_refused fuel h.database.coh h.database.catalogs.attrcat h.attrTuples hnames
      hjunk htypes'
      (h.firstMissing_eq.trans hmissing) fun ht => ⟨by omega, ht.2⟩).mono ?_
    rintro r s' ⟨hr, P', v', k, hread, hframes⟩
    exact ⟨hr, hsame hrows (hread.mono (fun _ => Or.inr) le_rfl) hframes⟩
  | none =>
    obtain ⟨type, ds, d₁, d₂, outer, inner, hj⟩ := hjoin fun a ha hnone =>
      List.find?_eq_none.mp hmissing a ha (Option.isNone_iff_eq_none.mpr hnone)
    obtain ⟨N, hN⟩ := h.join_of_joinable hj htypes' hmethod
    refine ⟨N, fun fuel junk hjunk => (hN fuel junk hjunk).mono ?_⟩
    rintro r s' ⟨hr, P', v', fv', H', fvA', HA', k, hl, hframes, h'⟩
    exact ⟨hr, P', v', fv', H', fvA', HA', k, hl, fun ht => (hframes ht).trans (by omega), h'⟩

end Represents

end Minirel
