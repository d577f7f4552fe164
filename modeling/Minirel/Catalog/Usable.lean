import Minirel.Catalog.Relations
import Minirel.Catalog.Fuel
import Minirel.HeapFile.Lengths
import Minirel.HeapFile.Reliable

/-!
# Relations that can be used

`createRel` looks at the name of the relation and at the number of attributes, and never at the
attributes. A relation can be used if no two attributes have the same name, none is empty, and
`insertRecord` can store its records; the catalogs list only such relations as long as no other is
asked for.

## Main definitions

* `UsableCatalog`: the relations of the catalogs can be used.
* `SchemaRun`: calls of `createRel` and `destroyRel`, each with five frames to work with and not
  affected by Unix calls that fail.

## Main results

* `StoresTuples.unique`: a state stores one multiset of tuples in each catalog.
* `usable_iff`: when the catalogs list only such relations in a whole run.
-/

namespace Minirel

open Comp HeapFile

/-- What the catalogs hold is determined by the state. -/
theorem StoresTuples.unique {s : Sys} {rel rel' : Multiset RelDesc} {att att' : Multiset AttrDesc}
    (h : StoresTuples s rel att) (h' : StoresTuples s rel' att') : rel' = rel ∧ att' = att := by
  obtain ⟨P, v, fv, H, fvA, HA, hc, hcat, rfl, rfl⟩ := h
  obtain ⟨P', v', fv', H', fvA', HA', hc', hcat', rfl, rfl⟩ := h'
  have hrel := (hcat'.relcat.heap? hc').symm.trans (hcat.relcat.heap? hc)
  have hattr := (hcat'.attrcat.heap? hc').symm.trans (hcat.attrcat.heap? hc)
  rw [Option.some.inj hrel, Option.some.inj hattr]
  exact ⟨rfl, rfl⟩

/-! ## Lists of attributes -/

/-- The tuples of a relation in `attrcat` are those of a relation that can be used. -/
structure UsableAttrs (att : Multiset AttrDesc) : Prop where
  nodup : (att.map AttrDesc.attrName).Nodup
  pos : ∀ d ∈ att, 1 ≤ d.attrLen
  fits : FitsEmpty (att.map AttrDesc.attrLen).sum

/-- The attributes are those of a relation that can be used. -/
structure UsableList (attrs : List AttrInfo) : Prop where
  nodup : (attrs.map AttrInfo.attrName).Nodup
  pos : ∀ a ∈ attrs, 1 ≤ a.attrLen
  fits : FitsEmpty (sumLen attrs)

section Descs

variable {ordering : Int} {l : List AttrInfo}

theorem map_attrName_descsFrom :
    (descsFrom ordering l).map AttrDesc.attrName = l.map AttrInfo.attrName := by
  induction l generalizing ordering with
  | nil => rfl
  | cons a l ih =>
    unfold descsFrom
    rw [List.map_cons, List.map_cons, ih]

/-- The tuples of a relation tell whether it can be used. -/
theorem usableAttrs_iff (R : Relation) :
    UsableAttrs (R.attrDescs : Multiset AttrDesc) ↔ UsableList R.attrs := by
  have hpos : (∀ d ∈ R.attrDescs, 1 ≤ d.attrLen) ↔ ∀ a ∈ R.attrs, 1 ≤ a.attrLen := by
    rw [← List.forall_mem_map (f := AttrDesc.attrLen) (P := fun n => 1 ≤ n),
      ← List.forall_mem_map (f := AttrInfo.attrLen) (P := fun n => 1 ≤ n)]
    exact Iff.of_eq (congrArg (fun l : List Int => ∀ n ∈ l, 1 ≤ n) map_attrLen_descsFrom)
  have hnodup : ((R.attrDescs : Multiset AttrDesc).map AttrDesc.attrName).Nodup ↔
      (R.attrs.map AttrInfo.attrName).Nodup := by
    rw [Multiset.map_coe, Multiset.coe_nodup]
    exact Iff.of_eq (congrArg List.Nodup map_attrName_descsFrom)
  have hsum : ((R.attrDescs : Multiset AttrDesc).map AttrDesc.attrLen).sum = sumLen R.attrs := by
    rw [Multiset.map_coe, Multiset.sum_coe]
    exact congrArg List.sum map_attrLen_descsFrom
  constructor
  · intro h
    exact ⟨hnodup.mp h.nodup, hpos.mp h.pos, hsum ▸ h.fits⟩
  · intro h
    exact ⟨hnodup.mpr h.nodup, hpos.mpr h.pos, hsum ▸ h.fits⟩

end Descs

/-! ## The catalogs -/

/-- The relations of the catalogs can be used, and no relation has two attributes of one name. What
the catalogs hold does not depend on the Unix calls that are going to fail. -/
def UsableCatalog (s : Sys) : Prop :=
  ∃ rel att, StoresTuples s.good rel att ∧ (att.map fun a => (a.relName, a.attrName)).Nodup ∧
    ∀ d ∈ rel, ¬IsCatalog d.relName → UsableAttrs (att.filter fun a => a.relName = d.relName)

section Key

variable {C : List Relation}

/-- Relation name and attribute name are a key if each relation has its own name and no attribute
twice. -/
theorem nodup_key (hnodup : (names C).Nodup) (hwf : ∀ R ∈ C, R.WF)
    (hattrs : ∀ R ∈ C, (R.attrs.map AttrInfo.attrName).Nodup) :
    ((C.flatMap Relation.attrDescs).map fun a => (a.relName, a.attrName)).Nodup := by
  rw [List.map_flatMap, List.nodup_flatMap]
  constructor
  · intro R hR
    refine List.Nodup.of_map Prod.snd ?_
    rw [List.map_map]
    have hnames := hattrs R hR
    rw [← map_attrName_descsFrom] at hnames
    exact hnames
  · refine (List.pairwise_map.mp hnodup).imp_of_mem fun {R R'} hR hR' hne => ?_
    -- the names of the relations differ
    intro x hx hx'
    obtain ⟨d, hd, rfl⟩ := List.mem_map.mp hx
    obtain ⟨d', hd', heq⟩ := List.mem_map.mp hx'
    have h₁ := (hwf R hR).relName hd
    have h₂ := (hwf R' hR').relName hd'
    exact hne (h₁.symm.trans ((congrArg Prod.fst heq).symm.trans h₂))

end Key

/-- The relations that have been created have other names than the catalogs. -/
theorem not_isCatalog_of_created {tr : List CatalogEvent} {R : Relation}
    (hnodup : (names (relations tr)).Nodup) (hR : R ∈ created tr) : ¬IsCatalog R.name := by
  intro hcatalog
  unfold names relations at hnodup
  rw [List.map_append, List.nodup_append] at hnodup
  refine hnodup.2.2 R.name (List.mem_map_of_mem hR) R.name ?_ rfl
  rcases hcatalog with h | h
  · rw [h]
    exact List.mem_cons_self
  · rw [h]
    exact List.mem_cons_of_mem _ List.mem_cons_self

/-- The catalogs can be used if all relations that have been created can. -/
theorem Database.usableCatalog_iff {s : Sys} {tr : List CatalogEvent} {P : Multiset Pin} {v : View}
    {fv fvA : FileView} {H HA : Heap} (h : Database s.good (relations tr) P v fv H fvA HA) :
    UsableCatalog s ↔ ∀ R ∈ created tr, UsableList R.attrs := by
  have hstores : StoresTuples s.good _ _ := ⟨P, v, fv, H, fvA, HA, h.coh, h.catalogs, rfl, rfl⟩
  have hattrs : ∀ R ∈ relations tr,
      UsableAttrs ((HA.rows.map AttrDesc.decode).filter fun a => a.relName = R.name) ↔
        UsableList R.attrs := fun R hR => by
    rw [h.filter_attrs hR, usableAttrs_iff]
  constructor
  · rintro ⟨rel, att, hstores', -, husable⟩ R hR
    obtain ⟨rfl, rfl⟩ := hstores.unique hstores'
    have hmem : R ∈ relations tr := List.mem_append_left _ hR
    refine (hattrs R hmem).mp (husable R.desc ?_ (not_isCatalog_of_created h.nodup hR))
    rw [h.lists.rel]
    exact Multiset.mem_coe.mpr (List.mem_map_of_mem hmem)
  · intro husable
    refine ⟨_, _, hstores, ?_, fun d hd hcatalog => ?_⟩
    · rw [h.lists.attr, Multiset.map_coe, Multiset.coe_nodup]
      refine nodup_key h.nodup h.wf fun R hR => ?_
      rcases List.mem_append.mp hR with hR | hR
      · exact (husable R hR).nodup
      · rcases List.mem_cons.mp hR with rfl | hR
        · decide
        · rw [List.mem_singleton.mp hR]
          decide
    · rw [h.lists.rel] at hd
      obtain ⟨R, hR, rfl⟩ := List.mem_map.mp (Multiset.mem_coe.mp hd)
      refine (hattrs R hR).mpr ?_
      rcases List.mem_append.mp hR with hR' | hR'
      · exact husable R hR'
      · -- the catalogs themselves
        refine absurd ?_ hcatalog
        rcases List.mem_cons.mp hR' with rfl | hR'
        · exact Or.inl rfl
        · rw [List.mem_singleton.mp hR']
          exact Or.inr rfl

/-! ## Runs -/

/-- An array that is passed to `createRel` has as many elements as it says. -/
def CatalogCall.Declared : CatalogCall → Prop
  | .createRel _ attrCnt attrList => attrCnt.toNat ≤ attrList.length
  | .destroyRel _ => True
  | .load _ _ => True

/-- Calls of `createRel` and `destroyRel`, the last one first. There are five frames without a pin
whenever a call starts, and it does what it would do if no Unix call failed. -/
inductive SchemaRun (unix : FileName → Option UnixFile) (s₀ : Sys) : List CatalogEvent → Sys → Prop
  | start : SchemaRun unix s₀ [] s₀
  | step {tr : List CatalogEvent} {s s' : Sys} {call : CatalogCall} {st : Status} {e : Bool}
      (hrun : SchemaRun unix s₀ tr s) (hsound : call.Sound unix) (hdeclared : call.Declared)
      (hfree : 5 ≤ s.freeFrames) (hstep : call.Step s st e s')
      (hgood : call.Step s.good st e s'.good) :
      SchemaRun unix s₀ (⟨call, st, e⟩ :: tr) s'

/-- `createRel` has returned `OK` for a list of attributes only if the relation can be used. -/
def CatalogEvent.Rejects (ev : CatalogEvent) : Prop :=
  match ev.call with
  | .createRel _ attrCnt attrList => ev.status = .OK → UsableList (attrList.take attrCnt.toNat)
  | .destroyRel _ => True
  | .load _ _ => True

/-- Each relation that is asked for is refused for its name or for the number of its attributes, or
can be used. -/
def UsableRun : List CatalogEvent → Prop
  | [] => True
  | ev :: tr => UsableRun tr ∧
    match ev.call with
    | .createRel relation attrCnt attrList =>
      RefusesSchema relation attrCnt (relation ∈ names (relations tr)) ∨
        UsableList (attrList.take attrCnt.toNat)
    | .destroyRel _ => True
    | .load _ _ => True

section Runs

variable {unix : FileName → Option UnixFile} {s₀ s s' : Sys} {tr tr' : List CatalogEvent}
  {call : CatalogCall} {st : Status} {e : Bool}

theorem InStep.good {C : List Relation} (h : InStep unix s C) : s.good = s := by
  obtain ⟨P, v, fv, H, fvA, HA, hd, -⟩ := h
  exact Sys.good_of_io hd.coh.io

/-- With five frames no call of the buffer manager fails. -/
theorem InStep.clean {C : List Relation} (h : InStep unix s C) (hsound : call.Sound unix)
    (hdeclared : call.Declared) (hfree : 5 ≤ s.freeFrames) (hstep : call.Step s st e s') :
    e = false := by
  obtain ⟨P, v, fv, H, fvA, HA, hd, hf⟩ := h
  rw [hd.coh.freeFrames_eq] at hfree
  cases call with
  | createRel relation attrCnt attrList =>
    obtain ⟨hname, hunix, hcnt, hattrs⟩ := hsound
    obtain ⟨fuel, rd, ad, hrd, had, hy⟩ := hstep
    -- with enough fuel the call returns, and then it does the same as with this fuel
    have hcall : Clean True
      (RelCatalog.createRel (max fuel (H.rids.length + H.pages.length + 1)) rd ad
        relation attrCnt attrList) s _ :=
      hd.createRel _ hname (hf.not_foreign hunix) hrd had hcnt hattrs
        fun _ => ⟨by omega, le_max_right _ _, hdeclared⟩
    exact (hcall.of_extends trivial (RelCatalog.createRel_mono (le_max_left _ _) _ _ _ _ _) hy).1
  | destroyRel relation =>
    obtain ⟨fuel, u, hy⟩ := hstep
    have hcall : Clean True
      (RelCatalog.destroyRel (max fuel (max (2 * H.rids.length + H.pages.length + 1)
        (2 * HA.rids.length + HA.pages.length + 1))) u relation) s _ :=
      hd.destroyRel _ hsound fun _ => ⟨hfree, (le_max_left _ _).trans (le_max_right _ _),
        (le_max_right _ _).trans (le_max_right _ _)⟩
    exact (hcall.of_extends trivial (RelCatalog.destroyRel_mono (le_max_left _ _) _ _) hy).1
  | load relation fileName => exact hsound.elim

/-- The catalogs and the files are in step in every state that the calls lead to. -/
theorem SchemaRun.tidy (h₀ : NewSession unix s₀.good) (hrun : SchemaRun unix s₀ tr s) :
    TidyCatalog unix s.good (relations tr) := by
  induction hrun with
  | start => exact h₀.tidy
  | step hrun hsound hdeclared hfree hstep hgood ih =>
    obtain rfl := ih.1.clean hsound hdeclared hfree hgood
    exact ih.step hsound hgood

/-- `createRel` returns `OK` whenever it does not refuse. -/
theorem InStep.createRel_ok_iff {relation : Bytes} {attrCnt : Int} {attrList : List AttrInfo}
    (h : InStep unix s (relations tr))
    (hsound : (CatalogCall.createRel relation attrCnt attrList).Sound unix)
    (hstep : (CatalogCall.createRel relation attrCnt attrList).Step s st false s') :
    st = .OK ↔ ¬RefusesSchema relation attrCnt (relation ∈ names (relations tr)) := by
  obtain ⟨P, v, fv, H, fvA, HA, hd, hf⟩ := h
  obtain ⟨hname, hunix, hcnt, hattrs⟩ := hsound
  obtain ⟨fuel, rd, ad, hrd, had, hy⟩ := hstep
  obtain ⟨P', v', fv', H', fvA', HA', h⟩ := (hd.createRel (T := False) fuel hname
    (hf.not_foreign hunix) hrd had hcnt hattrs False.elim).of_yields hy
  obtain ⟨href, hst, -⟩ | ⟨hacc, -, -, hfile⟩ := h
  · exact ⟨fun hok => absurd hok hst, fun hacc => absurd href hacc⟩
  · rw [hf.absent relation fun hn => hacc (Or.inr (Or.inr (Or.inr hn)))] at hfile
    exact ⟨fun _ => hacc, fun _ => hfile.1⟩

/-- `createRel` rejects all relations that cannot be used if no other is asked for. -/
theorem SchemaRun.rejects_iff (h₀ : NewSession unix s₀.good) (hrun : SchemaRun unix s₀ tr s) :
    (∀ ev ∈ tr, ev.Rejects) ↔ UsableRun tr := by
  induction hrun with
  | start => exact ⟨fun _ => trivial, fun _ => nofun⟩
  | @step tr s s' call st e hrun hsound hdeclared hfree hstep hgood ih =>
    have htidy := (hrun.tidy h₀).1
    obtain rfl := htidy.clean hsound hdeclared hfree hgood
    rw [List.forall_mem_cons, ih, and_comm]
    refine and_congr_right fun _ => ?_
    cases call with
    | createRel relation attrCnt attrList =>
      show (st = .OK → _) ↔ _ ∨ _
      rw [htidy.createRel_ok_iff hsound hgood, or_iff_not_imp_left]
    | destroyRel relation => exact Iff.rfl
    | load relation fileName => exact Iff.rfl

/-- Of the relations that have been created only such are left as could be used. -/
theorem usable_of_rejects (h : ∀ ev ∈ tr, ev.Rejects) : ∀ R ∈ created tr, UsableList R.attrs := by
  induction tr with
  | nil => nofun
  | cons ev tr ih =>
    obtain ⟨call, st, e⟩ := ev
    obtain ⟨hev, hrest⟩ := List.forall_mem_cons.mp h
    cases call with
    | createRel relation attrCnt attrList =>
      rw [created_createRel]
      split
      next hst =>
        intro R hR
        rcases List.mem_cons.mp hR with rfl | hR
        · exact hev hst
        · exact ih hrest R hR
      next => exact ih hrest
    | destroyRel relation =>
      rw [created_destroyRel]
      split
      next => exact fun R hR => ih hrest R (List.mem_of_mem_filter hR)
      next => exact ih hrest
    | load relation fileName => exact ih hrest

/-- In all states that a run leads through the relations of the catalogs can be used, and
`createRel` has rejected all others, exactly if all relations that are asked for and not refused for
their names can be used. -/
theorem usable_iff (h₀ : NewSession unix s₀.good) (hrun : SchemaRun unix s₀ tr s) :
    ((∀ tr' s', tr' <:+ tr → SchemaRun unix s₀ tr' s' → UsableCatalog s') ∧ ∀ ev ∈ tr, ev.Rejects) ↔
      UsableRun tr := by
  rw [← hrun.rejects_iff h₀]
  refine ⟨fun h => h.2, fun h => ⟨fun tr' s' hsuf hrun' => ?_, h⟩⟩
  obtain ⟨⟨P, v, fv, H, fvA, HA, hd, -⟩, -⟩ := hrun'.tidy h₀
  exact hd.usableCatalog_iff.mpr (usable_of_rejects fun ev hev => h ev (hsuf.subset hev))

end Runs

/-! ### Attributes of one name -/

/-- A run that creates a relation with attributes like `oneAttr` in an empty directory. -/
theorem exists_schemaRun {attrs : List AttrInfo} (hattrs : ∀ a ∈ attrs, a = oneAttr)
    (hne : attrs ≠ []) (hlen : IsInt attrs.length) : ∃ s₀ s, NewSession (fun _ => none) s₀ ∧
      SchemaRun (fun _ => none) s₀ [⟨.createRel [65] attrs.length attrs, .OK, false⟩] s := by
  obtain ⟨s₀, h₀⟩ : ∃ s₀, NewSession (fun _ => none) s₀ := exists_newSession rfl rfl
  have hvalid : ∀ a ∈ attrs, a.Valid ∧ a.relName = [65] := fun a ha => by
    rw [hattrs a ha]
    exact ⟨oneAttr_valid, rfl⟩
  obtain ⟨s, hstep⟩ := h₀.exists_createRel hvalid hne hlen
  obtain ⟨P, v, fv, H, fvA, HA, hd, -, -, hframes⟩ := h₀.database
  have hsound : (CatalogCall.createRel [65] attrs.length attrs).Sound fun _ => none :=
    ⟨by decide, rfl, hlen, hvalid⟩
  refine ⟨s₀, s, h₀, .step .start hsound ?_ ?_ hstep ?_⟩
  · exact (Int.toNat_natCast _).le
  · rw [hd.coh.freeFrames_eq]
    omega
  · -- no Unix call fails at all
    rw [h₀.tidy.1.good, (h₀.tidy.step hsound hstep).1.good]
    exact hstep

theorem usable_iff_one : ∃ s₀ s, NewSession (fun _ => none) s₀ ∧
    SchemaRun (fun _ => none) s₀ [⟨.createRel [65] 1 [oneAttr], .OK, false⟩] s ∧
    UsableCatalog s := by
  obtain ⟨s₀, s, h₀, hrun⟩ : ∃ s₀ s, NewSession (fun _ => none) s₀ ∧
      SchemaRun (fun _ => none) s₀ [⟨.createRel [65] 1 [oneAttr], .OK, false⟩] s :=
    exists_schemaRun (fun a => List.mem_singleton.mp) (by decide) (by decide)
  have husable : UsableRun [⟨.createRel [65] 1 [oneAttr], .OK, false⟩] := by
    refine ⟨trivial, Or.inr ⟨by decide, ?_, by decide⟩⟩
    intro a ha
    rw [List.mem_singleton.mp ha]
    decide
  have h₀' : NewSession (fun _ => none) s₀.good := h₀.tidy.1.good.symm ▸ h₀
  exact ⟨s₀, s, h₀, hrun, ((usable_iff h₀' hrun).mpr husable).1 _ s (List.suffix_refl _) hrun⟩

/-- `createRel` takes two attributes of the same name. -/
theorem not_usable_twice : ∃ s₀ s, NewSession (fun _ => none) s₀ ∧
    SchemaRun (fun _ => none) s₀ [⟨.createRel [65] 2 [oneAttr, oneAttr], .OK, false⟩] s ∧
    ¬UsableCatalog s := by
  obtain ⟨s₀, s, h₀, hrun⟩ : ∃ s₀ s, NewSession (fun _ => none) s₀ ∧
      SchemaRun (fun _ => none) s₀ [⟨.createRel [65] 2 [oneAttr, oneAttr], .OK, false⟩] s :=
    exists_schemaRun (fun a ha => (List.mem_cons.mp ha).elim id List.mem_singleton.mp) (by decide)
      (by decide)
  refine ⟨s₀, s, h₀, hrun, fun husable => ?_⟩
  have h₀' : NewSession (fun _ => none) s₀.good := h₀.tidy.1.good.symm ▸ h₀
  obtain ⟨⟨P, v, fv, H, fvA, HA, hd, -⟩, -⟩ := hrun.tidy h₀'
  have hlist := hd.usableCatalog_iff.mp husable ⟨[65], [oneAttr, oneAttr]⟩ List.mem_cons_self
  exact absurd hlist.nodup (by decide)

end Minirel
