import Minirel.Print.Report
import Minirel.Catalog.Fuel
import Minirel.Catalog.Relations

/-!
# Printing relations

`UT_Print` and `help` look a relation up in the catalogs. Both find its attributes as `attrcat` has
them. They change nothing; of the frames that the lookups have pinned, four are not given back.

## Main definitions

* `helpText`: what `help` prints of a relation.

## Main results

* `Database.print`: `UT_Print` on a consistent catalog.
* `Database.help`: `RelCatalog::help` on a consistent catalog.
* `Database.print_missing`, `Database.help_missing`: a relation that is not listed.
-/

namespace Minirel

open Comp HeapFile HeapFileScan Traverse

/-- The locals have the memory of their types. -/
structure PrintLocals.Sized (locals : PrintLocals) : Prop where
  rd : locals.rd.Sized
  junk : locals.junk.Sized

/-- The line of an attribute in `help`. -/
def helpRow (d : AttrDesc) : Bytes :=
  padLeft 8 (cstr d.attrName) ++ padLeft 20 (decimal d.attrLen) ++
    padLeft 18 (if d.attrType = 1 then ascii "int" else if d.attrType = 0 then ascii "string"
      else ascii "float") ++ padLeft 15 (decimal d.attrOffset) ++ ascii "\n"

/-- What `help` prints of a relation with `attrCnt` attributes. -/
def helpText (relName : Bytes) (attrCnt : Int) (ds : List AttrDesc) : Bytes :=
  ascii "All Relations Currently in Catalog: \n\n" ++
    ascii "Name of Relation: " ++ relName ++ ascii " | Number of Attributes: " ++ decimal attrCnt ++
    ascii " \n\n" ++
    ascii "Attribute Name | Attribute Length | Attribute Type | Attribute Offset \n" ++
    ascii "_______________|__________________|________________|_________________\n" ++
    (ds.map helpRow).flatten

theorem helpLine_eq {d : AttrDesc} (hnul : 0 ∈ d.attrName) : helpLine d = some (helpRow d) := by
  unfold helpLine cString
  rw [if_pos hnul]
  rfl

/-- What is behind the names of the descriptors is not printed. -/
theorem helpText_strings {relName : Bytes} {attrCnt : Int} {ds : List AttrDesc} :
    helpText relName attrCnt (ds.map AttrDesc.strings) = helpText relName attrCnt ds := by
  have hrow : ∀ d : AttrDesc, helpRow d.strings = helpRow d := fun d => by
    unfold helpRow AttrDesc.strings
    dsimp only
    rw [cstr_cstr]
  unfold helpText
  simp only [List.map_map, Function.comp_def, hrow]

namespace Database

variable {T : Prop} {s : Sys} {C : List Relation} {P : Multiset Pin} {v : View}
  {fv fvA fvR : FileView} {H HA HR : Heap} {R : Relation} {relation : Bytes} {rd junk : RelDesc}
  {junkAttr : AttrDesc} {formatFloat : Bytes → Bytes} {locals : PrintLocals}

/-- `RelCatalog::getInfo` of a relation. -/
theorem getInfo (h : Database s C P v fv H fvA HA) (hR : R ∈ C) (fuel : Nat) (hrd : rd.Sized)
    (hT : T → 2 ≤ freeFrames v.numBufs P ∧ H.rids.length + H.pages.length + 1 ≤ fuel) :
    Clean T (RelCatalog.getInfo fuel R.name rd) s fun r s' => r.1 = .OK ∧
      cString r.2.relName = some R.name ∧ r.2.attrCnt = R.attrs.length ∧
      ∃ P' v', HasRead IsCatalog 1 P v s' P' v' := by
  have hwf := h.wf R hR
  refine (RelCatalog.getInfo_spec fuel h.coh h.catalogs.relcat h.catalogs.relTuples hwf.isName
    hwf.ne_nil hrd
    hT).mono ?_
  rintro r s' ⟨⟨P', v', hread⟩, hr⟩
  obtain ⟨b, hfind, hdecode⟩ := h.find?_rel hR
  rw [hfind] at hr
  subst hr
  obtain ⟨rid, hrid⟩ := Heap.exists_of_mem_contents (List.mem_of_find?_eq_some hfind)
  have hnul := (h.catalogs.relTuples rid b hrid).2.nul
  have hname : cstr (b.take MAXNAME) = R.name := by
    rw [cstr_take hnul]
    exact congrArg RelDesc.relName hdecode
  exact ⟨rfl, (if_pos hnul).trans (congrArg some hname), congrArg RelDesc.attrCnt hdecode, P', v',
    hread.mono (fun _ => Or.inl) le_rfl⟩

/-- `RelCatalog::getInfo` of another name. -/
theorem getInfo_missing (h : Database s C P v fv H fvA HA) (hmem : relation ∉ names C) (fuel : Nat)
    (hname : IsName relation) (hne : relation ≠ []) (hrd : rd.Sized)
    (hT : T → 2 ≤ freeFrames v.numBufs P ∧ H.rids.length + H.pages.length + 1 ≤ fuel) :
    Clean T (RelCatalog.getInfo fuel relation rd) s fun r s' => r.1 = .RELNOTFOUND ∧
      ∃ P' v', HasRead IsCatalog 1 P v s' P' v' := by
  refine (RelCatalog.getInfo_spec fuel h.coh h.catalogs.relcat h.catalogs.relTuples hname hne
    hrd hT).mono ?_
  rintro r s' ⟨⟨P', v', hread⟩, hr⟩
  have hfind : H.contents.find? (hasName relation) = none := by
    refine List.find?_eq_none.mpr fun b hb hhas => hmem (h.lists.mem_names.mpr ?_)
    exact ⟨b, Multiset.mem_coe.mpr hb, hhas⟩
  rw [hfind] at hr
  subst hr
  exact ⟨rfl, P', v', hread.mono (fun _ => Or.inl) le_rfl⟩

/-- The tuples of a relation, as `getRelInfo` finds them. -/
theorem attrs_spec (h : Database s C P v fv H fvA HA) (hattr : HA.AttrTuples)
    (hR : R ∈ C) (fuel : Nat) (hjunk : junk.Sized)
    (hT : T → 3 ≤ freeFrames v.numBufs P ∧ H.rids.length + H.pages.length + 1 ≤ fuel ∧
      2 * HA.rids.length + HA.pages.length + 1 ≤ fuel) :
    Clean T (AttrCatalog.getRelInfo fuel junk junkAttr R.name 0 []) s fun r s' => r.1 = .OK ∧
      (r.2.2.map AttrDesc.strings).Perm R.attrDescs ∧ (∀ d ∈ r.2.2, 0 ∈ d.attrName) ∧
      ∃ P' v', HasRead IsCatalog 3 P v s' P' v' := by
  have hwf := h.wf R hR
  obtain ⟨b, hfind, hcnt⟩ := h.find?_count hR
  refine (AttrCatalog.getRelInfo_spec fuel h.coh h.catalogs.relcat h.catalogs.relTuples
    h.catalogs.attrcat h.catalogs.attrTuples hwf.isName hwf.ne_nil hjunk hfind hcnt hT).mono ?_
  rintro r s' ⟨hread, rfl⟩
  refine ⟨rfl, ?_, fun d hd => ?_, hread⟩
  · rw [List.map_reverse]
    exact (List.reverse_perm _).trans (Multiset.coe_eq_coe.mp (h.relAttrs hR))
  · obtain ⟨b', hb', rfl⟩ := List.mem_map.mp (List.mem_reverse.mp hd)
    obtain ⟨rid, hrid⟩ := Heap.exists_of_mem_contents (List.mem_of_mem_filter hb')
    exact hattr.nul rid b' hrid

/-- `UT_Print` of a relation. -/
theorem print (h : Database s C P v fv H fvA HA) (hattr : HA.AttrTuples) (hR : R ∈ C)
    (hHR : IsHeap v R.name fvR HR) (fuel : Nat) (hlocals : locals.Sized)
    (htypes : ∀ d ∈ R.attrDescs, ∃ type : Datatype, d.attrType = type.code)
    (hprints : ∀ b ∈ HR.contents, ∀ d ∈ R.attrDescs, d.Prints d.width b)
    (hT : T → 6 ≤ freeFrames v.numBufs P ∧ H.rids.length + H.pages.length + 1 ≤ fuel ∧
      2 * HA.rids.length + HA.pages.length + 1 ≤ fuel ∧
      HR.rids.length + HR.pages.length + 1 ≤ fuel) :
    Clean T (UT_Print formatFloat fuel locals R.name) s fun r s' =>
      (∃ ds : List AttrDesc, ds.Perm R.attrDescs ∧ r = (.OK,
        report formatFloat R.name ds HR.contents)) ∧
      ∃ P' v', HasRead IsCatalog 4 P v s' P' v' := by
  unfold UT_Print
  rw [if_neg (h.wf R hR).ne_nil]
  dsimp only
  refine (h.getInfo hR fuel hlocals.rd fun ht => ?_).bind ?_
  · obtain ⟨h₁, h₂, -⟩ := hT ht
    exact ⟨by omega, h₂⟩
  rintro ⟨st, rd⟩ s₁ ⟨hst, hname, -, P₁, v₁, hread₁⟩
  dsimp only at hst hname ⊢
  subst hst
  rw [if_neg fun hn => hn rfl, hname, clean_ofOption_some_bind]
  have hfree₁ := hread₁.freeFrames_le
  refine ((h.same hread₁.leaves hread₁.file).attrs_spec hattr hR fuel hlocals.junk
    fun ht => ?_).bind ?_
  · obtain ⟨h₁, h₂, h₃, -⟩ := hT ht
    exact ⟨by omega, h₂, h₃⟩
  rintro ⟨st, cnt, attrs⟩ s₂ ⟨hst, hperm, hnul, P₂, v₂, hread₂⟩
  dsimp only at hst hperm hnul ⊢
  subst hst
  have hmem : ∀ d ∈ attrs, d.strings ∈ R.attrDescs := fun d hd =>
    hperm.mem_iff.mp (List.mem_map_of_mem hd)
  rw [if_neg fun hn => hn rfl, UT_computeWidth_eq fun d hd => ⟨hnul d hd,
    htypes d.strings (hmem d hd)⟩,
    clean_ofOption_some_bind]
  -- the file of the relation is opened once more
  have hread : HasRead IsCatalog 4 P v s₂ P₂ v₂ := hread₁.trans hread₂
  have hHR₂ := hread.isHeap hHR
  have hfree₂ := hread.freeFrames_le
  refine (new_reader hread.coh hHR₂ fun ht => ?_).bind ?_
  · have := (hT ht).1
    omega
  rintro ⟨st, hfile⟩ s₃ ⟨hst, hfilter, x, y, hsame, hc₃, hnew⟩
  dsimp only at hst hfilter hsame hc₃ hnew ⊢
  subst hst
  rw [if_neg fun hn => hn rfl, zip_width, printHeading_eq hnul, clean_ofOption_some_bind]
  have hstart : hfile.startScan 0 0 .INTEGER none .EQ = (.OK, { hfile with filter := none }) := rfl
  simp only [hstart]
  rw [if_neg fun hn => hn rfl]
  have hselect : (HR.select (fun _ => true) HR.rids).map Prod.snd = HR.contents := by
    rw [HR.map_select]
    exact List.filter_true _
  have hcolumns : ∀ q ∈ HR.select (fun _ => true) HR.rids, ∀ p ∈ columnsOf attrs,
    p.1.Prints p.2 q.2 := by
    intro q hq p hp
    obtain ⟨d, hd, rfl⟩ := List.mem_map.mp hp
    have hb : q.2 ∈ HR.contents := hselect ▸ List.mem_map_of_mem hq
    have hprints' := hprints q.2 hb d.strings (hmem d hd)
    rw [width_strings] at hprints'
    exact { hprints' with }
  refine (printLoop_spec (h := { hfile with filter := none }) fuel fuel hcolumns hc₃
    (hnew (fun _ => true) _ rfl) rfl rfl fun ht => ?_).bind ?_
  · obtain ⟨h₁, h₂, h₃, h₄⟩ := hT ht
    have hlen : (HR.select (fun _ => true) HR.rids).length ≤ _ := length_select_le HR.rids
    have := freeFrames_cons v₂.numBufs x P₂
    exact ⟨by show 0 < freeFrames v₂.numBufs _; omega, h₄, by omega⟩
  rintro r s₄ ⟨hfile', y', rfl, hc₄, hr₄⟩
  dsimp only
  rw [if_neg fun hn => hn rfl]
  -- the file is closed as often as it has been opened
  have hptr : hfile'.filePtr = hfile.filePtr := by
    have hh := hr₄.handle
    rw [View.handle_setHandle_self] at hh
    exact (congrArg Prod.fst (Option.some.inj hh)).symm
  have hpos := hHR₂.openCnt_nonneg
  obtain ⟨hfile'', s₅, s₆, hend, hdelete, hc₆⟩ :=
    endScan_delete hr₄ hc₄ (by omega) fun hone z hz => by
    rw [hptr]
    exact hread.coh.file_ne_of_opened hHR₂.opened hc₃ hone z hz
  rw [clean_bind_of_yields hend]
  dsimp only
  rw [if_neg fun hn => hn rfl, clean_bind_of_yields hdelete, clean_pure]
  rw [View.setHandle_setHandle, hptr, closed_openCnt hHR₂.opened hsame,
    View.setHandle_self rfl] at hc₆
  refine ⟨⟨attrs.map AttrDesc.strings, hperm, ?_⟩, P₂, v₂, { hread with coh := hc₆ }⟩
  rw [report_strings]
  unfold report
  rw [← hselect, List.length_map, List.flatMap_map, zero_add]

/-- `UT_Print` of a name that is not listed. -/
theorem print_missing (h : Database s C P v fv H fvA HA) (hmem : relation ∉ names C) (fuel : Nat)
    (hname : IsName relation) (hne : relation ≠ []) (hlocals : locals.Sized)
    (hT : T → 2 ≤ freeFrames v.numBufs P ∧ H.rids.length + H.pages.length + 1 ≤ fuel) :
    Clean T (UT_Print formatFloat fuel locals relation) s fun r s' => r = (.RELNOTFOUND, []) ∧
      ∃ P' v', HasRead IsCatalog 1 P v s' P' v' := by
  unfold UT_Print
  rw [if_neg hne]
  refine (h.getInfo_missing hmem fuel hname hne hlocals.rd hT).bind ?_
  rintro ⟨st, rd⟩ s₁ ⟨hst, hread⟩
  dsimp only at hst ⊢
  rw [hst, if_pos (show Status.RELNOTFOUND ≠ .OK from Status.noConfusion), clean_pure]
  exact ⟨rfl, hread⟩

/-- `help` of a relation. -/
theorem help (h : Database s C P v fv H fvA HA) (hattr : HA.AttrTuples) (hR : R ∈ C) (fuel : Nat)
    (hlocals : locals.Sized) (hT : T → 4 ≤ freeFrames v.numBufs P ∧
      H.rids.length + H.pages.length + 1 ≤ fuel ∧ 2 * HA.rids.length + HA.pages.length + 1 ≤ fuel) :
    Clean T (RelCatalog.help formatFloat fuel locals R.name) s fun r s' =>
      (∃ ds : List AttrDesc, ds.Perm R.attrDescs ∧ r = (.OK, helpText R.name R.attrs.length ds)) ∧
      ∃ P' v', HasRead IsCatalog 4 P v s' P' v' := by
  unfold RelCatalog.help
  rw [if_neg (h.wf R hR).ne_nil]
  refine (h.getInfo hR fuel hlocals.rd fun ht => ?_).bind ?_
  · obtain ⟨h₁, h₂, -⟩ := hT ht
    exact ⟨by omega, h₂⟩
  rintro ⟨st, rd⟩ s₁ ⟨hst, hname, hcnt, P₁, v₁, hread₁⟩
  dsimp only at hst hname hcnt ⊢
  subst hst
  rw [if_neg fun hn => hn rfl]
  have hfree₁ := hread₁.freeFrames_le
  refine ((h.same hread₁.leaves hread₁.file).attrs_spec hattr hR fuel hlocals.junk
    fun ht => ?_).bind ?_
  · obtain ⟨h₁, h₂, h₃⟩ := hT ht
    exact ⟨by omega, h₂, h₃⟩
  rintro ⟨st, cnt, attrs⟩ s₂ ⟨hst, hperm, hnul, P₂, v₂, hread₂⟩
  dsimp only at hst hperm hnul ⊢
  subst hst
  have hlines : attrs.mapM helpLine = some (attrs.map helpRow) := by
    refine mapM_eq_some ?_
    rw [List.map_map]
    exact List.map_congr_left fun d hd => helpLine_eq (hnul d hd)
  rw [if_neg fun hn => hn rfl, hname, clean_ofOption_some_bind, hlines,
    clean_ofOption_some_bind, clean_pure]
  refine ⟨⟨attrs.map AttrDesc.strings, hperm, ?_⟩, P₂, v₂, hread₁.trans hread₂⟩
  rw [helpText_strings, hcnt]
  rfl

/-- `help` of a name that is not listed. -/
theorem help_missing (h : Database s C P v fv H fvA HA) (hmem : relation ∉ names C) (fuel : Nat)
    (hname : IsName relation) (hne : relation ≠ []) (hlocals : locals.Sized)
    (hT : T → 2 ≤ freeFrames v.numBufs P ∧ H.rids.length + H.pages.length + 1 ≤ fuel) :
    Clean T (RelCatalog.help formatFloat fuel locals relation) s fun r s' => r =
    (.RELNOTFOUND, []) ∧
      ∃ P' v', HasRead IsCatalog 1 P v s' P' v' := by
  unfold RelCatalog.help
  rw [if_neg hne]
  refine (h.getInfo_missing hmem fuel hname hne hlocals.rd hT).bind ?_
  rintro ⟨st, rd⟩ s₁ ⟨hst, hread⟩
  dsimp only at hst ⊢
  rw [hst, if_pos (show Status.RELNOTFOUND ≠ .OK from Status.noConfusion), clean_pure]
  exact ⟨rfl, hread⟩

end Database

/-! ## More fuel -/

section Fuel

variable {formatFloat : Bytes → Bytes} {m n : Nat}

theorem printLoop_mono (hle : m ≤ n) (columns : List (AttrDesc × Int)) {i j : Nat} (hij : i ≤ j)
    (hfile : HeapFileScan) (records : Int) (out : Bytes) :
    Extends (printLoop formatFloat m columns i hfile records out)
      (printLoop formatFloat n columns j hfile records out) := by
  induction i generalizing j hfile records out with
  | zero => exact .failure _
  | succ i ih =>
    obtain ⟨j, rfl⟩ : ∃ k, j = k + 1 := ⟨j - 1, by omega⟩
    unfold printLoop
    refine .bind (scanNext_mono hle _) fun r => .ite (.refl _)
      (.bind_right _ fun r' => .ite (.refl _) ?_)
    exact .bind_right _ fun line => ih (Nat.le_of_succ_le_succ hij) _ _ _

theorem UT_Print_mono (hle : m ≤ n) (locals : PrintLocals) (relation : Bytes) :
    Extends (UT_Print formatFloat m locals relation) (UT_Print formatFloat n locals relation) := by
  unfold UT_Print
  refine .bind (RelCatalog.getInfo_mono hle _ _) fun r => .ite (.refl _) ?_
  refine .bind_right _ fun relName => .bind (AttrCatalog.getRelInfo_mono hle _ _ _ _ _) fun r => ?_
  refine .ite (.refl _) (.bind_right _ fun attrWidth => .bind_right _ fun r => .ite (.refl _) ?_)
  refine .bind_right _ fun heading => .ite (.refl _) ?_
  exact .bind (printLoop_mono hle _ hle _ _ _) fun r => .refl _

theorem help_mono (hle : m ≤ n) (locals : PrintLocals) (relation : Bytes) :
    Extends (RelCatalog.help formatFloat m locals relation)
    (RelCatalog.help formatFloat n locals relation) := by
  unfold RelCatalog.help
  refine .ite (UT_Print_mono hle _ _)
    (.bind (RelCatalog.getInfo_mono hle _ _) fun r => .ite (.refl _) ?_)
  exact .bind (AttrCatalog.getRelInfo_mono hle _ _ _ _ _) fun r => .refl _

end Fuel

end Minirel
