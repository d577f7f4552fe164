import Minirel.Catalog.Names

/-!
# Removing tuples

`RelCatalog::removeInfo` tests a local that it has never set, and has no `return` for a scan that
finds no tuple. `AttrCatalog::removeInfo` asks for the current record again and again and never
moves the scan on. Each does what it is for only in some cases.

## Main definitions

* `KeptFiles`, `RemovedFrom`: no file has changed; a tuple is gone.
* `RemovesInfo`, `RemovesAttr`: the call removes the tuple it is asked to.

## Main results

* `RelCatalog.removesInfo_iff`, `AttrCatalog.removesAttr_iff`: when it does.
-/

namespace Minirel

open Comp HeapFile HeapFileScan

/-! ## What a removal changes -/

/-- The files are as they were in the view `v`. -/
def KeptFiles (v : View) (s' : Sys) : Prop := ∃ P' v', Coh s' P' v' ∧ v'.file = v.file

/-- The file `nm`, which was `H`, has lost the record `b`, and the other files are as they were. -/
def RemovedFrom (v : View) (nm : FileName) (H : Heap) (b : Bytes) (s' : Sys) : Prop :=
  ∃ P' v' fv' H', Coh s' P' v' ∧ IsHeap v' nm fv' H' ∧ H.rows = b ::ₘ H'.rows ∧
    ∀ nm', nm' ≠ nm → v'.file nm' = v.file nm'

section Changes

variable {s s' : Sys} {P P' : Multiset Pin} {v v' : View} {nm : FileName} {fv fv' : FileView}
  {H H' : Heap} {b : Bytes} {k : Nat}

theorem HasRead.keptFiles {S : FileName → Prop} (h : HasRead S k P v s P' v') : KeptFiles v s :=
  ⟨P', v', h.coh, h.file⟩

theorem Leaves.removedFrom (h : Leaves (· = nm) k P v s P' v') (hH' : IsHeap v' nm fv' H')
    (hrows : H.rows = b ::ₘ H'.rows) : RemovedFrom v nm H b s :=
  ⟨P', v', fv', H', h.coh, hH', hrows, h.other⟩

/-- If no file has changed, no record is gone. -/
theorem KeptFiles.not_removedFrom (h : KeptFiles v s') (hH : IsHeap v nm fv H) :
    ¬RemovedFrom v nm H b s' := by
  rintro ⟨P₁, v₁, fv₁, H₁, hc₁, hH₁, hrows, -⟩
  obtain ⟨P₂, v₂, hc₂, hfile⟩ := h
  -- both views say what is in the file
  have h₁ := hH₁.heap? hc₁
  rw [hc₂.rows ((congrFun hfile nm).trans hH.file) hH.heapAt] at h₁
  have hcard := congrArg Multiset.card hrows
  rw [Option.some.inj h₁, Multiset.card_cons] at hcard
  omega

end Changes

/-! ## `RelCatalog::removeInfo` -/

/-- `removeInfo` removes the tuple with the name and returns `OK`, or there is none, it returns
`RELNOTFOUND` and nothing changes; `destroyRel`, which calls it, goes no further then. -/
structure RemovesInfo (s : Sys) (v : View) (H : Heap) (u : RelCatalog.Unset) (relation : Bytes) :
    Prop where
  present : ∀ b, H.contents.find? (hasName relation) = some b → ∃ N, ∀ fuel, N ≤ fuel → ∃ s',
    Yields (RelCatalog.removeInfo fuel u.status u.ret relation) s .OK false s' ∧
      RemovedFrom v RELCATNAME H b s'
  absent : H.contents.find? (hasName relation) = none → ∃ N, ∀ fuel, N ≤ fuel → ∃ s',
    Yields (RelCatalog.removeInfo fuel u.status u.ret relation) s .RELNOTFOUND false s' ∧
      KeptFiles v s' ∧
      (¬IsCatalog relation → Yields (RelCatalog.destroyRel fuel u relation) s .RELNOTFOUND false s')

/-- A name whose size is not a positive `int` does not fit into a tuple. -/
theorem maxname_le_of_cSize {relation : Bytes} (hnul : (0 : UInt8) ∉ relation)
    (hpos : ¬1 ≤ cSize relation) : MAXNAME ≤ relation.length := by
  by_contra hshort
  have hname : IsName relation := ⟨hnul, by unfold MAXNAME at hshort; omega⟩
  rw [hname.cSize] at hpos
  omega

section RemoveInfo

variable {s : Sys} {P : Multiset Pin} {v : View} {fv : FileView} {H : Heap} {relation : Bytes}
  {T : Prop}

/-- A call with a name whose size is not a positive `int`. -/
theorem RelCatalog.removeInfo_refused (fuel : Nat) {ret : Status} (hc : Coh s P v)
    (hH : IsHeap v RELCATNAME fv H) (hneg : cSize relation < 1) (hne : relation ≠ [])
    (hT : T → 2 ≤ freeFrames v.numBufs P) :
    Clean T (removeInfo fuel .OK ret relation) s fun st _ => st = .BADSCANPARM := by
  unfold removeInfo
  rw [if_neg hne]
  refine (new_streams hc hH hT).bind ?_
  rintro ⟨st, h⟩ s₁ -
  dsimp only
  rw [if_neg fun hn => hn rfl, startScan_refused hneg]
  dsimp only
  rw [if_pos nofun, clean_pure]

/-- For every content of `relcat` and every name: `removeInfo` is decided by the catalog exactly if
its local `status` happens to be `OK`, and the tuple is there or the value that it returns without a
`return` happens to be `RELNOTFOUND`. -/
theorem RelCatalog.removesInfo_iff {u : Unset} (hc : Coh s P v) (hH : IsHeap v RELCATNAME fv H)
    (htuples : H.Tuples 36) (hnul : (0 : UInt8) ∉ relation) (hne : relation ≠ [])
    (hframes : 2 ≤ s.freeFrames) :
    RemovesInfo s v H u relation ↔ u.status = .OK ∧
      ((∃ b ∈ H.contents, cstr b = relation) ∨ u.ret = .RELNOTFOUND ∧ 1 ≤ cSize relation) := by
  rw [hc.freeFrames_eq] at hframes
  have hpresent : (∃ b ∈ H.contents, cstr b = relation) ↔
      H.contents.find? (hasName relation) ≠ none := by
    rw [Ne, List.find?_eq_none]
    push Not
    exact exists_congr fun b => and_congr_right fun _ => decide_eq_true_iff.symm
  rw [hpresent]
  by_cases hstatus : u.status = .OK
  swap
  · -- nothing is looked for
    refine iff_of_false (fun h => ?_) fun h => hstatus h.1
    have hunset (fuel : Nat) : Clean True (removeInfo fuel u.status u.ret relation) s _ :=
      removeInfo_unset fuel hc hH hne hstatus fun _ => hframes
    cases hfind : H.contents.find? (hasName relation) with
    | some b =>
      obtain ⟨N, hN⟩ := h.present b hfind
      obtain ⟨s', hy, hremoved⟩ := hN N (le_refl N)
      obtain ⟨-, P', v', hread⟩ := (hunset N).of_yields hy
      exact hread.keptFiles.not_removedFrom hH hremoved
    | none =>
      obtain ⟨N, hN⟩ := h.absent hfind
      obtain ⟨s', hy, -⟩ := hN N (le_refl N)
      obtain ⟨hst, -⟩ := (hunset N).of_yields hy
      cases hst
  rw [and_iff_right hstatus]
  by_cases hpos : 1 ≤ cSize relation
  swap
  · -- a name that `startScan` refuses is in no tuple
    have hnone := htuples.find?_long (maxname_le_of_cSize hnul hpos)
    refine iff_of_false (fun h => ?_) fun h => h.elim (fun hn => hn hnone) fun hn => hpos hn.2
    obtain ⟨N, hN⟩ := h.absent hnone
    obtain ⟨s', hy, -⟩ := hN N (le_refl N)
    rw [hstatus] at hy
    cases (removeInfo_refused (T := True) N hc hH (not_le.mp hpos) hne fun _ =>
      hframes).of_yields hy
  obtain ⟨N, hN⟩ : ∃ N,
    ((H.select (satisfies 0 (cSize relation) .STRING (some (relation ++ [0])) .EQ)
    H.rids).map Prod.snd).findIdx (hasName relation) + H.rids.length + H.pages.length + 1 =
    N := ⟨_, rfl⟩
  have hspec (fuel : Nat) : Clean (N ≤ fuel) (removeInfo fuel .OK u.ret relation) s _ :=
    removeInfo_filter fuel hc hH htuples hnul hpos hne fun hfuel => ⟨hframes, hN ▸ hfuel⟩
  cases hfind : H.contents.find? (hasName relation) with
  | some b =>
    refine iff_of_true ⟨fun b' hb' => ?_, fun hn => ?_⟩ (Or.inl nofun)
    · cases hfind.symm.trans hb'
      refine ⟨N, fun fuel hfuel => ?_⟩
      obtain ⟨st, s', hy, P', v', hleaves, hcase⟩ := (hspec fuel).exists hfuel
      rw [hfind] at hcase
      obtain ⟨rfl, fv', H', hH', -, -, -, hrows⟩ := hcase
      rw [hstatus]
      exact ⟨s', hy, hleaves.removedFrom hH' hrows⟩
    · rw [hfind] at hn
      cases hn
  | none =>
    rw [or_iff_right (not_not.mpr rfl), and_iff_left hpos]
    constructor
    · intro h
      obtain ⟨N, hN⟩ := h.absent hfind
      obtain ⟨s', hy, -⟩ := hN N (le_refl N)
      rw [hstatus] at hy
      obtain ⟨P', v', -, hcase⟩ := (hspec N).of_yields hy
      rw [hfind] at hcase
      exact hcase.1.symm
    · intro hret
      refine ⟨fun b hb => ?_, fun _ => ⟨N, fun fuel hfuel => ?_⟩⟩
      · rw [hfind] at hb
        cases hb
      obtain ⟨st, s', hy, P', v', hleaves, hcase⟩ := (hspec fuel).exists hfuel
      rw [hfind] at hcase
      obtain ⟨rfl, hfile⟩ := hcase
      rw [hret] at hy
      rw [hstatus, hret]
      refine ⟨s', hy, ⟨P', v', hleaves.coh, hfile⟩, fun hcatalog => ?_⟩
      unfold destroyRel
      rw [if_neg fun h => h.elim hne hcatalog, hstatus, hret]
      exact hy.bind (d := false) (Yields.pure _ _)

end RemoveInfo

/-- A relation has been created: it is removed if the local `status` happens to be `OK`. That there
is no other one is not what the call returns, unless the value without a `return` happens to say
so. -/
theorem removesInfo_iff_created : ∃ s₀ s v H, NewSession (fun _ => none) s₀ ∧
    (CatalogCall.createRel [65] 1 [oneAttr]).Step s₀ .OK false s ∧
    RemovesInfo s v H ⟨.OK, .OK, .OK, .OK⟩ [65] ∧ ¬RemovesInfo s v H ⟨.OK, .OK, .OK, .OK⟩ [67] ∧
    RemovesInfo s v H ⟨.OK, .RELNOTFOUND, .OK, .OK⟩ [67] := by
  obtain ⟨s₀, s, h₀, hstep, ⟨⟨P, v, fv, H, fvA, HA, hd, -⟩, -⟩, hframes⟩ := exists_created
  have hiff (u : RelCatalog.Unset) {c : UInt8} (hc : (0 : UInt8) ∉ [c]) :=
    RelCatalog.removesInfo_iff (u := u) hd.coh hd.catalogs.relcat hd.catalogs.relTuples hc
      (List.cons_ne_nil c []) (le_trans (by decide) hframes)
  have hlisted : ∃ b ∈ H.contents, cstr b = [65] := by
    obtain ⟨b, hb, hname⟩ := hd.lists.mem_names.mp (show [65] ∈ names _ from List.mem_cons_self)
    exact ⟨b, hb, of_decide_eq_true hname⟩
  have hunlisted : ¬∃ b ∈ H.contents, cstr b = [67] := by
    rintro ⟨b, hb, hname⟩
    have hmem := hd.lists.mem_names.mpr ⟨b, hb, decide_eq_true hname⟩
    exact absurd hmem (by decide)
  refine ⟨s₀, s, v, H, h₀, hstep, (hiff _ (by decide)).mpr ⟨rfl, Or.inl hlisted⟩, fun h => ?_,
    (hiff _ (by decide)).mpr ⟨rfl, Or.inr ⟨rfl, by decide⟩⟩⟩
  rcases ((hiff _ (by decide)).mp h).2 with h | h
  · exact hunlisted h
  · exact absurd h.1 nofun

/-- With another value of the local `status` the call returns `OK`, although there is no such
relation. -/
theorem not_removesInfo_unset : ∃ s v fv H P, NewSession (fun _ => none) s ∧ Coh s P v ∧
    IsHeap v RELCATNAME fv H ∧ H.Tuples 36 ∧
    ¬RemovesInfo s v H ⟨.FILEEOF, .RELNOTFOUND, .OK, .OK⟩ [65] := by
  obtain ⟨s, h₀⟩ : ∃ s, NewSession (fun _ => none) s := exists_newSession rfl rfl
  obtain ⟨P, v, fv, H, fvA, HA, h, hframes, -, hunlisted⟩ := h₀.catalogsAt
  refine ⟨s, v, fv, H, P, h₀, h.coh, h.catalogs.relcat, h.catalogs.relTuples, fun hremoves => ?_⟩
  have hnone : H.contents.find? (hasName [65]) = none := by
    rw [List.find?_eq_none]
    intro b hb hname
    exact hunlisted ((h.catalogs.listed_iff h.coh).mpr ⟨b, hb, hname⟩)
  obtain ⟨N, hN⟩ := hremoves.absent hnone
  obtain ⟨s', hy, -⟩ := hN N (le_refl N)
  have hfree := h.coh.freeFrames_eq ▸ hframes
  obtain ⟨hst, -⟩ := (RelCatalog.removeInfo_unset (T := True) N h.coh h.catalogs.relcat
    (List.cons_ne_nil 65 []) (show Status.FILEEOF ≠ .OK from nofun) fun _ => by omega).of_yields hy
  cases hst

/-! ## `AttrCatalog::removeInfo` -/

/-- `removeInfo` returns. It removes the tuple of the attribute and returns `OK`, or there is none,
it returns an error and nothing changes. -/
def RemovesAttr (s : Sys) (v : View) (H : Heap) (junk : AttrDesc)
    (relation attrName : Bytes) : Prop :=
  ∃ N, ∀ fuel, N ≤ fuel → ∃ st s',
    Yields (AttrCatalog.removeInfo fuel junk relation attrName) s st false s' ∧
      match H.contents.find? (hasNames relation attrName) with
      | some b => st = .OK ∧ RemovedFrom v ATTRCATNAME H b s'
      | none => st ≠ .OK ∧ KeptFiles v s'

section RemoveAttr

variable {T : Prop} {s : Sys} {P R : Multiset Pin} {v : View} {nm : FileName} {c : Int}
  {sat : Bytes → Bool} {fv : FileView} {H : Heap} {h : HeapFileScan} {x : Pin}
  {rid : RID} {b : Bytes} {l : List (RID × Bytes)} {relation attrName : Bytes} {junk : AttrDesc}

/-- The loop of `removeInfo` ends in its first round or never. -/
theorem AttrCatalog.removeLoop_spec (fuel : Nat) (hs : Streams T R v nm c sat s h fv H x l)
    (hr : OnRecord h H rid b) (htuples : H.AttrTuples) (hjunk : junk.Sized)
    {T' : Prop} (hT : T' → cstr (b.drop MAXNAME) = attrName ∧ 1 ≤ fuel) :
    Clean T' (removeLoop attrName fuel h junk) s fun early s' =>
      cstr (b.drop MAXNAME) = attrName ∧ early = none ∧ s' = s := by
  induction fuel generalizing junk with
  | zero => exact Clean.failure fun ht => absurd (hT ht).2 (Nat.not_succ_le_zero _)
  | succ fuel ih =>
    have hb76 := (htuples.tuples _ _ hr.record).1
    obtain ⟨rec, hget, hlen, hcopy, -⟩ := copyRecord_spec hs hr
    unfold removeLoop
    rw [clean_bind_of_yields hget]
    dsimp only
    rw [if_neg fun hn => hn rfl, hlen, clean_bind_of_yields (hcopy b.length le_rfl),
      List.take_length,
      memcpy_eq (by rw [AttrDesc.length_bytes hjunk, hb76]), clean_ofOption_some_bind,
      htuples.cString hr.record, clean_ofOption_some_bind]
    by_cases hname : cstr (b.drop MAXNAME) = attrName
    · rw [if_pos hname, clean_pure]
      exact ⟨hname, rfl, rfl⟩
    · -- the next round does the same
      rw [if_neg hname]
      exact ih (htuples.sized hr.record) fun ht => absurd (hT ht).1 hname

/-- `removeInfo` deletes the first tuple that passes its filter, if that has the name. -/
theorem AttrCatalog.removeInfo_spec (fuel : Nat) (hc : Coh s P v) (hH : IsHeap v ATTRCATNAME fv H)
    (htuples : H.AttrTuples) (hpos : 1 ≤ cSize relation) (hne : relation ≠ [])
    (hne' : attrName ≠ []) (hjunk : junk.Sized)
    (hT : T → 2 ≤ freeFrames v.numBufs P ∧ H.rids.length + H.pages.length + 1 ≤ fuel ∧
      ∀ b, H.contents.find? (satisfies 0 (cSize relation) .STRING (some (relation ++ [0])) .EQ) =
        some b → cstr (b.drop MAXNAME) = attrName) :
    Clean T (removeInfo fuel junk relation attrName) s fun st s' =>
      match H.contents.find? (satisfies 0 (cSize relation) .STRING
        (some (relation ++ [0])) .EQ) with
      | some b => cstr (b.drop MAXNAME) = attrName ∧ st = .OK ∧ RemovedFrom v ATTRCATNAME H b s'
      | none => st = .RELNOTFOUND ∧ KeptFiles v s' := by
  unfold removeInfo
  rw [if_neg fun h => h.elim hne hne']
  refine (new_scanFilter hc hH hpos fun ht => (hT ht).1).bind ?_
  rintro ⟨st, h⟩ s₁ ⟨hst, h', x, hstart, hx, hlater, hs, hclean⟩
  dsimp only at hst hstart ⊢
  subst hst
  rw [if_neg fun hn => hn rfl, hstart]
  dsimp only
  rw [if_neg fun hn => hn rfl]
  refine (hs.next_clean fuel hclean fun ht => ?_).bind ?_
  · have := hT ht
    have := freeFrames_cons v.numBufs x P
    show 0 < freeFrames v.numBufs _ ∧ _
    omega
  rintro ⟨st, rid, h₂⟩ s₂ ⟨hclean₂, hs₂, hnext⟩
  dsimp only at hclean₂ hs₂ hnext ⊢
  rw [Heap.find?_contents] at hT ⊢
  generalize H.select _ H.rids = l at hnext hT ⊢
  cases hnext with
  | eof =>
    rw [if_neg nofun]
    obtain ⟨s₃, h₃, hend, hc₃⟩ := hs₂.endScan_clean hclean₂
    rw [clean_bind_of_yields hend, clean_pure]
    exact ⟨rfl, (hasRead_of_endScan hc₃ hH hlater hx (hs₂.header.file.trans hs₂.filePtr)).keptFiles⟩
  | @record rid b l hr =>
    rw [if_pos rfl]
    refine (removeLoop_spec fuel hs₂ hr htuples hjunk fun ht => ?_).bind ?_
    · obtain ⟨-, hfuel, hname⟩ := hT ht
      exact ⟨hname b rfl, by omega⟩
    rintro early s₃ ⟨hname, rfl, rfl⟩
    obtain ⟨s₄, fv', H', hdel, hs₄, htuples', -, hpages, hrows, -⟩ :=
      hs₂.delete_rows hr htuples.tuples
    dsimp only
    rw [clean_bind_of_yields hdel]
    dsimp only
    obtain ⟨s₅, h₅, fv'', hend, hfor, -, hc₅⟩ := hs₄.endScan
    rw [clean_bind_of_yields hend, clean_pure]
    refine ⟨hname, rfl, _, _, fv'', H', hc₅, ⟨hH.name, View.file_setFile_self,
      hfor.heapAt hs₄.heapAt, hs₄.sized, hlater.pos _ hH.opened⟩, hrows, fun nm' hnm => ?_⟩
    exact View.file_setFile_of_ne hnm

/-- A call with a name whose size is not a positive `int`. -/
theorem AttrCatalog.removeInfo_refused (fuel : Nat) (hc : Coh s P v)
    (hH : IsHeap v ATTRCATNAME fv H) (hneg : cSize relation < 1) (hne : relation ≠ [])
    (hne' : attrName ≠ []) (hT : T → 2 ≤ freeFrames v.numBufs P) :
    Clean T (removeInfo fuel junk relation attrName) s fun st s' => st = .BADSCANPARM ∧
    KeptFiles v s' := by
  unfold removeInfo
  rw [if_neg fun h => h.elim hne hne']
  refine (new_scanAll hc hH hT).bind ?_
  rintro ⟨st, h⟩ s₁ ⟨hst, h', x, -, hx, hlater, hs, hclean⟩
  dsimp only at hst ⊢
  subst hst
  rw [if_neg fun hn => hn rfl, startScan_refused hneg]
  dsimp only
  rw [if_pos nofun, clean_pure]
  obtain ⟨P', hread⟩ := hasRead_of_abandon hs hH hlater hx hclean
  exact ⟨rfl, hread.keptFiles⟩

/-- The tuple of the attribute is the first one that passes the filter for its relation, or comes
after it. -/
theorem Heap.Tuples.find?_hasNames {n : Nat} (htuples : H.Tuples n) {o : Option Bytes}
    (hfind : H.contents.find?
      (satisfies 0 (cSize relation) .STRING (some (relation ++ [0])) .EQ) = o)
    (hnames : ∀ b, o = some b → hasNames relation attrName b = true) :
    H.contents.find? (hasNames relation attrName) = o := by
  have hpass : ∀ b ∈ H.contents, hasNames relation attrName b = true →
      satisfies 0 (cSize relation) .STRING (some (relation ++ [0])) .EQ b = true := by
    intro b hb hn
    unfold hasNames at hn
    rw [Bool.and_eq_true] at hn
    exact htuples.passes b hb hn.1
  cases o with
  | none =>
    rw [List.find?_eq_none] at hfind ⊢
    exact fun b hb hn => hfind b hb (hpass b hb hn)
  | some b =>
    obtain ⟨-, as, bs, heq, hfirst⟩ := List.find?_eq_some_iff_append.mp hfind
    refine List.find?_eq_some_iff_append.mpr ⟨hnames b rfl, as, bs, heq, fun a ha => ?_⟩
    rw [Bool.not_eq_true']
    by_contra hn
    have hmem : a ∈ H.contents := heq ▸ List.mem_append_left _ ha
    have hno := hfirst a ha
    rw [hpass a hmem (Bool.not_eq_false _ ▸ hn)] at hno
    cases hno

/-- What passes the filter for a name has it. -/
theorem Heap.Tuples.hasName_of_passes {n : Nat} (htuples : H.Tuples n) (hname : IsName relation)
    (hb : b ∈ H.contents)
    (hpass : satisfies 0 (cSize relation) .STRING (some (relation ++ [0])) .EQ b = true) :
    hasName relation b = true := (htuples.passes_eq hname hb).symm.trans hpass

theorem Heap.Tuples.find?_hasNames_long {n : Nat} (htuples : H.Tuples n)
    (hlong : MAXNAME ≤ relation.length) : H.contents.find? (hasNames relation attrName) = none := by
  have hnone := htuples.find?_long hlong
  rw [List.find?_eq_none] at hnone ⊢
  intro b hb hn
  unfold hasNames at hn
  rw [Bool.and_eq_true] at hn
  exact hnone b hb hn.1

/-- For every content of `attrcat` and all names: `removeInfo` returns, and has removed the right
tuple, exactly if the first tuple that passes the filter for the relation is the one it is asked to
remove. -/
theorem AttrCatalog.removesAttr_iff (hc : Coh s P v) (hH : IsHeap v ATTRCATNAME fv H)
    (htuples : H.AttrTuples) (hnul : (0 : UInt8) ∉ relation) (hne : relation ≠ [])
    (hne' : attrName ≠ []) (hjunk : junk.Sized) (hframes : 2 ≤ s.freeFrames) :
    RemovesAttr s v H junk relation attrName ↔ (1 ≤ cSize relation → ∀ b,
      H.contents.find? (satisfies 0 (cSize relation) .STRING (some (relation ++ [0])) .EQ) =
      some b →
        hasNames relation attrName b = true) := by
  rw [hc.freeFrames_eq] at hframes
  by_cases hpos : 1 ≤ cSize relation
  swap
  · refine iff_of_true ?_ fun h => absurd h hpos
    refine ⟨0, fun fuel _ => ?_⟩
    have hrefused : Clean True (removeInfo fuel junk relation attrName) s _ :=
      removeInfo_refused fuel hc hH (not_le.mp hpos) hne hne' fun _ => hframes
    obtain ⟨st, s', hy, rfl, hsame⟩ := hrefused.exists trivial
    rw [htuples.tuples.find?_hasNames_long (maxname_le_of_cSize hnul hpos)]
    exact ⟨_, s', hy, nofun, hsame⟩
  rw [forall_prop_of_true hpos]
  constructor
  · rintro ⟨N, hN⟩ b hfind
    obtain ⟨st, s', hy, hcase⟩ := hN N (le_refl N)
    have hspec := (removeInfo_spec (T := False) N hc hH htuples hpos hne hne' hjunk
      False.elim).of_yields hy
    rw [hfind] at hspec
    obtain ⟨hname, rfl, -⟩ := hspec
    cases hnames : H.contents.find? (hasNames relation attrName) with
    | none =>
      rw [hnames] at hcase
      exact absurd rfl hcase.1
    | some b' =>
      -- there is a tuple of the relation, so that its name is short
      have hshort : ¬MAXNAME ≤ relation.length := by
        intro hlong
        rw [htuples.tuples.find?_hasNames_long hlong] at hnames
        cases hnames
      have hisName : IsName relation := ⟨hnul, by unfold MAXNAME at hshort; omega⟩
      unfold hasNames
      rw [Bool.and_eq_true]
      exact ⟨htuples.tuples.hasName_of_passes hisName (List.mem_of_find?_eq_some hfind)
        (List.find?_some hfind), decide_eq_true hname⟩
  · intro hnames
    refine ⟨H.rids.length + H.pages.length + 1, fun fuel hfuel => ?_⟩
    have hspec := removeInfo_spec (T := True) fuel hc hH htuples hpos hne hne' hjunk fun _ =>
      ⟨hframes, hfuel, fun b hb => of_decide_eq_true (Bool.and_eq_true _ _ ▸ hnames b hb).2⟩
    obtain ⟨st, s', hy, hcase⟩ := hspec.exists trivial
    rw [htuples.tuples.find?_hasNames rfl hnames]
    refine ⟨st, s', hy, ?_⟩
    cases hfind : H.contents.find? (satisfies 0 (cSize relation) .STRING
      (some (relation ++ [0])) .EQ) with
    | none =>
      rw [hfind] at hcase
      exact ⟨by rw [hcase.1]; exact nofun, hcase.2⟩
    | some b =>
      rw [hfind] at hcase
      exact hcase.2

end RemoveAttr

/-! ### The tuples of a new database -/

section Lists

variable {H HA : Heap} {fvA : FileView} {C : List Relation} {s : Sys}

theorem Lists.decode_mem (h : Lists H HA C) {b : Bytes} (hb : b ∈ HA.contents) :
    AttrDesc.decode b ∈ C.flatMap Relation.attrDescs := by
  have hmem : AttrDesc.decode b ∈ HA.rows.map AttrDesc.decode :=
    Multiset.mem_map_of_mem _ (Multiset.mem_coe.mpr hb)
  rwa [h.attr, Multiset.mem_coe] at hmem

/-- Names of attributes that are short enough are C strings in their arrays. -/
theorem Lists.attrTuples (h : Lists H HA C) (hHA : HeapAt fvA HA) (htuples : HA.Tuples 76)
    (hshort : ∀ d ∈ C.flatMap Relation.attrDescs, d.attrName.length < MAXNAME) : HA.AttrTuples := by
  refine ⟨htuples, fun rid b hb => ?_⟩
  have hlt := hshort _ (h.decode_mem ((Heap.mem_rows hHA).mpr ⟨rid, hb⟩))
  by_contra hnul
  -- without a 0 the whole array would be the name
  have hname : (AttrDesc.decode b).attrName = (b.drop MAXNAME).take MAXNAME := cstr_eq_self hnul
  rw [hname, List.length_take, List.length_drop, (htuples rid b hb).1] at hlt
  exact absurd hlt (by decide)

/-- The name of the attribute in a tuple. -/
theorem Heap.AttrTuples.attrName (h : HA.AttrTuples) (hHA : HeapAt fvA HA) {b : Bytes}
    (hb : b ∈ HA.rows) :
    (AttrDesc.decode b).attrName = cstr (b.drop MAXNAME) := by
  obtain ⟨rid, hrid⟩ := (Heap.mem_rows hHA).mp hb
  exact cstr_take (h.nul rid b hrid)

/-- `attrcat` as `dbcreate` has left it. -/
theorem NewSession.attrcat (h : NewSession (fun _ => none) s) : ∃ P v fvA HA, Coh s P v ∧
    IsHeap v ATTRCATNAME fvA HA ∧ HA.AttrTuples ∧ 3 ≤ s.freeFrames ∧
    ∃ H, Lists H HA (relations []) := by
  obtain ⟨P, v, fv, H, fvA, HA, hd, -, -, hframes⟩ := h.database
  refine ⟨P, v, fvA, HA, hd.coh, hd.catalogs.attrcat, ?_, hd.coh.freeFrames_eq ▸ by
    omega, H, hd.lists⟩
  exact hd.lists.attrTuples hd.catalogs.attrcat.heapAt hd.catalogs.attrTuples (by decide)

end Lists

/-- The catalogs after `createRel` of a relation with one attribute. -/
theorem exists_attrcat : ∃ s₀ s P v fvA HA H, NewSession (fun _ => none) s₀ ∧
    (CatalogCall.createRel [65] 1 [oneAttr]).Step s₀ .OK false s ∧ Coh s P v ∧
    IsHeap v ATTRCATNAME fvA HA ∧ HA.AttrTuples ∧ 95 ≤ s.freeFrames ∧
    Lists H HA (relations [⟨.createRel [65] 1 [oneAttr], .OK, false⟩]) := by
  obtain ⟨s₀, s, h₀, hstep, ⟨⟨P, v, fv, H, fvA, HA, hd, -⟩, -⟩, hframes⟩ := exists_created
  exact ⟨s₀, s, P, v, fvA, HA, H, h₀, hstep, hd.coh, hd.catalogs.attrcat,
    hd.lists.attrTuples hd.catalogs.attrcat.heapAt hd.catalogs.attrTuples (by decide),
    hframes, hd.lists⟩

section Created

variable {H HA : Heap} {fvA : FileView}

/-- Its attribute has a tuple. -/
theorem Lists.exists_hasNames
    (h : Lists H HA (relations [⟨.createRel [65] 1 [oneAttr], .OK, false⟩])) (hHA : HeapAt fvA HA)
    (htuples : HA.AttrTuples) : ∃ b ∈ HA.contents, hasNames [65] [66] b = true := by
  have hmem : (⟨[65], [66], 0, 0, 4⟩ : AttrDesc) ∈ HA.rows.map AttrDesc.decode := by
    rw [h.attr]
    decide
  obtain ⟨b, hb, hdecode⟩ := Multiset.mem_map.mp hmem
  have hname := htuples.tuples.named hHA hb
  have hattr := htuples.attrName hHA hb
  rw [hdecode] at hname hattr
  exact ⟨b, Multiset.mem_coe.mp hb,
    (Bool.and_eq_true _ _).mpr ⟨decide_eq_true hname.symm, decide_eq_true hattr.symm⟩⟩

/-- It has no other attribute. -/
theorem Lists.attrName_of_hasName
    (h : Lists H HA (relations [⟨.createRel [65] 1 [oneAttr], .OK, false⟩])) (hHA : HeapAt fvA HA)
    (htuples : HA.AttrTuples) {b : Bytes} (hb : b ∈ HA.contents) (hname : cstr b = [65]) :
    cstr (b.drop MAXNAME) = [66] := by
  have hall : ∀ d ∈ (relations [⟨.createRel [65] 1 [oneAttr], .OK, false⟩]).flatMap
    Relation.attrDescs,
      d.relName = [65] → d.attrName = [66] := by decide
  have hb' := Multiset.mem_coe.mpr hb
  rw [← htuples.attrName hHA hb']
  exact hall _ (h.decode_mem hb) ((htuples.tuples.named hHA hb').trans hname)

end Created

/-- The tuple of the attribute is removed; for an attribute that the relation does not have, the
call does not return. -/
theorem removesAttr_iff_created : ∃ s₀ s v HA, NewSession (fun _ => none) s₀ ∧
    (CatalogCall.createRel [65] 1 [oneAttr]).Step s₀ .OK false s ∧
    RemovesAttr s v HA AttrDesc.zero [65] [66] ∧ (HA.contents.find? (hasNames [65] [66])).isSome ∧
    ¬RemovesAttr s v HA AttrDesc.zero [65] [67] := by
  obtain ⟨s₀, s, P, v, fvA, HA, H, h₀, hstep, hc, hH, htuples, hframes, hlists⟩ := exists_attrcat
  obtain ⟨b, hb, hnames⟩ := hlists.exists_hasNames hH.heapAt htuples
  have hiff (c : UInt8) : RemovesAttr s v HA AttrDesc.zero [65] [c] ↔ _ :=
    AttrCatalog.removesAttr_iff hc hH htuples (by decide) (List.cons_ne_nil 65 [])
    (List.cons_ne_nil c [])
      AttrDesc.sized_zero (le_trans (by decide) hframes)
  have hname : IsName [65] := ⟨by decide, by decide⟩
  refine ⟨s₀, s, v, HA, h₀, hstep, (hiff 66).mpr fun _ b hfind => ?_, ?_, fun h => ?_⟩
  · have hb := List.mem_of_find?_eq_some hfind
    have hrel := htuples.tuples.hasName_of_passes hname hb (List.find?_some hfind)
    exact (Bool.and_eq_true _ _).mpr
      ⟨hrel, decide_eq_true (hlists.attrName_of_hasName hH.heapAt htuples hb
        (of_decide_eq_true hrel))⟩
  · exact List.find?_isSome.mpr ⟨b, hb, hnames⟩
  · -- the first tuple of the relation is that of its attribute
    have hpass := htuples.tuples.passes b hb ((Bool.and_eq_true _ _).mp hnames).1
    obtain ⟨b', hfind⟩ := Option.isSome_iff_exists.mp (List.find?_isSome.mpr ⟨b, hb, hpass⟩)
    have hrel := (Bool.and_eq_true _ _).mp ((hiff 67).mp h (by decide) b' hfind)
    have hattr := hlists.attrName_of_hasName hH.heapAt htuples (List.mem_of_find?_eq_some hfind)
      (of_decide_eq_true hrel.1)
    rw [of_decide_eq_true hrel.2] at hattr
    exact absurd hattr (by decide)

/-- `relcat` has no attribute `[66]`: the call does not return. -/
theorem not_removesAttr_other : ∃ s v fvA HA P, NewSession (fun _ => none) s ∧ Coh s P v ∧
    IsHeap v ATTRCATNAME fvA HA ∧ HA.AttrTuples ∧
    ¬RemovesAttr s v HA AttrDesc.zero RELCATNAME [66] := by
  obtain ⟨s, h₀⟩ : ∃ s, NewSession (fun _ => none) s := exists_newSession rfl rfl
  obtain ⟨P, v, fvA, HA, hc, hH, htuples, hframes, H, hlists⟩ := h₀.attrcat
  refine ⟨s, v, fvA, HA, P, h₀, hc, hH, htuples, ?_⟩
  rintro ⟨N, hN⟩
  obtain ⟨st, s', hy, -⟩ := hN N (le_refl N)
  have hspec := (AttrCatalog.removeInfo_spec (T := False) N hc hH htuples
    (show 1 ≤ cSize RELCATNAME by decide)
    (show RELCATNAME ≠ [] by decide)
    (List.cons_ne_nil 66 []) AttrDesc.sized_zero False.elim).of_yields hy
  cases hfind : HA.contents.find? (satisfies 0 (cSize RELCATNAME) .STRING
    (some (RELCATNAME ++ [0])) .EQ) with
  | none =>
    -- its own attributes are in `attrcat`
    have hmem : (⟨RELCATNAME, relNameStr, 0, Datatype.code .STRING, 32⟩ : AttrDesc) ∈
        HA.rows.map AttrDesc.decode := by
      rw [hlists.attr]
      decide
    obtain ⟨b, hb, hdecode⟩ := Multiset.mem_map.mp hmem
    have hname := htuples.tuples.named hH.heapAt hb
    rw [hdecode] at hname
    exact List.find?_eq_none.mp hfind b (Multiset.mem_coe.mp hb)
      (htuples.tuples.passes b (Multiset.mem_coe.mp hb) (decide_eq_true hname.symm))
  | some b =>
    rw [hfind] at hspec
    have hb := List.mem_of_find?_eq_some hfind
    have hall : ∀ d ∈ (relations []).flatMap Relation.attrDescs, d.attrName ≠ [66] := by decide
    exact hall _ (hlists.decode_mem hb)
      ((htuples.attrName hH.heapAt (Multiset.mem_coe.mpr hb)).trans hspec.1)

end Minirel
