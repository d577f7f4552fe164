import Minirel.Catalog.Usable
import Minirel.HeapFile.Disturbed

/-!
# Calls that fail half-way

`createRel` adds its tuples before it tries to create the file, and `destroyRel` deletes its tuples
before it tries to destroy the file; neither takes back what it has done when the file is in the
way or a Unix call fails. Each is all or nothing exactly when the last step cannot be refused.

## Main definitions

* `Sys.relTuples`, `Sys.attrTuples`: the tuples of the catalogs, read off the state.
* `CreatesWhole`, `DestroysWhole`: the call has done all or nothing.

## Main results

* `createRel_whole_iff`: `createRel` is all or nothing, whatever its Unix calls do once it turns to
  the file.
* `Database.destroysWhole_iff`, `Database.destroyRel_goodOr`: the same for `destroyRel`.
-/

namespace Minirel

open Comp HeapFile

/-! ## The tuples of a state -/

namespace Sys

/-- The tuples of `relcat`. -/
def relTuples (s : Sys) : Option (Multiset RelDesc) :=
  (s.heap? RELCATNAME).map fun H => H.rows.map RelDesc.decode

/-- The tuples of `attrcat`. -/
def attrTuples (s : Sys) : Option (Multiset AttrDesc) :=
  (s.heap? ATTRCATNAME).map fun H => H.rows.map AttrDesc.decode

theorem relTuples_of_rows {s : Sys} {rows : Multiset Bytes}
    (h : (s.heap? RELCATNAME).map Heap.rows = some rows) :
    s.relTuples = some (rows.map RelDesc.decode) := by
  have hrows := congrArg (Option.map fun rows => rows.map RelDesc.decode) h
  rw [Option.map_map] at hrows
  exact hrows

theorem attrTuples_of_rows {s : Sys} {rows : Multiset Bytes}
    (h : (s.heap? ATTRCATNAME).map Heap.rows = some rows) :
    s.attrTuples = some (rows.map AttrDesc.decode) := by
  have hrows := congrArg (Option.map fun rows => rows.map AttrDesc.decode) h
  rw [Option.map_map] at hrows
  exact hrows

@[simp]
theorem relTuples_good (s : Sys) : s.good.relTuples = s.relTuples := by
  unfold relTuples
  rw [heap?_good]

@[simp]
theorem attrTuples_good (s : Sys) : s.good.attrTuples = s.attrTuples := by
  unfold attrTuples
  rw [heap?_good]

/-- There is a tuple in `relcat` with the name. -/
def Listed (s : Sys) (relation : Bytes) : Prop :=
  ∃ rel, s.relTuples = some rel ∧ relation ∈ rel.map RelDesc.relName

end Sys

/-- The state has well-formed catalogs, and its files are files of the database. -/
structure CatalogsAt (s : Sys) (P : Multiset Pin) (v : View) (fv : FileView) (H : Heap)
    (fvA : FileView) (HA : Heap) : Prop where
  coh : Coh s P v
  catalogs : Catalogs v fv H fvA HA
  opened : ∀ nm f c, v.handle nm = some (f, c) → 0 < c
  foreign : ∀ nm, ¬v.foreign nm

namespace Sys

theorem listed_good (s : Sys) (relation : Bytes) : s.good.Listed relation ↔ s.Listed relation := by
  unfold Listed
  rw [relTuples_good]

end Sys

section Tuples

variable {s : Sys} {P : Multiset Pin} {v : View} {fv fvA : FileView} {H HA : Heap}
  {relation : Bytes}

theorem Catalogs.relTuples_eq (h : Catalogs v fv H fvA HA) (hc : Coh s P v) :
    s.relTuples = some (H.rows.map RelDesc.decode) := Sys.relTuples_of_rows (h.relcat.heap? hc)

theorem Catalogs.attrTuples_eq (h : Catalogs v fv H fvA HA) (hc : Coh s P v) :
    s.attrTuples = some (HA.rows.map AttrDesc.decode) := Sys.attrTuples_of_rows (h.attrcat.heap? hc)

theorem Catalogs.listed_iff (h : Catalogs v fv H fvA HA) (hc : Coh s P v) :
    s.Listed relation ↔ Known relation H.rows := by
  unfold Sys.Listed
  rw [h.relTuples_eq hc]
  constructor
  · rintro ⟨rel, heq, hmem⟩
    cases heq
    rw [Multiset.map_map] at hmem
    obtain ⟨b, hb, hname⟩ := Multiset.mem_map.mp hmem
    exact ⟨b, hb, decide_eq_true hname⟩
  · rintro ⟨b, hb, hname⟩
    refine ⟨_, rfl, ?_⟩
    rw [Multiset.map_map]
    exact Multiset.mem_map.mpr ⟨b, hb, of_decide_eq_true hname⟩

/-- A heap file of a view, read off the state. -/
theorem IsHeap.exists_heap? {nm : FileName} (h : IsHeap v nm fv H) (hc : Coh s P v) :
    ∃ H', s.heap? nm = some H' ∧ H'.Chained ∧ H.Same H' := by
  obtain ⟨H', hH', hsame⟩ := hc.heap? h.file h.heapAt
  exact ⟨H', hH', (hsame.heapAt h.heapAt).chained, hsame⟩

end Tuples

/-! ## `createRel` -/

section CreateRel

variable {s s' : Sys} {P : Multiset Pin} {v : View} {fv fvA : FileView} {H HA : Heap}
  {relation : Bytes} {attrCnt : Int} {attrList : List AttrInfo} {st : Status} {e : Bool}

/-- What a call of `createRel` does, if there are four frames for it. -/
theorem CatalogsAt.createRel (h : CatalogsAt s P v fv H fvA HA) (hname : (0 : UInt8) ∉ relation)
    (hcnt : IsInt attrCnt) (hattrs : ∀ a ∈ attrList, a.Valid)
    (hdeclared : attrCnt.toNat ≤ attrList.length) (hfree : 4 ≤ s.freeFrames)
    (hstep : (CatalogCall.createRel relation attrCnt attrList).Step s st e s') :
    e = false ∧ ∃ P' v',
      (RefusesSchema relation attrCnt (Known relation H.rows) ∧ st ≠ .OK ∧ st ≠ .FILEEXISTS ∧
        HasRead (· = RELCATNAME) 1 P v s' P' v') ∨
      (¬RefusesSchema relation attrCnt (Known relation H.rows) ∧
        Leaves (fun nm => IsCatalog nm ∨ nm = relation) 1 P v s' P' v' ∧
        (∃ fv' H' fvA' HA', Catalogs v' fv' H' fvA' HA' ∧
          Declares relation attrCnt attrList H H' HA HA') ∧
        match v.file relation with
        | none => st = .OK ∧ v'.handle relation = none ∧ ∃ p q pg fvR, v'.file relation = some fvR ∧
            HeapAt fvR (.fresh relation p q pg)
        | some fvR => st = .FILEEXISTS ∧ (¬IsCatalog relation → v'.file relation = some fvR)) := by
  obtain ⟨fuel, rd, ad, hrd, had, hy⟩ := hstep
  rw [h.coh.freeFrames_eq] at hfree
  have hcall : Clean True
    (RelCatalog.createRel (max fuel (H.rids.length + H.pages.length + 1)) rd ad
      relation attrCnt attrList) s _ :=
    RelCatalog.createRel_spec _ h.coh h.catalogs hname (h.foreign relation)
      (h.opened relation) hrd had
      hcnt hattrs fun _ => ⟨hfree, le_max_right _ _, hdeclared⟩
  obtain ⟨he, P', v', href | ⟨hacc, hl, -, hrest⟩⟩ :=
    hcall.of_extends trivial (RelCatalog.createRel_mono (le_max_left _ _) _ _ _ _ _) hy
  · exact ⟨he, P', v', Or.inl href⟩
  · exact ⟨he, P', v', Or.inr ⟨hacc, hl, hrest⟩⟩

theorem RelCatalog.declare_mono {m n : Nat} (hle : m ≤ n) (rd : RelDesc) (ad : AttrDesc) :
    Extends (declare m rd ad relation attrCnt attrList)
    (declare n rd ad relation attrCnt attrList) :=
  .ite (.refl _) (.ite (.refl _) (.bind (getInfo_mono hle relation rd) fun _ => .refl _))

/-- If all Unix calls succeed there is nothing to disturb the call. -/
theorem CatalogsAt.undisturbed (h : CatalogsAt s P v fv H fvA HA) (hname : (0 : UInt8) ∉ relation)
    (hcnt : IsInt attrCnt) (hattrs : ∀ a ∈ attrList, a.Valid)
    (hdeclared : attrCnt.toNat ≤ attrList.length) (hfree : 4 ≤ s.freeFrames) {fuel : Nat}
    {rd : RelDesc} {ad : AttrDesc} (hrd : rd.Sized) (had : ad.Sized) :
    Undisturbed (RelCatalog.declare fuel rd ad relation attrCnt attrList) s ∧
      Undisturbed (RelCatalog.createRel fuel rd ad relation attrCnt attrList) s := by
  constructor
  · refine undisturbed_of_io h.coh.io fun r e s' hy => ?_
    have hframes : 4 ≤ freeFrames v.numBufs P := h.coh.freeFrames_eq ▸ hfree
    have hdeclare : Clean True
      (RelCatalog.declare (max fuel (H.rids.length + H.pages.length + 1)) rd ad
        relation attrCnt attrList) s _ :=
      RelCatalog.declare_spec _ h.coh h.catalogs hname hrd had hcnt hattrs
        fun _ => ⟨hframes, le_max_right _ _, hdeclared⟩
    obtain ⟨-, P', v', ⟨-, -, hread⟩ | ⟨-, -, hl, -⟩⟩ :=
      hdeclare.of_extends trivial (RelCatalog.declare_mono (le_max_left _ _) _ _) hy
    · exact hread.coh.io
    · exact hl.coh.io
  · refine undisturbed_of_io h.coh.io fun st e s' hy => ?_
    obtain ⟨-, P', v', ⟨-, -, -, hread⟩ | ⟨-, hl, -⟩⟩ :=
      h.createRel hname hcnt hattrs hdeclared hfree ⟨fuel, rd, ad, hrd, had, hy⟩
    · exact hread.coh.io
    · exact hl.coh.io

end CreateRel

/-- The catalogs of a new session in an empty directory. -/
theorem NewSession.catalogsAt {s : Sys} (h : NewSession (fun _ => none) s) :
    ∃ P v fv H fvA HA, CatalogsAt s P v fv H fvA HA ∧ 96 ≤ s.freeFrames ∧
      v.file [65] = none ∧ ¬s.Listed [65] := by
  obtain ⟨P, v, fv, H, fvA, HA, hd, hfiles, hforeign, hframes⟩ := h.database
  refine ⟨P, v, fv, H, fvA, HA, ⟨hd.coh, hd.catalogs, hd.opened, fun nm => ?_⟩,
    hd.coh.freeFrames_eq ▸ hframes, (hfiles [65] (by decide)).1, fun hlisted => ?_⟩
  · rw [hforeign]
    exact Bool.false_ne_true
  · have hmem := hd.lists.mem_names.mpr ((hd.catalogs.listed_iff hd.coh).mp hlisted)
    exact absurd hmem (by decide)

/-- The heap file is as it was. -/
def SameFile (nm : FileName) (s s' : Sys) : Prop :=
  (∀ H, s.heap? nm = some H → ∃ H', s'.heap? nm = some H' ∧ H.Same H') ∧
    (s.unix nm = none → s'.unix nm = none)

/-- The call has returned `OK`, or the catalogs and the file of the relation are as they were. -/
def DestroysWhole (relation : Bytes) (s : Sys) (st : Status) (s' : Sys) : Prop :=
  st ≠ .OK → s'.relTuples = s.relTuples ∧ s'.attrTuples = s.attrTuples ∧ SameFile relation s s'

section DestroyRel

variable {unix : FileName → Option UnixFile} {s s' : Sys} {C : List Relation} {P P' : Multiset Pin}
  {v v' : View} {fv fv' fvA fvA' : FileView} {H H' HA HA' : Heap} {relation : Bytes} {st : Status}
  {e : Bool}

theorem Heap.Same.trans {H₁ H₂ H₃ : Heap} (h : H₁.Same H₂) (h' : H₂.Same H₃) : H₁.Same H₃ :=
  ⟨h'.hdrNo.trans h.hdrNo, h'.hdr.trans h.hdr, h'.pages.trans h.pages,
    fun p hp => (h'.page p (h.pages ▸ hp)).trans (h.page p hp)⟩

theorem Heap.Same.symm {H₁ H₂ : Heap} (h : H₁.Same H₂) : H₂.Same H₁ :=
  ⟨h.hdrNo.symm, h.hdr.symm, h.pages.symm, fun p hp => (h.page p (h.pages ▸ hp)).symm⟩

/-- The tuples that a consistent catalog holds. -/
theorem Database.relTuples_eq (h : Database s C P v fv H fvA HA) :
    s.relTuples = some (C.map Relation.desc : Multiset RelDesc) := by
  rw [h.catalogs.relTuples_eq h.coh, h.lists.rel]

theorem Database.attrTuples_eq (h : Database s C P v fv H fvA HA) :
    s.attrTuples = some (C.flatMap Relation.attrDescs : Multiset AttrDesc) := by
  rw [h.catalogs.attrTuples_eq h.coh, h.lists.attr]

theorem Database.listed_iff (h : Database s C P v fv H fvA HA) :
    s.Listed relation ↔ relation ∈ names C := by
  rw [h.catalogs.listed_iff h.coh, h.lists.mem_names]

/-- A file of the view that is the same later is the same. -/
theorem FilesOf.sameFile (h : FilesOf unix C v) (hc : Coh s P v) (hc' : Coh s' P' v')
    (hforeign : v'.foreign = v.foreign) (hunix : unix relation = none)
    (hfile : v'.file relation = v.file relation) : SameFile relation s s' := by
  have habsent : v.file relation = none → s'.unix relation = none := fun hf =>
    hc'.absent relation (hfile.trans hf) (hforeign ▸ h.not_foreign hunix)
  by_cases hmem : relation ∈ names C
  · obtain ⟨R, hR, rfl⟩ := List.mem_map.mp hmem
    obtain ⟨fvR, HR, hH⟩ := h.file R hR
    obtain ⟨H₁, h₁, hsame₁⟩ := hc.heap? hH.file hH.heapAt
    obtain ⟨H₂, h₂, hsame₂⟩ := hc'.heap? (hfile.trans hH.file) hH.heapAt
    refine ⟨fun H₀ h₀ => ⟨H₂, h₂, ?_⟩, fun hnone => ?_⟩
    · rw [h₁] at h₀
      cases h₀
      exact hsame₁.symm.trans hsame₂
    · obtain ⟨uf, huf, -⟩ := hc.stored _ _ hH.file
      rw [hnone] at huf
      cases huf
  · -- there is no file
    have hnone := hc.absent relation (h.absent relation hmem) (h.not_foreign hunix)
    refine ⟨fun H₀ h₀ => ?_, fun _ => habsent (h.absent relation hmem)⟩
    unfold Sys.heap? at h₀
    rw [hnone] at h₀
    cases h₀

/-- If all Unix calls succeed, `destroyRel` is all or nothing exactly if it refuses the relation or
its file is not open. -/
theorem Database.destroysWhole_iff (hd : Database s C P v fv H fvA HA) (hf : FilesOf unix C v)
    (hname : IsName relation) (hunix : unix relation = none)
    (hstep : (CatalogCall.destroyRel relation).Step s st false s') :
    DestroysWhole relation s st s' ↔
      relation = [] ∨ IsCatalog relation ∨ ¬s.Listed relation ∨
      s.openFiles.find relation = none := by
  obtain ⟨fuel, u, hy⟩ := hstep
  rw [hd.listed_iff, hd.coh.find_eq_none]
  unfold DestroysWhole
  rw [hd.relTuples_eq, hd.attrTuples_eq]
  obtain ⟨P', v', fv', H', fvA', HA', ⟨hbad, hst, hl, hfile, hd'⟩ | ⟨hgood, hl, hd', hfile⟩⟩ :=
    (hd.destroyRel (T := False) fuel hname False.elim).of_yields hy
  · -- the call has been refused
    rw [hd'.relTuples_eq, hd'.attrTuples_eq]
    have hsame : SameFile relation s s' :=
      hf.sameFile hd.coh hl.coh hl.later.foreign hunix (congrFun hfile relation)
    exact ⟨fun _ => hbad.imp_right fun h => h.imp_right Or.inl, fun _ _ => ⟨rfl, rfl, hsame⟩⟩
  rw [hd'.relTuples_eq, hd'.attrTuples_eq]
  by_cases hmem : relation ∈ names C
  · cases hh : v.handle relation with
    | none =>
      rw [hh, if_neg (by decide)] at hfile
      obtain ⟨R, hR, rfl⟩ := List.mem_map.mp hmem
      obtain ⟨fvR, HR, hH⟩ := hf.file R hR
      refine ⟨fun _ => Or.inr (Or.inr (Or.inr rfl)), fun _ hne => absurd (hfile.2 ?_) hne⟩
      rw [hH.file]
      rfl
    | some d =>
      -- the tuples have gone when the file turns out to be open
      rw [hh, if_pos (by rfl)] at hfile
      constructor
      · intro hwhole
        obtain ⟨hrel, -⟩ := hwhole (hfile.1 ▸ nofun)
        have hlen := congrArg Multiset.card (Option.some.inj hrel)
        rw [Multiset.coe_card, Multiset.coe_card, List.length_map, List.length_map] at hlen
        obtain ⟨R, hR, rfl⟩ := List.mem_map.mp hmem
        have hlt : (C.filter fun R' => R'.name ≠ R.name).length < C.length :=
          List.length_filter_lt_length_iff_exists.mpr ⟨R, hR, by simp⟩
        exact absurd hlen hlt.ne
      · rintro (hn | hn | hn | hn)
        · exact absurd (Or.inl hn) hgood
        · exact absurd (Or.inr hn) hgood
        · exact absurd hmem hn
        · cases hn
  · -- there has been no such relation
    refine ⟨fun _ => Or.inr (Or.inr (Or.inl hmem)), fun _ _ => ?_⟩
    rw [filter_name_of_not_mem hmem]
    refine ⟨rfl, rfl, hf.sameFile hd.coh hl.coh hl.later.foreign hunix ?_⟩
    rw [hd.coh.handle_eq_none (hf.absent relation hmem), if_neg (by decide)] at hfile
    rw [hfile.1, hf.absent relation hmem]

theorem destroysWhole_good : DestroysWhole relation s.good st s'.good ↔
    DestroysWhole relation s st s' := by
  unfold DestroysWhole SameFile
  rw [Sys.relTuples_good, Sys.relTuples_good, Sys.attrTuples_good, Sys.attrTuples_good,
    Sys.heap?_good,
    Sys.heap?_good]
  rfl

theorem RelCatalog.dropTuples_mono {m n : Nat} (hle : m ≤ n) (u : Unset) (relation : Bytes) :
    Extends (dropTuples m u relation) (dropTuples n u relation) := by
  refine .ite (.refl _)
    (.bind (removeInfo_mono hle u.status u.ret relation) fun st => .ite (.refl _) ?_)
  exact .bind (AttrCatalog.dropRelation_mono hle u.got u.ended relation) fun st => .refl _

/-- The tuple of a relation that is listed has gone. -/
theorem withoutName_ne {rows : Multiset Bytes} (h : Known relation rows) :
    (withoutName relation rows).map RelDesc.decode ≠ rows.map RelDesc.decode := by
  intro heq
  obtain ⟨b, hb, hname⟩ := h
  have hcard := congrArg Multiset.card heq
  rw [Multiset.card_map, Multiset.card_map] at hcard
  have hall := Multiset.eq_of_le_of_card_le (Multiset.filter_le _ rows) hcard.ge
  rw [← hall] at hb
  exact (Multiset.mem_filter.mp hb).2 hname

/-- A Unix call that fails once the tuples have gone leaves the file. -/
theorem Database.destroyRel_goodOr (hd : Database s.good C P v fv H fvA HA) (hf : FilesOf unix C v)
    (hname : IsName relation) (hunix : unix relation = none) {fuel : Nat} {u : RelCatalog.Unset}
    (hframes : 5 ≤ s.freeFrames ∨ e = false)
    (hquiet : Undisturbed (RelCatalog.dropTuples fuel u relation) s)
    (hy : Yields (RelCatalog.destroyRel fuel u relation) s st e s') :
    (e = false ∧ Yields (RelCatalog.destroyRel fuel u relation) s.good st false s'.good) ∨
      ¬DestroysWhole relation s st s' := by
  rw [RelCatalog.destroyRel_eq] at hy ⊢
  obtain ⟨r, e₁, s₁, e₂, hdrop, hfinish, rfl⟩ := hy.of_bind
  have hgood := hquiet r e₁ s₁ hdrop
  have hspec : Clean (5 ≤ s.freeFrames) (RelCatalog.dropTuples (max fuel (max (2 * H.rids.length +
      H.pages.length + 1) (2 * HA.rids.length + HA.pages.length + 1))) u relation) s.good _ :=
    RelCatalog.dropTuples_spec _ hd.coh hd.catalogs hname fun hfree =>
      ⟨hd.coh.freeFrames_eq ▸ hfree, (le_max_left _ _).trans (le_max_right _ _),
        (le_max_right _ _).trans (le_max_right _ _)⟩
  have hmax := RelCatalog.dropTuples_mono
    (le_max_left fuel (max (2 * H.rids.length + H.pages.length + 1)
    (2 * HA.rids.length + HA.pages.length + 1))) u relation s.good r e₁ s₁.good hgood
  obtain rfl : e₁ = false :=
    hframes.elim (hspec.1 _ _ _ hmax).1 fun he => (Bool.or_eq_false_iff.mp he).1
  have hfinal : ∀ {st : Status}
    {s' : Sys}, Yields (RelCatalog.finishDrop relation r) s₁.good st false s'.good →
      Yields (RelCatalog.dropTuples fuel u relation >>= RelCatalog.finishDrop relation)
        s.good st false
        s'.good := fun h => hgood.bind h
  obtain ⟨P', v', ⟨-, rfl, -⟩ | ⟨-, -, -, rfl, -⟩ |
    ⟨hacc, rfl, hl, fv', H', fvA', HA', hcat, -, -, hrows, -⟩⟩ := (hspec.1 _ _ _ hmax).2 rfl
  · obtain ⟨rfl, rfl, rfl⟩ := yields_pure.mp hfinish
    exact Or.inl ⟨rfl, hfinal (Yields.pure _ _)⟩
  · obtain ⟨rfl, rfl, rfl⟩ := yields_pure.mp hfinish
    exact Or.inl ⟨rfl, hfinal (Yields.pure _ _)⟩
  rcases destroyHeapFile_goodOr relation s₁ st e₂ s' hfinish with ⟨rfl, hfile⟩ | ⟨hst, -,
    hexists, hsame⟩
  · exact Or.inl ⟨rfl, hfinal hfile⟩
  refine Or.inr fun hwhole => ?_
  obtain ⟨hrel, -⟩ := hwhole hst
  -- the file is one of a relation that was listed
  have hcatalog : ¬IsCatalog relation := fun hn => hacc (Or.inr hn)
  have hmem : relation ∈ names C := by
    by_contra hmem
    have habsent : s₁.unix relation = none := hl.coh.absent relation
      ((hl.other relation hcatalog).trans (hf.absent relation hmem))
      (hl.later.foreign ▸ hf.not_foreign hunix)
    rw [habsent] at hexists
    cases hexists
  have hknown : Known relation H.rows := (hd.catalogs.listed_iff hd.coh).mp (hd.listed_iff.mpr hmem)
  have hrows' : (s'.heap? RELCATNAME).map Heap.rows = some H'.rows := by
    rw [hsame, ← Sys.heap?_good, hcat.relcat.heap? hl.coh]
  rw [Sys.relTuples_of_rows hrows', ← Sys.relTuples_good s, hd.catalogs.relTuples_eq hd.coh,
    hrows] at hrel
  exact withoutName_ne hknown (Option.some.inj hrel)

end DestroyRel

end Minirel
