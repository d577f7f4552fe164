import Minirel.Catalog.Atomic
import Minirel.Catalog.Load

/-!
# Entries without files, and files without entries

`UT_Load` leaves the file of its relation open, and `destroyRel` finds that out when the tuples of
the relation have gone. As long as no such relation is destroyed, the catalogs and the heap files
are in step over any calls of `createRel`, `UT_Load` and `destroyRel`.

## Main definitions

* `CatalogCall.Spares`: the call does not destroy a relation whose file is open.
* `SparingRun`: a run of such calls.
* `EntriesMatchFiles`: a relation is listed exactly if there is its heap file.

## Main results

* `whole_of_sparingRun`: what holds after such a run.
* `not_whole_loaded`: a relation that has been loaded is lost from the catalogs, and its file stays.
-/

namespace Minirel

open Comp HeapFile

/-! ## Runs -/

/-- The strings and arrays of the caller are such as C has them, and the relation that is created is
not the name of another Unix file. -/
def CatalogCall.Fit (unix : FileName → Option UnixFile) : CatalogCall → Prop
  | .createRel relation attrCnt attrList =>
    (CatalogCall.createRel relation attrCnt attrList).Sound unix ∧ attrCnt.toNat ≤ attrList.length
  | .destroyRel relation => IsName relation
  | .load relation _ => IsName relation

/-- The call is refused at once, or the file of the relation that it destroys is not open. -/
def CatalogCall.Spares (s : Sys) : CatalogCall → Prop
  | .createRel _ _ _ => True
  | .destroyRel relation =>
    relation = [] ∨ IsCatalog relation ∨ ¬s.Listed relation ∨ s.openFiles.find relation = none
  | .load _ _ => True

/-- Calls from the state `s₀` that spare the open files. Whenever a call starts there are seven
frames without a pin, or else no call of the buffer manager happens to fail in it. A call does what
it would do if no Unix call failed. -/
inductive SparingRun (unix : FileName → Option UnixFile) (s₀ : Sys) : Sys → Prop
  | start : SparingRun unix s₀ s₀
  | step {s s' : Sys} {call : CatalogCall} {st : Status} {e : Bool} (hrun : SparingRun unix s₀ s)
      (hfit : call.Fit unix) (hspares : call.Spares s) (hframes : 7 ≤ s.freeFrames ∨ e = false)
      (hstep : call.Step s st e s') (hgood : call.Step s.good st e s'.good) : SparingRun unix s₀ s'

/-- The catalogs, themselves included, tell the same as the files. -/
def Consistent (unix : FileName → Option UnixFile) (s : Sys) : Prop :=
  ∃ C, InStep unix s C ∧ ∀ nm, IsCatalog nm → nm ∈ names C

/-- A relation has its heap file as long as it is listed. -/
def EntriesMatchFiles (unix : FileName → Option UnixFile) (s : Sys) : Prop :=
  ∀ nm, unix nm = none →
    (s.Listed nm ∧ ∃ H, s.heap? nm = some H ∧ H.Chained) ∨ (¬s.Listed nm ∧ s.unix nm = none)

section Runs

variable {unix : FileName → Option UnixFile} {s₀ s s' : Sys} {C : List Relation}
  {call : CatalogCall} {relation : Bytes} {st : Status} {e : Bool}

theorem InStep.entriesMatchFiles (h : InStep unix s C) : EntriesMatchFiles unix s := by
  obtain ⟨P, v, fv, H, fvA, HA, hd, hf⟩ := h
  intro nm hunix
  rw [hd.listed_iff]
  by_cases hmem : nm ∈ names C
  · obtain ⟨R, hR, rfl⟩ := List.mem_map.mp hmem
    obtain ⟨fvR, HR, hH⟩ := hf.file R hR
    obtain ⟨H', hH', hchained, -⟩ := hH.exists_heap? hd.coh
    exact Or.inl ⟨hmem, H', hH', hchained⟩
  · exact Or.inr ⟨hmem, hd.coh.absent nm (hf.absent nm hmem) (hf.not_foreign hunix)⟩

/-- A relation that is not listed has no file that could be open. -/
theorem InStep.free (h : InStep unix s C) (hspares : (CatalogCall.destroyRel relation).Spares s) :
    (CatalogCall.destroyRel relation).Free s := by
  obtain ⟨P, v, fv, H, fvA, HA, hd, hf⟩ := h
  have hunlisted : relation ∉ names C → s.openFiles.find relation = none := fun hmem =>
    hd.coh.find_eq_none.mpr (hd.coh.handle_eq_none (hf.absent relation hmem))
  rcases hspares with rfl | hcatalog | hlisted | hclosed
  · refine Or.inr (hunlisted fun hmem => ?_)
    obtain ⟨R, hR, hn⟩ := List.mem_map.mp hmem
    exact (hd.wf R hR).ne_nil hn
  · exact Or.inl hcatalog
  · exact Or.inr (hunlisted fun hmem => hlisted (hd.listed_iff.mpr hmem))
  · exact Or.inr hclosed

/-- With the frames no call of the buffer manager fails. -/
theorem InStep.not_failed (h : InStep unix s C) (hfit : call.Fit unix)
    (hframes : 7 ≤ s.freeFrames ∨ e = false) (hstep : call.Step s st e s') : e = false := by
  refine hframes.elim (fun hfree => ?_) id
  cases call with
  | createRel relation attrCnt attrList => exact h.clean hfit.1 hfit.2 (by omega) hstep
  | destroyRel relation =>
    have hsound : (CatalogCall.destroyRel relation).Sound unix := hfit
    exact h.clean hsound trivial (by omega) hstep
  | load relation fileName => exact h.load_clean hfit hfree hstep

/-- One call. -/
theorem Consistent.step (h : Consistent unix s) (hfit : call.Fit unix) (hspares : call.Spares s)
    (hframes : 7 ≤ s.freeFrames ∨ e = false) (hstep : call.Step s st e s') :
    Consistent unix s' := by
  obtain ⟨C, hin, hall⟩ := h
  obtain rfl := hin.not_failed hfit hframes hstep
  cases call with
  | createRel relation attrCnt attrList =>
    refine ⟨_, (hin.next hall hfit.1 trivial hstep).1, fun nm hnm => ?_⟩
    unfold CatalogCall.after
    dsimp only
    split
    · exact List.mem_cons_of_mem _ (hall nm hnm)
    · exact hall nm hnm
  | destroyRel relation =>
    have hsound : (CatalogCall.destroyRel relation).Sound unix := hfit
    refine ⟨_, (hin.next hall hsound (hin.free hspares) hstep).1, fun nm hnm => ?_⟩
    unfold CatalogCall.after
    dsimp only
    split
    next hok =>
      -- the catalogs cannot be destroyed
      have hne : nm ≠ relation := fun hn => hstep.destroyRel_ne_ok (hn ▸ hnm) hok
      obtain ⟨R, hR, rfl⟩ := List.mem_map.mp (hall nm hnm)
      exact List.mem_map_of_mem (List.mem_filter.mpr ⟨hR, decide_eq_true hne⟩)
    next => exact hall nm hnm
  | load relation fileName => exact ⟨C, hin.load hfit hstep, hall⟩

theorem CatalogCall.spares_good : call.Spares s.good ↔ call.Spares s := by
  cases call with
  | createRel _ _ _ => rfl
  | destroyRel relation =>
    unfold CatalogCall.Spares
    dsimp only
    rw [Sys.listed_good]
    rfl
  | load _ _ => rfl

theorem SparingRun.consistent (h₀ : Consistent unix s₀.good) (hrun : SparingRun unix s₀ s) :
    Consistent unix s.good := by
  induction hrun with
  | start => exact h₀
  | step hrun hfit hspares hframes hstep hgood ih =>
    exact ih.step hfit (CatalogCall.spares_good.mpr hspares) hframes hgood

theorem entriesMatchFiles_good : EntriesMatchFiles unix s.good ↔ EntriesMatchFiles unix s := by
  unfold EntriesMatchFiles
  simp only [Sys.listed_good, Sys.heap?_good]
  rfl

/-- In every state that calls lead to that have spared the open files, the relations that are listed
are those that there are heap files of. The next `destroyRel` is all or nothing exactly if it spares
them too and no failing Unix call keeps it from destroying the file. -/
theorem whole_of_sparingRun (h₀ : Consistent unix s₀.good) (hrun : SparingRun unix s₀ s) :
    EntriesMatchFiles unix s ∧ ∀ fuel u relation st e s', IsName relation → unix relation = none →
      (5 ≤ s.freeFrames ∨ e = false) → Undisturbed (RelCatalog.dropTuples fuel u relation) s →
      Yields (RelCatalog.destroyRel fuel u relation) s st e s' →
      (DestroysWhole relation s st s' ↔ (CatalogCall.destroyRel relation).Spares s ∧
        Undisturbed (RelCatalog.destroyRel fuel u relation) s) := by
  obtain ⟨C, hin, hall⟩ := hrun.consistent h₀
  refine ⟨entriesMatchFiles_good.mp hin.entriesMatchFiles, ?_⟩
  intro fuel u relation st e s' hname hunix hframes hquiet hy
  obtain ⟨P, v, fv, H, fvA, HA, hd, hf⟩ := hin
  have hgood : Yields (RelCatalog.destroyRel fuel u relation) s.good st false s'.good →
      (DestroysWhole relation s st s' ↔ (CatalogCall.destroyRel relation).Spares s) := fun hy' => by
    rw [← destroysWhole_good, ← CatalogCall.spares_good]
    exact hd.destroysWhole_iff hf hname hunix ⟨fuel, u, hy'⟩
  rcases hd.destroyRel_goodOr hf hname hunix hframes hquiet hy with ⟨rfl, hy'⟩ | hnot
  · have hquiet' : Undisturbed (RelCatalog.destroyRel fuel u relation) s := by
      intro a e' t hy₂
      obtain ⟨rfl, rfl, rfl⟩ := hy.unique hy₂
      exact hy'
    rw [hgood hy', and_iff_left hquiet']
  · refine iff_of_false hnot ?_
    rintro ⟨hspares, hquiet'⟩
    have hy' := hquiet' st e s' hy
    have hsound : (CatalogCall.destroyRel relation).Sound unix := hname
    obtain rfl : e = false := hframes.elim
      (fun hfree => InStep.clean ⟨P, v, fv, H, fvA, HA, hd, hf⟩ hsound trivial hfree
        ⟨fuel, u, hy'⟩) id
    exact hnot ((hgood hy').mpr hspares)

/-- If all Unix calls succeed there is nothing to disturb the call. -/
theorem InStep.undisturbed {fuel : Nat} {u : RelCatalog.Unset} (h : InStep unix s C)
    (hname : IsName relation) (hy : Yields (RelCatalog.destroyRel fuel u relation) s st false s') :
    Undisturbed (RelCatalog.dropTuples fuel u relation) s ∧
      Undisturbed (RelCatalog.destroyRel fuel u relation) s := by
  obtain ⟨P, v, fv, H, fvA, HA, hd, hf⟩ := h
  constructor
  · refine undisturbed_of_io hd.coh.io fun r e s₁ hdrop => ?_
    have hspec : Clean False (RelCatalog.dropTuples fuel u relation) s _ :=
      RelCatalog.dropTuples_spec _ hd.coh hd.catalogs hname False.elim
    -- the flag has not been raised in the part
    rw [RelCatalog.destroyRel_eq] at hy
    obtain ⟨r', e₁, t, e₂, hdrop', -, he⟩ := hy.of_bind
    obtain ⟨rfl, rfl, rfl⟩ := hdrop'.unique hdrop
    obtain ⟨P', v', ⟨-, -, -, -, hc⟩ | ⟨-, -, -, -, -, hl, -⟩ | ⟨-, -, hl, -⟩⟩ :=
      (hspec.1 _ _ _ hdrop).2 (Bool.or_eq_false_iff.mp he.symm).1
    · exact hc.io
    · exact hl.coh.io
    · exact hl.coh.io
  · refine undisturbed_of_io hd.coh.io fun a e t ht => ?_
    obtain ⟨rfl, rfl, rfl⟩ := hy.unique ht
    have hspec : Clean False (RelCatalog.destroyRel fuel u relation) s _ :=
      RelCatalog.destroyRel_spec _ hd.coh hd.catalogs hname False.elim
    obtain ⟨P', v', ⟨-, -, -, -, hc⟩ | ⟨-, -, -, -, -, hl, -⟩ | ⟨-, hl, -⟩⟩ := hspec.of_yields hy
    · exact hc.io
    · exact hl.coh.io
    · exact hl.coh.io

end Runs

/-! ## Relations that have been loaded -/

section Loaded

variable {unix : FileName → Option UnixFile} {s : Sys} {C : List Relation} {R : Relation}
  {fileName data : Bytes}

/-- A relation can be loaded, and then its file is open. -/
theorem InStep.exists_load (h : InStep unix s C) (hR : R ∈ C) (hcatalog : ¬IsCatalog R.name)
    (hfile : fileName ≠ []) (hdata : s.dataFile fileName = some data)
    (hwidth : 1 ≤ toInt (sumLen R.attrs) ∧ toInt (sumLen R.attrs) ≤ 1000)
    (hfree : 7 ≤ s.freeFrames) :
    ∃ s', (CatalogCall.load R.name fileName).Step s .OK false s' ∧ s'.openFiles.find R.name ≠ none ∧
      s.freeFrames ≤ s'.freeFrames + 6 := by
  obtain ⟨P, v, fv, H, fvA, HA, hd, hf⟩ := h
  obtain ⟨fvR, HR, hHR⟩ := hf.file R hR
  rw [hd.coh.freeFrames_eq] at hfree ⊢
  have hcall : Runs True (UT_Load (H.rids.length + H.pages.length + 1 + (2 * HA.rids.length +
      HA.pages.length + 1) + (data.length + 1)) .zero .zero .zero R.name fileName) s _ :=
    hd.load (F := True) hR hcatalog hHR _ hfile hdata RelDesc.sized_zero RelDesc.sized_zero
      (fun _ => ⟨hfree, by omega, by omega, by omega⟩) fun _ => ⟨trivial, hwidth.1⟩
  obtain ⟨st, e, s', hy, he, hres⟩ := hcall.exists
  obtain rfl := he trivial
  obtain ⟨P', v', fvR', HR', o, -, hl, -, hHR', hopen, hloaded, rfl⟩ := hres rfl
  have hrows := hloaded.rows
  rw [if_pos (Or.inl hwidth.2)] at hrows
  rw [hrows.1] at hy
  refine ⟨s', ⟨_, _, _, _, RelDesc.sized_zero, RelDesc.sized_zero, hy⟩, fun hnone => ?_, ?_⟩
  · rw [hl.coh.find_eq_none.mp hnone] at hopen
    cases hopen
  · rw [hl.coh.freeFrames_eq]
    exact hl.freeFrames_le

/-- If a relation whose file is open is destroyed, its tuples go and its file stays. -/
theorem InStep.exists_fileopen (h : InStep unix s C) (hR : R ∈ C) (hcatalog : ¬IsCatalog R.name)
    (hunix : unix R.name = none) (hopen : s.openFiles.find R.name ≠ none)
    (hfree : 5 ≤ s.freeFrames) :
    ∃ s', (CatalogCall.destroyRel R.name).Step s .FILEOPEN false s' ∧
      ¬DestroysWhole R.name s .FILEOPEN s' ∧ ¬EntriesMatchFiles unix s' := by
  obtain ⟨P, v, fv, H, fvA, HA, hd, hf⟩ := h
  have hwf := hd.wf R hR
  have hmem : R.name ∈ names C := List.mem_map_of_mem hR
  obtain ⟨fvR, HR, hHR⟩ := hf.file R hR
  rw [hd.coh.freeFrames_eq] at hfree
  have hcall : Clean True (RelCatalog.destroyRel (2 * H.rids.length + H.pages.length + 1 +
      (2 * HA.rids.length + HA.pages.length + 1)) ⟨.OK, .OK, .OK, .OK⟩ R.name) s _ :=
    hd.destroyRel _ hwf.isName fun _ => ⟨hfree, Nat.le_add_right _ _, Nat.le_add_left _ _⟩
  obtain ⟨st, s', hy, P', v', fv', H', fvA', HA', ⟨hbad, -⟩ | ⟨-, hl, hd', hfile⟩⟩ :=
    hcall.exists trivial
  · rcases hbad with hn | hn | hn
    · exact absurd hn hwf.ne_nil
    · exact absurd hn hcatalog
    · exact absurd hmem hn
  have hhandle : (v.handle R.name).isSome := by
    rw [Option.isSome_iff_ne_none]
    exact fun hn => hopen (hd.coh.find_eq_none.mpr hn)
  rw [if_pos hhandle] at hfile
  obtain ⟨rfl, hfile⟩ := hfile
  have hstep : (CatalogCall.destroyRel R.name).Step s .FILEOPEN false s' := ⟨_, _, hy⟩
  refine ⟨s', hstep, fun hwhole => ?_, fun hmatch => ?_⟩
  · rcases (hd.destroysWhole_iff hf hwf.isName hunix hstep).mp hwhole with hn | hn | hn | hn
    · exact hwf.ne_nil hn
    · exact hcatalog hn
    · exact hn (hd.listed_iff.mpr hmem)
    · exact hopen hn
  · rcases hmatch R.name hunix with ⟨hlisted, -⟩ | ⟨-, hgone⟩
    · obtain ⟨R', hR', hn⟩ := List.mem_map.mp (hd'.listed_iff.mp hlisted)
      exact of_decide_eq_true (List.mem_filter.mp hR').2 hn
    · obtain ⟨uf, huf, -⟩ := hl.coh.stored _ _ (hfile.trans hHR.file)
      rw [hgone] at huf
      cases huf

end Loaded

/-! ### A session that loads a relation -/

theorem InStep.withData {unix : FileName → Option UnixFile} {s : Sys} {C : List Relation}
    (h : InStep unix s C) (data : Bytes) : InStep unix (s.withData data) C := by
  obtain ⟨P, v, fv, H, fvA, HA, hd, hf⟩ := h
  exact ⟨P, v, fv, H, fvA, HA, { hd with coh := hd.coh.withData data }, hf⟩

theorem whole_of_sparingRun_one : ∃ s₀ s, NewSession (fun _ => none) s₀ ∧
    (CatalogCall.createRel [65] 1 [oneAttr]).Step s₀ .OK false s ∧
    EntriesMatchFiles (fun _ => none) s ∧
    ∀ st s', (CatalogCall.destroyRel [65]).Step s st false s' → DestroysWhole [65] s st s' := by
  obtain ⟨s₀, s, h₀, hstep, htidy, -⟩ := exists_created
  have hfit : (CatalogCall.createRel [65] 1 [oneAttr]).Fit fun _ => none := by
    refine ⟨⟨by decide, rfl, by decide, fun a ha => ?_⟩, by decide⟩
    rw [List.mem_singleton.mp ha]
    exact ⟨oneAttr_valid, rfl⟩
  have hcons : Consistent (fun _ => none) s₀.good := by
    rw [h₀.tidy.1.good]
    exact ⟨_, h₀.tidy.1, fun nm => IsCatalog.mem_names⟩
  have hgood : (CatalogCall.createRel [65] 1 [oneAttr]).Step s₀.good .OK false s.good := by
    rwa [h₀.tidy.1.good, htidy.1.good]
  have hrun : SparingRun (fun _ => none) s₀ s := .step .start hfit trivial (Or.inr rfl) hstep hgood
  obtain ⟨hmatch, hwhole⟩ := whole_of_sparingRun hcons hrun
  refine ⟨s₀, s, h₀, hstep, hmatch, ?_⟩
  rintro st s' ⟨fuel, u, hy⟩
  obtain ⟨hquiet, hquiet'⟩ := htidy.1.undisturbed ⟨by decide, by decide⟩ hy
  exact (hwhole fuel u [65] st false s' ⟨by decide, by decide⟩ rfl (Or.inr rfl) hquiet hy).mpr
    ⟨Or.inr (Or.inr (Or.inr (htidy.2 [65] (by decide)))), hquiet'⟩

/-- `createRel`, `UT_Load` of an empty file, `destroyRel`: the relation is no longer listed, and its
heap file is there. -/
theorem not_whole_loaded : ∃ s₀ s₁ s₂ s₃, NewSession (fun _ => none) s₀ ∧
    (CatalogCall.createRel [65] 1 [oneAttr]).Step s₀ .OK false s₁ ∧
    Consistent (fun _ => none) (s₁.withData []) ∧
    (CatalogCall.load [65] [66]).Step (s₁.withData []) .OK false s₂ ∧
    (CatalogCall.destroyRel [65]).Step s₂ .FILEOPEN false s₃ ∧
    ¬DestroysWhole [65] s₂ .FILEOPEN s₃ ∧ ¬EntriesMatchFiles (fun _ => none) s₃ := by
  obtain ⟨s₀, s₁, h₀, hcreate, htidy, hframes⟩ := exists_created
  have hin := htidy.1.withData []
  have hR : (⟨[65], [oneAttr]⟩ : Relation) ∈
      relations [⟨.createRel [65] 1 [oneAttr], .OK, false⟩] := List.mem_cons_self
  have hframes' : 95 ≤ (s₁.withData []).freeFrames := hframes
  obtain ⟨s₂, hload, hopen, hle⟩ :
    ∃ s₂, (CatalogCall.load [65] [66]).Step (s₁.withData []) .OK false s₂ ∧
      s₂.openFiles.find [65] ≠ none ∧ (s₁.withData []).freeFrames ≤ s₂.freeFrames + 6 :=
    hin.exists_load hR (by decide) (by decide) rfl (by decide) (by omega)
  obtain ⟨s₃, hdestroy, hwhole, hmatch⟩ :=
    (hin.load ⟨by decide, by decide⟩ hload).exists_fileopen hR (by decide) rfl
    hopen (by omega)
  exact ⟨s₀, s₁, s₂, s₃, h₀, hcreate, ⟨_, hin, fun nm => IsCatalog.mem_names⟩, hload, hdestroy,
    hwhole, hmatch⟩

end Minirel
