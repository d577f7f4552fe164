import Minirel.Tables.Calls

/-!
# Whole sessions

After any calls the database realizes the tables that a replay of the commands leads to, whatever
the locals of the functions held, which frames the buffer manager has chosen, and how often files
have been left open.

## Main definitions

* `TableRun`: calls from a state, and data files that are written by others.
* `Visible`: what the catalogs and the files of a state tell.

## Main results

* `TableRun.realizes`: a run is a replay of its commands.
* `Realizes.exists_run`: runs come to their end while there are frames.
-/

namespace Minirel

open Comp HeapFile

/-! ## Runs -/

/-- Calls from the state `s₀`, which realizes the tables `db`; the latest command comes first. When
a call starts there are eight frames without a pin, or else no call of the buffer manager happens to
fail in it. Files that can be loaded may be written at any time. -/
inductive TableRun (unix : FileName → Option UnixFile) (db : Tables) (s₀ : Sys) :
    List Command → Sys → Prop
  | start : TableRun unix db s₀ [] s₀
  | step {commands : List Command} {s s' : Sys} {command : Command} {r : Status × Output} {e : Bool}
      (hrun : TableRun unix db s₀ commands s) (hfits : (db.replay commands).Fits unix command)
      (hframes : 8 ≤ s.freeFrames ∨ e = false) (hstep : command.Step s r e s') :
      TableRun unix db s₀ (command :: commands) s'
  | written {commands : List Command} {s : Sys} (dataFile : FileName → Option Bytes)
      (hrun : TableRun unix db s₀ commands s) :
      TableRun unix db s₀ commands { s with dataFile := dataFile }

/-- The catalogs list the relations, a scan of a heap file returns its tuples, and the files that
have been left open are open. -/
structure Visible (unix : FileName → Option UnixFile) (s : Sys) (db : Tables) : Prop where
  relcat : s.relTuples = some (db.relations.map Relation.desc : Multiset RelDesc)
  attrcat : s.attrTuples = some (db.relations.flatMap Relation.attrDescs : Multiset AttrDesc)
  contents : ∀ nm, ¬IsCatalog nm → unix nm = none → s.contents? nm = db.tuples nm
  opened : ∀ nm, ¬IsCatalog nm → (s.openFiles.find nm).isSome = db.opened nm

section Runs

variable {unix : FileName → Option UnixFile} {s₀ s s' : Sys} {db : Tables} {commands : List Command}
  {nm : FileName}

theorem Realizes.visible (h : Realizes unix s db) : Visible unix s db := by
  obtain ⟨P, v, fv, H, fvA, HA, h⟩ := h
  have hc := h.database.coh
  refine ⟨?_, ?_, fun nm hcatalog hunix => ?_, fun nm hcatalog => ?_⟩
  · rw [h.database.catalogs.relTuples_eq hc, h.database.lists.rel]
  · rw [h.database.catalogs.attrTuples_eq hc, h.database.lists.attr]
  · exact (h.tuples nm hcatalog).contents?_eq hc (h.not_foreign hunix)
  · rw [← h.opened nm hcatalog, Bool.eq_iff_iff, Option.isSome_iff_ne_none,
      Option.isSome_iff_ne_none]
    exact not_congr hc.find_eq_none

theorem Realizes.listed_iff (h : Realizes unix s db) : s.Listed nm ↔ nm ∈ names db.relations := by
  obtain ⟨P, v, fv, H, fvA, HA, h⟩ := h
  exact h.database.listed_iff

/-- The name of a relation that is listed. -/
theorem Realizes.name_of_mem (h : Realizes unix s db) (hmem : nm ∈ names db.relations) :
    nm ≠ [] ∧ nm.length < MAXNAME ∧ IsName nm := by
  obtain ⟨P, v, fv, H, fvA, HA, h⟩ := h
  obtain ⟨R, hR, rfl⟩ := List.mem_map.mp hmem
  have hwf := h.database.wf R hR
  exact ⟨hwf.ne_nil, hwf.length, hwf.isName⟩

/-- The files that can be loaded are not part of the database. -/
theorem Represents.written {P : Multiset Pin} {v : View} {fv fvA : FileView} {H HA : Heap}
    (h : Represents unix s db P v fv H fvA HA) (dataFile : FileName → Option Bytes) :
    Represents unix { s with dataFile := dataFile } db P v fv H fvA HA :=
  have hc := h.database.coh
  { h with database := { h.database with coh := { hc with
    opened := fun nm f c hh => { hc.opened nm f c hh with } } } }

theorem Realizes.written (h : Realizes unix s db) (dataFile : FileName → Option Bytes) :
    Realizes unix { s with dataFile := dataFile } db := by
  obtain ⟨P, v, fv, H, fvA, HA, h⟩ := h
  exact ⟨P, v, fv, H, fvA, HA, h.written dataFile⟩

theorem Tables.wf_initial : Tables.initial.WF where
  listed nm hnm hcatalog := by
    have hmem : nm = RELCATNAME ∨ nm = ATTRCATNAME := by
      simpa [names, Tables.initial, Minirel.relations, created, Relation.relcat,
        Relation.attrcat] using hnm
    exact absurd hmem hcatalog
  unlisted nm hsome := absurd hsome Bool.false_ne_true
  opened nm hopened := absurd hopened Bool.false_ne_true
  catalogs nm hnm := ⟨IsCatalog.mem_names hnm, rfl⟩

theorem Tables.valid_initial : ∀ R ∈ Tables.initial.relations, ∀ a ∈ R.attrs, a.Valid := by
  decide

/-- A new session realizes the catalogs, and no other file. -/
theorem NewSession.realizes (h : NewSession unix s) : Realizes unix s .initial := by
  obtain ⟨P, v, fv, H, fvA, HA, hd, hfiles, hforeign, -⟩ := h.database
  refine ⟨P, v, fv, H, fvA, HA, hd, Tables.wf_initial, Tables.valid_initial, hforeign,
    fun nm hnm => (hfiles nm hnm).1, fun nm hnm => ?_, rfl, rfl⟩
  rw [(hfiles nm hnm).2]
  rfl

/-- The tables of a run are those of a replay. -/
theorem TableRun.realizes (h : Realizes unix s₀ db) (hrun : TableRun unix db s₀ commands s) :
    Realizes unix s (db.replay commands) := by
  induction hrun with
  | start => exact h
  | step hrun hfits hframes hstep ih => exact (ih.step hfits hframes hstep).2.2.2
  | written dataFile hrun ih => exact ih.written dataFile

/-- A run is one of the first commands and one of the others. -/
theorem TableRun.of_append {later : List Command}
    (hrun : TableRun unix db s₀ (later ++ commands) s) :
    ∃ s', TableRun unix db s₀ commands s' ∧ TableRun unix (db.replay commands) s' later s := by
  generalize hl : later ++ commands = l at hrun
  induction hrun generalizing later with
  | start =>
    obtain ⟨rfl, rfl⟩ := List.append_eq_nil_iff.mp hl
    exact ⟨s₀, .start, .start⟩
  | @step _ s s' _ _ _ hrun hfits hframes hstep ih =>
    cases later with
    | nil =>
      cases hl
      exact ⟨s', hrun.step hfits hframes hstep, .start⟩
    | cons command later =>
      rw [List.cons_append] at hl
      obtain ⟨rfl, rfl⟩ := List.cons.inj hl
      obtain ⟨s₁, hrun₁, hlater⟩ := ih rfl
      rw [Tables.replay_append] at hfits
      exact ⟨s₁, hrun₁, hlater.step hfits hframes hstep⟩
  | written dataFile hrun ih =>
    obtain ⟨s₁, hrun₁, hlater⟩ := ih hl
    exact ⟨s₁, hrun₁, hlater.written dataFile⟩

/-- The call of the latest command. -/
theorem TableRun.of_cons {command : Command} (hrun : TableRun unix db s₀ (command :: commands) s) :
    ∃ s₁ s₂ r e, TableRun unix db s₀ commands s₁ ∧ (8 ≤ s₁.freeFrames ∨ e = false) ∧
      command.Step s₁ r e s₂ ∧ TableRun unix (db.replay (command :: commands)) s₂ [] s := by
  generalize hl : command :: commands = l at hrun
  induction hrun with
  | start => cases hl
  | @step _ s₁ s₂ _ r e hrun hfits hframes hstep ih =>
    cases hl
    exact ⟨s₁, s₂, r, e, hrun, hframes, hstep, .start⟩
  | written dataFile hrun ih =>
    obtain ⟨s₁, s₂, r, e, hrun₁, hframes, hstep, hlater⟩ := ih hl
    exact ⟨s₁, s₂, r, e, hrun₁, hframes, hstep, hlater.written dataFile⟩

/-! ## Sessions that come to their end -/

/-- All commands of a session are such, and each load comes to its end. -/
def Tables.FitsAll (unix : FileName → Option UnixFile) (db : Tables) : List Command → Prop
  | [] => True
  | command :: commands => db.FitsAll unix commands ∧ (db.replay commands).Fits unix command ∧
    (db.replay commands).Halts command

/-- How many frames the calls may leave with pins. -/
def cost (commands : List Command) : Nat := (commands.map Command.cost).sum

theorem cost_cons (command : Command) (commands : List Command) :
    cost (command :: commands) = command.cost + cost commands := List.sum_cons

/-- The data that a load expects are written before it. -/
theorem Command.exists_finds (command : Command) (s : Sys) : ∃ dataFile : FileName → Option Bytes,
    command.Finds { s with dataFile := dataFile } := by
  cases command with
  | load relation fileName data => exact ⟨fun _ => data, rfl⟩
  | createRel relation attrCnt attrList => exact ⟨s.dataFile, trivial⟩
  | destroyRel relation => exact ⟨s.dataFile, trivial⟩
  | join method result projNames attr1 op attr2 => exact ⟨s.dataFile, trivial⟩
  | ask formatFloat query => exact ⟨s.dataFile, trivial⟩

/-- Calls that find eight frames whenever they start come to an end. -/
theorem Realizes.exists_run (h : Realizes unix s₀ db) (hfits : db.FitsAll unix commands)
    (hcost : cost commands + 8 ≤ s₀.freeFrames) : ∃ s, TableRun unix db s₀ commands s ∧
      s₀.freeFrames ≤ s.freeFrames + cost commands := by
  induction commands with
  | nil => exact ⟨s₀, .start, Nat.le_add_right _ _⟩
  | cons command commands ih =>
    obtain ⟨hfits, hfit, hhalts⟩ := hfits
    rw [cost_cons] at hcost ⊢
    obtain ⟨s, hrun, hle⟩ := ih hfits (by omega)
    obtain ⟨dataFile, hfinds⟩ := command.exists_finds s
    have hrun' := hrun.written dataFile
    have hframes : 8 ≤ ({ s with dataFile := dataFile } : Sys).freeFrames := by
      show 8 ≤ s.freeFrames
      omega
    obtain ⟨r, s', hstep, -, hle', -⟩ :=
      (hrun'.realizes h).exists_next command hfit hhalts hframes hfinds
    refine ⟨s', hrun'.step hfit (Or.inl hframes) hstep, ?_⟩
    have : s.freeFrames ≤ s'.freeFrames + command.cost := hle'
    omega

/-- Calls do not leave more frames with pins than they may. -/
theorem TableRun.freeFrames_le (h : Realizes unix s₀ db) (hrun : TableRun unix db s₀ commands s)
    (hcost : cost commands + 8 ≤ s₀.freeFrames) : s₀.freeFrames ≤ s.freeFrames + cost commands := by
  induction hrun with
  | start => exact Nat.le_add_right _ _
  | step hrun hfits hframes hstep ih =>
    rw [cost_cons] at hcost ⊢
    have hle := ih (by omega)
    obtain ⟨-, -, hcall, -⟩ := (hrun.realizes h).step hfits hframes hstep
    have := hcall (by omega)
    omega
  | written dataFile hrun ih => exact ih hcost

theorem NewSession.freeFrames (h : NewSession unix s) : 96 ≤ s.freeFrames := by
  obtain ⟨P, v, fv, H, fvA, HA, hd, -, -, hframes⟩ := h.database
  rw [hd.coh.freeFrames_eq]
  exact hframes

/-! ### A session that loads two relations -/

/-- The attribute of the relation `[67]`. -/
def otherAttr : AttrInfo := ⟨[67], [68], 0, 4⟩

/-- Two relations of one string each are created and loaded, and one for their join. -/
def twoLoads : List Command :=
  [.load [67] [70] (some [97, 0, 0, 0]), .load [65] [70] (some [97, 0, 0, 0]),
    .createRel [69] 2 [⟨[69], [66], 0, 4⟩, ⟨[69], [68], 0, 4⟩], .createRel [67] 1 [otherAttr],
    .createRel [65] 1 [oneAttr]]

theorem fitsAll_twoLoads : Tables.initial.FitsAll (fun _ => none) twoLoads := by
  have hname : ∀ nm ∈ [[65], [67]], IsName nm := fun nm hnm => by
    rcases List.mem_pair.mp hnm with rfl | rfl
    · exact ⟨by decide, by decide⟩
    · exact ⟨by decide, by decide⟩
  have hwidth : ∀ (R : Relation) (bytes : Bytes) (o : Option (Relation × Bytes))
    (p : Relation × Bytes),
      o = some p → 1 ≤ p.1.width → o = some (R, bytes) → 1 ≤ R.width := by
    rintro R bytes o p rfl hp he
    cases he
    exact hp
  refine ⟨⟨⟨⟨⟨trivial, ?_, trivial⟩, ?_, trivial⟩, ?_, trivial⟩, hname _ (by decide), ?_⟩,
    hname _ (by decide), ?_⟩
  · exact ⟨⟨by decide, rfl, by decide, by decide⟩, by decide⟩
  · exact ⟨⟨by decide, rfl, by decide, by decide⟩, by decide⟩
  · exact ⟨⟨by decide, rfl, by decide, by decide⟩, by decide⟩
  · exact fun R bytes => hwidth R bytes _ (⟨[65], [oneAttr]⟩, [97, 0, 0, 0]) rfl (by decide)
  · exact fun R bytes => hwidth R bytes _ (⟨[67], [otherAttr]⟩, [97, 0, 0, 0]) rfl (by decide)

/-- One of them. -/
theorem fitsAll_oneLoad : Tables.initial.FitsAll (fun _ => none)
    [.load [65] [70] (some [97, 0, 0, 0]), .createRel [65] 1 [oneAttr]] := by
  obtain ⟨⟨⟨⟨⟨-, hcreate, -⟩, -⟩, -⟩, -⟩, -⟩ := fitsAll_twoLoads
  refine ⟨⟨trivial, hcreate, trivial⟩, ⟨by decide, by decide⟩, fun R bytes hacc => ?_⟩
  have he : some (⟨[65], [oneAttr]⟩, [97, 0, 0, 0]) = some (R, bytes) := hacc
  cases he
  decide

/-- The session can be run. -/
theorem exists_twoLoads : ∃ s₀ s, NewSession (fun _ => none) s₀ ∧
    TableRun (fun _ => none) .initial s₀ twoLoads s ∧ 81 ≤ s.freeFrames := by
  obtain ⟨s₀, h₀⟩ : ∃ s₀, NewSession (fun _ => none) s₀ := exists_newSession rfl rfl
  have hframes := h₀.freeFrames
  have hcost : cost twoLoads = 15 := rfl
  obtain ⟨s, hrun, hle⟩ := h₀.realizes.exists_run fitsAll_twoLoads (by omega)
  exact ⟨s₀, s, h₀, hrun, by omega⟩

end Runs

end Minirel
