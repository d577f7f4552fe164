import Minirel.Tables.Runs

/-!
# What holds of every session

What the users of a database see after any calls is told by the commands alone. `UT_Load` leaves its
file open, so the tuples of a relation that has been loaded outlive the relation.

## Main results

* `visible_of_run`: a session is a replay of its commands.
* `returns_of_run`, `session_completes`: what the calls return, and that they do.
* `loaded_stays`, `recreated`: tuples that have been loaded stay, also for another relation of the
  name.
* `agree_of_run`: what a relation has depends on the commands for it.
-/

namespace Minirel

open Comp HeapFile

variable {unix : FileName → Option UnixFile} {s₀ s s' : Sys} {commands later : List Command}
  {command : Command} {nm : FileName} {r : Status × Output} {e : Bool}

/-! ## States and outcomes -/

/-- A session is a replay of its commands. -/
theorem visible_of_run (h₀ : NewSession unix s₀) (hrun : TableRun unix .initial s₀ commands s) :
    Visible unix s (Tables.initial.replay commands) := (hrun.realizes h₀.realizes).visible

theorem visible_of_run_twoLoads : ∃ s₀ s, NewSession (fun _ => none) s₀ ∧
    TableRun (fun _ => none) .initial s₀ twoLoads s ∧
    Visible (fun _ => none) s (Tables.initial.replay twoLoads) := by
  obtain ⟨s₀, s, h₀, hrun, -⟩ := exists_twoLoads
  exact ⟨s₀, s, h₀, hrun, visible_of_run h₀ hrun⟩

/-- The call of a command after the two loads. -/
theorem exists_afterLoads {command : Command}
    (hfits : (Tables.initial.replay twoLoads).Fits (fun _ => none) command)
    (hhalts : (Tables.initial.replay twoLoads).Halts command) (hfinds : ∀ s, command.Finds s) :
    ∃ s₀ s r s', NewSession (fun _ => none) s₀ ∧ TableRun (fun _ => none) .initial s₀ twoLoads s ∧
      command.Step s r false s' ∧ 75 ≤ s'.freeFrames := by
  obtain ⟨s₀, s, h₀, hrun, hframes⟩ := exists_twoLoads
  obtain ⟨r, s', hstep, -, hle, -⟩ :=
    (hrun.realizes h₀.realizes).exists_next command hfits hhalts (by omega) (hfinds s)
  have hcost : command.cost ≤ 6 := by
    cases command <;> simp [Command.cost]
  exact ⟨s₀, s, r, s', h₀, hrun, hstep, by omega⟩

/-- A call that finds eight frames without a pin leaves all but a few of them so, and a session
comes to its end if its calls leave no more pins than there are frames. -/
theorem session_completes (h₀ : NewSession unix s₀) :
    (∀ commands s command r e s', TableRun unix .initial s₀ commands s →
      (Tables.initial.replay commands).Fits unix command → 8 ≤ s.freeFrames →
      command.Step s r e s' →
      s.freeFrames ≤ s'.freeFrames + command.cost) ∧
    ∀ commands, Tables.initial.FitsAll unix commands → cost commands ≤ 88 →
      (∃ s, TableRun unix .initial s₀ commands s) ∧ ∀ s, TableRun unix .initial s₀ commands s →
        96 ≤ s.freeFrames + cost commands := by
  have hframes := h₀.freeFrames
  refine ⟨fun commands s command r e s' hrun hfits hfree hstep => ?_,
    fun commands hfits hcost => ⟨?_, ?_⟩⟩
  · obtain ⟨-, -, hle, -⟩ := (hrun.realizes h₀.realizes).step hfits (Or.inl hfree) hstep
    exact hle hfree
  · obtain ⟨s, hrun, -⟩ := h₀.realizes.exists_run hfits (by omega)
    exact ⟨s, hrun⟩
  · intro s hrun
    have := hrun.freeFrames_le h₀.realizes (by omega)
    omega

theorem session_completes_twoLoads : ∃ s₀ s, NewSession (fun _ => none) s₀ ∧
    TableRun (fun _ => none) .initial s₀ twoLoads s ∧ 81 ≤ s.freeFrames := by
  obtain ⟨s₀, h₀⟩ : ∃ s₀, NewSession (fun _ => none) s₀ := exists_newSession rfl rfl
  obtain ⟨⟨s, hrun⟩, hall⟩ := (session_completes h₀).2 twoLoads fitsAll_twoLoads (by decide)
  have hcost : cost twoLoads = 15 := rfl
  have hle := hall s hrun
  exact ⟨s₀, s, h₀, hrun, by omega⟩

/-! ## Tuples that have been loaded -/

/-- Whatever calls follow, a scan of a file that has been left open returns first what it returns
now. -/
theorem loaded_stays (h₀ : NewSession unix s₀) (hrun : TableRun unix .initial s₀ commands s)
    (hcatalog : ¬IsCatalog nm) (hunix : unix nm = none) (hopen : s.openFiles.find nm ≠ none)
    (hlater : TableRun unix (Tables.initial.replay commands) s later s') :
    ∃ ts rows, s.contents? nm = some ts ∧ s'.contents? nm = some (ts ++ rows) := by
  have hdb := hrun.realizes h₀.realizes
  have hvisible := hdb.visible
  have hwf := Tables.wf_initial.replay commands
  have hopened : (Tables.initial.replay commands).opened nm = true := by
    rw [← hvisible.opened nm hcatalog, Option.isSome_iff_ne_none]
    exact hopen
  obtain ⟨ts, hts⟩ := Option.isSome_iff_exists.mp (hwf.opened nm hopened)
  obtain ⟨-, rows, hrows⟩ := hwf.opened_replay hopened later
  refine ⟨ts, rows, ?_, ?_⟩
  · rw [hvisible.contents nm hcatalog hunix, hts]
  · rw [(hlater.realizes hdb).visible.contents nm hcatalog hunix, hrows, hts]
    rfl

/-- After the relation has been destroyed its tuple is still there. -/
theorem loaded_stays_destroyed : ∃ s₀ s s' ts rows, NewSession (fun _ => none) s₀ ∧
    TableRun (fun _ => none) .initial s₀ twoLoads s ∧
    TableRun (fun _ => none) (Tables.initial.replay twoLoads) s [.destroyRel [65]] s' ∧
    s.contents? [65] = some ts ∧ s'.contents? [65] = some (ts ++ rows) := by
  have hfits : (Tables.initial.replay twoLoads).Fits (fun _ => none) (.destroyRel [65]) := by
    exact ⟨by decide, by decide⟩
  obtain ⟨s₀, s, r, s', h₀, hrun, hstep, -⟩ := exists_afterLoads hfits trivial fun _ => trivial
  have hopen : s.openFiles.find [65] ≠ none := by
    rw [← Option.isSome_iff_ne_none, (hrun.realizes h₀.realizes).visible.opened [65] (by decide)]
    rfl
  have hlater : TableRun (fun _ => none) (Tables.initial.replay twoLoads) s [.destroyRel [65]] s' :=
    TableRun.start.step hfits (Or.inr rfl) hstep
  obtain ⟨ts, rows, hts, hrows⟩ := loaded_stays h₀ hrun (by decide) rfl hopen hlater
  exact ⟨s₀, s, s', ts, rows, h₀, hrun, hlater, hts, hrows⟩

section Recreated

variable {s₁ s₂ s₃ : Sys} {r₁ r₂ : Status × Output} {e₁ e₂ : Bool} {attrCnt : Int}
  {attrList : List AttrInfo}

/-- A relation that has been left open is destroyed and, maybe after calls for others, created
again: `destroyRel` returns `FILEOPEN` and has removed it from the catalogs, `createRel` returns
`FILEEXISTS` and has added the new one, and this one has the tuples of the old one. -/
theorem recreated (h₀ : NewSession unix s₀) (hrun : TableRun unix .initial s₀ commands s)
    (hcatalog : ¬IsCatalog nm) (hunix : unix nm = none) (hlisted : s.Listed nm)
    (hopen : s.openFiles.find nm ≠ none) (hframes₁ : 8 ≤ s.freeFrames ∨ e₁ = false)
    (hdestroy : (Command.destroyRel nm).Step s r₁ e₁ s₁)
    (hlater : TableRun unix (Tables.initial.replay (.destroyRel nm :: commands)) s₁ later s₂)
    (hothers : ∀ command ∈ later, command.target ≠ nm) (hpos : 1 ≤ attrCnt)
    (hfits : (CatalogCall.createRel nm attrCnt attrList).Fit unix)
    (hframes₂ : 8 ≤ s₂.freeFrames ∨ e₂ = false)
    (hcreate : (Command.createRel nm attrCnt attrList).Step s₂ r₂ e₂ s₃) :
    (r₁.1 = .FILEOPEN ∧ ¬s₁.Listed nm) ∧ (r₂.1 = .FILEEXISTS ∧ s₃.Listed nm) ∧
      s₃.contents? nm = s.contents? nm := by
  have hdb := hrun.realizes h₀.realizes
  have hvisible := hdb.visible
  have hwf := Tables.wf_initial.replay commands
  generalize hreplay : Tables.initial.replay commands = db at hdb hvisible hwf
  have hopened : db.opened nm = true := by
    rw [← hvisible.opened nm hcatalog, Option.isSome_iff_ne_none]
    exact hopen
  have hmem := hdb.listed_iff.mp hlisted
  obtain ⟨hne, hlen, hname⟩ := hdb.name_of_mem hmem
  obtain ⟨-, hr₁, -, hdb₁⟩ :=
    hdb.step (show db.Fits unix (.destroyRel nm) from hname) hframes₁ hdestroy
  have happ : db.apply (.destroyRel nm) =
      { db with relations := db.relations.filter fun R => R.name ≠ nm } := by
    simp only [Tables.apply, Tables.destroyRel, if_neg hcatalog, hopened, if_true]
  have hnot : nm ∉ names (db.apply (.destroyRel nm)).relations := by
    rw [happ]
    exact fun hn => (Tables.mem_names_filter.mp hn).2 rfl
  rw [Tables.replay_cons, hreplay] at hlater
  -- the other calls leave the file alone
  have hagree := Tables.agreeOn_replay_of_ne (db.apply (.destroyRel nm)) hothers
  have hnot₂ := hagree.mem_names.not.mpr hnot
  have hacc : ¬RefusesSchema nm attrCnt
      (nm ∈ names ((db.apply (.destroyRel nm)).replay later).relations) := by
    rintro (hn | hn | hn | hn)
    · exact hne hn
    · omega
    · omega
    · exact hnot₂ hn
  have htuples : ((db.apply (.destroyRel nm)).replay later).tuples nm = db.tuples nm := by
    rw [hagree.tuples, happ]
  obtain ⟨ts, hts⟩ := Option.isSome_iff_exists.mp (hwf.opened nm hopened)
  have hdb₂ := hlater.realizes hdb₁
  obtain ⟨-, hr₂, -, hdb₃⟩ := hdb₂.step
    (show Tables.Fits unix _ (.createRel nm attrCnt attrList) from hfits) hframes₂ hcreate
  have happ₃ : ((db.apply (.destroyRel nm)).replay later).apply
    (.createRel nm attrCnt attrList) = _ :=
    if_neg hacc
  refine ⟨⟨?_, ?_⟩, ⟨?_, ?_⟩, ?_⟩
  · have hst := hr₁.2 hmem hcatalog
    rwa [hopened, if_pos rfl] at hst
  · rw [hdb₁.listed_iff]
    exact hnot
  · have hst : r₂.1 = _ := (if_neg hacc).mp hr₂
    rwa [htuples, hts] at hst
  · rw [hdb₃.listed_iff, happ₃]
    exact List.mem_cons_self ..
  · rw [hdb₃.visible.contents nm hcatalog hunix, hvisible.contents nm hcatalog hunix, happ₃]
    dsimp only
    rw [Function.update_self, htuples, hts]
    rfl

/-- A relation is loaded, destroyed and created again. -/
theorem recreated_twoLoads : ∃ s₀ s s₁ s₂ r₁ r₂, NewSession (fun _ => none) s₀ ∧
    TableRun (fun _ => none) .initial s₀ twoLoads s ∧ (Command.destroyRel [65]).Step s r₁ false s₁ ∧
    (Command.createRel [65] 1 [oneAttr]).Step s₁ r₂ false s₂ ∧ r₁.1 = .FILEOPEN ∧
    r₂.1 = .FILEEXISTS ∧
    s₂.contents? [65] = s.contents? [65] := by
  have hfits : (Tables.initial.replay twoLoads).Fits (fun _ => none) (.destroyRel [65]) := by
    exact ⟨by decide, by decide⟩
  have hfits' : (CatalogCall.createRel [65] 1 [oneAttr]).Fit fun _ => none := by
    refine ⟨⟨by decide, rfl, by decide, fun a ha => ?_⟩, by decide⟩
    rw [List.mem_singleton.mp ha]
    exact ⟨oneAttr_valid, rfl⟩
  obtain ⟨s₀, s, r₁, s₁, h₀, hrun, hdestroy, hframes⟩ :=
    exists_afterLoads hfits trivial fun _ => trivial
  have hdb := hrun.realizes h₀.realizes
  have hopen : s.openFiles.find [65] ≠ none := by
    rw [← Option.isSome_iff_ne_none, hdb.visible.opened [65] (by decide)]
    rfl
  have hdb₁ := (hdb.step hfits (Or.inr rfl) hdestroy).2.2.2
  obtain ⟨r₂, s₂, hcreate, -⟩ := hdb₁.exists_next (.createRel [65] 1 [oneAttr]) hfits' trivial
    (by omega) trivial
  obtain ⟨⟨hr₁, -⟩, ⟨hr₂, -⟩, hcontents⟩ := recreated h₀ hrun (by decide) rfl
    (hdb.listed_iff.mpr (by decide)) hopen (Or.inr rfl) hdestroy .start (by decide)
    (by decide) hfits'
    (Or.inr rfl) hcreate
  exact ⟨s₀, s, s₁, s₂, r₁, r₂, h₀, hrun, hdestroy, hcreate, hr₁, hr₂, hcontents⟩

end Recreated

/-! ## What a relation depends on -/

section Agree

variable {unix' : FileName → Option UnixFile} {s₀' : Sys} {commands' : List Command}

/-- The tuples of `relcat` with a name. -/
theorem Realizes.relTuples_filter {db : Tables} (h : Realizes unix s db) (nm : FileName) :
    (s.relTuples.map fun rel => rel.filter fun d => d.relName = nm) =
      some ((db.relations.filter fun R => R.name = nm).map Relation.desc : Multiset RelDesc) := by
  rw [h.visible.relcat, Option.map_some, Multiset.filter_coe, List.filter_map]
  rfl

/-- The tuples of `attrcat` for a relation. -/
theorem Realizes.attrTuples_filter {db : Tables} (h : Realizes unix s db) (nm : FileName) :
    (s.attrTuples.map fun attrs => attrs.filter fun d => d.relName = nm) =
      some ((db.relations.filter fun R => R.name = nm).flatMap Relation.attrDescs : Multiset
        AttrDesc) := by
  rw [h.visible.attrcat, Option.map_some, Multiset.filter_coe]
  obtain ⟨P, v, fv, H, fvA, HA, h⟩ := h
  have hwf := h.database.wf
  refine congrArg some (congrArg _ ?_)
  generalize db.relations = C at hwf
  induction C with
  | nil => rfl
  | cons R C ih =>
    have hR := (hwf R List.mem_cons_self).filter_attrDescs nm
    rw [List.flatMap_cons, List.filter_append, hR, ih fun R hR => hwf R (List.mem_cons_of_mem _ hR)]
    by_cases hn : R.name = nm
    · rw [if_pos hn, List.filter_cons, if_pos (decide_eq_true hn), List.flatMap_cons]
    · rw [if_neg hn, List.filter_cons, if_neg (by simpa using hn), List.nil_append]

/-- Two sessions have the same commands for the relations of `S`, and join no other relation into
one of them: then these relations have the same tuples, and the same tuples in the catalogs,
whatever else has been done. -/
theorem agree_of_run (S : FileName → Prop) [DecidablePred S] (h₀ : NewSession unix s₀)
    (hrun : TableRun unix .initial s₀ commands s) (h₀' : NewSession unix' s₀')
    (hrun' : TableRun unix' .initial s₀' commands' s')
    (hclosed : ∀ command ∈ commands ++ commands', S command.target → ∀ nm ∈ command.sources, S nm)
    (hsame : (commands.filter fun command => S command.target) =
      commands'.filter fun command => S command.target)
    (hnm : S nm) (hcatalog : ¬IsCatalog nm) (hunix : unix nm = none) (hunix' : unix' nm = none) :
    s.contents? nm = s'.contents? nm ∧
      ((s.relTuples.map fun rel => rel.filter fun d => d.relName = nm) =
        s'.relTuples.map fun rel => rel.filter fun d => d.relName = nm) ∧
      ((s.attrTuples.map fun attrs => attrs.filter fun d => d.relName = nm) =
        s'.attrTuples.map fun attrs => attrs.filter fun d => d.relName = nm) ∧
      (s.openFiles.find nm).isSome = (s'.openFiles.find nm).isSome := by
  have hagree : Tables.AgreeOn nm (Tables.initial.replay commands)
    (Tables.initial.replay commands') := by
    have h := Tables.agreeOn_replay_filter .initial S
      (fun command hmem => hclosed command (List.mem_append_left _ hmem)) hnm
    have h' := Tables.agreeOn_replay_filter .initial S
      (fun command hmem => hclosed command (List.mem_append_right _ hmem)) hnm
    rw [hsame] at h
    exact h.trans ⟨h'.relations.symm, h'.tuples.symm, h'.opened.symm⟩
  have hdb := hrun.realizes h₀.realizes
  have hdb' := hrun'.realizes h₀'.realizes
  refine ⟨?_, ?_, ?_, ?_⟩
  · rw [hdb.visible.contents nm hcatalog hunix, hdb'.visible.contents nm hcatalog hunix',
      hagree.tuples]
  · rw [hdb.relTuples_filter, hdb'.relTuples_filter, hagree.relations]
  · rw [hdb.attrTuples_filter, hdb'.attrTuples_filter, hagree.relations]
  · rw [hdb.visible.opened nm hcatalog, hdb'.visible.opened nm hcatalog, hagree.opened]

/-- Without the other relations. -/
theorem agree_of_run_twoLoads : ∃ s₀ s s₀' s', NewSession (fun _ => none) s₀ ∧
    TableRun (fun _ => none) .initial s₀ twoLoads s ∧ NewSession (fun _ => none) s₀' ∧
    TableRun (fun _ => none) .initial s₀'
      [.load [65] [70] (some [97, 0, 0, 0]), .createRel [65] 1 [oneAttr]] s' ∧
    s.contents? [65] = s'.contents? [65] := by
  obtain ⟨s₀, s, h₀, hrun, -⟩ := exists_twoLoads
  have hframes := h₀.freeFrames
  obtain ⟨s', hrun', -⟩ := h₀.realizes.exists_run fitsAll_oneLoad (le_trans (by decide) hframes)
  exact ⟨s₀, s, s₀, s', h₀, hrun, h₀, hrun',
    (agree_of_run (· = [65]) h₀ hrun h₀ hrun' (by decide) (by rfl)
    rfl (by decide) rfl rfl).1⟩

end Agree

end Minirel
