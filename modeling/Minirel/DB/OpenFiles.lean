import Minirel.Disk
import Mathlib.Data.Multiset.Filter

/-!
# The open-file table is exact

Clients of `DB` open and close files in any order. The calls of `openFile` that have succeeded and
have not been matched by a `closeFile` are the outstanding openers. This file shows that the table
of open files, the reference counts of the `File` objects and the statuses of `createFile` and
`destroyFile` agree with them in every reachable state.

## Main definitions

* `DBRun s₀ s O`: the calls lead from `s₀` to `s`, with outstanding openers `O`.
* `OpenExact s O`: the table and the `File` objects are as the outstanding openers say.

## Main results

* `openExact_of_run`: the invariant holds in every reachable state.
* `openFiles_exact`: what it says of the table and of the next call.
-/

namespace Minirel

open Comp

variable {s s' : Sys} {file f : FilePtr} {nm : FileName} {fo : File}

/-! ## What the file layer leaves alone -/

/-- The open files are the same, and no Unix file has come or gone. -/
structure SameFiles (s s' : Sys) : Prop where
  files : s'.files = s.files
  nextFile : s'.nextFile = s.nextFile
  openFiles : s'.openFiles = s.openFiles
  io : s'.io = s.io
  isSome : ∀ nm, (s'.unix nm).isSome = (s.unix nm).isSome

/-- Nothing but the pages of one Unix file has changed, as far as files go. -/
structure OnlyPages (nm : FileName) (s s' : Sys) : Prop extends SameFiles s s' where
  unix : ∀ nm', nm' ≠ nm → s'.unix nm' = s.unix nm'

namespace OnlyPages

theorem refl (nm : FileName) (s : Sys) : OnlyPages nm s s :=
  ⟨⟨rfl, rfl, rfl, rfl, fun _ => rfl⟩, fun _ _ => rfl⟩

theorem trans {s'' : Sys} (h : OnlyPages nm s s') (h' : OnlyPages nm s' s'') :
    OnlyPages nm s s'' :=
  ⟨⟨h'.files.trans h.files, h'.nextFile.trans h.nextFile, h'.openFiles.trans h.openFiles,
    h'.io.trans h.io, fun nm' => (h'.isSome nm').trans (h.isSome nm')⟩,
    fun nm' hne => (h'.unix nm' hne).trans (h.unix nm' hne)⟩

theorem buf (h : OnlyPages nm s s') (b : BufMgr) : OnlyPages nm s { s' with buf := b } :=
  ⟨⟨h.files, h.nextFile, h.openFiles, h.io, h.isSome⟩, h.unix⟩

theorem setUnix {uf : UnixFile} (huf : s.unix nm = some uf) (uf' : UnixFile) :
    OnlyPages nm s (s.setUnix nm (some uf')) := by
  refine ⟨⟨rfl, rfl, rfl, rfl, fun nm' => ?_⟩, fun nm' hne => Function.update_of_ne hne _ _⟩
  by_cases hne : nm' = nm
  · subst hne
    have hself : (s.setUnix nm' (some uf')).unix nm' = some uf' := Function.update_self _ _ _
    rw [huf, hself]
    rfl
  · exact congrArg Option.isSome (Function.update_of_ne hne _ _)

end OnlyPages

/-- `File::writePage` through a `File*` that does not dangle. -/
theorem File.runs_writePage (hio : s.io = fun _ => true) (hfile : s.files file = some fo)
    (p : Int) (b : Block) :
    Runs True (writePage file p b) s fun _ e s' => e = false ∧ OnlyPages fo.fileName s s' := by
  unfold writePage
  refine Runs.ite (fun _ => runs_pure.mpr ⟨rfl, .refl _ _⟩) fun hp => ?_
  unfold intwrite
  rw [runs_bind_of_yields (yields_fileAt hfile), runs_bind_of_yields (yields_unixCall_of_io hio),
    runs_get_bind]
  refine Runs.ite (fun _ => ?_) fun _ => runs_pure.mpr ⟨rfl, .refl _ _⟩
  cases huf : s.unix fo.fileName with
  | none => exact runs_pure.mpr ⟨rfl, .refl _ _⟩
  | some uf =>
    rw [runs_setUnix_bind, runs_pure]
    exact ⟨rfl, .setUnix huf _⟩

/-- The write-backs of `flushFile`, whatever is in the pool. -/
theorem BufMgr.runs_flushFrames (hio : s.io = fun _ => true) (hfile : s.files file = some fo)
    (n i : Nat) :
    Runs True (flushFrames file n i) s fun _ e s' => e = false ∧ OnlyPages fo.fileName s s' := by
  induction n generalizing i s with
  | zero => exact runs_pure.mpr ⟨rfl, .refl _ _⟩
  | succ n ih =>
    unfold flushFrames
    rw [runs_get_bind]
    refine Runs.ite (fun hd => ?_) fun _ => Runs.ite (fun _ => runs_pure.mpr ⟨rfl, .refl _ _⟩)
      fun _ => ih hio hfile (i + 1)
    refine Runs.ite (fun _ => runs_pure.mpr ⟨rfl, .refl _ _⟩) fun _ => ?_
    -- the frame holds a page of `file`, so that the write goes to this file
    have hframe : Runs True (flushFrame i) s fun _ e s' => e = false ∧
        OnlyPages fo.fileName s s' := by
      unfold flushFrame
      rw [runs_get_bind]
      refine Runs.ite (fun _ => ?_) fun _ => runs_pure.mpr ⟨rfl, .refl _ _⟩
      rw [hd.2]
      refine (File.runs_writePage hio hfile _ _).bind ?_
      rintro status e s₁ ⟨rfl, h₁⟩
      refine Runs.ite (fun _ => runs_pure.mpr ⟨rfl, h₁⟩) fun _ => ?_
      rw [runs_modifyBuf_bind, runs_pure]
      exact ⟨rfl, h₁.buf _⟩
    refine hframe.bind ?_
    rintro status e s₁ ⟨rfl, h₁⟩
    refine Runs.ite (fun _ => runs_pure.mpr ⟨rfl, h₁⟩) fun _ => ?_
    rw [runs_modifyBuf_bind]
    refine Runs.mono (ih ?_ ?_ (i + 1)) ?_
    · exact h₁.io.trans hio
    · exact (congrFun h₁.files file).trans hfile
    · rintro status' e s₂ ⟨rfl, h₂⟩
      exact ⟨rfl, (h₁.buf _).trans h₂⟩

/-! ## Outstanding openers -/

/-- The number of outstanding openers of a name. -/
def openers (O : Multiset (FileName × FilePtr)) (nm : FileName) : Nat :=
  O.countP fun x => x.1 = nm

/-- Calls of `DB` that lead from `s₀` to `s`, with outstanding openers `O`. In between the clients
may do whatever they like with the pages of their files. -/
inductive DBRun (s₀ : Sys) : Sys → Multiset (FileName × FilePtr) → Prop
  | start : DBRun s₀ s₀ 0
  | createFile {s s' O nm status e} (run : DBRun s₀ s O)
      (call : Yields (DB.createFile nm) s status e s') : DBRun s₀ s' O
  | openFile {s s' O nm f e} (run : DBRun s₀ s O)
      (call : Yields (DB.openFile nm) s (.OK, f) e s') : DBRun s₀ s' ((nm, f) ::ₘ O)
  | openFail {s s' O nm status f e} (run : DBRun s₀ s O)
      (call : Yields (DB.openFile nm) s (status, f) e s') (fail : status ≠ .OK) : DBRun s₀ s' O
  | closeFile {s s' O nm f status e} (run : DBRun s₀ s ((nm, f) ::ₘ O))
      (call : Yields (DB.closeFile f) s status e s') : DBRun s₀ s' O
  | destroyFile {s s' O nm status e} (run : DBRun s₀ s O)
      (call : Yields (DB.destroyFile nm) s status e s') : DBRun s₀ s' O
  | pages {s s' O} (run : DBRun s₀ s O) (same : SameFiles s s') : DBRun s₀ s' O

/-- A process that has not opened any file yet, for which Unix calls on existing files succeed. -/
structure NoneOpen (s : Sys) : Prop where
  io : s.io = fun _ => true
  nextFile : 0 < s.nextFile
  openFiles : s.openFiles = OpenFileHashTbl.new
  files : s.files = fun _ => none

/-- The table of open files and the `File` objects are as the outstanding openers say. -/
structure OpenExact (s : Sys) (O : Multiset (FileName × FilePtr)) : Prop where
  io : s.io = fun _ => true
  nextFile : 0 < s.nextFile
  /-- The table maps a name to the object that all its openers hold. -/
  table : ∀ nm f, s.openFiles.find nm = some f ↔ (nm, f) ∈ O
  /-- That object counts them. -/
  obj : ∀ nm f, (nm, f) ∈ O → s.files f = some ⟨nm, openers O nm, true⟩
  /-- Objects without openers have been deleted. -/
  deleted : ∀ f, (∀ nm, (nm, f) ∉ O) → s.files f = none
  range : ∀ nm f, (nm, f) ∈ O → 0 < f ∧ f < s.nextFile

section Openers

variable {O : Multiset (FileName × FilePtr)} {nm' : FileName}

@[simp]
theorem openers_cons_self : openers ((nm, f) ::ₘ O) nm = openers O nm + 1 :=
  Multiset.countP_cons_of_pos _ rfl

theorem openers_cons_of_ne (h : nm' ≠ nm) : openers ((nm, f) ::ₘ O) nm' = openers O nm' :=
  Multiset.countP_cons_of_neg _ fun he : nm = nm' => h he.symm

theorem openers_pos_iff : 0 < openers O nm ↔ ∃ f, (nm, f) ∈ O := by
  unfold openers
  rw [Multiset.countP_pos]
  constructor
  · rintro ⟨⟨nm', f⟩, hmem, rfl⟩
    exact ⟨f, hmem⟩
  · rintro ⟨f, hmem⟩
    exact ⟨_, hmem, rfl⟩

end Openers

namespace OpenExact

variable {O : Multiset (FileName × FilePtr)} {nm' : FileName}

/-- All openers of a name hold the same object. -/
theorem shared (h : OpenExact s O) {f'} (hf : (nm, f) ∈ O) (hf' : (nm, f') ∈ O) : f' = f := by
  have h₁ := (h.table nm f).mpr hf
  have h₂ := (h.table nm f').mpr hf'
  exact Option.some.inj (h₂.symm.trans h₁)

/-- An object belongs to one name. -/
theorem name_eq (h : OpenExact s O) (hf : (nm, f) ∈ O) (hf' : (nm', f) ∈ O) : nm' = nm := by
  have he := (h.obj nm' f hf').symm.trans (h.obj nm f hf)
  exact congrArg File.fileName (Option.some.inj he)

theorem isSome_find (h : OpenExact s O) : (s.openFiles.find nm).isSome ↔ 0 < openers O nm := by
  rw [openers_pos_iff, Option.isSome_iff_exists]
  exact exists_congr fun f => h.table nm f

theorem sameFiles (h : OpenExact s O) (hs : SameFiles s s') : OpenExact s' O :=
  ⟨hs.io.trans h.io, hs.nextFile ▸ h.nextFile, hs.openFiles ▸ h.table, hs.files ▸ h.obj,
    hs.files ▸ h.deleted, hs.nextFile ▸ h.range⟩

theorem setUnix (h : OpenExact s O) (nm : FileName) (uf : Option UnixFile) :
    OpenExact (s.setUnix nm uf) O :=
  ⟨h.io, h.nextFile, h.table, h.obj, h.deleted, h.range⟩

/-! ## What one call does -/

/-- `DB::createFile` reports `FILEEXISTS` while the name has openers or the Unix file exists. -/
theorem createFile (h : OpenExact s O) (hnm : nm ≠ []) :
    Runs True (DB.createFile nm) s fun status e s' => e = false ∧ OpenExact s' O ∧
      (status = .FILEEXISTS ↔ 0 < openers O nm ∨ (s.unix nm).isSome) := by
  unfold DB.createFile
  rw [if_neg hnm, runs_get_bind]
  refine Runs.ite (fun ho => ?_) fun ho => ?_
  · exact runs_pure.mpr ⟨rfl, h, iff_of_true rfl (Or.inl (h.isSome_find.mp ho))⟩
  · have ho' : ¬0 < openers O nm := fun hpos => ho (h.isSome_find.mpr hpos)
    unfold File.create
    rw [runs_get_bind, runs_bind_of_yields (yields_unixCall_of_io h.io)]
    refine Runs.ite (fun hu => runs_pure.mpr ⟨rfl, h, iff_of_true rfl (Or.inr hu)⟩) fun hu => ?_
    rw [if_neg (by decide), runs_setUnix_bind]
    refine (runs_bind_of_yields (yields_unixCall_of_io (by exact h.io))).mpr ?_
    rw [if_neg (by decide), runs_setUnix_bind]
    refine (runs_bind_of_yields (yields_unixCall_of_io (by exact h.io))).mpr ?_
    rw [if_neg (by decide), runs_pure]
    refine ⟨rfl, (h.setUnix nm _).setUnix nm _, iff_of_false nofun ?_⟩
    rintro (hpos | hu')
    · exact ho' hpos
    · exact hu hu'

/-- `DB::destroyFile` reports `FILEOPEN` while the name has openers. -/
theorem destroyFile (h : OpenExact s O) (hnm : nm ≠ []) :
    Runs True (DB.destroyFile nm) s fun status e s' => e = false ∧ OpenExact s' O ∧
      (status = .FILEOPEN ↔ 0 < openers O nm) := by
  unfold DB.destroyFile
  rw [if_neg hnm, runs_get_bind]
  refine Runs.ite (fun ho => ?_) fun ho => ?_
  · exact runs_pure.mpr ⟨rfl, h, iff_of_true rfl (h.isSome_find.mp ho)⟩
  · have ho' : ¬0 < openers O nm := fun hpos => ho (h.isSome_find.mpr hpos)
    unfold File.destroy
    rw [runs_get_bind, runs_bind_of_yields (yields_unixCall_of_io h.io)]
    refine Runs.ite (fun _ => ?_) fun _ => runs_pure.mpr ⟨rfl, h, iff_of_false nofun ho'⟩
    rw [runs_setUnix_bind, runs_pure]
    exact ⟨rfl, h.setUnix nm _, iff_of_false nofun ho'⟩

/-- One more opener of a name that is open. -/
theorem reopened (h : OpenExact s O) (hf : (nm, f) ∈ O) :
    OpenExact { s with files := Function.update s.files f (some ⟨nm, openers O nm + 1, true⟩) }
      ((nm, f) ::ₘ O) where
  io := h.io
  nextFile := h.nextFile
  table nm' f' := by
    rw [Multiset.mem_cons]
    constructor
    · exact fun hfind => Or.inr ((h.table nm' f').mp hfind)
    · rintro (he | hmem)
      · cases he
        exact (h.table nm f).mpr hf
      · exact (h.table nm' f').mpr hmem
  obj nm' f' hmem := by
    have hmem' : (nm', f') ∈ O := by
      rcases Multiset.mem_cons.mp hmem with he | hmem
      · cases he
        exact hf
      · exact hmem
    by_cases hff : f' = f
    · subst hff
      obtain rfl := h.name_eq hf hmem'
      rw [openers_cons_self]
      exact Function.update_self _ _ _
    · have hne : nm' ≠ nm := by
        rintro rfl
        exact hff (h.shared hf hmem')
      rw [openers_cons_of_ne hne]
      exact (Function.update_of_ne hff _ _).trans (h.obj nm' f' hmem')
  deleted f' hnone := by
    have hff : f' ≠ f := by
      rintro rfl
      exact hnone nm (Multiset.mem_cons_self _ _)
    refine (Function.update_of_ne hff _ _).trans (h.deleted f' fun nm' hmem => ?_)
    exact hnone nm' (Multiset.mem_cons_of_mem hmem)
  range nm' f' hmem := by
    rcases Multiset.mem_cons.mp hmem with he | hmem
    · cases he
      exact h.range nm f hf
    · exact h.range nm' f' hmem

/-- The first opener of a name, which holds a new object. -/
theorem opened (h : OpenExact s O) (hn : openers O nm = 0) {t : OpenFileHashTbl}
    (ht : s.openFiles.insert? nm s.nextFile = some t) :
    OpenExact { s with
      files := Function.update s.files s.nextFile (some ⟨nm, 1, true⟩)
      nextFile := s.nextFile + 1
      openFiles := t } ((nm, s.nextFile) ::ₘ O) where
  io := h.io
  nextFile := Nat.succ_pos _
  table nm' f' := by
    show ChainTable.find t nm' = some f' ↔ _
    rw [ChainTable.find_insert? ht, Multiset.mem_cons]
    split
    next hne =>
      subst hne
      constructor
      · intro he
        exact Or.inl (by rw [Option.some.inj he])
      · rintro (he | hmem)
        · cases he
          rfl
        · exact absurd (openers_pos_iff.mpr ⟨f', hmem⟩) (by omega)
    next hne =>
      refine (h.table nm' f').trans ⟨Or.inr, fun he => ?_⟩
      exact he.resolve_left fun he => hne (Prod.mk.inj he).1
  obj nm' f' hmem := by
    rcases Multiset.mem_cons.mp hmem with he | hold
    · cases he
      rw [openers_cons_self, hn]
      exact Function.update_self _ _ _
    · have hff : f' ≠ s.nextFile := Nat.ne_of_lt (h.range nm' f' hold).2
      have hne : nm' ≠ nm := by
        rintro rfl
        exact absurd (openers_pos_iff.mpr ⟨f', hold⟩) (by omega)
      rw [openers_cons_of_ne hne]
      exact (Function.update_of_ne hff _ _).trans (h.obj nm' f' hold)
  deleted f' hnone := by
    have hff : f' ≠ s.nextFile := by
      rintro rfl
      exact hnone nm (Multiset.mem_cons_self _ _)
    refine (Function.update_of_ne hff _ _).trans (h.deleted f' fun nm' hmem => ?_)
    exact hnone nm' (Multiset.mem_cons_of_mem hmem)
  range nm' f' hmem := by
    rcases Multiset.mem_cons.mp hmem with he | hmem
    · cases he
      exact ⟨h.nextFile, Nat.lt_succ_self _⟩
    · exact ⟨(h.range nm' f' hmem).1, Nat.lt_succ_of_lt (h.range nm' f' hmem).2⟩

/-- `DB::openFile` adds an opener if it succeeds, and does so if the name has openers or the Unix
file exists. -/
theorem openFile (h : OpenExact s O) (hnm : nm ≠ []) :
    Runs True (DB.openFile nm) s fun r e s' => e = false ∧
      (r.1 = .OK ↔ 0 < openers O nm ∨ (s.unix nm).isSome) ∧
      (r.1 = .OK → OpenExact s' ((nm, r.2) ::ₘ O)) ∧ (r.1 ≠ .OK → OpenExact s' O) := by
  unfold DB.openFile
  rw [if_neg hnm, runs_get_bind]
  cases hfind : s.openFiles.find nm with
  | some f =>
    -- the object of the other openers counts one more
    have hf := (h.table nm f).mp hfind
    have hpos := openers_pos_iff.mpr ⟨f, hf⟩
    have hopen : Yields (File.open f) s .OK false
        { s with files := Function.update s.files f (some ⟨nm, openers O nm + 1, true⟩) } := by
      unfold File.open
      refine (yields_fileAt (h.obj nm f hf)).bind (d := false) ?_
      rw [if_neg (show ¬(openers O nm : Int) = 0 by omega)]
      exact (yields_setFile f _ s).bind (Yields.pure _ _)
    simp only
    rw [runs_bind_of_yields hopen, runs_pure]
    exact ⟨rfl, iff_of_true rfl (Or.inl hpos), fun _ => h.reopened hf, fun hne => absurd rfl hne⟩
  | none =>
    have hn : openers O nm = 0 := by
      have := mt h.isSome_find.mpr (by rw [hfind]; nofun)
      omega
    simp only
    -- a new object, which is deleted again if there is no Unix file
    rw [runs_bind_of_yields (show Yields (DB.newFile nm) s s.nextFile false { s with
      files := Function.update s.files s.nextFile (some ⟨nm, 0, false⟩)
      nextFile := s.nextFile + 1 } from rfl)]
    set s₁ : Sys := { s with
      files := Function.update s.files s.nextFile (some ⟨nm, 0, false⟩)
      nextFile := s.nextFile + 1 } with hs₁
    have hobj : s₁.files s.nextFile = some ⟨nm, 0, false⟩ := Function.update_self _ _ _
    cases huf : s.unix nm with
    | none =>
      have hopen : Yields (File.open s.nextFile) s₁ .UNIXERR false s₁ := by
        unfold File.open
        refine (yields_fileAt hobj).bind (d := false) ?_
        rw [if_pos rfl]
        refine (Yields.get s₁).bind (d := false) ?_
        refine (yields_unixCall_of_io (s := s₁) h.io).bind (d := false) ?_
        rw [if_neg (by rw [show s₁.unix nm = none from huf]; nofun)]
        exact Yields.pure _ _
      rw [runs_bind_of_yields hopen, if_pos (by decide), runs_setFile_bind, runs_pure]
      refine ⟨rfl, iff_of_false nofun ?_, nofun, fun _ => ?_⟩
      · rintro (hpos | hu)
        · omega
        · cases hu
      · refine ⟨h.io, Nat.succ_pos _, h.table, fun nm' f' hmem => ?_, fun f' hnone => ?_,
          fun nm' f' hmem => ⟨(h.range nm' f' hmem).1, Nat.lt_succ_of_lt (h.range nm' f' hmem).2⟩⟩
        · have hff : f' ≠ s.nextFile := Nat.ne_of_lt (h.range nm' f' hmem).2
          refine Eq.trans ?_ (h.obj nm' f' hmem)
          exact (Function.update_of_ne hff _ _).trans (Function.update_of_ne hff _ _)
        · by_cases hff : f' = s.nextFile
          · subst hff
            exact Function.update_self _ _ _
          · refine Eq.trans ?_ (h.deleted f' hnone)
            exact (Function.update_of_ne hff _ _).trans (Function.update_of_ne hff _ _)
    | some uf =>
      set s₂ : Sys := { s₁ with
        files := Function.update s₁.files s.nextFile (some ⟨nm, 1, true⟩) } with hs₂
      have hopen : Yields (File.open s.nextFile) s₁ .OK false s₂ := by
        unfold File.open
        refine (yields_fileAt hobj).bind (d := false) ?_
        rw [if_pos rfl]
        refine (Yields.get s₁).bind (d := false) ?_
        refine (yields_unixCall_of_io (s := s₁) h.io).bind (d := false) ?_
        rw [if_pos ⟨rfl, by rw [show s₁.unix nm = some uf from huf]; rfl⟩]
        exact (yields_setFile s.nextFile _ s₁).bind (Yields.pure _ _)
      obtain ⟨t, ht⟩ : ∃ t, s.openFiles.insert? nm s.nextFile = some t := by
        refine Option.ne_none_iff_exists'.mp fun hi => ?_
        exact (ChainTable.insert?_eq_none_iff _ _ _).mp hi hfind
      have hins : OpenFileHashTbl.insert s₂.openFiles nm s.nextFile = (.OK, t) := by
        unfold OpenFileHashTbl.insert
        rw [show s₂.openFiles = s.openFiles from rfl, ht]
      rw [runs_bind_of_yields hopen, if_neg (by decide), runs_get_bind, hins, runs_set_bind,
        runs_pure]
      refine ⟨rfl, iff_of_true rfl (Or.inr rfl), fun _ => ?_, fun hne => absurd rfl hne⟩
      have hfiles : s₂.files = Function.update s.files s.nextFile (some ⟨nm, 1, true⟩) :=
        Function.update_idem _ _ _
      have key := h.opened hn ht
      rw [← hfiles] at key
      exact key

/-- One opener less of a name that stays open. -/
theorem released (h : OpenExact s ((nm, f) ::ₘ O)) (hpos : 0 < openers O nm) :
    OpenExact { s with files := Function.update s.files f (some ⟨nm, openers O nm, true⟩) } O where
  io := h.io
  nextFile := h.nextFile
  table nm' f' := by
    refine (h.table nm' f').trans (Multiset.mem_cons.trans ⟨?_, Or.inr⟩)
    rintro (he | hmem)
    · -- another opener of the name holds the same object
      obtain ⟨f'', hmem⟩ := openers_pos_iff.mp hpos
      cases he
      rwa [h.shared (Multiset.mem_cons_self _ _) (Multiset.mem_cons_of_mem hmem)] at hmem
    · exact hmem
  obj nm' f' hmem := by
    have hself := Multiset.mem_cons_self (nm, f) O
    by_cases hff : f' = f
    · subst hff
      obtain rfl := h.name_eq hself (Multiset.mem_cons_of_mem hmem)
      exact Function.update_self _ _ _
    · have hne : nm' ≠ nm := by
        rintro rfl
        exact hff (h.shared hself (Multiset.mem_cons_of_mem hmem))
      have hobj := h.obj nm' f' (Multiset.mem_cons_of_mem hmem)
      rw [openers_cons_of_ne hne] at hobj
      exact (Function.update_of_ne hff _ _).trans hobj
  deleted f' hnone := by
    have hff : f' ≠ f := by
      rintro rfl
      obtain ⟨f'', hmem⟩ := openers_pos_iff.mp hpos
      obtain rfl := h.shared (Multiset.mem_cons_self _ _) (Multiset.mem_cons_of_mem hmem)
      exact hnone nm hmem
    refine (Function.update_of_ne hff _ _).trans (h.deleted f' fun nm' hmem => ?_)
    rcases Multiset.mem_cons.mp hmem with he | hmem
    · exact hff (Prod.mk.inj he).2
    · exact hnone nm' hmem
  range nm' f' hmem := h.range nm' f' (Multiset.mem_cons_of_mem hmem)

/-- The last opener of a name is gone, and with it the object. -/
theorem closed (h : OpenExact s ((nm, f) ::ₘ O)) (hn : openers O nm = 0) {t : OpenFileHashTbl}
    (ht : s.openFiles.erase? nm = some t) :
    OpenExact { s with openFiles := t, files := Function.update s.files f none } O where
  io := h.io
  nextFile := h.nextFile
  table nm' f' := by
    show ChainTable.find t nm' = some f' ↔ _
    rw [ChainTable.find_erase? ht]
    split
    next hne =>
      subst hne
      refine iff_of_false nofun fun hmem => ?_
      exact absurd (openers_pos_iff.mpr ⟨f', hmem⟩) (by omega)
    next hne =>
      refine (h.table nm' f').trans (Multiset.mem_cons.trans ⟨fun he => ?_, Or.inr⟩)
      exact he.resolve_left fun he => hne (Prod.mk.inj he).1
  obj nm' f' hmem := by
    have hself := Multiset.mem_cons_self (nm, f) O
    have hne : nm' ≠ nm := by
      rintro rfl
      exact absurd (openers_pos_iff.mpr ⟨f', hmem⟩) (by omega)
    have hff : f' ≠ f := by
      rintro rfl
      exact hne (h.name_eq hself (Multiset.mem_cons_of_mem hmem))
    have hobj := h.obj nm' f' (Multiset.mem_cons_of_mem hmem)
    rw [openers_cons_of_ne hne] at hobj
    exact (Function.update_of_ne hff _ _).trans hobj
  deleted f' hnone := by
    by_cases hff : f' = f
    · subst hff
      exact Function.update_self _ _ _
    · refine (Function.update_of_ne hff _ _).trans (h.deleted f' fun nm' hmem => ?_)
      rcases Multiset.mem_cons.mp hmem with he | hmem
      · exact hff (Prod.mk.inj he).2
      · exact hnone nm' hmem
  range nm' f' hmem := h.range nm' f' (Multiset.mem_cons_of_mem hmem)

/-- `DB::closeFile` of an outstanding opener returns `OK` and leaves every other name alone: its
entry, its object and its Unix file. -/
theorem closeFile (h : OpenExact s ((nm, f) ::ₘ O)) :
    Runs True (DB.closeFile f) s fun status e s' => e = false ∧ status = .OK ∧ OpenExact s' O ∧
      ∀ nm', nm' ≠ nm → s'.openFiles.find nm' = s.openFiles.find nm' ∧ s'.unix nm' = s.unix nm' ∧
        ∀ f', (nm', f') ∈ O → s'.files f' = s.files f' := by
  have hself := Multiset.mem_cons_self (nm, f) O
  have hobj := h.obj nm f hself
  rw [openers_cons_self] at hobj
  -- the objects of other names are other objects
  have hother : ∀ nm' f', nm' ≠ nm → (nm', f') ∈ O → f' ≠ f := by
    rintro nm' f' hne hmem rfl
    exact hne (h.name_eq hself (Multiset.mem_cons_of_mem hmem))
  unfold DB.closeFile
  rw [if_neg (h.range nm f hself).1.ne']
  have hcnt : ((openers O nm + 1 : Nat) : Int) - 1 = openers O nm := by omega
  set s₁ : Sys := { s with files := Function.update s.files f (some ⟨nm, openers O nm, true⟩) }
    with hs₁
  have hobj₁ : s₁.files f = some ⟨nm, openers O nm, true⟩ := Function.update_self _ _ _
  by_cases hpos : 0 < openers O nm
  · have hclose : Yields (File.close f) s .OK false s₁ := by
      unfold File.close
      refine (yields_fileAt hobj).bind (d := false) ?_
      rw [if_neg (show ¬((openers O nm + 1 : Nat) : Int) ≤ 0 by omega), hcnt]
      refine (yields_setFile f _ s).bind (d := false) ?_
      rw [if_neg (show ¬(openers O nm : Int) = 0 by omega)]
      exact Yields.pure _ _
    rw [runs_bind_of_yields hclose, runs_bind_of_yields (yields_fileAt hobj₁),
      if_neg (show ¬(openers O nm : Int) = 0 by omega), runs_pure]
    refine ⟨rfl, rfl, h.released hpos, fun nm' hne => ⟨rfl, rfl, fun f' hmem => ?_⟩⟩
    exact Function.update_of_ne (hother nm' f' hne hmem) _ _
  · have hn : openers O nm = 0 := by omega
    rw [hn] at hs₁ hobj₁ hcnt
    -- what is left once the file has been flushed and closed
    have hclose : Runs True (File.close f) s fun _ e s₂ => e = false ∧
        ∃ s₃, OnlyPages nm s₁ s₃ ∧
          s₂ = { s₃ with files := Function.update s₃.files f (some ⟨nm, 0, false⟩) } := by
      unfold File.close
      rw [runs_bind_of_yields (yields_fileAt hobj), hn,
        if_neg (show ¬((0 + 1 : Nat) : Int) ≤ 0 by decide),
        if_pos (show ((0 + 1 : Nat) : Int) - 1 = 0 by decide)]
      refine (runs_bind_of_yields (yields_setFile f _ s)).mpr ?_
      rw [show (((0 + 1 : Nat) : Int) - 1) = (0 : Nat) from rfl, ← hs₁]
      have hflush : Runs True (BufMgr.flushFile f) s₁ fun _ e s₃ =>
          e = false ∧ OnlyPages nm s₁ s₃ := by
        unfold BufMgr.flushFile
        rw [runs_get_bind]
        exact BufMgr.runs_flushFrames (s := s₁) h.io hobj₁ _ _
      refine hflush.bind ?_
      rintro status e s₃ ⟨rfl, h₃⟩
      have hobj₃ : s₃.files f = some ⟨nm, 0, true⟩ := (congrFun h₃.files f).trans hobj₁
      rw [runs_bind_of_yields (yields_unixCall_of_io (h₃.io.trans h.io)),
        runs_bind_of_yields (yields_fileAt hobj₃), runs_bind_of_yields (yields_setFile f _ s₃),
        if_neg (by decide), runs_pure]
      exact ⟨rfl, s₃, h₃, rfl⟩
    refine hclose.bind ?_
    rintro status e s₂ ⟨rfl, s₃, h₃, rfl⟩
    set s₂ : Sys := { s₃ with files := Function.update s₃.files f (some ⟨nm, 0, false⟩) } with hs₂
    have hobj₂ : s₂.files f = some ⟨nm, 0, false⟩ := Function.update_self _ _ _
    obtain ⟨t, ht⟩ : ∃ t, s.openFiles.erase? nm = some t := by
      refine Option.ne_none_iff_exists'.mp fun he => ?_
      have hfind := (h.table nm f).mpr hself
      have hnone : s.openFiles.find nm = none := (ChainTable.erase?_eq_none_iff _ _).mp he
      rw [hnone] at hfind
      cases hfind
    have herase : OpenFileHashTbl.erase s₂.openFiles nm = (.OK, t) := by
      unfold OpenFileHashTbl.erase
      rw [show s₂.openFiles = s.openFiles from h₃.openFiles, ht]
    rw [runs_bind_of_yields (yields_fileAt hobj₂), if_pos rfl, runs_get_bind, herase,
      runs_set_bind, if_neg (by decide), runs_setFile_bind, runs_pure]
    refine ⟨rfl, rfl, ?_, fun nm' hne => ⟨?_, h₃.unix nm' hne, fun f' hmem => ?_⟩⟩
    · -- up to the object that is deleted, nothing has changed since `s` but pages
      have hfiles : Function.update s₂.files f none = Function.update s.files f none := by
        rw [hs₂]
        show Function.update (Function.update s₃.files f _) f none = _
        rw [Function.update_idem, h₃.files, hs₁]
        exact Function.update_idem _ _ _
      refine (h.closed hn ht).sameFiles ⟨hfiles, h₃.nextFile, rfl, h₃.io, h₃.isSome⟩
    · exact (ChainTable.find_erase? ht nm').trans (if_neg hne)
    · have hff := hother nm' f' hne hmem
      show Function.update s₂.files f none f' = s.files f'
      rw [Function.update_of_ne hff, hs₂]
      refine (Function.update_of_ne hff _ _).trans ?_
      rw [h₃.files, hs₁]
      exact Function.update_of_ne hff _ _

end OpenExact

/-! ## Runs -/

variable {s₀ : Sys} {O : Multiset (FileName × FilePtr)}

theorem NoneOpen.openExact (h : NoneOpen s) : OpenExact s 0 := by
  refine ⟨h.io, h.nextFile, fun nm f => ?_, fun _ _ hmem => ?_, fun f _ => ?_, fun _ _ hmem => ?_⟩
  · have hfind : s.openFiles.find nm = none := by
      rw [h.openFiles]
      exact ChainTable.find_empty _ _ _
    rw [hfind]
    exact iff_of_false nofun (Multiset.notMem_zero _)
  · exact absurd hmem (Multiset.notMem_zero _)
  · rw [h.files]
  · exact absurd hmem (Multiset.notMem_zero _)

/-- The invariant holds in every reachable state. -/
theorem openExact_of_run (h₀ : NoneOpen s₀) (hrun : DBRun s₀ s O) : OpenExact s O := by
  induction hrun with
  | start => exact h₀.openExact
  | @createFile s s' O nm status e _ call ih =>
    by_cases hnm : nm = []
    · -- an empty name is refused before anything else is done
      unfold DB.createFile at call
      rw [if_pos hnm] at call
      obtain ⟨-, rfl, -⟩ := yields_pure.mp call
      exact ih
    · exact ((ih.createFile hnm).1 _ _ _ call).2.1
  | @openFile s s' O nm f e _ call ih =>
    by_cases hnm : nm = []
    · unfold DB.openFile at call
      rw [if_pos hnm] at call
      obtain ⟨he, -, -⟩ := yields_pure.mp call
      cases he
    · exact ((ih.openFile hnm).1 _ _ _ call).2.2.1 rfl
  | @openFail s s' O nm status f e _ call fail ih =>
    by_cases hnm : nm = []
    · unfold DB.openFile at call
      rw [if_pos hnm] at call
      obtain ⟨-, rfl, -⟩ := yields_pure.mp call
      exact ih
    · exact ((ih.openFile hnm).1 _ _ _ call).2.2.2 fail
  | closeFile _ call ih => exact (ih.closeFile.1 _ _ _ call).2.2.1
  | @destroyFile s s' O nm status e _ call ih =>
    by_cases hnm : nm = []
    · unfold DB.destroyFile at call
      rw [if_pos hnm] at call
      obtain ⟨-, rfl, -⟩ := yields_pure.mp call
      exact ih
    · exact ((ih.destroyFile hnm).1 _ _ _ call).2.1
  | pages _ same ih => exact ih.sameFiles same

/-- The open-file table is exact. In every reachable state a name has one entry if it has
outstanding openers and none otherwise, all its openers hold one object that counts them,
`destroyFile` returns `FILEOPEN` and `createFile` returns `FILEEXISTS` exactly while there are
openers (or, for `createFile`, the Unix file exists), and `closeFile` returns `OK` and leaves
other names alone. -/
theorem openFiles_exact (h₀ : NoneOpen s₀) (hrun : DBRun s₀ s O) :
    (∀ nm, s.openFiles.entries.countP (fun x => x.1 = nm) = if 0 < openers O nm then 1 else 0) ∧
    (∀ nm f, (nm, f) ∈ O →
      s.openFiles.find nm = some f ∧ s.files f = some ⟨nm, openers O nm, true⟩) ∧
    (∀ nm, nm ≠ [] → Runs True (DB.destroyFile nm) s fun status _ _ =>
      status = .FILEOPEN ↔ 0 < openers O nm) ∧
    (∀ nm, nm ≠ [] → Runs True (DB.createFile nm) s fun status _ _ =>
      status = .FILEEXISTS ↔ 0 < openers O nm ∨ (s.unix nm).isSome) ∧
    ∀ nm f, (nm, f) ∈ O → Runs True (DB.closeFile f) s fun status _ s' => status = .OK ∧
      ∀ nm', nm' ≠ nm → s'.openFiles.find nm' = s.openFiles.find nm' ∧
        s'.unix nm' = s.unix nm' ∧ ∀ f', (nm', f') ∈ O → s'.files f' = s.files f' := by
  have h := openExact_of_run h₀ hrun
  refine ⟨fun nm => ?_, fun nm f hmem => ⟨(h.table nm f).mpr hmem, h.obj nm f hmem⟩,
    fun nm hnm => ?_, fun nm hnm => ?_, fun nm f hmem => ?_⟩
  · rw [ChainTable.countP_entries]
    exact if_congr h.isSome_find rfl rfl
  · exact (h.destroyFile hnm).mono fun _ _ _ hpost => hpost.2.2
  · exact (h.createFile hnm).mono fun _ _ _ hpost => hpost.2.2
  · obtain ⟨O', rfl⟩ := Multiset.exists_cons_of_mem hmem
    refine h.closeFile.mono fun status e s' hpost => ⟨hpost.2.1, fun nm' hne => ?_⟩
    obtain ⟨h₁, h₂, h₃⟩ := hpost.2.2.2 nm' hne
    refine ⟨h₁, h₂, fun f' hmem' => h₃ f' ?_⟩
    exact (Multiset.mem_cons.mp hmem').resolve_left fun he => hne (Prod.mk.inj he).1

/-- A process with a Unix file that it has not opened. -/
def closedFile : Sys where
  unix := fun nm => if nm = [65] then some ⟨1, fun _ => .dbPage ⟨-1, -1, 1⟩⟩ else none
  dataFile := fun _ => none
  io := fun _ => true
  files := fun _ => none
  nextFile := 1
  openFiles := OpenFileHashTbl.new
  buf := BufMgr.new 1 fun _ => ⟨0, BufMgr.htsize_one_pos⟩

/-- The file is opened twice. -/
theorem openFiles_exact_twice : ∃ s, DBRun closedFile s {([65], 1), ([65], 1)} ∧
    s.openFiles.entries.countP (fun x => x.1 = [65]) = 1 ∧
    s.files 1 = some ⟨[65], 2, true⟩ := by
  obtain ⟨r, e, s, hy, hv⟩ := exists_of_eval (s := closedFile)
    (x := do
      let r ← DB.openFile [65]
      let r' ← DB.openFile [65]
      return (r, r'))
    (g := fun r _ _ => r) (v := ((Status.OK, 1), (Status.OK, 1))) (by decide +kernel)
  subst hv
  obtain ⟨r₁, e₁, s₁, e₂, h₁, hrest, -⟩ := hy.of_bind
  obtain ⟨r₂, e₃, s₂, e₄, h₂, hpure, -⟩ := hrest.of_bind
  obtain ⟨hr, rfl, -⟩ := yields_pure.mp hpure
  cases hr
  have hrun : DBRun closedFile s₂ {([65], 1), ([65], 1)} := .openFile (.openFile .start h₁) h₂
  have key := openFiles_exact ⟨rfl, Nat.one_pos, rfl, rfl⟩ hrun
  exact ⟨s₂, hrun, key.1 [65], (key.2.1 [65] 1 (Multiset.mem_cons_self _ _)).2⟩

end Minirel
