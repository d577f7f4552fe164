import Minirel.BufMgr.Owners

/-!
# Open counts when calls fail

What `openFile` and `closeFile` do to the table of open files and to the counts in the `File`
objects, whatever becomes of the Unix calls they make.

## Main definitions

* `Sys.openCnt`: how many times a file is open.
* `OpenTable`: the table of open files has the objects of files that are open.
* `DirtyOpen`: the pages that have to be written to disk are pages of such files.

## Main results

* `OpenTable.openFile`, `OpenTable.closeFile`: the count of the file goes up or down by one, and no
  other count changes.
* `BufMgr.runs_readPage_sameTable`: reading a page comes to an end and changes no count.
-/

namespace Minirel

open Comp

/-- The number of times a file has been opened and not closed. -/
def Sys.openCnt (s : Sys) (nm : FileName) : Int :=
  match s.openFiles.find nm with
  | some f => ((s.files f).map File.openCnt).getD 0
  | none => 0

/-- The table of open files maps each name to an object of this name that is open. -/
structure OpenTable (s : Sys) : Prop where
  nextFile : 0 < s.nextFile
  entry : ∀ nm f, s.openFiles.find nm = some f →
    0 < f ∧ f < s.nextFile ∧ ∃ c : Int, 0 < c ∧ s.files f = some ⟨nm, c, true⟩

/-- The table and the objects are the same. -/
structure SameTable (s s' : Sys) : Prop where
  files : s'.files = s.files
  nextFile : s'.nextFile = s.nextFile
  openFiles : s'.openFiles = s.openFiles

/-- Other names than `nm` have the entries and the counts they had. -/
def OthersSame (nm : FileName) (s s' : Sys) : Prop :=
  ∀ nm', nm' ≠ nm → s'.openFiles.find nm' = s.openFiles.find nm' ∧ s'.openCnt nm' = s.openCnt nm'

namespace SameTable

variable {s s' s'' : Sys} {nm : FileName}

theorem refl (s : Sys) : SameTable s s := ⟨rfl, rfl, rfl⟩

theorem trans (h : SameTable s s') (h' : SameTable s' s'') : SameTable s s'' :=
  ⟨h'.files.trans h.files, h'.nextFile.trans h.nextFile, h'.openFiles.trans h.openFiles⟩

theorem buf (h : SameTable s s') (b : BufMgr) : SameTable s { s' with buf := b } :=
  ⟨h.files, h.nextFile, h.openFiles⟩

theorem openCnt (h : SameTable s s') (nm : FileName) : s'.openCnt nm = s.openCnt nm := by
  unfold Sys.openCnt
  rw [h.openFiles, h.files]

theorem openTable (h : SameTable s s') (ht : OpenTable s) : OpenTable s' where
  nextFile := h.nextFile ▸ ht.nextFile
  entry nm f hf := by
    rw [h.files, h.nextFile]
    exact ht.entry nm f (h.openFiles ▸ hf)

end SameTable

section Flush

variable {s : Sys} {file : FilePtr}

/-- Writing a page of a file whose object exists. -/
theorem File.runs_writePage_sameTable (hfile : (s.files file).isSome) (p : Int) (b : Block) :
    Runs True (writePage file p b) s fun _ _ s' => SameTable s s' := by
  obtain ⟨fo, hfo⟩ := Option.isSome_iff_exists.mp hfile
  unfold writePage
  refine Runs.ite (fun _ => runs_pure.mpr (.refl s)) fun _ => ?_
  unfold intwrite
  rw [runs_bind_of_yields (yields_fileAt hfo), runs_unixCall_bind, runs_get_bind]
  refine Runs.ite (fun _ => ?_) fun _ => runs_pure.mpr ⟨rfl, rfl, rfl⟩
  split
  · rw [runs_setUnix_bind, runs_pure]
    exact ⟨rfl, rfl, rfl⟩
  · exact runs_pure.mpr ⟨rfl, rfl, rfl⟩

namespace BufMgr

/-- `flushFile` comes to an end, wherever it stops. -/
theorem runs_flushFrames_sameTable (n i : Nat) (hfile : (s.files file).isSome) :
    Runs True (flushFrames file n i) s fun _ _ s' => SameTable s s' := by
  induction n generalizing i s with
  | zero => exact runs_pure.mpr (.refl s)
  | succ n ih =>
    unfold flushFrames
    rw [runs_get_bind]
    refine Runs.ite (fun hheld => ?_) fun _ => ?_
    · refine Runs.ite (fun _ => runs_pure.mpr (.refl s)) fun _ => ?_
      have hframe : Runs True (flushFrame i) s fun _ _ s₁ => SameTable s s₁ := by
        unfold flushFrame
        rw [runs_get_bind]
        refine Runs.ite (fun _ => ?_) fun _ => runs_pure.mpr (.refl s)
        refine (File.runs_writePage_sameTable (hheld.2 ▸ hfile) _ _).bind fun st _ s₁ h₁ => ?_
        refine Runs.ite (fun _ => runs_pure.mpr h₁) fun _ => ?_
        rw [runs_modifyBuf_bind, runs_pure]
        exact h₁.buf _
      refine hframe.bind fun st _ s₁ h₁ => ?_
      refine Runs.ite (fun _ => runs_pure.mpr h₁) fun _ => ?_
      rw [runs_modifyBuf_bind]
      refine (ih (i + 1) ?_).mono fun _ _ s₂ h₂ => (h₁.buf _).trans h₂
      exact h₁.files ▸ hfile
    · refine Runs.ite (fun _ => runs_pure.mpr (.refl s)) fun _ => ?_
      exact ih (i + 1) hfile

end BufMgr

end Flush

namespace OpenTable

variable {s : Sys} {nm : FileName} {f : FilePtr}

/-- Two names have two objects. -/
theorem ne_of_find (h : OpenTable s) {nm' : FileName} {f' : FilePtr}
    (hf : s.openFiles.find nm = some f) (hf' : s.openFiles.find nm' = some f') (hne : nm' ≠ nm) :
    f' ≠ f := by
  rintro rfl
  obtain ⟨-, -, c, -, hobj⟩ := h.entry nm f' hf
  obtain ⟨-, -, c', -, hobj'⟩ := h.entry nm' f' hf'
  rw [hobj] at hobj'
  exact hne (File.mk.inj (Option.some.inj hobj')).1.symm

/-- The entry of a name is set to an object that is no other name's, or removed. -/
theorem update (h : OpenTable s) (nm : FileName) (s' : Sys) {o : Option FilePtr} {c : Int}
    (hnext : s.nextFile ≤ s'.nextFile)
    (hfind : ∀ nm', s'.openFiles.find nm' = if nm' = nm then o else s.openFiles.find nm')
    (hfiles : ∀ nm' f', nm' ≠ nm → s.openFiles.find nm' = some f' → s'.files f' = s.files f')
    (hself : ∀ f', o = some f' → 0 < f' ∧ f' < s'.nextFile ∧ 0 < c ∧
    s'.files f' = some ⟨nm, c, true⟩)
    (hnone : o = none → c = 0) :
    OpenTable s' ∧ s'.openCnt nm = c ∧ OthersSame nm s s' := by
  refine ⟨⟨lt_of_lt_of_le h.nextFile hnext, fun nm' f' hf' => ?_⟩, ?_, fun nm' hne => ?_⟩
  · rw [hfind] at hf'
    split at hf'
    next he =>
      obtain ⟨h₁, h₂, h₃, h₄⟩ := hself f' hf'
      exact ⟨h₁, h₂, c, h₃, he ▸ h₄⟩
    next hne =>
      obtain ⟨h₁, h₂, c', h₃, h₄⟩ := h.entry nm' f' hf'
      exact ⟨h₁, lt_of_lt_of_le h₂ hnext, c', h₃, (hfiles nm' f' hne hf').trans h₄⟩
  · unfold Sys.openCnt
    rw [hfind, if_pos rfl]
    cases ho : o with
    | none => exact (hnone ho).symm
    | some f' =>
      dsimp only
      rw [(hself f' ho).2.2.2]
      rfl
  · have hsame : s'.openFiles.find nm' = s.openFiles.find nm' := (hfind nm').trans (if_neg hne)
    refine ⟨hsame, ?_⟩
    unfold Sys.openCnt
    rw [hsame]
    cases hf' : s.openFiles.find nm' with
    | none => rfl
    | some f' =>
      dsimp only
      rw [hfiles nm' f' hne hf']

/-- `openFile` adds an opener, or changes no count; it succeeds if the file is open or the Unix call
to open it does. An object that is made for nothing is deleted again. -/
theorem openFile (h : OpenTable s) (nm : FileName) :
    Runs True (DB.openFile nm) s fun r e s' => e = false ∧ s'.unix = s.unix ∧ s'.buf = s.buf ∧
      OpenTable s' ∧ OthersSame nm s s' ∧
      (r.1 = .OK ↔ nm ≠ [] ∧
        ((s.openFiles.find nm).isSome ∨ s.io 0 = true ∧ (s.unix nm).isSome)) ∧
      (r.1 = .OK → s'.openFiles.find nm = some r.2 ∧ s'.openCnt nm = s.openCnt nm + 1) ∧
      (r.1 ≠ .OK → s'.openCnt nm = s.openCnt nm) ∧
      (∀ f, s.openFiles.find nm = some f → s'.openFiles.find nm = some f) ∧
      (r.1 ≠ .OK → s.files s.nextFile = none → s'.files s.nextFile = none) := by
  unfold DB.openFile
  refine Runs.ite (fun hnm => runs_pure.mpr ?_) fun hnm => ?_
  · exact ⟨rfl, rfl, rfl, h, fun _ _ => ⟨rfl, rfl⟩, iff_of_false nofun fun hn => hn.1 hnm, nofun,
      fun _ => rfl, fun _ => id, fun _ => id⟩
  rw [runs_get_bind]
  cases hfind : s.openFiles.find nm with
  | some f =>
    -- the object of the other openers counts one more
    obtain ⟨hpos, hlt, c, hc, hobj⟩ := h.entry nm f hfind
    have hcnt : s.openCnt nm = c := by
      unfold Sys.openCnt
      rw [hfind]
      dsimp only
      rw [hobj]
      rfl
    have hopen : Yields (File.open f) s .OK false
        { s with files := Function.update s.files f (some ⟨nm, c + 1, true⟩) } := by
      unfold File.open
      refine (yields_fileAt hobj).bind (d := false) ?_
      rw [if_neg (show ¬c = 0 by omega)]
      exact (yields_setFile f _ s).bind (Yields.pure _ _)
    dsimp only
    rw [runs_bind_of_yields hopen, runs_pure]
    obtain ⟨htable, hcnt', hsame⟩ := h.update nm
      { s with files := Function.update s.files f (some ⟨nm, c + 1, true⟩) } (c := c + 1)
      (o := some f) (le_refl _)
      (fun nm' => by
        split
        next he => rw [he, ← hfind]
        next => rfl)
      (fun nm' f' hne hf' => Function.update_of_ne (h.ne_of_find hfind hf' hne) _ _)
      (fun f' hf' => by
        cases hf'
        exact ⟨hpos, hlt, by omega, Function.update_self _ _ _⟩)
      nofun
    exact ⟨rfl, rfl, rfl, htable, hsame, iff_of_true rfl ⟨hnm, Or.inl rfl⟩,
      fun _ => ⟨hfind, by rw [hcnt', hcnt]⟩, fun hne => absurd rfl hne,
      fun f' hf' => hfind.trans hf', fun hne => absurd rfl hne⟩
  | none =>
    have hcnt : s.openCnt nm = 0 := by
      unfold Sys.openCnt
      rw [hfind]
    have hfresh : ∀ nm' f', s.openFiles.find nm' = some f' → f' ≠ s.nextFile := fun nm' f' hf' =>
      Nat.ne_of_lt (h.entry nm' f' hf').2.1
    dsimp only
    unfold DB.newFile
    rw [bind_assoc, runs_get_bind, bind_assoc, runs_set_bind, runs_pure_bind]
    generalize hs₁ : ({ s with
      files := Function.update s.files s.nextFile (some ⟨nm, 0, false⟩)
      nextFile := s.nextFile + 1 } : Sys) = s₁
    have hobj : s₁.files s.nextFile = some ⟨nm, 0, false⟩ := by
      rw [← hs₁]
      exact Function.update_self _ _ _
    unfold File.open
    rw [bind_assoc, runs_bind_of_yields (yields_fileAt hobj), if_pos rfl, bind_assoc, runs_get_bind,
      bind_assoc, runs_unixCall_bind]
    by_cases hok : s₁.io 0 = true ∧ (s₁.unix nm).isSome
    · rw [if_pos hok, bind_assoc, runs_setFile_bind, runs_pure_bind, if_neg fun hn => hn rfl,
        runs_get_bind]
      subst hs₁
      dsimp only
      obtain ⟨t, ht⟩ : ∃ t, s.openFiles.insert? nm s.nextFile = some t := by
        refine Option.ne_none_iff_exists'.mp fun hi => ?_
        exact (ChainTable.insert?_eq_none_iff _ _ _).mp hi hfind
      have hins : OpenFileHashTbl.insert s.openFiles nm s.nextFile = (.OK, t) := by
        unfold OpenFileHashTbl.insert
        rw [ht]
      rw [hins]
      dsimp only
      rw [runs_set_bind, runs_pure, Function.update_idem]
      have htfind : ∀ nm', ChainTable.find t nm' =
          if nm' = nm then some s.nextFile else s.openFiles.find nm' := fun nm' => by
        rw [ChainTable.find_insert? ht]
        rfl
      generalize hs₂ : ({ unix := s.unix, dataFile := s.dataFile, io := fun n => s.io (n + 1)
                          files := Function.update s.files s.nextFile (some ⟨nm, 1, true⟩)
                          nextFile := s.nextFile + 1, openFiles := t, buf := s.buf } : Sys) = s₂
      obtain ⟨htable, hcnt', hsame⟩ := h.update nm s₂ (c := 1)
        (o := some s.nextFile) (by rw [← hs₂]; exact Nat.le_succ _)
        (by rw [← hs₂]; exact htfind)
        (fun nm' f' _ hf' => by
          rw [← hs₂]
          exact Function.update_of_ne (hfresh nm' f' hf') _ _)
        (fun f' hf' => by
          cases hf'
          rw [← hs₂]
          exact ⟨h.nextFile, Nat.lt_succ_self _, by decide, Function.update_self _ _ _⟩)
        nofun
      refine ⟨rfl, by rw [← hs₂], by rw [← hs₂], htable, hsame, iff_of_true rfl ⟨hnm, Or.inr hok⟩,
        fun _ => ⟨?_, by rw [hcnt', hcnt]; rfl⟩, fun hne => absurd rfl hne, nofun,
        fun hne => absurd rfl hne⟩
      rw [← hs₂]
      exact (htfind nm).trans (if_pos rfl)
    · rw [if_neg hok, runs_pure_bind, if_pos nofun, runs_setFile_bind, runs_pure]
      subst hs₁
      dsimp only
      rw [Function.update_idem]
      generalize hs₂ : ({ unix := s.unix, dataFile := s.dataFile, io := fun n => s.io (n + 1)
                          files := Function.update s.files s.nextFile none
                          nextFile := s.nextFile + 1, openFiles := s.openFiles
                          buf := s.buf } : Sys) = s₂
      obtain ⟨htable, hcnt', hsame⟩ := h.update nm s₂ (c := 0) (o := none)
        (by rw [← hs₂]; exact Nat.le_succ _)
        (fun nm' => by
          rw [← hs₂]
          split
          next he => rw [he, ← hfind]
          next => rfl)
        (fun nm' f' _ hf' => by
          rw [← hs₂]
          exact Function.update_of_ne (hfresh nm' f' hf') _ _)
        nofun fun _ => rfl
      refine ⟨rfl, rfl, rfl, htable, hsame, iff_of_false nofun ?_, nofun,
        fun _ => by rw [hcnt', hcnt], nofun, fun _ _ => Function.update_self _ _ _⟩
      rintro ⟨-, hn | hn⟩
      · cases hn
      · exact hok hn

/-- `closeFile` of an open file takes an opener away. The last one takes the entry with it, whatever
`flushFile` and the Unix call return. -/
theorem closeFile (h : OpenTable s) (hf : s.openFiles.find nm = some f) :
    Runs True (DB.closeFile f) s fun _ _ s' => OpenTable s' ∧ OthersSame nm s s' ∧
      s'.openCnt nm = s.openCnt nm - 1 := by
  obtain ⟨hpos, hlt, c, hc, hobj⟩ := h.entry nm f hf
  have hcnt : s.openCnt nm = c := by
    unfold Sys.openCnt
    rw [hf]
    dsimp only
    rw [hobj]
    rfl
  unfold DB.closeFile File.close
  rw [if_neg hpos.ne', bind_assoc, runs_bind_of_yields (yields_fileAt hobj)]
  dsimp only
  rw [if_neg (show ¬c ≤ 0 by omega), bind_assoc, runs_setFile_bind]
  by_cases hlast : c - 1 = 0
  · -- the last opener
    rw [if_pos hlast, bind_assoc]
    generalize hs₁ : ({ s with
      files := Function.update s.files f (some ⟨nm, c - 1, true⟩) } : Sys) = s₁
    have hobj₁ : s₁.files f = some ⟨nm, c - 1, true⟩ := by
      rw [← hs₁]
      exact Function.update_self _ _ _
    have hflush : Runs True (BufMgr.flushFile f) s₁ fun _ _ s₂ => SameTable s₁ s₂ := by
      unfold BufMgr.flushFile
      rw [runs_get_bind]
      exact BufMgr.runs_flushFrames_sameTable _ _ (by rw [hobj₁]; rfl)
    refine hflush.bind fun _ _ s₂ h₂ => ?_
    have hobj₂ : s₂.files f = some ⟨nm, c - 1, true⟩ := by
      rw [h₂.files]
      exact hobj₁
    rw [bind_assoc, runs_unixCall_bind, bind_assoc,
      runs_bind_of_yields (yields_fileAt (s := { s₂ with io := fun n => s₂.io (n + 1) }) hobj₂),
      bind_assoc, runs_setFile_bind]
    dsimp only
    generalize hs₃ : ({ s₂ with
      io := fun n => s₂.io (n + 1)
      files := Function.update s₂.files f (some ⟨nm, c - 1, false⟩) } : Sys) = s₃
    have hobj₃ : s₃.files f = some ⟨nm, c - 1, false⟩ := by
      rw [← hs₃]
      exact Function.update_self _ _ _
    obtain ⟨t, ht⟩ : ∃ t, s.openFiles.erase? nm = some t := by
      refine Option.ne_none_iff_exists'.mp fun he => ?_
      have hnone : s.openFiles.find nm = none := (ChainTable.erase?_eq_none_iff _ _).mp he
      rw [hnone] at hf
      cases hf
    have hopen₃ : s₃.openFiles = s.openFiles := by
      rw [← hs₃]
      exact h₂.openFiles.trans (by rw [← hs₁])
    have herase : OpenFileHashTbl.erase s₃.openFiles nm = (.OK, t) := by
      unfold OpenFileHashTbl.erase
      rw [hopen₃, ht]
    have hend : Runs True (fileAt f >>= fun fo => do
        if fo.openCnt = 0 then
          let s ← get
          set { s with openFiles := (OpenFileHashTbl.erase s.openFiles fo.fileName).2 }
          if (OpenFileHashTbl.erase s.openFiles fo.fileName).1 ≠ .OK then return .BADFILEPTR else
          setFile f none
          return .OK
        else return Status.OK) s₃ fun _ _ s' => OpenTable s' ∧ OthersSame nm s s' ∧
          s'.openCnt nm = s.openCnt nm - 1 := by
      rw [runs_bind_of_yields (yields_fileAt hobj₃), if_pos hlast, runs_get_bind]
      dsimp only
      rw [herase, runs_set_bind, if_neg fun hn => hn rfl, runs_setFile_bind, runs_pure]
      generalize hs₄ : ({ s₃ with
        openFiles := t, files := Function.update s₃.files f none } : Sys) = s₄
      obtain ⟨htable, hcnt', hsame⟩ := h.update nm s₄ (c := 0) (o := none)
        (by rw [← hs₄, ← hs₃]; exact (h₂.nextFile.trans (by rw [← hs₁])).ge)
        (by rw [← hs₄]; exact ChainTable.find_erase? ht)
        (fun nm' f' hne hf' => by
          have hff := h.ne_of_find hf hf' hne
          rw [← hs₄]
          refine (Function.update_of_ne hff _ _).trans ?_
          rw [← hs₃]
          refine (Function.update_of_ne hff _ _).trans ?_
          rw [h₂.files, ← hs₁]
          exact Function.update_of_ne hff _ _)
        (fun f' hn => absurd hn.symm (Option.some_ne_none f')) fun _ => rfl
      exact ⟨htable, hsame, by rw [hcnt', hcnt, hlast]⟩
    split
    · rw [runs_pure_bind]
      exact hend
    · rw [runs_pure_bind]
      exact hend
  · rw [if_neg hlast, runs_pure_bind]
    generalize hs₁ : ({ s with
      files := Function.update s.files f (some ⟨nm, c - 1, true⟩) } : Sys) = s₁
    have hobj₁ : s₁.files f = some ⟨nm, c - 1, true⟩ := by
      rw [← hs₁]
      exact Function.update_self _ _ _
    rw [runs_bind_of_yields (yields_fileAt hobj₁), if_neg hlast, runs_pure]
    obtain ⟨htable, hcnt', hsame⟩ := h.update nm s₁ (c := c - 1) (o := some f)
      (by rw [← hs₁])
      (fun nm' => by
        rw [← hs₁]
        split
        next he => rw [he, ← hf]
        next => rfl)
      (fun nm' f' hne hf' => by
        rw [← hs₁]
        exact Function.update_of_ne (h.ne_of_find hf hf' hne) _ _)
      (fun f' hf' => by
        cases hf'
        refine ⟨hpos, ?_, by omega, hobj₁⟩
        rw [← hs₁]
        exact hlt)
      fun hn => absurd hn (Option.some_ne_none f)
    exact ⟨htable, hsame, by rw [hcnt', hcnt]⟩

end OpenTable

/-! ## Reading pages -/

/-- Every page in the pool that has yet to be written to disk is a page of an open file. -/
def DirtyOpen (s : Sys) : Prop :=
  ∀ n < s.buf.numBufs, (s.buf.bufTable n).dirty = true →
    ∃ nm, s.openFiles.find nm = some (s.buf.bufTable n).file

section Reading

variable {s s' : Sys} {P : Multiset Pin} {nm : FileName} {file : FilePtr} {p : Int}

theorem OpenTable.isSome (ht : OpenTable s) (hf : s.openFiles.find nm = some file) :
    (s.files file).isSome := by
  obtain ⟨-, -, c, -, hobj⟩ := ht.entry nm file hf
  rw [hobj]
  rfl

/-- Frames that are dirty afterwards were dirty before. -/
theorem DirtyOpen.mono (hd : DirtyOpen s) (hN : s'.buf.numBufs = s.buf.numBufs)
    (hdesc : ∀ n, (s'.buf.bufTable n).dirty = true → (s.buf.bufTable n).dirty = true ∧
      (s'.buf.bufTable n).file = (s.buf.bufTable n).file)
    (hfind : ∀ nm f, s.openFiles.find nm = some f → s'.openFiles.find nm = some f) :
    DirtyOpen s' := by
  intro n hn hdirty
  obtain ⟨h₁, h₂⟩ := hdesc n hdirty
  obtain ⟨nm, hf⟩ := hd n (hN ▸ hn) h₁
  exact ⟨nm, by rw [h₂]; exact hfind nm _ hf⟩

theorem File.runs_readPage_sameTable (hfile : (s.files file).isSome) (p : Int) (b : Block) :
    Runs True (readPage file p b) s fun _ _ s' => SameTable s s' := by
  obtain ⟨fo, hfo⟩ := Option.isSome_iff_exists.mp hfile
  unfold readPage
  refine Runs.ite (fun _ => runs_pure.mpr (.refl s)) fun _ => ?_
  unfold intread
  rw [runs_bind_of_yields (yields_fileAt hfo), runs_unixCall_bind, runs_get_bind]
  refine Runs.ite (fun _ => ?_) fun _ => runs_pure.mpr ⟨rfl, rfl, rfl⟩
  split
  · exact runs_pure.mpr ⟨rfl, rfl, rfl⟩
  · exact runs_pure.mpr ⟨rfl, rfl, rfl⟩

namespace BufMgr

/-- `allocBuf` comes to an end, for the page that it writes back is a page of an open file. -/
theorem runs_allocBuf_sameTable (ht : OpenTable s) (hd : DirtyOpen s) (hP : Pinned s.buf P) :
    Runs True allocBuf s fun _ _ s' => SameTable s s' ∧ s'.buf.numBufs = s.buf.numBufs ∧
      s'.buf.bufTable = s.buf.bufTable ∧ ∀ f p, s.buf.hashTable.lookup f p = none →
        s'.buf.hashTable.lookup f p = none := by
  have hsw := swept_spec s
  have hlook : ∀ f p, s.buf.hashTable.lookup f p = none →
      (swept s).buf.hashTable.lookup f p = none := fun f p => lookup_swept
  refine runs_allocBuf (fun _ => ⟨⟨rfl, rfl, rfl⟩, hsw.numBufs, hsw.bufTable, hlook⟩)
    (fun _ _ => ⟨⟨rfl, rfl, rfl⟩, hsw.numBufs, hsw.bufTable, hlook⟩) fun _ hdirty => ?_
  have hhand : victim s < s.buf.numBufs := hsw.clockHand hP.numBufs_pos hP.clockHand_lt
  rw [hsw.bufTable] at hdirty ⊢
  obtain ⟨nm, hf⟩ := hd _ hhand hdirty
  have hwrite := File.runs_writePage_sameTable (s := swept s) (ht.isSome hf)
    (s.buf.bufTable (victim s)).pageNo ((swept s).buf.bufPool (victim s))
  refine (hwrite.and (KeepsBuf.writePage _ _ _ _)).mono ?_
  rintro status e s' ⟨hsame, -, hbuf⟩
  rw [hbuf]
  exact ⟨⟨hsame.files, hsame.nextFile, hsame.openFiles⟩, hsw.numBufs, hsw.bufTable, hlook⟩

/-- `readPage` comes to an end. A page that could not be read is not in the pool. -/
theorem runs_readPage_sameTable (ht : OpenTable s) (hd : DirtyOpen s) (hP : Pinned s.buf P)
    (hf : s.openFiles.find nm = some file) (p : Int) (page : PagePtr) :
    Runs True (readPage file p page) s fun r _ s' => SameTable s s' ∧ DirtyOpen s' ∧
      (r.1 ≠ .OK → s'.buf.hashTable.lookup file p = none) := by
  unfold readPage
  rw [runs_get_bind]
  split
  next n hl =>
    rw [runs_modifyBuf_bind, runs_pure]
    refine ⟨⟨rfl, rfl, rfl⟩, hd.mono rfl (fun m hm => ?_) fun _ _ => id, fun hne => absurd rfl hne⟩
    dsimp only at hm ⊢
    by_cases hmn : m = n
    · subst hmn
      rw [bufTable_setDesc_self] at hm ⊢
      exact ⟨hm, rfl⟩
    · rw [bufTable_setDesc_of_ne _ hmn] at hm ⊢
      exact ⟨hm, rfl⟩
  next hl =>
    refine (runs_allocBuf_sameTable ht hd hP).bind ?_
    rintro ⟨status, n⟩ e s₁ ⟨hsame₁, hN₁, hdesc₁, hlook₁⟩
    have hd₁ : DirtyOpen s₁ := hd.mono hN₁ (fun m hm => by rw [hdesc₁] at hm ⊢; exact ⟨hm, rfl⟩)
      fun nm f hff => hsame₁.openFiles ▸ hff
    dsimp only
    split
    next => exact runs_pure.mpr ⟨hsame₁, hd₁, fun _ => hlook₁ _ _ hl⟩
    next =>
      rw [runs_get_bind]
      refine ((File.runs_readPage_sameTable (hsame₁.files ▸ ht.isSome hf) _ _).and
        (KeepsBuf.readPage _ _ _ s₁)).bind ?_
      rintro ⟨status₂, blk⟩ e₂ s₂ ⟨hsame₂, -, hbuf₂⟩
      have hsame := hsame₁.trans hsame₂
      dsimp only
      rw [runs_modifyBuf_bind, hbuf₂]
      split
      next =>
        rw [runs_pure]
        refine ⟨hsame.buf _, hd₁.mono rfl (fun m hm => ⟨hm, rfl⟩) fun nm f hff => ?_,
          fun _ => hlook₁ _ _ hl⟩
        exact hsame₂.openFiles ▸ hff
      next =>
        -- the frame that the page is entered into is clean
        unfold enterPage
        rw [runs_get_bind]
        obtain ⟨t, hins, -⟩ := BufHashTbl.insert_of_lookup_eq_none n (hlook₁ _ _ hl)
        dsimp only
        generalize hdesc : ((s₁.buf.setPool n blk).bufTable n).Set file p = d
        have hclean : d.dirty = false := by
          rw [← hdesc]
          rfl
        rw [runs_set_bind, runs_pure]
        refine ⟨hsame.buf _, hd₁.mono rfl (fun m hm => ?_) fun nm f hff => ?_, fun hne => ?_⟩
        · dsimp only at hm ⊢
          by_cases hmn : m = n
          · have hself : (((s₁.buf.setPool n blk).setDesc n d).setRefbit n true).bufTable m = d :=
              hmn ▸ bufTable_setDesc_self _ _ _
            rw [hself, hclean] at hm
            cases hm
          · have hother : (((s₁.buf.setPool n blk).setDesc n d).setRefbit n true).bufTable m =
                s₁.buf.bufTable m := bufTable_setDesc_of_ne _ hmn _
            rw [hother] at hm ⊢
            exact ⟨hm, rfl⟩
        · exact hsame₂.openFiles ▸ hff
        · exact absurd (congrArg Prod.fst hins) hne

/-- `unPinPage` marks pages dirty, but this is a page of an open file. -/
theorem runs_unPinPage_sameTable (hd : DirtyOpen s) (hP : Pinned s.buf P)
    (hf : s.openFiles.find nm = some file) (p : Int) (dirty : Bool) :
    Runs True (unPinPage file p dirty) s fun _ _ s' => SameTable s s' ∧ DirtyOpen s' ∧
      s'.buf.bufPool = s.buf.bufPool := by
  have hset : ∀ n (d : BufDesc), s.buf.hashTable.lookup file p = some n →
      d.file = (s.buf.bufTable n).file → DirtyOpen { s with buf := s.buf.setDesc n d } := by
    intro n d hl hfile m hm hdirty
    by_cases hmn : m = n
    · subst hmn
      refine ⟨nm, ?_⟩
      rw [show (s.buf.setDesc m d).bufTable m = d from bufTable_setDesc_self _ _ _, hfile,
        (hP.entry file p m hl).file]
      exact hf
    · rw [show (s.buf.setDesc n d).bufTable m = s.buf.bufTable m from
        bufTable_setDesc_of_ne _ hmn _] at hdirty ⊢
      exact hd m hm hdirty
  unfold unPinPage
  rw [runs_get_bind]
  split
  next => exact runs_pure.mpr ⟨.refl s, hd, rfl⟩
  next n hl =>
    refine Runs.ite (fun _ => ?_) fun _ => ?_
    · rw [runs_modifyBuf_bind, runs_pure]
      exact ⟨⟨rfl, rfl, rfl⟩, hset n _ hl (by split <;> rfl), rfl⟩
    · rw [runs_modifyBuf_bind, runs_pure]
      exact ⟨⟨rfl, rfl, rfl⟩, hset n _ hl (by split <;> rfl), rfl⟩

end BufMgr

/-- The table of open files of a coherent state. -/
theorem Coh.openTable {v : View} (hc : Coh s P v)
    (hopen : ∀ nm f c, v.handle nm = some (f, c) → 0 < c) : OpenTable s where
  nextFile := hc.nextFile
  entry nm f hf := by
    rw [hc.openFiles] at hf
    obtain ⟨⟨g, c⟩, hh, rfl⟩ := Option.map_eq_some_iff.mp hf
    have ho := hc.opened nm g c hh
    exact ⟨Nat.pos_of_ne_zero ho.ne_zero, ho.lt_next, c, hopen nm g c hh, ho.obj⟩

/-- Only pages of open files are buffered. -/
theorem Coh.dirtyOpen {v : View} (hc : Coh s P v) : DirtyOpen s := by
  intro n hn hdirty
  have hcons := hc.sound.consistent
  have hvalid : (s.buf.bufTable n).valid = true := by
    by_contra hv
    rw [hcons.clean n hn (by simpa using hv)] at hdirty
    cases hdirty
  obtain ⟨nm, c, -, hh, -⟩ := hc.cached _ _ n ((hcons.valid_iff n hn).mp hvalid)
  refine ⟨nm, ?_⟩
  rw [hc.openFiles, hh]
  rfl

end Reading

end Minirel
