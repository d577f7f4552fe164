import Minirel.HeapFile.Create
import Minirel.HeapFile.Contents
import Minirel.DB.Counts

/-!
# Creating a file that exists

`createHeapFile` finds out whether the file exists by opening it. A file that does not exist is
created, closed and on disk. One that does is reported, but the opener stays: its count is one too
high for good.

## Main definitions

* `CreatedAt`: there is a new heap file of this name, closed and on disk.
* `CreatesExactly`: `createHeapFile` creates a file that does not exist, and has no effect on one
  that does.

## Main results

* `createsExactly_iff`: this is so exactly for the files that do not exist.
-/

namespace Minirel

open Comp

/-- A closed heap file with an empty data page. It is read off the disk, for no page of it is
buffered: the pages in the pool are pages of open files. -/
structure CreatedAt (nm : FileName) (s : Sys) : Prop where
  closed : s.openFiles.find nm = none
  flushed : ∀ f p n, s.buf.hashTable.lookup f p = some n → ∃ nm', s.openFiles.find nm' = some f
  heap : ∃ q H, s.heap? nm = some H ∧ H.pages = [q] ∧ H.hdr.recCnt = 0 ∧ H.hdr.pageCnt = 1 ∧
    H.hdr.firstPage = q ∧ H.hdr.lastPage = q ∧ (H.page q).nextPage = -1 ∧ H.rids = []

/-- The files, the pool and the table of open files with its counts are the same, and a file that
was not open can still be destroyed. -/
structure Untouched (nm : FileName) (s s' : Sys) : Prop where
  unix : s'.unix = s.unix
  buf : s'.buf = s.buf
  openFiles : ∀ nm', s'.openFiles.find nm' = s.openFiles.find nm'
  openCnt : ∀ nm', s'.openCnt nm' = s.openCnt nm'
  destroy : s.openFiles.find nm = none →
    Runs True (destroyHeapFile nm) s' fun st _ _ => st = .OK

/-- `createHeapFile` creates the file if there is none, provided that two frames are left, and
otherwise reports it and has no effect. -/
def CreatesExactly (nm : FileName) (s : Sys) : Prop :=
  (s.unix nm = none → Clean (2 ≤ s.freeFrames) (createHeapFile nm) s fun st s' =>
    st = .OK ∧ CreatedAt nm s') ∧
  (s.unix nm ≠ none → Runs True (createHeapFile nm) s fun st _ s' =>
    st = .FILEEXISTS ∧ Untouched nm s s')

section Exists

variable {s : Sys} {P : Multiset Pin} {v : View} {nm : FileName}

namespace Coh

/-- A name without a Unix file may be taken to belong to the database. -/
theorem own (hc : Coh s P v) (hu : s.unix nm = none) :
    Coh s P { v with foreign := fun nm' => nm' ≠ nm ∧ v.foreign nm' } where
  sound := hc.sound
  numBufs := hc.numBufs
  idle := hc.idle
  io := hc.io
  openFiles := hc.openFiles
  opened nm' f c hh := by
    obtain ⟨h₁, h₂, h₃, h₄, h₅, h₆⟩ := hc.opened nm' f c hh
    exact ⟨h₁, h₂, h₃, h₄, h₅, h₆⟩
  nextFile := hc.nextFile
  absent nm' hf hforeign := by
    by_cases hne : nm' = nm
    · exact hne ▸ hu
    · exact hc.absent nm' hf fun hv => hforeign ⟨hne, hv⟩
  stored := hc.stored
  cached := hc.cached
  pins := hc.pins
  counts := hc.counts

theorem file_eq_none (hc : Coh s P v) (hu : s.unix nm = none) : v.file nm = none := by
  cases hf : v.file nm with
  | none => rfl
  | some fv =>
    obtain ⟨uf, huf, -⟩ := hc.stored nm fv hf
    rw [hu] at huf
    cases huf

/-- A new heap file as its clients see it is there, closed and on disk. -/
theorem createdAt {fv : FileView} {p q : Int} {pg : Page} (hc : Coh s P v)
    (hh : v.handle nm = none) (hf : v.file nm = some fv)
    (hH : HeapAt fv (Heap.fresh nm p q pg)) : CreatedAt nm s where
  closed := by
    rw [hc.openFiles, hh]
    rfl
  flushed f p n hl := by
    obtain ⟨nm', c, -, hh', -⟩ := hc.cached f p n hl
    refine ⟨nm', ?_⟩
    rw [hc.openFiles, hh']
    rfl
  heap := by
    obtain ⟨H, hheap, hsame⟩ := hc.heap? hf hH
    refine ⟨q, H, hheap, hsame.pages, ?_, ?_, ?_, ?_, ?_, hsame.rids.trans Heap.rids_fresh⟩
    · rw [hsame.hdr]
      rfl
    · rw [hsame.hdr]
      rfl
    · rw [hsame.hdr]
      rfl
    · rw [hsame.hdr]
      rfl
    · rw [hsame.page q (List.mem_singleton_self q)]
      rfl

end Coh

/-- `createHeapFile` of a file that exists leaves one more opener behind. -/
theorem OpenTable.createHeapFile_exists (ht : OpenTable s) (hnm : nm ≠ []) (hio : s.io 0 = true)
    (hu : s.unix nm ≠ none) :
    Runs True (createHeapFile nm) s fun st _ s' => st = .FILEEXISTS ∧ s'.unix = s.unix ∧
      s'.buf = s.buf ∧ s'.openCnt nm = s.openCnt nm + 1 ∧
      s'.openFiles.find nm ≠ none := by
  unfold createHeapFile
  refine (ht.openFile nm).bind ?_
  rintro ⟨st, f⟩ e s' ⟨-, hunix, hbuf, -, -, hok, hadd, -⟩
  have hst : st = .OK := hok.mpr ⟨hnm, Or.inr ⟨hio, Option.isSome_iff_ne_none.mpr hu⟩⟩
  obtain ⟨hfind, hcnt⟩ := hadd hst
  subst hst
  dsimp only
  rw [if_pos rfl, runs_pure]
  refine ⟨rfl, hunix, hbuf, hcnt, ?_⟩
  rw [hfind]
  nofun

/-- `createHeapFile` of a file that does not exist. -/
theorem Coh.createHeapFile_absent (hc : Coh s P v) (hnm : nm ≠ []) (hu : s.unix nm = none) :
    Clean (2 ≤ s.freeFrames) (createHeapFile nm) s fun st s' => st = .OK ∧ CreatedAt nm s' := by
  have hf := hc.file_eq_none hu
  have hspec := createHeapFile_spec (T := 2 ≤ s.freeFrames) (hc.own hu) hnm hf (fun hv => hv.1 rfl)
    fun hT => by
      rw [hc.freeFrames_eq] at hT
      exact hT
  refine hspec.mono ?_
  rintro st s' ⟨rfl, p, q, pg, fv, hc', hH⟩
  exact ⟨rfl, hc'.createdAt (hc.handle_eq_none hf) View.file_setFile_self hH⟩

/-- `createHeapFile` does what it should if and only if the file does not exist. -/
theorem createsExactly_iff (hc : Coh s P v) (hopen : ∀ nm f c, v.handle nm = some (f, c) → 0 < c)
    (hnm : nm ≠ []) : CreatesExactly nm s ↔ s.unix nm = none := by
  constructor
  · intro hexact
    by_contra hu
    -- the count of the file that was found is one too high
    have hio : s.io 0 = true := by rw [hc.io]
    obtain ⟨st, e, s', hy, -, -, -, hcnt, -⟩ :=
      ((hc.openTable hopen).createHeapFile_exists hnm hio hu).exists
    have hsame := ((hexact.2 hu).1 st e s' hy).2.openCnt nm
    omega
  · intro hu
    exact ⟨fun _ => hc.createHeapFile_absent hnm hu, fun hne => absurd hu hne⟩

/-- In an empty database with four frames. -/
theorem createsExactly_iff_blank : CreatesExactly [82] (Sys.blank 3) :=
  (createsExactly_iff (Coh.blank 3) nofun (by decide)).mpr rfl

/-- A file is created, created again, and can no longer be destroyed. -/
theorem not_createsExactly_twice : ∃ s₀ s₁ s₂, Yields (createHeapFile [82])
    (Sys.blank 3) .OK false s₀ ∧
    Yields (createHeapFile [82]) s₀ .FILEEXISTS false s₁ ∧
    Yields (destroyHeapFile [82]) s₁ .FILEOPEN false s₂ ∧ s₀.openFiles.find [82] = none ∧
    ¬CreatesExactly [82] s₀ := by
  obtain ⟨r, e, s, hy, hv⟩ := exists_of_eval (s := Sys.blank 3)
    (x := do
      let st ← createHeapFile [82]
      let st₁ ← createHeapFile [82]
      let st₂ ← destroyHeapFile [82]
      return [st, st₁, st₂])
    (g := fun r e _ => (r, e)) (v := ([.OK, .FILEEXISTS, .FILEOPEN], false)) (by decide +kernel)
  obtain ⟨st, e₀, s₀, _, hy₀, k₀, rfl⟩ := hy.of_bind
  obtain ⟨st₁, e₁, s₁, _, hy₁, k₁, rfl⟩ := k₀.of_bind
  obtain ⟨st₂, e₂, s₂, _, hy₂, k₂, rfl⟩ := k₁.of_bind
  obtain ⟨rfl, rfl, -⟩ := yields_pure.mp k₂
  simp only [Prod.mk.injEq, List.cons.injEq, and_true, Bool.or_eq_false_iff] at hv
  obtain ⟨⟨rfl, rfl, rfl⟩, rfl, rfl, rfl, -⟩ := hv
  have hcreate := (Coh.blank 3).createHeapFile_absent (List.cons_ne_nil 82 []) rfl
  have hclosed : s₀.openFiles.find [82] = none := (Clean.of_yields hcreate hy₀).2.closed
  refine ⟨s₀, s₁, s₂, hy₀, hy₁, hy₂, hclosed, fun hexact => ?_⟩
  by_cases hu : s₀.unix [82] = none
  · have hst := (Clean.of_yields (hexact.1 hu) hy₁).1
    cases hst
  · have hsame := ((hexact.2 hu).1 _ _ _ hy₁).2
    have hst := (hsame.destroy hclosed).1 _ _ _ hy₂
    cases hst

end Exists

end Minirel
