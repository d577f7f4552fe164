import Minirel.Disk

/-!
# What a page contains

The content of a page as a client of the buffer manager sees it is that of the frame that holds the
page, and otherwise what is on disk. Writing a page through a `File` object changes one page of one
Unix file.

## Main definitions

* `Sys.disk?`: what is on disk.
* `Sys.content?`: what a client sees.
* `Sys.Agrees`, `Sys.Pending`: whether the frame of a page and the disk are the same.
* `File.transfer?`: what the next Unix call reads.

## Main results

* `File.yields_writePage_ok_iff`: when `File::writePage` succeeds, and what it leaves.
-/

namespace Minirel

open Comp

namespace Sys

/-- The page of a file as it is on disk. -/
def disk? (s : Sys) (file : FilePtr) (p : Int) : Option Block :=
  (s.files file).bind fun fo => (s.unix fo.fileName).bind fun uf => uf.page? p

/-- The content of a page of a file: that of the frame that holds it, and otherwise what is on
disk. -/
def content? (s : Sys) (file : FilePtr) (p : Int) : Option Block :=
  match s.buf.hashTable.lookup file p with
  | some n => some (s.buf.bufPool n)
  | none => s.disk? file p

/-- If the page is in a frame that is not dirty, the frame holds what is on disk. -/
def Agrees (s : Sys) (file : FilePtr) (p : Int) : Prop :=
  ∀ n, s.buf.hashTable.lookup file p = some n → (s.buf.bufTable n).dirty = false →
    s.disk? file p = some (s.buf.bufPool n)

/-- An update of the page is waiting in the pool. -/
def Pending (s : Sys) (file : FilePtr) (p : Int) : Prop :=
  ∃ n, s.buf.hashTable.lookup file p = some n ∧ (s.buf.bufTable n).dirty = true

/-- The state after one Unix call. -/
def called (s : Sys) : Sys := { s with io := fun k => s.io (k + 1) }

end Sys

/-! ## Unix calls, whether they succeed or not -/

namespace File

variable {s : Sys} {file : FilePtr} {fo : File} {uf : UnixFile} {p : Int} {b : Block}

/-- The page that the next Unix call transfers, if it succeeds. -/
def transfer? (s : Sys) (fo : File) (p : Int) : Option Block :=
  if s.io 0 = true ∧ fo.unixFile = true then (s.unix fo.fileName).bind fun uf =>
    uf.page? p else none

/-- What has been transferred is a page of the file. -/
theorem transfer?_eq_some_iff : transfer? s fo p = some b ↔ s.io 0 = true ∧
    fo.unixFile = true ∧ ∃ uf, s.unix fo.fileName = some uf ∧ uf.page? p = some b := by
  unfold transfer?
  split
  next hc => simp [hc.1, hc.2, Option.bind_eq_some_iff]
  next hc =>
    refine iff_of_false nofun fun h => hc ⟨h.1, h.2.1⟩

/-- A dangling `File*` cannot be read through. -/
theorem runs_intread_of_none (hfo : s.files file = none) (old : Block) :
    Runs False (intread file p old) s fun _ _ _ => False := by
  unfold intread
  refine Runs.fileAt_bind nofun fun fo h => ?_
  rw [hfo] at h
  cases h

theorem yields_intread_of_some (hfo : s.files file = some fo) (h : transfer? s fo p = some b)
    (old : Block) : Yields (intread file p old) s (.OK, b) false s.called := by
  unfold transfer? at h
  split at h
  next hc =>
    unfold intread
    refine (yields_fileAt hfo).bind (d := false) ?_
    refine (yields_unixCall s).bind (d := false) ?_
    refine (Yields.get _).bind (d := false) ?_
    rw [if_pos hc]
    dsimp only
    rw [h]
    exact Yields.pure _ _
  next => cases h

theorem yields_intread_of_none (hfo : s.files file = some fo) (h : transfer? s fo p = none)
    (old : Block) : Yields (intread file p old) s (.UNIXERR, old) false s.called := by
  unfold intread
  refine (yields_fileAt hfo).bind (d := false) ?_
  refine (yields_unixCall s).bind (d := false) ?_
  refine (Yields.get _).bind (d := false) ?_
  unfold transfer? at h
  split at h
  next hc =>
    rw [if_pos hc]
    dsimp only
    rw [h]
    exact Yields.pure _ _
  next hc =>
    rw [if_neg hc]
    exact Yields.pure _ _

theorem yields_intwrite_of_success (hfo : s.files file = some fo)
    (huf : s.unix fo.fileName = some uf) (hio : s.io 0 = true) (hopen : fo.unixFile = true)
    (hp : 0 ≤ p) :
    Yields (intwrite file p b) s .OK false { s.called with
      unix := Function.update s.unix fo.fileName (some (uf.write p.toNat b)) } := by
  unfold intwrite
  refine (yields_fileAt hfo).bind (d := false) ?_
  refine (yields_unixCall s).bind (d := false) ?_
  refine (Yields.get _).bind (d := false) ?_
  rw [if_pos ⟨hio, hopen, hp⟩]
  dsimp only
  rw [huf]
  exact (yields_setUnix _ _ _).bind (Yields.pure _ _)

theorem yields_intwrite_of_failure (hfo : s.files file = some fo) (hio : s.io 0 = false) :
    Yields (intwrite file p b) s .UNIXERR false s.called := by
  unfold intwrite
  refine (yields_fileAt hfo).bind (d := false) ?_
  refine (yields_unixCall s).bind (d := false) ?_
  refine (Yields.get _).bind (d := false) ?_
  rw [if_neg fun hc => Bool.noConfusion (hio.symm.trans hc.1)]
  exact Yields.pure _ _

end File

/-- A page with this number can be written through the `File` object. -/
def File.Writable (s : Sys) (fo : File) (pageNo : Int) : Prop :=
  1 ≤ pageNo ∧ fo.unixFile = true ∧ (s.unix fo.fileName).isSome = true

/-- `File::writePage` succeeds if the `File*` does not dangle, the page can be written and the Unix
call succeeds; it changes that page on disk. -/
theorem File.yields_writePage_ok_iff {s s' : Sys} {file : FilePtr} {p : Int}
    {b : Block} {e : Bool} :
    Yields (File.writePage file p b) s .OK e s' ↔ ∃ fo uf, s.files file = some fo ∧
      s.unix fo.fileName = some uf ∧ s.io 0 = true ∧ fo.unixFile = true ∧ 1 ≤ p ∧ e = false ∧
      s' = { s with
        io := fun k => s.io (k + 1)
        unix := Function.update s.unix fo.fileName (some (uf.write p.toNat b)) } := by
  constructor
  · intro hy
    have key : Runs False (writePage file p b) s fun st e s' => st = .OK → ∃ fo uf,
        s.files file = some fo ∧ s.unix fo.fileName = some uf ∧ s.io 0 = true ∧
        fo.unixFile = true ∧ 1 ≤ p ∧ e = false ∧ s' = { s with
          io := fun k => s.io (k + 1)
          unix := Function.update s.unix fo.fileName (some (uf.write p.toNat b)) } := by
      unfold writePage intwrite
      refine Runs.ite (fun _ => runs_pure.mpr nofun) fun hp => ?_
      refine Runs.fileAt_bind nofun fun fo hfo => ?_
      rw [runs_unixCall_bind, runs_get_bind]
      refine Runs.ite (fun hc => ?_) fun _ => runs_pure.mpr nofun
      obtain ⟨hok, hopen, -⟩ := hc
      cases huf : s.unix fo.fileName with
      | none => exact runs_pure.mpr nofun
      | some uf =>
        dsimp only
        rw [runs_setUnix_bind, runs_pure]
        exact fun _ => ⟨fo, uf, hfo, huf, hok, hopen, by omega, rfl, rfl⟩
    exact key.1 _ _ _ hy rfl
  · rintro ⟨fo, uf, hfo, huf, hok, hopen, hp, rfl, rfl⟩
    unfold writePage
    rw [if_neg (by omega)]
    exact yields_intwrite_of_success hfo huf hok hopen (by omega)

/-- `File::writePage` through a `File*` that does not dangle. -/
theorem File.writePage_spec {s : Sys} {file : FilePtr} {fo : File} (hfile : s.files file = some fo)
    (p : Int) (b : Block) :
    Runs False (File.writePage file p b) s fun st _ s' =>
      s'.buf = s.buf ∧ s'.files = s.files ∧
      (st = .OK ↔ s.io 0 = true ∧ fo.Writable s p) ∧
      (st = .OK → s'.io = (fun k => s.io (k + 1)) ∧ ∃ uf, s.unix fo.fileName = some uf ∧
        s'.unix = Function.update s.unix fo.fileName (some (uf.write p.toNat b))) := by
  unfold File.writePage File.Writable
  split
  next hlt =>
    rw [runs_pure]
    refine ⟨rfl, rfl, ⟨nofun, fun h => ?_⟩, nofun⟩
    have := h.2.1
    omega
  next hge =>
    unfold File.intwrite
    rw [runs_bind_of_yields (yields_fileAt hfile), runs_unixCall_bind, runs_get_bind]
    dsimp only
    split
    next hc =>
      obtain ⟨hok, hopen, -⟩ := hc
      cases huf : s.unix fo.fileName with
      | none => exact runs_pure.mpr ⟨rfl, rfl, ⟨nofun, fun h => by simpa using h.2.2.2⟩, nofun⟩
      | some uf =>
        dsimp only
        rw [runs_setUnix_bind, runs_pure]
        exact ⟨rfl, rfl, ⟨fun _ => ⟨hok, by omega, hopen, rfl⟩, fun _ => rfl⟩,
          fun _ => ⟨rfl, uf, rfl, rfl⟩⟩
    next hc =>
      rw [runs_pure]
      exact ⟨rfl, rfl, ⟨nofun, fun h => absurd ⟨h.1, h.2.2.1, by omega⟩ hc⟩, nofun⟩

namespace UnixFile

variable (uf : UnixFile) (b c : Block) {p q : Int}

/-- The page just written. -/
theorem page?_write_self (h : 0 ≤ p) : (uf.write p.toNat b).page? p = some b := by
  unfold page? write
  dsimp only
  rw [if_pos (by omega), if_pos rfl]

/-- The pages there were before. -/
theorem page?_write_of_ne {c : Block} (h : 0 ≤ p) (hne : q ≠ p) (hq : uf.page? q = some c) :
    (uf.write p.toNat b).page? q = some c := by
  unfold page? at hq ⊢
  split at hq
  next hlt =>
    unfold write
    dsimp only
    rw [if_pos (by omega), if_neg (by omega), if_pos (by omega)]
    exact hq
  next => cases hq

end UnixFile

/-! ## What is on disk and what is seen -/

section Pages

variable {s s' : Sys} {file : FilePtr} {fo : File} {uf : UnixFile} {p : Int}

/-- The first pages of a chain of free pages. -/
def Sys.freeChain (s : Sys) (file : FilePtr) : Nat → Int → List Int
  | 0, _ => []
  | k + 1, p =>
    match s.disk? file p with
    | some b => p :: freeChain s file k b.asDBPage.nextFree
    | none => []

/-- The first `k` pages on the free list of the file. -/
def Sys.freeList (s : Sys) (file : FilePtr) (k : Nat) : List Int :=
  match s.disk? file 0 with
  | some hdr => s.freeChain file k hdr.asDBPage.nextFree
  | none => []

/-- The free list is made of what is on disk. -/
theorem Sys.freeList_congr (h : ∀ q, s'.disk? file q = s.disk? file q) (k : Nat) :
    s'.freeList file k = s.freeList file k := by
  have hchain : ∀ k q, s'.freeChain file k q = s.freeChain file k q := by
    intro k
    induction k with
    | zero => exact fun _ => rfl
    | succ k ih =>
      intro q
      unfold Sys.freeChain
      rw [h q]
      cases s.disk? file q with
      | none => rfl
      | some b => exact congrArg (q :: ·) (ih _)
  unfold Sys.freeList
  rw [h 0]
  cases s.disk? file 0 with
  | none => rfl
  | some hdr => exact hchain k _

/-- A page that is written leaves the other pages of a file alone. -/
theorem UnixFile.page?_write {b : Block} {q : Int} (h0 : 0 ≤ p) (hlt : p < uf.size) :
    (uf.write p.toNat b).page? q = if q = p then some b else uf.page? q := by
  split
  next heq =>
    subst heq
    exact uf.page?_write_self b h0
  next hne =>
    unfold UnixFile.page?
    rw [UnixFile.size_write (by omega)]
    split
    next hc => rw [UnixFile.page_write_of_ne (by omega) (by omega)]
    next => rfl

/-- A page that is written through a `File` object changes on disk, and no other page does. -/
theorem disk?_update (hfo : s.files file = some fo) (huf : s.unix fo.fileName = some uf)
    (hsole : ∀ f fo', s.files f = some fo' → fo'.fileName = fo.fileName → f = file)
    (hfiles : s'.files = s.files) {b : Block} (h0 : 0 ≤ p) (hlt : p < uf.size)
    (hunix : s'.unix = Function.update s.unix fo.fileName (some (uf.write p.toNat b)))
    (f : FilePtr) (q : Int) :
    s'.disk? f q = if f = file ∧ q = p then some b else s.disk? f q := by
  unfold Sys.disk?
  rw [hfiles, hunix]
  cases hf : s.files f with
  | none =>
    rw [if_neg]
    · rfl
    · rintro ⟨rfl, -⟩
      rw [hfo] at hf
      cases hf
  | some fo' =>
    rw [Option.bind_some, Option.bind_some]
    by_cases hnm : fo'.fileName = fo.fileName
    · obtain rfl := hsole f fo' hf hnm
      rw [hnm, Function.update_self, huf, Option.bind_some, Option.bind_some,
        UnixFile.page?_write h0 hlt]
      simp
    · rw [Function.update_of_ne hnm, if_neg]
      rintro ⟨rfl, -⟩
      rw [hfo] at hf
      cases hf
      exact hnm rfl

/-- A page that no update is waiting for is seen as it is on disk. -/
theorem content?_eq_disk? (hagree : s.Agrees file p) (hp : ¬s.Pending file p) :
    s.content? file p = s.disk? file p := by
  unfold Sys.content?
  cases hl : s.buf.hashTable.lookup file p with
  | none => rfl
  | some n =>
    refine (hagree n hl ?_).symm
    rw [← Bool.not_eq_true]
    exact fun hd => hp ⟨n, hl, hd⟩

end Pages

end Minirel
