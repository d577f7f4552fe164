import Minirel.Disk

/-!
# Runs of page allocation

A file made by `File::create` on which pages are allocated, rewritten and disposed of in any order.
What the calls have returned so far says which pages are allocated; the free list on disk and these
pages partition the pages of the file, so that no page is handed out twice.

## Main definitions

* `PageLog`: the pages handed out and not disposed of, and the one handed out first.
* `PageRun file s₀ s L`: the calls lead from `s₀` to `s`, with log `L`.

## Main results

* `logged_of_run`: the file is well formed in every reachable state, with the allocated pages and
  the first page of the log.
* `partition_of_run`: what that says of the free list and of the next call.
-/

namespace Minirel

open Comp

/-- What the clients of a file have been told. -/
structure PageLog where
  /-- The pages that have been handed out and not disposed of. -/
  alloc : Int → Prop
  /-- The page that has been handed out first. -/
  first : Option Int

namespace PageLog

/-- Nothing has been handed out. -/
def empty : PageLog := ⟨fun _ => False, none⟩

/-- A page is handed out. -/
def allocate (L : PageLog) (p : Int) : PageLog :=
  ⟨fun q => q = p ∨ L.alloc q, some (L.first.getD p)⟩

/-- A page is disposed of. -/
def dispose (L : PageLog) (p : Int) : PageLog := ⟨fun q => q ≠ p ∧ L.alloc q, L.first⟩

end PageLog

/-- Calls on one file that lead from `s₀` to `s`. A page is rewritten only while it is allocated,
and `disposePage` is given an allocated page or an argument that it rejects. -/
inductive PageRun (file : FilePtr) (s₀ : Sys) : Sys → PageLog → Prop
  | start : PageRun file s₀ s₀ PageLog.empty
  | allocate {s s' L p e} (run : PageRun file s₀ s L)
      (call : Yields (File.allocatePage file) s (.OK, p) e s') :
      PageRun file s₀ s' (L.allocate p)
  | allocFail {s s' L status p e} (run : PageRun file s₀ s L)
      (call : Yields (File.allocatePage file) s (status, p) e s') (fail : status ≠ .OK) :
      PageRun file s₀ s' L
  | dispose {s s' L p e} (run : PageRun file s₀ s L) (alloc : L.alloc p)
      (call : Yields (File.disposePage file p) s .OK e s') : PageRun file s₀ s' (L.dispose p)
  | reject {s s' L p status e} (run : PageRun file s₀ s L)
      (call : Yields (File.disposePage file p) s status e s') (fail : status ≠ .OK) :
      PageRun file s₀ s' L
  | write {s s' L p b status e} (run : PageRun file s₀ s L) (alloc : L.alloc p)
      (call : Yields (File.writePage file p b) s status e s') : PageRun file s₀ s' L

/-- `File::create` has made the file and `File::open` has opened it. -/
def Created (nm : FileName) (file : FilePtr) (s : Sys) : Prop :=
  ∃ s₁ e₁ s₂ e₂, s₁.io = (fun _ => true) ∧ Yields (File.create nm) s₁ .OK e₁ s₂ ∧
    s₂.files file = some ⟨nm, 0, false⟩ ∧ Yields (File.open file) s₂ .OK e₂ s

variable {s s' s₀ : Sys} {file : FilePtr} {nm : FileName} {uf : UnixFile} {fv : FileView}
  {L : PageLog} {p : Int}

/-- The file is open and well formed, with the pages of the log. -/
structure Logged (nm : FileName) (file : FilePtr) (s : Sys) (L : PageLog) : Prop where
  io : s.io = fun _ => true
  obj : s.files file = some ⟨nm, 1, true⟩
  stored : ∃ uf fv, s.unix nm = some uf ∧ Stored uf fv ∧ fv.alloc = L.alloc ∧
    fv.first = L.first.getD (-1)
  /-- The page handed out first is still allocated. -/
  first_alloc : ∀ p, L.first = some p → L.alloc p

/-! ## What one call does -/

theorem Created.logged (h : Created nm file s) : Logged nm file s PageLog.empty := by
  obtain ⟨s₁, e₁, s₂, e₂, hio, hcreate, hobj, hopen⟩ := h
  -- creation leaves a file with a header page
  have hnew : Runs False (File.create nm) s₁ fun status _ s' => status = .OK →
      s'.io = (fun _ => true) ∧ s'.unix nm = some ⟨1, fun _ => .dbPage ⟨-1, -1, 1⟩⟩ := by
    unfold File.create
    rw [runs_get_bind, runs_bind_of_yields (yields_unixCall_of_io hio)]
    refine Runs.ite (fun _ => runs_pure.mpr nofun) fun _ => ?_
    rw [if_neg (by decide), runs_setUnix_bind]
    refine (runs_bind_of_yields (yields_unixCall_of_io (by exact hio))).mpr ?_
    rw [if_neg (by decide), runs_setUnix_bind]
    refine (runs_bind_of_yields (yields_unixCall_of_io (by exact hio))).mpr ?_
    rw [if_neg (by decide), runs_pure]
    exact fun _ => ⟨hio, Function.update_self _ _ _⟩
  obtain ⟨hio₂, huf⟩ := hnew.1 _ _ _ hcreate rfl
  -- opening sets up the object
  have hyield : Yields (File.open file) s₂ .OK false
      { s₂ with files := Function.update s₂.files file (some ⟨nm, 1, true⟩) } := by
    unfold File.open
    refine (yields_fileAt hobj).bind (d := false) ?_
    rw [if_pos rfl]
    refine (Yields.get s₂).bind (d := false) ?_
    refine (yields_unixCall_of_io hio₂).bind (d := false) ?_
    rw [huf, if_pos ⟨rfl, rfl⟩]
    exact (yields_setFile file _ s₂).bind (Yields.pure _ _)
  obtain ⟨-, -, rfl⟩ := hyield.unique hopen
  exact ⟨hio₂, Function.update_self _ _ _, ⟨_, _, huf, Stored.created, rfl, rfl⟩,
    nofun⟩

namespace Logged

/-- The state with another Unix file under the name. -/
theorem setUnix (h : Logged nm file s L) {L' : PageLog} (hst : Stored uf fv)
    (halloc : fv.alloc = L'.alloc) (hfirst : fv.first = L'.first.getD (-1))
    (hL : ∀ p, L'.first = some p → L'.alloc p) :
    Logged nm file (s.setUnix nm (some uf)) L' :=
  ⟨h.io, h.obj, ⟨uf, fv, Function.update_self _ _ _, hst, halloc, hfirst⟩, hL⟩

/-- `File::allocatePage` returns `OK` and a page that is not allocated. -/
theorem allocatePage (h : Logged nm file s L) :
    ∃ p s', Yields (File.allocatePage file) s (.OK, p) false s' ∧ ¬L.alloc p ∧
      Logged nm file s' (L.allocate p) := by
  obtain ⟨uf, fv, huf, hst, halloc, hfirst⟩ := h.stored
  obtain ⟨p, uf', hy, hnew, hst', -⟩ := File.allocatePage_spec h.io h.obj huf hst
  refine ⟨p, _, hy, halloc ▸ hnew, h.setUnix hst' ?_ ?_ fun q hq => ?_⟩
  · show (fun q => q = p ∨ fv.alloc q) = fun q => q = p ∨ L.alloc q
    rw [halloc]
  · show (if fv.first = -1 then p else fv.first) = L.first.getD p
    cases hL : L.first with
    | none =>
      rw [hL] at hfirst
      exact if_pos hfirst
    | some q =>
      -- a page that is allocated has a positive number
      have hq := (hst.range (halloc ▸ h.first_alloc q hL)).1
      rw [hL] at hfirst
      have hfirst : fv.first = q := hfirst
      rw [hfirst, if_neg (by omega)]
      rfl
  · cases hL : L.first with
    | none =>
      rw [PageLog.allocate, hL] at hq
      exact Or.inl (Option.some.inj hq).symm
    | some r =>
      rw [PageLog.allocate, hL] at hq
      cases hq
      exact Or.inr (h.first_alloc _ hL)

/-- `File::disposePage` of an allocated page rejects the first page and takes any other. -/
theorem disposePage (h : Logged nm file s L) (hp : L.alloc p) :
    (L.first = some p ∧ Yields (File.disposePage file p) s .BADPAGENO false s) ∨
    ∃ s', L.first ≠ some p ∧ Yields (File.disposePage file p) s .OK false s' ∧
      Logged nm file s' (L.dispose p) := by
  obtain ⟨uf, fv, huf, hst, halloc, hfirst⟩ := h.stored
  have hp' : fv.alloc p := halloc ▸ hp
  by_cases hL : L.first = some p
  · rw [hL] at hfirst
    have hfirst : fv.first = p := hfirst
    have hy := File.disposePage_first h.io h.obj huf hst
    rw [hfirst] at hy
    exact Or.inl ⟨hL, hy⟩
  · have hne : p ≠ fv.first := by
      rintro rfl
      cases hF : L.first with
      | none =>
        rw [hF] at hfirst
        have hfirst : fv.first = -1 := hfirst
        have := (hst.range hp').1
        omega
      | some q =>
        rw [hF] at hfirst
        exact hL (hF.trans (congrArg some hfirst.symm))
    obtain ⟨uf', hy, hst', -⟩ := File.disposePage_spec h.io h.obj huf hst hp' hne
    refine Or.inr ⟨_, hL, hy, h.setUnix hst' ?_ hfirst fun q hq => ⟨?_, h.first_alloc q hq⟩⟩
    · show (fun q => q ≠ p ∧ fv.alloc q) = fun q => q ≠ p ∧ L.alloc q
      rw [halloc]
    · rintro rfl
      exact hL hq

/-- What `File::disposePage` rejects it leaves alone. -/
theorem rejected (h : Logged nm file s L) {status : Status} {e : Bool}
    (call : Yields (File.disposePage file p) s status e s') (fail : status ≠ .OK) : s' = s := by
  obtain ⟨uf, fv, huf, ⟨free, hwf, -, -⟩, -, -⟩ := h.stored
  have hN : uf.header.numPages = uf.size := hwf.numPages
  by_cases hc : p < 1 ∨ uf.header.firstPage = p ∨ uf.header.numPages ≤ p
  · exact ((File.yields_disposePage_refused h.io h.obj huf hwf.size_pos hc).unique call).2.2
  · -- the page is within the file, and nothing fails any more
    simp only [not_or, not_lt, not_le] at hc
    obtain ⟨rfl, -, -⟩ := (File.yields_disposePage h.io h.obj huf hc.1 (by omega) hc.2.2
      hc.2.1).unique call
    exact absurd rfl fail

/-- `File::writePage` of an allocated page. -/
theorem writePage (h : Logged nm file s L) (hp : L.alloc p) (b : Block) :
    ∃ s', Yields (File.writePage file p b) s .OK false s' ∧ Logged nm file s' L := by
  obtain ⟨uf, fv, huf, hst, halloc, hfirst⟩ := h.stored
  have hp' : fv.alloc p := halloc ▸ hp
  exact ⟨_, File.yields_writePage h.io h.obj huf hst hp',
    h.setUnix (hst.write hp') halloc hfirst h.first_alloc⟩

end Logged

/-! ## Runs -/

/-- The file is well formed in every reachable state, and its allocated pages and its first page
are the ones of the log. -/
theorem logged_of_run (h₀ : Created nm file s₀) (hrun : PageRun file s₀ s L) :
    Logged nm file s L := by
  induction hrun with
  | start => exact h₀.logged
  | allocate _ call ih =>
    obtain ⟨p, s₁, hy, -, h₁⟩ := ih.allocatePage
    obtain ⟨hr, -, rfl⟩ := hy.unique call
    cases hr
    exact h₁
  | allocFail _ call fail ih =>
    obtain ⟨p, s₁, hy, -, -⟩ := ih.allocatePage
    obtain ⟨hr, -, -⟩ := hy.unique call
    cases hr
    exact absurd rfl fail
  | dispose _ alloc call ih =>
    rcases ih.disposePage alloc with ⟨-, hy⟩ | ⟨s₁, -, hy, h₁⟩
    · cases (hy.unique call).1
    · obtain ⟨-, -, rfl⟩ := hy.unique call
      exact h₁
  | reject _ call fail ih => exact ih.rejected call fail ▸ ih
  | write _ alloc call ih =>
    obtain ⟨s₁, hy, h₁⟩ := ih.writePage alloc _
    obtain ⟨-, -, rfl⟩ := hy.unique call
    exact h₁

/-- Page allocation never hands out a page twice. In every reachable state the chain from
`nextFree` is a finite list without duplicates that ends in `-1`, it partitions the pages
`1, .., numPages - 1` together with the allocated ones, the next `allocatePage` returns a page that
is not allocated, and `firstPage` is the page allocated first, which is never on the free list. -/
theorem partition_of_run (h₀ : Created nm file s₀) (hrun : PageRun file s₀ s L) :
    ∃ uf free, s.unix nm = some uf ∧ Linked uf.nextFree (-1) uf.header.nextFree free ∧
      free.Nodup ∧ (∀ p, 1 ≤ p ∧ p ≤ uf.header.numPages - 1 ↔ p ∈ free ∨ L.alloc p) ∧
      (∀ p ∈ free, ¬L.alloc p) ∧
      Runs True (File.allocatePage file) s (fun r _ _ => r.1 = .OK ∧ ¬L.alloc r.2) ∧
      uf.header.firstPage = L.first.getD (-1) ∧ ∀ p, L.first = some p → p ≠ -1 ∧ p ∉ free := by
  have h := logged_of_run h₀ hrun
  obtain ⟨p, s', hy, hnew, -⟩ := h.allocatePage
  obtain ⟨uf, fv, huf, ⟨free, hwf, hfirst, halloc⟩, hL, hF⟩ := h.stored
  have hN : uf.header.numPages = uf.size := hwf.numPages
  have hmem : ∀ p, L.alloc p ↔ 1 ≤ p ∧ p < uf.size ∧ p ∉ free := fun p => hL ▸ halloc p
  refine ⟨uf, free, huf, hwf.linked, hwf.linked.nodup, fun p => ?_, fun p hp hp' => ?_,
    Runs.of_yields hy ⟨rfl, hnew⟩, hfirst.symm.trans hF, fun p hp => ?_⟩
  · rw [hmem, hN]
    constructor
    · intro hp
      by_cases hf : p ∈ free
      · exact Or.inl hf
      · exact Or.inr ⟨hp.1, by omega, hf⟩
    · rintro (hp | hp)
      · have := hwf.range p hp
        omega
      · omega
  · exact ((hmem p).mp hp').2.2 hp
  · obtain ⟨hpos, -, hfree⟩ := (hmem p).mp (h.first_alloc p hp)
    exact ⟨by omega, hfree⟩

/-- A process without Unix files and with one `File` object. -/
def noFile : Sys where
  unix := fun _ => none
  dataFile := fun _ => none
  io := fun _ => true
  files := fun file => if file = 1 then some ⟨[65], 0, false⟩ else none
  nextFile := 2
  openFiles := OpenFileHashTbl.new
  buf := BufMgr.new 1 fun _ => ⟨0, BufMgr.htsize_one_pos⟩

/-- Two pages are allocated and the second one is disposed of. -/
theorem partition_of_run_twoPages : ∃ s₀ s uf, Created [65] 1 s₀ ∧
    PageRun 1 s₀ s (((PageLog.empty.allocate 1).allocate 2).dispose 2) ∧
    s.unix [65] = some uf ∧ uf.header.firstPage = 1 := by
  obtain ⟨s₀, hcreated, s₁, h₁, s₂, h₂, s₃, h₃⟩ : ∃ s₀, Created [65] 1 s₀ ∧
      ∃ s₁, Yields (File.allocatePage 1) s₀ (.OK, 1) false s₁ ∧
      ∃ s₂, Yields (File.allocatePage 1) s₁ (.OK, 2) false s₂ ∧
      ∃ s₃, Yields (File.disposePage 1 2) s₂ .OK false s₃ :=
    ⟨_, ⟨noFile, false, _, false, rfl, rfl, rfl, rfl⟩, _, rfl, _, rfl, _, rfl⟩
  have hrun : PageRun 1 s₀ s₃ (((PageLog.empty.allocate 1).allocate 2).dispose 2) :=
    .dispose (.allocate (.allocate .start h₁) h₂) (Or.inl rfl) h₃
  obtain ⟨uf, -, huf, -, -, -, -, -, hfirst, -⟩ := partition_of_run hcreated hrun
  exact ⟨s₀, s₃, uf, hcreated, hrun, huf, hfirst⟩

end Minirel
