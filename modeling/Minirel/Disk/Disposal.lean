import Minirel.Disk.PageRun

/-!
# Disposing of pages that are not allocated

`File::disposePage` checks that the page is in range and not the first one. Whether the page is on
the free list already it cannot tell from the header, and it does not look. As long as no page is
disposed of while it is on the free list, every other argument that is not an allocated page is
refused, and the free list stays a list.

## Main definitions

* `Sys.OnFreeList`: the page is on the free list.
* `FileRun C file s₀ s L`: calls with any page numbers lead from `s₀` to `s`, with log `L`; each
  disposal satisfies `C`.
* `Respects`: what `disposePage` does with the next page number is as it should be.

## Main results

* `respects_iff`: in runs that never dispose of a free page, the next `disposePage` is as it should
  be unless the page is free, and the free list and the allocated pages are apart.
-/

namespace Minirel

open Comp

/-- The page is on the free list of the file. -/
def Sys.OnFreeList (s : Sys) (nm : FileName) (p : Int) : Prop :=
  ∃ uf free, s.unix nm = some uf ∧ Linked uf.nextFree (-1) uf.header.nextFree free ∧ p ∈ free

/-- Calls of `File::allocatePage` and `File::disposePage`, with any page numbers that satisfy `C`,
lead from `s₀` to `s`. -/
inductive FileRun (C : Sys → Int → Prop) (file : FilePtr) (s₀ : Sys) : Sys → PageLog → Prop
  | start : FileRun C file s₀ s₀ PageLog.empty
  | allocate {s s' L status p e} (run : FileRun C file s₀ s L)
      (call : Yields (File.allocatePage file) s (status, p) e s') :
      FileRun C file s₀ s' (if status = .OK then L.allocate p else L)
  | dispose {s s' L status p e} (run : FileRun C file s₀ s L) (cond : C s p)
      (call : Yields (File.disposePage file p) s status e s') :
      FileRun C file s₀ s' (if status = .OK then L.dispose p else L)

/-- `disposePage` of the page returns `OK` only if the page is allocated; it refuses the first page
and pages that are not allocated, and leaves everything as it is. -/
def Respects (file : FilePtr) (s : Sys) (L : PageLog) (p : Int) : Prop :=
  Runs True (File.disposePage file p) s fun status _ s' => (status = .OK → L.alloc p) ∧
    (¬L.alloc p ∨ L.first = some p → status = .BADPAGENO ∧ s' = s)

/-- The chain of free pages comes to an end, no page is on it twice or allocated at the same time,
and the next page that is handed out is not in use. -/
def FreeListApart (nm : FileName) (file : FilePtr) (s : Sys) (L : PageLog) : Prop :=
  ∃ uf free, s.unix nm = some uf ∧ Linked uf.nextFree (-1) uf.header.nextFree free ∧ free.Nodup ∧
    (∀ p ∈ free, ¬L.alloc p) ∧
    Runs True (File.allocatePage file) s fun r _ _ => r.1 = .OK ∧ ¬L.alloc r.2

namespace Logged

variable {s s' : Sys} {nm : FileName} {file : FilePtr} {L : PageLog} {p : Int} {status : Status}
  {e : Bool}

/-- A page that is not allocated is out of range or on the free list. -/
theorem free_or_range (h : Logged nm file s L) (hp : ¬L.alloc p) :
    s.OnFreeList nm p ∨ ∃ uf, s.unix nm = some uf ∧ (p < 1 ∨ uf.header.numPages ≤ p) := by
  obtain ⟨uf, fv, huf, ⟨free, hwf, -, halloc⟩, hL, -⟩ := h.stored
  have hN : uf.header.numPages = uf.size := hwf.numPages
  rw [← hL, halloc] at hp
  by_cases hfree : p ∈ free
  · exact Or.inl ⟨uf, free, huf, hwf.linked, hfree⟩
  · refine Or.inr ⟨uf, huf, ?_⟩
    by_contra hin
    exact hp ⟨by omega, by omega, hfree⟩

/-- A page on the free list is in range, neither allocated nor the first one, and the file layer
takes it all the same. -/
theorem disposePage_free (h : Logged nm file s L) (hp : s.OnFreeList nm p) :
    ¬L.alloc p ∧ ∃ s', Yields (File.disposePage file p) s .OK false s' := by
  obtain ⟨uf, fv, huf, ⟨free, hwf, -, halloc⟩, hL, -⟩ := h.stored
  obtain ⟨uf', free', huf', hlinked, hmem⟩ := hp
  rw [huf] at huf'
  cases huf'
  obtain rfl := hwf.linked.unique hlinked
  obtain ⟨hlo, hhi⟩ := hwf.range p hmem
  have hN : uf.header.numPages = uf.size := hwf.numPages
  have hne : uf.header.firstPage ≠ p := by
    rintro rfl
    rcases hwf.first with ⟨hnone, -⟩ | ⟨-, -, hfirst⟩
    · omega
    · exact hfirst hmem
  refine ⟨fun ha => ?_, _, File.yields_disposePage h.io h.obj huf hlo hhi (by omega) hne⟩
  rw [← hL, halloc] at ha
  exact ha.2.2 hmem

/-- A page out of range is refused. -/
theorem disposePage_range (h : Logged nm file s L) {uf : UnixFile} (huf : s.unix nm = some uf)
    (hp : p < 1 ∨ uf.header.numPages ≤ p) :
    Yields (File.disposePage file p) s .BADPAGENO false s := by
  obtain ⟨uf', fv, huf', ⟨free, hwf, -, -⟩, -, -⟩ := h.stored
  rw [huf] at huf'
  cases huf'
  exact File.yields_disposePage_refused h.io h.obj huf hwf.size_pos (hp.imp_right Or.inr)

/-- The next `disposePage` is as it should be exactly if the page is not on the free list. -/
theorem respects_iff_not_free (h : Logged nm file s L) (p : Int) :
    Respects file s L p ↔ ¬s.OnFreeList nm p := by
  constructor
  · intro hr hfree
    obtain ⟨hnot, s', hy⟩ := h.disposePage_free hfree
    exact hnot ((hr.1 _ _ _ hy).1 rfl)
  · intro hfree
    by_cases hp : L.alloc p
    · rcases h.disposePage hp with ⟨-, hy⟩ | ⟨s', hne, hy, -⟩
      · exact Runs.of_yields hy ⟨nofun, fun _ => ⟨rfl, rfl⟩⟩
      · exact Runs.of_yields hy ⟨fun _ => hp,
          fun hor => absurd (hor.resolve_left (not_not.mpr hp)) hne⟩
    · rcases h.free_or_range hp with hmem | ⟨uf, huf, hrange⟩
      · exact absurd hmem hfree
      · exact Runs.of_yields (h.disposePage_range huf hrange) ⟨nofun, fun _ => ⟨rfl, rfl⟩⟩

/-- A disposal of a page that is not on the free list keeps the file well formed. -/
theorem dispose_step (h : Logged nm file s L) (hfree : ¬s.OnFreeList nm p)
    (call : Yields (File.disposePage file p) s status e s') :
    Logged nm file s' (if status = .OK then L.dispose p else L) := by
  by_cases hp : L.alloc p
  · rcases h.disposePage hp with ⟨-, hy⟩ | ⟨s₁, -, hy, h₁⟩
    · obtain ⟨rfl, -, rfl⟩ := hy.unique call
      exact h
    · obtain ⟨rfl, -, rfl⟩ := hy.unique call
      exact h₁
  · rcases h.free_or_range hp with hmem | ⟨uf, huf, hrange⟩
    · exact absurd hmem hfree
    · obtain ⟨rfl, -, rfl⟩ := (h.disposePage_range huf hrange).unique call
      exact h

theorem freeListApart (h : Logged nm file s L) : FreeListApart nm file s L := by
  obtain ⟨p, s', hy, hnew, -⟩ := h.allocatePage
  obtain ⟨uf, fv, huf, ⟨free, hwf, -, halloc⟩, hL, -⟩ := h.stored
  refine ⟨uf, free, huf, hwf.linked, hwf.linked.nodup, fun q hq ha => ?_,
    Runs.of_yields hy ⟨rfl, hnew⟩⟩
  rw [← hL, halloc] at ha
  exact ha.2.2 hq

end Logged

variable {s s₀ : Sys} {nm : FileName} {file : FilePtr} {L : PageLog}

/-- The file is well formed in every state of a run that never disposes of a free page. -/
theorem logged_of_fileRun (h₀ : Created nm file s₀)
    (hrun : FileRun (fun s p => ¬s.OnFreeList nm p) file s₀ s L) : Logged nm file s L := by
  induction hrun with
  | start => exact h₀.logged
  | allocate _ call ih =>
    obtain ⟨p, s₁, hy, -, h₁⟩ := ih.allocatePage
    obtain ⟨hr, -, rfl⟩ := hy.unique call
    cases hr
    exact h₁
  | dispose _ hfree call ih => exact ih.dispose_step hfree call

/-- In every run that never disposes of a page on the free list, the free list and the allocated
pages are apart, and for every page number the next `disposePage` returns `OK` only for an allocated
page, and refuses the other ones and the first, exactly if that page is not on the free list. -/
theorem respects_iff (h₀ : Created nm file s₀)
    (hrun : FileRun (fun s p => ¬s.OnFreeList nm p) file s₀ s L) :
    FreeListApart nm file s L ∧ ∀ p, Respects file s L p ↔ ¬s.OnFreeList nm p :=
  have h := logged_of_fileRun h₀ hrun
  ⟨h.freeListApart, h.respects_iff_not_free⟩

/-- A run of two allocations. -/
theorem exists_twoPages (C : Sys → Int → Prop) : ∃ s₀ s, Created [65] 1 s₀ ∧
    FileRun C 1 s₀ s ((PageLog.empty.allocate 1).allocate 2) ∧ ∃ s₁ s₂ s₃,
      Yields (File.disposePage 1 2) s .OK false s₁ ∧ Yields (File.disposePage 1 2) s₁ .OK false s₂ ∧
      Yields (File.allocatePage 1) s₂ (.OK, 2) false s₃ ∧
      ∃ s₄, Yields (File.allocatePage 1) s₃ (.OK, 2) false s₄ := by
  obtain ⟨s₀, hcreated, s₁, h₁, s₂, h₂, hrest⟩ : ∃ s₀, Created [65] 1 s₀ ∧
      ∃ s₁, Yields (File.allocatePage 1) s₀ (.OK, 1) false s₁ ∧
      ∃ s, Yields (File.allocatePage 1) s₁ (.OK, 2) false s ∧ ∃ s₁ s₂ s₃,
        Yields (File.disposePage 1 2) s .OK false s₁ ∧
        Yields (File.disposePage 1 2) s₁ .OK false s₂ ∧
        Yields (File.allocatePage 1) s₂ (.OK, 2) false s₃ ∧
        ∃ s₄, Yields (File.allocatePage 1) s₃ (.OK, 2) false s₄ :=
    ⟨_, ⟨noFile, false, _, false, rfl, rfl, rfl, rfl⟩, _, rfl, _, rfl, _, _, _, rfl,
      rfl, rfl, _, rfl⟩
  exact ⟨s₀, s₂, hcreated, .allocate (.allocate .start h₁) h₂, hrest⟩

/-- Of two allocated pages the second one may be disposed of. -/
theorem respects_iff_twoPages : ∃ s₀ s L, Created [65] 1 s₀ ∧ FreeListApart [65] 1 s L ∧
    (Respects 1 s L 2 ↔ ¬s.OnFreeList [65] 2) := by
  obtain ⟨s₀, s, hcreated, hrun, -⟩ := exists_twoPages fun s p => ¬s.OnFreeList [65] p
  obtain ⟨hapart, hiff⟩ := respects_iff hcreated hrun
  exact ⟨s₀, s, _, hcreated, hapart, hiff 2⟩

/-- A page that is disposed of twice is handed out twice. -/
theorem not_respects_twice :
    (∃ s₀ s L, Created [65] 1 s₀ ∧ FileRun (fun _ _ => True) 1 s₀ s L ∧ ¬Respects 1 s L 2) ∧
    ∃ s₀ s L s', Created [65] 1 s₀ ∧ FileRun (fun _ _ => True) 1 s₀ s L ∧ L.alloc 2 ∧
      Yields (File.allocatePage 1) s (.OK, 2) false s' := by
  obtain ⟨s₀, s, hcreated, hrun, s₁, s₂, s₃, h₁, h₂, h₃, s₄, h₄⟩ := exists_twoPages fun _ _ => True
  have hrun₁ : FileRun (fun _ _ => True) 1 s₀ s₁ _ := .dispose hrun trivial h₁
  refine ⟨⟨s₀, s₁, _, hcreated, hrun₁, fun hr => ?_⟩, s₀, s₃, _, s₄, hcreated,
    .allocate (.dispose hrun₁ trivial h₂) h₃, Or.inl rfl, h₄⟩
  exact ((hr.1 _ _ _ h₂).1 rfl).1 rfl

end Minirel
