import Minirel.Rules
import Minirel.Lib.Linked

/-!
# Files of pages on disk

A Unix file of the database is well formed if its header page counts its pages and threads a list
of free ones; the other pages are allocated. The operations of `class File` on such a file succeed
as long as the Unix calls do, and keep it well formed.

## Main definitions

* `FileView`: what a client knows of a file: its first page, which pages are allocated, and what
  is on them.
* `Stored uf fv`: the Unix file `uf` is well formed, with first page and allocated pages as in `fv`.
-/

namespace Minirel

open Comp

/-! ## Well-formed files -/

namespace UnixFile

/-- The header page of a file. -/
def header (uf : UnixFile) : DBPage := (uf.page 0).asDBPage

/-- The link from a page on the free list to the next one. -/
def nextFree (uf : UnixFile) (p : Int) : Int := (uf.page p.toNat).asDBPage.nextFree

/-- The header page counts the pages and threads the pages of `free`. -/
structure WF (uf : UnixFile) (free : List Int) : Prop where
  size_pos : 0 < uf.size
  numPages : uf.header.numPages = uf.size
  linked : Linked uf.nextFree (-1) uf.header.nextFree free
  range : ∀ p ∈ free, 1 ≤ p ∧ p < uf.size
  /-- There is a first page as soon as there is any page. -/
  first : uf.header.firstPage = -1 ∧ uf.size = 1 ∨
    1 ≤ uf.header.firstPage ∧ uf.header.firstPage < uf.size ∧ uf.header.firstPage ∉ free

variable {uf : UnixFile} {p q : Nat} {b : Block}

theorem size_write (h : p < uf.size) : (uf.write p b).size = uf.size := by
  show max uf.size (p + 1) = uf.size
  omega

@[simp]
theorem page_write_self : (uf.write p b).page p = b := if_pos rfl

theorem page_write_of_ne (h : q ≠ p) (hq : q < uf.size) : (uf.write p b).page q = uf.page q := by
  show (if q = p then b else if q < uf.size then uf.page q else Block.zero) = _
  rw [if_neg h, if_pos hq]

@[simp]
theorem header_write (h : DBPage) : (uf.write 0 (.dbPage h)).header = h := by
  unfold header
  rw [page_write_self]
  rfl

theorem nextFree_write {p q : Int} (hp : 0 ≤ p) (hq : 0 ≤ q) (h : q ≠ p) (hlt : q < uf.size) :
    (uf.write p.toNat b).nextFree q = uf.nextFree q := by
  unfold nextFree
  rw [page_write_of_ne (by omega) (by omega)]

theorem page?_of_lt {p : Int} (h0 : 0 ≤ p) (h : p < uf.size) :
    uf.page? p = some (uf.page p.toNat) := if_pos ⟨h0, h⟩

end UnixFile

/-- A file as its clients see it. -/
structure FileView where
  /-- The page allocated first, `-1` if there is none. -/
  first : Int
  /-- The pages that are allocated. -/
  alloc : Int → Prop
  /-- The content of a page, `none` if it is not specified. -/
  cur : Int → Option Block
  /-- The content of a page on disk, if the page has not changed since. -/
  kept : Int → Option Block

namespace FileView

/-- The file after a page has been allocated. Its content is not specified. -/
def allocate (fv : FileView) (p : Int) : FileView where
  first := if fv.first = -1 then p else fv.first
  alloc := fun q => q = p ∨ fv.alloc q
  cur := Function.update fv.cur p none
  kept := Function.update fv.kept p none

/-- The file after a page has been disposed of. -/
def dispose (fv : FileView) (p : Int) : FileView where
  first := fv.first
  alloc := fun q => q ≠ p ∧ fv.alloc q
  cur := Function.update fv.cur p none
  kept := Function.update fv.kept p none

/-- The file after a page has been written to. -/
def assign (fv : FileView) (p : Int) (b : Block) : FileView :=
  { fv with cur := Function.update fv.cur p (some b) }

/-- The file, without what is known of a page on disk. -/
def forget (fv : FileView) (p : Int) : FileView :=
  { fv with kept := Function.update fv.kept p none }

/-- A file without pages. -/
def empty : FileView := ⟨-1, fun _ => False, fun _ => none, fun _ => none⟩

end FileView

/-- The Unix file is well formed, with first page and allocated pages as in the view. -/
def Stored (uf : UnixFile) (fv : FileView) : Prop :=
  ∃ free, uf.WF free ∧ fv.first = uf.header.firstPage ∧
    ∀ p, fv.alloc p ↔ 1 ≤ p ∧ p < uf.size ∧ p ∉ free

namespace Stored

variable {uf uf' : UnixFile} {fv fv' : FileView} {p : Int} {b : Block}

theorem range (h : Stored uf fv) (hp : fv.alloc p) : 1 ≤ p ∧ p < uf.size := by
  obtain ⟨free, -, -, halloc⟩ := h
  exact ⟨((halloc p).mp hp).1, ((halloc p).mp hp).2.1⟩

/-- Only the first page and the allocated pages of a view matter. -/
theorem of_eq (h : Stored uf fv) (hf : fv'.first = fv.first) (ha : fv'.alloc = fv.alloc) :
    Stored uf fv' := by
  obtain ⟨free, hwf, hfirst, halloc⟩ := h
  exact ⟨free, hwf, hf.trans hfirst, ha ▸ halloc⟩

/-- Writing an allocated page leaves the file well formed. -/
theorem write (h : Stored uf fv) (hp : fv.alloc p) : Stored (uf.write p.toNat b) fv := by
  obtain ⟨hlo, hhi⟩ := h.range hp
  obtain ⟨free, hwf, hfirst, halloc⟩ := h
  have hsize : (uf.write p.toNat b).size = uf.size := UnixFile.size_write (by omega)
  have hheader : (uf.write p.toNat b).header = uf.header := by
    unfold UnixFile.header
    rw [UnixFile.page_write_of_ne (by omega) hwf.size_pos]
  refine ⟨free, ⟨?_, ?_, ?_, ?_, ?_⟩, ?_, ?_⟩
  · rw [hsize]
    exact hwf.size_pos
  · rw [hheader, hsize]
    exact hwf.numPages
  · rw [hheader]
    refine hwf.linked.congr fun q hq => ?_
    obtain ⟨hq₁, hq₂⟩ := hwf.range q hq
    have hqp : q ≠ p := fun he => ((halloc p).mp hp).2.2 (he ▸ hq)
    unfold UnixFile.nextFree
    rw [UnixFile.page_write_of_ne (by omega) (by omega)]
  · rw [hsize]
    exact hwf.range
  · rw [hheader, hsize]
    exact hwf.first
  · rw [hheader]
    exact hfirst
  · rw [hsize]
    exact halloc

/-- A file that has just been created. -/
theorem created : Stored ⟨1, fun _ => .dbPage ⟨-1, -1, 1⟩⟩ FileView.empty := by
  refine ⟨[], ⟨Nat.one_pos, rfl, rfl, by simp, Or.inl ⟨rfl, rfl⟩⟩, rfl, fun p => ?_⟩
  show False ↔ 1 ≤ p ∧ p < ((1 : Nat) : Int) ∧ p ∉ []
  constructor
  · exact False.elim
  · rintro ⟨h₁, h₂, -⟩
    omega

end Stored

/-! ## The operations of `class File` -/

section Operations

variable {s : Sys} {file : FilePtr} {nm : FileName} {cnt : Int} {uf : UnixFile} {fv : FileView}
  {p : Int} {b : Block}

/-- The state with another Unix file of the given name. -/
def Sys.setUnix (s : Sys) (nm : FileName) (uf : Option UnixFile) : Sys :=
  { s with unix := Function.update s.unix nm uf }

@[simp]
theorem setUnix_setUnix (s : Sys) (nm : FileName) (uf uf' : Option UnixFile) :
    (s.setUnix nm uf).setUnix nm uf' = s.setUnix nm uf' := by
  simp [Sys.setUnix]

/-- Unix calls succeed from here on. -/
theorem yields_unixCall_of_io (hio : s.io = fun _ => true) : Yields unixCall s true false s := by
  have h := yields_unixCall s
  have hs : ({ s with io := fun n => s.io (n + 1) } : Sys) = s := by
    rw [hio]
    show Sys.mk s.unix s.dataFile (fun _ => true) s.files s.nextFile s.openFiles s.buf = s
    rw [← hio]
  rw [hs, hio] at h
  exact h

theorem File.yields_intread (hio : s.io = fun _ => true)
    (hfile : s.files file = some ⟨nm, cnt, true⟩) (huf : s.unix nm = some uf) (h0 : 0 ≤ p)
    (hp : p < uf.size) (old : Block) :
    Yields (intread file p old) s (.OK, uf.page p.toNat) false s := by
  unfold intread
  refine (yields_fileAt hfile).bind (d := false) ?_
  refine (yields_unixCall_of_io hio).bind (d := false) ?_
  refine Yields.bind (e := false) (d := false) (t := s) rfl ?_
  simp only [huf, Option.bind_some, UnixFile.page?_of_lt h0 hp, and_self, ↓reduceIte]
  exact Yields.pure _ _

theorem File.yields_intwrite (hio : s.io = fun _ => true)
    (hfile : s.files file = some ⟨nm, cnt, true⟩) (huf : s.unix nm = some uf) (h0 : 0 ≤ p) :
    Yields (intwrite file p b) s .OK false (s.setUnix nm (some (uf.write p.toNat b))) := by
  unfold intwrite
  refine (yields_fileAt hfile).bind (d := false) ?_
  refine (yields_unixCall_of_io hio).bind (d := false) ?_
  refine Yields.bind (e := false) (d := false) (t := s) rfl ?_
  simp only [huf, h0, and_self, ↓reduceIte]
  exact (yields_setUnix nm (some (uf.write p.toNat b)) s).bind (Yields.pure _ _)

theorem File.yields_readPage (hio : s.io = fun _ => true)
    (hfile : s.files file = some ⟨nm, cnt, true⟩) (huf : s.unix nm = some uf)
    (hst : Stored uf fv) (hp : fv.alloc p) (old : Block) :
    Yields (readPage file p old) s (.OK, uf.page p.toNat) false s := by
  obtain ⟨hlo, hhi⟩ := hst.range hp
  unfold readPage
  rw [if_neg (by omega)]
  exact yields_intread hio hfile huf (by omega) hhi old

theorem File.yields_writePage (hio : s.io = fun _ => true)
    (hfile : s.files file = some ⟨nm, cnt, true⟩) (huf : s.unix nm = some uf)
    (hst : Stored uf fv) (hp : fv.alloc p) :
    Yields (writePage file p b) s .OK false (s.setUnix nm (some (uf.write p.toNat b))) := by
  obtain ⟨hlo, hhi⟩ := hst.range hp
  unfold writePage
  rw [if_neg (by omega)]
  exact yields_intwrite hio hfile huf (by omega)

theorem File.yields_getFirstPage (hio : s.io = fun _ => true)
    (hfile : s.files file = some ⟨nm, cnt, true⟩) (huf : s.unix nm = some uf)
    (hst : Stored uf fv) : Yields (getFirstPage file) s (.OK, fv.first) false s := by
  obtain ⟨free, hwf, hfirst, -⟩ := hst
  unfold getFirstPage
  rw [hfirst]
  exact (yields_intread hio hfile huf (le_refl 0) (by exact_mod_cast hwf.size_pos) _).bind
    (Yields.pure _ _)

/-- `File::allocatePage` returns a page that was not allocated, from the free list or past the end
of the file, and leaves the allocated ones alone. -/
theorem File.allocatePage_spec (hio : s.io = fun _ => true)
    (hfile : s.files file = some ⟨nm, cnt, true⟩) (huf : s.unix nm = some uf)
    (hst : Stored uf fv) :
    ∃ p uf', Yields (allocatePage file) s (.OK, p) false (s.setUnix nm (some uf')) ∧
      ¬fv.alloc p ∧ Stored uf' (fv.allocate p) ∧
      ∀ q, fv.alloc q → uf'.page q.toNat = uf.page q.toNat := by
  obtain ⟨free, hwf, hfirst, halloc⟩ := hst
  have hsize := hwf.size_pos
  have hhdr := yields_intread hio hfile huf (le_refl 0) (by exact_mod_cast hsize) Block.zero
  have hcast : (uf.page (Int.toNat 0)).asDBPage = uf.header := rfl
  unfold allocatePage
  by_cases hnf : uf.header.nextFree = -1
  · -- the file grows by one page
    have hfree : free = [] := hwf.linked.eq_nil_iff.mpr hnf
    subst hfree
    set h' : DBPage := { uf.header with
      numPages := uf.header.numPages + 1
      firstPage := if uf.header.firstPage = -1 then uf.header.numPages else uf.header.firstPage }
      with hh'
    have hN : uf.header.numPages = uf.size := hwf.numPages
    have hs₁ : ∀ c, (s.setUnix nm c).unix nm = c := fun c => Function.update_self _ _ _
    refine ⟨uf.size, (uf.write uf.size Block.zero).write 0 (.dbPage h'), ?_, ?_, ?_, ?_⟩
    · refine hhdr.bind (d := false) ?_
      simp only [ne_eq, not_true_eq_false, ↓reduceIte]
      rw [hcast, if_neg (not_not.mpr hnf)]
      have hw := yields_intwrite (b := Block.zero) hio hfile huf
        (p := uf.header.numPages) (by omega)
      refine hw.bind (d := false) ?_
      simp only [not_true_eq_false, ↓reduceIte]
      have hw' := yields_intwrite (b := .dbPage h') (p := 0) (s := s.setUnix nm _) hio hfile
        (hs₁ (some (uf.write uf.header.numPages.toNat Block.zero))) (le_refl 0)
      rw [setUnix_setUnix] at hw'
      have hN' : uf.header.numPages.toNat = uf.size := by omega
      rw [hN'] at hw' ⊢
      rw [← hN]
      exact hw'.bind (Yields.pure _ _)
    · intro hp
      have := ((halloc _).mp hp).2.1
      omega
    · have hsz : ((uf.write uf.size Block.zero).write 0 (.dbPage h')).size = uf.size + 1 := by
        show max (max uf.size (uf.size + 1)) (0 + 1) = uf.size + 1
        omega
      refine ⟨[], ⟨by omega, ?_, ?_, by simp, ?_⟩, ?_, fun q => ?_⟩
      · rw [UnixFile.header_write, hsz]
        show uf.header.numPages + 1 = ((uf.size + 1 : Nat) : Int)
        omega
      · rw [UnixFile.header_write]
        exact hnf
      · rw [UnixFile.header_write, hsz]
        right
        show 1 ≤ (if uf.header.firstPage = -1 then uf.header.numPages else uf.header.firstPage) ∧ _
        have := hwf.first
        simp only [List.not_mem_nil, not_false_eq_true, and_true] at this ⊢
        show 1 ≤ (if uf.header.firstPage = -1 then uf.header.numPages else uf.header.firstPage) ∧
          (if uf.header.firstPage = -1 then uf.header.numPages else uf.header.firstPage) < _
        split <;> omega
      · rw [UnixFile.header_write]
        show (if fv.first = -1 then (uf.size : Int) else fv.first) = if _ then _ else _
        rw [hfirst, hN]
      · show q = uf.size ∨ fv.alloc q ↔ _
        rw [hsz, halloc]
        simp only [List.not_mem_nil, not_false_eq_true, and_true]
        omega
    · intro q hq
      obtain ⟨h₁, h₂, -⟩ := (halloc q).mp hq
      rw [UnixFile.page_write_of_ne (by omega), UnixFile.page_write_of_ne (by omega) (by omega)]
      show q.toNat < max uf.size (uf.size + 1)
      omega
  · -- the first page of the free list is taken
    obtain ⟨rest, rfl, hrest⟩ := hwf.linked.exists_cons hnf
    obtain ⟨hlo, hhi⟩ := hwf.range _ List.mem_cons_self
    have hnd := List.nodup_cons.mp hwf.linked.nodup
    set h' : DBPage := { uf.header with nextFree := uf.nextFree uf.header.nextFree } with hh'
    have hsz : (uf.write 0 (.dbPage h')).size = uf.size := UnixFile.size_write hsize
    refine ⟨uf.header.nextFree, uf.write 0 (.dbPage h'), ?_, ?_, ?_, ?_⟩
    · refine hhdr.bind (d := false) ?_
      simp only [ne_eq, not_true_eq_false, ↓reduceIte]
      rw [hcast, if_pos hnf]
      have hr := yields_intread hio hfile huf (p := uf.header.nextFree) (by omega) hhi Block.zero
      refine hr.bind (d := false) ?_
      simp only [not_true_eq_false, ↓reduceIte]
      exact (yields_intwrite (b := .dbPage h') (p := 0) hio hfile huf (le_refl 0)).bind
        (Yields.pure _ _)
    · intro hp
      exact ((halloc _).mp hp).2.2 List.mem_cons_self
    · refine ⟨rest, ⟨by omega, ?_, ?_, fun q hq => ?_, ?_⟩, ?_, fun q => ?_⟩
      · rw [UnixFile.header_write, hsz]
        exact hwf.numPages
      · rw [UnixFile.header_write]
        refine hrest.congr fun q hq => ?_
        obtain ⟨h₁, h₂⟩ := hwf.range q (List.mem_cons_of_mem _ hq)
        exact UnixFile.nextFree_write (le_refl 0) (by omega) (by omega) h₂
      · rw [hsz]
        exact hwf.range q (List.mem_cons_of_mem _ hq)
      · rw [UnixFile.header_write, hsz]
        rcases hwf.first with h | ⟨h₁, h₂, h₃⟩
        · exact Or.inl h
        · exact Or.inr ⟨h₁, h₂, fun h => h₃ (List.mem_cons_of_mem _ h)⟩
      · rw [UnixFile.header_write]
        show (if fv.first = -1 then uf.header.nextFree else fv.first) = uf.header.firstPage
        rw [if_neg, hfirst]
        rw [hfirst]
        rcases hwf.first with ⟨-, h⟩ | h <;> omega
      · show q = uf.header.nextFree ∨ fv.alloc q ↔ _
        rw [hsz, halloc, List.mem_cons]
        constructor
        · rintro (rfl | ⟨h₁, h₂, h₃⟩)
          · exact ⟨hlo, hhi, hnd.1⟩
          · exact ⟨h₁, h₂, fun h => h₃ (Or.inr h)⟩
        · rintro ⟨h₁, h₂, h₃⟩
          by_cases he : q = uf.header.nextFree
          · exact Or.inl he
          · exact Or.inr ⟨h₁, h₂, fun h => h.elim he h₃⟩
    · intro q hq
      obtain ⟨h₁, h₂, -⟩ := (halloc q).mp hq
      exact UnixFile.page_write_of_ne (by omega) (by omega)

/-- The file after `File::disposePage` has put a page at the head of the free list. -/
def UnixFile.disposed (uf : UnixFile) (p : Int) : UnixFile :=
  (uf.write p.toNat (.dbPage ⟨uf.header.nextFree, 0, 0⟩)).write 0
    (.dbPage { uf.header with nextFree := p })

/-- `File::disposePage` takes any page in range but the first one. -/
theorem File.yields_disposePage (hio : s.io = fun _ => true)
    (hfile : s.files file = some ⟨nm, cnt, true⟩) (huf : s.unix nm = some uf) (hlo : 1 ≤ p)
    (hhi : p < uf.size) (hnum : p < uf.header.numPages) (hne : uf.header.firstPage ≠ p) :
    Yields (disposePage file p) s .OK false (s.setUnix nm (some (uf.disposed p))) := by
  have hhdr := yields_intread hio hfile huf (p := 0) (le_refl 0) (by omega) Block.zero
  have hrd := yields_intread hio hfile huf (p := p) (by omega) hhi Block.zero
  have hw := yields_intwrite (b := .dbPage ⟨uf.header.nextFree, 0, 0⟩) hio hfile huf
    (p := p) (by omega)
  have hw' := yields_intwrite (b := .dbPage { uf.header with nextFree := p }) (p := 0)
    (s := s.setUnix nm (some (uf.write p.toNat (.dbPage ⟨uf.header.nextFree, 0, 0⟩)))) hio hfile
    (Function.update_self _ _ _) (le_refl 0)
  rw [setUnix_setUnix] at hw'
  unfold disposePage
  rw [if_neg (by omega)]
  refine hhdr.bind (d := false) ?_
  simp only [ne_eq, not_true_eq_false, ↓reduceIte]
  rw [if_neg fun hc => hc.elim hne (not_le.mpr hnum)]
  refine hrd.bind (d := false) ?_
  simp only [not_true_eq_false, ↓reduceIte]
  refine hw.bind (d := false) ?_
  simp only [not_true_eq_false, ↓reduceIte]
  exact hw'

/-- `File::disposePage` refuses the first page and the pages out of range. -/
theorem File.yields_disposePage_refused (hio : s.io = fun _ => true)
    (hfile : s.files file = some ⟨nm, cnt, true⟩) (huf : s.unix nm = some uf) (hsize : 0 < uf.size)
    (h : p < 1 ∨ uf.header.firstPage = p ∨ uf.header.numPages ≤ p) :
    Yields (disposePage file p) s .BADPAGENO false s := by
  unfold disposePage
  by_cases hp : p < 1
  · rw [if_pos hp]
    exact Yields.pure _ _
  · have hhdr := yields_intread hio hfile huf (p := 0) (le_refl 0) (by omega) Block.zero
    rw [if_neg hp]
    refine hhdr.bind (d := false) ?_
    simp only [ne_eq, not_true_eq_false, ↓reduceIte]
    have hcast : (uf.page (Int.toNat 0)).asDBPage = uf.header := rfl
    rw [hcast, if_pos (h.resolve_left hp)]
    exact Yields.pure _ _

/-- `File::disposePage` of an allocated page other than the first puts it on the free list and
leaves the other pages alone. -/
theorem File.disposePage_spec (hio : s.io = fun _ => true)
    (hfile : s.files file = some ⟨nm, cnt, true⟩) (huf : s.unix nm = some uf)
    (hst : Stored uf fv) (hp : fv.alloc p) (hpf : p ≠ fv.first) :
    ∃ uf', Yields (disposePage file p) s .OK false (s.setUnix nm (some uf')) ∧
      Stored uf' (fv.dispose p) ∧
      ∀ q, q ≠ p → fv.alloc q → uf'.page q.toNat = uf.page q.toNat := by
  obtain ⟨hlo, hhi⟩ := hst.range hp
  obtain ⟨free, hwf, hfirst, halloc⟩ := hst
  have hsize := hwf.size_pos
  have hN : uf.header.numPages = uf.size := hwf.numPages
  have hpn : p ∉ free := ((halloc p).mp hp).2.2
  set uf₁ := uf.write p.toNat (.dbPage ⟨uf.header.nextFree, 0, 0⟩) with huf₁
  set h' : DBPage := { uf.header with nextFree := p } with hh'
  have hsz₁ : uf₁.size = uf.size := UnixFile.size_write (by omega)
  have hsz : (uf₁.write 0 (.dbPage h')).size = uf.size :=
    (UnixFile.size_write (by omega)).trans hsz₁
  have hnext : ∀ q : Int, 1 ≤ q → q < uf.size → (uf₁.write 0 (.dbPage h')).nextFree q =
      if q = p then uf.header.nextFree else uf.nextFree q := by
    intro q h₁ h₂
    rw [show (0 : Nat) = (0 : Int).toNat from rfl,
      UnixFile.nextFree_write (le_refl 0) (by omega) (by omega) (by omega)]
    split
    next he =>
      subst he
      unfold UnixFile.nextFree
      rw [huf₁, UnixFile.page_write_self]
      rfl
    next hne => exact UnixFile.nextFree_write (by omega) (by omega) hne h₂
  refine ⟨uf₁.write 0 (.dbPage h'), ?_, ?_, ?_⟩
  · exact yields_disposePage hio hfile huf hlo hhi (by omega) (fun h => hpf (hfirst.trans h).symm)
  · refine ⟨p :: free, ⟨by omega, ?_, ?_, fun q hq => ?_, ?_⟩, ?_, fun q => ?_⟩
    · rw [UnixFile.header_write, hsz]
      exact hN
    · rw [UnixFile.header_write]
      refine ⟨rfl, by omega, ?_⟩
      rw [hnext p hlo hhi, if_pos rfl]
      refine hwf.linked.congr fun q hq => ?_
      obtain ⟨h₁, h₂⟩ := hwf.range q hq
      rw [hnext q h₁ h₂, if_neg]
      rintro rfl
      exact hpn hq
    · rw [hsz]
      rcases List.mem_cons.mp hq with rfl | hq
      · exact ⟨hlo, hhi⟩
      · exact hwf.range q hq
    · rw [UnixFile.header_write, hsz]
      rcases hwf.first with h | ⟨h₁, h₂, h₃⟩
      · exact Or.inl h
      · refine Or.inr ⟨h₁, h₂, fun h => ?_⟩
        rcases List.mem_cons.mp h with h | h
        · exact hpf (hfirst.trans h).symm
        · exact h₃ h
    · rw [UnixFile.header_write]
      exact hfirst
    · show q ≠ p ∧ fv.alloc q ↔ _
      rw [hsz, halloc, List.mem_cons, not_or]
      exact ⟨fun ⟨h₀, h₁, h₂, h₃⟩ => ⟨h₁, h₂, h₀, h₃⟩, fun ⟨h₁, h₂, h₀, h₃⟩ => ⟨h₀, h₁, h₂, h₃⟩⟩
  · intro q hqp hq
    obtain ⟨h₁, h₂, -⟩ := (halloc q).mp hq
    rw [UnixFile.page_write_of_ne (by omega) (by omega), huf₁,
      UnixFile.page_write_of_ne (by omega) (by omega)]

/-- `File::disposePage` refuses the first page. -/
theorem File.disposePage_first (hio : s.io = fun _ => true)
    (hfile : s.files file = some ⟨nm, cnt, true⟩) (huf : s.unix nm = some uf)
    (hst : Stored uf fv) : Yields (disposePage file fv.first) s .BADPAGENO false s := by
  obtain ⟨free, hwf, hfirst, -⟩ := hst
  exact yields_disposePage_refused hio hfile huf hwf.size_pos (Or.inr (Or.inl hfirst.symm))

end Operations

end Minirel
