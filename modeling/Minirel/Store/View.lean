import Minirel.BufMgr.Table
import Minirel.Disk
import Mathlib.Data.Multiset.UnionInter
import Mathlib.Data.Finset.Card

/-!
# The buffer manager as a store of pages

What the clients of the buffer manager know: which files there are and which are open, what is on
their pages, and which pages they have pinned. Where a page is, in a frame or on disk, does not
show.

## Main definitions

* `Pin`, `View`: the pins that clients hold, and the files as they see them.
* `PageOk`: a page is where it should be, whether it is buffered or not.
* `Coh s P v`: the process `s` implements the view `v`, with the pins `P`.

The lemmas of this file say which changes of the state keep it coherent with the view, one for
each thing that happens to a frame, a page or a file.
-/

namespace Minirel

open Comp

/-- A pin on a page, held by a client. -/
structure Pin where
  /-- The file of the page. -/
  file : FilePtr
  /-- Its number. -/
  pageNo : Int
  /-- The frame it is in. -/
  frame : Nat
  /-- Whether the client has written to the page. -/
  wrote : Bool
  deriving DecidableEq

/-- The store as its clients see it. -/
structure View where
  /-- Size of the buffer pool. -/
  numBufs : Nat
  /-- The files of the database. -/
  file : FileName → Option FileView
  /-- The files that are open: the `File` object and how often it has been opened. -/
  handle : FileName → Option (FilePtr × Int)
  /-- Names of Unix files that do not belong to the database. -/
  foreign : FileName → Prop

namespace View

/-- Replace or remove a file. -/
def setFile (v : View) (nm : FileName) (fv : Option FileView) : View :=
  { v with file := Function.update v.file nm fv }

/-- Change how often a file is open. -/
def setHandle (v : View) (nm : FileName) (h : Option (FilePtr × Int)) : View :=
  { v with handle := Function.update v.handle nm h }

/-- The frame that holds a page, if it is buffered. -/
def loc (v : View) (b : BufMgr) (nm : FileName) (p : Int) : Option Nat :=
  (v.handle nm).bind fun h => b.hashTable.lookup h.1 p

/-- How often a file is open. -/
def openCnt (v : View) (nm : FileName) : Int :=
  match v.handle nm with
  | some h => h.2
  | none => 0

variable {v : View} {nm nm' : FileName} {fv fv' : FileView} {o : Option FileView}

@[simp] theorem file_setFile_self : (v.setFile nm o).file nm = o := Function.update_self _ _ _

theorem file_setFile_of_ne (h : nm' ≠ nm) : (v.setFile nm o).file nm' = v.file nm' :=
  Function.update_of_ne h _ _

@[simp] theorem handle_setFile : (v.setFile nm o).handle = v.handle := rfl

@[simp] theorem numBufs_setFile : (v.setFile nm o).numBufs = v.numBufs := rfl

@[simp] theorem foreign_setFile : (v.setFile nm o).foreign = v.foreign := rfl

@[simp]
theorem setFile_setFile {o' : Option FileView} :
    (v.setFile nm o).setFile nm o' = v.setFile nm o' := by
  simp [setFile]

theorem setFile_self (h : v.file nm = o) : v.setFile nm o = v := by
  subst h
  simp [setFile]

@[simp]
theorem handle_setHandle_self {h : Option (FilePtr × Int)} : (v.setHandle nm h).handle nm = h :=
  Function.update_self _ _ _

theorem handle_setHandle_of_ne {h : Option (FilePtr × Int)} (hne : nm' ≠ nm) :
    (v.setHandle nm h).handle nm' = v.handle nm' := Function.update_of_ne hne _ _

@[simp]
theorem setHandle_setHandle {h h' : Option (FilePtr × Int)} :
    (v.setHandle nm h).setHandle nm h' = v.setHandle nm h' := by
  simp [setHandle]

theorem setHandle_self {h : Option (FilePtr × Int)} (heq : v.handle nm = h) :
    v.setHandle nm h = v := by
  subst heq
  simp [setHandle]

@[simp] theorem file_setHandle {h : Option (FilePtr × Int)} : (v.setHandle nm h).file = v.file :=
  rfl

@[simp]
theorem numBufs_setHandle {h : Option (FilePtr × Int)} : (v.setHandle nm h).numBufs = v.numBufs :=
  rfl

theorem loc_of_handle {b : BufMgr} {f : FilePtr} {c : Int}
    (h : v.handle nm = some (f, c)) (p : Int) :
    v.loc b nm p = b.hashTable.lookup f p := by
  rw [loc, h]
  rfl

end View

/-- A client that has written to the page in frame `n` has it pinned. -/
def Wrote (P : Multiset Pin) (n : Nat) : Prop := ∃ x ∈ P, x.frame = n ∧ x.wrote = true

theorem Wrote.mono {P Q : Multiset Pin} {n : Nat} (h : Wrote P n) (hsub : P ≤ Q) : Wrote Q n := by
  obtain ⟨x, hx, hw⟩ := h
  exact ⟨x, Multiset.mem_of_le hsub hx, hw⟩

/-- A page with content `cur` and block `disk` on disk is where it should be: in the frame that
holds it, if there is one, and otherwise on disk. A frame that differs from the block on disk is
dirty or will be when its writer unpins it. What is `kept` on disk is not going to be written. -/
structure PageOk (b : BufMgr) (P : Multiset Pin) (cur kept : Option Block) (disk : Block)
    (loc : Option Nat) : Prop where
  on_disk : ∀ c, cur = some c → loc = none → disk = c
  in_frame : ∀ c n, cur = some c → loc = some n →
    b.bufPool n = c ∧ ((b.bufTable n).dirty = true ∨ disk = c ∨ Wrote P n)
  kept : ∀ c, kept = some c → disk = c ∧ ∀ n, loc = some n → (b.bufTable n).dirty = false

/-- Only the frame that holds the page matters. -/
theorem PageOk.congr {b b' : BufMgr} {P P' : Multiset Pin} {cur kept : Option Block} {disk : Block}
    {loc : Option Nat} (h : PageOk b P cur kept disk loc)
    (hpool : ∀ n, loc = some n → b'.bufPool n = b.bufPool n)
    (hdirty : ∀ n, loc = some n → (b'.bufTable n).dirty = (b.bufTable n).dirty)
    (hP : ∀ n, loc = some n → Wrote P n → Wrote P' n) : PageOk b' P' cur kept disk loc := by
  refine ⟨h.on_disk, fun c n hc hn => ?_, fun c hc => ⟨(h.kept c hc).1, fun n hn => ?_⟩⟩
  · rw [hpool n hn, hdirty n hn]
    obtain ⟨h₁, h₂⟩ := h.in_frame c n hc hn
    exact ⟨h₁, h₂.imp_right fun h => h.imp_right (hP n hn)⟩
  · rw [hdirty n hn]
    exact (h.kept c hc).2 n hn

/-- Less may be known of the page. -/
theorem PageOk.weaken {b : BufMgr} {P : Multiset Pin} {cur cur' kept kept' : Option Block}
    {disk : Block} {loc : Option Nat} (h : PageOk b P cur kept disk loc)
    (hcur : ∀ c, cur' = some c → cur = some c) (hkept : ∀ c, kept' = some c → kept = some c) :
    PageOk b P cur' kept' disk loc :=
  ⟨fun c hc => h.on_disk c (hcur c hc), fun c n hc => h.in_frame c n (hcur c hc),
    fun c hc => h.kept c (hkept c hc)⟩

/-- The file is open as `f`, `c` times; while it is being closed for the last time `c` is `0`. -/
structure OpenAs (s : Sys) (v : View) (nm : FileName) (f : FilePtr) (c : Int) : Prop where
  ne_zero : f ≠ 0
  lt_next : f < s.nextFile
  nonneg : 0 ≤ c
  name : nm ≠ []
  obj : s.files f = some ⟨nm, c, true⟩
  isSome : ∃ fv, v.file nm = some fv

/-- The state implements the view, with the pins `P`. -/
structure Coh (s : Sys) (P : Multiset Pin) (v : View) : Prop where
  sound : s.buf.Sound
  numBufs : s.buf.numBufs = v.numBufs
  /-- A frame that holds no page belongs to no file. -/
  idle : ∀ n < s.buf.numBufs, (s.buf.bufTable n).valid = false →
    (s.buf.bufTable n).file = 0 ∧ (s.buf.bufTable n).pinCnt = 0
  io : s.io = fun _ => true
  openFiles : ∀ nm, s.openFiles.find nm = (v.handle nm).map Prod.fst
  opened : ∀ nm f c, v.handle nm = some (f, c) → OpenAs s v nm f c
  nextFile : 0 < s.nextFile
  absent : ∀ nm, v.file nm = none → ¬v.foreign nm → s.unix nm = none
  stored : ∀ nm fv, v.file nm = some fv → ∃ uf, s.unix nm = some uf ∧ Stored uf fv ∧
    ∀ p, fv.alloc p →
      PageOk s.buf P (fv.cur p) (fv.kept p) (uf.page p.toNat) (v.loc s.buf nm p)
  /-- Only allocated pages of open files are buffered. -/
  cached : ∀ f p n, s.buf.hashTable.lookup f p = some n →
    ∃ nm c fv, v.handle nm = some (f, c) ∧ v.file nm = some fv ∧ fv.alloc p
  pins : ∀ x ∈ P, s.buf.hashTable.lookup x.file x.pageNo = some x.frame
  counts : ∀ n < s.buf.numBufs, (s.buf.bufTable n).pinCnt = P.countP (·.frame = n)

namespace BufMgr

/-- The buffer manager after the page in frame `n` has left the pool. -/
def evicted (b : BufMgr) (n : Nat) : BufMgr :=
  ({ b with hashTable := (b.hashTable.remove (b.bufTable n).file (b.bufTable n).pageNo).2 } :
    BufMgr).release n

variable {b : BufMgr} {n m : Nat} {f : FilePtr} {p : Int}

@[simp]
theorem bufTable_evicted_self : (b.evicted n).bufTable n = idleDesc := bufTable_setDesc_self _ _ _

theorem bufTable_evicted_of_ne (h : m ≠ n) : (b.evicted n).bufTable m = b.bufTable m :=
  bufTable_setDesc_of_ne _ h _

theorem lookup_evicted (h : b.Consistent) (hn : n < b.numBufs) (hv : (b.bufTable n).valid = true) :
    (b.evicted n).hashTable.lookup f p = some m ↔ m ≠ n ∧ b.hashTable.lookup f p = some m := by
  have hself := (h.valid_iff n hn).mp hv
  show (b.hashTable.remove _ _).2.lookup f p = some m ↔ _
  rw [BufHashTbl.lookup_remove]
  split
  next heq =>
    rw [heq.1, heq.2, hself]
    simp only [reduceCtorEq, Option.some.injEq, false_iff, not_and]
    exact fun hm he => hm he.symm
  next hne =>
    refine ⟨fun hl => ⟨?_, hl⟩, fun hl => hl.2⟩
    rintro rfl
    obtain ⟨-, -, e₁, e₂⟩ := h.entry _ _ _ hl
    exact hne ⟨e₁.symm, e₂.symm⟩

end BufMgr

theorem View.loc_evicted {v : View} {b : BufMgr} {n m : Nat} {nm : FileName} {p : Int}
    (h : b.Consistent) (hn : n < b.numBufs) (hv : (b.bufTable n).valid = true) :
    v.loc (b.evicted n) nm p = some m ↔ m ≠ n ∧ v.loc b nm p = some m := by
  cases hh : v.handle nm with
  | none => simp [loc, hh]
  | some d =>
    rw [loc_of_handle (c := d.2) (f := d.1) hh, loc_of_handle (c := d.2) (f := d.1) hh]
    exact BufMgr.lookup_evicted h hn hv

/-- Every frame of the pool is pinned. -/
def BufMgr.Full (b : BufMgr) : Prop :=
  ∀ n < b.numBufs, (b.bufTable n).valid = true ∧ 0 < (b.bufTable n).pinCnt

/-- What a map from pages to what is known of them says, after it has been cleared at one page. -/
theorem of_update_none {g : Int → Option Block} {p q : Int} {c : Block}
    (h : Function.update g p none q = some c) : q ≠ p ∧ g q = some c := by
  by_cases hqp : q = p
  · subst hqp
    rw [Function.update_self] at h
    cases h
  · exact ⟨hqp, by rwa [Function.update_of_ne hqp] at h⟩

/-- The descriptor of a frame after it has been pinned once more. -/
def BufDesc.repinned (d : BufDesc) : BufDesc := { d with pinCnt := d.pinCnt + 1 }

/-- The descriptor of a frame after one pin on it has been given back. -/
def BufDesc.unpinned (d : BufDesc) (dirty : Bool) : BufDesc :=
  { d with dirty := dirty || d.dirty, pinCnt := d.pinCnt - 1 }

/-- The number of frames, out of `N`, that none of the pins `P` is on. -/
def freeFrames (N : Nat) (P : Multiset Pin) : Nat :=
  ((Finset.range N).filter fun n => P.countP (·.frame = n) = 0).card

/-- A pin takes one frame at most. -/
theorem freeFrames_cons (N : Nat) (x : Pin) (P : Multiset Pin) :
    freeFrames N P ≤ freeFrames N (x ::ₘ P) + 1 := by
  have hsub : ((Finset.range N).filter fun n => P.countP (·.frame = n) = 0) ⊆
      insert x.frame ((Finset.range N).filter fun n => (x ::ₘ P).countP (·.frame = n) = 0) := by
    intro n hn
    obtain ⟨hN, hn⟩ := Finset.mem_filter.mp hn
    by_cases hx : x.frame = n
    · exact Finset.mem_insert.mpr (Or.inl hx.symm)
    · refine Finset.mem_insert_of_mem (Finset.mem_filter.mpr ⟨hN, ?_⟩)
      exact (Multiset.countP_cons_of_neg (p := fun y : Pin => y.frame = n) P hx).trans hn
  exact (Finset.card_le_card hsub).trans (Finset.card_insert_le _ _)

/-- Writing to a page takes no frame. -/
theorem freeFrames_wrote (N : Nat) (x : Pin) (b : Bool) (P : Multiset Pin) :
    freeFrames N ({ x with wrote := b } ::ₘ P) = freeFrames N (x ::ₘ P) := by
  unfold freeFrames
  simp only [Multiset.countP_cons]

/-- The number of frames that no client has pinned. -/
def Sys.freeFrames (s : Sys) : Nat :=
  ((Finset.range s.buf.numBufs).filter fun n => (s.buf.bufTable n).pinCnt = 0).card

namespace Coh

variable {s : Sys} {P : Multiset Pin} {v : View} {nm nm' : FileName} {f f' : FilePtr} {c c' : Int}
  {p p' : Int} {n m : Nat} {fv : FileView} {x : Pin} {blk : Block} {t : BufHashTbl}

/-! ## What coherence says -/

theorem name_unique (h : Coh s P v) (h₁ : v.handle nm = some (f, c))
    (h₂ : v.handle nm' = some (f, c')) : nm = nm' := by
  have hobj := (h.opened nm f c h₁).obj.symm.trans (h.opened nm' f c' h₂).obj
  cases hobj
  rfl

/-- A file that does not exist is not open. -/
theorem handle_eq_none (h : Coh s P v) (hf : v.file nm = none) : v.handle nm = none := by
  cases hh : v.handle nm with
  | none => rfl
  | some d =>
    obtain ⟨fv, hfv⟩ := (h.opened nm d.1 d.2 hh).isSome
    rw [hf] at hfv
    cases hfv

/-- A frame holds the page of one file only. -/
theorem loc_inj (h : Coh s P v) (h₁ : v.loc s.buf nm p = some n)
    (h₂ : v.loc s.buf nm' p' = some n) : nm = nm' ∧ p = p' := by
  unfold View.loc at h₁ h₂
  obtain ⟨⟨f, c⟩, hf, h₁⟩ := Option.bind_eq_some_iff.mp h₁
  obtain ⟨⟨f', c'⟩, hf', h₂⟩ := Option.bind_eq_some_iff.mp h₂
  obtain ⟨-, -, e₁, e₂⟩ := h.sound.consistent.entry _ _ _ h₁
  obtain ⟨-, -, e₃, e₄⟩ := h.sound.consistent.entry _ _ _ h₂
  have hff : f = f' := e₁.symm.trans e₃
  subst hff
  exact ⟨h.name_unique hf hf', e₂.symm.trans e₄⟩

/-- The file and the page of an entry of the hash table. -/
theorem exists_loc (h : Coh s P v) (hl : s.buf.hashTable.lookup f p = some n) :
    ∃ nm c fv, v.handle nm = some (f, c) ∧ v.file nm = some fv ∧ fv.alloc p ∧
      v.loc s.buf nm p = some n := by
  obtain ⟨nm, c, fv, h₁, h₂, h₃⟩ := h.cached f p n hl
  exact ⟨nm, c, fv, h₁, h₂, h₃, (View.loc_of_handle h₁ p).trans hl⟩

/-- The object of an open file is not confused with an object that does not exist. -/
theorem lookup_nextFile (h : Coh s P v) (hf : s.nextFile ≤ f) :
    s.buf.hashTable.lookup f p = none := by
  cases hl : s.buf.hashTable.lookup f p with
  | none => rfl
  | some n =>
    obtain ⟨nm, c, fv, h₁, -, -⟩ := h.cached f p n hl
    exact absurd (h.opened nm f c h₁).lt_next (Nat.not_lt.mpr hf)

/-- A frame that is not pinned has no writer. -/
theorem not_wrote (h : Coh s P v) (hn : n < s.buf.numBufs) (hp : (s.buf.bufTable n).pinCnt = 0) :
    ¬Wrote P n := by
  rintro ⟨x, hx, hxn, -⟩
  rw [h.counts n hn, Multiset.countP_eq_zero] at hp
  exact hp x hx hxn

theorem frame_lt (h : Coh s P v) (hx : x ∈ P) : x.frame < s.buf.numBufs :=
  (h.sound.consistent.entry _ _ _ (h.pins x hx)).1

/-- What a client finds on a page it has pinned. -/
theorem content (h : Coh s P v) (hx : x ∈ P) (hh : v.handle nm = some (x.file, c))
    (hf : v.file nm = some fv) (hp : fv.alloc x.pageNo) (hcur : fv.cur x.pageNo = some blk) :
    s.buf.bufPool x.frame = blk := by
  obtain ⟨uf, -, -, hpages⟩ := h.stored nm fv hf
  refine ((hpages x.pageNo hp).in_frame blk x.frame hcur ?_).1
  exact (View.loc_of_handle hh _).trans (h.pins x hx)

/-- A pinned page is an allocated page of an open file. -/
theorem alloc_of_pin (h : Coh s P v) (hx : x ∈ P) (hh : v.handle nm = some (x.file, c))
    (hf : v.file nm = some fv) : fv.alloc x.pageNo := by
  obtain ⟨nm', c', fv', h₁, h₂, h₃⟩ := h.cached _ _ _ (h.pins x hx)
  obtain rfl := h.name_unique h₁ hh
  rw [hf] at h₂
  cases h₂
  exact h₃

/-- If every frame is pinned, none is free. -/
theorem freeFrames_eq_zero (h : Coh s P v) (hfull : s.buf.Full) : freeFrames v.numBufs P = 0 := by
  unfold freeFrames
  rw [Finset.card_eq_zero, Finset.filter_eq_empty_iff]
  intro n hn
  rw [Finset.mem_range, ← h.numBufs] at hn
  have hpos := (hfull n hn).2
  rw [h.counts n hn] at hpos
  exact Nat.ne_of_gt hpos

/-- The frames that no client has pinned are those that are free. -/
theorem freeFrames_eq (h : Coh s P v) : s.freeFrames = freeFrames v.numBufs P := by
  unfold Sys.freeFrames freeFrames
  rw [← h.numBufs]
  congr 1
  refine Finset.filter_congr fun n hn => ?_
  rw [h.counts n (Finset.mem_range.mp hn)]

/-- Pins on one frame are on the same page. -/
theorem page_unique {y : Pin} (h : Coh s P v) (hx : x ∈ P) (hy : y ∈ P) (hxy : x.frame = y.frame) :
    x.file = y.file ∧ x.pageNo = y.pageNo := by
  obtain ⟨-, -, e₁, e₂⟩ := h.sound.consistent.entry _ _ _ (h.pins x hx)
  obtain ⟨-, -, e₃, e₄⟩ := h.sound.consistent.entry _ _ _ (h.pins y hy)
  rw [hxy] at e₁ e₂
  exact ⟨e₁.symm.trans e₃, e₂.symm.trans e₄⟩

/-- If only one pin is on a page, its frame is free without it. -/
theorem freeFrames_pos (h : Coh s (x ::ₘ P) v)
    (hne : ∀ z ∈ P, z.file = x.file → z.pageNo ≠ x.pageNo) : 0 < freeFrames v.numBufs P := by
  refine Finset.card_pos.mpr ⟨x.frame, Finset.mem_filter.mpr ⟨?_, ?_⟩⟩
  · rw [Finset.mem_range, ← h.numBufs]
    exact h.frame_lt (Multiset.mem_cons_self x P)
  · rw [Multiset.countP_eq_zero]
    intro z hz hzx
    obtain ⟨hfile, hpage⟩ := h.page_unique (Multiset.mem_cons_of_mem hz)
      (Multiset.mem_cons_self x P)
      hzx
    exact hne z hz hfile hpage

theorem pos_of_alloc (h : Coh s P v) (hf : v.file nm = some fv) (hp : fv.alloc p) : 1 ≤ p := by
  obtain ⟨uf, -, hst, -⟩ := h.stored nm fv hf
  exact (hst.range hp).1

/-! ## Changes of the buffer pool -/

/-- A change of the buffer manager and of the pins alone. -/
theorem withBuf {b : BufMgr} {Q : Multiset Pin} (h : Coh s P v) (hsound : b.Sound)
    (hN : b.numBufs = s.buf.numBufs)
    (hidle : ∀ n < s.buf.numBufs, (b.bufTable n).valid = false →
      (b.bufTable n).file = 0 ∧ (b.bufTable n).pinCnt = 0)
    (hpage : ∀ nm fv uf p, v.file nm = some fv → s.unix nm = some uf → fv.alloc p →
      PageOk s.buf P (fv.cur p) (fv.kept p) (uf.page p.toNat) (v.loc s.buf nm p) →
      PageOk b Q (fv.cur p) (fv.kept p) (uf.page p.toNat) (v.loc b nm p))
    (hcached : ∀ f p n, b.hashTable.lookup f p = some n →
      ∃ nm c fv, v.handle nm = some (f, c) ∧ v.file nm = some fv ∧ fv.alloc p)
    (hpins : ∀ x ∈ Q, b.hashTable.lookup x.file x.pageNo = some x.frame)
    (hcounts : ∀ n < s.buf.numBufs, (b.bufTable n).pinCnt = Q.countP (·.frame = n)) :
    Coh { s with buf := b } Q v where
  sound := hsound
  numBufs := hN.trans h.numBufs
  idle n hn := hidle n (hN ▸ hn)
  io := h.io
  openFiles := h.openFiles
  opened nm f c hh :=
    have ho := h.opened nm f c hh
    ⟨ho.ne_zero, ho.lt_next, ho.nonneg, ho.name, ho.obj, ho.isSome⟩
  nextFile := h.nextFile
  absent := h.absent
  stored nm fv hf := by
    obtain ⟨uf, h₁, h₂, h₃⟩ := h.stored nm fv hf
    exact ⟨uf, h₁, h₂, fun p hp => hpage nm fv uf p hf h₁ hp (h₃ p hp)⟩
  cached := hcached
  pins := hpins
  counts n hn := hcounts n (hN ▸ hn)

/-- Reference bits and the clock hand do not matter. -/
theorem touch {b : BufMgr} (h : Coh s P v) (hN : b.numBufs = s.buf.numBufs)
    (hd : b.bufTable = s.buf.bufTable) (hp : b.bufPool = s.buf.bufPool)
    (ht : b.hashTable = s.buf.hashTable) (hc : b.clockHand < s.buf.numBufs) :
    Coh { s with buf := b } P v := by
  refine h.withBuf
    ⟨h.sound.consistent.of_eq hN hd ht, hN ▸ h.sound.numBufs_pos, hN ▸ hc⟩ hN ?_ ?_ ?_ ?_ ?_
  · rw [hd]
    exact h.idle
  · intro nm fv uf p _ _ _ hpage
    have hl : v.loc b nm p = v.loc s.buf nm p := by
      unfold View.loc
      rw [ht]
    rw [hl]
    exact hpage.congr (fun n _ => by rw [hp]) (fun n _ => by rw [hd]) fun n _ h => h
  · rw [ht]
    exact h.cached
  · rw [ht]
    exact h.pins
  · rw [hd]
    exact h.counts

/-- A page that is not pinned leaves its frame; if the frame is dirty, it must have been written
to disk. -/
theorem evict (h : Coh s P v) (hn : n < s.buf.numBufs) (hv : (s.buf.bufTable n).valid = true)
    (hpin : (s.buf.bufTable n).pinCnt = 0)
    (hd : ∀ nm c fv uf blk, v.handle nm = some ((s.buf.bufTable n).file, c) →
      v.file nm = some fv → fv.cur (s.buf.bufTable n).pageNo = some blk → s.unix nm = some uf →
      (s.buf.bufTable n).dirty = true →
      uf.page (s.buf.bufTable n).pageNo.toNat = s.buf.bufPool n) :
    Coh { s with buf := s.buf.evicted n } P v := by
  have hcons := h.sound.consistent
  refine h.withBuf ⟨hcons.evict hn hv rfl rfl, h.sound.numBufs_pos, h.sound.clockHand_lt⟩ rfl
    ?_ ?_ ?_ ?_ ?_
  · intro m hm hvm
    by_cases hmn : m = n
    · subst hmn
      rw [BufMgr.bufTable_evicted_self]
      exact ⟨rfl, rfl⟩
    · rw [BufMgr.bufTable_evicted_of_ne hmn] at hvm ⊢
      exact h.idle m hm hvm
  · intro nm fv uf p hf huf hp hpage
    cases hl' : v.loc (s.buf.evicted n) nm p with
    | none =>
      refine ⟨fun blk hc _ => ?_, nofun, fun blk hc => ⟨(hpage.kept blk hc).1, nofun⟩⟩
      cases hl : v.loc s.buf nm p with
      | none => exact hpage.on_disk blk hc hl
      | some m =>
        -- the page that leaves is on disk
        have hmn : m = n := by
          by_contra hmn
          rw [(View.loc_evicted hcons hn hv).mpr ⟨hmn, hl⟩] at hl'
          cases hl'
        subst hmn
        obtain ⟨⟨f, c⟩, hfc, hm⟩ := Option.bind_eq_some_iff.mp hl
        obtain ⟨-, -, rfl, rfl⟩ := hcons.entry _ _ _ hm
        obtain ⟨hpool, hor⟩ := hpage.in_frame blk m hc hl
        rcases hor with hdirty | hdisk | hw
        · exact (hd nm c fv uf blk hfc hf hc huf hdirty).trans hpool
        · exact hdisk
        · exact absurd hw (h.not_wrote hn hpin)
    | some m =>
      obtain ⟨hmn, hl⟩ := (View.loc_evicted hcons hn hv).mp hl'
      rw [hl] at hpage
      refine hpage.congr (fun k _ => rfl) (fun k hk => ?_) fun _ _ h => h
      cases hk
      rw [BufMgr.bufTable_evicted_of_ne hmn]
  · intro f p m hl
    exact h.cached f p m ((BufMgr.lookup_evicted hcons hn hv).mp hl).2
  · intro x hx
    refine (BufMgr.lookup_evicted hcons hn hv).mpr ⟨?_, h.pins x hx⟩
    rintro rfl
    rw [h.counts _ hn, Multiset.countP_eq_zero] at hpin
    exact hpin x hx rfl
  · intro m hm
    by_cases hmn : m = n
    · subst hmn
      rw [BufMgr.bufTable_evicted_self, ← h.counts m hm, hpin]
      rfl
    · rw [BufMgr.bufTable_evicted_of_ne hmn]
      exact h.counts m hm

/-- The descriptor of a frame changes, but not the page it describes. The pins on other frames
stay, and a frame that becomes clean held what is on disk. -/
theorem setDesc {d : BufDesc} {r : Bool} {Q : Multiset Pin} (h : Coh s P v)
    (hn : n < s.buf.numBufs) (hv : (s.buf.bufTable n).valid = true)
    (hfile : d.file = (s.buf.bufTable n).file) (hpage : d.pageNo = (s.buf.bufTable n).pageNo)
    (hvalid : d.valid = true) (hQ : ∀ x ∈ Q, x ∈ P ∨
      (x.frame = n ∧ x.file = d.file ∧ x.pageNo = d.pageNo))
    (hwrote : ∀ m, m ≠ n → Wrote P m → Wrote Q m)
    (hcount : ∀ m, m ≠ n → Q.countP (·.frame = m) = P.countP (·.frame = m))
    (hself : d.pinCnt = Q.countP (·.frame = n))
    (hok : ∀ nm fv uf, v.file nm = some fv → s.unix nm = some uf →
      v.loc s.buf nm d.pageNo = some n → fv.alloc d.pageNo →
      PageOk s.buf P (fv.cur d.pageNo) (fv.kept d.pageNo) (uf.page d.pageNo.toNat) (some n) →
      (∀ c, fv.cur d.pageNo = some c → d.dirty = true ∨ uf.page d.pageNo.toNat = c ∨ Wrote Q n) ∧
      (fv.kept d.pageNo ≠ none → d.dirty = false)) :
    Coh { s with buf := (s.buf.setDesc n d).setRefbit n r } Q v := by
  have hcons := h.sound.consistent
  have hother : ∀ m, m ≠ n → ((s.buf.setDesc n d).setRefbit n r).bufTable m = s.buf.bufTable m :=
    fun m hm => BufMgr.bufTable_setDesc_of_ne _ hm _
  have hat : ((s.buf.setDesc n d).setRefbit n r).bufTable n = d :=
    BufMgr.bufTable_setDesc_self _ _ _
  have hlook : s.buf.hashTable.lookup d.file d.pageNo = some n := by
    rw [hfile, hpage]
    exact (hcons.valid_iff n hn).mp hv
  refine h.withBuf ⟨(hcons.setDesc hfile hpage (hvalid.trans hv.symm) fun hf =>
    ?_).of_eq rfl rfl rfl,
    h.sound.numBufs_pos, h.sound.clockHand_lt⟩ rfl ?_ ?_ h.cached ?_ ?_
  · rw [hvalid] at hf
    cases hf
  · intro m hm hvm
    by_cases hmn : m = n
    · subst hmn
      rw [hat, hvalid] at hvm
      cases hvm
    · rw [hother m hmn] at hvm ⊢
      exact h.idle m hm hvm
  · intro nm fv uf p hf huf hp hpg
    show PageOk _ Q _ _ _ (v.loc s.buf nm p)
    by_cases hl : v.loc s.buf nm p = some n
    · have hpd : p = d.pageNo := by
        obtain ⟨⟨f, c⟩, hfc, hm⟩ := Option.bind_eq_some_iff.mp hl
        rw [hpage]
        exact (hcons.entry _ _ _ hm).2.2.2.symm
      subst hpd
      rw [hl] at hpg ⊢
      obtain ⟨h₁, h₂⟩ := hok nm fv uf hf huf hl hp hpg
      refine ⟨nofun, fun c m hc hm => ?_, fun c hc => ⟨(hpg.kept c hc).1, fun m hm => ?_⟩⟩
      · cases hm
        rw [hat]
        exact ⟨(hpg.in_frame c n hc rfl).1, h₁ c hc⟩
      · cases hm
        rw [hat]
        exact h₂ (by rw [hc]; exact nofun)
    · have hne : ∀ m, v.loc s.buf nm p = some m → m ≠ n := by
        rintro m hm rfl
        exact hl hm
      exact hpg.congr (fun _ _ => rfl) (fun m hm => by rw [hother m (hne m hm)])
        fun m hm => hwrote m (hne m hm)
  · intro x hx
    rcases hQ x hx with hx | ⟨h₁, h₂, h₃⟩
    · exact h.pins x hx
    · rw [h₁, h₂, h₃]
      exact hlook
  · intro m hm
    by_cases hmn : m = n
    · subst hmn
      rw [hat, hself]
    · rw [hother m hmn, h.counts m hm, hcount m hmn]

/-- A client pins a page that is buffered once more. -/
theorem repin (h : Coh s P v) (hl : s.buf.hashTable.lookup f p = some n) :
    Coh { s with buf := (s.buf.setRefbit n true).setDesc n (s.buf.bufTable n).repinned }
      (⟨f, p, n, false⟩ ::ₘ P) v := by
  obtain ⟨hn, hv, hf, hp⟩ := h.sound.consistent.entry _ _ _ hl
  refine h.setDesc (r := true) hn hv rfl rfl hv (fun x hx => ?_) (fun m _ hw => ?_) (fun m hm => ?_)
    ?_ fun nm fv uf _ _ _ _ hpg => ?_
  · rcases Multiset.mem_cons.mp hx with rfl | hx
    · exact Or.inr ⟨rfl, hf.symm, hp.symm⟩
    · exact Or.inl hx
  · exact hw.mono (Multiset.le_cons_self P _)
  · rw [Multiset.countP_cons, if_neg (fun he => hm he.symm), Nat.add_zero]
  · rw [Multiset.countP_cons, if_pos rfl, ← h.counts n hn]
    rfl
  · refine ⟨fun c hc => ?_, fun hk => ?_⟩
    · exact (hpg.in_frame c n hc rfl).2.imp_right
        fun h => h.imp_right fun hw => hw.mono (Multiset.le_cons_self P _)
    · obtain ⟨c, hc⟩ := Option.ne_none_iff_exists'.mp hk
      exact (hpg.kept c hc).2 n rfl

/-- A client gives back a pin, and tells whether it has written to the page. -/
theorem unpin {dirty : Bool} (h : Coh s (x ::ₘ P) v) (hw : x.wrote = true → dirty = true)
    (hkept : ∀ nm fv, v.file nm = some fv → v.loc s.buf nm x.pageNo = some x.frame →
      dirty = true → fv.kept x.pageNo = none) :
    Coh { s with buf := s.buf.setDesc x.frame ((s.buf.bufTable x.frame).unpinned dirty) } P v := by
  have hx : x ∈ x ::ₘ P := Multiset.mem_cons_self x P
  obtain ⟨hn, hv, hf, hp⟩ := h.sound.consistent.entry _ _ _ (h.pins x hx)
  have hcnt := h.counts x.frame hn
  rw [Multiset.countP_cons, if_pos rfl] at hcnt
  have hset : ∀ d', s.buf.setDesc x.frame d' =
      (s.buf.setDesc x.frame d').setRefbit x.frame (s.buf.refbit x.frame) := fun d' => by
    simp [BufMgr.setRefbit, BufMgr.setDesc]
  rw [hset]
  refine h.setDesc hn hv rfl rfl hv (fun y hy => ?_) (fun m hm hw' => ?_)
    (fun m hm => ?_) ?_ fun nm fv uf hfv _ hl _ hpg => ?_
  · exact Or.inl (Multiset.mem_cons_of_mem hy)
  · obtain ⟨y, hy, hym, hyw⟩ := hw'
    rcases Multiset.mem_cons.mp hy with rfl | hy
    · exact absurd hym.symm hm
    · exact ⟨y, hy, hym, hyw⟩
  · rw [Multiset.countP_cons, if_neg (fun he => hm he.symm), Nat.add_zero]
  · show (s.buf.bufTable x.frame).pinCnt - 1 = _
    rw [hcnt]
    rfl
  · have hp' : ((s.buf.bufTable x.frame).unpinned dirty).pageNo = x.pageNo := hp
    rw [hp'] at hpg hl ⊢
    refine ⟨fun c hc => ?_, fun hk => ?_⟩
    · rcases (hpg.in_frame c x.frame hc rfl).2 with hdirty | hdisk | ⟨y, hy, hyn, hyw⟩
      · left
        show (dirty || _) = true
        rw [hdirty, Bool.or_true]
      · exact Or.inr (Or.inl hdisk)
      · rcases Multiset.mem_cons.mp hy with rfl | hy
        · left
          show (dirty || _) = true
          rw [hw hyw, Bool.true_or]
        · exact Or.inr (Or.inr ⟨y, hy, hyn, hyw⟩)
    · obtain ⟨c, hc⟩ := Option.ne_none_iff_exists'.mp hk
      show (dirty || _) = false
      rw [(hpg.kept c hc).2 x.frame rfl, Bool.or_false]
      cases hdirty : dirty with
      | false => rfl
      | true => exact absurd (hkept nm fv hfv hl hdirty) hk

/-- A frame that holds no page is cleared. -/
theorem release (h : Coh s P v) (hv : (s.buf.bufTable n).valid = false) (hn : n < s.buf.numBufs) :
    Coh { s with buf := s.buf.release n } P v := by
  have hother : ∀ m, m ≠ n → (s.buf.release n).bufTable m = s.buf.bufTable m :=
    fun m hm => BufMgr.bufTable_setDesc_of_ne _ hm _
  have hat : (s.buf.release n).bufTable n = BufMgr.idleDesc := BufMgr.bufTable_setDesc_self _ _ _
  refine h.withBuf ⟨h.sound.consistent.release_of_not_valid hv, h.sound.numBufs_pos,
    h.sound.clockHand_lt⟩ rfl (fun m hm hvm => ?_) (fun nm fv uf p _ _ _ hpg => ?_) h.cached h.pins
    fun m hm => ?_
  · by_cases hmn : m = n
    · subst hmn
      rw [hat]
      exact ⟨rfl, rfl⟩
    · rw [hother m hmn] at hvm ⊢
      exact h.idle m hm hvm
  · refine hpg.congr (fun _ _ => rfl) (fun m hm => ?_) fun _ _ hw => hw
    rw [hother]
    rintro rfl
    obtain ⟨⟨f, c⟩, hfc, hm⟩ := Option.bind_eq_some_iff.mp hm
    have := (h.sound.consistent.entry _ _ _ hm).2.1
    rw [hv] at this
    cases this
  · by_cases hmn : m = n
    · subst hmn
      rw [hat, ← h.counts m hm, (h.idle m hm hv).2]
      rfl
    · rw [hother m hmn]
      exact h.counts m hm

/-- A page is entered into a frame that holds none. -/
theorem entered (h : Coh { s with buf := s.buf.release n } P v) (blk : Block)
    (hn : n < s.buf.numBufs)
    (hfree : s.buf.hashTable.lookup f p = none) (hh : v.handle nm = some (f, c))
    (hf : v.file nm = some fv) (hp : fv.alloc p)
    (ht : ∀ f' p', t.lookup f' p' =
      if f' = f ∧ p' = p then some n else s.buf.hashTable.lookup f' p')
    (hblk : ∀ c, fv.cur p = some c → blk = c) :
    Coh { s with buf := (s.buf.setPool n blk).entered f p n t } (⟨f, p, n, false⟩ ::ₘ P) v := by
  set b := (s.buf.setPool n blk).entered f p n t with hb
  have hother : ∀ m, m ≠ n → b.bufTable m = (s.buf.release n).bufTable m := fun m hm => by
    rw [BufMgr.release, BufMgr.bufTable_setDesc_of_ne _ hm]
    exact BufMgr.bufTable_setDesc_of_ne _ hm _
  have hat : b.bufTable n = ⟨f, p, 1, false, true⟩ := BufMgr.bufTable_setDesc_self _ _ _
  have hidle : ((s.buf.release n).bufTable n).pinCnt = 0 := by
    rw [BufMgr.release, BufMgr.bufTable_setDesc_self]
    rfl
  have hnot : ∀ f' p', s.buf.hashTable.lookup f' p' ≠ some n := by
    intro f' p' hl
    have := (h.sound.consistent.entry f' p' n hl).2.1
    have hat' : (s.buf.release n).bufTable n = BufMgr.idleDesc := BufMgr.bufTable_setDesc_self _ _ _
    have this : ((s.buf.release n).bufTable n).valid = true := this
    rw [hat'] at this
    cases this
  refine h.withBuf (b := b) ⟨?_, h.sound.numBufs_pos, h.sound.clockHand_lt⟩ rfl ?_ ?_ ?_ ?_ ?_
  · exact BufMgr.Consistent.entered (b := s.buf.setPool n blk)
      (h.sound.consistent.of_eq rfl rfl rfl) hn hfree ht
  · intro m hm hvm
    by_cases hmn : m = n
    · subst hmn
      rw [hat] at hvm
      cases hvm
    · rw [hother m hmn] at hvm ⊢
      exact h.idle m hm hvm
  · intro nm' fv' uf p' hf' huf hp' hpg
    by_cases hq : nm' = nm ∧ p' = p
    · obtain ⟨rfl, rfl⟩ := hq
      rw [hf] at hf'
      cases hf'
      have hl : v.loc b nm' p' = some n := by
        rw [View.loc_of_handle hh]
        exact (ht f p').trans (if_pos ⟨rfl, rfl⟩)
      have hl₀ : v.loc (s.buf.release n) nm' p' = none := by
        rw [View.loc_of_handle hh]
        exact hfree
      rw [hl]
      refine ⟨fun _ _ hn => absurd hn (Option.some_ne_none n), fun c₁ m hc hm => ?_,
        fun c₁ hc => ⟨(hpg.kept c₁ hc).1, fun m hm => ?_⟩⟩
      · cases hm
        have hpool : b.bufPool n = blk := Function.update_self _ _ _
        rw [hpool]
        exact ⟨hblk c₁ hc, Or.inr (Or.inl (hpg.on_disk c₁ hc hl₀))⟩
      · cases hm
        rw [hat]
    · have hl : v.loc b nm' p' = v.loc (s.buf.release n) nm' p' := by
        cases hh' : v.handle nm' with
        | none => simp [View.loc, hh']
        | some d =>
          rw [View.loc_of_handle (f := d.1) (c := d.2) hh',
            View.loc_of_handle (f := d.1) (c := d.2) hh']
          refine (ht d.1 p').trans (if_neg ?_)
          rintro ⟨he, rfl⟩
          exact hq ⟨h.name_unique (c := d.2) (by rw [hh', ← he]) hh, rfl⟩
      rw [hl]
      have hne : ∀ m, v.loc (s.buf.release n) nm' p' = some m → m ≠ n := by
        rintro m hm rfl
        obtain ⟨⟨f', c'⟩, hfc, hm⟩ := Option.bind_eq_some_iff.mp hm
        exact hnot _ _ hm
      refine hpg.congr (fun m hm => ?_) (fun m hm => ?_) fun _ _ hw =>
        hw.mono (Multiset.le_cons_self P _)
      · exact Function.update_of_ne (hne m hm) _ _
      · rw [hother m (hne m hm)]
  · intro f' p' m hl
    have hl : t.lookup f' p' = some m := hl
    rw [ht] at hl
    split at hl
    next heq => exact ⟨nm, c, fv, heq.1 ▸ hh, hf, heq.2 ▸ hp⟩
    next => exact h.cached f' p' m hl
  · intro x hx
    show t.lookup x.file x.pageNo = some x.frame
    rw [ht]
    rcases Multiset.mem_cons.mp hx with rfl | hx
    · exact if_pos ⟨rfl, rfl⟩
    · have hl := h.pins x hx
      rw [if_neg]
      · exact hl
      · rintro ⟨h₁, h₂⟩
        have hl : s.buf.hashTable.lookup x.file x.pageNo = some x.frame := hl
        rw [h₁, h₂, hfree] at hl
        cases hl
  · intro m hm
    by_cases hmn : m = n
    · subst hmn
      have := h.counts m hm
      rw [hat, Multiset.countP_cons, if_pos rfl, ← this, hidle]
    · rw [hother m hmn, Multiset.countP_cons, if_neg (fun he => hmn he.symm), Nat.add_zero]
      exact h.counts m hm

/-! ## Changes of a file -/

/-- A change of one Unix file, and of what is known of it. -/
theorem withFile {u : UnixFile} {w : FileView} (h : Coh s P v) (hf : v.file nm = some fv)
    (hst : Stored u w)
    (hpage : ∀ p, w.alloc p →
      PageOk s.buf P (w.cur p) (w.kept p) (u.page p.toNat) (v.loc s.buf nm p))
    (halloc : ∀ p n, v.loc s.buf nm p = some n → fv.alloc p → w.alloc p) :
    Coh (s.setUnix nm (some u)) P (v.setFile nm (some w)) where
  sound := h.sound
  numBufs := h.numBufs
  idle := h.idle
  io := h.io
  openFiles := h.openFiles
  opened nm' f c hh := by
    have ho := h.opened nm' f c hh
    refine ⟨ho.ne_zero, ho.lt_next, ho.nonneg, ho.name, ho.obj, ?_⟩
    by_cases hne : nm' = nm
    · subst hne
      exact ⟨w, View.file_setFile_self⟩
    · rw [View.file_setFile_of_ne hne]
      exact ho.isSome
  nextFile := h.nextFile
  absent nm' hn hnf := by
    by_cases hne : nm' = nm
    · subst hne
      rw [View.file_setFile_self] at hn
      cases hn
    · rw [View.file_setFile_of_ne hne] at hn
      exact (Function.update_of_ne hne _ _).trans (h.absent nm' hn hnf)
  stored nm' fv₁ hf₁ := by
    by_cases hne : nm' = nm
    · subst hne
      rw [View.file_setFile_self] at hf₁
      cases hf₁
      exact ⟨u, Function.update_self _ _ _, hst, hpage⟩
    · rw [View.file_setFile_of_ne hne] at hf₁
      obtain ⟨uf, h₁, h₂⟩ := h.stored nm' fv₁ hf₁
      exact ⟨uf, (Function.update_of_ne hne _ _).trans h₁, h₂⟩
  cached f p n hl := by
    obtain ⟨nm', c, fv₁, h₁, h₂, h₃⟩ := h.cached f p n hl
    by_cases hne : nm' = nm
    · subst hne
      rw [hf] at h₂
      cases h₂
      exact ⟨nm', c, w, h₁, View.file_setFile_self,
        halloc p n ((View.loc_of_handle h₁ p).trans hl) h₃⟩
    · exact ⟨nm', c, fv₁, h₁, (View.file_setFile_of_ne hne).trans h₂, h₃⟩
  pins := h.pins
  counts := h.counts

/-- Less may be known of a file. -/
theorem weaken {fv' : FileView} (h : Coh s P v) (hf : v.file nm = some fv)
    (hfirst : fv'.first = fv.first) (halloc : fv'.alloc = fv.alloc)
    (hcur : ∀ p c, fv'.cur p = some c → fv.cur p = some c)
    (hkept : ∀ p c, fv'.kept p = some c → fv.kept p = some c) :
    Coh s P (v.setFile nm (some fv')) := by
  obtain ⟨uf, h₁, h₂, h₃⟩ := h.stored nm fv hf
  have key := h.withFile (u := uf) hf (h₂.of_eq hfirst halloc)
    (fun p hp => (h₃ p (halloc ▸ hp)).weaken (hcur p) (hkept p)) fun p n _ hp => halloc ▸ hp
  have hs : s.setUnix nm (some uf) = s := by
    unfold Sys.setUnix
    rw [← h₁, Function.update_eq_self]
  rwa [hs] at key

/-- A dirty frame is written to disk. -/
theorem written {uf : UnixFile} (h : Coh s P v) (hh : v.handle nm = some (f, c))
    (huf : s.unix nm = some uf) (hl : s.buf.hashTable.lookup f p = some n)
    (hd : (s.buf.bufTable n).dirty = true) :
    Coh (s.setUnix nm (some (uf.write p.toNat (s.buf.bufPool n)))) P v := by
  obtain ⟨nm', c', fv, h₁, h₂, h₃⟩ := h.cached f p n hl
  obtain rfl := h.name_unique h₁ hh
  obtain ⟨uf', h₄, h₅, h₆⟩ := h.stored nm' fv h₂
  rw [huf] at h₄
  cases h₄
  have hloc : v.loc s.buf nm' p = some n := (View.loc_of_handle hh p).trans hl
  have key := h.withFile (u := uf.write p.toNat (s.buf.bufPool n)) (w := fv) h₂ (h₅.write h₃)
    (fun q hq => ?_) fun _ _ _ hq => hq
  · rwa [View.setFile_self h₂] at key
  · by_cases hqp : q = p
    · subst hqp
      have hpg := h₆ q hq
      rw [hloc] at hpg ⊢
      rw [UnixFile.page_write_self]
      refine ⟨nofun, fun blk m hb hm => ?_, fun blk hk => ?_⟩
      · obtain ⟨e₁, e₂⟩ := hpg.in_frame blk m hb hm
        cases hm
        exact ⟨e₁, Or.inr (Or.inl e₁)⟩
      · rw [(hpg.kept blk hk).2 n rfl] at hd
        cases hd
    · obtain ⟨hq₁, hq₂⟩ := h₅.range hq
      obtain ⟨hp₁, hp₂⟩ := h₅.range h₃
      rw [UnixFile.page_write_of_ne (by omega) (by omega)]
      exact h₆ q hq

/-- A client writes to a page it has pinned. -/
theorem assign (h : Coh s (x ::ₘ P) v) (hh : v.handle nm = some (x.file, c))
    (hf : v.file nm = some fv) :
    Coh { s with buf := s.buf.setPool x.frame blk } ({ x with wrote := true } ::ₘ P)
      (v.setFile nm (some (fv.assign x.pageNo blk))) := by
  have hx : x ∈ x ::ₘ P := Multiset.mem_cons_self x P
  have hloc : v.loc s.buf nm x.pageNo = some x.frame :=
    (View.loc_of_handle hh _).trans (h.pins x hx)
  -- what was known of the page is forgotten first
  set fv₀ : FileView := { fv with cur := Function.update fv.cur x.pageNo none } with hfv₀
  have h₁ : Coh s (x ::ₘ P) (v.setFile nm (some fv₀)) :=
    h.weaken hf rfl rfl (fun p c hc => (of_update_none hc).2) fun p c hc => hc
  have h₂ : Coh { s with buf := s.buf.setPool x.frame blk } ({ x with wrote := true } ::ₘ P)
      (v.setFile nm (some fv₀)) := by
    refine h₁.withBuf ⟨h.sound.consistent.of_eq rfl rfl rfl, h.sound.numBufs_pos,
      h.sound.clockHand_lt⟩ rfl h.idle (fun nm' fv' uf p hf' huf hp hpg => ?_) h₁.cached
      (fun y hy => ?_) fun m hm => ?_
    · have hW : ∀ m, Wrote (x ::ₘ P) m → Wrote ({ x with wrote := true } ::ₘ P) m := by
        rintro m ⟨y, hy, hym, hyw⟩
        rcases Multiset.mem_cons.mp hy with rfl | hy
        · exact ⟨_, Multiset.mem_cons_self _ P, hym, rfl⟩
        · exact ⟨y, Multiset.mem_cons_of_mem hy, hym, hyw⟩
      by_cases hl : v.loc s.buf nm' p = some x.frame
      · obtain ⟨rfl, rfl⟩ := h.loc_inj hl hloc
        rw [View.file_setFile_self] at hf'
        cases hf'
        exact ⟨fun c hc => absurd rfl (of_update_none hc).1,
          fun c m hc => absurd rfl (of_update_none hc).1, hpg.kept⟩
      · refine hpg.congr (fun m hm => Function.update_of_ne ?_ _ _) (fun _ _ => rfl)
          fun m _ hw => hW m hw
        rintro rfl
        exact hl hm
    · rcases Multiset.mem_cons.mp hy with rfl | hy
      · exact h.pins x hx
      · exact h.pins y (Multiset.mem_cons_of_mem hy)
    · show (s.buf.bufTable m).pinCnt = _
      rw [h.counts m hm, Multiset.countP_cons, Multiset.countP_cons]
  obtain ⟨uf, h₃, h₄, h₅⟩ := h₂.stored nm fv₀ View.file_setFile_self
  have key := h₂.withFile (u := uf) (w := fv.assign x.pageNo blk) View.file_setFile_self
    (h₄.of_eq rfl rfl) (fun p hp => ?_) fun _ _ _ hp => hp
  · have hs : ({ s with buf := s.buf.setPool x.frame blk } : Sys).setUnix nm (some uf) =
        { s with buf := s.buf.setPool x.frame blk } := by
      unfold Sys.setUnix
      rw [← h₃, Function.update_eq_self]
    rwa [hs, View.setFile_setFile] at key
  · have hpg := h₅ p hp
    by_cases hpx : p = x.pageNo
    · subst hpx
      have hl : (v.setFile nm (some fv₀)).loc (s.buf.setPool x.frame blk) nm x.pageNo =
          some x.frame := hloc
      rw [hl] at hpg ⊢
      refine ⟨nofun, fun b m hb hm => ?_, hpg.kept⟩
      cases hm
      have hb : Function.update fv.cur x.pageNo (some blk) x.pageNo = some b := hb
      rw [Function.update_self] at hb
      cases hb
      exact ⟨Function.update_self _ _ _,
        Or.inr (Or.inr ⟨_, Multiset.mem_cons_self _ P, rfl, rfl⟩)⟩
    · have hc : (fv.assign x.pageNo blk).cur p = fv₀.cur p := by
        show Function.update fv.cur x.pageNo (some blk) p = Function.update fv.cur x.pageNo none p
        rw [Function.update_of_ne hpx, Function.update_of_ne hpx]
      rw [hc]
      exact hpg

/-- A page is allocated. -/
theorem allocate {uf uf' : UnixFile} (h : Coh s P v) (hf : v.file nm = some fv)
    (huf : s.unix nm = some uf) (hst : Stored uf' (fv.allocate p))
    (hsame : ∀ q, fv.alloc q → uf'.page q.toNat = uf.page q.toNat) :
    Coh (s.setUnix nm (some uf')) P (v.setFile nm (some (fv.allocate p))) := by
  obtain ⟨uf₀, h₁, -, h₃⟩ := h.stored nm fv hf
  rw [huf] at h₁
  cases h₁
  refine h.withFile hf hst (fun q hq => ?_) fun q n _ hq => Or.inr hq
  by_cases hqp : q = p
  · exact ⟨fun c hc => absurd hqp (of_update_none hc).1,
      fun c n hc => absurd hqp (of_update_none hc).1, fun c hc => absurd hqp (of_update_none hc).1⟩
  · have hq : fv.alloc q := hq.resolve_left hqp
    rw [hsame q hq]
    exact (h₃ q hq).weaken (fun c hc => (of_update_none hc).2) fun c hc => (of_update_none hc).2

/-- A page that is not buffered is disposed of. -/
theorem dispose {uf uf' : UnixFile} (h : Coh s P v) (hf : v.file nm = some fv)
    (huf : s.unix nm = some uf) (hloc : v.loc s.buf nm p = none)
    (hst : Stored uf' (fv.dispose p))
    (hsame : ∀ q, q ≠ p → fv.alloc q → uf'.page q.toNat = uf.page q.toNat) :
    Coh (s.setUnix nm (some uf')) P (v.setFile nm (some (fv.dispose p))) := by
  obtain ⟨uf₀, h₁, -, h₃⟩ := h.stored nm fv hf
  rw [huf] at h₁
  cases h₁
  refine h.withFile hf hst (fun q hq => ?_) fun q n hl hq => ⟨?_, hq⟩
  · obtain ⟨hqp, hq⟩ := hq
    rw [hsame q hqp hq]
    exact (h₃ q hq).weaken (fun c hc => (of_update_none hc).2) fun c hc => (of_update_none hc).2
  · rintro rfl
    rw [hloc] at hl
    cases hl

/-! ## Opening, closing, creating and destroying files -/

/-- A change of how often a file is open, and of the objects of files that are not open. -/
theorem withHandle {t : Sys} {o : Option (FilePtr × Int)} (h : Coh s P v) (nm : FileName)
    (hbuf : t.buf = s.buf) (hio : t.io = s.io) (hunix : t.unix = s.unix)
    (hnext : s.nextFile ≤ t.nextFile)
    (hfiles : ∀ nm' f c, nm' ≠ nm → v.handle nm' = some (f, c) → t.files f = s.files f)
    (hopen : ∀ nm', t.openFiles.find nm' =
      if nm' = nm then o.map Prod.fst else s.openFiles.find nm')
    (hobj : ∀ f c, o = some (f, c) → OpenAs t v nm f c)
    (hloc : ∀ p, (o.bind fun d => s.buf.hashTable.lookup d.1 p) = v.loc s.buf nm p) :
    Coh t P (v.setHandle nm o) := by
  have hlocs : ∀ nm' p, (v.setHandle nm o).loc s.buf nm' p = v.loc s.buf nm' p := by
    intro nm' p
    by_cases hne : nm' = nm
    · subst hne
      rw [← hloc, View.loc, View.handle_setHandle_self]
    · unfold View.loc
      rw [View.handle_setHandle_of_ne hne]
  refine ⟨hbuf ▸ h.sound, hbuf ▸ h.numBufs, hbuf ▸ h.idle, hio.trans h.io, fun nm' => ?_,
    fun nm' f c hh => ?_, lt_of_lt_of_le h.nextFile hnext, hunix ▸ h.absent,
    fun nm' fv hf => ?_, fun f p n hl => ?_, hbuf ▸ h.pins, hbuf ▸ h.counts⟩
  · rw [hopen]
    split
    next he => rw [he, View.handle_setHandle_self]
    next hne => rw [View.handle_setHandle_of_ne hne, h.openFiles]
  · by_cases hne : nm' = nm
    · subst hne
      rw [View.handle_setHandle_self] at hh
      have ho := hobj f c hh
      exact ⟨ho.ne_zero, ho.lt_next, ho.nonneg, ho.name, ho.obj, ho.isSome⟩
    · rw [View.handle_setHandle_of_ne hne] at hh
      have ho := h.opened nm' f c hh
      exact ⟨ho.ne_zero, lt_of_lt_of_le ho.lt_next hnext, ho.nonneg, ho.name,
        (hfiles nm' f c hne hh).trans ho.obj, ho.isSome⟩
  · obtain ⟨uf, h₁, h₂, h₃⟩ := h.stored nm' fv hf
    refine ⟨uf, hunix ▸ h₁, h₂, fun p hp => ?_⟩
    rw [hbuf, hlocs]
    exact h₃ p hp
  · rw [hbuf] at hl
    obtain ⟨nm', c, fv, h₁, h₂, h₃⟩ := h.cached f p n hl
    by_cases hne : nm' = nm
    · subst hne
      have hl' := (hloc p).trans ((View.loc_of_handle h₁ p).trans hl)
      obtain ⟨⟨f', c'⟩, ho, hl'⟩ := Option.bind_eq_some_iff.mp hl'
      have he₁ := (h.sound.consistent.entry _ _ _ hl).2.2.1
      have he₂ := (h.sound.consistent.entry _ _ _ hl').2.2.1
      have hff : f' = f := he₂.symm.trans he₁
      subst hff
      exact ⟨nm', c', fv, by rw [View.handle_setHandle_self, ho], h₂, h₃⟩
    · exact ⟨nm', c, fv, (View.handle_setHandle_of_ne hne).trans h₁, h₂, h₃⟩

/-- A file that is not open is created or removed. -/
theorem withUnix {o : Option UnixFile} {o' : Option FileView} (h : Coh s P v)
    (hh : v.handle nm = none) (hnone : o' = none → ¬v.foreign nm → o = none)
    (hsome : ∀ fv, o' = some fv → ∃ uf, o = some uf ∧ Stored uf fv ∧
      ∀ p, fv.alloc p → PageOk s.buf P (fv.cur p) (fv.kept p) (uf.page p.toNat) none) :
    Coh (s.setUnix nm o) P (v.setFile nm o') := by
  have hne : ∀ nm' f c, v.handle nm' = some (f, c) → nm' ≠ nm := by
    rintro nm' f c hc rfl
    rw [hh] at hc
    cases hc
  refine ⟨h.sound, h.numBufs, h.idle, h.io, h.openFiles, fun nm' f c hc => ?_, h.nextFile,
    fun nm' hn hnf => ?_, fun nm' fv hf => ?_, fun f p n hl => ?_, h.pins, h.counts⟩
  · have ho := h.opened nm' f c hc
    refine ⟨ho.ne_zero, ho.lt_next, ho.nonneg, ho.name, ho.obj, ?_⟩
    rw [View.file_setFile_of_ne (hne nm' f c hc)]
    exact ho.isSome
  · by_cases he : nm' = nm
    · subst he
      rw [View.file_setFile_self] at hn
      exact (Function.update_self _ _ _).trans (hnone hn hnf)
    · rw [View.file_setFile_of_ne he] at hn
      exact (Function.update_of_ne he _ _).trans (h.absent nm' hn hnf)
  · by_cases he : nm' = nm
    · subst he
      rw [View.file_setFile_self] at hf
      obtain ⟨uf, h₁, h₂, h₃⟩ := hsome fv hf
      refine ⟨uf, (Function.update_self _ _ _).trans h₁, h₂, fun p hp => ?_⟩
      have hl : (v.setFile nm' o').loc s.buf nm' p = none := by
        unfold View.loc
        rw [View.handle_setFile, hh]
        rfl
      exact hl ▸ h₃ p hp
    · rw [View.file_setFile_of_ne he] at hf
      obtain ⟨uf, h₁, h₂⟩ := h.stored nm' fv hf
      exact ⟨uf, (Function.update_of_ne he _ _).trans h₁, h₂⟩
  · obtain ⟨nm', c, fv, h₁, h₂, h₃⟩ := h.cached f p n hl
    exact ⟨nm', c, fv, h₁, (View.file_setFile_of_ne (hne nm' f c h₁)).trans h₂, h₃⟩

end Coh

end Minirel
