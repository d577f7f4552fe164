import Minirel.BufMgr.Owners
import Minirel.HeapFile.Scan
import Minirel.HeapFile.Create
import Mathlib.Algebra.Order.Group.Multiset
import Mathlib.Algebra.BigOperators.Group.Multiset.Defs

/-!
# Heap-file objects when calls fail

A `HeapFile` object has its header page pinned and, unless `curPage` is `NULL`, the data page
`curPageNo`. Calls fail: a page number in a RID is beyond the end of the file, a Unix call goes
wrong, no frame is free. An object that comes out of a failed call still has the pins that its
members say it has. The exception is a move to another data page, in `getRecord` and in
`resetScan`, whose read fails: the old page has been unpinned by then and `curPage` still points
to its frame.

## Main definitions

* `HeapFile.pins`: the pins that the members of an object speak of.
* `Holders.Intact`: these pins are all there are, other than those of clients elsewhere.
* `HeapFile.SwitchFails`: the failure after which they are not.

## Main results

* `intact_of_run`: in a run without such a failure the objects have their pins in every state.
* `not_intact_after_failed_switch`: a run with one.
-/

namespace Minirel

open Comp BufMgr

namespace HeapFile

/-- The pin on a page that a pointer into the pool stands for. -/
def pinOn (file : FilePtr) (pageNo : Int) : PagePtr → Multiset Pin
  | .frame n => {⟨file, pageNo, n, false⟩}
  | _ => 0

/-- The pin on the header page. -/
def headerPin (h : HeapFile) : Multiset Pin := pinOn h.filePtr h.headerPageNo h.headerPage

/-- The pins that an object speaks of: one on the data page unless `curPage` is `NULL`, and one on
the header page. -/
def pins (h : HeapFile) : Multiset Pin := pinOn h.filePtr h.curPageNo h.curPage + h.headerPin

/-- The pointers of the object have been set. -/
structure Formed (h : HeapFile) : Prop where
  headerPage : ∃ n, h.headerPage = .frame n
  curPage : h.curPage ≠ .wild

/-- The object has the pins that it speaks of, and there are the pins `R` besides. -/
structure Owns (s : Sys) (R : Multiset Pin) (h : HeapFile) : Prop where
  formed : h.Formed
  pinned : Pinned s.buf (h.pins + R)

/-- The page cannot be read, and `curPage` is what it was. -/
def ReadFails (s : Sys) (h : HeapFile) (pageNo : Int) : Prop :=
  ∃ r e s', Yields (BufMgr.readPage h.filePtr pageNo h.curPage) s r e s' ∧ r.1 ≠ .OK

/-- The object gives its data page back to move to another page, which cannot be read. -/
def SwitchFails (s : Sys) (h : HeapFile) (pageNo : Int) : Prop :=
  h.curPage ≠ .null ∧ pageNo ≠ h.curPageNo ∧ ∃ e s₁,
    Yields (BufMgr.unPinPage h.filePtr h.curPageNo h.curDirtyFlag) s .OK e s₁ ∧
      ReadFails s₁ h pageNo

section Objects

variable {s : Sys} {R : Multiset Pin} {h h' : HeapFile} {rid : RID} {n : Nat}

theorem pins_null (hnull : h.curPage = .null) : h.pins = h.headerPin := by
  unfold pins
  rw [hnull]
  exact zero_add h.headerPin

theorem pins_frame (hcur : h.curPage = .frame n) :
    h.pins = ⟨h.filePtr, h.curPageNo, n, false⟩ ::ₘ h.headerPin := by
  unfold pins
  rw [hcur]
  exact Multiset.singleton_add _ _

/-- The data page of an object, unless `curPage` is `NULL`. -/
theorem Formed.frame (hf : h.Formed) (hne : h.curPage ≠ .null) : ∃ n, h.curPage = .frame n := by
  cases hc : h.curPage with
  | null => exact absurd hc hne
  | frame n => exact ⟨n, rfl⟩
  | wild => exact absurd hc hf.curPage

/-- An object without a data page. -/
theorem owns_null (hf : ∃ n, h.headerPage = .frame n) (hnull : h.curPage = .null)
    (hP : Pinned s.buf (h.headerPin + R)) : Owns s R h :=
  ⟨⟨hf, by rw [hnull]; exact nofun⟩, by rwa [pins_null hnull]⟩

/-- An object that has just pinned its data page. -/
theorem owns_frame (hf : ∃ n, h.headerPage = .frame n) (hcur : h.curPage = .frame n)
    (hP : Pinned s.buf (⟨h.filePtr, h.curPageNo, n, false⟩ ::ₘ (h.headerPin + R))) : Owns s R h :=
  ⟨⟨hf, by rw [hcur]; exact nofun⟩, by rwa [pins_frame hcur, Multiset.cons_add]⟩

theorem Owns.pinned_frame (ho : Owns s R h) (hcur : h.curPage = .frame n) :
    Pinned s.buf (⟨h.filePtr, h.curPageNo, n, false⟩ ::ₘ (h.headerPin + R)) := by
  have hP := ho.pinned
  rwa [pins_frame hcur, Multiset.cons_add] at hP

/-- The pins depend on three members and the pointers only. -/
theorem Owns.congr (ho : Owns s R h) (hfile : h'.filePtr = h.filePtr)
    (hno : h'.headerPageNo = h.headerPageNo) (hhdr : h'.headerPage = h.headerPage)
    (hcur : h'.curPage = h.curPage) (hpage : h'.curPageNo = h.curPageNo) : Owns s R h' := by
  refine ⟨⟨hhdr ▸ ho.formed.headerPage, hcur ▸ ho.formed.curPage⟩, ?_⟩
  have hpins : h'.pins = h.pins := by
    unfold pins headerPin
    rw [hfile, hno, hhdr, hcur, hpage]
  rw [hpins]
  exact ho.pinned

/-- The object gives its data page back. -/
theorem Owns.unPin (ho : Owns s R h) (hne : h.curPage ≠ .null) (dirty : Bool) :
    ∃ s', Yields (BufMgr.unPinPage h.filePtr h.curPageNo dirty) s .OK false s' ∧
      Pinned s'.buf (h.headerPin + R) ∧
      ∀ file pageNo, s.buf.Sole file pageNo → s'.buf.Sole file pageNo := by
  obtain ⟨n, hcur⟩ := ho.formed.frame hne
  exact (ho.pinned_frame hcur).unPinPage dirty

/-- Following a pointer into the pool. -/
theorem runs_derefPage (page : PagePtr) (s : Sys) :
    Runs False (derefPage page) s fun _ _ s' => s' = s ∧ ∃ n, page = .frame n := by
  unfold derefPage
  split
  next n =>
    rw [runs_get_bind, runs_pure]
    exact ⟨rfl, n, rfl⟩
  next => exact Runs.failure id

/-- Assigning through one. -/
theorem runs_assignPage {P : Multiset Pin} (hP : Pinned s.buf P) (page : PagePtr) (blk : Block) :
    Runs False (assignPage page blk) s fun _ _ s' => Pinned s'.buf P := by
  unfold assignPage
  split
  next n =>
    refine Runs.of_yields (yields_modifyBuf _ s) ?_
    exact hP.of_eq rfl hP.clockHand_lt rfl rfl
  next => exact Runs.failure id

theorem runs_modifyHeader {P : Multiset Pin} (hP : Pinned s.buf P) (h : HeapFile)
    (g : FileHdrPage → FileHdrPage) :
    Runs False (h.modifyHeader g) s fun _ _ s' => Pinned s'.buf P := by
  unfold modifyHeader
  refine (runs_derefPage _ s).bind ?_
  rintro blk e s' ⟨rfl, -⟩
  exact runs_assignPage hP _ _

/-! ## `getRecord` -/

/-- The page of the record is read for an object without a pinned data page; `curPage` may still
point to an old one if the read does not fail. -/
theorem fetchRecord_owns (hf : ∃ n, h.headerPage = .frame n) (hP : Pinned s.buf (h.headerPin + R))
    (hsole : s.buf.Sole h.filePtr rid.pageNo)
    (hread : h.curPage = .null ∨ ¬ReadFails s h rid.pageNo) :
    Runs False (fetchRecord h rid) s fun r _ s' => Owns s' R r.2.2 ∧
      (h.curPage ≠ .null → r.2.2.curPage ≠ .null) := by
  unfold fetchRecord
  refine Runs.bind (P := fun r e s₁ => Yields (BufMgr.readPage h.filePtr rid.pageNo h.curPage)
    s r e s₁ ∧ _)
    ⟨fun r e s₁ hy => ⟨hy, (hP.readPage hsole h.curPage).1 r e s₁ hy⟩, fun hfalse => hfalse.elim⟩ ?_
  rintro ⟨status, page⟩ e s₁ ⟨hy, hcase⟩
  dsimp only at hcase ⊢
  split
  next hne =>
    -- without a data page before, there is none now
    obtain ⟨hok, -⟩ | ⟨-, rfl, hP₁⟩ := hcase
    · exact absurd hok hne
    have hnull : h.curPage = .null := hread.resolve_right fun hn => hn ⟨_, e, s₁, hy, hne⟩
    rw [runs_pure]
    exact ⟨owns_null hf hnull hP₁, fun hcur => absurd hnull hcur⟩
  next heq =>
    obtain ⟨-, -, n, rfl, hP₁⟩ | ⟨hne, -⟩ := hcase
    · refine (runs_derefPage _ s₁).bind ?_
      rintro blk e₂ s₂ ⟨rfl, -⟩
      refine Runs.ofOption_bind (fun hfalse => hfalse.elim) fun p _ => ?_
      rw [runs_pure]
      exact ⟨owns_frame hf rfl hP₁, fun _ => nofun⟩
    · exact absurd (by simpa using heq) hne

/-- `getRecord` leaves the object with its pins unless a move to another page fails. -/
theorem getRecord_owns (ho : Owns s R h) (hsole : s.buf.Sole h.filePtr rid.pageNo)
    (hsafe : ¬SwitchFails s h rid.pageNo) :
    Runs False (getRecord h rid) s fun r _ s' => Owns s' R r.2.2 ∧
      (h.curPage ≠ .null → r.2.2.curPage ≠ .null) := by
  unfold getRecord
  split
  next hnull =>
    have hP := ho.pinned
    rw [pins_null hnull] at hP
    exact fetchRecord_owns ho.formed.headerPage hP hsole (Or.inl hnull)
  next hcur =>
    split
    next =>
      refine (runs_derefPage _ s).bind ?_
      rintro blk e s₁ ⟨rfl, -⟩
      refine Runs.ofOption_bind (fun hfalse => hfalse.elim) fun p _ => ?_
      rw [runs_pure]
      exact ⟨ho.congr rfl rfl rfl rfl rfl, fun _ => hcur⟩
    next hpage =>
      obtain ⟨s₁, hy, hP₁, hkeep⟩ := ho.unPin hcur h.curDirtyFlag
      rw [runs_bind_of_yields hy, if_neg (by decide)]
      exact fetchRecord_owns ho.formed.headerPage hP₁ (hkeep _ _ hsole)
        (Or.inr fun hfails => hsafe ⟨hcur, hpage, false, s₁, hy, hfails⟩)

/-! ## The destructor -/

theorem deleteHeader_owns (hf : ∃ n, h.headerPage = .frame n)
    (hP : Pinned s.buf (h.headerPin + R)) :
    Runs False (deleteHeader h) s fun _ _ s' => Pinned s'.buf R := by
  obtain ⟨n, hn⟩ := hf
  have hheader : h.headerPin + R = ⟨h.filePtr, h.headerPageNo, n, false⟩ ::ₘ R := by
    unfold headerPin
    rw [hn]
    exact Multiset.singleton_add _ _
  rw [hheader] at hP
  obtain ⟨s₁, hy, hP₁, -⟩ := hP.unPinPage h.hdrDirtyFlag
  unfold deleteHeader
  rw [runs_bind_of_yields hy]
  refine (hP₁.closeFile h.filePtr).bind ?_
  intro _ _ s₂ hP₂
  exact runs_pure.mpr hP₂

/-- The destructor gives the pins of the object back, and no others. -/
theorem delete_owns (ho : Owns s R h) :
    Runs False (delete h) s fun _ _ s' => Pinned s'.buf R := by
  unfold delete
  split
  next hne =>
    obtain ⟨s₁, hy, hP₁, -⟩ := ho.unPin hne h.curDirtyFlag
    rw [runs_bind_of_yields hy]
    exact deleteHeader_owns ho.formed.headerPage hP₁
  next hnull =>
    have hP := ho.pinned
    rw [pins_null (by simpa using hnull)] at hP
    exact deleteHeader_owns ho.formed.headerPage hP

/-! ## The constructor -/

/-- The file can be opened for use: the pool has no forgotten page of it, and the first data page
can be read along with the header page. -/
structure Opens (s : Sys) (nm : FileName) : Prop where
  sole : ∀ f e s₁, Yields (DB.openFile nm) s (.OK, f) e s₁ → ∀ p, s.buf.Sole f p
  read : ∀ h e s₁, Yields (HeapFile.new nm) s (.OK, h) e s₁ → h.curPage ≠ .wild

theorem keepsBuf_openFile (nm : FileName) : KeepsBuf (DB.openFile nm) := by
  have hopen (file : FilePtr) : KeepsBuf (File.open file) := by
    unfold File.open
    refine (KeepsBuf.fileAt file).bind fun fo => KeepsBuf.ite ?_ ?_
    · refine KeepsBuf.get_bind fun s => KeepsBuf.unixCall.bind fun ok =>
        KeepsBuf.ite ?_ KeepsBuf.pure
      exact (KeepsBuf.setFile _ _).bind fun _ => KeepsBuf.pure
    · exact (KeepsBuf.setFile _ _).bind fun _ => KeepsBuf.pure
  unfold DB.openFile
  refine KeepsBuf.ite KeepsBuf.pure fun s => ?_
  rw [runs_get_bind]
  split
  next file _ => exact (hopen file).bind (fun _ => KeepsBuf.pure) s
  next =>
    unfold DB.newFile
    simp only [bind_assoc, pure_bind]
    rw [runs_get_bind, runs_set_bind]
    refine (hopen _ _).bind ?_
    rintro status e s₁ ⟨rfl, hbuf⟩
    split
    · rw [runs_setFile_bind, runs_pure]
      exact ⟨rfl, hbuf⟩
    · rw [runs_get_bind, runs_set_bind, runs_pure]
      exact ⟨rfl, hbuf⟩

theorem keepsBuf_getFirstPage (file : FilePtr) : KeepsBuf (File.getFirstPage file) :=
  (KeepsBuf.intread _ _ _).bind fun _ => KeepsBuf.pure

/-- What the constructor leaves pinned. Without the file the object has no header page; if its data
page could not be read, `curPage` is not set, and the page is not in the pool. -/
theorem new_cases {P : Multiset Pin} {nm : FileName} (hP : Pinned s.buf P)
    (hknown : ∀ f e s₁, Yields (DB.openFile nm) s (.OK, f) e s₁ → ∀ p, s.buf.Sole f p) :
    Runs False (HeapFile.new nm) s fun r _ s' => (r.1 ≠ .OK → r.2.headerPage = .wild) ∧
      (r.1 = .OK →
        Owns s' P r.2 ∧ r.2.curPage ≠ .null ∧ (∀ p, s'.buf.Sole r.2.filePtr p) ∨
        r.2.curPage = .wild ∧ (∃ n, r.2.headerPage = .frame n) ∧
          Pinned s'.buf (r.2.headerPin + P) ∧
          s'.buf.hashTable.lookup r.2.filePtr r.2.curPageNo = none) := by
  unfold HeapFile.new
  refine Runs.bind (P := fun r e s₁ => s₁.buf = s.buf ∧ Yields (DB.openFile nm) s r e s₁)
    ⟨fun r e s₁ hy => ⟨((keepsBuf_openFile nm s).1 r e s₁ hy).2, hy⟩, fun hfalse => hfalse.elim⟩ ?_
  rintro ⟨status, f⟩ e s₁ ⟨hbuf₁, hy⟩
  dsimp only
  split
  next hne => exact runs_pure.mpr ⟨fun _ => rfl, fun hok => absurd hok hne⟩
  next heq =>
    have heq : status = .OK := by simpa using heq
    subst heq
    have hsole := hknown f e s₁ hy
    refine (keepsBuf_getFirstPage f s₁).bind ?_
    rintro ⟨status, hdrNo⟩ e₂ s₂ ⟨-, hbuf₂⟩
    dsimp only
    split
    next => exact Runs.failure id
    rw [← hbuf₁, ← hbuf₂] at hP hsole
    refine (hP.readPage (hsole hdrNo) _).bind ?_
    rintro ⟨status, hdrPage⟩ e₃ s₃ hread
    refine (runs_derefPage _ s₃).bind ?_
    rintro blk e₄ s₄ ⟨rfl, n, hn⟩
    dsimp only at hn hread ⊢
    subst hn
    -- the header page could be followed, so that it has been read
    obtain ⟨-, hkeep₃, m, hm, hP₃⟩ | ⟨-, hwild, -⟩ := hread
    swap
    · cases hwild
    cases hm
    refine ((hP₃.readPage (hkeep₃ _ _ (hsole _)) _).and (runs_readPage_missing _ _ _ _)).bind ?_
    rintro ⟨status, page⟩ e₅ s₅ ⟨hread, hmiss⟩
    dsimp only at hread hmiss ⊢
    rw [runs_pure]
    refine ⟨fun hne => absurd rfl hne, fun _ => ?_⟩
    obtain ⟨-, hkeep₅, m, rfl, hP₅⟩ | ⟨hne, rfl, hP₅⟩ := hread
    · exact Or.inl ⟨owns_frame ⟨n, rfl⟩ rfl hP₅, nofun,
        fun p => hkeep₅ _ _ (hkeep₃ _ _ (hsole p))⟩
    · refine Or.inr ⟨rfl, ⟨n, rfl⟩, ?_, hmiss hne⟩
      exact Multiset.singleton_add (⟨f, hdrNo, n, false⟩ : Pin) P ▸ hP₅

/-- A new object has its two pins if its data page could be read; without the file it has no header
page. -/
theorem new_owns_of_read {P : Multiset Pin} {nm : FileName} (hP : Pinned s.buf P)
    (hknown : ∀ f e s₁, Yields (DB.openFile nm) s (.OK, f) e s₁ → ∀ p, s.buf.Sole f p) :
    Runs False (HeapFile.new nm) s fun r _ s' => (r.1 ≠ .OK → r.2.headerPage = .wild) ∧
      (r.1 = .OK → r.2.curPage ≠ .wild →
        Owns s' P r.2 ∧ r.2.curPage ≠ .null ∧ ∀ p, s'.buf.Sole r.2.filePtr p) := by
  refine (new_cases hP hknown).mono ?_
  rintro r e s' ⟨hbad, hok⟩
  exact ⟨hbad, fun hst hwild => (hok hst).resolve_right fun h => hwild h.1⟩

theorem new_owns {P : Multiset Pin} {nm : FileName} (hP : Pinned s.buf P) (hopens : Opens s nm) :
    Runs False (HeapFile.new nm) s fun r _ s' => (r.1 ≠ .OK → r.2.headerPage = .wild) ∧
      (r.1 = .OK → Owns s' P r.2 ∧ r.2.curPage ≠ .null ∧ ∀ p, s'.buf.Sole r.2.filePtr p) := by
  have hnew := new_owns_of_read hP hopens.sole
  refine ⟨fun r e s' hy => ⟨(hnew.1 r e s' hy).1, fun hok => (hnew.1 r e s' hy).2 hok ?_⟩,
    fun hfalse => hfalse.elim⟩
  exact hopens.read r.2 e s' (by rwa [← hok])

/-! ## A move that fails -/

/-- After a move to another page that fails the object speaks of a pin that it has given back. -/
theorem getRecord_spoils (ho : Owns s R h) (hsole : s.buf.Sole h.filePtr rid.pageNo)
    (hfails : SwitchFails s h rid.pageNo) :
    Runs False (getRecord h rid) s fun r _ s' => ¬Owns s' R r.2.2 := by
  obtain ⟨hcur, hpage, e₁, s₁, hy, r, e₂, s₂, hread, hbad⟩ := hfails
  obtain ⟨n, hn⟩ := ho.formed.frame hcur
  obtain ⟨s₁', hy', hP₁, hkeep⟩ := ho.unPin hcur h.curDirtyFlag
  obtain ⟨-, rfl, rfl⟩ := hy.unique hy'
  unfold getRecord fetchRecord
  rw [if_neg hcur, if_neg hpage, runs_bind_of_yields hy, if_neg (by decide)]
  obtain ⟨hok, -⟩ | ⟨-, hr, hP₂⟩ := (hP₁.readPage (hkeep _ _ hsole) h.curPage).1 r e₂ s₂ hread
  · exact absurd hok hbad
  refine (Runs.of_yields (Q := fun r' _ s' => r' = r ∧ s' = s₂) hread ⟨rfl, rfl⟩).bind ?_
  rintro ⟨status, page⟩ e₃ s₃ ⟨rfl, rfl⟩
  dsimp only at hr hbad ⊢
  rw [if_pos hbad, runs_pure, hr]
  exact fun ho' => hP₂.not_cons (ho'.pinned_frame hn)

end Objects

end HeapFile

open HeapFile

/-! ## Scans -/

namespace HeapFileScan

variable {s : Sys} {R : Multiset Pin} {q : HeapFileScan}

theorem endScan_owns (ho : Owns s R q.toHeapFile) :
    Runs False (endScan q) s fun r _ s' => Owns s' R r.2.toHeapFile ∧ r.2.filePtr = q.filePtr ∧
      ∀ file pageNo, s.buf.Sole file pageNo → s'.buf.Sole file pageNo := by
  unfold endScan
  split
  next hne =>
    obtain ⟨s₁, hy, hP₁, hkeep⟩ := ho.unPin hne q.curDirtyFlag
    rw [runs_bind_of_yields hy, runs_pure]
    exact ⟨owns_null ho.formed.headerPage rfl hP₁, rfl, hkeep⟩
  next => exact runs_pure.mpr ⟨ho, rfl, fun _ _ => id⟩

/-- A scan with its pins can be ended. -/
theorem exists_endScan (ho : Owns s R q.toHeapFile) :
    ∃ q' s', Yields (endScan q) s (.OK, q') false s' := by
  unfold endScan
  split
  next hne =>
    obtain ⟨s₁, hy, -⟩ := ho.unPin hne q.curDirtyFlag
    exact ⟨_, s₁, hy.bind (d := false) (Yields.pure _ _)⟩
  next => exact ⟨q, s, Yields.pure _ _⟩

theorem delete_owns (ho : Owns s R q.toHeapFile) :
    Runs False (HeapFileScan.delete q) s fun _ _ s' => Pinned s'.buf R := by
  unfold HeapFileScan.delete
  refine (endScan_owns ho).bind ?_
  rintro r e s₁ ⟨ho₁, -⟩
  exact HeapFile.delete_owns ho₁

/-- The marked page is read for a scan without a pinned data page; `curPage` may still point to an
old one if the read does not fail. -/
theorem resetPage_owns (hf : ∃ n, q.headerPage = .frame n)
    (hP : Pinned s.buf (q.headerPin + R)) (hsole : s.buf.Sole q.filePtr q.markedPageNo)
    (hread : q.curPage = .null ∨ ¬ReadFails s q.toHeapFile q.markedPageNo) :
    Runs False (resetPage q) s fun r _ s' => Owns s' R r.2.toHeapFile := by
  unfold resetPage
  dsimp only
  refine Runs.bind (P := fun r e s₁ => Yields (BufMgr.readPage q.filePtr q.markedPageNo q.curPage)
    s r e s₁ ∧ _)
    ⟨fun r e s₁ hy => ⟨hy, (hP.readPage hsole q.curPage).1 r e s₁ hy⟩, fun hfalse => hfalse.elim⟩ ?_
  rintro ⟨status, page⟩ e s₁ ⟨hy, hcase⟩
  dsimp only at hcase ⊢
  split
  next hne =>
    obtain ⟨hok, -⟩ | ⟨-, rfl, hP₁⟩ := hcase
    · exact absurd hok hne
    have hnull : q.curPage = .null := hread.resolve_right fun hn => hn ⟨_, e, s₁, hy, hne⟩
    rw [runs_pure]
    exact owns_null hf hnull hP₁
  next heq =>
    obtain ⟨-, -, n, rfl, hP₁⟩ | ⟨hne, -⟩ := hcase
    · rw [runs_pure]
      exact owns_frame hf rfl hP₁
    · exact absurd (by simpa using heq) hne

/-- `resetScan` leaves the scan with its pins unless the move to the marked page fails. -/
theorem resetScan_owns (ho : Owns s R q.toHeapFile)
    (hsole : q.markedPageNo ≠ q.curPageNo → s.buf.Sole q.filePtr q.markedPageNo)
    (hsafe : ¬SwitchFails s q.toHeapFile q.markedPageNo) :
    Runs False (resetScan q) s fun r _ s' => Owns s' R r.2.toHeapFile := by
  unfold resetScan
  split
  next hpage =>
    split
    next hcur =>
      obtain ⟨s₁, hy, hP₁, hkeep⟩ := ho.unPin hcur q.curDirtyFlag
      rw [runs_bind_of_yields hy, if_neg (by decide)]
      exact resetPage_owns ho.formed.headerPage hP₁ (hkeep _ _ (hsole hpage))
        (Or.inr fun hfails => hsafe ⟨hcur, hpage, false, s₁, hy, hfails⟩)
    next hnull =>
      have hnull : q.curPage = .null := by simpa using hnull
      have hP := ho.pinned
      rw [pins_null hnull] at hP
      exact resetPage_owns ho.formed.headerPage hP (hsole hpage) (Or.inl hnull)
  next =>
    rw [runs_pure]
    exact ho.congr rfl rfl rfl rfl rfl

/-- After a move to the marked page that fails the scan speaks of a pin that it has given back. -/
theorem resetScan_spoils (ho : Owns s R q.toHeapFile)
    (hsole : q.markedPageNo ≠ q.curPageNo → s.buf.Sole q.filePtr q.markedPageNo)
    (hfails : SwitchFails s q.toHeapFile q.markedPageNo) :
    Runs False (resetScan q) s fun r _ s' => ¬Owns s' R r.2.toHeapFile := by
  obtain ⟨hcur, hpage, e₁, s₁, hy, r, e₂, s₂, hread, hbad⟩ := hfails
  obtain ⟨n, hn⟩ := ho.formed.frame hcur
  obtain ⟨s₁', hy', hP₁, hkeep⟩ := ho.unPin hcur q.curDirtyFlag
  obtain ⟨-, rfl, rfl⟩ := hy.unique hy'
  unfold resetScan resetPage
  rw [if_pos hpage, if_pos hcur, runs_bind_of_yields hy, if_neg (by decide)]
  obtain ⟨hok, -⟩ | ⟨-, hr, hP₂⟩ :=
    (hP₁.readPage (hkeep _ _ (hsole hpage)) q.curPage).1 r e₂ s₂ hread
  · exact absurd hok hbad
  dsimp only
  refine (Runs.of_yields (Q := fun r' _ s' => r' = r ∧ s' = s₂) hread ⟨rfl, rfl⟩).bind ?_
  rintro ⟨status, page⟩ e₃ s₃ ⟨rfl, rfl⟩
  dsimp only at hr hbad ⊢
  rw [if_pos hbad, runs_pure, hr]
  exact fun ho' => hP₂.not_cons (ho'.pinned_frame hn)

/-- Moving on from page to page. A page that cannot be read leaves the scan without one. -/
theorem seekPage_owns (fuel : Nat) (ho : Owns s R q.toHeapFile)
    (hsole : ∀ p, s.buf.Sole q.filePtr p) :
    Runs False (seekPage fuel q) s fun r _ s' => Owns s' R r.2.toHeapFile ∧
      (r.1 = .OK → ∀ p, s'.buf.Sole r.2.filePtr p) := by
  induction fuel generalizing s q with
  | zero => exact Runs.failure id
  | succ fuel ih =>
    unfold seekPage
    refine (runs_derefPage _ s).bind ?_
    rintro blk e s₁ ⟨rfl, n, hcur⟩
    dsimp only
    split
    next => exact runs_pure.mpr ⟨ho, fun hst => Status.noConfusion hst⟩
    next =>
      obtain ⟨s₂, hy, hP₂, hkeep₂⟩ :=
        ho.unPin (by rw [hcur]; exact PagePtr.noConfusion) q.curDirtyFlag
      rw [runs_bind_of_yields hy, if_neg (by decide)]
      refine (hP₂.readPage (hkeep₂ _ _ (hsole _)) _).bind ?_
      rintro ⟨status, page⟩ e₃ s₃ hread
      dsimp only at hread ⊢
      split
      next hne =>
        obtain ⟨hok, -⟩ | ⟨-, rfl, hP₃⟩ := hread
        · exact absurd hok hne
        rw [runs_pure]
        exact ⟨owns_null ho.formed.headerPage rfl hP₃, fun hok => absurd hok hne⟩
      next heq =>
        obtain ⟨-, hkeep₃, m, rfl, hP₃⟩ | ⟨hne, -⟩ := hread
        swap
        · exact absurd (by simpa using heq) hne
        have hsole₃ := fun p => hkeep₃ _ _ (hkeep₂ _ _ (hsole p))
        refine (runs_derefPage _ s₃).bind ?_
        rintro blk e₄ s₄ ⟨rfl, -⟩
        refine Runs.ofOption_bind (fun hfalse => hfalse.elim) fun p _ => ?_
        split
        next =>
          rw [runs_pure]
          exact ⟨owns_frame ho.formed.headerPage rfl hP₃, fun _ => hsole₃⟩
        next => exact ih (owns_frame ho.formed.headerPage rfl hP₃) hsole₃

theorem advance_owns (fuel : Nat) (ho : Owns s R q.toHeapFile)
    (hsole : ∀ p, s.buf.Sole q.filePtr p) :
    Runs False (advance fuel q) s fun r _ s' => Owns s' R r.2.toHeapFile ∧
      (r.1 = .OK → ∀ p, s'.buf.Sole r.2.filePtr p) := by
  unfold advance
  refine (runs_derefPage _ s).bind ?_
  rintro blk e s₁ ⟨rfl, -⟩
  refine Runs.ofOption_bind (fun hfalse => hfalse.elim) ?_
  rintro ⟨status, rid⟩ -
  dsimp only
  split
  next =>
    rw [runs_pure]
    exact ⟨ho.congr rfl rfl rfl rfl rfl, fun _ => hsole⟩
  next => exact seekPage_owns fuel ho hsole

theorem scanLoop_owns (fuel : Nat) (ho : Owns s R q.toHeapFile)
    (hsole : ∀ p, s.buf.Sole q.filePtr p) :
    Runs False (scanLoop fuel q) s fun r _ s' => Owns s' R r.2.2.toHeapFile ∧
      (r.1 = .OK → ∀ p, s'.buf.Sole r.2.2.filePtr p) := by
  induction fuel generalizing s q with
  | zero => exact Runs.failure id
  | succ fuel ih =>
    unfold scanLoop
    refine (advance_owns fuel ho hsole).bind ?_
    rintro ⟨status, q₁⟩ e s₁ ⟨ho₁, hsole₁⟩
    dsimp only at ho₁ hsole₁ ⊢
    split
    next hne => exact runs_pure.mpr ⟨ho₁, fun hst => absurd hst hne⟩
    next heq =>
      have hsole₂ := hsole₁ (by simpa using heq)
      refine (runs_derefPage _ s₁).bind ?_
      rintro blk e₂ s₂ ⟨rfl, -⟩
      refine Runs.ofOption_bind (fun hfalse => hfalse.elim) fun p _ => ?_
      split
      next hne => exact runs_pure.mpr ⟨ho₁, fun hst => absurd hst hne⟩
      next =>
        refine (matchRec_reads q₁ _ _ s₂).bind ?_
        rintro found e₃ s₃ ⟨-, rfl⟩
        split
        next => exact runs_pure.mpr ⟨ho₁, fun _ => hsole₂⟩
        next => exact ih ho₁ hsole₂

/-- A scan without a data page starts over; a page that cannot be read leaves it without one. -/
theorem scanFirst_owns (fuel : Nat) (ho : Owns s R q.toHeapFile) (hnull : q.curPage = .null)
    (hsole : ∀ p, s.buf.Sole q.filePtr p) :
    Runs False (scanFirst fuel q) s fun r _ s' => Owns s' R r.2.2.toHeapFile ∧
      (r.1 = .OK → ∀ p, s'.buf.Sole r.2.2.filePtr p) := by
  have hP := ho.pinned
  rw [pins_null hnull] at hP
  unfold scanFirst
  refine (runs_derefPage _ s).bind ?_
  rintro blk e s₁ ⟨rfl, -⟩
  dsimp only
  split
  next =>
    rw [runs_pure]
    exact ⟨owns_null ho.formed.headerPage hnull hP, fun hst => Status.noConfusion hst⟩
  next =>
    refine (hP.readPage (hsole _) _).bind ?_
    rintro ⟨status, page⟩ e₂ s₂ hread
    dsimp only at hread ⊢
    split
    next hne =>
      obtain ⟨hok, -⟩ | ⟨-, rfl, hP₂⟩ := hread
      · exact absurd hok hne
      rw [runs_pure]
      exact ⟨owns_null ho.formed.headerPage hnull hP₂, fun hst => absurd hst hne⟩
    next heq =>
      obtain ⟨-, hkeep₂, n, rfl, hP₂⟩ | ⟨hne, -⟩ := hread
      swap
      · exact absurd (by simpa using heq) hne
      refine (runs_derefPage _ s₂).bind ?_
      rintro blk₂ e₃ s₃ ⟨rfl, -⟩
      refine Runs.ofOption_bind (fun hfalse => hfalse.elim) fun p _ => ?_
      have ho₃ : Owns s₃ R { q.toHeapFile with
          curPage := .frame n, curPageNo := blk.asFileHdr.firstPage, curDirtyFlag := false
          curRec := NULLRID } := owns_frame ho.formed.headerPage rfl hP₂
      split
      next =>
        -- the first page is empty and is given back
        obtain ⟨s₄, hy, hP₄, -⟩ := ho₃.unPin nofun false
        rw [runs_bind_of_yields hy, if_neg (by decide), runs_pure]
        exact ⟨owns_null ho.formed.headerPage rfl hP₄, fun hst => Status.noConfusion hst⟩
      next =>
        have hsole₃ := fun p => hkeep₂ _ _ (hsole p)
        refine Runs.ofOption_bind (fun hfalse => hfalse.elim) fun r _ => ?_
        split
        next hne =>
          rw [runs_pure]
          exact ⟨ho₃.congr rfl rfl rfl rfl rfl, fun hst => absurd hst hne⟩
        next =>
          refine (matchRec_reads _ _ _ s₃).bind ?_
          rintro found e₅ s₅ ⟨-, rfl⟩
          split
          next =>
            rw [runs_pure]
            exact ⟨ho₃.congr rfl rfl rfl rfl rfl, fun _ => hsole₃⟩
          next => exact scanLoop_owns fuel (ho₃.congr rfl rfl rfl rfl rfl) hsole₃

/-- `scanNext` leaves the scan with its pins, whatever it returns. -/
theorem scanNext_owns (fuel : Nat) (ho : Owns s R q.toHeapFile)
    (hsole : ∀ p, s.buf.Sole q.filePtr p) :
    Runs False (scanNext fuel q) s fun r _ s' => Owns s' R r.2.2.toHeapFile ∧
      (r.1 = .OK → ∀ p, s'.buf.Sole r.2.2.filePtr p) := by
  unfold scanNext
  split
  next => exact runs_pure.mpr ⟨ho, fun hst => Status.noConfusion hst⟩
  next =>
    split
    next hnull => exact scanFirst_owns fuel ho hnull hsole
    next => exact scanLoop_owns fuel ho hsole

theorem deleteRecord_owns (ho : Owns s R q.toHeapFile) :
    Runs False (deleteRecord q) s fun r _ s' => Owns s' R r.2.toHeapFile := by
  unfold deleteRecord
  refine (runs_derefPage _ s).bind ?_
  rintro blk e s₁ ⟨rfl, -⟩
  refine Runs.ofOption_bind (fun hfalse => hfalse.elim) fun p _ => ?_
  refine (runs_assignPage ho.pinned _ _).bind ?_
  intro _ e₂ s₂ hP₂
  refine (runs_modifyHeader hP₂ _ _).bind ?_
  intro _ e₃ s₃ hP₃
  rw [runs_pure]
  exact (⟨ho.formed, hP₃⟩ : Owns s₃ R q.toHeapFile).congr rfl rfl rfl rfl rfl

end HeapFileScan

/-! ## Insertion -/

namespace InsertFileScan

variable {s : Sys} {R : Multiset Pin} {h : InsertFileScan} {rec : Record}

theorem new_owns {P : Multiset Pin} {nm : FileName} (hP : Pinned s.buf P) (hopens : Opens s nm) :
    Runs False (InsertFileScan.new nm) s fun r _ s' => r.1 = .OK → Owns s' P r.2 ∧
      r.2.curPage ≠ .null := by
  unfold InsertFileScan.new
  refine (HeapFile.new_owns hP hopens).bind ?_
  rintro ⟨status, h⟩ e s₁ ⟨hbad, hok⟩
  refine (runs_derefPage _ s₁).bind ?_
  rintro blk e₂ s₂ ⟨rfl, n, hn⟩
  dsimp only at hbad hok hn ⊢
  -- the header page could be followed, so that the file is open
  have hst : status = .OK := by
    by_contra hne
    rw [hbad hne] at hn
    cases hn
  obtain ⟨ho, hne, hsole⟩ := hok hst
  split
  next =>
    obtain ⟨s₃, hy, hP₃, hkeep⟩ := ho.unPin hne h.curDirtyFlag
    rw [runs_bind_of_yields hy]
    refine (hP₃.readPage (hkeep _ _ (hsole _)) _).bind ?_
    rintro ⟨status₂, page⟩ e₄ s₄ hread
    dsimp only at hread ⊢
    rw [runs_pure]
    intro hst₂
    obtain ⟨-, -, m, rfl, hP₄⟩ | ⟨hbad₂, -⟩ := hread
    · exact ⟨owns_frame ho.formed.headerPage rfl hP₄, nofun⟩
    · exact absurd hst₂ hbad₂
  next => exact runs_pure.mpr fun _ => ⟨ho, hne⟩

/-- The object gives its pins back. -/
theorem delete_owns (ho : Owns s R h) :
    Runs False (InsertFileScan.delete h) s fun _ _ s' => Pinned s'.buf R := by
  unfold InsertFileScan.delete
  split
  next hne =>
    obtain ⟨s₁, hy, hP₁, -⟩ := ho.unPin hne true
    rw [runs_bind_of_yields hy]
    exact HeapFile.delete_owns (owns_null ho.formed.headerPage rfl hP₁)
  next => exact HeapFile.delete_owns ho

/-- A page that cannot be allocated leaves the object with the data page it has. -/
theorem insertOverflow_owns (ho : Owns s R h) (hne : h.curPage ≠ .null)
    (hclash : ¬AllocClash s h.filePtr) :
    Runs False (insertOverflow h rec) s fun r _ s' => Owns s' R r.2.2 ∧ r.2.2.curPage ≠ .null := by
  unfold insertOverflow
  refine (ho.pinned.allocPage hclash _).bind ?_
  rintro ⟨status, newPageNo, page⟩ e s₁ hcase
  dsimp only at hcase ⊢
  split
  next hbad =>
    obtain ⟨hok, -⟩ | ⟨-, hP₁⟩ := hcase
    · exact absurd hok hbad
    rw [runs_pure]
    exact ⟨⟨ho.formed, hP₁⟩, hne⟩
  next heq =>
    obtain ⟨-, n, rfl, hP₁⟩ | ⟨hbad, -⟩ := hcase
    swap
    · exact absurd (by simpa using heq) hbad
    refine (runs_derefPage _ s₁).bind ?_
    rintro blk e₂ s₂ ⟨rfl, -⟩
    refine (runs_assignPage hP₁ _ _).bind ?_
    intro _ e₃ s₃ hP₃
    refine (runs_modifyHeader hP₃ _ _).bind ?_
    intro _ e₄ s₄ hP₄
    refine (runs_derefPage _ s₄).bind ?_
    rintro blk₂ e₅ s₅ ⟨rfl, -⟩
    refine (runs_assignPage hP₄ _ _).bind ?_
    intro _ e₆ s₆ hP₆
    -- the old data page is given back, and the new one takes its place
    have ho₆ : Owns s₆ (⟨h.filePtr, newPageNo, n, false⟩ ::ₘ R) h :=
      ⟨ho.formed, by rwa [Multiset.add_cons]⟩
    obtain ⟨s₇, hy, hP₇, -⟩ := ho₆.unPin hne true
    rw [runs_bind_of_yields hy, if_neg (by decide)]
    rw [Multiset.add_cons] at hP₇
    refine (runs_derefPage _ s₇).bind ?_
    rintro blk₃ e₈ s₈ ⟨rfl, -⟩
    refine Runs.ofOption_bind (fun hfalse => hfalse.elim) ?_
    rintro ⟨status, rid, p⟩ -
    dsimp only
    split
    next =>
      refine (runs_assignPage hP₇ _ _).bind ?_
      intro _ e₉ s₉ hP₉
      refine (runs_modifyHeader hP₉ _ _).bind ?_
      intro _ e' s' hP'
      rw [runs_pure]
      exact ⟨owns_frame ho.formed.headerPage rfl hP', nofun⟩
    next =>
      rw [runs_pure]
      exact ⟨owns_frame ho.formed.headerPage rfl hP₇, nofun⟩

/-- `insertRecord` leaves the object with its pins, whatever it returns. -/
theorem insertRecord_owns (ho : Owns s R h) (hne : h.curPage ≠ .null)
    (hclash : ¬AllocClash s h.filePtr) :
    Runs False (insertRecord h rec) s fun r _ s' => Owns s' R r.2.2 ∧ r.2.2.curPage ≠ .null := by
  unfold insertRecord
  split
  next => exact runs_pure.mpr ⟨ho, hne⟩
  next =>
    unfold insertCurrent
    refine (runs_derefPage _ s).bind ?_
    rintro blk e s₁ ⟨rfl, -⟩
    refine Runs.ofOption_bind (fun hfalse => hfalse.elim) ?_
    rintro ⟨status, rid, p⟩ -
    dsimp only
    split
    next =>
      refine (runs_assignPage ho.pinned _ _).bind ?_
      intro _ e₂ s₂ hP₂
      refine (runs_modifyHeader hP₂ _ _).bind ?_
      intro _ e₃ s₃ hP₃
      rw [runs_pure]
      exact ⟨(⟨ho.formed, hP₃⟩ : Owns s₃ R h).congr rfl rfl rfl rfl rfl, hne⟩
    next => exact insertOverflow_owns ho hne hclash

end InsertFileScan

/-! ## Runs -/

/-- An object on a heap file. -/
inductive Object
  | file (h : HeapFile)
  | scan (q : HeapFileScan)
  | insert (h : InsertFileScan)

namespace Object

/-- The part that all objects have. -/
def base : Object → HeapFile
  | file h => h
  | scan q => q.toHeapFile
  | insert h => h

/-- The object with its base part changed. -/
def setBase : Object → HeapFile → Object
  | file _, h => file h
  | scan q, h => scan { q with toHeapFile := h }
  | insert _, h => insert h

@[simp]
theorem base_setBase (o : Object) (h : HeapFile) : (o.setBase h).base = h := by
  cases o <;> rfl

/-- The destructor. -/
def delete : Object → M Unit
  | file h => HeapFile.delete h
  | scan q => HeapFileScan.delete q
  | insert h => InsertFileScan.delete h

/-- An `InsertFileScan` always has a data page. -/
def HasPage : Object → Prop
  | insert h => h.curPage ≠ .null
  | _ => True

theorem HasPage.setBase {o : Object} {h : HeapFile} (ho : o.HasPage)
    (hne : o.base.curPage ≠ .null → h.curPage ≠ .null) : (o.setBase h).HasPage := by
  cases o with
  | file => trivial
  | scan => trivial
  | insert h₀ => exact hne ho

end Object

/-- A program with the objects that it has constructed and not destroyed. -/
structure Holders where
  sys : Sys
  objs : Multiset Object

/-- The calls of a program. -/
inductive ObjectCall
  | newFile (nm : FileName)
  | newScan (nm : FileName)
  | newInsert (nm : FileName)
  | getRecord (o : Object) (rid : RID)
  | startScan (q : HeapFileScan)
  | scanNext (q : HeapFileScan)
  | markScan (q : HeapFileScan)
  | resetScan (q : HeapFileScan)
  | endScan (q : HeapFileScan)
  | deleteRecord (q : HeapFileScan)
  | insertRecord (h : InsertFileScan)
  | delete (o : Object)

namespace Holders

/-- One call. It may fail, but for a constructor; an object whose constructor fails is not used. The
mark of a new scan has not been set, and may be anything. -/
inductive Step : Holders → ObjectCall → Holders → Prop
  | newFile {s s' os nm h e} (hy : Yields (HeapFile.new nm) s (.OK, h) e s') :
      Step ⟨s, os⟩ (.newFile nm) ⟨s', .file h ::ₘ os⟩
  | newScan {s s' os nm q e} (hy : Yields (HeapFileScan.new nm) s (.OK, q) e s')
      (markedPageNo : Int) (markedRec : RID) :
      Step ⟨s, os⟩ (.newScan nm) ⟨s', .scan { q with markedPageNo, markedRec } ::ₘ os⟩
  | newInsert {s s' os nm h e} (hy : Yields (InsertFileScan.new nm) s (.OK, h) e s') :
      Step ⟨s, os⟩ (.newInsert nm) ⟨s', .insert h ::ₘ os⟩
  | getRecord {s s' os o rid st rec h e}
      (hy : Yields (HeapFile.getRecord o.base rid) s (st, rec, h) e s') :
      Step ⟨s, o ::ₘ os⟩ (.getRecord o rid) ⟨s', o.setBase h ::ₘ os⟩
  | startScan {s os q offset length type filter op} :
      Step ⟨s, .scan q ::ₘ os⟩ (.startScan q)
        ⟨s, .scan (HeapFileScan.startScan q offset length type filter op).2 ::ₘ os⟩
  | scanNext {s s' os q q' fuel st rid e}
      (hy : Yields (HeapFileScan.scanNext fuel q) s (st, rid, q') e s') :
      Step ⟨s, .scan q ::ₘ os⟩ (.scanNext q) ⟨s', .scan q' ::ₘ os⟩
  | markScan {s os q} :
      Step ⟨s, .scan q ::ₘ os⟩ (.markScan q) ⟨s, .scan q.markScan ::ₘ os⟩
  | resetScan {s s' os q q' st e} (hy : Yields (HeapFileScan.resetScan q) s (st, q') e s') :
      Step ⟨s, .scan q ::ₘ os⟩ (.resetScan q) ⟨s', .scan q' ::ₘ os⟩
  | endScan {s s' os q q' st e} (hy : Yields (HeapFileScan.endScan q) s (st, q') e s') :
      Step ⟨s, .scan q ::ₘ os⟩ (.endScan q) ⟨s', .scan q' ::ₘ os⟩
  | deleteRecord {s s' os q q' st e} (hy : Yields (HeapFileScan.deleteRecord q) s (st, q') e s') :
      Step ⟨s, .scan q ::ₘ os⟩ (.deleteRecord q) ⟨s', .scan q' ::ₘ os⟩
  | insertRecord {s s' os h h' rec st rid e}
      (hy : Yields (InsertFileScan.insertRecord h rec) s (st, rid, h') e s') :
      Step ⟨s, .insert h ::ₘ os⟩ (.insertRecord h) ⟨s', .insert h' ::ₘ os⟩
  | delete {s s' os o e} (hy : Yields (Object.delete o) s () e s') :
      Step ⟨s, o ::ₘ os⟩ (.delete o) ⟨s', os⟩

/-- The runs from `w₀` in which every call obeys `G`. -/
inductive Run (G : Holders → ObjectCall → Prop) (w₀ : Holders) : List ObjectCall → Holders → Prop
  | start : Run G w₀ [] w₀
  | step {cs w c w'} (hrun : Run G w₀ cs w) (hG : G w c) (hstep : Step w c w') :
      Run G w₀ (cs ++ [c]) w'

/-- The call gives a data page back to move to another one, which cannot be read. -/
def Switches (w : Holders) : ObjectCall → Prop
  | .getRecord o rid => SwitchFails w.sys o.base rid.pageNo
  | .resetScan q => SwitchFails w.sys q.toHeapFile q.markedPageNo
  | _ => False

/-- The pool has no forgotten copy of a page that the call reads or allocates. -/
def Known (w : Holders) : ObjectCall → Prop
  | .newFile nm | .newScan nm | .newInsert nm => Opens w.sys nm
  | .getRecord o rid => w.sys.buf.Sole o.base.filePtr rid.pageNo
  | .scanNext q => ∀ p, w.sys.buf.Sole q.filePtr p
  | .resetScan q => q.markedPageNo ≠ q.curPageNo → w.sys.buf.Sole q.filePtr q.markedPageNo
  | .insertRecord h => ¬AllocClash w.sys h.filePtr
  | _ => True

/-- The pins that the objects speak of. -/
def pins (os : Multiset Object) : Multiset Pin := (os.map fun o => o.base.pins).sum

/-- The pointers of every object are `NULL` or into the pool, and the pins in the pool are those
that the objects speak of and the ones of `R`, which belong to others. -/
structure Intact (R : Multiset Pin) (w : Holders) : Prop where
  formed : ∀ o ∈ w.objs, o.base.Formed ∧ o.HasPage
  pinned : Pinned w.sys.buf (pins w.objs + R)

variable {R : Multiset Pin} {w w' w₀ : Holders} {c : ObjectCall} {cs : List ObjectCall} {s s' : Sys}
  {os : Multiset Object} {o : Object}

theorem pins_cons (o : Object) (os : Multiset Object) :
    pins (o ::ₘ os) = o.base.pins + pins os := by
  unfold pins
  rw [Multiset.map_cons, Multiset.sum_cons]

/-- One object among the others. -/
theorem Intact.owns (h : Intact R ⟨s, o ::ₘ os⟩) : Owns s (pins os + R) o.base := by
  refine ⟨(h.formed o (Multiset.mem_cons_self o os)).1, ?_⟩
  have hP := h.pinned
  dsimp only at hP
  rwa [pins_cons, add_assoc] at hP

theorem Intact.cons (hos : ∀ o ∈ os, o.base.Formed ∧ o.HasPage) (ho : Owns s (pins os + R) o.base)
    (hpage : o.HasPage) : Intact R ⟨s, o ::ₘ os⟩ := by
  refine ⟨fun o' ho' => ?_, ?_⟩
  · rcases Multiset.mem_cons.mp ho' with rfl | ho'
    · exact ⟨ho.formed, hpage⟩
    · exact hos o' ho'
  · dsimp only
    rw [pins_cons, add_assoc]
    exact ho.pinned

/-- The object that made the call has changed, and the others have their pins still. -/
theorem Intact.replace {o' : Object} (h : Intact R ⟨s, o ::ₘ os⟩)
    (ho : Owns s' (pins os + R) o'.base) (hpage : o'.HasPage) : Intact R ⟨s', o' ::ₘ os⟩ :=
  Intact.cons (fun x hx => h.formed x (Multiset.mem_cons_of_mem hx)) ho hpage

/-- A call leaves every object with its pins, unless it moves to a page that cannot be read. -/
theorem Intact.step (h : Intact R w) (hknown : Known w c) (hsafe : ¬Switches w c)
    (hstep : Step w c w') : Intact R w' := by
  cases hstep with
  | newFile hy =>
    obtain ⟨ho, -, -⟩ := ((HeapFile.new_owns h.pinned hknown).1 _ _ _ hy).2 rfl
    exact Intact.cons h.formed ho trivial
  | newScan hy markedPageNo markedRec =>
    obtain ⟨⟨status, h₁⟩, e₁, s₁, e₂, hy₁, hy₂, -⟩ := hy.of_bind
    obtain ⟨heq, rfl, -⟩ := yields_pure.mp hy₂
    cases heq
    obtain ⟨ho, -, -⟩ := ((HeapFile.new_owns h.pinned hknown).1 _ _ _ hy₁).2 rfl
    exact Intact.cons h.formed ho trivial
  | newInsert hy =>
    obtain ⟨ho, hne⟩ := (InsertFileScan.new_owns h.pinned hknown).1 _ _ _ hy rfl
    exact Intact.cons h.formed ho hne
  | getRecord hy =>
    obtain ⟨ho, hne⟩ := (HeapFile.getRecord_owns h.owns hknown hsafe).1 _ _ _ hy
    have hpage := (h.formed _ (Multiset.mem_cons_self _ _)).2
    exact h.replace (by rwa [Object.base_setBase]) (hpage.setBase hne)
  | @startScan s os q offset length type filter op =>
    refine h.replace ?_ trivial
    have hbase : (HeapFileScan.startScan q offset length type filter op).2.toHeapFile =
        q.toHeapFile := by
      unfold HeapFileScan.startScan
      split
      · rfl
      · split <;> rfl
    show Owns s _ (HeapFileScan.startScan q offset length type filter op).2.toHeapFile
    rw [hbase]
    exact h.owns
  | scanNext hy =>
    exact h.replace ((HeapFileScan.scanNext_owns _ h.owns hknown).1 _ _ _ hy).1 trivial
  | markScan => exact h.replace (h.owns.congr rfl rfl rfl rfl rfl) trivial
  | resetScan hy =>
    exact h.replace ((HeapFileScan.resetScan_owns h.owns hknown hsafe).1 _ _ _ hy) trivial
  | endScan hy => exact h.replace ((HeapFileScan.endScan_owns h.owns).1 _ _ _ hy).1 trivial
  | deleteRecord hy =>
    exact h.replace ((HeapFileScan.deleteRecord_owns h.owns).1 _ _ _ hy) trivial
  | insertRecord hy =>
    have hpage := (h.formed _ (Multiset.mem_cons_self _ _)).2
    obtain ⟨ho, hne⟩ := (InsertFileScan.insertRecord_owns h.owns hpage hknown).1 _ _ _ hy
    exact h.replace ho hne
  | @delete s s' os o e hy =>
    refine ⟨fun x hx => h.formed x (Multiset.mem_cons_of_mem hx), ?_⟩
    cases o with
    | file h₀ => exact (HeapFile.delete_owns h.owns).1 _ _ _ hy
    | scan q => exact (HeapFileScan.delete_owns h.owns).1 _ _ _ hy
    | insert h₀ => exact (InsertFileScan.delete_owns h.owns).1 _ _ _ hy

/-- A call that does so leaves an object that speaks of a pin it does not have. -/
theorem Intact.not_step (h : Intact R w) (hknown : Known w c) (hbad : Switches w c)
    (hstep : Step w c w') : ¬Intact R w' := by
  cases hstep with
  | getRecord hy =>
    intro h'
    have ho := h'.owns
    rw [Object.base_setBase] at ho
    exact (HeapFile.getRecord_spoils h.owns hknown hbad).1 _ _ _ hy ho
  | resetScan hy =>
    intro h'
    exact (HeapFileScan.resetScan_spoils h.owns hknown hbad).1 _ _ _ hy h'.owns
  | _ => exact hbad.elim

/-- The data page of an object is in the frame that `curPage` points to, and is pinned. -/
theorem Intact.page (h : Intact R w) (ho : o ∈ w.objs) (hne : o.base.curPage ≠ .null) :
    ∃ n, o.base.curPage = .frame n ∧
      w.sys.buf.Carries n o.base.filePtr o.base.curPageNo ∧ 0 < (w.sys.buf.bufTable n).pinCnt := by
  obtain ⟨n, hn⟩ := (h.formed o ho).1.frame hne
  obtain ⟨os, hos⟩ := Multiset.exists_cons_of_mem ho
  have hmem : (⟨o.base.filePtr, o.base.curPageNo, n, false⟩ : Pin) ∈ pins w.objs + R := by
    rw [hos, pins_cons, pins_frame hn, Multiset.cons_add, Multiset.cons_add]
    exact Multiset.mem_cons_self _ _
  exact ⟨n, hn, h.pinned.carries hmem, h.pinned.pos hmem⟩

end Holders

/-- In a run in which no move to another page fails every object has its pins in every state, and
nobody else's. In such a state a call spoils this if and only if it is a move that fails. -/
theorem intact_of_run {R : Multiset Pin} {s₀ : Sys} {cs : List ObjectCall} {w : Holders}
    (hstart : Pinned s₀.buf R)
    (hrun : Holders.Run (fun w c => Holders.Known w c ∧ ¬Holders.Switches w c) ⟨s₀, 0⟩ cs w) :
    Holders.Intact R w ∧
      (∀ o ∈ w.objs, o.base.curPage = .null ∨ ∃ n, o.base.curPage = .frame n ∧
        w.sys.buf.Carries n o.base.filePtr o.base.curPageNo ∧ 0 < (w.sys.buf.bufTable n).pinCnt) ∧
      ∀ c w', Holders.Known w c → Holders.Step w c w' →
        (Holders.Intact R w' ↔ ¬Holders.Switches w c) := by
  have h : Holders.Intact R w := by
    induction hrun with
    | start =>
      refine ⟨fun o ho => absurd ho (Multiset.notMem_zero o), ?_⟩
      show Pinned s₀.buf (0 + R)
      rwa [zero_add]
    | step hrun hG hstep ih => exact ih.step hG.1 hG.2 hstep
  refine ⟨h, fun o ho => or_iff_not_imp_left.mpr (h.page ho), fun c w' hknown hstep => ?_⟩
  exact ⟨fun h' hbad => h.not_step hknown hbad hstep h', fun hsafe => h.step hknown hsafe hstep⟩

/-- The file of `createHeapFile` can be opened for use. -/
theorem opens_fresh {s : Sys} (hy : Yields (createHeapFile [82]) (Sys.blank 3) .OK false s) :
    Pinned s.buf 0 ∧ Opens s [82] := by
  have hnm : ([82] : FileName) ≠ [] := List.cons_ne_nil 82 []
  have hspec := createHeapFile_spec (T := False) (Coh.blank 3) hnm rfl id fun hf => hf.elim
  obtain ⟨-, p, q, pg, fv, hc, hH⟩ := hspec.of_yields hy
  refine ⟨hc.pinned, fun f e s₁ _ p => hc.sound.sole f p, fun h e s₁ hnew => ?_⟩
  have hfree : 2 ≤ freeFrames (View.blank 3).numBufs 0 := by decide
  have hopen := new_spec (T := True) hc hnm View.file_setFile_self hH (fun _ _ he => by cases he)
    fun _ => hfree
  obtain ⟨r, s₂, hy₂, f, n, m, rfl, -⟩ := hopen.exists trivial
  obtain ⟨heq, -, -⟩ := hy₂.unique hnew
  cases heq
  exact nofun

/-- End a scan and ask it for a record of a page that the file does not have. -/
def getAfterEnd : M (List Status × PagePtr) := do
  let st ← createHeapFile [82]
  let (st₁, q) ← HeapFileScan.new [82]
  let (st₂, q) ← HeapFileScan.endScan q
  let (st₃, _, _) ← HeapFile.getRecord q.toHeapFile ⟨99, 0⟩
  return ([st, st₁, st₂, st₃], q.curPage)

/-- A scan is ended, and then asked for a record of a page that the file does not have. -/
theorem intact_of_run_ended : ∃ (w : Holders) (o : Object), o ∈ w.objs ∧ Holders.Intact 0 w ∧
    (∀ o ∈ w.objs, o.base.curPage = .null ∨ ∃ n, o.base.curPage = .frame n ∧
      w.sys.buf.Carries n o.base.filePtr o.base.curPageNo ∧ 0 < (w.sys.buf.bufTable n).pinCnt) ∧
    ∀ c w', Holders.Known w c → Holders.Step w c w' →
      (Holders.Intact 0 w' ↔ ¬Holders.Switches w c) := by
  obtain ⟨r, e, s, hy, hv⟩ := exists_of_eval (s := Sys.blank 3)
    (x := getAfterEnd)
    (g := fun r e _ => (r, e)) (v := (([.OK, .OK, .OK, .UNIXERR], .null), false))
    (by decide +kernel)
  obtain ⟨st, e₀, s₀, _, hy₀, k₀, rfl⟩ := hy.of_bind
  obtain ⟨⟨st₁, q⟩, e₁, s₁, _, hy₁, k₁, rfl⟩ := k₀.of_bind
  obtain ⟨⟨st₂, q'⟩, e₂, s₂, _, hy₂, k₂, rfl⟩ := k₁.of_bind
  obtain ⟨⟨st₃, rec, h⟩, e₃, s₃, _, hy₃, k₃, rfl⟩ := k₂.of_bind
  obtain ⟨rfl, rfl, -⟩ := yields_pure.mp k₃
  simp only [Prod.mk.injEq, List.cons.injEq, and_true, Bool.or_eq_false_iff] at hv
  obtain ⟨⟨⟨rfl, rfl, rfl, rfl⟩, hnull⟩, rfl, rfl, rfl, rfl, -⟩ := hv
  obtain ⟨hstart, hopens⟩ := opens_fresh hy₀
  -- the pages of the file are known to the hash table after the scan has been opened and ended
  obtain ⟨⟨st, h₁⟩, _, _, _, hnew, hpure, -⟩ := hy₁.of_bind
  obtain ⟨heq, rfl, -⟩ := yields_pure.mp hpure
  cases heq
  obtain ⟨ho, -, hsole⟩ := ((HeapFile.new_owns hstart hopens).1 _ _ _ hnew).2 rfl
  obtain ⟨-, hfile, hkeep⟩ := (HeapFileScan.endScan_owns ho).1 _ _ _ hy₂
  let G : Holders → ObjectCall → Prop := fun w c => Holders.Known w c ∧ ¬Holders.Switches w c
  have g₁ : G ⟨s₀, 0⟩ (.newScan [82]) := ⟨hopens, id⟩
  have g₂ (s : Sys) (q : HeapFileScan) : G ⟨s, .scan q ::ₘ 0⟩ (.endScan q) := ⟨trivial, id⟩
  have g₃ : G ⟨s₂, .scan q' ::ₘ 0⟩ (.getRecord (.scan q') ⟨99, 0⟩) :=
    ⟨hkeep _ _ (hfile ▸ hsole 99), fun hbad => hbad.1 hnull⟩
  have hrun := ((Holders.Run.start.step g₁ (.newScan hy₁ 0 NULLRID)).step (g₂ _ _)
    (.endScan hy₂)).step g₃ (.getRecord hy₃)
  exact ⟨⟨s₃, (Object.scan q').setBase h ::ₘ 0⟩, (Object.scan q').setBase h,
    Multiset.mem_cons_self _ 0, intact_of_run hstart hrun⟩

/-- Open a heap file and ask it for a record of a page that it does not have. -/
def getBeyondEnd : M (List Status × PagePtr) := do
  let st ← createHeapFile [82]
  let (st₁, h) ← HeapFile.new [82]
  let (st₂, _, h') ← HeapFile.getRecord h ⟨99, 0⟩
  return ([st, st₁, st₂], h'.curPage)

/-- A heap file is opened and asked for a record of a page that it does not have: it has given its
data page back, and `curPage` points to the frame still. -/
theorem not_intact_after_failed_switch : ∃ s₀ cs w o n,
    Yields (createHeapFile [82]) (Sys.blank 3) .OK false s₀ ∧ Pinned s₀.buf 0 ∧
    Holders.Run Holders.Known ⟨s₀, 0⟩ cs w ∧ o ∈ w.objs ∧
    o.base.curPage = .frame n ∧ (w.sys.buf.bufTable n).pinCnt = 0 := by
  obtain ⟨r, e, s, hy, hv⟩ := exists_of_eval (s := Sys.blank 3)
    (x := getBeyondEnd)
    (g := fun r e s => (r, e, (s.buf.bufTable 3).pinCnt))
    (v := (([.OK, .OK, .UNIXERR], .frame 3), false, 0)) (by decide +kernel)
  obtain ⟨st, e₀, s₀, _, hy₀, k₀, rfl⟩ := hy.of_bind
  obtain ⟨⟨st₁, h⟩, e₁, s₁, _, hy₁, k₁, rfl⟩ := k₀.of_bind
  obtain ⟨⟨st₂, rec, h'⟩, e₂, s₂, _, hy₂, k₂, rfl⟩ := k₁.of_bind
  obtain ⟨rfl, rfl, -⟩ := yields_pure.mp k₂
  simp only [Prod.mk.injEq, List.cons.injEq, and_true, Bool.or_eq_false_iff] at hv
  obtain ⟨⟨⟨rfl, rfl, rfl⟩, hcur⟩, ⟨rfl, rfl, rfl, -⟩, hpin⟩ := hv
  obtain ⟨hstart, hopens⟩ := opens_fresh hy₀
  obtain ⟨ho, -, hsole⟩ := ((HeapFile.new_owns hstart hopens).1 _ _ _ hy₁).2 rfl
  have g₁ : Holders.Known ⟨s₀, 0⟩ (.newFile [82]) := hopens
  have g₂ : Holders.Known ⟨s₁, .file h ::ₘ 0⟩ (.getRecord (.file h) ⟨99, 0⟩) := hsole 99
  have hrun := (Holders.Run.start.step g₁ (.newFile hy₁)).step g₂ (.getRecord hy₂)
  exact ⟨s₀, _, _, .file h', 3, hy₀, hstart, hrun, Multiset.mem_cons_self _ 0, hcur, hpin⟩

end Minirel
