import Minirel.HeapFile.Construct
import Minirel.HeapFile.Extend

/-!
# Calls that open and close no file

The calls that an object on a heap file makes between its constructor and its destructor leave the
table of open files and the open counts as they are, whatever they return.

## Main definitions

* `KeepsFiles`: the call opens and closes no file.
* `OpensOnly`: files may have been opened, and none has been closed.

## Main results

* `KeepsFiles.scanNext`, `KeepsFiles.insertRecord`: scanning and inserting.
* `OpenTable.runs_new`: a new object is one opener of its file, or the file could not be opened.
-/

namespace Minirel

open Comp BufMgr

/-- The computation opens and closes no file. -/
def KeepsFiles {α : Type} (x : M α) : Prop := Preserves x SameTable

namespace KeepsFiles

variable {α β : Type} {x : M α} {f : α → M β} {a : α}

theorem pure : KeepsFiles (Pure.pure a : M α) := Preserves.pure SameTable.refl

theorem bind (hx : KeepsFiles x) (hf : ∀ a, KeepsFiles (f a)) : KeepsFiles (x >>= f) :=
  Preserves.bind (fun _ _ _ => SameTable.trans) hx hf

theorem get_bind {f : Sys → M β} (hf : ∀ s, KeepsFiles (f s)) : KeepsFiles (get >>= f) :=
  Preserves.get_bind fun s => hf s s

theorem ite {c : Prop} [Decidable c] {y : M α} (hx : KeepsFiles x) (hy : KeepsFiles y) :
    KeepsFiles (if c then x else y) := Preserves.ite hx hy

theorem failure : KeepsFiles (failure : M α) := fun _ => Runs.failure id

/-- What touches nothing but the pool. -/
theorem of_onlyPool (h : Preserves x OnlyPool) : KeepsFiles x := fun s =>
  (h s).mono fun _ _ _ ⟨b, hb⟩ => hb ▸ (SameTable.refl s).buf b

theorem ofOption (o : Option α) : KeepsFiles (ofOption o : M α) :=
  of_onlyPool (preserves_ofOption o)

theorem modifyBuf (g : BufMgr → BufMgr) : KeepsFiles (modifyBuf g) :=
  of_onlyPool (preserves_modifyBuf g)

theorem derefPage (page : PagePtr) : KeepsFiles (derefPage page) :=
  of_onlyPool (preserves_derefPage page)

theorem assignPage (page : PagePtr) (b : Block) : KeepsFiles (assignPage page b) :=
  of_onlyPool (preserves_assignPage page b)

theorem modifyHeader (h : HeapFile) (g : FileHdrPage → FileHdrPage) :
    KeepsFiles (h.modifyHeader g) := of_onlyPool (preserves_modifyHeader h g)

/-! ## The file layer -/

theorem fileAt (file : FilePtr) : KeepsFiles (fileAt file) := fun s => by
  rw [← bind_pure (Minirel.fileAt file)]
  exact Runs.fileAt_bind nofun fun fo _ => runs_pure.mpr (.refl s)

theorem unixCall : KeepsFiles unixCall := fun s =>
  Runs.of_yields (yields_unixCall s) ⟨rfl, rfl, rfl⟩

theorem setUnix (name : FileName) (uf : Option UnixFile) : KeepsFiles (setUnix name uf) := fun s =>
  Runs.of_yields (yields_setUnix name uf s) ⟨rfl, rfl, rfl⟩

theorem intread (file : FilePtr) (pageNo : Int) (blk : Block) :
    KeepsFiles (File.intread file pageNo blk) := by
  refine (fileAt file).bind fun fo => unixCall.bind fun ok => get_bind fun s => ite ?_ pure
  split <;> exact pure

theorem intwrite (file : FilePtr) (pageNo : Int) (blk : Block) :
    KeepsFiles (File.intwrite file pageNo blk) := by
  refine (fileAt file).bind fun fo => unixCall.bind fun ok => get_bind fun s => ite ?_ pure
  split
  · exact (setUnix _ _).bind fun _ => pure
  · exact pure

theorem getFirstPage (file : FilePtr) : KeepsFiles (File.getFirstPage file) :=
  (intread _ _ _).bind fun _ => pure

theorem allocatePage (file : FilePtr) : KeepsFiles (File.allocatePage file) := by
  refine (intread _ _ _).bind fun r => ite pure (ite ?_ ?_)
  · exact (intread _ _ _).bind fun r => ite pure ((intwrite _ _ _).bind fun _ => pure)
  · exact (intwrite _ _ _).bind fun r => ite pure ((intwrite _ _ _).bind fun _ => pure)

/-! ## The buffer manager -/

theorem allocBuf : KeepsFiles allocBuf := fun s => by
  have hswept : SameTable s (swept s) := ⟨rfl, rfl, rfl⟩
  refine runs_allocBuf (fun _ => hswept) (fun _ _ => hswept) fun _ _ => ?_
  exact (ite pure (intwrite _ _ _) (swept s)).mono fun _ _ _ h => hswept.trans h

theorem enterPage (file : FilePtr) (pageNo : Int) (n : Nat) :
    KeepsFiles (enterPage file pageNo n) := of_onlyPool (preserves_enterPage file pageNo n)

theorem unPinPage (file : FilePtr) (pageNo : Int) (dirty : Bool) :
    KeepsFiles (unPinPage file pageNo dirty) := of_onlyPool (preserves_unPinPage file pageNo dirty)

theorem readPage (file : FilePtr) (pageNo : Int) (page : PagePtr) :
    KeepsFiles (readPage file pageNo page) := by
  refine get_bind fun s => ?_
  split
  · exact (modifyBuf _).bind fun _ => pure
  · refine allocBuf.bind fun r => ite pure (get_bind fun s => ?_)
    refine (ite pure (intread _ _ _)).bind fun r => (modifyBuf _).bind fun _ => ite pure ?_
    exact enterPage _ _ _

theorem allocPage (file : FilePtr) (page : PagePtr) : KeepsFiles (allocPage file page) := by
  refine (allocatePage file).bind fun r => ite pure (allocBuf.bind fun r => ite pure ?_)
  exact (enterPage _ _ _).bind fun r => pure

/-! ## Scans -/

theorem endScan (q : HeapFileScan) : KeepsFiles q.endScan :=
  ite ((unPinPage _ _ _).bind fun _ => pure) pure

theorem matchRec (q : HeapFileScan) (page : Page) (rec : PageRecord) :
    KeepsFiles (q.matchRec page rec) := by
  unfold HeapFileScan.matchRec
  split
  · exact pure
  refine ite pure (get_bind fun s => ?_)
  dsimp only
  split
  · exact (ofOption _).bind fun _ => (ofOption _).bind fun _ => pure
  · exact (ofOption _).bind fun _ => (ofOption _).bind fun _ => pure
  · exact (ofOption _).bind fun _ => pure

theorem seekPage (fuel : Nat) (q : HeapFileScan) : KeepsFiles (HeapFileScan.seekPage fuel q) := by
  induction fuel generalizing q with
  | zero => exact failure
  | succ fuel ih =>
    refine (derefPage _).bind fun blk => ite pure ((unPinPage _ _ _).bind fun st => ite pure ?_)
    refine (readPage _ _ _).bind fun r => ite pure ((derefPage _).bind fun blk => ?_)
    exact (ofOption _).bind fun r => ite pure (ih _)

theorem advance (fuel : Nat) (q : HeapFileScan) : KeepsFiles (HeapFileScan.advance fuel q) :=
  (derefPage _).bind fun _ => (ofOption _).bind fun _ => ite pure (seekPage fuel q)

theorem scanLoop (fuel : Nat) (q : HeapFileScan) : KeepsFiles (HeapFileScan.scanLoop fuel q) := by
  induction fuel generalizing q with
  | zero => exact failure
  | succ fuel ih =>
    refine (advance fuel q).bind fun r => ite pure ((derefPage _).bind fun blk => ?_)
    refine (ofOption _).bind fun r => ite pure ((matchRec _ _ _).bind fun found => ?_)
    exact ite pure (ih _)

theorem scanFirst (fuel : Nat) (q : HeapFileScan) : KeepsFiles (HeapFileScan.scanFirst fuel q) := by
  refine (derefPage _).bind fun blk => ite pure ((readPage _ _ _).bind fun r => ite pure ?_)
  refine (derefPage _).bind fun blk => (ofOption _).bind fun r => ite ?_ ?_
  · exact (unPinPage _ _ _).bind fun _ => ite pure pure
  · refine (ofOption _).bind fun r => ite pure ((matchRec _ _ _).bind fun found => ?_)
    exact ite pure (scanLoop fuel _)

theorem scanNext (fuel : Nat) (q : HeapFileScan) : KeepsFiles (q.scanNext fuel) :=
  ite pure (ite (scanFirst fuel q) (scanLoop fuel q))

theorem getRecord (q : HeapFileScan) : KeepsFiles q.getRecord :=
  (derefPage _).bind fun _ => ofOption _

theorem deleteRecord (q : HeapFileScan) : KeepsFiles q.deleteRecord :=
  (derefPage _).bind fun _ => (ofOption _).bind fun _ => (assignPage _ _).bind fun _ =>
    (modifyHeader _ _).bind fun _ => pure

/-! ## Insertion -/

theorem insertOverflow (h : InsertFileScan) (rec : Record) :
    KeepsFiles (InsertFileScan.insertOverflow h rec) := by
  refine (allocPage _ _).bind fun r => ite pure ((derefPage _).bind fun blk => ?_)
  refine (assignPage _ _).bind fun _ => (modifyHeader _ _).bind fun _ => ?_
  refine (derefPage _).bind fun blk => (assignPage _ _).bind fun _ => ?_
  refine (unPinPage _ _ _).bind fun st => ite ((unPinPage _ _ _).bind fun _ => pure) ?_
  refine (derefPage _).bind fun blk => (ofOption _).bind fun r => ite ?_ pure
  exact (assignPage _ _).bind fun _ => (modifyHeader _ _).bind fun _ => pure

theorem insertCurrent (h : InsertFileScan) (rec : Record) :
    KeepsFiles (InsertFileScan.insertCurrent h rec) := by
  refine (derefPage _).bind fun blk => (ofOption _).bind fun r => ite ?_ (insertOverflow _ _)
  exact (assignPage _ _).bind fun _ => (modifyHeader _ _).bind fun _ => pure

theorem insertRecord (h : InsertFileScan) (rec : Record) :
    KeepsFiles (InsertFileScan.insertRecord h rec) := by
  refine ite pure (ite ?_ (insertCurrent _ _))
  exact (derefPage _).bind fun blk => (readPage _ _ _).bind fun r => ite pure (insertCurrent _ _)

end KeepsFiles

/-! ## Opening a file -/

/-- The file is open, or the Unix call that opens it succeeds. -/
def Sys.CanOpen (s : Sys) (nm : FileName) : Prop :=
  nm ≠ [] ∧ ((s.openFiles.find nm).isSome ∨ s.io 0 = true ∧ (s.unix nm).isSome)

/-- The pool and the open counts are the same. -/
structure Unopened (s s' : Sys) : Prop where
  table : OpenTable s'
  buf : s'.buf = s.buf
  openCnt : ∀ nm, s'.openCnt nm = s.openCnt nm

/-- Files may have been opened, and none has been closed. -/
def OpensOnly (s s' : Sys) : Prop := OpenTable s → OpenTable s' ∧ ∀ nm, s.openCnt nm ≤ s'.openCnt nm

section Opening

variable {s s' : Sys} {nm : FileName} {f : FilePtr} {h : HeapFile} {α β : Type} {x : M α}

theorem Unopened.sameCounts (h : Unopened s s') : SameCounts s s' := by
  refine ⟨fun file p => ?_, h.openCnt⟩
  unfold Sys.pinCnt
  rw [h.buf]

theorem OneOpener.opensOnly (ho : OneOpener s s' nm f) :
    OpenTable s' ∧ ∀ nm', s.openCnt nm' ≤ s'.openCnt nm' := by
  refine ⟨ho.table, fun nm' => ?_⟩
  by_cases hne : nm' = nm
  · have := ho.openCnt
    rw [hne]
    omega
  · rw [(ho.others nm' hne).2]

theorem OpenTable.runs_openFile (ht : OpenTable s) (nm : FileName) :
    Runs False (DB.openFile nm) s fun r _ s' => (r.1 = .OK ↔ s.CanOpen nm) ∧
      (r.1 = .OK → OneOpener s s' nm r.2) ∧ (r.1 ≠ .OK → Unopened s s') := by
  refine Runs.mono ⟨(ht.openFile nm).1, nofun⟩ ?_
  rintro r e s' ⟨-, -, hbuf, htable, hothers, hiff, hok, hbad, -⟩
  refine ⟨hiff, fun hst => ⟨htable, (hok hst).1, (hok hst).2, hothers⟩, fun hst => ?_⟩
  refine ⟨htable, hbuf, fun nm' => ?_⟩
  by_cases hne : nm' = nm
  · rw [hne]
    exact hbad hst
  · exact (hothers nm' hne).2

/-- The constructor opens the file, or leaves the members of the object unset. -/
theorem OpenTable.runs_new (ht : OpenTable s) (nm : FileName) :
    Runs False (HeapFile.new nm) s fun r _ s' =>
      (r.1 = .OK ∧ s.CanOpen nm ∧ OneOpener s s' nm r.2.filePtr) ∨
        (r.1 ≠ .OK ∧ ¬s.CanOpen nm ∧ r.2 = HeapFile.uninit ∧ Unopened s s') := by
  unfold HeapFile.new
  refine (ht.runs_openFile nm).bind ?_
  rintro ⟨st, f⟩ e s₁ ⟨hiff, hok, hbad⟩
  dsimp only at hiff hok hbad ⊢
  refine Runs.ite (fun hne => runs_pure.mpr (Or.inr ?_)) fun heq => ?_
  · exact ⟨hne, fun hopen => hne (hiff.mpr hopen), rfl, hbad hne⟩
  have hst : st = .OK := not_not.mp heq
  refine (KeepsFiles.getFirstPage f s₁).bind fun r _ s₂ h₂ => ?_
  refine Runs.ite (fun _ => Runs.failure id) fun _ => ?_
  refine (KeepsFiles.readPage _ _ _ s₂).bind fun _ _ s₃ h₃ => ?_
  refine (KeepsFiles.derefPage _ s₃).bind fun _ _ s₄ h₄ => ?_
  refine (KeepsFiles.readPage _ _ _ s₄).bind fun _ _ s₅ h₅ => runs_pure.mpr (Or.inl ?_)
  exact ⟨rfl, hiff.mp hst, (hok hst).sameTable (h₂.trans (h₃.trans (h₄.trans h₅)))⟩

/-- What a function does with a new scan, whether or not the file could be opened. -/
theorem OpenTable.scan_new_bind {k : Status × HeapFileScan → M α} {Q : α → Sys → Prop}
    (ht : OpenTable s)
    (hopen : ∀ q s₁, s.CanOpen nm → OneOpener s s₁ nm q.filePtr →
      Runs False (k (.OK, q)) s₁ fun a _ s' => Q a s')
    (hbad : ∀ st (q : HeapFileScan) s₁, ¬s.CanOpen nm → st ≠ .OK →
      q.toHeapFile = HeapFile.uninit → Unopened s s₁ →
      Runs False (k (st, q)) s₁ fun a _ s' => Q a s') :
    Runs False (HeapFileScan.new nm >>= k) s fun a _ s' => Q a s' := by
  unfold HeapFileScan.new
  rw [bind_assoc]
  refine (ht.runs_new nm).bind ?_
  rintro ⟨st, h⟩ e s₁ (⟨hst, hc, ho⟩ | ⟨hne, hc, hq, hu⟩)
  · dsimp only at hst ho ⊢
    rw [hst, runs_pure_bind]
    exact hopen _ s₁ hc ho
  · dsimp only at hq ⊢
    rw [runs_pure_bind]
    exact hbad st _ s₁ hc hne hq hu

/-! ## Files that are left open -/

theorem OpensOnly.trans {s'' : Sys} (h : OpensOnly s s') (h' : OpensOnly s' s'') :
    OpensOnly s s'' := fun ht =>
  ⟨(h' (h ht).1).1, fun nm => ((h ht).2 nm).trans ((h' (h ht).1).2 nm)⟩

theorem OpensOnly.preserves_bind {g : α → M β} (hx : Preserves x OpensOnly)
    (hg : ∀ a, Preserves (g a) OpensOnly) : Preserves (x >>= g) OpensOnly :=
  Preserves.bind (fun _ _ _ => OpensOnly.trans) hx hg

theorem SameTable.opensOnly (h : SameTable s s') : OpensOnly s s' := fun ht =>
  ⟨h.openTable ht, fun nm => (h.openCnt nm).ge⟩

theorem KeepsFiles.opensOnly (hx : KeepsFiles x) : Preserves x OpensOnly := fun s =>
  (hx s).mono fun _ _ _ h => h.opensOnly

/-- A scan may have been opened, and is not closed. -/
theorem preserves_scan_new (nm : FileName) : Preserves (HeapFileScan.new nm) OpensOnly := by
  intro s
  have hrun (ht : OpenTable s) :
      Runs False (HeapFileScan.new nm) s fun _ _ s' => OpensOnly s s' := by
    rw [← bind_pure (HeapFileScan.new nm)]
    refine ht.scan_new_bind (Q := fun _ s' => OpensOnly s s') (fun q s₁ _ ho => ?_)
      fun st q s₁ _ _ _ hu => ?_
    · exact runs_pure.mpr fun _ => ho.opensOnly
    · exact runs_pure.mpr fun _ => ⟨hu.table, fun nm' => (hu.openCnt nm').ge⟩
  exact ⟨fun r e s' hy ht => (hrun ht).1 r e s' hy ht, nofun⟩

/-- A file that has been opened stays open. -/
theorem OneOpener.lt (ho : OneOpener s s' nm f) {s'' : Sys} (h : OpensOnly s' s'') :
    s.openCnt nm < s''.openCnt nm := by
  have := (h ho.table).2 nm
  have := ho.openCnt
  omega

end Opening

end Minirel
