import Minirel.Catalog.Relations
import Minirel.HeapFile.KeepsFiles

/-!
# What the catalog operations leave pinned and open

Every operation on a catalog opens a scan of its own. Those that look up or remove tuples drop it
without its destructor, so that the catalog file stays open and its header page pinned. `addInfo`
destroys its scan, unless the constructor reports an error.

## Main definitions

* `CatalogOp.Step`: one operation, from state to state.
* `CatalogOp.Releases`: it opens no file, or destroys what it has opened.
* `CatalogOp.Known`: the pool has no forgotten page of the file that a tuple is added to.

## Main results

* `neutral_of_run`: in a run of such operations no pin and no open count changes, and any other
  operation changes them.
-/

namespace Minirel

open Comp BufMgr HeapFile

/-- An operation on the catalogs. -/
inductive CatalogOp
  | relGetInfo (relation : Bytes)
  | relAddInfo (record : RelDesc)
  | relRemoveInfo (relation : Bytes)
  | attrGetInfo (relation attrName : Bytes)
  | attrAddInfo (record : AttrDesc)
  | attrRemoveInfo (relation attrName : Bytes)
  | getRelInfo (relation : Bytes)
  | dropRelation (relation : Bytes)

namespace CatalogOp

/-- The operation returns, whatever the locals and the arguments that it fills in hold before. -/
def Step (s : Sys) : CatalogOp → Sys → Prop
  | relGetInfo relation, s' => ∃ fuel record r e,
      Yields (RelCatalog.getInfo fuel relation record) s r e s'
  | relAddInfo record, s' => ∃ r e, Yields (RelCatalog.addInfo record) s r e s'
  | relRemoveInfo relation, s' => ∃ fuel status ret r e,
      Yields (RelCatalog.removeInfo fuel status ret relation) s r e s'
  | attrGetInfo relation attrName, s' => ∃ fuel record r e,
      Yields (AttrCatalog.getInfo fuel relation attrName record) s r e s'
  | attrAddInfo record, s' => ∃ r e, Yields (AttrCatalog.addInfo record) s r e s'
  | attrRemoveInfo relation attrName, s' => ∃ fuel junk r e,
      Yields (AttrCatalog.removeInfo fuel junk relation attrName) s r e s'
  | getRelInfo relation, s' => ∃ fuel junk junkAttr attrCnt attrs r e,
      Yields (AttrCatalog.getRelInfo fuel junk junkAttr relation attrCnt attrs) s r e s'
  | dropRelation relation, s' => ∃ fuel got ended r e,
      Yields (AttrCatalog.dropRelation fuel got ended relation) s r e s'

/-- The constructor of the scan that adds a tuple returns `OK`. -/
def Adds (s : Sys) (nm : FileName) : Prop :=
  ∃ h e s₁, Yields (InsertFileScan.new nm) s (.OK, h) e s₁

/-- The operation opens no file, or destroys the scan that it has constructed. -/
def Releases (s : Sys) : CatalogOp → Prop
  | relGetInfo relation | relRemoveInfo relation | getRelInfo relation | dropRelation relation =>
      relation = [] ∨ ¬s.CanOpen RELCATNAME
  | attrGetInfo relation attrName | attrRemoveInfo relation attrName =>
      relation = [] ∨ attrName = [] ∨ ¬s.CanOpen ATTRCATNAME
  | relAddInfo _ => Adds s RELCATNAME
  | attrAddInfo _ => Adds s ATTRCATNAME

end CatalogOp

/-- The pool has no page of the file that its hash table has forgotten, neither before the file is
opened nor when its first data page has been asked for, and not the page that the file hands out
next. -/
structure KnownPages (s : Sys) (nm : FileName) : Prop where
  opened : ∀ f e s₁, Yields (DB.openFile nm) s (.OK, f) e s₁ → ∀ p, s.buf.Sole f p
  read : ∀ h e s₁, Yields (HeapFile.new nm) s (.OK, h) e s₁ → ∀ p, s₁.buf.Sole h.filePtr p
  allocated : ∀ h e s₁, Yields (InsertFileScan.new nm) s (.OK, h) e s₁ →
    ¬AllocClash s₁ h.filePtr

/-- The pool knows the pages of the file that a tuple is added to. -/
def CatalogOp.Known (s : Sys) : CatalogOp → Prop
  | relAddInfo _ => KnownPages s RELCATNAME
  | attrAddInfo _ => KnownPages s ATTRCATNAME
  | _ => True

/-- The runs from `s₀` of operations that release what they open. -/
inductive ReleasingRun (s₀ : Sys) : Sys → Prop
  | start : ReleasingRun s₀ s₀
  | step {s s' : Sys} {op : CatalogOp} (hrun : ReleasingRun s₀ s) (hknown : op.Known s)
      (hreleases : op.Releases s) (hstep : op.Step s s') : ReleasingRun s₀ s'

/-! ## Looking up and removing tuples -/

/-- A file that can be opened is left open, and otherwise nothing changes. -/
structure LeavesOpen (nm : FileName) (s s' : Sys) : Prop where
  table : OpenTable s'
  opened : s.CanOpen nm → s.openCnt nm < s'.openCnt nm
  unopened : ¬s.CanOpen nm → Unopened s s'

namespace KeepsFiles

theorem copyRecord (q : HeapFileScan) (rec : PageRecord) (n : Int) :
    KeepsFiles (copyRecord q rec n) := (derefPage _).bind fun _ => ofOption _

theorem relRemoveLoop (relation : Bytes) (ret : Status) (fuel : Nat) (status : Status)
    (q : HeapFileScan) : KeepsFiles (RelCatalog.removeLoop relation ret fuel status q) := by
  induction fuel generalizing status q with
  | zero => exact failure
  | succ fuel ih =>
    refine ite pure (ite pure ((getRecord q).bind fun r => ite pure ?_))
    refine (copyRecord _ _ _).bind fun b => (ofOption _).bind fun same => ite ?_ ?_
    · exact (deleteRecord q).bind fun _ => pure
    · exact (scanNext fuel q).bind fun r => ih _ _

theorem getLoop (attrName : Bytes) (fuel : Nat) (status : Status) (q : HeapFileScan)
    (record : AttrDesc) : KeepsFiles (AttrCatalog.getLoop attrName fuel status q record) := by
  induction fuel generalizing status q record with
  | zero => exact failure
  | succ fuel ih =>
    refine ite pure ((getRecord q).bind fun r => ite pure ?_)
    refine (copyRecord _ _ _).bind fun b => (ofOption _).bind fun mem => ?_
    exact (ofOption _).bind fun name => ite pure ((scanNext fuel q).bind fun r => ih _ _ _)

theorem attrRemoveLoop (attrName : Bytes) (fuel : Nat) (q : HeapFileScan) (record : AttrDesc) :
    KeepsFiles (AttrCatalog.removeLoop attrName fuel q record) := by
  induction fuel generalizing record with
  | zero => exact failure
  | succ fuel ih =>
    refine (getRecord q).bind fun r => ite pure ((copyRecord _ _ _).bind fun b => ?_)
    exact (ofOption _).bind fun mem => (ofOption _).bind fun name => ite pure (ih _)

theorem relInfoLoop (relation : Bytes) (fuel : Nat) (status : Status) (q : HeapFileScan)
    (amount : Int) (attrs : List AttrDesc) :
    KeepsFiles (AttrCatalog.relInfoLoop relation fuel status q amount attrs) := by
  induction fuel generalizing status q amount attrs with
  | zero => exact failure
  | succ fuel ih =>
    refine ite pure (ite pure (ite pure ((getRecord q).bind fun r => ite pure ?_)))
    refine (copyRecord _ _ _).bind fun b => (ofOption _).bind fun same => ?_
    exact (scanNext fuel q).bind fun r => ih _ _ _ _

theorem dropLoop (relation : Bytes) (fuel : Nat) (status got : Status) (q : HeapFileScan) :
    KeepsFiles (AttrCatalog.dropLoop relation fuel status got q) := by
  induction fuel generalizing status got q with
  | zero => exact failure
  | succ fuel ih =>
    refine ite pure ((getRecord q).bind fun r => ite pure ((copyRecord _ _ _).bind fun b => ?_))
    refine (ofOption _).bind fun same => ite ((deleteRecord q).bind fun r => ?_) ?_
    · exact (scanNext fuel _).bind fun r => ih _ _ _
    · exact (scanNext fuel q).bind fun r => ih _ _ _

end KeepsFiles

section Lookups

variable {s s' : Sys} {fuel : Nat} {relation attrName : Bytes} {nm : FileName}

theorem LeavesOpen.sameCounts_iff (h : LeavesOpen nm s s') : SameCounts s s' ↔ ¬s.CanOpen nm := by
  constructor
  · intro hsame hopen
    have := h.opened hopen
    rw [hsame.openCnt nm] at this
    omega
  · intro hopen
    exact (h.unopened hopen).sameCounts

theorem LeavesOpen.of_unopened (hopen : ¬s.CanOpen nm) (hu : Unopened s s') : LeavesOpen nm s s' :=
  ⟨hu.table, fun h => absurd h hopen, fun _ => hu⟩

/-- A file that has been left open stays open while none is closed. -/
theorem LeavesOpen.mono {s'' : Sys} (h : LeavesOpen nm s s') (hopen : s.CanOpen nm)
    (h' : OpensOnly s' s'') : LeavesOpen nm s s'' :=
  ⟨(h' h.table).1, fun _ => (h.opened hopen).trans_le ((h' h.table).2 nm), absurd hopen⟩

/-- What does not close files leaves a file open that has been opened. -/
theorem OneOpener.leavesOpen {α : Type} {x : M α} {f : FilePtr} (ho : OneOpener s s' nm f)
    (hopen : s.CanOpen nm) (hx : Preserves x OpensOnly) :
    Runs False x s' fun _ _ s'' => LeavesOpen nm s s'' :=
  (hx s').mono fun _ _ _ h => ⟨(h ho.table).1, fun _ => ho.lt h, absurd hopen⟩

namespace RelCatalog

theorem runs_getInfo (ht : OpenTable s) (hrel : relation ≠ []) (record : RelDesc) :
    Runs False (getInfo fuel relation record) s fun r _ s' => LeavesOpen RELCATNAME s s' ∧
      (¬s.CanOpen RELCATNAME → r.1 ≠ .OK) := by
  unfold getInfo
  rw [if_neg hrel]
  refine ht.scan_new_bind (fun q s₁ hopen ho => ?_) fun st q s₁ hopen hst _ hu => ?_
  · refine (ho.leavesOpen hopen (KeepsFiles.opensOnly ?_)).mono fun _ _ _ h => ⟨h, absurd hopen⟩
    refine .ite .pure (.ite .pure ((KeepsFiles.scanNext fuel _).bind fun r => .ite ?_ ?_))
    · refine (KeepsFiles.getRecord _).bind fun r => .ite .pure ?_
      refine (KeepsFiles.copyRecord _ _ _).bind fun b => (KeepsFiles.ofOption _).bind fun d => ?_
      exact (KeepsFiles.endScan _).bind fun _ => .pure
    · exact (KeepsFiles.endScan _).bind fun _ => .pure
  · dsimp only
    rw [if_pos hst, runs_pure]
    exact ⟨.of_unopened hopen hu, fun _ => hst⟩

theorem runs_removeInfo (ht : OpenTable s) (hrel : relation ≠ []) (status ret : Status) :
    Runs False (removeInfo fuel status ret relation) s fun _ _ s' =>
      LeavesOpen RELCATNAME s s' := by
  unfold removeInfo
  rw [if_neg hrel]
  refine ht.scan_new_bind (fun q s₁ hopen ho => ?_) fun st q s₁ hopen _ hq hu => ?_
  · refine ho.leavesOpen hopen (KeepsFiles.opensOnly ?_)
    refine .ite .pure (.ite .pure ((KeepsFiles.scanNext fuel _).bind fun r => ?_))
    exact KeepsFiles.relRemoveLoop _ _ _ _ _
  · -- the status tested is not the one of the constructor
    refine Runs.ite (fun _ => runs_pure.mpr (.of_unopened hopen hu)) fun _ => ?_
    have hq' := HeapFileScan.startScan_toHeapFile q 0 (cSize relation) .STRING
      (some (cStr relation)) .EQ
    generalize q.startScan 0 (cSize relation) .STRING (some (cStr relation)) .EQ = r at hq' ⊢
    obtain ⟨st', q'⟩ := r
    replace hq' : q'.toHeapFile = HeapFile.uninit := hq'.trans hq
    refine Runs.ite (fun _ => runs_pure.mpr (.of_unopened hopen hu)) fun _ => ?_
    refine Runs.bind_of_false ⟨fun r e s' hy => ?_, nofun⟩
    refine HeapFileScan.not_scanNext_of_wild ?_ ?_ hy <;> rw [hq']
    · rfl
    · exact le_refl 0

end RelCatalog

namespace AttrCatalog

theorem runs_getInfo (ht : OpenTable s) (hrel : relation ≠ []) (hattr : attrName ≠ [])
    (record : AttrDesc) :
    Runs False (getInfo fuel relation attrName record) s fun _ _ s' =>
      LeavesOpen ATTRCATNAME s s' := by
  unfold getInfo
  rw [if_neg (not_or.mpr ⟨hrel, hattr⟩)]
  refine ht.scan_new_bind (fun q s₁ hopen ho => ?_) fun st q s₁ hopen hst _ hu => ?_
  · refine ho.leavesOpen hopen (KeepsFiles.opensOnly ?_)
    refine .ite .pure (.ite .pure ((KeepsFiles.scanNext fuel _).bind fun r => ?_))
    refine (KeepsFiles.getLoop _ _ _ _ _).bind fun r => ?_
    obtain ⟨early, st, q', record'⟩ := r
    cases early with
    | some st' => exact .pure
    | none => exact .ite ((KeepsFiles.endScan _).bind fun _ => .pure) .pure
  · dsimp only
    rw [if_pos hst, runs_pure]
    exact .of_unopened hopen hu

theorem runs_removeInfo (ht : OpenTable s) (hrel : relation ≠ []) (hattr : attrName ≠ [])
    (junk : AttrDesc) :
    Runs False (removeInfo fuel junk relation attrName) s fun _ _ s' =>
      LeavesOpen ATTRCATNAME s s' := by
  unfold removeInfo
  rw [if_neg (not_or.mpr ⟨hrel, hattr⟩)]
  refine ht.scan_new_bind (fun q s₁ hopen ho => ?_) fun st q s₁ hopen hst _ hu => ?_
  · refine ho.leavesOpen hopen (KeepsFiles.opensOnly ?_)
    refine .ite .pure (.ite .pure ((KeepsFiles.scanNext fuel _).bind fun r => .ite ?_ ?_))
    · refine (KeepsFiles.attrRemoveLoop _ _ _ _).bind fun early => ?_
      cases early with
      | some st' => exact .pure
      | none =>
        exact (KeepsFiles.deleteRecord _).bind fun r => (KeepsFiles.endScan _).bind fun _ => .pure
    · exact (KeepsFiles.endScan _).bind fun _ => .pure
  · dsimp only
    rw [if_pos hst, runs_pure]
    exact .of_unopened hopen hu

theorem runs_getRelInfo (ht : OpenTable s) (hrel : relation ≠ []) (junk : RelDesc)
    (junkAttr : AttrDesc) (attrCnt : Int) (attrs : List AttrDesc) :
    Runs False (getRelInfo fuel junk junkAttr relation attrCnt attrs) s fun _ _ s' =>
      LeavesOpen RELCATNAME s s' := by
  unfold getRelInfo
  rw [if_neg hrel]
  refine (RelCatalog.runs_getInfo ht hrel junk).bind ?_
  rintro ⟨st, descriptor⟩ e s₁ ⟨hleaves, hbad⟩
  refine Runs.ite (fun _ => runs_pure.mpr hleaves) fun hok => ?_
  have hopen : s.CanOpen RELCATNAME := not_not.mp fun hn => hok (hbad hn)
  refine Runs.mono (P := fun _ _ s' => OpensOnly s₁ s') ?_ fun _ _ _ h => hleaves.mono hopen h
  refine Preserves.ite KeepsFiles.failure.opensOnly ?_ s₁
  refine OpensOnly.preserves_bind (preserves_scan_new _) fun r => KeepsFiles.opensOnly ?_
  refine .ite .pure (.ite .pure ((KeepsFiles.scanNext fuel _).bind fun r => ?_))
  exact (KeepsFiles.relInfoLoop _ _ _ _ _ _).bind fun r => .pure

theorem preserves_dropAttrs (got : Status) :
    Preserves (dropAttrs fuel got relation) OpensOnly := by
  refine OpensOnly.preserves_bind (preserves_scan_new _) fun r => KeepsFiles.opensOnly ?_
  refine .ite .pure (.ite .pure ((KeepsFiles.scanNext fuel _).bind fun r => ?_))
  refine (KeepsFiles.dropLoop _ _ _ _ _).bind fun r => .ite .pure ?_
  exact (KeepsFiles.endScan _).bind fun r => .pure

theorem runs_dropRelation (ht : OpenTable s) (hrel : relation ≠ []) (got ended : Status) :
    Runs False (dropRelation fuel got ended relation) s fun _ _ s' =>
      LeavesOpen RELCATNAME s s' := by
  unfold dropRelation
  rw [if_neg hrel]
  refine ht.scan_new_bind (fun q s₁ hopen ho => ?_) fun st q s₁ hopen hst _ hu => ?_
  · refine ho.leavesOpen hopen ?_
    have hpure {a : Status} : Preserves (pure a) OpensOnly := KeepsFiles.pure.opensOnly
    refine .ite hpure (.ite hpure ?_)
    refine OpensOnly.preserves_bind (KeepsFiles.scanNext fuel _).opensOnly fun r => ?_
    refine OpensOnly.preserves_bind (KeepsFiles.dropLoop _ _ _ _ _).opensOnly fun r => ?_
    refine .ite hpure (.ite hpure ?_)
    refine OpensOnly.preserves_bind (KeepsFiles.endScan _).opensOnly fun r => ?_
    exact .ite hpure (preserves_dropAttrs got)
  · dsimp only
    rw [if_pos hst, runs_pure]
    exact .of_unopened hopen hu

end AttrCatalog

end Lookups

/-! ## Adding tuples -/

section Insertion

variable {s s' : Sys} {P : Multiset Pin} {nm : FileName} {h : InsertFileScan} {rec : Record}

namespace InsertFileScan

/-- Without the file the constructor follows a header page that has not been set. -/
theorem runs_new (ht : OpenTable s) (nm : FileName) :
    Runs False (InsertFileScan.new nm) s fun r _ s' => OneOpener s s' nm r.2.filePtr := by
  unfold InsertFileScan.new
  refine (ht.runs_new nm).bind ?_
  rintro ⟨st, h⟩ e s₁ (⟨-, -, ho⟩ | ⟨-, -, hq, -⟩)
  · refine (KeepsFiles.derefPage _ s₁).bind fun blk _ s₂ h₂ => Runs.ite (fun _ => ?_) fun _ => ?_
    · refine (KeepsFiles.unPinPage _ _ _ s₂).bind fun _ _ s₃ h₃ => ?_
      refine (KeepsFiles.readPage _ _ _ s₃).bind fun _ _ s₄ h₄ => runs_pure.mpr ?_
      exact ho.sameTable (h₂.trans (h₃.trans h₄))
    · exact runs_pure.mpr (ho.sameTable h₂)
  · dsimp only at hq ⊢
    rw [hq]
    exact Runs.bind_of_false (Runs.failure id)

/-- The object has its pins if the constructor reports no error and the last page has been read. -/
theorem new_pins (hP : Pinned s.buf P) (hk : KnownPages s nm) :
    Runs False (InsertFileScan.new nm) s fun r _ s' => r.1 = .OK → r.2.curPage ≠ .wild →
      Owns s' P r.2 ∧ r.2.curPage ≠ .null := by
  unfold InsertFileScan.new
  refine Runs.bind (P := fun r e s₁ => Yields (HeapFile.new nm) s r e s₁ ∧ _)
    ⟨fun r e s₁ hy => ⟨hy, (new_cases hP hk.opened).1 r e s₁ hy⟩, nofun⟩ ?_
  rintro ⟨st, h⟩ e s₁ ⟨hy, hbad, hok⟩
  refine (runs_derefPage _ s₁).bind ?_
  rintro blk e₂ s₂ ⟨rfl, n, hn⟩
  dsimp only at hbad hok hn ⊢
  have hst : st = .OK := by
    by_contra hne
    rw [hbad hne] at hn
    cases hn
  subst hst
  have hsole := hk.read h e s₂ hy
  have hread : ∀ s₃ : Sys, Pinned s₃.buf (h.headerPin + P) →
      s₃.buf.Sole h.filePtr blk.asFileHdr.lastPage →
      Runs False (BufMgr.readPage h.filePtr blk.asFileHdr.lastPage h.curPage >>= fun r =>
        pure (r.1, ({ h with
          curPage := r.2, curPageNo := blk.asFileHdr.lastPage, curDirtyFlag := false } : HeapFile)))
        s₃ fun r _ s' => r.1 = .OK → r.2.curPage ≠ .wild →
          Owns s' P r.2 ∧ r.2.curPage ≠ .null := by
    intro s₃ hP₃ hsole₃
    refine (hP₃.readPage hsole₃ _).bind ?_
    rintro ⟨st₂, page⟩ e₄ s₄ hcase
    dsimp only at hcase ⊢
    rw [runs_pure]
    intro hst₂ _
    obtain ⟨-, -, m, rfl, hP₄⟩ | ⟨hbad₂, -⟩ := hcase
    · exact ⟨owns_frame ⟨n, hn⟩ rfl hP₄, nofun⟩
    · exact absurd hst₂ hbad₂
  rcases hok rfl with ⟨ho, hne, -⟩ | ⟨hwild, -, hP₂, hmiss⟩
  · refine Runs.ite (fun _ => ?_) fun _ => runs_pure.mpr fun _ _ => ⟨ho, hne⟩
    obtain ⟨s₃, hy₃, hP₃, hkeep⟩ := ho.unPin hne h.curDirtyFlag
    rw [runs_bind_of_yields hy₃]
    exact hread s₃ hP₃ (hkeep _ _ (hsole _))
  · refine Runs.ite (fun _ => ?_) fun _ => runs_pure.mpr fun _ hcur => absurd hwild hcur
    -- the first page is not in the pool, and cannot be given back
    rw [runs_bind_of_yields (yields_unPinPage_missing hmiss _)]
    exact hread s₂ hP₂ (hsole _)

/-- A record is not put on a page that has not been read. -/
theorem runs_insertRecord_wild (hwild : h.curPage = .wild) (hpos : 0 ≤ rec.length)
    (hlen : rec.length ≤ DATASIZE) :
    Runs False (insertRecord h rec) s fun _ _ _ => False := by
  unfold insertRecord insertCurrent
  rw [if_neg (by omega), hwild, if_neg nofun]
  exact Runs.bind_of_false (Runs.failure id)

theorem runs_insertCurrent_filePtr :
    Runs False (insertCurrent h rec) s fun r _ _ => r.2.2.filePtr = h.filePtr := by
  have hmodify {α : Type} {x : M α} {g : α → M Unit} {a : Status × RID × InsertFileScan}
      (ha : a.2.2.filePtr = h.filePtr) (s₁ : Sys) :
      Runs False (do let b ← x; g b; return a) s₁ fun r _ _ => r.2.2.filePtr = h.filePtr :=
    .bind_forall fun _ _ => .bind_forall fun _ _ => runs_pure.mpr ha
  refine .bind_forall fun _ _ => .bind_forall fun _ s₁ => .ite (fun _ => hmodify rfl s₁) fun _ => ?_
  -- a page is added to the file
  refine .bind_forall fun _ _ => .ite (fun _ => runs_pure.mpr rfl) fun _ => ?_
  refine .bind_forall fun _ _ => .bind_forall fun _ _ => .bind_forall fun _ _ => ?_
  refine .bind_forall fun _ _ => .bind_forall fun _ _ => .bind_forall fun _ _ => ?_
  refine .ite (fun _ => .bind_forall fun _ _ => runs_pure.mpr rfl) fun _ => ?_
  refine .bind_forall fun _ _ => .bind_forall fun _ s₂ => ?_
  exact .ite (fun _ => hmodify rfl s₂) fun _ => runs_pure.mpr rfl

/-- The object stays on its file. -/
theorem runs_insertRecord_filePtr :
    Runs False (insertRecord h rec) s fun r _ _ => r.2.2.filePtr = h.filePtr := by
  refine .ite (fun _ => runs_pure.mpr rfl) fun _ => .ite (fun _ => ?_) fun _ =>
    runs_insertCurrent_filePtr
  refine .bind_forall fun _ _ => .bind_forall fun _ _ => ?_
  exact .ite (fun _ => runs_pure.mpr rfl) fun _ => runs_insertCurrent_filePtr

/-- The destructor closes the file. -/
theorem runs_delete (ho : OneOpener s s' nm h.filePtr) :
    Runs False (InsertFileScan.delete h) s' fun _ _ s'' => OpenTable s'' ∧
      ∀ nm', s''.openCnt nm' = s.openCnt nm' := by
  have hheader : ∀ s₁ : Sys, OneOpener s s₁ nm h.filePtr → ∀ h' : HeapFile,
      h'.filePtr = h.filePtr → Runs False (HeapFile.deleteHeader h') s₁ fun _ _ s'' =>
        OpenTable s'' ∧ ∀ nm', s''.openCnt nm' = s.openCnt nm' := by
    intro s₁ ho₁ h' hh'
    unfold HeapFile.deleteHeader
    refine (KeepsFiles.unPinPage _ _ _ s₁).bind fun _ _ s₂ h₂ => ?_
    rw [hh']
    refine Runs.bind ⟨(ho₁.sameTable h₂).closeFile.1, nofun⟩ fun _ _ s₃ h₃ => ?_
    exact runs_pure.mpr h₃
  unfold InsertFileScan.delete HeapFile.delete
  refine Runs.ite (fun _ => ?_) fun hnull => ?_
  · refine (KeepsFiles.unPinPage _ _ _ s').bind fun _ _ s₁ h₁ => ?_
    rw [if_neg fun hne => hne rfl]
    exact hheader s₁ (ho.sameTable h₁) _ rfl
  · rw [if_neg hnull]
    exact hheader s' ho h rfl

end InsertFileScan

/-- Adding a tuple gives the counts back if the constructor reports no error. Otherwise the file is
left open. -/
theorem HeapFile.runs_addTuple (rec : Record) (hP : Pinned s.buf P) (ht : OpenTable s)
    (hk : KnownPages s nm) (hpos : 0 ≤ rec.length) (hlen : rec.length ≤ DATASIZE) :
    Runs False (addTuple nm rec) s fun _ _ s' =>
      (CatalogOp.Adds s nm → Pinned s'.buf P ∧ OpenTable s' ∧ SameCounts s s') ∧
        (¬CatalogOp.Adds s nm → ¬SameCounts s s') := by
  unfold addTuple
  refine Runs.bind (P := fun r e s₁ => Yields (InsertFileScan.new nm) s r e s₁ ∧
      OneOpener s s₁ nm r.2.filePtr ∧ (r.1 = .OK → r.2.curPage ≠ .wild →
        Owns s₁ P r.2 ∧ r.2.curPage ≠ .null))
    ⟨fun r e s₁ hy => ⟨hy, (InsertFileScan.runs_new ht nm).1 r e s₁ hy,
      (InsertFileScan.new_pins hP hk).1 r e s₁ hy⟩, nofun⟩ ?_
  rintro ⟨st, h⟩ e s₁ ⟨hy, ho, howns⟩
  dsimp only at ho howns ⊢
  refine Runs.ite (fun hne => runs_pure.mpr ⟨?_, fun _ hsame => ?_⟩) fun heq => ?_
  · rintro ⟨h', e', s₁', hy'⟩
    exact absurd (congrArg Prod.fst (hy'.unique hy).1) hne
  · have := ho.openCnt
    rw [hsame.openCnt nm] at this
    omega
  have hst : st = .OK := not_not.mp heq
  subst hst
  have hadds : CatalogOp.Adds s nm := ⟨h, e, s₁, hy⟩
  by_cases hwild : h.curPage = .wild
  · exact Runs.bind_of_false (InsertFileScan.runs_insertRecord_wild hwild hpos hlen)
  obtain ⟨ho₁, hne⟩ := howns rfl hwild
  refine ((InsertFileScan.insertRecord_owns ho₁ hne (hk.allocated h e s₁ hy)).and
    ((KeepsFiles.insertRecord h rec s₁).and InsertFileScan.runs_insertRecord_filePtr)).bind ?_
  rintro ⟨st, rid, h'⟩ e₂ s₂ ⟨⟨ho₂, -⟩, hsame, hfile⟩
  dsimp only at ho₂ hfile ⊢
  have hopener : OneOpener s s₂ nm h'.filePtr := hfile ▸ ho.sameTable hsame
  refine ((InsertFileScan.delete_owns ho₂).and (InsertFileScan.runs_delete hopener)).bind ?_
  rintro _ e₃ s₃ ⟨hP₃, ht₃, hcnt⟩
  refine runs_pure.mpr ⟨fun _ => ⟨hP₃, ht₃, fun file p => ?_, hcnt⟩, fun hn => absurd hadds hn⟩
  rw [hP₃.pinCnt_eq, hP.pinCnt_eq]

end Insertion

/-! ## States in which nothing has failed -/

section Coherent

variable {s s' : Sys} {P : Multiset Pin} {v : View} {nm : FileName} {f : FilePtr} {c : Int}
  {fv : FileView} {H : Heap}

/-- The page that a file hands out next is in no frame. -/
theorem Coh.not_allocClash (hc : Coh s P v) (hh : v.handle nm = some (f, c))
    (hf : v.file nm = some fv) : ¬AllocClash s f := by
  rintro ⟨p, e, s₁, n, hy, hn⟩
  obtain ⟨uf, huf, hst, -⟩ := hc.stored nm fv hf
  obtain ⟨p', uf', hy', hnew, -⟩ := File.allocatePage_spec hc.io (hc.opened nm f c hh).obj huf hst
  obtain ⟨hp, -, -⟩ := hy'.unique hy
  obtain ⟨nm', c', fv', hh', hf', halloc⟩ := hc.cached f p n (hc.sound.sole f p n hn)
  obtain rfl := hc.name_unique hh' hh
  rw [hf] at hf'
  cases hf'
  cases hp
  exact hnew halloc

/-- With two free frames a tuple can be added to a heap file, and the pool knows its pages. -/
theorem Coh.adds (hc : Coh s P v) (hH : IsHeap v nm fv H) (hfree : 2 ≤ freeFrames v.numBufs P) :
    KnownPages s nm ∧ CatalogOp.Adds s nm := by
  obtain ⟨r, s₁, hy, f, n, m, rfl, -, hc₁⟩ :=
    (new_spec (T := True) hc hH.name hH.file hH.heapAt hH.opened fun _ => hfree).exists trivial
  obtain ⟨r', s₂, hy', f', n', m', rfl, -, hc₂⟩ :=
    (new_insert (T := True) hc hH.name hH.file hH.heapAt hH.opened fun _ => hfree).exists trivial
  refine ⟨⟨fun f _ _ _ p => hc.sound.sole f p, fun h e s₃ hnew p => ?_, fun h e s₃ hnew => ?_⟩,
    _, false, s₂, hy'⟩
  · obtain ⟨-, -, rfl⟩ := hy.unique hnew
    exact hc₁.sound.sole _ p
  · obtain ⟨hr, -, rfl⟩ := hy'.unique hnew
    cases hr
    exact hc₂.not_allocClash View.handle_setHandle_self hH.file

/-- A heap file can be opened. -/
theorem Coh.canOpen (hc : Coh s P v) (hH : IsHeap v nm fv H) : s.CanOpen nm := by
  obtain ⟨uf, huf, -⟩ := hc.stored nm fv hH.file
  refine ⟨hH.name, Or.inr ⟨?_, ?_⟩⟩
  · rw [hc.io]
  · rw [huf]
    rfl

end Coherent

/-! ## Runs -/

section Run

variable {s s' s₀ : Sys} {P : Multiset Pin} {op : CatalogOp} {nm : FileName}

/-- What one operation does. -/
structure CatalogOp.Neutral (s s' : Sys) (P : Multiset Pin) (op : CatalogOp) : Prop where
  kept : op.Releases s → Pinned s'.buf P ∧ OpenTable s'
  sameCounts_iff : SameCounts s s' ↔ op.Releases s

namespace CatalogOp

theorem Neutral.refl (hP : Pinned s.buf P) (ht : OpenTable s) (hr : op.Releases s) :
    Neutral s s P op :=
  ⟨fun _ => ⟨hP, ht⟩, iff_of_true ⟨fun _ _ => rfl, fun _ => rfl⟩ hr⟩

/-- An operation that leaves the file open that it opens. -/
theorem Neutral.of_leavesOpen (hP : Pinned s.buf P) (h : LeavesOpen nm s s')
    (hr : op.Releases s ↔ ¬s.CanOpen nm) : Neutral s s' P op := by
  refine ⟨fun hrel => ⟨?_, h.table⟩, h.sameCounts_iff.trans hr.symm⟩
  rw [(h.unopened (hr.mp hrel)).buf]
  exact hP

theorem Neutral.of_addTuple (hP : Pinned s.buf P) (ht : OpenTable s) (hk : KnownPages s nm)
    {b : Bytes} {n : Int} (hpos : 0 ≤ n) (hlen : n ≤ DATASIZE) (hr : op.Releases s ↔ Adds s nm)
    {r : Status} {e : Bool} (hy : Yields (addTuple nm ⟨b, n⟩) s r e s') : Neutral s s' P op := by
  obtain ⟨hadds, hnot⟩ := (runs_addTuple ⟨b, n⟩ hP ht hk hpos hlen).1 r e s' hy
  refine ⟨fun hrel => ⟨(hadds (hr.mp hrel)).1, (hadds (hr.mp hrel)).2.1⟩, fun hsame => ?_,
    fun hrel => (hadds (hr.mp hrel)).2.2⟩
  by_contra hn
  exact hnot (fun h => hn (hr.mpr h)) hsame

/-- One operation, with any arguments and whatever it returns. -/
theorem Step.neutral (hstep : op.Step s s') (hP : Pinned s.buf P) (ht : OpenTable s)
    (hk : op.Known s) : Neutral s s' P op := by
  -- an empty name is refused at once
  have hempty {α : Type} {c : Prop} [Decidable c] {x : M α} {a r : α} {e : Bool} (hc : c)
      (hr : op.Releases s) (hy : Yields (if c then pure a else x) s r e s') :
      Neutral s s' P op := by
    rw [if_pos hc] at hy
    obtain ⟨-, rfl, -⟩ := yields_pure.mp hy
    exact .refl hP ht hr
  cases op with
  | relGetInfo relation =>
    obtain ⟨fuel, record, r, e, hy⟩ := hstep
    by_cases hrel : relation = []
    · exact hempty hrel (Or.inl hrel) hy
    · exact .of_leavesOpen hP ((RelCatalog.runs_getInfo ht hrel record).1 r e s' hy).1
        (or_iff_right hrel)
  | relAddInfo record =>
    obtain ⟨r, e, hy⟩ := hstep
    exact .of_addTuple (n := 36) hP ht hk (by decide) (by decide) Iff.rfl hy
  | relRemoveInfo relation =>
    obtain ⟨fuel, status, ret, r, e, hy⟩ := hstep
    by_cases hrel : relation = []
    · exact hempty hrel (Or.inl hrel) hy
    · exact .of_leavesOpen hP ((RelCatalog.runs_removeInfo ht hrel status ret).1 r e s' hy)
        (or_iff_right hrel)
  | attrGetInfo relation attrName =>
    obtain ⟨fuel, record, r, e, hy⟩ := hstep
    by_cases hname : relation = [] ∨ attrName = []
    · exact hempty hname (or_assoc.mp (Or.inl hname)) hy
    · obtain ⟨hrel, hattr⟩ := not_or.mp hname
      exact .of_leavesOpen hP ((AttrCatalog.runs_getInfo ht hrel hattr record).1 r e s' hy)
        ((or_iff_right hrel).trans (or_iff_right hattr))
  | attrAddInfo record =>
    obtain ⟨r, e, hy⟩ := hstep
    exact .of_addTuple (n := 76) hP ht hk (by decide) (by decide) Iff.rfl hy
  | attrRemoveInfo relation attrName =>
    obtain ⟨fuel, junk, r, e, hy⟩ := hstep
    by_cases hname : relation = [] ∨ attrName = []
    · exact hempty hname (or_assoc.mp (Or.inl hname)) hy
    · obtain ⟨hrel, hattr⟩ := not_or.mp hname
      exact .of_leavesOpen hP ((AttrCatalog.runs_removeInfo ht hrel hattr junk).1 r e s' hy)
        ((or_iff_right hrel).trans (or_iff_right hattr))
  | getRelInfo relation =>
    obtain ⟨fuel, junk, junkAttr, attrCnt, attrs, r, e, hy⟩ := hstep
    by_cases hrel : relation = []
    · exact hempty hrel (Or.inl hrel) hy
    · exact .of_leavesOpen hP
        ((AttrCatalog.runs_getRelInfo ht hrel junk junkAttr attrCnt attrs).1 r e s' hy)
        (or_iff_right hrel)
  | dropRelation relation =>
    obtain ⟨fuel, got, ended, r, e, hy⟩ := hstep
    by_cases hrel : relation = []
    · exact hempty hrel (Or.inl hrel) hy
    · exact .of_leavesOpen hP ((AttrCatalog.runs_dropRelation ht hrel got ended).1 r e s' hy)
        (or_iff_right hrel)

end CatalogOp

/-- In a run of operations that open no file or destroy the scan they have constructed, every page
has as many pins and every file is open as often as at the start, and the pins in the pool are the
same. Any other operation changes a count. -/
theorem neutral_of_run (hP : Pinned s₀.buf P) (ht : OpenTable s₀) (hrun : ReleasingRun s₀ s) :
    SameCounts s₀ s ∧ Pinned s.buf P ∧ OpenTable s ∧
      ∀ (op : CatalogOp) (s' : Sys), op.Known s → op.Step s s' →
        (SameCounts s s' ↔ op.Releases s) := by
  have hinv : SameCounts s₀ s ∧ Pinned s.buf P ∧ OpenTable s := by
    induction hrun with
    | start => exact ⟨⟨fun _ _ => rfl, fun _ => rfl⟩, hP, ht⟩
    | step hrun hknown hreleases hstep ih =>
      obtain ⟨hsame, hP₁, ht₁⟩ := ih
      have hneutral := hstep.neutral hP₁ ht₁ hknown
      have hstep' := hneutral.sameCounts_iff.mpr hreleases
      refine ⟨⟨fun file p => ?_, fun nm => ?_⟩, hneutral.kept hreleases⟩
      · rw [hstep'.pinCnt, hsame.pinCnt]
      · rw [hstep'.openCnt, hsame.openCnt]
  refine ⟨hinv.1, hinv.2.1, hinv.2.2, fun op s' hk hstep => ?_⟩
  exact (hstep.neutral hinv.2.1 hinv.2.2 hk).sameCounts_iff

end Run

/-- A tuple is added and then looked up: the counts are the same after the first call only. -/
theorem neutral_of_run_added : ∃ s₀ s s', NewSession (fun _ => none) s₀ ∧
    Yields (RelCatalog.addInfo ⟨65 :: List.replicate 31 0, 1⟩) s₀ .OK false s ∧
    SameCounts s₀ s ∧ (CatalogOp.relGetInfo [65]).Step s s' ∧ ¬SameCounts s s' := by
  obtain ⟨s₀, h₀⟩ : ∃ s, NewSession (fun _ => none) s := exists_newSession rfl rfl
  obtain ⟨P, v, fv, H, fvA, HA, hd, -, -, hframes⟩ := h₀.database
  obtain ⟨d, hd'⟩ : ∃ d : RelDesc, ⟨65 :: List.replicate 31 0, 1⟩ = d := ⟨_, rfl⟩
  have hsized : d.Sized := hd' ▸ rfl
  have h0 : 0 ∈ d.relName := hd' ▸ (by decide)
  have hname : IsName [65] := ⟨by decide, by decide⟩
  obtain ⟨hknown, hadds⟩ := hd.coh.adds hd.catalogs.relcat (by omega)
  obtain ⟨st, s, hy, rfl, fv', H', hc, hH, htuples, -⟩ :=
    (addTuple_rows (T := True) hd.coh hd.catalogs.relcat hd.catalogs.relTuples (by decide)
      (RelDesc.length_bytes hsized) (RelDesc.named_bytes hsized h0) fun _ => by
      omega).exists trivial
  obtain ⟨r, s', hy', -⟩ := (RelCatalog.getInfo_spec (T := True) _ hc hH htuples hname
    (List.cons_ne_nil 65 []) RelDesc.sized_zero fun _ =>
      ⟨show 2 ≤ freeFrames v.numBufs P by omega, le_refl _⟩).exists trivial
  have hk : (CatalogOp.relAddInfo d).Known s₀ := hknown
  have hadd : (CatalogOp.relAddInfo d).Step s₀ s := ⟨.OK, false, hy⟩
  have hrun : ReleasingRun s₀ s := ReleasingRun.start.step hk hadds hadd
  obtain ⟨hsame, -, -, hnext⟩ := neutral_of_run hd.coh.pinned (hd.coh.openTable hd.opened) hrun
  have hlook : (CatalogOp.relGetInfo [65]).Step s s' := ⟨_, RelDesc.zero, r, false, hy'⟩
  refine ⟨s₀, s, s', h₀, ?_, hsame, hlook, fun hcounts => ?_⟩
  · rw [hd', RelCatalog.addInfo_eq]
    exact hy
  · rcases (hnext (.relGetInfo [65]) s' trivial hlook).mp hcounts with h | h
    · cases h
    · exact h (hc.canOpen hH)

/-- A relation is looked up in a new session, and `relcat` stays open once more. -/
theorem not_neutral_getInfo : ∃ s fuel r s', NewSession (fun _ => none) s ∧
    Yields (RelCatalog.getInfo fuel [65] RelDesc.zero) s r false s' ∧
    s.openCnt RELCATNAME < s'.openCnt RELCATNAME ∧ ¬SameCounts s s' := by
  obtain ⟨s, h₀⟩ : ∃ s, NewSession (fun _ => none) s := exists_newSession rfl rfl
  obtain ⟨P, v, fv, H, fvA, HA, hd, -, -, hframes⟩ := h₀.database
  have hne : ([65] : Bytes) ≠ [] := List.cons_ne_nil 65 []
  have hname : IsName [65] := ⟨by decide, by decide⟩
  obtain ⟨r, s', hy, -⟩ := (RelCatalog.getInfo_spec (T := True) _ hd.coh hd.catalogs.relcat
    hd.catalogs.relTuples hname hne RelDesc.sized_zero fun _ =>
      ⟨by omega, le_refl _⟩).exists trivial
  have hleaves :=
    ((RelCatalog.runs_getInfo (hd.coh.openTable hd.opened) hne RelDesc.zero).1 r false s' hy).1
  have hopen := hd.coh.canOpen hd.catalogs.relcat
  exact ⟨s, _, r, s', h₀, hy, hleaves.opened hopen,
    fun hsame => hleaves.sameCounts_iff.mp hsame hopen⟩

end Minirel
