import Minirel.HeapFile.Faults
import Minirel.DB.Counts

/-!
# Constructing heap-file objects

The constructor of `HeapFile` makes four calls that can fail: it opens the file, reads the number of
the header page off the disk, and pins the header page and the first data page. The failure of the
first call is reported. After that of any other the constructor carries on, and so do those of
`HeapFileScan` and `InsertFileScan`, which run it first.

## Main definitions

* `HeapFile.acquire`: the four calls, up to the first that fails.
* `HeapFile.Opened`: the object has the file open and its two pages pinned.
* `Reports`: a constructor reports what fails, and the destructor undoes what it has done.

## Main results

* `constructorsReport_iff`: the constructors do so exactly if none of the four calls fails.
-/

namespace Minirel

open Comp BufMgr

/-- The calls of the constructor of `HeapFile` that can fail, up to the first that does, and the
status of that one. -/
def HeapFile.acquire (fileName : FileName) : M Status := do
  let (status, filePtr) ← DB.openFile fileName
  if status ≠ .OK then return status else
  let (status, headerPageNo) ← File.getFirstPage filePtr
  if status ≠ .OK then return status else
  let (status, headerPage) ← BufMgr.readPage filePtr headerPageNo .wild
  if status ≠ .OK then return status else
  let hdr ← derefPage headerPage
  let (status, _) ← BufMgr.readPage filePtr hdr.asFileHdr.firstPage .wild
  return status

/-- The pointer is to the frame of the page, and the page is pinned. -/
def Sys.PinnedAt (s : Sys) (file : FilePtr) (p : Int) (n : Nat) (page : PagePtr) : Prop :=
  page = .frame n ∧ s.buf.hashTable.lookup file p = some n ∧ 0 < (s.buf.bufTable n).pinCnt

/-- The file is open, `headerPage` is the pinned header page of the file, and `curPage` the pinned
page `curPageNo`, a data page that the header names. The object was constructed in `s`. -/
structure HeapFile.Opened (s s' : Sys) (nm : FileName) (h : HeapFile) : Prop where
  file : s'.openFiles.find nm = some h.filePtr
  headerPageNo : ∃ uf, s.unix nm = some uf ∧ h.headerPageNo = uf.header.firstPage
  headerPage : ∃ n, s'.PinnedAt h.filePtr h.headerPageNo n h.headerPage ∧
    (h.curPageNo = (s'.buf.bufPool n).asFileHdr.firstPage ∨
      h.curPageNo = (s'.buf.bufPool n).asFileHdr.lastPage)
  curPage : ∃ n, s'.PinnedAt h.filePtr h.curPageNo n h.curPage

/-- There are as many pins on every page, and every file is open as often. -/
structure SameCounts (s s' : Sys) : Prop where
  pinCnt : ∀ file p, s'.pinCnt file p = s.pinCnt file p
  openCnt : ∀ nm, s'.openCnt nm = s.openCnt nm

/-- The constructor returns `OK` with an open object only, returns the status of the call that
fails, and the destructor undoes what it has done. What the members of an object are whose file
could not be opened is not known, for no constructor has set them. -/
def Reports {H : Type} (new : M (Status × H)) (toHeapFile : H → HeapFile) (delete : H → M Unit)
    (nm : FileName) (s : Sys) : Prop :=
  Runs True new s fun r _ s' =>
    (r.1 = .OK → HeapFile.Opened s s' nm (toHeapFile r.2)) ∧
    (∀ st e s₁, Yields (HeapFile.acquire nm) s st e s₁ → st ≠ .OK → r.1 = st) ∧
    ∀ h, ((∃ f e s₁, Yields (DB.openFile nm) s (.OK, f) e s₁) → h = r.2) →
      Runs True (delete h) s' fun _ _ s'' => SameCounts s s''

/-- The three constructors. -/
structure ConstructorsReport (nm : FileName) (s : Sys) : Prop where
  heapFile : Reports (HeapFile.new nm) id HeapFile.delete nm s
  heapFileScan : Reports (HeapFileScan.new nm) HeapFileScan.toHeapFile HeapFileScan.delete nm s
  insertFileScan : Reports (InsertFileScan.new nm) id InsertFileScan.delete nm s

/-- The pool is sound, the table of open files has the objects of open files, dirty pages are pages
of these, and the next address is free. -/
structure Ready (s : Sys) : Prop where
  sound : s.buf.Sound
  idle : s.buf.Idle
  table : OpenTable s
  dirty : DirtyOpen s
  fresh : s.files s.nextFile = none

/-! ## Closing the file again -/

/-- The file has one opener more, and nothing else about the open files is different. -/
structure OneOpener (s s' : Sys) (nm : FileName) (f : FilePtr) : Prop where
  table : OpenTable s'
  find : s'.openFiles.find nm = some f
  openCnt : s'.openCnt nm = s.openCnt nm + 1
  others : OthersSame nm s s'

/-- The same, where dirty pages are pages of open files. -/
structure OpenedOnce (s s' : Sys) (nm : FileName) (f : FilePtr) : Prop
    extends OneOpener s s' nm f where
  dirty : DirtyOpen s'

section Construct

variable {s s' s'' : Sys} {P : Multiset Pin} {nm : FileName} {f : FilePtr} {h : HeapFile}

theorem OneOpener.sameTable (ho : OneOpener s s' nm f) (hs : SameTable s' s'') :
    OneOpener s s'' nm f where
  table := hs.openTable ho.table
  find := hs.openFiles ▸ ho.find
  openCnt := (hs.openCnt nm).trans ho.openCnt
  others nm' hne := by
    obtain ⟨h₁, h₂⟩ := ho.others nm' hne
    exact ⟨by rw [hs.openFiles, h₁], by rw [hs.openCnt, h₂]⟩

/-- Closing the file gives the open counts back. -/
theorem OneOpener.closeFile (ho : OneOpener s s' nm f) :
    Runs True (DB.closeFile f) s' fun _ _ s'' => OpenTable s'' ∧
      ∀ nm', s''.openCnt nm' = s.openCnt nm' := by
  refine (ho.table.closeFile ho.find).mono ?_
  rintro st e s'' ⟨htable, hothers, hcnt⟩
  refine ⟨htable, fun nm' => ?_⟩
  by_cases hne : nm' = nm
  · have := ho.openCnt
    rw [hne]
    omega
  · rw [(hothers nm' hne).2, (ho.others nm' hne).2]

namespace OpenedOnce

theorem sameTable (ho : OpenedOnce s s' nm f) (hs : SameTable s' s'') (hd : DirtyOpen s'') :
    OpenedOnce s s'' nm f :=
  ⟨ho.toOneOpener.sameTable hs, hd⟩

/-- Closing the file and having the same pins gives the counts back. -/
theorem closeFile (ho : OpenedOnce s s' nm f) (hP : Pinned s.buf P) (hP' : Pinned s'.buf P) :
    Runs True (DB.closeFile f) s' fun _ _ s'' => SameCounts s s'' := by
  refine (ho.toOneOpener.closeFile.and (hP'.closeFile f)).mono ?_
  rintro st e s'' ⟨⟨-, hcnt⟩, hP''⟩
  exact ⟨fun file p => by rw [hP''.pinCnt_eq, hP.pinCnt_eq], hcnt⟩

/-- A pin on a page of the file is given back. -/
theorem unPinPage {x : Pin} (ho : OpenedOnce s s' nm x.file) (hP : Pinned s'.buf (x ::ₘ P))
    (dirty : Bool) :
    ∃ s'', Yields (BufMgr.unPinPage x.file x.pageNo dirty) s' .OK false s'' ∧
      OpenedOnce s s'' nm x.file ∧ Pinned s''.buf P ∧ s''.buf.bufPool = s'.buf.bufPool ∧
      ∀ file p, s'.buf.Sole file p → s''.buf.Sole file p := by
  obtain ⟨s'', hy, hP'', hsole⟩ := hP.unPinPage dirty
  obtain ⟨hsame, hd, hpool⟩ :=
    (runs_unPinPage_sameTable ho.dirty hP ho.find x.pageNo dirty).1 _ _ _ hy
  exact ⟨s'', hy, ho.sameTable hsame hd, hP'', hpool, hsole⟩

theorem deleteHeader (ho : OpenedOnce s s' nm h.filePtr) (hP : Pinned s.buf P)
    (hhdr : ∃ n, h.headerPage = .frame n) (hP' : Pinned s'.buf (h.headerPin + P)) :
    Runs True (HeapFile.deleteHeader h) s' fun _ _ s'' => SameCounts s s'' := by
  obtain ⟨n, hn⟩ := hhdr
  have hheader : h.headerPin + P = ⟨h.filePtr, h.headerPageNo, n, false⟩ ::ₘ P := by
    unfold HeapFile.headerPin
    rw [hn]
    exact Multiset.singleton_add _ _
  rw [hheader] at hP'
  obtain ⟨s₁, hy, ho₁, hP₁, -⟩ := unPinPage (x := ⟨h.filePtr, h.headerPageNo, n, false⟩) ho hP'
    h.hdrDirtyFlag
  unfold HeapFile.deleteHeader
  rw [runs_bind_of_yields hy]
  refine (ho₁.closeFile hP hP₁).bind ?_
  intro _ _ s₂ hsame
  exact runs_pure.mpr hsame

/-- An object without a data page is destroyed. -/
theorem delete_null (ho : OpenedOnce s s' nm h.filePtr) (hP : Pinned s.buf P)
    (hhdr : ∃ n, h.headerPage = .frame n) (hP' : Pinned s'.buf (h.headerPin + P))
    (hnull : h.curPage = .null) :
    Runs True (HeapFile.delete h) s' fun _ _ s'' => SameCounts s s'' := by
  unfold HeapFile.delete
  rw [if_neg fun hne => hne hnull]
  exact ho.deleteHeader hP hhdr hP'

/-- The data page of an object is given back. -/
theorem unPin (ho : OpenedOnce s s' nm h.filePtr) (howns : HeapFile.Owns s' P h)
    (hne : h.curPage ≠ .null) (dirty : Bool) :
    ∃ s'', Yields (BufMgr.unPinPage h.filePtr h.curPageNo dirty) s' .OK false s'' ∧
      OpenedOnce s s'' nm h.filePtr ∧ Pinned s''.buf (h.headerPin + P) ∧
      s''.buf.bufPool = s'.buf.bufPool ∧ ∀ file p, s'.buf.Sole file p → s''.buf.Sole file p := by
  obtain ⟨n, hcur⟩ := howns.formed.frame hne
  exact unPinPage (x := ⟨h.filePtr, h.curPageNo, n, false⟩) ho (howns.pinned_frame hcur) dirty

theorem delete (ho : OpenedOnce s s' nm h.filePtr) (hP : Pinned s.buf P)
    (howns : HeapFile.Owns s' P h) (hne : h.curPage ≠ .null) :
    Runs True (HeapFile.delete h) s' fun _ _ s'' => SameCounts s s'' := by
  obtain ⟨s₁, hy, ho₁, hP₁, -⟩ := ho.unPin howns hne h.curDirtyFlag
  unfold HeapFile.delete
  rw [if_pos hne, runs_bind_of_yields hy]
  exact ho₁.deleteHeader hP howns.formed.headerPage hP₁

theorem delete_scan {q : HeapFileScan} (ho : OpenedOnce s s' nm q.filePtr) (hP : Pinned s.buf P)
    (howns : HeapFile.Owns s' P q.toHeapFile) (hne : q.curPage ≠ .null) :
    Runs True (HeapFileScan.delete q) s' fun _ _ s'' => SameCounts s s'' := by
  obtain ⟨s₁, hy, ho₁, hP₁, -⟩ := ho.unPin howns hne q.curDirtyFlag
  unfold HeapFileScan.delete HeapFileScan.endScan
  rw [if_pos hne, bind_assoc, runs_bind_of_yields hy, runs_pure_bind]
  exact delete_null
    (h := { q.toHeapFile with curPage := .null, curPageNo := 0, curDirtyFlag := false }) ho₁ hP
    howns.formed.headerPage hP₁ rfl

theorem delete_insert (ho : OpenedOnce s s' nm h.filePtr) (hP : Pinned s.buf P)
    (howns : HeapFile.Owns s' P h) (hne : h.curPage ≠ .null) :
    Runs True (InsertFileScan.delete h) s' fun _ _ s'' => SameCounts s s'' := by
  obtain ⟨s₁, hy, ho₁, hP₁, -⟩ := ho.unPin howns hne true
  unfold InsertFileScan.delete
  rw [if_pos hne, runs_bind_of_yields hy]
  exact delete_null (h := { h with curPage := .null, curPageNo := 0 }) ho₁ hP
    howns.formed.headerPage hP₁ rfl

end OpenedOnce

/-- Destroying an object whose `filePtr` leads nowhere. -/
theorem HeapFile.runs_delete_dangling (hne : h.filePtr ≠ 0) (hnone : s.files h.filePtr = none) :
    Runs False (HeapFile.delete h) s fun _ _ _ => False := by
  have hclose : ∀ s' : Sys, s'.files h.filePtr = none →
      Runs False (DB.closeFile h.filePtr) s' fun _ _ _ => False := by
    intro s' hs'
    unfold DB.closeFile File.close
    rw [if_neg hne, bind_assoc]
    refine Runs.fileAt_bind (fun hfalse => hfalse.elim) fun fo hfo => ?_
    rw [hs'] at hfo
    cases hfo
  have hkeep : ∀ p dirty s', s'.files h.filePtr = none →
      Runs False (BufMgr.unPinPage h.filePtr p dirty) s' fun _ _ s'' =>
      s''.files h.filePtr = none := by
    intro p dirty s' hs'
    unfold BufMgr.unPinPage
    rw [runs_get_bind]
    split
    next => exact runs_pure.mpr hs'
    next =>
      refine Runs.ite (fun _ => ?_) fun _ => ?_
      · rw [runs_modifyBuf_bind, runs_pure]
        exact hs'
      · rw [runs_modifyBuf_bind, runs_pure]
        exact hs'
  have hheader : ∀ s' : Sys, s'.files h.filePtr = none →
      Runs False (HeapFile.deleteHeader h) s' fun _ _ _ => False := by
    intro s' hs'
    unfold HeapFile.deleteHeader
    refine (hkeep _ _ s' hs').bind fun _ _ s₁ hs₁ => ?_
    exact Runs.bind_of_false (hclose s₁ hs₁)
  unfold HeapFile.delete
  refine Runs.ite (fun _ => ?_) fun _ => hheader s hnone
  exact (hkeep _ _ s hnone).bind fun _ _ s₁ hs₁ => hheader s₁ hs₁

/-! ## The constructors -/

/-- What the constructor of `HeapFile` has done if its calls succeed. -/
structure Acquired (s s' : Sys) (P : Multiset Pin) (nm : FileName) (h : HeapFile) : Prop where
  opened : OpenedOnce s s' nm h.filePtr
  owns : HeapFile.Owns s' P h
  curPage : h.curPage ≠ .null
  sole : ∀ file p, s'.buf.Sole file p
  headerPageNo : ∃ uf, s.unix nm = some uf ∧ h.headerPageNo = uf.header.firstPage
  curPageNo : ∃ n, h.headerPage = .frame n ∧
    (h.curPageNo = (s'.buf.bufPool n).asFileHdr.firstPage ∨
      h.curPageNo = (s'.buf.bufPool n).asFileHdr.lastPage)

/-- A pin on a page and a pointer to its frame. -/
theorem Pinned.pinnedAt {x : Pin} (hP : Pinned s.buf P) (hx : x ∈ P) :
    s.PinnedAt x.file x.pageNo x.frame (.frame x.frame) :=
  ⟨rfl, hP.mapped x hx, hP.pos hx⟩

theorem Acquired.isOpened (ha : Acquired s s' P nm h) : HeapFile.Opened s s' nm h where
  file := ha.opened.find
  headerPageNo := ha.headerPageNo
  headerPage := by
    obtain ⟨n, hn, hno⟩ := ha.curPageNo
    refine ⟨n, ?_, hno⟩
    rw [hn]
    refine Pinned.pinnedAt (x := ⟨h.filePtr, h.headerPageNo, n, false⟩) ha.owns.pinned ?_
    refine Multiset.mem_add.mpr (Or.inl (Multiset.mem_add.mpr (Or.inr ?_)))
    unfold HeapFile.headerPin
    rw [hn]
    exact Multiset.mem_singleton_self _
  curPage := by
    obtain ⟨n, hn⟩ := ha.owns.formed.frame ha.curPage
    refine ⟨n, ?_⟩
    rw [hn]
    exact Pinned.pinnedAt (x := ⟨h.filePtr, h.curPageNo, n, false⟩) (ha.owns.pinned_frame hn)
      (Multiset.mem_cons_self _ _)

/-- The number of the header page is read off the disk. -/
theorem File.getFirstPage_unix (hf : s.openFiles.find nm = some f) (ht : OpenTable s) :
    Runs False (File.getFirstPage f) s fun r _ s' => SameTable s s' ∧ s'.buf = s.buf ∧
      (r.1 = .OK → ∃ uf, s.unix nm = some uf ∧ r.2 = uf.header.firstPage) := by
  obtain ⟨-, -, c, -, hobj⟩ := ht.entry nm f hf
  unfold File.getFirstPage File.intread
  rw [bind_assoc, runs_bind_of_yields (yields_fileAt hobj), bind_assoc, runs_unixCall_bind,
    bind_assoc, runs_get_bind]
  dsimp only
  split
  next =>
    split
    next b hb =>
      rw [runs_pure_bind, runs_pure]
      refine ⟨⟨rfl, rfl, rfl⟩, rfl, fun _ => ?_⟩
      obtain ⟨uf, huf, hpage⟩ := Option.bind_eq_some_iff.mp hb
      refine ⟨uf, huf, ?_⟩
      unfold UnixFile.page? at hpage
      split at hpage
      next =>
        cases hpage
        rfl
      next => cases hpage
    next =>
      rw [runs_pure_bind, runs_pure]
      exact ⟨⟨rfl, rfl, rfl⟩, rfl, nofun⟩
  next =>
    rw [runs_pure_bind, runs_pure]
    exact ⟨⟨rfl, rfl, rfl⟩, rfl, nofun⟩

/-- What is known when the file has been opened. -/
theorem Ready.openFile (hr : Ready s) {e : Bool} (hy : Yields (DB.openFile nm) s (.OK, f) e s') :
    OpenedOnce s s' nm f ∧ s'.buf = s.buf ∧ s'.unix = s.unix := by
  obtain ⟨-, hunix, hbuf, htable, hothers, -, hok, -, hkept, -⟩ := (hr.table.openFile nm).1 _ _ _ hy
  obtain ⟨hfind, hcnt⟩ := hok rfl
  refine ⟨⟨⟨htable, hfind, hcnt, hothers⟩, ?_⟩, hbuf, hunix⟩
  refine hr.dirty.mono (by rw [hbuf]) (fun n hn => ?_) fun nm' g hg => ?_
  · rw [hbuf] at hn ⊢
    exact ⟨hn, rfl⟩
  · by_cases hne : nm' = nm
    · subst hne
      exact hkept g hg
    · rw [(hothers nm' hne).1]
      exact hg

namespace OpenedOnce

theorem getFirstPage (ho : OpenedOnce s s' nm f) :
    Runs False (File.getFirstPage f) s' fun r _ s'' => OpenedOnce s s'' nm f ∧ s''.buf = s'.buf ∧
      (r.1 = .OK → ∃ uf, s'.unix nm = some uf ∧ r.2 = uf.header.firstPage) := by
  refine (File.getFirstPage_unix ho.find ho.table).mono ?_
  rintro r e s'' ⟨hsame, hbuf, hok⟩
  refine ⟨ho.sameTable hsame ?_, hbuf, hok⟩
  refine ho.dirty.mono (by rw [hbuf]) (fun n hn => ?_) fun nm' g hg => hsame.openFiles ▸ hg
  rw [hbuf] at hn ⊢
  exact ⟨hn, rfl⟩

/-- A page of the file is pinned, or it is not in the pool. -/
theorem readPage (ho : OpenedOnce s s' nm f) (hP : Pinned s'.buf P)
    (hsole : ∀ file p, s'.buf.Sole file p) (p : Int) (page : PagePtr) :
    Runs True (BufMgr.readPage f p page) s' fun r _ s'' => OpenedOnce s s'' nm f ∧
      (∀ x ∈ P, s''.buf.bufPool x.frame = s'.buf.bufPool x.frame) ∧
      (r.1 = .OK ∧ (∀ file p, s''.buf.Sole file p) ∧
          (∃ n, r.2 = .frame n ∧ Pinned s''.buf (⟨f, p, n, false⟩ ::ₘ P)) ∨
        r.1 ≠ .OK ∧ r.2 = page ∧ Pinned s''.buf P ∧ s''.buf.hashTable.lookup f p = none) := by
  refine (((runs_readPage_sameTable ho.table ho.dirty hP ho.find p page).and
    (hP.readPage (hsole f p) page)).and (hP.readPage_pool page)).mono ?_
  rintro r e s'' ⟨⟨⟨hsame, hd, hmiss⟩, hcase⟩, hpool⟩
  refine ⟨ho.sameTable hsame hd, hpool, ?_⟩
  rcases hcase with ⟨hok, hkeep, hframe⟩ | ⟨hne, hpage, hP''⟩
  · exact Or.inl ⟨hok, fun file p' => hkeep file p' (hsole file p'), hframe⟩
  · exact Or.inr ⟨hne, hpage, hP'', hmiss hne⟩

end OpenedOnce

/-- If the calls succeed, the constructor of `HeapFile` is done with them. -/
theorem Ready.new_acquired (hr : Ready s) (hP : Pinned s.buf P) {e : Bool}
    (hy : Yields (HeapFile.acquire nm) s .OK e s') :
    ∃ h, Yields (HeapFile.new nm) s (.OK, h) e s' ∧ Acquired s s' P nm h := by
  unfold HeapFile.acquire at hy
  obtain ⟨⟨st₁, f⟩, e₁, s₁, _, hy₁, k₁, rfl⟩ := hy.of_bind
  dsimp only at k₁
  by_cases hst₁ : st₁ = .OK
  swap
  · rw [if_pos hst₁] at k₁
    exact absurd (yields_pure.mp k₁).1 hst₁
  subst hst₁
  rw [if_neg fun hn => hn rfl] at k₁
  obtain ⟨ho₁, hbuf₁, hunix₁⟩ := hr.openFile hy₁
  -- the number of the header page
  obtain ⟨⟨st₂, hdrNo⟩, e₂, s₂, _, hy₂, k₂, rfl⟩ := k₁.of_bind
  dsimp only at k₂
  by_cases hst₂ : st₂ = .OK
  swap
  · rw [if_pos hst₂] at k₂
    exact absurd (yields_pure.mp k₂).1 hst₂
  subst hst₂
  rw [if_neg fun hn => hn rfl] at k₂
  obtain ⟨ho₂, hbuf₂, hfirst⟩ := ho₁.getFirstPage.1 _ _ _ hy₂
  have hP₂ : Pinned s₂.buf P := by rwa [hbuf₂, hbuf₁]
  have hsole₂ : ∀ file p, s₂.buf.Sole file p := by
    rw [hbuf₂, hbuf₁]
    exact hr.sound.sole
  -- the header page
  obtain ⟨⟨st₃, page₃⟩, e₃, s₃, _, hy₃, k₃, rfl⟩ := k₂.of_bind
  dsimp only at k₃
  by_cases hst₃ : st₃ = .OK
  swap
  · rw [if_pos hst₃] at k₃
    exact absurd (yields_pure.mp k₃).1 hst₃
  subst hst₃
  rw [if_neg fun hn => hn rfl] at k₃
  obtain ⟨ho₃, -, ⟨-, hsole₃, n, rfl, hP₃⟩ | ⟨hne, -⟩⟩ :=
    (ho₂.readPage hP₂ hsole₂ hdrNo .wild).1 _ _ _ hy₃
  swap
  · exact absurd rfl hne
  have hd₃ : Yields (derefPage (.frame n)) s₃ (s₃.buf.bufPool n) false s₃ := rfl
  obtain ⟨blk, e₄, s₄, _, hy₄, k₄, rfl⟩ := k₃.of_bind
  obtain ⟨rfl, rfl, rfl⟩ := hd₃.unique hy₄
  -- the first data page
  obtain ⟨⟨st₅, page₅⟩, e₅, s₅, _, hy₅, k₅, rfl⟩ := k₄.of_bind
  obtain ⟨rfl, rfl, rfl⟩ := yields_pure.mp k₅
  obtain ⟨ho₅, hpool₅, ⟨-, hsole₅, m, hm, hP₅⟩ | ⟨hne, -⟩⟩ :=
    (ho₃.readPage hP₃ hsole₃ _ .wild).1 _ _ _ hy₅
  swap
  · exact absurd rfl hne
  dsimp only at hm
  subst hm
  refine ⟨⟨f, .frame n, hdrNo, false, .frame m, (s₄.buf.bufPool n).asFileHdr.firstPage, false,
    NULLRID⟩, ?_, ho₅, ?_, nofun, hsole₅, ?_, n, rfl, Or.inl ?_⟩
  · unfold HeapFile.new
    refine hy₁.bind ?_
    dsimp only
    rw [if_neg fun hn => hn rfl]
    refine hy₂.bind ?_
    dsimp only
    rw [if_neg fun hn => hn rfl]
    exact hy₃.bind (hy₄.bind (hy₅.bind (Yields.pure _ _)))
  · exact HeapFile.owns_frame ⟨n, rfl⟩ rfl hP₅
  · rw [← hunix₁]
    exact hfirst rfl
  · have hkept : s₅.buf.bufPool n = s₄.buf.bufPool n :=
      hpool₅ ⟨f, hdrNo, n, false⟩ (Multiset.mem_cons_self _ _)
    dsimp only
    rw [hkept]

theorem exists_openFile_of_acquire {e : Bool} (hy : Yields (HeapFile.acquire nm) s .OK e s') :
    ∃ f e s₁, Yields (DB.openFile nm) s (.OK, f) e s₁ := by
  unfold HeapFile.acquire at hy
  obtain ⟨⟨st, f⟩, e₁, s₁, _, hy₁, k₁, -⟩ := hy.of_bind
  by_cases hst : st = .OK
  · exact ⟨f, e₁, s₁, hst ▸ hy₁⟩
  · dsimp only at k₁
    rw [if_pos hst] at k₁
    exact absurd (yields_pure.mp k₁).1 hst

namespace Acquired

/-- `InsertFileScan` goes on to the last page. If it cannot be read this is reported, and `curPage`
is the pointer to the first page that has been given back. -/
theorem insert (ha : Acquired s s' P nm h) (hP : Pinned s.buf P) {e : Bool}
    (hy : Yields (HeapFile.new nm) s (.OK, h) e s') :
    Runs True (InsertFileScan.new nm) s fun r _ s'' =>
      (r.1 = .OK → HeapFile.Opened s s'' nm r.2) ∧
      Runs True (InsertFileScan.delete r.2) s'' fun _ _ s₃ => SameCounts s s₃ := by
  obtain ⟨n, hn, hno⟩ := ha.curPageNo
  unfold InsertFileScan.new
  refine (Runs.of_yields (Q := fun r _ s₁ => r = (.OK, h) ∧ s₁ = s') hy ⟨rfl, rfl⟩).bind ?_
  rintro _ _ s₁ ⟨rfl, rfl⟩
  have hd : Yields (derefPage h.headerPage) s₁ (s₁.buf.bufPool n) false s₁ := by
    rw [hn]
    rfl
  dsimp only
  rw [runs_bind_of_yields hd]
  refine Runs.ite (fun _ => ?_) fun _ => ?_
  swap
  · rw [runs_pure]
    exact ⟨fun _ => ha.isOpened, ha.opened.delete_insert hP ha.owns ha.curPage⟩
  -- the first page is given back for the last one
  obtain ⟨s₂, hy₂, ho₂, hP₂, hpool₂, hsole₂⟩ := ha.opened.unPin ha.owns ha.curPage h.curDirtyFlag
  rw [runs_bind_of_yields hy₂]
  refine (ho₂.readPage hP₂ (fun file p => hsole₂ file p (ha.sole file p)) _ h.curPage).bind ?_
  rintro ⟨st, page⟩ _ s₃ ⟨ho₃, hpool₃, ⟨-, hsole₃, m, hm, hP₃⟩ | ⟨hne, hpage, hP₃, hmiss⟩⟩
  · dsimp only at hm
    subst hm
    rw [runs_pure]
    have hheader : (⟨h.filePtr, h.headerPageNo, n, false⟩ : Pin) ∈ h.headerPin + P := by
      refine Multiset.mem_add.mpr (Or.inl ?_)
      unfold HeapFile.headerPin
      rw [hn]
      exact Multiset.mem_singleton_self _
    have hkept : s₃.buf.bufPool n = s₁.buf.bufPool n := (hpool₃ _ hheader).trans (by rw [hpool₂])
    have hlast : Acquired s s₃ P nm { h with
        curPage := .frame m, curPageNo := (s₁.buf.bufPool n).asFileHdr.lastPage
        curDirtyFlag := false } :=
      ⟨ho₃, HeapFile.owns_frame ha.owns.formed.headerPage rfl hP₃, nofun, hsole₃,
        ha.headerPageNo, n, hn,
        Or.inr (by rw [hkept])⟩
    exact ⟨fun _ => hlast.isOpened, hlast.opened.delete_insert hP hlast.owns hlast.curPage⟩
  · dsimp only at hne hpage
    subst hpage
    rw [runs_pure]
    refine ⟨fun hok => absurd hok hne, ?_⟩
    unfold InsertFileScan.delete
    rw [if_pos (show h.curPage ≠ .null from ha.curPage),
      runs_bind_of_yields (yields_unPinPage_missing hmiss true)]
    exact OpenedOnce.delete_null
      (h := { h with curPage := .null, curPageNo := 0, curDirtyFlag := false }) ho₃ hP
      ha.owns.formed.headerPage hP₃ rfl

end Acquired

/-- If the calls succeed, so do the constructors. -/
theorem Ready.reports (hr : Ready s) {e : Bool} (hy : Yields (HeapFile.acquire nm) s .OK e s') :
    ConstructorsReport nm s := by
  obtain ⟨P, hP⟩ := hr.sound.exists_pinned hr.idle
  obtain ⟨h, hnew, ha⟩ := hr.new_acquired hP hy
  have hopen := exists_openFile_of_acquire hy
  have hfails : ∀ (st₀ st : Status) e' s₁, Yields (HeapFile.acquire nm) s st e' s₁ → st ≠ .OK →
      st₀ = st := fun st₀ st e' s₁ hy' hne => absurd (hy.unique hy').1 hne
  refine ⟨?_, ?_, ?_⟩
  · refine Runs.of_yields hnew ⟨fun _ => ha.isOpened, hfails _, fun h' hh' => ?_⟩
    rw [hh' hopen]
    exact ha.opened.delete hP ha.owns ha.curPage
  · refine Runs.of_yields (hnew.bind (Yields.pure _ _)) ⟨fun _ => ha.isOpened, hfails _,
      fun q hq => ?_⟩
    rw [hq hopen]
    exact OpenedOnce.delete_scan ha.opened hP ha.owns ha.curPage
  · refine (ha.insert hP hnew).mono ?_
    rintro r e s'' ⟨hok, hdel⟩
    refine ⟨hok, hfails _, fun h' hh' => ?_⟩
    rw [hh' hopen]
    exact hdel

/-- If the constructor of `HeapFile` does as it should, the calls succeed. -/
theorem Ready.exists_acquire (hr : Ready s)
    (hrep : Reports (HeapFile.new nm) id HeapFile.delete nm s) :
    ∃ e s', Yields (HeapFile.acquire nm) s .OK e s' := by
  obtain ⟨P, hP⟩ := hr.sound.exists_pinned hr.idle
  obtain ⟨⟨st, h⟩, e, s', hy, hok, -, hdel⟩ := hrep.exists
  unfold HeapFile.new at hy
  obtain ⟨⟨st₁, f⟩, e₁, s₁, _, hy₁, k₁, rfl⟩ := hy.of_bind
  dsimp only at k₁
  by_cases hst₁ : st₁ = .OK
  swap
  · -- what is left of the members may be a pointer to no object
    exfalso
    rw [if_pos hst₁] at k₁
    obtain ⟨-, rfl, -⟩ := yields_pure.mp k₁
    obtain ⟨-, -, -, -, -, -, -, -, -, hnone⟩ := (hr.table.openFile nm).1 _ _ _ hy₁
    have hrun := hdel { HeapFile.uninit with filePtr := s.nextFile } (by
      rintro ⟨f', e', s₂, hy'⟩
      exact absurd (congrArg Prod.fst (hy'.unique hy₁).1) hst₁)
    obtain ⟨_, _, _, hy', -⟩ := hrun.exists
    exact (HeapFile.runs_delete_dangling (h := { HeapFile.uninit with filePtr := s.nextFile })
      hr.table.nextFile.ne' (hnone hst₁ hr.fresh)).1 _ _ _ hy'
  subst hst₁
  rw [if_neg fun hn => hn rfl] at k₁
  obtain ⟨ho₁, hbuf₁, -⟩ := hr.openFile hy₁
  obtain ⟨⟨st₂, hdrNo⟩, e₂, s₂, _, hy₂, k₂, rfl⟩ := k₁.of_bind
  dsimp only at k₂
  by_cases hst₂ : st₂ = .OK
  swap
  · -- without its number the header page cannot be read
    rw [if_pos hst₂] at k₂
    exact absurd k₂ (Option.some_ne_none _).symm
  subst hst₂
  rw [if_neg fun hn => hn rfl] at k₂
  obtain ⟨ho₂, hbuf₂, -⟩ := ho₁.getFirstPage.1 _ _ _ hy₂
  have hP₂ : Pinned s₂.buf P := by rwa [hbuf₂, hbuf₁]
  have hsole₂ : ∀ file p, s₂.buf.Sole file p := by
    rw [hbuf₂, hbuf₁]
    exact hr.sound.sole
  obtain ⟨⟨st₃, page₃⟩, e₃, s₃, _, hy₃, k₃, rfl⟩ := k₂.of_bind
  obtain ⟨blk, e₄, s₄, _, hy₄, k₄, rfl⟩ := k₃.of_bind
  obtain ⟨rfl, n, hn⟩ := (HeapFile.runs_derefPage _ s₃).1 _ _ _ hy₄
  dsimp only at hn hy₄
  obtain ⟨ho₃, -, ⟨hst₃, hsole₃, _, -, hP₃⟩ | ⟨-, hwild, -⟩⟩ :=
    (ho₂.readPage hP₂ hsole₂ hdrNo .wild).1 _ _ _ hy₃
  swap
  · -- there is no header page to follow the pointer to
    rw [hn] at hwild
    cases hwild
  obtain ⟨⟨st₅, page₅⟩, e₅, s₅, _, hy₅, k₅, rfl⟩ := k₄.of_bind
  obtain ⟨hres, rfl, rfl⟩ := yields_pure.mp k₅
  cases hres
  obtain ⟨-, -, ⟨hst₅, -⟩ | ⟨-, hwild, -⟩⟩ := (ho₃.readPage hP₃ hsole₃ _ .wild).1 _ _ _ hy₅
  swap
  · -- `curPage` has not been set
    obtain ⟨m, hm, -⟩ := (hok rfl).curPage
    dsimp only [id] at hm hwild
    rw [hwild] at hm
    cases hm
  dsimp only at hst₃ hst₅
  subst hst₃ hst₅
  refine ⟨e₁ || (e₂ || (e₃ || (e₄ || (e₅ || false)))), s₅, ?_⟩
  unfold HeapFile.acquire
  refine hy₁.bind ?_
  dsimp only
  rw [if_neg fun hn => hn rfl]
  refine hy₂.bind ?_
  dsimp only
  rw [if_neg fun hn => hn rfl]
  refine hy₃.bind ?_
  dsimp only
  rw [if_neg fun hn => hn rfl]
  exact hy₄.bind (hy₅.bind (Yields.pure _ _))

/-- The constructors report what fails and leave nothing behind if and only if opening the file,
reading the number of its header page, and reading the header page and the first data page all
succeed. -/
theorem constructorsReport_iff (hr : Ready s) :
    ConstructorsReport nm s ↔ ∃ e s', Yields (HeapFile.acquire nm) s .OK e s' := by
  constructor
  · intro hrep
    exact hr.exists_acquire hrep.heapFile
  · rintro ⟨e, s', hy⟩
    exact hr.reports hy

theorem Coh.ready {v : View} (hc : Coh s P v) (hopen : ∀ nm f c, v.handle nm = some (f, c) → 0 < c)
    (hfresh : s.files s.nextFile = none) : Ready s :=
  ⟨hc.sound, hc.idle, hc.openTable hopen, hc.dirtyOpen, hfresh⟩

end Construct

/-- Two frames are enough for one object. -/
theorem constructorsReport_iff_new : ∃ s, Yields (createHeapFile [82]) (Sys.blank 1) .OK false s ∧
    ConstructorsReport [82] s := by
  obtain ⟨r, e, s', hy, hv⟩ := exists_of_eval (s := Sys.blank 1)
    (x := do
      let st ← createHeapFile [82]
      let s ← get
      let st₁ ← HeapFile.acquire [82]
      return (st, (s.files s.nextFile).isNone, st₁))
    (g := fun r e _ => (r, e)) (v := ((.OK, true, .OK), false)) (by decide +kernel)
  obtain ⟨st, e₀, s, _, hy₀, k₀, rfl⟩ := hy.of_bind
  obtain ⟨_, e₁, s₁, _, hget, k₁, rfl⟩ := k₀.of_bind
  obtain ⟨rfl, rfl, rfl⟩ := Yields.unique (show Yields get s s false s from rfl) hget
  obtain ⟨st₁, e₂, s₂, _, hy₁, k₂, rfl⟩ := k₁.of_bind
  obtain ⟨rfl, rfl, -⟩ := yields_pure.mp k₂
  simp only [Prod.mk.injEq, Bool.or_eq_false_iff, Option.isNone_iff_eq_none] at hv
  obtain ⟨⟨rfl, hfresh, rfl⟩, rfl, -, rfl, -⟩ := hv
  have hcreate := createHeapFile_spec (T := True) (Coh.blank 1) (List.cons_ne_nil 82 []) rfl id
    fun _ => by decide
  obtain ⟨-, p, q, pg, fv, hc, -⟩ := Clean.of_yields hcreate hy₀
  exact ⟨s₁, hy₀, (constructorsReport_iff (hc.ready nofun hfresh)).mpr ⟨false, s₂, hy₁⟩⟩

/-- Two files are created, and the first is opened. -/
def firstOpened : M (Status × Status × Status) := do
  let st₀ ← createHeapFile [82]
  let st₁ ← createHeapFile [83]
  let (st₂, _) ← HeapFile.new [82]
  return (st₀, st₁, st₂)

/-- Three frames are not enough for two objects. The read of the data page of the second fails, and
the status is `OK`. -/
theorem not_constructorsReport_full : ∃ s₂ s₃ h e,
    Yields firstOpened (Sys.blank 2) (.OK, .OK, .OK) false s₂ ∧
    Yields (HeapFile.new [83]) s₂ (.OK, h) e s₃ ∧ h.curPage = .wild ∧
    ¬ConstructorsReport [83] s₂ := by
  obtain ⟨r, e, s, hy, hv⟩ := exists_of_eval (s := Sys.blank 2)
    (x := do
      let r ← firstOpened
      let (st, h) ← HeapFile.new [83]
      return (r, st, h.curPage))
    (g := fun r _ _ => r) (v := ((.OK, .OK, .OK), .OK, .wild)) (by decide +kernel)
  obtain ⟨r₀, e₀, s₀, hy₀, hv₀⟩ := exists_of_eval (x := firstOpened) (s := Sys.blank 2)
    (g := fun r e _ => (r, e)) (v := ((.OK, .OK, .OK), false)) (by decide +kernel)
  obtain ⟨rfl, rfl⟩ := Prod.mk.inj hv₀
  obtain ⟨r₁, e₁, s₁, _, hy₁, k₁, rfl⟩ := hy.of_bind
  obtain ⟨rfl, -, rfl⟩ := hy₀.unique hy₁
  obtain ⟨⟨st, h⟩, e₂, s₂, _, hy₂, k₂, rfl⟩ := k₁.of_bind
  obtain ⟨rfl, -, -⟩ := yields_pure.mp k₂
  obtain ⟨rfl, hwild⟩ : st = .OK ∧ h.curPage = .wild := by simpa using hv
  refine ⟨s₁, s₂, h, e₂, hy₀, hy₂, hwild, fun hrep => ?_⟩
  obtain ⟨n, hn, -⟩ := ((hrep.heapFile.1 _ _ _ hy₂).1 rfl).curPage
  rw [show id h = h from rfl, hwild] at hn
  cases hn

end Minirel
