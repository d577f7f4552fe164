import Minirel.BufMgr.Dispose
import Minirel.BufMgr.Replace
import Minirel.HeapFile

/-!
# Allocating a page without a frame for it

`BufMgr::allocPage` has the file layer allocate a page before it asks for a frame. If it gets no
frame, the page stays allocated although nobody has been given it. Every `insertRecord` that fails
in this way makes the file longer by a page that no chain leads to.

## Main definitions

* `Sys.header?`: the header of a file as it is on disk.
* `File.CanAllocate`: the file layer can allocate a page.
* `File.SelfLinked`: the head of the free list links to itself, so that allocating it changes
  nothing.
* `Unleaked`: the header and the buffer tables are as before.
* `FailedInserts C file s s'`: calls of `insertRecord` that fail lead from `s` to `s'`.

## Main results

* `allocPage_unleaked_iff`: when a failed `allocPage` leaves nothing behind, and what this says of
  failing insertions.
-/

namespace Minirel

open Comp BufMgr

/-- The header of a file as it is on disk. -/
def Sys.header? (s : Sys) (file : FilePtr) : Option DBPage := (s.disk? file 0).map Block.asDBPage

/-- The header can be read and written, and the head of the free list can be read, if there is
one. -/
def File.CanAllocate (s : Sys) (file : FilePtr) : Prop :=
  ∃ fo hdr, s.files file = some fo ∧ fo.unixFile = true ∧ s.header? file = some hdr ∧
    s.io 0 = true ∧ s.io 1 = true ∧ s.io 2 = true ∧
    (hdr.nextFree = -1 ∨ (s.disk? file hdr.nextFree).isSome)

/-- The head of the free list links to itself. -/
def File.SelfLinked (s : Sys) (file : FilePtr) : Prop :=
  ∃ hdr b, s.header? file = some hdr ∧ hdr.nextFree ≠ -1 ∧ s.disk? file hdr.nextFree = some b ∧
    b.asDBPage.nextFree = hdr.nextFree

/-- The header of the file and the tables of the buffer manager are the same. -/
structure Unleaked (s s' : Sys) (file : FilePtr) : Prop where
  header : s'.header? file = s.header? file
  bufTable : s'.buf.bufTable = s.buf.bufTable
  lookup : ∀ f p, s'.buf.hashTable.lookup f p = s.buf.hashTable.lookup f p

/-! ## What leaves the header alone -/

/-- The header page of the file is the same. -/
def SameHeader (file : FilePtr) (s s' : Sys) : Prop :=
  ∀ b, s.disk? file 0 = some b → s'.disk? file 0 = some b

/-- Nothing but the pool has changed. -/
def OnlyPool (s s' : Sys) : Prop := ∃ b, s' = { s with buf := b }

section Header

variable {s s' : Sys} {file f : FilePtr} {p : Int} {α β : Type}

theorem SameHeader.refl (file : FilePtr) (s : Sys) : SameHeader file s s := fun _ h => h

theorem SameHeader.trans {s'' : Sys} (h : SameHeader file s s') (h' : SameHeader file s' s'') :
    SameHeader file s s'' := fun b hb => h' b (h b hb)

theorem SameHeader.of_eq (hfiles : s'.files = s.files) (hunix : s'.unix = s.unix) :
    SameHeader file s s' := by
  intro b hb
  unfold Sys.disk? at hb ⊢
  rw [hfiles, hunix]
  exact hb

theorem SameHeader.header? {hdr : DBPage} (h : SameHeader file s s')
    (hhdr : s.header? file = some hdr) : s'.header? file = some hdr := by
  unfold Sys.header? at hhdr ⊢
  obtain ⟨b, hb, rfl⟩ := Option.map_eq_some_iff.mp hhdr
  rw [h b hb]
  rfl

theorem OnlyPool.refl (s : Sys) : OnlyPool s s := ⟨s.buf, rfl⟩

theorem OnlyPool.trans {s'' : Sys} (h : OnlyPool s s') (h' : OnlyPool s' s'') : OnlyPool s s'' := by
  obtain ⟨b, rfl⟩ := h
  obtain ⟨b', rfl⟩ := h'
  exact ⟨b', rfl⟩

theorem OnlyPool.sameHeader (h : OnlyPool s s') : SameHeader file s s' := by
  obtain ⟨b, rfl⟩ := h
  exact .of_eq rfl rfl

theorem preserves_modifyBuf (g : BufMgr → BufMgr) : Preserves (modifyBuf g) OnlyPool := fun s =>
  Runs.of_yields (yields_modifyBuf g s) ⟨g s.buf, rfl⟩

theorem preserves_derefPage (page : PagePtr) : Preserves (derefPage page) OnlyPool := by
  unfold derefPage
  split
  next => exact .get_bind fun s => runs_pure.mpr (.refl s)
  next => exact fun _ => Runs.failure id

theorem preserves_assignPage (page : PagePtr) (b : Block) :
    Preserves (assignPage page b) OnlyPool := by
  unfold assignPage
  split
  next => exact preserves_modifyBuf _
  next => exact fun _ => Runs.failure id

theorem preserves_modifyHeader (h : HeapFile) (g : FileHdrPage → FileHdrPage) :
    Preserves (h.modifyHeader g) OnlyPool :=
  Preserves.bind (fun _ _ _ => OnlyPool.trans) (preserves_derefPage _) fun _ =>
    preserves_assignPage _ _

theorem preserves_unPinPage (file : FilePtr) (p : Int) (dirty : Bool) :
    Preserves (unPinPage file p dirty) OnlyPool := by
  refine .get_bind fun s => ?_
  split
  next => exact runs_pure.mpr (.refl s)
  next =>
    dsimp only
    split <;> split <;> rw [runs_modifyBuf_bind, runs_pure] <;> exact ⟨_, rfl⟩

theorem preserves_enterPage (file : FilePtr) (p : Int) (n : Nat) :
    Preserves (enterPage file p n) OnlyPool := by
  refine .get_bind fun s => ?_
  dsimp only
  rw [runs_set_bind, runs_pure]
  exact ⟨_, rfl⟩

theorem preserves_ofOption (o : Option α) : Preserves (ofOption o : M α) OnlyPool := fun s => by
  cases o with
  | none => exact Runs.failure id
  | some a => exact runs_ofOption_some.mpr (.refl s)

theorem OnlyPool.preserves_bind {x : M α} {g : α → M β} (hx : Preserves x OnlyPool)
    (hg : ∀ a, Preserves (g a) OnlyPool) : Preserves (x >>= g) OnlyPool :=
  Preserves.bind (fun _ _ _ => OnlyPool.trans) hx hg

/-- Pages are not written over the header. -/
theorem File.preserves_writePage (f : FilePtr) (p : Int) (b : Block) :
    Preserves (File.writePage f p b) (SameHeader file) := by
  intro s
  unfold writePage intwrite
  refine Runs.ite (fun _ => runs_pure.mpr (.refl file s)) fun hp => ?_
  refine Runs.fileAt_bind nofun fun fo hfo => ?_
  rw [runs_unixCall_bind, runs_get_bind]
  refine Runs.ite (fun _ => ?_) fun _ => runs_pure.mpr (.of_eq rfl rfl)
  cases huf : s.unix fo.fileName with
  | none => exact runs_pure.mpr (.of_eq rfl rfl)
  | some uf =>
    dsimp only
    rw [runs_setUnix_bind, runs_pure]
    intro b₀ hb₀
    unfold Sys.disk? at hb₀ ⊢
    obtain ⟨fo', hfo', hb₀⟩ := Option.bind_eq_some_iff.mp hb₀
    obtain ⟨uf', huf', hb₀⟩ := Option.bind_eq_some_iff.mp hb₀
    dsimp only
    rw [hfo', Option.bind_some]
    by_cases hnm : fo'.fileName = fo.fileName
    · rw [hnm, huf] at huf'
      cases huf'
      rw [hnm, Function.update_self, Option.bind_some]
      exact uf.page?_write_of_ne b (by omega) (by omega) hb₀
    · rw [Function.update_of_ne hnm, huf', Option.bind_some, hb₀]

/-- A page that has to make room is written over no header either. -/
theorem preserves_allocBuf : Preserves allocBuf (SameHeader file) := fun s =>
  runs_allocBuf (fun _ => .of_eq rfl rfl) (fun _ _ => .of_eq rfl rfl) fun _ _ =>
    (File.preserves_writePage _ _ _ (swept s)).mono fun _ _ _ h =>
      SameHeader.trans (.of_eq rfl rfl) h

end Header

/-! ## What the file layer does -/

section Allocate

variable {s s' : Sys} {file : FilePtr} {fo : File} {uf : UnixFile} {b : Block}

theorem disk?_of_page? {p : Int} (hfo : s.files file = some fo) (huf : s.unix fo.fileName = some uf)
    (hb : uf.page? p = some b) : s.disk? file p = some b := by
  unfold Sys.disk?
  rw [hfo, Option.bind_some, huf, Option.bind_some, hb]

theorem header?_of_page? (hfo : s.files file = some fo) (huf : s.unix fo.fileName = some uf)
    (hb : uf.page? 0 = some b) : s.header? file = some b.asDBPage := by
  unfold Sys.header?
  rw [disk?_of_page? hfo huf hb]
  rfl

/-- What is on disk is transferred, if the Unix call succeeds. -/
theorem transfer?_of_disk? {p : Int} (hfo : s.files file = some fo) (hopen : fo.unixFile = true)
    (hio : s.io 0 = true) : File.transfer? s fo p = s.disk? file p := by
  unfold File.transfer? Sys.disk?
  rw [if_pos ⟨hio, hopen⟩, hfo, Option.bind_some]

/-- `File::allocatePage` changes the header exactly if it can allocate a page, unless the head of
the free list links to itself. -/
theorem File.allocatePage_header
    (hcounts : ∀ hdr, s.header? file = some hdr → 0 < hdr.numPages) :
    Runs False (File.allocatePage file) s fun r _ s' => s'.buf = s.buf ∧
      ((r.1 = .OK ∧ CanAllocate s file ∧ ∃ hdr hdr', s.header? file = some hdr ∧
          s'.header? file = some hdr' ∧ (hdr' = hdr ↔ SelfLinked s file)) ∨
        r.1 ≠ .OK ∧ ¬CanAllocate s file ∧ s'.header? file = s.header? file) := by
  unfold allocatePage
  cases hfo : s.files file with
  | none => exact Runs.bind_of_false (runs_intread_of_none hfo _)
  | some fo =>
    -- what it takes to allocate a page
    have hcan : CanAllocate s file → fo.unixFile = true ∧ s.io 0 = true ∧ s.io 1 = true ∧
        s.io 2 = true ∧ (s.disk? file 0).isSome ∧
        ∀ hdr, s.header? file = some hdr → hdr.nextFree = -1 ∨
        (s.disk? file hdr.nextFree).isSome := by
      rintro ⟨fo', hdr, h₁, h₂, h₃, h₄, h₅, h₆, h₇⟩
      rw [hfo] at h₁
      cases h₁
      refine ⟨h₂, h₄, h₅, h₆, ?_, fun hdr' h₃' => ?_⟩
      · unfold Sys.header? at h₃
        rw [← Option.isSome_map (f := Block.asDBPage), h₃]
        rfl
      · rw [h₃] at h₃'
        cases h₃'
        exact h₇
    cases h₀ : transfer? s fo 0 with
    | none =>
      rw [runs_bind_of_yields (yields_intread_of_none hfo h₀ _)]
      dsimp only
      rw [if_pos nofun, runs_pure]
      refine ⟨rfl, Or.inr ⟨nofun, fun hc => ?_, rfl⟩⟩
      obtain ⟨hopen, hio, -, -, hsome, -⟩ := hcan hc
      rw [← transfer?_of_disk? hfo hopen hio, h₀] at hsome
      cases hsome
    | some b₀ =>
      obtain ⟨hio, hopen, uf, huf, hb₀⟩ := transfer?_eq_some_iff.mp h₀
      have hhdr := header?_of_page? hfo huf hb₀
      have hpos := hcounts _ hhdr
      rw [runs_bind_of_yields (yields_intread_of_some hfo h₀ _)]
      dsimp only
      rw [if_neg fun hn => hn rfl]
      refine Runs.ite (fun hnf => ?_) fun hnf => ?_
      · -- the head of the free list
        have hfo₁ : s.called.files file = some fo := hfo
        cases h₁ : transfer? s.called fo b₀.asDBPage.nextFree with
        | none =>
          rw [runs_bind_of_yields (yields_intread_of_none hfo₁ h₁ _)]
          dsimp only
          rw [if_pos nofun, runs_pure]
          refine ⟨rfl, Or.inr ⟨nofun, fun hc => ?_, rfl⟩⟩
          obtain ⟨-, -, hio₁, -, -, hlink⟩ := hcan hc
          have hsome := (hlink _ hhdr).resolve_left hnf
          have hread := transfer?_of_disk? (s := s.called) (p := b₀.asDBPage.nextFree)
            hfo₁ hopen hio₁
          rw [h₁] at hread
          have hdisk : s.disk? file b₀.asDBPage.nextFree = none := hread.symm
          rw [hdisk] at hsome
          cases hsome
        | some b₁ =>
          obtain ⟨hio₁, -, uf₁, huf₁, hb₁⟩ := transfer?_eq_some_iff.mp h₁
          obtain rfl : uf₁ = uf := Option.some.inj (huf₁.symm.trans huf)
          have hdisk := disk?_of_page? hfo huf hb₁
          rw [runs_bind_of_yields (yields_intread_of_some hfo₁ h₁ _)]
          dsimp only
          rw [if_neg fun hn => hn rfl]
          have hfo₂ : s.called.called.files file = some fo := hfo
          have huf₂ : s.called.called.unix fo.fileName = some uf₁ := huf
          cases h₂ : s.called.called.io 0 with
          | false =>
            rw [runs_bind_of_yields (yields_intwrite_of_failure hfo₂ h₂), runs_pure]
            refine ⟨rfl, Or.inr ⟨nofun, fun hc => ?_, rfl⟩⟩
            exact Bool.noConfusion (h₂.symm.trans (hcan hc).2.2.2.1)
          | true =>
            rw [runs_bind_of_yields (yields_intwrite_of_success hfo₂ huf₂ h₂ hopen (le_refl 0)),
              runs_pure]
            refine ⟨rfl, Or.inl ⟨rfl, ⟨fo, _, hfo, hopen, hhdr, hio, hio₁, h₂,
              Or.inr ?_⟩, _, _, hhdr,
              header?_of_page? hfo (Function.update_self _ _ _)
                (uf₁.page?_write_self _ (le_refl 0)),
              ?_⟩⟩
            · rw [hdisk]
              rfl
            · constructor
              · intro heq
                have hlink := congrArg DBPage.nextFree heq
                exact ⟨_, b₁, hhdr, hnf, hdisk, hlink⟩
              · rintro ⟨hdr, b, hhdr', -, hb, hlink⟩
                rw [hhdr] at hhdr'
                cases hhdr'
                rw [hdisk] at hb
                cases hb
                show DBPage.mk b₁.asDBPage.nextFree _ _ = b₀.asDBPage
                rw [hlink]
      · -- the file is extended
        have hnf : b₀.asDBPage.nextFree = -1 := not_not.mp hnf
        have hfo₁ : s.called.files file = some fo := hfo
        have huf₁ : s.called.unix fo.fileName = some uf := huf
        cases h₁ : s.called.io 0 with
        | false =>
          rw [runs_bind_of_yields (yields_intwrite_of_failure hfo₁ h₁)]
          rw [if_pos nofun, runs_pure]
          refine ⟨rfl, Or.inr ⟨nofun, fun hc => ?_, rfl⟩⟩
          exact Bool.noConfusion (h₁.symm.trans (hcan hc).2.2.1)
        | true =>
          rw [runs_bind_of_yields (yields_intwrite_of_success hfo₁ huf₁ h₁ hopen (by omega)),
            if_neg fun hn => hn rfl]
          generalize hs₂ : ({ s.called.called with unix := _ } : Sys) = s₂
          have hfo₂ : s₂.files file = some fo := by rw [← hs₂]; exact hfo
          have huf₂ : s₂.unix fo.fileName =
              some (uf.write b₀.asDBPage.numPages.toNat Block.zero) := by
            rw [← hs₂]
            exact Function.update_self _ _ _
          have hio₂ : s₂.io 0 = s.io 2 := by rw [← hs₂]; rfl
          have hbuf₂ : s₂.buf = s.buf := by rw [← hs₂]; rfl
          -- the new page is not the header
          have hpage₂ := uf.page?_write_of_ne Block.zero (p := b₀.asDBPage.numPages) (by omega)
            (by omega) hb₀
          cases h₂ : s₂.io 0 with
          | false =>
            rw [runs_bind_of_yields (yields_intwrite_of_failure hfo₂ h₂), runs_pure]
            refine ⟨hbuf₂, Or.inr ⟨nofun, fun hc => ?_, ?_⟩⟩
            · exact Bool.noConfusion (h₂.symm.trans (hio₂.trans (hcan hc).2.2.2.1))
            · rw [hhdr]
              exact header?_of_page? (s := s₂.called) hfo₂ huf₂ hpage₂
          | true =>
            rw [runs_bind_of_yields (yields_intwrite_of_success hfo₂ huf₂ h₂ hopen (le_refl 0)),
              runs_pure]
            refine ⟨hbuf₂, Or.inl ⟨rfl, ⟨fo, _, hfo, hopen, hhdr, hio, h₁, hio₂ ▸ h₂, Or.inl hnf⟩,
              _, _, hhdr, header?_of_page? hfo₂ (Function.update_self _ _ _)
                (UnixFile.page?_write_self _ _ (le_refl 0)), iff_of_false (fun heq => ?_) ?_⟩⟩
            · have hnum : b₀.asDBPage.numPages + 1 = b₀.asDBPage.numPages :=
                congrArg DBPage.numPages heq
              omega
            · rintro ⟨hdr, b, hhdr', hne, -⟩
              rw [hhdr] at hhdr'
              cases hhdr'
              exact hne hnf

/-- What `allocBuf` does to the tables, in a pool whose tables describe each other. -/
theorem allocBuf_tables (h : s.buf.Sound) : Runs False allocBuf s fun r _ s' =>
    (r.1 = .OK → s.buf.Evictable r.2 ∧ s'.buf.bufTable = s.buf.bufTable) ∧
    (r.1 ≠ .OK → (¬∃ n, s.buf.Evictable n) ∧ s'.buf.bufTable = s.buf.bufTable ∧
        s'.buf.hashTable = s.buf.hashTable ∨
      (∃ n, s.buf.Evictable n) ∧
        ∃ f p, s'.buf.hashTable.lookup f p ≠ s.buf.hashTable.lookup f p) := by
  have hsw := swept_spec s
  have htable : (swept s).buf.bufTable = s.buf.bufTable := hsw.bufTable
  refine runs_allocBuf (fun hex => ⟨nofun, fun _ => Or.inl ⟨fun hfree => ?_, htable, ?_⟩⟩)
    (fun hex _ => ⟨fun _ => ⟨evictable_victim h.numBufs_pos hex, htable⟩,
    fun hne => absurd rfl hne⟩)
    fun hex hd => ?_
  · rw [(exhausted_eq_false_iff h.numBufs_pos).mpr hfree] at hex
    cases hex
  · refine hsw.kept ?_
    unfold exhausted at hex
    simp only [Bool.and_eq_true, Bool.not_eq_true'] at hex
    exact hex.1
  · refine (KeepsBuf.writePage _ _ _ (swept s)).mono fun status e s' hs' => ?_
    have hev := evictable_victim h.numBufs_pos hex
    rw [hs'.2]
    refine ⟨fun _ => ⟨hev, htable⟩, fun _ => Or.inr ⟨⟨_, hev⟩, ?_⟩⟩
    -- the page that could not be written back has left the hash table
    rw [htable] at hd
    have hv : (s.buf.bufTable (victim s)).valid = true := by
      rw [← Bool.not_eq_false]
      intro hv
      rw [h.consistent.clean _ hev.1 hv] at hd
      cases hd
    refine ⟨(s.buf.bufTable (victim s)).file, (s.buf.bufTable (victim s)).pageNo, ?_⟩
    rw [(h.consistent.valid_iff _ hev.1).mp hv,
      (hsw.evicted ((valid_victim hex).symm.trans hv)).2.2, BufHashTbl.lookup_remove,
      if_pos ⟨rfl, rfl⟩]
    exact nofun

/-- A failed `allocPage` leaves nothing behind exactly if the file layer could not allocate a page,
or gave a page that it gives again and every frame is pinned. -/
theorem allocPage_unleaked (h : s.buf.Sound)
    (hcounts : ∀ hdr, s.header? file = some hdr → 0 < hdr.numPages) (page : PagePtr) :
    Runs False (allocPage file page) s fun r _ s' => r.1 ≠ .OK → (Unleaked s s' file ↔
      ¬File.CanAllocate s file ∨ File.SelfLinked s file ∧ ¬∃ n, s.buf.Evictable n) := by
  unfold allocPage
  refine (File.allocatePage_header hcounts).bind ?_
  rintro ⟨status, pageNo⟩ e s₁ ⟨hbuf, hcases⟩
  dsimp only at hcases ⊢
  rcases hcases with ⟨hok, hcan, hdr, hdr', hhdr, hhdr', hself⟩ | ⟨hne, hcan, hhdr⟩
  · rw [if_neg (not_not.mpr hok)]
    have h₁ : s₁.buf.Sound := hbuf ▸ h
    have hkeep : Runs False allocBuf s₁ fun _ _ s' => SameHeader file s₁ s' :=
      preserves_allocBuf s₁
    refine ((allocBuf_tables h₁).and hkeep).bind ?_
    rintro ⟨status₂, n⟩ e₂ s₂ ⟨⟨htaken, hleft⟩, hkept⟩
    dsimp only at htaken hleft ⊢
    rw [hbuf] at htaken hleft
    refine Runs.ite (fun hne => ?_) fun hok₂ => ?_
    · rw [runs_pure]
      intro _
      have hhdr₂ := hkept.header? hhdr'
      rcases hleft hne with ⟨hnone, htable, hhash⟩ | ⟨hfree, f, p, hlook⟩
      · constructor
        · intro hun
          have heq := hun.header
          rw [hhdr₂, hhdr] at heq
          exact Or.inr ⟨hself.mp (Option.some.inj heq), hnone⟩
        · rintro (hnot | ⟨hlinked, -⟩)
          · exact absurd hcan hnot
          · refine ⟨?_, htable, fun f p => by rw [hhash]⟩
            rw [hhdr₂, hhdr, hself.mpr hlinked]
      · refine iff_of_false (fun hun => hlook (hun.lookup f p)) ?_
        rintro (hnot | ⟨-, hnone⟩)
        · exact hnot hcan
        · exact hnone hfree
    · -- the frame that was taken has a new descriptor
      obtain ⟨hev, htable⟩ := htaken (not_not.mp hok₂)
      unfold enterPage
      rw [bind_assoc, runs_get_bind]
      dsimp only
      rw [bind_assoc, runs_set_bind, runs_pure_bind, runs_pure]
      refine fun _ => iff_of_false (fun hun => ?_) ?_
      · have hdesc := congrFun hun.bufTable n
        have hset : (s₂.buf.setDesc n ((s₂.buf.bufTable n).Set file pageNo)).bufTable n =
            s.buf.bufTable n := hdesc
        rw [bufTable_setDesc_self] at hset
        rcases hev.2 with hv | hp
        · rw [← hset] at hv
          cases hv
        · rw [← hset] at hp
          cases hp
      · rintro (hnot | ⟨-, hnone⟩)
        · exact hnot hcan
        · exact hnone ⟨n, hev⟩
  · rw [if_pos hne, runs_pure]
    exact fun _ => iff_of_true ⟨hhdr, by rw [hbuf], fun f p => by rw [hbuf]⟩ (Or.inl hcan)

/-- `allocPage` leaves the header alone if the file layer cannot allocate a page, or gives a page
that it gives again. -/
theorem allocPage_header {hdr : DBPage} (hhdr : s.header? file = some hdr)
    (hpos : 0 < hdr.numPages) (hcond : ¬File.CanAllocate s file ∨ File.SelfLinked s file)
    (page : PagePtr) :
    Runs False (allocPage file page) s fun _ _ s' => s'.header? file = some hdr := by
  unfold allocPage
  refine (File.allocatePage_header fun hdr' h' => ?_).bind ?_
  · rw [hhdr] at h'
    cases h'
    exact hpos
  rintro ⟨status, pageNo⟩ e s₁ ⟨hbuf, hcases⟩
  dsimp only at hcases ⊢
  have hhdr₁ : s₁.header? file = some hdr := by
    rcases hcases with ⟨-, hcan, hdr₀, hdr', h₀, h', hself⟩ | ⟨-, -, h'⟩
    · rw [hhdr] at h₀
      cases h₀
      rw [h', hself.mpr (hcond.resolve_left (not_not.mpr hcan))]
    · rw [h', hhdr]
  refine Runs.ite (fun _ => runs_pure.mpr hhdr₁) fun _ => ?_
  have hkeep : Runs False allocBuf s₁ fun _ _ s' => SameHeader file s₁ s' := preserves_allocBuf s₁
  refine hkeep.bind fun r e₂ s₂ hkept => ?_
  have hhdr₂ := hkept.header? hhdr₁
  refine Runs.ite (fun _ => runs_pure.mpr hhdr₂) fun _ => ?_
  refine (preserves_enterPage file pageNo r.2 s₂).bind fun _ _ s₃ hpool => runs_pure.mpr ?_
  exact hpool.sameHeader.header? hhdr₂

end Allocate

/-! ## Failing insertions -/

section Insert

variable {s : Sys} {h : InsertFileScan} {rec : Record} {hdr : DBPage}

/-- What follows the allocation of a page in `insertRecord` happens in the pool. -/
theorem InsertFileScan.insertOverflow_header (hhdr : s.header? h.filePtr = some hdr)
    (hpos : 0 < hdr.numPages)
    (hcond : ¬File.CanAllocate s h.filePtr ∨ File.SelfLinked s h.filePtr) :
    Runs False (insertOverflow h rec) s fun _ _ s' => s'.header? h.filePtr = some hdr := by
  unfold insertOverflow
  refine (allocPage_header hhdr hpos hcond _).bind ?_
  rintro ⟨status, pageNo, page⟩ e s₁ h₁
  dsimp only at h₁ ⊢
  refine Runs.ite (fun _ => runs_pure.mpr h₁) fun _ => ?_
  have hrest : ∀ {x : M (Status × RID × InsertFileScan)}, Preserves x OnlyPool →
      Runs False x s₁ fun _ _ s' => s'.header? h.filePtr = some hdr := fun hx =>
    (hx s₁).mono fun _ _ _ hpool => hpool.sameHeader.header? h₁
  refine hrest (OnlyPool.preserves_bind (preserves_derefPage _) fun blk => ?_)
  refine OnlyPool.preserves_bind (preserves_assignPage _ _) fun _ => ?_
  refine OnlyPool.preserves_bind (preserves_modifyHeader _ _) fun _ => ?_
  refine OnlyPool.preserves_bind (preserves_derefPage _) fun blk' => ?_
  refine OnlyPool.preserves_bind (preserves_assignPage _ _) fun _ => ?_
  refine OnlyPool.preserves_bind (preserves_unPinPage _ _ _) fun status' => ?_
  refine Preserves.ite (OnlyPool.preserves_bind (preserves_unPinPage _ _ _) fun _ =>
    Preserves.pure OnlyPool.refl) ?_
  refine OnlyPool.preserves_bind (preserves_derefPage _) fun blk'' => ?_
  refine OnlyPool.preserves_bind (preserves_ofOption _) fun r => ?_
  refine Preserves.ite (OnlyPool.preserves_bind (preserves_assignPage _ _) fun _ => ?_)
    (Preserves.pure OnlyPool.refl)
  exact OnlyPool.preserves_bind (preserves_modifyHeader _ _) fun _ => Preserves.pure OnlyPool.refl

/-- `insertRecord` on an object that has a data page. -/
theorem InsertFileScan.insertRecord_header (hpage : h.curPage ≠ .null)
    (hhdr : s.header? h.filePtr = some hdr) (hpos : 0 < hdr.numPages)
    (hcond : ¬File.CanAllocate s h.filePtr ∨ File.SelfLinked s h.filePtr) :
    Runs False (insertRecord h rec) s fun _ _ s' => s'.header? h.filePtr = some hdr := by
  unfold insertRecord
  refine Runs.ite (fun _ => runs_pure.mpr hhdr) fun _ => ?_
  rw [if_neg hpage]
  unfold insertCurrent
  refine (preserves_derefPage _ s).bind ?_
  rintro blk e _ ⟨b, rfl⟩
  refine (preserves_ofOption _ _).bind ?_
  rintro ⟨status, rid, p⟩ e' _ ⟨b', rfl⟩
  refine Runs.ite (fun _ => ?_) fun _ => insertOverflow_header hhdr hpos hcond
  have hrest : Preserves (do
      assignPage h.curPage (.page p)
      h.modifyHeader fun hdr => { hdr with recCnt := hdr.recCnt + 1 }
      return (Status.OK, rid, { h with hdrDirtyFlag := true, curDirtyFlag := true })) OnlyPool :=
    OnlyPool.preserves_bind (preserves_assignPage _ _) fun _ =>
      OnlyPool.preserves_bind (preserves_modifyHeader _ _) fun _ => Preserves.pure OnlyPool.refl
  exact (hrest _).mono fun _ _ _ hpool => hpool.sameHeader.header? hhdr

end Insert

/-- The insertion takes no page from the file layer: the record is refused for its length, or there
is no page to take, or taking it changes nothing. -/
def TakesNoPage (file : FilePtr) (s : Sys) (rec : Record) : Prop :=
  rec.length < 0 ∨ rec.length > DATASIZE ∨ ¬File.CanAllocate s file ∨ File.SelfLinked s file

/-- Calls of `insertRecord` on objects of the file, all of which fail, lead from `s₀` to `s`. The
object of a call has a data page, and the call satisfies `C`. -/
inductive FailedInserts (C : Sys → Record → Prop) (file : FilePtr) (s₀ : Sys) : Sys → Prop
  | start : FailedInserts C file s₀ s₀
  | insert {s s' : Sys} {h h' : InsertFileScan} {rec : Record} {status : Status} {rid : RID}
      {e : Bool} (run : FailedInserts C file s₀ s) (hfile : h.filePtr = file)
      (hpage : h.curPage ≠ .null) (cond : C s rec)
      (call : Yields (InsertFileScan.insertRecord h rec) s (status, rid, h') e s')
      (fail : status ≠ .OK) : FailedInserts C file s₀ s'

variable {s s' : Sys} {file : FilePtr}

/-- Failing insertions that take no page leave the header of the file alone. -/
theorem header?_of_failedInserts {hdr : DBPage} (hhdr : s.header? file = some hdr)
    (hpos : 0 < hdr.numPages) (hrun : FailedInserts (TakesNoPage file) file s s') :
    s'.header? file = some hdr := by
  induction hrun with
  | start => exact hhdr
  | @insert s₁ s₂ h h' rec status rid e _ hfile hpage hcond call _ ih =>
    subst hfile
    by_cases hlen : rec.length < 0 ∨ rec.length > DATASIZE
    · unfold InsertFileScan.insertRecord at call
      rw [if_pos hlen] at call
      obtain ⟨-, rfl, -⟩ := yields_pure.mp call
      exact ih
    · obtain ⟨hlo, hhi⟩ := not_or.mp hlen
      exact (InsertFileScan.insertRecord_header hpage ih hpos
        ((hcond.resolve_left hlo).resolve_left hhi)).1 _ _ _ call

/-- A failed `allocPage` leaves the header and the buffer tables as before exactly if the file layer
could not allocate a page, or gave a page that it gives again and every frame is pinned. In every
run of failing insertions that take no page from the file layer, the header of the file, and with
it the number of its pages, is the same in every state. -/
theorem allocPage_unleaked_iff (h : s.buf.Sound)
    (hcounts : ∀ hdr, s.header? file = some hdr → 0 < hdr.numPages) :
    (∀ page r e s', Yields (allocPage file page) s r e s' → r.1 ≠ .OK → (Unleaked s s' file ↔
      ¬File.CanAllocate s file ∨ File.SelfLinked s file ∧ ¬∃ n, s.buf.Evictable n)) ∧
    ∀ s' hdr, FailedInserts (TakesNoPage file) file s s' → s.header? file = some hdr →
      s'.header? file = some hdr := by
  refine ⟨fun page r e s' hy => (allocPage_unleaked h hcounts page).1 _ _ _ hy, ?_⟩
  exact fun s' hdr hrun hhdr => header?_of_failedInserts hhdr (hcounts hdr hhdr) hrun

/-- Without a disk nothing is left behind. -/
theorem allocPage_unleaked_iff_unread : ∃ s s', Yields (allocPage 1 .null) s (.UNIXERR, 0, .null)
    false s' ∧ Unleaked s s' 1 := by
  obtain ⟨s, hs, s', hy⟩ : ∃ s, s = { firstPage with io := fun _ => false } ∧
      ∃ s', Yields (allocPage 1 .null) s (.UNIXERR, 0, .null) false s' :=
    ⟨{ firstPage with io := fun _ => false }, rfl, _, rfl⟩
  have hsound : s.buf.Sound := by
    rw [hs]
    exact ⟨.new _ _, by decide, by decide⟩
  have hcounts : ∀ hdr, s.header? 1 = some hdr → 0 < hdr.numPages := by
    intro hdr hhdr
    have hfirst : s.header? 1 = some ⟨-1, 1, 2⟩ := by
      rw [hs]
      rfl
    rw [hfirst] at hhdr
    cases hhdr
    decide
  refine ⟨s, s', hy, ((allocPage_unleaked_iff hsound hcounts).1 _ _ _ _ hy nofun).mpr (Or.inl ?_)⟩
  rintro ⟨fo, hdr, -, -, -, hio, -⟩
  rw [hs] at hio
  cases hio

/-- With the only frame pinned the file has one page more. -/
theorem not_unleaked_pinned : ∃ s s', s.buf.Sound ∧
    Yields (allocPage 1 .null) s (.BUFFEREXCEEDED, 2, .null) true s' ∧ ¬Unleaked s s' 1 := by
  obtain ⟨s, h₁, s', hy, hbefore, hafter⟩ :
    ∃ s, Yields (BufOp.readPage 1 1).run firstPage .OK false s ∧
      ∃ s', Yields (allocPage 1 .null) s (.BUFFEREXCEEDED, 2, .null) true s' ∧
        s.header? 1 = some ⟨-1, 1, 2⟩ ∧ s'.header? 1 = some ⟨-1, 1, 3⟩ := ⟨_, rfl, _, rfl, rfl, rfl⟩
  have hsafe : (BufOp.readPage 1 1).Safe firstPage := fun hl => absurd hl.2.1 (by decide +kernel)
  have hfirst : firstPage.buf.Sound := ⟨.new _ _, by decide, by decide⟩
  refine ⟨s, s', BufOp.sound_of_safe hfirst hsafe h₁, hy, fun hun => ?_⟩
  have hheader := hun.header
  rw [hbefore, hafter] at hheader
  cases hheader

end Minirel
