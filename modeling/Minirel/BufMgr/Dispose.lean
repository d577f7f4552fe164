import Minirel.BufMgr.Content
import Minirel.BufMgr.Entries

/-!
# A page that may not be disposed of

`BufMgr::disposePage` takes the page out of the pool before the file layer has decided whether the
page may be disposed of at all. If the file layer refuses, an update that was waiting in the frame
is gone.

## Main definitions

* `File.Torn`: the disposal gets as far as overwriting the page.
* `KeepsPages`: nothing that clients see of pages has changed, nor the free list.

## Main results

* `disposePage_keeps_iff`: when a refused `disposePage` has discarded nothing.
-/

namespace Minirel

open Comp

open BufMgr

/-! ## What the file layer leaves if it refuses -/

/-- What `File::disposePage` writes on the page. -/
def UnixFile.freed (uf : UnixFile) : Block := .dbPage ⟨uf.header.nextFree, 0, 0⟩

/-- The file layer has nothing against the disposal, but of the four Unix calls that it takes the
last one fails, which is to write the header; the page has been overwritten by then. -/
structure File.Torn (s : Sys) (file : FilePtr) (p : Int) (uf : UnixFile) : Prop where
  obj : ∃ fo, s.files file = some fo ∧ fo.unixFile = true ∧ s.unix fo.fileName = some uf
  inside : 1 ≤ p ∧ p < uf.size ∧ p < uf.header.numPages
  not_first : uf.header.firstPage ≠ p
  io : s.io 0 = true ∧ s.io 1 = true ∧ s.io 2 = true ∧ s.io 3 = false

section Refused

variable {s s' : Sys} {file : FilePtr} {fo : File} {uf : UnixFile} {p : Int}

/-- `File::disposePage` that fails leaves the files as they are, or a page overwritten. -/
theorem File.disposePage_refused (file : FilePtr) (p : Int) (s : Sys) :
    Runs False (File.disposePage file p) s fun status _ s' => status ≠ .OK →
      s'.files = s.files ∧ s'.buf = s.buf ∧
      ((s'.unix = s.unix ∧ ∀ uf, ¬Torn s file p uf) ∨
        ∃ fo uf, s.files file = some fo ∧ Torn s file p uf ∧ s.unix fo.fileName = some uf ∧
          s'.unix = Function.update s.unix fo.fileName (some (uf.write p.toNat uf.freed))) := by
  unfold disposePage
  refine Runs.ite (fun hp => ?_) fun hp => ?_
  · refine runs_pure.mpr fun _ => ⟨rfl, rfl, Or.inl ⟨rfl, fun uf ht => ?_⟩⟩
    have := ht.inside.1
    omega
  cases hfo : s.files file with
  | none => exact Runs.bind_of_false (runs_intread_of_none hfo _)
  | some fo =>
    -- a disposal that is torn is one of this file
    have htorn : ∀ uf, Torn s file p uf → fo.unixFile = true ∧ s.unix fo.fileName = some uf := by
      intro uf ht
      obtain ⟨fo', h₁, h₂, h₃⟩ := ht.obj
      rw [hfo] at h₁
      cases h₁
      exact ⟨h₂, h₃⟩
    cases h₀ : transfer? s fo 0 with
    | none =>
      rw [runs_bind_of_yields (yields_intread_of_none hfo h₀ _)]
      dsimp only
      rw [if_pos nofun, runs_pure]
      refine fun _ => ⟨rfl, rfl, Or.inl ⟨rfl, fun uf ht => ?_⟩⟩
      obtain ⟨hopen, huf⟩ := htorn uf ht
      have hsome := transfer?_eq_some_iff.mpr ⟨ht.io.1, hopen, uf, huf,
        UnixFile.page?_of_lt (le_refl 0) (by have := ht.inside; omega)⟩
      rw [h₀] at hsome
      cases hsome
    | some hdr =>
      obtain ⟨hio, hopen, uf, huf, hhdr⟩ := transfer?_eq_some_iff.mp h₀
      have hsize : 0 < uf.size ∧ hdr = uf.page 0 := by
        unfold UnixFile.page? at hhdr
        split at hhdr
        next hc => exact ⟨by omega, (Option.some.inj hhdr).symm⟩
        next => cases hhdr
      obtain ⟨hpos, rfl⟩ := hsize
      have hsame : ∀ uf', Torn s file p uf' → uf' = uf := fun uf' ht =>
        Option.some.inj ((htorn uf' ht).2.symm.trans huf)
      rw [runs_bind_of_yields (yields_intread_of_some hfo h₀ _)]
      dsimp only
      rw [if_neg fun hn => hn rfl]
      refine Runs.ite (fun hc => runs_pure.mpr fun _ => ⟨rfl, rfl, Or.inl ⟨rfl, fun uf' ht => ?_⟩⟩)
        fun hc => ?_
      · obtain rfl := hsame uf' ht
        rcases hc with hc | hc
        · exact ht.not_first hc
        · exact absurd ht.inside.2.2 (not_lt.mpr hc)
      have hfo₁ : s.called.files file = some fo := hfo
      cases h₁ : transfer? s.called fo p with
      | none =>
        rw [runs_bind_of_yields (yields_intread_of_none hfo₁ h₁ _)]
        dsimp only
        rw [if_pos nofun, runs_pure]
        refine fun _ => ⟨rfl, rfl, Or.inl ⟨rfl, fun uf' ht => ?_⟩⟩
        obtain rfl := hsame uf' ht
        have hsome := transfer?_eq_some_iff (s := s.called).mpr ⟨ht.io.2.1, hopen, uf', huf,
          UnixFile.page?_of_lt (by omega) ht.inside.2.1⟩
        rw [h₁] at hsome
        cases hsome
      | some blk =>
        obtain ⟨hio₁, -, uf₁, huf₁, hblk⟩ := transfer?_eq_some_iff.mp h₁
        obtain rfl : uf₁ = uf := Option.some.inj (huf₁.symm.trans huf)
        have hlt : p < uf₁.size := by
          unfold UnixFile.page? at hblk
          split at hblk
          next hc => exact hc.2
          next => cases hblk
        rw [runs_bind_of_yields (yields_intread_of_some hfo₁ h₁ _)]
        dsimp only
        rw [if_neg fun hn => hn rfl]
        have hfo₂ : s.called.called.files file = some fo := hfo
        have huf₂ : s.called.called.unix fo.fileName = some uf₁ := huf
        cases h₂ : s.called.called.io 0 with
        | false =>
          rw [runs_bind_of_yields (yields_intwrite_of_failure hfo₂ h₂), if_pos nofun, runs_pure]
          refine fun _ => ⟨rfl, rfl, Or.inl ⟨rfl, fun uf' ht => ?_⟩⟩
          exact Bool.noConfusion (h₂.symm.trans ht.io.2.2.1)
        | true =>
          rw [runs_bind_of_yields (yields_intwrite_of_success hfo₂ huf₂ h₂ hopen (by omega)),
            if_neg fun hn => hn rfl]
          generalize hs₃ : ({ s.called.called.called with unix := _ } : Sys) = s₃
          have hfo₃ : s₃.files file = some fo := by rw [← hs₃]; exact hfo
          have hunix₃ : s₃.unix =
              Function.update s.unix fo.fileName (some (uf₁.write p.toNat uf₁.freed)) := by
            rw [← hs₃]
            rfl
          cases h₃ : s₃.io 0 with
          | true =>
            -- nothing fails any more
            have huf₃ : s₃.unix fo.fileName = some (uf₁.write p.toNat uf₁.freed) := by
              rw [hunix₃]
              exact Function.update_self _ _ _
            refine Runs.of_yields
              (yields_intwrite_of_success hfo₃ huf₃ h₃ hopen (le_refl 0)) fun h => absurd rfl h
          | false =>
            refine Runs.of_yields (yields_intwrite_of_failure hfo₃ h₃) fun _ => ?_
            have hio₃ : s.io 3 = false := by
              rw [← hs₃] at h₃
              exact h₃
            refine ⟨by rw [← hs₃]; rfl, by rw [← hs₃]; rfl, Or.inr ⟨fo, uf₁, rfl, ?_, huf, hunix₃⟩⟩
            have hnum := not_or.mp hc
            exact ⟨⟨fo, hfo, hopen, huf⟩, ⟨by omega, hlt, not_le.mp hnum.2⟩, hnum.1,
              hio, hio₁, h₂, hio₃⟩

/-! ## What is left of the page -/

/-- Every page has the content it had, the updates that were waiting are waiting, and the free list
is the same. -/
structure KeepsPages (s s' : Sys) (file : FilePtr) : Prop where
  content : ∀ f q, s'.content? f q = s.content? f q
  pending : ∀ f q, s'.Pending f q ↔ s.Pending f q
  freeList : ∀ k, s'.freeList file k = s.freeList file k

/-- What is seen of pages after the page has been withdrawn from the pool. -/
theorem keepsPages_withdrawn (h : s.buf.Mapped) (hbuf : s'.buf = s.buf.withdrawn file p)
    (hdisk : ∀ f q, ¬(f = file ∧ q = p) → s'.disk? f q = s.disk? f q) :
    (∀ f q, ¬(f = file ∧ q = p) → s'.content? f q = s.content? f q) ∧
    (∀ f q, ¬(f = file ∧ q = p) → (s'.Pending f q ↔ s.Pending f q)) ∧
    s'.content? file p = s'.disk? file p ∧ ¬s'.Pending file p := by
  have hlook : ∀ f q, s'.buf.hashTable.lookup f q =
      if f = file ∧ q = p then none else s.buf.hashTable.lookup f q := by
    intro f q
    rw [hbuf]
    exact s.buf.lookup_withdrawn f q
  refine ⟨fun f q hne => ?_, fun f q hne => ?_, ?_, ?_⟩
  · unfold Sys.content?
    rw [hlook, if_neg hne, hbuf, s.buf.bufPool_withdrawn, hdisk f q hne]
  · unfold Sys.Pending
    rw [hlook, if_neg hne]
    refine exists_congr fun m => and_congr_right fun hm => ?_
    rw [hbuf, bufTable_withdrawn h hm hne]
  · unfold Sys.content?
    rw [hlook, if_pos ⟨rfl, rfl⟩]
  · rintro ⟨n, hl, -⟩
    rw [hlook, if_pos ⟨rfl, rfl⟩] at hl
    cases hl

/-- The state with a page of a file overwritten on disk. -/
def Sys.overwritten (s : Sys) (file : FilePtr) (p : Int) (b : Block) : Sys :=
  match s.files file with
  | some fo =>
    let uf := (s.unix fo.fileName).map fun uf => uf.write p.toNat b
    { s with unix := Function.update s.unix fo.fileName uf }
  | none => s

/-- In every run of a new buffer manager, a `disposePage` that is refused has discarded nothing
exactly if no update of the page was waiting in the pool, and either the file layer has written
nothing and a frame with the page had what is on disk, or it has written what the page had anyway,
and the free list does not notice. -/
theorem disposePage_keeps_iff {bufs : Nat} {hash : FilePtr × Int → Fin (BufMgr.htsize bufs)}
    {s₀ : Sys} {status : Status} {e : Bool} (hnew : s₀.buf = BufMgr.new bufs hash)
    (hrun : BufRun (fun _ _ => True) s₀ s)
    (hsole : ∀ f fo fo', s.files file = some fo → s.files f = some fo' →
      fo'.fileName = fo.fileName → f = file)
    (hy : Yields (disposePage file p) s status e s') (hbad : status ≠ .OK) :
    KeepsPages s s' file ↔
      ¬s.Pending file p ∧ ((∀ uf, ¬File.Torn s file p uf) → s.Agrees file p) ∧
        ∀ uf, File.Torn s file p uf → s.content? file p = some uf.freed ∧
          ∀ k, (s.overwritten file p uf.freed).freeList file k = s.freeList file k := by
  have h : s.buf.Mapped := mapped_of_run (hnew ▸ .new bufs hash) hrun
  have hruns : Runs False (disposePage file p) s _ :=
    runs_disposePage.mpr (File.disposePage_refused file p _)
  obtain ⟨hfiles, hbuf, hcases⟩ := hruns.1 _ _ _ hy hbad
  have htorn : ∀ uf, File.Torn s file p uf ↔
      File.Torn { s with buf := s.buf.withdrawn file p } file p uf := fun uf =>
    ⟨fun ht => ⟨ht.obj, ht.inside, ht.not_first, ht.io⟩,
      fun ht => ⟨ht.obj, ht.inside, ht.not_first, ht.io⟩⟩
  rcases hcases with ⟨hunix, hnot⟩ | ⟨fo, uf, hfo, ht, huf, hunix⟩
  · -- the disk is as it was
    have hnot : ∀ uf, ¬File.Torn s file p uf := fun uf ht => hnot uf ((htorn uf).mp ht)
    have hdisk : ∀ f q, s'.disk? f q = s.disk? f q := fun f q => by
      unfold Sys.disk?
      rw [hfiles, hunix]
    obtain ⟨hcontent, hpending, hself, hgone⟩ := keepsPages_withdrawn h hbuf fun f q _ => hdisk f q
    constructor
    · intro hk
      refine ⟨fun hp => hgone ((hk.pending file p).mpr hp), fun _ n hl _ => ?_,
        fun uf ht => absurd ht (hnot uf)⟩
      rw [← hdisk, ← hself, hk.content file p]
      unfold Sys.content?
      rw [hl]
    · rintro ⟨hp, hagree, -⟩
      refine ⟨fun f q => ?_, fun f q => ?_, Sys.freeList_congr (hdisk file)⟩
      · by_cases hne : f = file ∧ q = p
        · obtain ⟨rfl, rfl⟩ := hne
          rw [hself, hdisk, content?_eq_disk? (hagree hnot) hp]
        · exact hcontent f q hne
      · by_cases hne : f = file ∧ q = p
        · obtain ⟨rfl, rfl⟩ := hne
          exact iff_of_false hgone hp
        · exact hpending f q hne
  · -- the page has been overwritten
    have hfo : s.files file = some fo := hfo
    have huf : s.unix fo.fileName = some uf := huf
    have hupd := disk?_update hfo huf (fun f fo' => hsole f fo fo' hfo) hfiles
      (by have := ht.inside; omega) ht.inside.2.1 hunix
    have hover : ∀ q, s'.disk? file q = (s.overwritten file p uf.freed).disk? file q := fun q => by
      unfold Sys.disk? Sys.overwritten
      rw [hfiles, hfo, hunix]
      dsimp only
      rw [hfo, huf]
      rfl
    have hone : ∀ uf', File.Torn s file p uf' → uf' = uf := by
      intro uf' ht'
      obtain ⟨fo', h₁, -, h₂⟩ := ht'.obj
      rw [hfo] at h₁
      cases h₁
      exact Option.some.inj (h₂.symm.trans huf)
    obtain ⟨hcontent, hpending, hself, hgone⟩ := keepsPages_withdrawn h hbuf fun f q hne =>
      (hupd f q).trans (if_neg hne)
    have hfreed : s'.content? file p = some uf.freed :=
      hself.trans ((hupd file p).trans (if_pos ⟨rfl, rfl⟩))
    constructor
    · intro hk
      refine ⟨fun hp => hgone ((hk.pending file p).mpr hp),
        fun hnot => absurd ((htorn uf).mpr ht) (hnot uf), fun uf' ht' => ?_⟩
      rw [hone uf' ht', ← hk.content file p]
      exact ⟨hfreed, fun k => (Sys.freeList_congr hover k).symm.trans (hk.freeList k)⟩
    · rintro ⟨hp, -, hsame⟩
      obtain ⟨hpage, hlist⟩ := hsame uf ((htorn uf).mpr ht)
      refine ⟨fun f q => ?_, fun f q => ?_, fun k => (Sys.freeList_congr hover k).trans (hlist k)⟩
      · by_cases hne : f = file ∧ q = p
        · obtain ⟨rfl, rfl⟩ := hne
          rw [hfreed, hpage]
        · exact hcontent f q hne
      · by_cases hne : f = file ∧ q = p
        · obtain ⟨rfl, rfl⟩ := hne
          exact iff_of_false hgone hp
        · exact hpending f q hne

end Refused

/-- A process with one frame and an open file that consists of its first page. -/
def firstPage : Sys :=
  { oneFrame with unix := fun name =>
      if name = [65] then some ⟨2, fun i => if i = 0 then .dbPage ⟨-1, 1, 2⟩ else Block.zero⟩
      else none }

/-- The first page is read, written to and unpinned; its disposal is refused. -/
theorem exists_refused (b : Block) (dirty : Bool) : ∃ s s',
    BufRun (fun _ _ => True) firstPage s ∧ s.files = firstPage.files ∧ s.unix = firstPage.unix ∧
    s.io = firstPage.io ∧ s.buf.hashTable.lookup 1 1 = some 0 ∧ s.buf.bufPool 0 = b ∧
    (s.buf.bufTable 0).dirty = dirty ∧ Yields (disposePage 1 1) s .BADPAGENO false s' ∧
    s'.content? 1 1 = some Block.zero := by
  obtain ⟨s₁, h₁, h₂⟩ : ∃ s₁, Yields (BufOp.readPage 1 1).run firstPage .OK false s₁ ∧
      ∀ s₂, s₂ = { s₁ with buf := s₁.buf.setPool 0 b } →
        ∃ s, Yields (BufOp.unPinPage 1 1 dirty).run s₂ .OK false s ∧
        ∃ s', s.files = firstPage.files ∧
          s.unix = firstPage.unix ∧ s.io = firstPage.io ∧ s.buf.hashTable.lookup 1 1 = some 0 ∧
          s.buf.bufPool 0 = b ∧ (s.buf.bufTable 0).dirty = dirty ∧
          Yields (disposePage 1 1) s .BADPAGENO false s' ∧ s'.content? 1 1 = some Block.zero := by
    refine ⟨_, rfl, ?_⟩
    rintro _ rfl
    cases dirty with
    | true => exact ⟨_, rfl, _, rfl, rfl, rfl, rfl, rfl, rfl, rfl, rfl⟩
    | false => exact ⟨_, rfl, _, rfl, rfl, rfl, rfl, rfl, rfl, rfl, rfl⟩
  obtain ⟨s, h₃, s', hfiles, hunix, hio, hl, hpool, hd, hy, hcontent⟩ := h₂ _ rfl
  -- the client writes to the page between the two calls
  have hwrite : BufRun (fun _ _ => True) firstPage { s₁ with buf := s₁.buf.setPool 0 b } :=
    .other (.call .start trivial h₁) rfl
  have hrun : BufRun (fun _ _ => True) firstPage s := .call hwrite trivial h₃
  exact ⟨s, s', hrun, hfiles, hunix, hio, hl, hpool, hd, hy, hcontent⟩

/-- Nothing is lost if the page has only been read. -/
theorem disposePage_keeps_iff_read : ∃ s s', BufRun (fun _ _ => True) firstPage s ∧
    Yields (disposePage 1 1) s .BADPAGENO false s' ∧ KeepsPages s s' 1 := by
  obtain ⟨s, s', hrun, hfiles, hunix, hio, hl, hpool, hd, hy, -⟩ := exists_refused Block.zero false
  have hsole : ∀ f fo fo', s.files 1 = some fo → s.files f = some fo' →
      fo'.fileName = fo.fileName → f = 1 := by
    intro f fo fo' _ hf _
    by_contra hne
    have hnone : s.files f = none := (congrFun hfiles f).trans (if_neg hne)
    rw [hf] at hnone
    cases hnone
  have hagree : s.Agrees 1 1 := by
    intro n hn _
    rw [hl] at hn
    cases hn
    unfold Sys.disk?
    rw [hpool, hfiles, hunix]
    rfl
  refine ⟨s, s', hrun, hy, (disposePage_keeps_iff rfl hrun hsole hy (by decide)).mpr
    ⟨?_, fun _ => hagree, fun uf ht => ?_⟩⟩
  · rintro ⟨n, hn, hdirty⟩
    rw [hl] at hn
    cases hn
    rw [hd] at hdirty
    cases hdirty
  · have hfail := ht.io.2.2.2
    rw [hio] at hfail
    cases hfail

/-- An update of the first page is lost when its disposal is refused. -/
theorem not_keepsPages_update : ∃ s s', BufRun (fun _ _ => True) firstPage s ∧
    Yields (disposePage 1 1) s .BADPAGENO false s' ∧ ¬KeepsPages s s' 1 := by
  obtain ⟨s, s', hrun, -, -, -, hl, hpool, -, hy, hcontent⟩ :=
    exists_refused (.dbPage ⟨7, 7, 7⟩) true
  refine ⟨s, s', hrun, hy, fun hk => ?_⟩
  have hsame := hk.content 1 1
  have hbefore : s.content? 1 1 = some (.dbPage ⟨7, 7, 7⟩) := by
    unfold Sys.content?
    rw [hl]
    exact congrArg some hpool
  rw [hbefore, hcontent] at hsame
  have hblock : Block.page Page.zero = .dbPage ⟨7, 7, 7⟩ := Option.some.inj hsame
  cases hblock

end Minirel
