import Minirel.Store.View

/-!
# What the operations of the buffer manager and of `db` do to the store

One specification for each operation: from a state that implements a view the operation leads to
a state that implements the view it should, with the pins it should, and returns the status that
goes with it. Unix calls succeed throughout; a pool without a free frame is the only failure.
-/

namespace Minirel

open Comp

namespace Coh

variable {T : Prop} {s : Sys} {P : Multiset Pin} {v : View} {nm nm' : FileName} {f : FilePtr}
  {c : Int} {p : Int} {n : Nat} {fv : FileView} {x : Pin} {blk : Block}

/-! ## Frames -/

/-- `allocBuf` returns a frame that can be cleared, unless every frame is pinned. -/
theorem allocBuf (h : Coh s P v) :
    Runs T BufMgr.allocBuf s fun r e s' =>
      (e = true ∧ r.1 = .BUFFEREXCEEDED ∧ s.buf.Full ∧ Coh s' P v) ∨
      (e = false ∧ ∃ n, r = (.OK, n) ∧ ¬s.buf.Full ∧ n < s'.buf.numBufs ∧
        Coh { s' with buf := s'.buf.release n } P v ∧
        ∀ f p, s.buf.hashTable.lookup f p = none → s'.buf.hashTable.lookup f p = none) := by
  have hsw := BufMgr.swept_spec s
  have hcons := h.sound.consistent
  have hhand : BufMgr.victim s < s.buf.numBufs :=
    hsw.clockHand h.sound.numBufs_pos h.sound.clockHand_lt
  have hlook : ∀ f p, s.buf.hashTable.lookup f p = none →
      (BufMgr.swept s).buf.hashTable.lookup f p = none := fun f p => BufMgr.lookup_swept
  -- the frame that is picked is free, or has been emptied
  have hfree : BufMgr.exhausted s = false → BufMgr.evicts s = false →
      (s.buf.bufTable (BufMgr.victim s)).valid = false := by
    intro hex he
    refine hsw.free he fun hleft => ?_
    have hfound : (BufMgr.clockSweep (2 * s.buf.numBufs) s.buf).2.1 = false := he
    rw [BufMgr.exhausted, hfound, hleft] at hex
    cases hex
  have htouch : ∀ s₁ : Sys, s₁.buf = s.buf.evicted (BufMgr.victim s) → BufMgr.evicts s = true →
      Coh s₁ P v → Coh { s₁ with buf := (BufMgr.swept s).buf.release (BufMgr.victim s) } P v := by
    intro s₁ hb he h₁
    refine h₁.touch ?_ ?_ ?_ ?_ ?_
    · rw [hb]
      exact hsw.numBufs
    · rw [hb]
      show Function.update _ _ _ = Function.update _ _ _
      rw [hsw.bufTable]
    · rw [hb]
      exact hsw.bufPool
    · rw [hb]
      exact (hsw.evicted he).2.2
    · rw [hb]
      exact hhand
  refine BufMgr.runs_allocBuf (fun hex => ?_) (fun hex hd => ?_) (fun hex hd => ?_)
  · refine Or.inl ⟨rfl, rfl, fun _ => BufMgr.pinned_of_exhausted hex, ?_⟩
    have he : BufMgr.evicts s = false := by
      unfold BufMgr.exhausted at hex
      simp only [Bool.and_eq_true, Bool.not_eq_true'] at hex
      exact hex.1
    exact h.touch hsw.numBufs hsw.bufTable hsw.bufPool (hsw.kept he) hhand
  · refine Or.inr ⟨rfl, BufMgr.victim s, rfl, ?_, hsw.numBufs ▸ hhand, ?_, hlook⟩
    · intro hfull
      obtain ⟨hv, hp⟩ := hfull _ hhand
      cases he : BufMgr.evicts s with
      | false =>
        rw [hfree hex he] at hv
        cases hv
      | true => exact absurd (hsw.evicted he).2.1 (Nat.ne_of_gt hp)
    · rw [hsw.bufTable] at hd
      cases he : BufMgr.evicts s with
      | false =>
        refine (h.release (hfree hex he) hhand).touch hsw.numBufs ?_ hsw.bufPool (hsw.kept he) hhand
        show Function.update _ _ _ = Function.update _ _ _
        rw [hsw.bufTable]
      | true =>
        obtain ⟨hv, hp, -⟩ := hsw.evicted he
        refine htouch { s with buf := s.buf.evicted (BufMgr.victim s) } rfl he
          (h.evict hhand hv hp ?_)
        intro nm c fv uf blk _ _ _ _ hd'
        have hd : (s.buf.bufTable (BufMgr.victim s)).dirty = false := hd
        rw [hd] at hd'
        cases hd'
  · rw [hsw.bufTable] at hd ⊢
    rw [hsw.bufPool]
    have he : BufMgr.evicts s = true := by
      rw [← Bool.not_eq_false]
      intro he
      rw [hcons.clean _ hhand (hfree hex he)] at hd
      cases hd
    obtain ⟨hv, hp, -⟩ := hsw.evicted he
    have hself := (hcons.valid_iff _ hhand).mp hv
    obtain ⟨nm, c, fv, hh, hf, ha, -⟩ := h.exists_loc hself
    obtain ⟨uf, huf, hst, -⟩ := h.stored nm fv hf
    have hw := File.yields_writePage (s := BufMgr.swept s)
      (b := s.buf.bufPool (BufMgr.victim s)) h.io (h.opened nm _ c hh).obj huf hst ha
    refine Runs.of_yields hw (Or.inr ⟨rfl, BufMgr.victim s, rfl, ?_, ?_, ?_, hlook⟩)
    · intro hfull
      exact absurd hp (Nat.ne_of_gt (hfull _ hhand).2)
    · show BufMgr.victim s < (BufMgr.swept s).buf.numBufs
      rw [hsw.numBufs]
      exact hhand
    · have h₁ := h.written hh huf hself hd
      refine htouch { s.setUnix nm (some (uf.write (s.buf.bufTable (BufMgr.victim s)).pageNo.toNat
        (s.buf.bufPool (BufMgr.victim s)))) with buf := s.buf.evicted (BufMgr.victim s) } rfl he
          (h₁.evict hhand hv hp ?_)
      intro nm' c' fv' uf' blk hh' _ _ huf' _
      obtain rfl := h.name_unique hh hh'
      have huf' : Function.update s.unix nm _ nm = some uf' := huf'
      rw [Function.update_self] at huf'
      cases huf'
      exact UnixFile.page_write_self

/-! ## Reading, pinning and writing pages -/

/-- The page is not buffered and cannot be, because every frame is pinned. -/
def NoFrame (s : Sys) (f : FilePtr) (p : Int) : Prop :=
  s.buf.hashTable.lookup f p = none ∧ s.buf.Full

/-- `BufMgr::readPage` of an allocated page pins it. -/
theorem readPage (h : Coh s P v) (hh : v.handle nm = some (f, c)) (hf : v.file nm = some fv)
    (hp : fv.alloc p) (page : PagePtr) :
    Runs T (BufMgr.readPage f p page) s fun r e s' =>
      (e = true ∧ r = (.BUFFEREXCEEDED, page) ∧ NoFrame s f p ∧ Coh s' P v) ∨
      (e = false ∧ ∃ n, r = (.OK, .frame n) ∧ ¬NoFrame s f p ∧
      Coh s' (⟨f, p, n, false⟩ ::ₘ P) v) := by
  unfold BufMgr.readPage
  rw [runs_get_bind]
  split
  next n hl =>
    rw [runs_modifyBuf_bind, runs_pure]
    refine Or.inr ⟨rfl, n, rfl, fun hno => ?_, h.repin hl⟩
    rw [hno.1] at hl
    cases hl
  next hl =>
    refine h.allocBuf.bind ?_
    rintro ⟨status, n'⟩ e s₁ (⟨rfl, hs, hfull, h₁⟩ | ⟨rfl, n, hr, hfull, hn, h₁, hlook⟩)
    · have hs : status = .BUFFEREXCEEDED := hs
      subst hs
      dsimp only
      rw [if_pos (by decide), runs_pure]
      exact Or.inl ⟨rfl, rfl, ⟨hl, hfull⟩, h₁⟩
    · cases hr
      dsimp only
      rw [if_neg (by decide), runs_get_bind]
      obtain ⟨uf, huf, hst, hpages⟩ := h₁.stored nm fv hf
      have hrd := File.yields_readPage (s := s₁) h₁.io (h₁.opened nm f c hh).obj huf hst hp
        (s₁.buf.bufPool n')
      rw [runs_bind_of_yields hrd]
      dsimp only
      rw [runs_modifyBuf_bind, if_neg (by decide)]
      obtain ⟨t, ht, hy⟩ := BufMgr.enterPage_spec
        (s := { s₁ with buf := s₁.buf.setPool n' (uf.page p.toNat) }) n' (hlook f p hl)
      refine Runs.of_yields hy (Or.inr ⟨rfl, n', rfl, fun hno => hfull hno.2, ?_⟩)
      refine h₁.entered _ hn (hlook f p hl) hh hf hp ht fun b hb => ?_
      refine (hpages p hp).on_disk b hb ?_
      rw [View.loc_of_handle hh]
      exact hlook f p hl

/-- `BufMgr::unPinPage` gives back a pin. If the page is reported dirty, what was on disk is not
going to stay. -/
theorem unPinPage {dirty : Bool} (h : Coh s (x ::ₘ P) v) (hh : v.handle nm = some (x.file, c))
    (hf : v.file nm = some fv) (hw : x.wrote = true → dirty = true) :
    ∃ s', Yields (BufMgr.unPinPage x.file x.pageNo dirty) s .OK false s' ∧
      Coh s' P (v.setFile nm (some (if dirty then fv.forget x.pageNo else fv))) := by
  have hx : x ∈ x ::ₘ P := Multiset.mem_cons_self x P
  have hl := h.pins x hx
  have hloc : v.loc s.buf nm x.pageNo = some x.frame := (View.loc_of_handle hh _).trans hl
  obtain ⟨hn, -, -, -⟩ := h.sound.consistent.entry _ _ _ hl
  have hpos : (s.buf.bufTable x.frame).pinCnt ≠ 0 := by
    rw [h.counts _ hn, Multiset.countP_cons, if_pos rfl]
    omega
  refine ⟨{ s with buf := s.buf.setDesc x.frame ((s.buf.bufTable x.frame).unpinned dirty) }, ?_, ?_⟩
  · unfold BufMgr.unPinPage
    refine Yields.bind (e := false) (d := false) (t := s) rfl ?_
    simp only [hl]
    cases dirty with
    | true =>
      simp only [↓reduceIte]
      rw [if_neg hpos]
      exact (yields_modifyBuf _ s).bind (Yields.pure _ _)
    | false =>
      simp only [Bool.false_eq_true, ↓reduceIte]
      rw [if_neg hpos]
      exact (yields_modifyBuf _ s).bind (Yields.pure _ _)
  · cases dirty with
    | true =>
      have h₁ : Coh s (x ::ₘ P) (v.setFile nm (some (fv.forget x.pageNo))) :=
        h.weaken hf rfl rfl (fun p c hc => hc) fun p c hc => (of_update_none hc).2
      refine h₁.unpin hw fun nm' fv' hf' hl' _ => ?_
      obtain ⟨rfl, -⟩ := h.loc_inj hl' hloc
      rw [View.file_setFile_self] at hf'
      cases hf'
      exact Function.update_self _ _ _
    | false =>
      rw [if_neg (by decide), View.setFile_self hf]
      exact h.unpin hw fun _ _ _ _ hd => by cases hd

/-- Following a pointer into the pool. -/
theorem derefPage (h : Coh s P v) (hx : x ∈ P) (hh : v.handle nm = some (x.file, c))
    (hf : v.file nm = some fv) (hcur : fv.cur x.pageNo = some blk) :
    Yields (derefPage (.frame x.frame)) s blk false s := by
  have hb := h.content hx hh hf (h.alloc_of_pin hx hh hf) hcur
  subst hb
  rfl

/-- Writing through a pointer into the pool. -/
theorem assignPage (h : Coh s (x ::ₘ P) v) (hh : v.handle nm = some (x.file, c))
    (hf : v.file nm = some fv) (blk : Block) :
    ∃ s', Yields (assignPage (.frame x.frame) blk) s () false s' ∧
      Coh s' ({ x with wrote := true } ::ₘ P) (v.setFile nm (some (fv.assign x.pageNo blk))) :=
  ⟨_, yields_modifyBuf (fun b => b.setPool x.frame blk) s, h.assign hh hf⟩

/-! ## Allocating and disposing of pages -/

/-- `BufMgr::allocPage` pins a page that was not allocated, with content that is not specified. If
every frame is pinned the page is allocated all the same. -/
theorem allocPage (h : Coh s P v) (hh : v.handle nm = some (f, c)) (hf : v.file nm = some fv)
    (page : PagePtr) :
    Runs T (BufMgr.allocPage f page) s fun r e s' => ∃ p, ¬fv.alloc p ∧ 1 ≤ p ∧
      ((e = true ∧ r = (.BUFFEREXCEEDED, p, page) ∧ s.buf.Full ∧
        Coh s' P (v.setFile nm (some (fv.allocate p)))) ∨
      (e = false ∧ ∃ n, r = (.OK, p, .frame n) ∧ ¬s.buf.Full ∧
        Coh s' (⟨f, p, n, false⟩ ::ₘ P) (v.setFile nm (some (fv.allocate p))))) := by
  obtain ⟨uf, huf, hst, -⟩ := h.stored nm fv hf
  obtain ⟨p, uf', hy, hnew, hst', hsame⟩ :=
    File.allocatePage_spec h.io (h.opened nm f c hh).obj huf hst
  have h₁ := h.allocate hf huf hst' hsame
  have hp : (fv.allocate p).alloc p := Or.inl rfl
  have hp₁ : 1 ≤ p := (hst'.range hp).1
  unfold BufMgr.allocPage
  rw [runs_bind_of_yields hy]
  dsimp only
  rw [if_neg (by decide)]
  refine h₁.allocBuf.bind ?_
  rintro ⟨status, n'⟩ e s₁ (⟨rfl, hs, hfull, h₂⟩ | ⟨rfl, n, hr, hfull, hn, h₂, hlook⟩)
  · have hs : status = .BUFFEREXCEEDED := hs
    subst hs
    dsimp only
    rw [if_pos (by decide), runs_pure]
    exact ⟨p, hnew, hp₁, Or.inl ⟨rfl, rfl, hfull, h₂⟩⟩
  · cases hr
    dsimp only
    rw [if_neg (by decide)]
    have hl : s.buf.hashTable.lookup f p = none := by
      cases hl : s.buf.hashTable.lookup f p with
      | none => rfl
      | some m =>
        obtain ⟨nm', c', fv', h₃, h₄, h₅⟩ := h.cached f p m hl
        obtain rfl := h.name_unique h₃ hh
        rw [hf] at h₄
        cases h₄
        exact absurd h₅ hnew
    obtain ⟨t, ht, hy₂⟩ := BufMgr.enterPage_spec (s := s₁) n' (hlook f p hl)
    rw [runs_bind_of_yields hy₂, runs_pure]
    refine ⟨p, hnew, hp₁, Or.inr ⟨rfl, n', rfl, hfull, ?_⟩⟩
    have hpool : s₁.buf.setPool n' (s₁.buf.bufPool n') = s₁.buf := by
      simp [BufMgr.setPool]
    have h₃ := h₂.entered (s₁.buf.bufPool n') hn (hlook f p hl) hh
      View.file_setFile_self hp ht fun b hb => absurd rfl (of_update_none hb).1
    rwa [hpool] at h₃

/-- `BufMgr::disposePage` of an allocated page that is not pinned and is not the first. -/
theorem disposePage (h : Coh s P v) (hh : v.handle nm = some (f, c)) (hf : v.file nm = some fv)
    (hp : fv.alloc p) (hpf : p ≠ fv.first) (hpin : ∀ x ∈ P, x.file = f → x.pageNo ≠ p) :
    ∃ s', Yields (BufMgr.disposePage f p) s .OK false s' ∧
      Coh s' P (v.setFile nm (some (fv.dispose p))) := by
  -- the content of the page is given up first
  set fv₀ : FileView := { fv with cur := Function.update fv.cur p none } with hfv₀
  have h₀ : Coh s P (v.setFile nm (some fv₀)) :=
    h.weaken hf rfl rfl (fun p c hc => (of_update_none hc).2) fun p c hc => hc
  have hdisp : fv₀.dispose p = fv.dispose p := by
    simp [hfv₀, FileView.dispose]
  have hcons := h.sound.consistent
  -- what happens on disk once the page has left the pool
  have hdisk : ∀ b : BufMgr, Coh { s with buf := b } P (v.setFile nm (some fv₀)) →
      b.hashTable.lookup f p = none →
      Runs True (File.disposePage f p) { s with buf := b } fun st e s' =>
        st = .OK ∧ e = false ∧ Coh s' P (v.setFile nm (some (fv.dispose p))) := by
    intro b hb hl
    obtain ⟨uf, huf, hst, -⟩ := hb.stored nm fv₀ View.file_setFile_self
    obtain ⟨uf', hy, hst', hsame⟩ :=
      File.disposePage_spec hb.io (hb.opened nm f c hh).obj huf hst hp hpf
    refine Runs.of_yields hy ⟨rfl, rfl, ?_⟩
    have := hb.dispose View.file_setFile_self huf ((View.loc_of_handle hh p).trans hl) hst' hsame
    rwa [View.setFile_setFile, hdisp] at this
  refine Runs.yields ?_
  unfold BufMgr.disposePage
  rw [runs_get_bind]
  split
  next n hl =>
    rw [runs_modifyBuf_bind, runs_modifyBuf_bind]
    obtain ⟨hn, hv, rfl, rfl⟩ := hcons.entry _ _ _ hl
    have hcnt : (s.buf.bufTable n).pinCnt = 0 := by
      rw [h.counts n hn, Multiset.countP_eq_zero]
      intro x hx hxn
      obtain ⟨-, -, e₁, e₂⟩ := hcons.entry _ _ _ (h.pins x hx)
      rw [hxn] at e₁ e₂
      exact hpin x hx e₁.symm e₂.symm
    refine hdisk (s.buf.evicted n) (h₀.evict hn hv hcnt ?_) ?_
    · intro nm' c' fv' uf blk hh' hf' hcur
      obtain rfl := h.name_unique hh' hh
      rw [View.file_setFile_self] at hf'
      cases hf'
      exact absurd rfl (of_update_none hcur).1
    · rw [Option.eq_none_iff_forall_ne_some]
      intro m hm
      obtain ⟨hmn, hm⟩ := (BufMgr.lookup_evicted hcons hn hv).mp hm
      rw [hl] at hm
      exact hmn (Option.some.inj hm).symm
  next hl =>
    dsimp only
    rw [runs_modifyBuf_bind]
    have herase : (s.buf.hashTable.remove f p).2 = s.buf.hashTable := by
      unfold BufHashTbl.remove
      rw [(ChainTable.erase?_eq_none_iff _ _).mpr hl]
    rw [herase]
    exact hdisk s.buf h₀ hl

/-- `BufMgr::disposePage` of the first page is refused. -/
theorem disposePage_first (h : Coh s P v) (hh : v.handle nm = some (f, c))
    (hf : v.file nm = some fv) :
    ∃ s', Yields (BufMgr.disposePage f fv.first) s .BADPAGENO false s' := by
  obtain ⟨uf, huf, hst, -⟩ := h.stored nm fv hf
  have hdisk : ∀ b : BufMgr, Runs True (File.disposePage f fv.first) { s with buf := b }
      fun st e _ => st = .BADPAGENO ∧ e = false ∧ True := fun b =>
    Runs.of_yields (File.disposePage_first (s := { s with buf := b }) h.io (h.opened nm f c hh).obj
      huf hst) ⟨rfl, rfl, trivial⟩
  obtain ⟨s', hy, -⟩ : ∃ s', Yields (BufMgr.disposePage f fv.first) s .BADPAGENO false s' ∧
    True := by
    refine Runs.yields ?_
    unfold BufMgr.disposePage
    rw [runs_get_bind]
    split
    next =>
      rw [runs_modifyBuf_bind, runs_modifyBuf_bind]
      exact hdisk _
    next =>
      dsimp only
      rw [runs_modifyBuf_bind]
      exact hdisk _
  exact ⟨s', hy⟩

/-! ## Flushing -/

/-- The page in a frame that is not pinned leaves the pool in `flushFile`, written back if it is
dirty. -/
theorem flushFrame (h : Coh s P v) (hn : n < s.buf.numBufs) (hv : (s.buf.bufTable n).valid = true)
    (hpin : (s.buf.bufTable n).pinCnt = 0) :
    ∃ (s₁ : Sys) (b : BufMgr), Yields (BufMgr.flushFrame n) s .OK false { s₁ with buf := b } ∧
      ({ b.setDesc n BufMgr.idleDesc with hashTable :=
        (b.hashTable.remove (s.buf.bufTable n).file (s.buf.bufTable n).pageNo).2 } : BufMgr) =
        s.buf.evicted n ∧
      Coh { s₁ with buf := s.buf.evicted n } P v := by
  cases hd : (s.buf.bufTable n).dirty with
  | false =>
    refine ⟨s, s.buf, ?_, rfl, h.evict hn hv hpin fun nm c fv uf blk _ _ _ _ hd' => ?_⟩
    · unfold BufMgr.flushFrame
      refine Yields.bind (e := false) (d := false) (t := s) rfl ?_
      simp only [hd, Bool.false_eq_true, ↓reduceIte]
      exact Yields.pure _ _
    · rw [hd] at hd'
      cases hd'
  | true =>
    have hself := (h.sound.consistent.valid_iff n hn).mp hv
    obtain ⟨nm, c, fv, hh, hfv, ha, -⟩ := h.exists_loc hself
    obtain ⟨uf, huf, hst, -⟩ := h.stored nm fv hfv
    have hw := File.yields_writePage (b := s.buf.bufPool n) h.io (h.opened nm _ c hh).obj huf hst ha
    have h₁ := h.written hh huf hself hd
    refine ⟨s.setUnix nm _, s.buf.setDesc n { s.buf.bufTable n with dirty := false }, ?_, ?_,
      h₁.evict hn hv hpin fun nm' c' fv' uf' blk hh' _ _ huf' _ => ?_⟩
    · unfold BufMgr.flushFrame
      refine Yields.bind (e := false) (d := false) (t := s) rfl ?_
      simp only [hd, ↓reduceIte]
      refine hw.bind (d := false) ?_
      simp only [ne_eq, not_true_eq_false, ↓reduceIte]
      exact (yields_modifyBuf _ _).bind (Yields.pure _ _)
    · rw [BufMgr.setDesc_setDesc]
      rfl
    · obtain rfl := h.name_unique hh hh'
      have huf' : Function.update s.unix nm _ nm = some uf' := huf'
      rw [Function.update_self] at huf'
      cases huf'
      exact UnixFile.page_write_self

/-- The loop of `flushFile` writes back and empties the frames of a file up to one that is
pinned. -/
theorem flushFrames (hf₀ : f ≠ 0) : ∀ (n i : Nat) {s : Sys}, Coh s P v → i + n = s.buf.numBufs →
    ∃ st s', Yields (BufMgr.flushFrames f n i) s st false s' ∧ Coh s' P v ∧
      (∀ m < i, s'.buf.bufTable m = s.buf.bufTable m) ∧
      (st = .OK ∧ (∀ m < v.numBufs, i ≤ m → (s'.buf.bufTable m).valid = true →
        (s'.buf.bufTable m).file ≠ f) ∨ st = .PAGEPINNED ∧ ∃ x ∈ P, x.file = f)
  | 0, i, s => by
    intro h hi
    refine ⟨.OK, s, Yields.pure _ _, h, fun _ _ => rfl, Or.inl ⟨rfl, fun m hm him => ?_⟩⟩
    rw [← h.numBufs] at hm
    omega
  | n + 1, i, s => by
    intro h hi
    have hcons := h.sound.consistent
    have hN := h.numBufs
    have hin : i < s.buf.numBufs := by omega
    -- the frames after `i`, once frame `i` holds no page of the file
    have hrest : ∀ {s₁ : Sys}, Coh s₁ P v → s₁.buf.numBufs = s.buf.numBufs →
        (∀ m < i, s₁.buf.bufTable m = s.buf.bufTable m) →
        ((s₁.buf.bufTable i).valid = true → (s₁.buf.bufTable i).file ≠ f) →
        Runs True (BufMgr.flushFrames f n (i + 1)) s₁ fun st e s' => e = false ∧ Coh s' P v ∧
          (∀ m < i, s'.buf.bufTable m = s.buf.bufTable m) ∧
          (st = .OK ∧ (∀ m < v.numBufs, i ≤ m → (s'.buf.bufTable m).valid = true →
            (s'.buf.bufTable m).file ≠ f) ∨ st = .PAGEPINNED ∧ ∃ x ∈ P, x.file = f) := by
      intro s₁ h₁ hN₁ hlt hclear
      obtain ⟨st, s', hy, h', hbelow, hst⟩ := flushFrames hf₀ n (i + 1) h₁ (by omega)
      refine Runs.of_yields hy ⟨rfl, h', fun m hm => ?_, ?_⟩
      · rw [hbelow m (by omega), hlt m hm]
      · refine hst.imp_left fun ⟨hok, hall⟩ => ⟨hok, fun m hm him => ?_⟩
        rcases Nat.eq_or_lt_of_le him with rfl | him
        · rw [hbelow i (by omega)]
          exact hclear
        · exact hall m hm him
    suffices hruns : Runs True (BufMgr.flushFrames f (n + 1) i) s fun st e s' => e = false ∧
        Coh s' P v ∧ (∀ m < i, s'.buf.bufTable m = s.buf.bufTable m) ∧
        (st = .OK ∧ (∀ m < v.numBufs, i ≤ m → (s'.buf.bufTable m).valid = true →
          (s'.buf.bufTable m).file ≠ f) ∨ st = .PAGEPINNED ∧ ∃ x ∈ P, x.file = f) by
      obtain ⟨st, e, s', hy, rfl, hQ⟩ := hruns.exists
      exact ⟨st, s', hy, hQ⟩
    unfold BufMgr.flushFrames
    rw [runs_get_bind]
    dsimp only
    split
    next hc =>
      obtain ⟨hv, hfile⟩ := hc
      split
      next hpin =>
        rw [runs_pure]
        rw [h.counts i hin, gt_iff_lt, Multiset.countP_pos] at hpin
        obtain ⟨x, hx, hxi⟩ := hpin
        refine ⟨rfl, h, fun _ _ => rfl, Or.inr ⟨rfl, x, hx, ?_⟩⟩
        rw [← hfile, ← hxi]
        exact (hcons.entry _ _ _ (h.pins x hx)).2.2.1.symm
      next hpin =>
        have hpin : (s.buf.bufTable i).pinCnt = 0 := by omega
        obtain ⟨s₁, b, hy, hev, h₁⟩ := h.flushFrame hin hv hpin
        rw [runs_bind_of_yields hy, if_neg (by decide), runs_modifyBuf_bind, hpin, ← hfile]
        have hgo := hrest h₁ rfl (fun m hm => BufMgr.bufTable_evicted_of_ne (by omega))
          (by rw [BufMgr.bufTable_evicted_self]; exact fun hv => Bool.noConfusion hv)
        rw [← hev, ← hfile] at hgo
        exact hgo
    next hc =>
      rw [if_neg]
      · exact hrest h rfl (fun _ _ => rfl) fun hv hfile => hc ⟨hv, hfile⟩
      · rintro ⟨hv, hfile⟩
        have := (h.idle i hin (by simpa using hv)).1
        exact hf₀ (hfile.symm.trans this)

/-- `BufMgr::flushFile` takes all pages of a file out of the pool, unless one of them is pinned. -/
theorem flushFile (h : Coh s P v) (hf₀ : f ≠ 0) :
    ∃ st s', Yields (BufMgr.flushFile f) s st false s' ∧ Coh s' P v ∧
      (st = .OK ∧ (∀ p, s'.buf.hashTable.lookup f p = none) ∨
        st = .PAGEPINNED ∧ ∃ x ∈ P, x.file = f) := by
  obtain ⟨st, s', hy, h', -, hst⟩ := flushFrames hf₀ s.buf.numBufs 0 h (by omega)
  refine ⟨st, s', ?_, h', hst.imp_left fun ⟨hok, hall⟩ => ⟨hok, fun p => ?_⟩⟩
  · unfold BufMgr.flushFile
    exact Yields.bind (e := false) (d := false) (t := s) rfl hy
  · rw [Option.eq_none_iff_forall_ne_some]
    intro m hm
    obtain ⟨h₁, h₂, h₃, -⟩ := h'.sound.consistent.entry _ _ _ hm
    exact hall m (h'.numBufs ▸ h₁) (Nat.zero_le m) h₂ h₃

/-- The content of a page that is not buffered is on disk. -/
theorem on_disk (h : Coh s P v) (hh : v.handle nm = some (f, c)) (hf : v.file nm = some fv)
    (hp : fv.alloc p) (hl : s.buf.hashTable.lookup f p = none) (hcur : fv.cur p = some blk) :
    ∃ uf, s.unix nm = some uf ∧ uf.page? p = some blk := by
  obtain ⟨uf, huf, hst, hpages⟩ := h.stored nm fv hf
  obtain ⟨h₁, h₂⟩ := hst.range hp
  refine ⟨uf, huf, ?_⟩
  rw [UnixFile.page?_of_lt (by omega) h₂]
  exact congrArg some ((hpages p hp).on_disk blk hcur ((View.loc_of_handle hh p).trans hl))

end Coh

end Minirel
