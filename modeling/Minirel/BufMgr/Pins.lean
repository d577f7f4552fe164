import Minirel.BufMgr.Table

/-!
# Pinned frames

A client that pins a page holds a pointer into the pool until it unpins the page. While the buffer
manager is sound, its operations leave a pinned frame to its page and its content to the clients:
`allocBuf` takes frames that are free or not pinned, `flushFile` stops at a pinned frame, and
`enterPage` fills the frame that `allocBuf` returned. `disposePage` alone looks at no pin count.
-/

namespace Minirel

open Comp

namespace BufMgr

/-! ## Frames that hold no page -/

/-- A frame that holds no page belongs to no file and is not pinned. -/
def Idle (b : BufMgr) : Prop :=
  ∀ n < b.numBufs, (b.bufTable n).valid = false →
    (b.bufTable n).file = 0 ∧ (b.bufTable n).pinCnt = 0

/-- A pool without pages. -/
theorem Idle.new (bufs : Nat) (hash : FilePtr × Int → Fin (htsize bufs)) :
    (BufMgr.new bufs hash).Idle := fun _ _ _ => ⟨rfl, rfl⟩

/-- Only the descriptors count. -/
theorem Idle.of_eq {b b' : BufMgr} (h : b.Idle) (hN : b'.numBufs = b.numBufs)
    (hd : b'.bufTable = b.bufTable) : b'.Idle := by
  unfold Idle
  rw [hN, hd]
  exact h

/-- A descriptor is overwritten by one that holds a page or is empty. -/
theorem Idle.setDesc {b : BufMgr} (h : b.Idle) (n : Nat) {d : BufDesc}
    (hd : d.valid = false → d.file = 0 ∧ d.pinCnt = 0) : (b.setDesc n d).Idle := by
  intro m hm hv
  by_cases hmn : m = n
  · subst hmn
    rw [bufTable_setDesc_self] at hv ⊢
    exact hd hv
  · rw [bufTable_setDesc_of_ne b hmn] at hv ⊢
    exact h m hm hv

/-- A pinned frame holds a page. -/
theorem Idle.valid {b : BufMgr} (h : b.Idle) {n : Nat} (hn : n < b.numBufs)
    (hpin : 0 < (b.bufTable n).pinCnt) : (b.bufTable n).valid = true := by
  by_contra hv
  have := (h n hn (by simpa using hv)).2
  omega

/-! ## What a pinned frame keeps -/

/-- A frame that is pinned in `b` holds the same page in `b'`, is found under it and has the same
content; its pin count has grown by `k`. -/
structure Holds (b b' : BufMgr) (n : Nat) (k : Int) : Prop where
  file : (b'.bufTable n).file = (b.bufTable n).file
  pageNo : (b'.bufTable n).pageNo = (b.bufTable n).pageNo
  valid : (b'.bufTable n).valid = true
  mapped : b'.hashTable.lookup (b.bufTable n).file (b.bufTable n).pageNo = some n
  content : b'.bufPool n = b.bufPool n
  pinCnt : ((b'.bufTable n).pinCnt : Int) = (b.bufTable n).pinCnt + k

/-- Every pinned frame is left alone. -/
def KeepsPinned (b b' : BufMgr) : Prop :=
  ∀ n < b.numBufs, 0 < (b.bufTable n).pinCnt → Holds b b' n 0

section Sound

variable {b b' : BufMgr} {n m : Nat}

/-- A pinned frame of a sound pool is found under its page. -/
theorem Sound.lookup_pinned (h : b.Sound) (hi : b.Idle) (hn : n < b.numBufs)
    (hpin : 0 < (b.bufTable n).pinCnt) :
    b.hashTable.lookup (b.bufTable n).file (b.bufTable n).pageNo = some n :=
  (h.consistent.valid_iff n hn).mp (hi.valid hn hpin)

/-- Pinned frames whose descriptor, content and entry are as they were are left alone. -/
theorem KeepsPinned.of_eq (h : b.Sound) (hi : b.Idle)
    (hd : ∀ n < b.numBufs, 0 < (b.bufTable n).pinCnt → b'.bufTable n = b.bufTable n)
    (hp : ∀ n < b.numBufs, 0 < (b.bufTable n).pinCnt → b'.bufPool n = b.bufPool n)
    (ht : ∀ file pageNo n, b.hashTable.lookup file pageNo = some n →
      0 < (b.bufTable n).pinCnt → b'.hashTable.lookup file pageNo = some n) :
    KeepsPinned b b' := by
  intro n hn hpin
  have hlook := h.lookup_pinned hi hn hpin
  have heq := hd n hn hpin
  refine ⟨?_, ?_, ?_, ht _ _ n hlook hpin, hp n hn hpin, ?_⟩
  · rw [heq]
  · rw [heq]
  · rw [heq]
    exact hi.valid hn hpin
  · rw [heq, Int.add_zero]

/-- Nothing happened to the pool. -/
theorem KeepsPinned.refl (h : b.Sound) (hi : b.Idle) : KeepsPinned b b :=
  .of_eq h hi (fun _ _ _ => rfl) (fun _ _ _ => rfl) fun _ _ _ hl _ => hl

/-- Two steps one after the other. -/
theorem KeepsPinned.trans {b'' : BufMgr} (h : KeepsPinned b b') (h' : KeepsPinned b' b'')
    (hN : b'.numBufs = b.numBufs) : KeepsPinned b b'' := by
  intro n hn hpin
  have h₁ := h n hn hpin
  have hcnt := h₁.pinCnt
  have h₂ := h' n (hN ▸ hn) (by omega)
  have hmap := h₂.mapped
  rw [h₁.file, h₁.pageNo] at hmap
  have hcnt' := h₂.pinCnt
  exact ⟨h₂.file.trans h₁.file, h₂.pageNo.trans h₁.pageNo, h₂.valid, hmap,
    h₂.content.trans h₁.content, by omega⟩

/-- Taking the page of a frame that is not pinned out of the hash table touches no entry of a
pinned frame. -/
theorem lookup_remove_pinned (h : b.Sound) (hm : m < b.numBufs)
    (hv : (b.bufTable m).valid = true) (hpin : (b.bufTable m).pinCnt = 0) {file : FilePtr}
    {pageNo : Int} (hl : b.hashTable.lookup file pageNo = some n)
    (hn : 0 < (b.bufTable n).pinCnt) :
    (b.hashTable.remove (b.bufTable m).file (b.bufTable m).pageNo).2.lookup file
      pageNo = some n := by
  rw [BufHashTbl.lookup_remove, if_neg, hl]
  rintro ⟨rfl, rfl⟩
  -- the entry of the page of `m` leads to `m`
  rw [(h.consistent.valid_iff m hm).mp hv, Option.some.injEq] at hl
  subst hl
  omega

end Sound

section Operations

variable {s : Sys}

/-- What `allocBuf` leaves: the frames as they were, and every entry of a pinned frame; the frame
it returns is not pinned. -/
theorem allocBuf_pinned (h : s.buf.Sound) (hi : s.buf.Idle) :
    Runs False allocBuf s fun r _ s' =>
      s'.buf.numBufs = s.buf.numBufs ∧ s'.buf.bufTable = s.buf.bufTable ∧
      s'.buf.bufPool = s.buf.bufPool ∧
      (∀ file pageNo n, s.buf.hashTable.lookup file pageNo = some n →
        0 < (s.buf.bufTable n).pinCnt → s'.buf.hashTable.lookup file pageNo = some n) ∧
      (r.1 = .OK → r.2 < s.buf.numBufs ∧ (s.buf.bufTable r.2).pinCnt = 0) := by
  have hsw := swept_spec s
  have hhand := hsw.clockHand h.numBufs_pos h.clockHand_lt
  have hlook : ∀ file pageNo n, s.buf.hashTable.lookup file pageNo = some n →
      0 < (s.buf.bufTable n).pinCnt →
      (swept s).buf.hashTable.lookup file pageNo = some n := by
    intro file pageNo n hl hpin
    cases he : evicts s with
    | true =>
      obtain ⟨hv, hzero, ht⟩ := hsw.evicted he
      rw [ht]
      exact lookup_remove_pinned h hhand hv hzero hl hpin
    | false =>
      rw [hsw.kept he]
      exact hl
  have hzero : exhausted s = false → (s.buf.bufTable (victim s)).pinCnt = 0 := by
    intro hex
    cases he : evicts s with
    | true => exact (hsw.evicted he).2.1
    | false =>
      refine (hi _ hhand (hsw.free he fun hleft => ?_)).2
      have hfound : (clockSweep (2 * s.buf.numBufs) s.buf).2.1 = false := he
      rw [exhausted, hfound, hleft] at hex
      cases hex
  refine runs_allocBuf (fun _ => ?_) (fun hex _ => ?_) (fun hex _ => ?_)
  · exact ⟨hsw.numBufs, hsw.bufTable, hsw.bufPool, hlook, fun hst => absurd hst (by decide)⟩
  · exact ⟨hsw.numBufs, hsw.bufTable, hsw.bufPool, hlook, fun _ => ⟨hhand, hzero hex⟩⟩
  · refine (KeepsBuf.writePage _ _ _ (swept s)).mono ?_
    rintro status e s' ⟨-, hbuf⟩
    rw [hbuf]
    exact ⟨hsw.numBufs, hsw.bufTable, hsw.bufPool, hlook, fun _ => ⟨hhand, hzero hex⟩⟩

/-- `enterPage` overwrites the descriptor of its frame, and no entry of the hash table. -/
theorem enterPage_pinned (file : FilePtr) (pageNo : Int) (n : Nat) :
    Runs False (enterPage file pageNo n) s fun _ _ s' =>
      s'.buf.numBufs = s.buf.numBufs ∧ s'.buf.bufPool = s.buf.bufPool ∧
      s'.buf.bufTable = (s.buf.setDesc n ⟨file, pageNo, 1, false, true⟩).bufTable ∧
      ∀ file' pageNo' m, s.buf.hashTable.lookup file' pageNo' = some m →
        s'.buf.hashTable.lookup file' pageNo' = some m := by
  unfold enterPage
  rw [runs_get_bind]
  dsimp only
  rw [runs_set_bind, runs_pure]
  refine ⟨rfl, rfl, rfl, fun file' pageNo' m hl => ?_⟩
  show ((s.buf.hashTable.insert file pageNo n).2).lookup file' pageNo' = some m
  cases hfree : s.buf.hashTable.lookup file pageNo with
  | none =>
    obtain ⟨t, ht, hlook⟩ := BufHashTbl.insert_of_lookup_eq_none n hfree
    rw [ht, hlook, if_neg]
    · exact hl
    · rintro ⟨rfl, rfl⟩
      rw [hfree] at hl
      cases hl
  | some k =>
    rw [BufHashTbl.insert_of_lookup_ne_none n (by rw [hfree]; exact nofun)]
    exact hl

/-- What entering a page into a frame that is not pinned leaves of the pool. -/
theorem enterPage_keeps {b₀ : BufMgr} (h₀ : b₀.Sound) (hi₀ : b₀.Idle) {n : Nat}
    (hzero : (b₀.bufTable n).pinCnt = 0) (hN : s.buf.numBufs = b₀.numBufs)
    (hd : s.buf.bufTable = b₀.bufTable)
    (hp : ∀ m, m ≠ n → s.buf.bufPool m = b₀.bufPool m)
    (ht : ∀ file pageNo m, b₀.hashTable.lookup file pageNo = some m →
      0 < (b₀.bufTable m).pinCnt → s.buf.hashTable.lookup file pageNo = some m)
    (file : FilePtr) (pageNo : Int) :
    Runs False (enterPage file pageNo n) s fun _ _ s' =>
      s'.buf.Idle ∧ KeepsPinned b₀ s'.buf := by
  refine (enterPage_pinned file pageNo n).mono ?_
  rintro r e s' ⟨hN', hp', hd', ht'⟩
  have hidle : (s.buf.setDesc n ⟨file, pageNo, 1, false, true⟩).Idle :=
    (hi₀.of_eq hN hd).setDesc n nofun
  refine ⟨hidle.of_eq hN' hd', .of_eq h₀ hi₀ (fun m hm hpin => ?_) (fun m hm hpin => ?_)
    fun f p m hl hpin => ht' f p m (ht f p m hl hpin)⟩
  · have hmn : m ≠ n := by
      rintro rfl
      omega
    rw [hd', bufTable_setDesc_of_ne _ hmn, hd]
  · have hmn : m ≠ n := by
      rintro rfl
      omega
    rw [hp', hp m hmn]

/-- A call of `readPage` pins the frame of its page once more if there is one, and leaves every
other pinned frame alone. -/
theorem readPage_pinned (h : s.buf.Sound) (hi : s.buf.Idle) (file : FilePtr) (pageNo : Int)
    (page : PagePtr) :
    Runs False (readPage file pageNo page) s fun _ _ s' => s'.buf.Idle ∧
      ∀ n < s.buf.numBufs, 0 < (s.buf.bufTable n).pinCnt → Holds s.buf s'.buf n
        (if (s.buf.bufTable n).file = file ∧ (s.buf.bufTable n).pageNo = pageNo then 1 else 0) := by
  unfold readPage
  rw [runs_get_bind]
  split
  next m hl =>
    obtain ⟨hm, hv, hf, hp⟩ := h.consistent.entry _ _ _ hl
    rw [runs_modifyBuf_bind, runs_pure]
    refine ⟨((hi.setDesc m fun hv' => ?_).of_eq rfl rfl), fun n hn hpin => ?_⟩
    · exact absurd (hv.symm.trans hv') (by decide)
    · have hself := h.lookup_pinned hi hn hpin
      by_cases hnm : n = m
      · subst hnm
        rw [if_pos ⟨hf, hp⟩]
        refine ⟨?_, ?_, ?_, hself, rfl, ?_⟩ <;> dsimp only <;> rw [bufTable_setDesc_self]
        · exact hv
        · push_cast
          rfl
      · have hne : ¬((s.buf.bufTable n).file = file ∧ (s.buf.bufTable n).pageNo = pageNo) := by
          rintro ⟨h₁, h₂⟩
          rw [h₁, h₂, hl, Option.some.injEq] at hself
          exact hnm hself.symm
        rw [if_neg hne]
        refine ⟨?_, ?_, ?_, hself, rfl, ?_⟩ <;> dsimp only <;>
          rw [bufTable_setDesc_of_ne _ hnm]
        · rfl
        · rfl
        · exact hi.valid hn hpin
        · exact (Int.add_zero _).symm
  next hl =>
    -- no pinned frame holds the page
    have hne : ∀ n < s.buf.numBufs, 0 < (s.buf.bufTable n).pinCnt →
        ¬((s.buf.bufTable n).file = file ∧ (s.buf.bufTable n).pageNo = pageNo) := by
      rintro n hn hpin ⟨h₁, h₂⟩
      have hself := h.lookup_pinned hi hn hpin
      rw [h₁, h₂, hl] at hself
      cases hself
    suffices hsuf : Runs False _ s fun _ _ s' => s'.buf.Idle ∧ KeepsPinned s.buf s'.buf from
      hsuf.mono fun _ _ s' hs' => ⟨hs'.1, fun n hn hpin => by
        rw [if_neg (hne n hn hpin)]
        exact hs'.2 n hn hpin⟩
    refine (allocBuf_pinned h hi).bind ?_
    rintro ⟨status, n⟩ e s₁ ⟨hN, hd, hp, ht, hok⟩
    dsimp only at hok ⊢
    split
    next =>
      rw [runs_pure]
      exact ⟨hi.of_eq hN hd, .of_eq h hi (fun _ _ _ => by rw [hd]) (fun _ _ _ => by rw [hp])
        fun f p m hlm hpin => ht f p m hlm hpin⟩
    next hst =>
      obtain ⟨hn, hzero⟩ := hok (by simpa using hst)
      rw [runs_get_bind]
      refine (KeepsBuf.readPage _ _ _ s₁).bind ?_
      rintro ⟨status₂, blk⟩ e₂ s₂ ⟨-, hbuf⟩
      dsimp only
      rw [runs_modifyBuf_bind, hbuf]
      have hpool : ∀ m, m ≠ n → (s₁.buf.setPool n blk).bufPool m = s.buf.bufPool m := by
        intro m hmn
        rw [← hp]
        exact Function.update_of_ne hmn _ _
      split
      next =>
        -- the content of a frame that nobody has pinned is overwritten
        rw [runs_pure]
        refine ⟨hi.of_eq hN hd, .of_eq h hi (fun m _ _ => congrFun hd m) (fun m _ hpin => ?_)
          fun f p m hlm hpin => ht f p m hlm hpin⟩
        exact hpool m (by rintro rfl; omega)
      next =>
        exact enterPage_keeps (s := { s₂ with buf := s₁.buf.setPool n blk }) h hi hzero hN hd hpool
          (fun f p m hlm hpin => ht f p m hlm hpin) file pageNo

/-- `unPinPage` takes one pin off the frame of its page and leaves every other pinned frame
alone. -/
theorem unPinPage_pinned (h : s.buf.Sound) (hi : s.buf.Idle) (file : FilePtr) (pageNo : Int)
    (dirty : Bool) :
    Runs False (unPinPage file pageNo dirty) s fun _ _ s' => s'.buf.Idle ∧
      ∀ n < s.buf.numBufs, 0 < (s.buf.bufTable n).pinCnt → Holds s.buf s'.buf n
        (if (s.buf.bufTable n).file = file ∧ (s.buf.bufTable n).pageNo = pageNo then -1
          else 0) := by
  unfold unPinPage
  rw [runs_get_bind]
  split
  next hl =>
    rw [runs_pure]
    refine ⟨hi, fun n hn hpin => ?_⟩
    rw [if_neg]
    · exact KeepsPinned.refl h hi n hn hpin
    · rintro ⟨h₁, h₂⟩
      have hself := h.lookup_pinned hi hn hpin
      rw [h₁, h₂, hl] at hself
      cases hself
  next m hl =>
    obtain ⟨hm, hv, hf, hp⟩ := h.consistent.entry _ _ _ hl
    -- the descriptor is overwritten by one of the same page, with a pin less if there was one
    have hset : ∀ d : BufDesc, d.file = (s.buf.bufTable m).file →
        d.pageNo = (s.buf.bufTable m).pageNo → d.valid = true →
        d.pinCnt = (s.buf.bufTable m).pinCnt - 1 →
        (s.buf.setDesc m d).Idle ∧ ∀ n < s.buf.numBufs, 0 < (s.buf.bufTable n).pinCnt →
          Holds s.buf (s.buf.setDesc m d) n (if (s.buf.bufTable n).file = file ∧
            (s.buf.bufTable n).pageNo = pageNo then -1 else 0) := by
      intro d h₁ h₂ h₃ h₄
      refine ⟨hi.setDesc m fun hv' => absurd (h₃.symm.trans hv') (by decide), fun n hn hpin => ?_⟩
      have hself := h.lookup_pinned hi hn hpin
      by_cases hnm : n = m
      · subst hnm
        rw [if_pos ⟨hf, hp⟩]
        refine ⟨?_, ?_, ?_, hself, rfl, ?_⟩ <;> rw [bufTable_setDesc_self]
        · exact h₁
        · exact h₂
        · exact h₃
        · omega
      · have hne : ¬((s.buf.bufTable n).file = file ∧ (s.buf.bufTable n).pageNo = pageNo) := by
          rintro ⟨h₁, h₂⟩
          rw [h₁, h₂, hl, Option.some.injEq] at hself
          exact hnm hself.symm
        rw [if_neg hne]
        refine ⟨?_, ?_, ?_, hself, rfl, ?_⟩ <;> rw [bufTable_setDesc_of_ne _ hnm]
        · exact hi.valid hn hpin
        · omega
    -- whether the page is marked dirty makes no difference
    have hunpin : ∀ d : BufDesc, d.file = (s.buf.bufTable m).file →
        d.pageNo = (s.buf.bufTable m).pageNo → d.valid = true →
        d.pinCnt = (s.buf.bufTable m).pinCnt →
        Runs False (if d.pinCnt = 0 then do
            modifyBuf fun b => b.setDesc m d
            return Status.PAGENOTPINNED
          else do
            modifyBuf fun b => b.setDesc m { d with pinCnt := d.pinCnt - 1 }
            return Status.OK) s fun _ _ s' => s'.buf.Idle ∧
          ∀ n < s.buf.numBufs, 0 < (s.buf.bufTable n).pinCnt → Holds s.buf s'.buf n
            (if (s.buf.bufTable n).file = file ∧ (s.buf.bufTable n).pageNo = pageNo then -1
              else 0) := by
      intro d h₁ h₂ h₃ h₄
      refine Runs.ite (fun hzero => ?_) fun _ => ?_
      · rw [runs_modifyBuf_bind, runs_pure]
        exact hset d h₁ h₂ h₃ (by omega)
      · rw [runs_modifyBuf_bind, runs_pure]
        exact hset _ h₁ h₂ h₃ (by dsimp only; omega)
    cases dirty with
    | true => exact hunpin _ rfl rfl hv rfl
    | false => exact hunpin _ rfl rfl hv rfl

/-- `allocPage` leaves every pinned frame alone. -/
theorem allocPage_pinned (h : s.buf.Sound) (hi : s.buf.Idle) (file : FilePtr) (page : PagePtr) :
    Runs False (allocPage file page) s fun _ _ s' => s'.buf.Idle ∧ KeepsPinned s.buf s'.buf := by
  unfold allocPage
  refine (KeepsBuf.allocatePage file s).bind ?_
  rintro ⟨status, pageNo⟩ e s₁ ⟨-, hbuf⟩
  dsimp only
  rw [← hbuf] at h hi ⊢
  split
  next => exact runs_pure.mpr ⟨hi, .refl h hi⟩
  next =>
    refine (allocBuf_pinned h hi).bind ?_
    rintro ⟨status, n⟩ e s₂ ⟨hN, hd, hp, ht, hok⟩
    dsimp only at hok ⊢
    split
    next =>
      rw [runs_pure]
      exact ⟨hi.of_eq hN hd, .of_eq h hi (fun _ _ _ => by rw [hd]) (fun _ _ _ => by rw [hp])
        fun f p m hlm hpin => ht f p m hlm hpin⟩
    next hst =>
      obtain ⟨hn, hzero⟩ := hok (by simpa using hst)
      refine Runs.bind (enterPage_keeps h hi hzero hN hd (fun m _ => by rw [hp])
        (fun f p m hlm hpin => ht f p m hlm hpin) file pageNo) ?_
      rintro ⟨status, page'⟩ e s₃ hs₃
      exact runs_pure.mpr hs₃

/-- Clearing a frame that holds a page and is not pinned leaves the pinned frames alone. -/
theorem evicted_pinned {b : BufMgr} (h : b.Sound) (hi : b.Idle) {n : Nat} (hn : n < b.numBufs)
    (hv : (b.bufTable n).valid = true) (hzero : (b.bufTable n).pinCnt = 0) {b' : BufMgr}
    (hN : b'.numBufs = b.numBufs) (hd : b'.bufTable = (b.setDesc n idleDesc).bufTable)
    (hp : b'.bufPool = b.bufPool)
    (ht : b'.hashTable = (b.hashTable.remove (b.bufTable n).file (b.bufTable n).pageNo).2) :
    b'.Idle ∧ KeepsPinned b b' := by
  refine ⟨(hi.setDesc n fun _ => ⟨rfl, rfl⟩).of_eq hN hd, .of_eq h hi (fun m hm hpin => ?_)
    (fun _ _ _ => by rw [hp]) fun f p m hl hpin => ?_⟩
  · rw [hd, bufTable_setDesc_of_ne]
    rintro rfl
    omega
  · rw [ht]
    exact lookup_remove_pinned h hn hv hzero hl hpin

/-- The write-back of a frame changes its dirty bit at most. -/
theorem flushFrame_buf (i : Nat) :
    Runs False (flushFrame i) s fun status _ s' => (status ≠ .OK → s'.buf = s.buf) ∧
      (status = .OK → s'.buf = s.buf.setDesc i { s.buf.bufTable i with dirty := false }) := by
  unfold flushFrame
  rw [runs_get_bind]
  dsimp only
  split
  next hd =>
    refine (KeepsBuf.writePage _ _ _ s).bind ?_
    rintro status e s₁ ⟨-, hbuf⟩
    split
    next hne => exact runs_pure.mpr ⟨fun _ => hbuf, fun h => absurd h hne⟩
    next =>
      rw [runs_modifyBuf_bind, runs_pure]
      exact ⟨fun h => absurd rfl h, fun _ => by rw [hbuf]⟩
  next hd =>
    refine runs_pure.mpr ⟨fun h => absurd rfl h, fun _ => ?_⟩
    have hclean : (s.buf.bufTable i).dirty = false := by simpa using hd
    rw [← hclean]
    exact (congrArg (fun t => { s.buf with bufTable := t })
      (Function.update_eq_self i s.buf.bufTable)).symm

/-- One step of `flushFile`: the page of a frame that is not pinned leaves the pool. -/
theorem flushed_pinned {i : Nat} {b b' : BufMgr} (h : s.buf.Sound) (hi : s.buf.Idle)
    (hin : i < s.buf.numBufs) (hv : (s.buf.bufTable i).valid = true)
    (hzero : (s.buf.bufTable i).pinCnt = 0)
    (hb : b = s.buf.setDesc i { s.buf.bufTable i with dirty := false })
    (hb' : b' = { b.setDesc i ⟨0, -1, (s.buf.bufTable i).pinCnt, false, false⟩ with
      hashTable := (b.hashTable.remove (s.buf.bufTable i).file (s.buf.bufTable i).pageNo).2 }) :
    b'.Sound ∧ b'.Idle ∧ KeepsPinned s.buf b' ∧ b'.numBufs = s.buf.numBufs ∧
      b'.bufPool = s.buf.bufPool ∧ b'.bufTable = (s.buf.setDesc i idleDesc).bufTable := by
  subst hb
  have hN : b'.numBufs = s.buf.numBufs := by rw [hb']; rfl
  have hhand : b'.clockHand = s.buf.clockHand := by rw [hb']; rfl
  have hp : b'.bufPool = s.buf.bufPool := by rw [hb']; rfl
  have hd : b'.bufTable = (s.buf.setDesc i idleDesc).bufTable := by
    rw [hb', hzero, setDesc_setDesc]
    rfl
  have ht : b'.hashTable =
      (s.buf.hashTable.remove (s.buf.bufTable i).file (s.buf.bufTable i).pageNo).2 := by
    rw [hb']
    rfl
  obtain ⟨hi', hkeep⟩ := evicted_pinned h hi hin hv hzero hN hd hp ht
  have hevict := h.consistent.evict hin hv rfl rfl
  exact ⟨⟨hevict.of_eq hN hd ht, hN ▸ h.numBufs_pos, hN ▸ hhand ▸ h.clockHand_lt⟩, hi', hkeep, hN,
    hp, hd⟩

/-- The loop of `flushFile` leaves every pinned frame alone. -/
theorem flushFrames_pinned (file : FilePtr) : ∀ (n i : Nat) {s : Sys}, i + n ≤ s.buf.numBufs →
    s.buf.Sound → s.buf.Idle →
    Runs False (flushFrames file n i) s fun _ _ s' => s'.buf.Idle ∧ KeepsPinned s.buf s'.buf
  | 0, _, s => fun _ h hi => runs_pure.mpr ⟨hi, .refl h hi⟩
  | n + 1, i, s => by
    intro hin h hi
    unfold flushFrames
    rw [runs_get_bind]
    dsimp only
    split
    next hc =>
      split
      next => exact runs_pure.mpr ⟨hi, .refl h hi⟩
      next hpin =>
        have hzero : (s.buf.bufTable i).pinCnt = 0 := by omega
        refine (flushFrame_buf i).bind ?_
        rintro status e s₁ ⟨hbad, hok⟩
        split
        next hne =>
          rw [runs_pure, hbad hne]
          exact ⟨hi, .refl h hi⟩
        next hst =>
          rw [runs_modifyBuf_bind, ← hc.2]
          obtain ⟨h', hi', hkeep, hN, -, -⟩ :=
            flushed_pinned h hi (by omega) hc.1 hzero (hok (by simpa using hst)) rfl
          refine Runs.mono (flushFrames_pinned _ n (i + 1) ?_ h' hi') ?_
          · dsimp only at hN ⊢
            omega
          · rintro _ _ s' ⟨hi'', hkeep'⟩
            exact ⟨hi'', hkeep.trans hkeep' hN⟩
    next =>
      split
      next => exact runs_pure.mpr ⟨hi, .refl h hi⟩
      next => exact flushFrames_pinned file n (i + 1) (by omega) h hi

/-- `disposePage` of a page whose frame is not pinned leaves every pinned frame alone. -/
theorem disposePage_pinned (h : s.buf.Sound) (hi : s.buf.Idle) (file : FilePtr) (pageNo : Int) :
    Runs False (disposePage file pageNo) s fun _ _ s' => s'.buf.Idle ∧
      ((∀ n, s.buf.hashTable.lookup file pageNo = some n → (s.buf.bufTable n).pinCnt = 0) →
        KeepsPinned s.buf s'.buf) ∧
      ∀ n, s.buf.hashTable.lookup file pageNo = some n → (s'.buf.bufTable n).valid = false := by
  unfold disposePage
  rw [runs_get_bind]
  split
  next m hl =>
    obtain ⟨hm, hv, hf, hp⟩ := h.consistent.entry _ _ _ hl
    rw [runs_modifyBuf_bind, runs_modifyBuf_bind]
    refine (KeepsBuf.disposePage file pageNo _).mono ?_
    rintro _ _ s' ⟨-, hbuf⟩
    rw [hbuf]
    refine ⟨(hi.setDesc m fun _ => ⟨rfl, rfl⟩).of_eq rfl rfl, fun hzero => ?_, fun n hn => ?_⟩
    · refine And.right (evicted_pinned h hi hm hv (hzero m hl) ?_ ?_ ?_ ?_)
      · rfl
      · rfl
      · rfl
      · rw [hf, hp]
        rfl
    · cases hl.symm.trans hn
      show ((s.buf.setDesc m _).bufTable m).valid = false
      rw [bufTable_setDesc_self]
      rfl
  next hl =>
    dsimp only
    rw [runs_modifyBuf_bind]
    refine (KeepsBuf.disposePage file pageNo _).mono ?_
    rintro _ _ s' ⟨-, hbuf⟩
    rw [hbuf]
    refine ⟨hi.of_eq rfl rfl, fun _ => ?_, fun n hn => by rw [hl] at hn; cases hn⟩
    refine .of_eq h hi (fun _ _ _ => rfl) (fun _ _ _ => rfl) fun f p n hn _ => ?_
    show (s.buf.hashTable.remove file pageNo).2.lookup f p = some n
    rw [BufHashTbl.lookup_remove, if_neg]
    · exact hn
    · rintro ⟨rfl, rfl⟩
      rw [hl] at hn
      cases hn

end Operations

end BufMgr

/-! ## Runs -/

namespace BufOp

/-- By how much a call changes the pin count of the frame of a page. -/
def pins : BufOp → FilePtr → Int → Int
  | .readPage file pageNo, file', pageNo' => if file' = file ∧ pageNo' = pageNo then 1 else 0
  | .unPinPage file pageNo _, file', pageNo' => if file' = file ∧ pageNo' = pageNo then -1 else 0
  | _, _, _ => 0

/-- The call leaves every pinned frame to its page, apart from the pin it takes or drops itself. -/
def LeavesPinned (op : BufOp) (b b' : BufMgr) : Prop :=
  ∀ n < b.numBufs, 0 < (b.bufTable n).pinCnt →
    BufMgr.Holds b b' n (op.pins (b.bufTable n).file (b.bufTable n).pageNo)

/-- The call disposes of a page whose frame is pinned. -/
def DisposesPinned (b : BufMgr) : BufOp → Prop
  | .disposePage file pageNo =>
    ∃ n, b.hashTable.lookup file pageNo = some n ∧ 0 < (b.bufTable n).pinCnt
  | _ => False

variable {s s' : Sys} {op : BufOp} {status : Status} {e : Bool}

/-- What a call does to the pinned frames of a sound pool. -/
theorem leavesPinned_spec (h : s.buf.Sound) (hi : s.buf.Idle) (hy : Yields op.run s status e s') :
    s'.buf.Idle ∧ (op.LeavesPinned s.buf s'.buf ↔ ¬op.DisposesPinned s.buf) := by
  cases op with
  | readPage file pageNo =>
    obtain ⟨⟨_, _⟩, _, _, _, hread, hpure, -⟩ := Yields.of_bind hy
    obtain ⟨-, rfl, -⟩ := yields_pure.mp hpure
    obtain ⟨hi', hkeep⟩ := (BufMgr.readPage_pinned h hi file pageNo .null).1 _ _ _ hread
    exact ⟨hi', iff_of_true hkeep not_false⟩
  | unPinPage file pageNo dirty =>
    obtain ⟨hi', hkeep⟩ := (BufMgr.unPinPage_pinned h hi file pageNo dirty).1 _ _ _ hy
    exact ⟨hi', iff_of_true hkeep not_false⟩
  | allocPage file =>
    obtain ⟨⟨_, _⟩, _, _, _, halloc, hpure, -⟩ := Yields.of_bind hy
    obtain ⟨-, rfl, -⟩ := yields_pure.mp hpure
    obtain ⟨hi', hkeep⟩ := (BufMgr.allocPage_pinned h hi file .null).1 _ _ _ halloc
    exact ⟨hi', iff_of_true hkeep not_false⟩
  | flushFile file =>
    have hruns : Runs False (BufMgr.flushFile file) s fun _ _ s' =>
        s'.buf.Idle ∧ BufMgr.KeepsPinned s.buf s'.buf := by
      unfold BufMgr.flushFile
      rw [runs_get_bind]
      exact BufMgr.flushFrames_pinned file s.buf.numBufs 0 (by omega) h hi
    obtain ⟨hi', hkeep⟩ := hruns.1 _ _ _ hy
    exact ⟨hi', iff_of_true hkeep not_false⟩
  | disposePage file pageNo =>
    obtain ⟨hi', hkeep, hgone⟩ := (BufMgr.disposePage_pinned h hi file pageNo).1 _ _ _ hy
    refine ⟨hi', fun hleave => ?_, fun hnot => hkeep fun n hl => ?_⟩
    · rintro ⟨n, hl, hpin⟩
      -- the frame is cleared under its pins
      have hv := (hleave n (h.consistent.entry _ _ _ hl).1 hpin).valid
      rw [hgone n hl] at hv
      cases hv
    · by_contra hne
      exact hnot ⟨n, hl, by omega⟩

end BufOp

/-- In every run whose calls lose no page, frames without a page belong to no file and are not
pinned. -/
theorem idle_of_safe_run {s₀ s : Sys} (h₀ : s₀.buf.Sound) (hi₀ : s₀.buf.Idle)
    (hrun : BufRun (fun s op => op.Safe s) s₀ s) : s.buf.Idle := by
  induction hrun with
  | start => exact hi₀
  | call hrun hsafe hy ih => exact (BufOp.leavesPinned_spec (sound_of_safe_run h₀ hrun) ih hy).1
  | other _ hbuf ih =>
    rw [hbuf]
    exact ih.of_eq rfl rfl

/-- In every run of a new buffer manager whose calls lose no page, a call leaves every pinned frame
to its page exactly when it does not dispose of a pinned page. -/
theorem leavesPinned_iff {bufs : Nat} {hash : FilePtr × Int → Fin (BufMgr.htsize bufs)}
    {s₀ s s' : Sys} {op : BufOp} {status : Status} {e : Bool} (hpos : 0 < bufs)
    (hnew : s₀.buf = BufMgr.new bufs hash) (hrun : BufRun (fun s op => op.Safe s) s₀ s)
    (hy : Yields op.run s status e s') :
    op.LeavesPinned s.buf s'.buf ↔ ¬op.DisposesPinned s.buf := by
  have h₀ : s₀.buf.Sound := by
    rw [hnew]
    exact ⟨.new bufs hash, hpos, Nat.sub_lt hpos Nat.one_pos⟩
  have hi₀ : s₀.buf.Idle := by
    rw [hnew]
    exact .new bufs hash
  exact (BufOp.leavesPinned_spec (sound_of_safe_run h₀ hrun) (idle_of_safe_run h₀ hi₀ hrun) hy).2

/-- A call after a page has been read into a pool of one frame. -/
theorem exists_call_after_read (op : BufOp)
    (h : eval (runCalls [.readPage 1 1, op]) oneFrame (fun _ _ _ => ()) = some ()) :
    ∃ s s' status e, BufRun (fun s op => op.Safe s) oneFrame s ∧ Yields op.run s status e s' ∧
      0 < (s.buf.bufTable 0).pinCnt ∧ s.buf.hashTable.lookup 1 1 = some 0 := by
  obtain ⟨status, e, s, hread, hv⟩ := exists_of_eval (s := oneFrame)
    (x := (BufOp.readPage 1 1).run)
    (g := fun status _ s => (status, (s.buf.bufTable 0).pinCnt, s.buf.hashTable.lookup 1 1))
    (v := (.OK, 1, some 0)) (by decide +kernel)
  simp only [Prod.mk.injEq] at hv
  obtain ⟨rfl, hpin, hlook⟩ := hv
  obtain ⟨statuses, e₁, s₁, hboth, -⟩ := exists_of_eval h
  obtain ⟨status₂, e₂, s₂, e₃, hread', hrest, -⟩ := Yields.of_bind hboth
  obtain ⟨rest, e₄, s₃, e₅, hcalls, -, -⟩ := Yields.of_bind hrest
  obtain ⟨status₅, e₆, s₄, e₇, hop, -, -⟩ := Yields.of_bind hcalls
  obtain ⟨-, -, rfl⟩ := hread.unique hread'
  -- the frame was free, so that nothing is lost
  have hsafe : (BufOp.readPage 1 1).Safe oneFrame := fun hl => absurd hl.2.1 (by decide +kernel)
  exact ⟨s₂, s₄, status₅, e₆, .call .start hsafe hread, hop, by omega, hlook⟩

/-- A pinned page that is read again stays in its frame. -/
theorem leavesPinned_iff_readPage : ∃ s s' : Sys,
    BufRun (fun s op => op.Safe s) oneFrame s ∧ 0 < (s.buf.bufTable 0).pinCnt ∧
    (BufOp.readPage 1 1).LeavesPinned s.buf s'.buf := by
  obtain ⟨s, s', status, e, hrun, hy, hpin, -⟩ :=
    exists_call_after_read (.readPage 1 1) (by decide +kernel)
  exact ⟨s, s', hrun, hpin, (leavesPinned_iff (by decide : 0 < 1) rfl hrun hy).mpr not_false⟩

/-- `disposePage` clears the frame of a page that is pinned. -/
theorem not_leavesPinned_disposePage : ∃ (s s' : Sys) (status : Status) (e : Bool),
    BufRun (fun s op => op.Safe s) oneFrame s ∧
    Yields (BufOp.disposePage 1 1).run s status e s' ∧
    ¬(BufOp.disposePage 1 1).LeavesPinned s.buf s'.buf := by
  obtain ⟨s, s', status, e, hrun, hy, hpin, hlook⟩ :=
    exists_call_after_read (.disposePage 1 1) (by decide +kernel)
  have h₀ : oneFrame.buf.Sound := ⟨.new _ _, by decide, by decide⟩
  refine ⟨s, s', status, e, hrun, hy, fun hleave => ?_⟩
  exact (BufOp.leavesPinned_spec (sound_of_safe_run h₀ hrun)
    (idle_of_safe_run h₀ (.new _ _) hrun) hy).2.mp hleave ⟨0, hlook, hpin⟩

end Minirel
