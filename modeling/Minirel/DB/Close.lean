import Minirel.BufMgr.Content
import Minirel.BufMgr.Pins

/-!
# What closing a file leaves in the buffer pool

The last `closeFile` of a file calls `flushFile` and ignores its status. `flushFile` works through
the frames in the order of the pool and stops at the first frame of the file that is pinned or
cannot be written back, so that the pages from there on stay in the pool while the `File` object is
deleted.
-/

namespace Minirel

open Comp

namespace BufMgr

/-- The frame holds a page of the file. -/
def HeldBy (b : BufMgr) (file : FilePtr) (n : Nat) : Prop :=
  (b.bufTable n).valid = true ∧ (b.bufTable n).file = file

/-- The number of frames from `i` on, of `n` frames, that hold a dirty page of the file. -/
def dirtyCnt (b : BufMgr) (file : FilePtr) (i n : Nat) : Nat :=
  (List.range' i n).countP fun j =>
    (b.bufTable j).valid && (b.bufTable j).file == file && (b.bufTable j).dirty

/-- Only the descriptors of these frames count. -/
theorem dirtyCnt_congr {b b' : BufMgr} {file : FilePtr} {i n : Nat}
    (h : ∀ j, i ≤ j → j < i + n → b'.bufTable j = b.bufTable j) :
    b'.dirtyCnt file i n = b.dirtyCnt file i n := by
  apply List.countP_congr
  intro j hj
  obtain ⟨hlo, hhi⟩ := List.mem_range'_1.mp hj
  rw [h j hlo hhi]

/-- The first frame counts if it holds a dirty page of the file. -/
theorem dirtyCnt_succ (b : BufMgr) (file : FilePtr) (i n : Nat) :
    b.dirtyCnt file i (n + 1) = b.dirtyCnt file (i + 1) n +
      if (b.bufTable i).valid = true ∧ (b.bufTable i).file = file ∧ (b.bufTable i).dirty = true
        then 1 else 0 := by
  unfold dirtyCnt
  rw [List.range'_succ, List.countP_cons]
  congr 1
  simp [and_assoc]

end BufMgr

/-- Of `n` frames from `i` on, none that holds a page of the file is pinned, the dirty ones can be
written back, and the Unix calls for this succeed. -/
structure CanFlush (s : Sys) (fo : File) (file : FilePtr) (i n : Nat) : Prop where
  unpinned : ∀ j, i ≤ j → j < i + n → s.buf.HeldBy file j → (s.buf.bufTable j).pinCnt = 0
  writable : ∀ j, i ≤ j → j < i + n → s.buf.HeldBy file j → (s.buf.bufTable j).dirty = true →
    fo.Writable s (s.buf.bufTable j).pageNo
  io : ∀ k < s.buf.dirtyCnt file i n, s.io k = true

namespace BufMgr

variable {s s' : Sys} {fo : File} {file : FilePtr} {i n : Nat}

/-- What `flushFile` leaves if it reaches its end. -/
structure Flushed (s s' : Sys) (fo : File) (file : FilePtr) (i n : Nat) : Prop where
  files : s'.files = s.files
  sound : s'.buf.Sound
  numBufs : s'.buf.numBufs = s.buf.numBufs
  gone : ∀ j, i ≤ j → j < i + n → ¬s'.buf.HeldBy file j
  others : ∀ j, j < i ∨ i + n ≤ j → s'.buf.bufTable j = s.buf.bufTable j
  written : ∀ j, i ≤ j → j < i + n → s.buf.HeldBy file j → (s.buf.bufTable j).dirty = true →
    ∃ uf, s'.unix fo.fileName = some uf ∧
      uf.page? (s.buf.bufTable j).pageNo = some (s.buf.bufPool j)
  stored : ∀ uf p c, s.unix fo.fileName = some uf → uf.page? p = some c →
    (∀ j, i ≤ j → j < i + n → s.buf.HeldBy file j → (s.buf.bufTable j).pageNo ≠ p) →
    ∃ uf', s'.unix fo.fileName = some uf' ∧ uf'.page? p = some c

/-- The write-back of a frame that holds a page of the file. -/
theorem flushFrame_spec (hfile : s.files file = some fo) (hh : s.buf.HeldBy file i) :
    Runs False (flushFrame i) s fun status _ s₁ => s₁.files = s.files ∧
      (status = .OK ↔ ((s.buf.bufTable i).dirty = true → s.io 0 = true ∧
        fo.Writable s (s.buf.bufTable i).pageNo)) ∧
      (status ≠ .OK → s₁.buf = s.buf) ∧
      (status = .OK → s₁.buf = s.buf.setDesc i { s.buf.bufTable i with dirty := false } ∧
        s₁.io = (fun k => s.io (if (s.buf.bufTable i).dirty then k + 1 else k)) ∧
        (s₁.unix fo.fileName).isSome = (s.unix fo.fileName).isSome ∧
        ((s.buf.bufTable i).dirty = true → ∃ uf, s₁.unix fo.fileName = some uf ∧
          uf.page? (s.buf.bufTable i).pageNo = some (s.buf.bufPool i)) ∧
        ∀ uf p c, s.unix fo.fileName = some uf → uf.page? p = some c →
          (s.buf.bufTable i).pageNo ≠ p →
          ∃ uf', s₁.unix fo.fileName = some uf' ∧ uf'.page? p = some c) := by
  have hown : s.files (s.buf.bufTable i).file = some fo := by
    rw [hh.2]
    exact hfile
  unfold flushFrame
  rw [runs_get_bind]
  dsimp only
  split
  next hd =>
    refine (File.writePage_spec hown _ _).bind ?_
    rintro status e s₁ ⟨hbuf, hfiles, hiff, hok⟩
    split
    next hne =>
      rw [runs_pure]
      refine ⟨hfiles, ?_, fun _ => hbuf, fun h => absurd h hne⟩
      rw [hiff]
      exact ⟨fun h _ => h, fun h => h hd⟩
    next hst =>
      have hst : status = .OK := by simpa using hst
      obtain ⟨hio, uf, huf, hunix⟩ := hok hst
      have hpos : 0 ≤ (s.buf.bufTable i).pageNo := by
        have := (hiff.mp hst).2.1
        omega
      have huf' : s₁.unix fo.fileName =
          some (uf.write (s.buf.bufTable i).pageNo.toNat (s.buf.bufPool i)) := by
        rw [hunix, Function.update_self]
      rw [runs_modifyBuf_bind, runs_pure]
      refine ⟨hfiles, ⟨fun _ _ => hiff.mp hst, fun _ => rfl⟩, fun h => absurd rfl h, fun _ =>
        ⟨by rw [hbuf], ?_, ?_, fun _ => ⟨_, huf', uf.page?_write_self _ hpos⟩, ?_⟩⟩
      · exact hio
      · show (s₁.unix fo.fileName).isSome = _
        rw [huf', huf]
        rfl
      · intro uf₀ p c huf₀ hp hne
        cases huf.symm.trans huf₀
        exact ⟨_, huf', uf.page?_write_of_ne _ hpos (Ne.symm hne) hp⟩
  next hd =>
    have hclean : (s.buf.bufTable i).dirty = false := by simpa using hd
    rw [runs_pure]
    refine ⟨rfl, ⟨fun _ h => absurd h hd, fun _ => rfl⟩, fun h => absurd rfl h, fun _ =>
      ⟨?_, ?_, rfl, fun h => absurd h hd, fun uf p c huf hp _ => ⟨uf, huf, hp⟩⟩⟩
    · rw [← hclean]
      exact (congrArg (fun t => { s.buf with bufTable := t })
        (Function.update_eq_self i s.buf.bufTable)).symm
    · simp

/-- Once the first frame is written back, the other ones remain. -/
theorem canFlush_succ_iff (hh : s.buf.HeldBy file i) (hzero : (s.buf.bufTable i).pinCnt = 0)
    (hok : (s.buf.bufTable i).dirty = true → s.io 0 = true ∧
      fo.Writable s (s.buf.bufTable i).pageNo)
    (htable : ∀ j, i < j → s'.buf.bufTable j = s.buf.bufTable j)
    (hio : s'.io = fun k => s.io (if (s.buf.bufTable i).dirty then k + 1 else k))
    (hunix : (s'.unix fo.fileName).isSome = (s.unix fo.fileName).isSome) :
    CanFlush s fo file i (n + 1) ↔ CanFlush s' fo file (i + 1) n := by
  have hheld : ∀ j, i < j → (s'.buf.HeldBy file j ↔ s.buf.HeldBy file j) := by
    intro j hj
    unfold HeldBy
    rw [htable j hj]
  have hwrite : ∀ p, fo.Writable s' p ↔ fo.Writable s p := by
    intro p
    unfold File.Writable
    rw [hunix]
  have hcnt : s'.buf.dirtyCnt file (i + 1) n = s.buf.dirtyCnt file (i + 1) n :=
    dirtyCnt_congr fun j hj _ => htable j hj
  constructor
  · rintro ⟨hpin, hwr, hcalls⟩
    refine ⟨fun j hj hj' hjh => ?_, fun j hj hj' hjh hd => ?_, fun k hk => ?_⟩
    · rw [htable j hj]
      exact hpin j (by omega) (by omega) ((hheld j hj).mp hjh)
    · rw [htable j hj] at hd ⊢
      exact (hwrite _).mpr (hwr j (by omega) (by omega) ((hheld j hj).mp hjh) hd)
    · rw [hcnt] at hk
      rw [hio]
      apply hcalls
      rw [dirtyCnt_succ]
      cases hd : (s.buf.bufTable i).dirty with
      | true => simpa [hh.1, hh.2] using hk
      | false => simpa using hk
  · rintro ⟨hpin, hwr, hcalls⟩
    refine ⟨fun j hj hj' hjh => ?_, fun j hj hj' hjh hd => ?_, fun k hk => ?_⟩
    · rcases Nat.eq_or_lt_of_le hj with rfl | hlt
      · exact hzero
      · rw [← htable j hlt]
        exact hpin j hlt (by omega) ((hheld j hlt).mpr hjh)
    · rcases Nat.eq_or_lt_of_le hj with rfl | hlt
      · exact (hok hd).2
      · rw [← htable j hlt] at hd ⊢
        exact (hwrite _).mp (hwr j hlt (by omega) ((hheld j hlt).mpr hjh) hd)
    · rw [dirtyCnt_succ, ← hcnt] at hk
      rw [hio] at hcalls
      cases hd : (s.buf.bufTable i).dirty with
      | true =>
        -- the first call was the one for this frame
        cases k with
        | zero => exact (hok hd).1
        | succ k =>
          have := hcalls k (by simpa [hd, hh.1, hh.2] using hk)
          simpa [hd] using this
      | false =>
        have := hcalls k (by simpa [hd] using hk)
        simpa [hd] using this

/-- The first frame is written back and cleared, and the loop goes on behind it. -/
theorem Flushed.cons {s₂ : Sys} (h : s.buf.Sound) (hh : s.buf.HeldBy file i)
    (hin : i + (n + 1) ≤ s.buf.numBufs)
    (hafter : ∀ j, j ≠ i → s₂.buf.bufTable j = s.buf.bufTable j)
    (hpool : s₂.buf.bufPool = s.buf.bufPool)
    (htable : s₂.buf.bufTable = (s.buf.setDesc i idleDesc).bufTable)
    (hfiles : s₂.files = s.files) (hN : s₂.buf.numBufs = s.buf.numBufs)
    (hwritten : (s.buf.bufTable i).dirty = true → ∃ uf, s₂.unix fo.fileName = some uf ∧
      uf.page? (s.buf.bufTable i).pageNo = some (s.buf.bufPool i))
    (hstored : ∀ uf p c, s.unix fo.fileName = some uf → uf.page? p = some c →
      (s.buf.bufTable i).pageNo ≠ p → ∃ uf', s₂.unix fo.fileName = some uf' ∧ uf'.page? p = some c)
    (hfl : Flushed s₂ s' fo file (i + 1) n) : Flushed s s' fo file i (n + 1) := by
  have hheld : ∀ j, i < j → (s₂.buf.HeldBy file j ↔ s.buf.HeldBy file j) := by
    intro j hj
    unfold HeldBy
    rw [hafter j (by omega)]
  have hself : s₂.buf.bufTable i = idleDesc := by
    rw [htable, bufTable_setDesc_self]
  refine ⟨hfl.files.trans hfiles, hfl.sound, hfl.numBufs.trans hN, fun j hj hj' => ?_,
    fun j hj => ?_, fun j hj hj' hjh hd => ?_, fun uf p c huf hp hall => ?_⟩
  · rcases Nat.eq_or_lt_of_le hj with rfl | hlt
    · unfold HeldBy
      rw [hfl.others i (by omega), hself]
      exact fun hidle => absurd hidle.1 (by decide)
    · exact hfl.gone j hlt (by omega)
  · rw [hfl.others j (by omega), hafter j (by omega)]
  · rcases Nat.eq_or_lt_of_le hj with rfl | hlt
    · -- the page written first is not touched by the later write-backs
      obtain ⟨uf, huf, hp⟩ := hwritten hd
      refine hfl.stored uf _ _ huf hp fun k hk hk' hkh hsame => ?_
      have hkh' := (hheld k hk).mp hkh
      rw [hafter k (by omega)] at hsame
      have := h.consistent.unique k (by omega) i (by omega) hkh'.1 hh.1
        (hkh'.2.trans hh.2.symm) hsame
      omega
    · have := hfl.written j hlt (by omega) ((hheld j hlt).mpr hjh)
      rw [hafter j (by omega), hpool] at this
      exact this hd
  · obtain ⟨uf', huf', hp'⟩ := hstored uf p c huf hp (hall i (le_refl i) (by omega) hh)
    refine hfl.stored uf' p c huf' hp' fun j hj hj' hjh => ?_
    rw [hafter j (by omega)]
    exact hall j (by omega) (by omega) ((hheld j hj).mp hjh)

/-- `flushFile` reaches its end exactly when every frame of the file can be written back; else a
page of the file stays in its frame. -/
theorem flushFrames_spec (hne : file ≠ 0) : ∀ (n i : Nat) {s : Sys}, i + n ≤ s.buf.numBufs →
    s.buf.Sound → s.buf.Idle → s.files file = some fo →
    Runs False (flushFrames file n i) s fun status _ s' => s'.files = s.files ∧
      (status = .OK ↔ CanFlush s fo file i n) ∧
      (status = .OK → Flushed s s' fo file i n) ∧
      (status ≠ .OK → ∃ j, i ≤ j ∧ j < i + n ∧ s'.buf.HeldBy file j)
  | 0, i, s => fun _ h _ _ => by
    refine runs_pure.mpr ⟨rfl, iff_of_true rfl ⟨?_, ?_, ?_⟩, fun _ => ?_, fun h => absurd rfl h⟩
    · exact fun j _ _ => by omega
    · exact fun j _ _ => by omega
    · exact nofun
    · refine ⟨rfl, h, rfl, ?_, fun _ _ => rfl, ?_, fun uf p c huf hp _ => ⟨uf, huf, hp⟩⟩
      · exact fun j _ _ => by omega
      · exact fun j _ _ => by omega
  | n + 1, i, s => by
    intro hin h hi hfile
    unfold flushFrames
    rw [runs_get_bind]
    dsimp only
    split
    next hh =>
      split
      next hpin =>
        -- the frame is pinned
        rw [runs_pure]
        refine ⟨rfl, iff_of_false (by decide) fun hc => ?_, fun hst => absurd hst (by decide),
          fun _ => ⟨i, le_refl i, by omega, hh⟩⟩
        have := hc.unpinned i (le_refl i) (by omega) hh
        omega
      next hpin =>
        have hzero : (s.buf.bufTable i).pinCnt = 0 := by omega
        refine (flushFrame_spec hfile hh).bind ?_
        rintro status e s₁ ⟨hfiles, hiff, hbad, hok⟩
        split
        next hst =>
          -- the write-back fails
          rw [runs_pure]
          refine ⟨hfiles, iff_of_false hst fun hc => ?_, fun h => absurd h hst,
            fun _ => ⟨i, le_refl i, by omega, by rw [hbad hst]; exact hh⟩⟩
          refine hst (hiff.mpr fun hd => ⟨hc.io 0 ?_, hc.writable i (le_refl i) (by omega) hh hd⟩)
          rw [dirtyCnt_succ, if_pos ⟨hh.1, hh.2, hd⟩]
          omega
        next hst =>
          have hst : status = .OK := by simpa using hst
          obtain ⟨hbuf, hio, hunix, hwritten, hstored⟩ := hok hst
          rw [runs_modifyBuf_bind, ← hh.2]
          generalize hs₂ : ({ s₁ with buf := _ } : Sys) = s₂
          have hbuf₂ := congrArg Sys.buf hs₂
          obtain ⟨h', hi', -, hN, hpool, htable⟩ :=
            flushed_pinned h hi (by omega) hh.1 hzero hbuf hbuf₂.symm
          have hfiles₂ : s₂.files = s.files := by rw [← hs₂, ← hfiles]
          have hunix₂ : s₂.unix = s₁.unix := by rw [← hs₂]
          have hio₂ : s₂.io = s₁.io := by rw [← hs₂]
          have hafter : ∀ j, j ≠ i → s₂.buf.bufTable j = s.buf.bufTable j := by
            intro j hj
            rw [htable, bufTable_setDesc_of_ne _ hj]
          rw [hh.2]
          refine Runs.mono (flushFrames_spec hne n (i + 1) (by omega) h' hi'
            ((congrFun hfiles₂ file).trans hfile)) ?_
          rintro status' e' s' ⟨hfiles', hiff', hok', hbad'⟩
          refine ⟨hfiles'.trans hfiles₂, ?_, fun hst' => ?_, fun hst' => ?_⟩
          · rw [hiff', canFlush_succ_iff hh hzero (hiff.mp hst) (fun j hj => hafter j (by omega))
              (hio₂.trans hio) (by rw [hunix₂]; exact hunix)]
          · rw [← hunix₂] at hwritten hstored
            exact .cons h hh hin hafter hpool htable hfiles₂ hN hwritten hstored (hok' hst')
          · obtain ⟨j, hj, hj', hheld⟩ := hbad' hst'
            exact ⟨j, by omega, by omega, hheld⟩
    next hh =>
      have hnot : ¬s.buf.HeldBy file i := hh
      split
      next hc =>
        have hfree := (hi i (by omega) (by simpa using hc.1)).1
        exact absurd (hc.2.symm.trans hfree) hne
      next =>
        -- the frame holds no page of the file
        have hdirty : s.buf.dirtyCnt file i (n + 1) = s.buf.dirtyCnt file (i + 1) n := by
          rw [dirtyCnt_succ, if_neg fun hd => hnot ⟨hd.1, hd.2.1⟩, Nat.add_zero]
        have hpast : ∀ {j}, i ≤ j → s.buf.HeldBy file j → i + 1 ≤ j := by
          intro j hj hheld
          rcases Nat.eq_or_lt_of_le hj with rfl | hlt
          · exact absurd hheld hnot
          · exact hlt
        refine Runs.mono (flushFrames_spec hne n (i + 1) (by omega) h hi hfile) ?_
        rintro status e s' ⟨hfiles, hiff, hok, hbad⟩
        refine ⟨hfiles, ?_, fun hst => ?_, fun hst => ?_⟩
        · rw [hiff]
          constructor
          · intro hc
            refine ⟨fun j hj hj' hheld => hc.unpinned j (hpast hj hheld) (by omega) hheld,
              fun j hj hj' hheld => hc.writable j (hpast hj hheld) (by omega) hheld, ?_⟩
            rw [hdirty]
            exact hc.io
          · intro hc
            refine ⟨fun j hj hj' => hc.unpinned j (by omega) (by omega),
              fun j hj hj' => hc.writable j (by omega) (by omega), ?_⟩
            rw [← hdirty]
            exact hc.io
        · have hfl := hok hst
          refine ⟨hfl.files, hfl.sound, hfl.numBufs, fun j hj hj' => ?_,
            fun j hj => hfl.others j (by omega), fun j hj hj' hheld =>
              hfl.written j (hpast hj hheld) (by omega) hheld, fun uf p c huf hp hall =>
              hfl.stored uf p c huf hp fun j hj hj' => hall j (by omega) (by omega)⟩
          rcases Nat.eq_or_lt_of_le hj with rfl | hlt
          · unfold HeldBy
            rw [hfl.others i (by omega)]
            exact hnot
          · exact hfl.gone j hlt (by omega)
        · obtain ⟨j, hj, hj', hheld⟩ := hbad hst
          exact ⟨j, by omega, by omega, hheld⟩

end BufMgr

/-- Nothing of the file is left behind: its dirty pages are on disk, no frame holds a page of it and
the hash table knows none. -/
structure LeftNothing (s s' : Sys) (fo : File) (file : FilePtr) : Prop where
  written : ∀ n < s.buf.numBufs, s.buf.HeldBy file n → (s.buf.bufTable n).dirty = true →
    ∃ uf, s'.unix fo.fileName = some uf ∧
      uf.page? (s.buf.bufTable n).pageNo = some (s.buf.bufPool n)
  gone : ∀ n < s.buf.numBufs, ¬s'.buf.HeldBy file n
  unmapped : ∀ p, s'.buf.hashTable.lookup file p = none

section Close

variable {s : Sys} {fo : File} {file : FilePtr}

/-- The `File` object of the file does not matter beyond its name and descriptor. -/
theorem canFlush_closing {files : FilePtr → Option File} {n : Nat} {c : Int} :
    CanFlush { s with files := files } { fo with openCnt := c } file 0 n ↔
      CanFlush s fo file 0 n :=
  ⟨fun h => ⟨h.unpinned, h.writable, h.io⟩, fun h => ⟨h.unpinned, h.writable, h.io⟩⟩

/-- The last `File::close`, which leaves nothing of the file exactly when `flushFile` reaches its
end. -/
theorem File.close_spec (hne : file ≠ 0) (h : s.buf.Sound) (hi : s.buf.Idle)
    (hfile : s.files file = some fo) (hlast : fo.openCnt = 1) :
    Runs False (File.close file) s fun _ _ s' =>
      s'.files file = some { fo with openCnt := 0, unixFile := false } ∧
      (LeftNothing s s' fo file ↔ CanFlush s fo file 0 s.buf.numBufs) := by
  unfold File.close
  rw [runs_bind_of_yields (yields_fileAt hfile), if_neg (by omega), runs_setFile_bind,
    if_pos (by omega)]
  generalize hs₁ : ({ s with files := _ } : Sys) = s₁
  have hfile₁ : s₁.files file = some { fo with openCnt := fo.openCnt - 1 } := by
    rw [← hs₁]
    exact Function.update_self _ _ _
  have hflush : Runs False (BufMgr.flushFile file) s₁ fun _ _ s₂ => s₂.files = s₁.files ∧
      (LeftNothing s s₂ fo file ↔ CanFlush s fo file 0 s.buf.numBufs) := by
    unfold BufMgr.flushFile
    rw [runs_get_bind, ← hs₁]
    refine Runs.mono (BufMgr.flushFrames_spec hne s.buf.numBufs 0 (s := { s with files := _ })
      (by dsimp only; omega) h hi (Function.update_self _ _ _)) ?_
    rintro status e s₂ ⟨hfiles, hiff, hok, hbad⟩
    rw [canFlush_closing] at hiff
    refine ⟨hfiles, ?_⟩
    rw [← hiff]
    constructor
    · intro hleft
      by_contra hst
      obtain ⟨j, -, hj, hheld⟩ := hbad hst
      exact hleft.gone j (by omega) hheld
    · intro hst
      have hfl := hok hst
      have hgone : ∀ n < s.buf.numBufs, ¬s₂.buf.HeldBy file n := fun n hn =>
        hfl.gone n (Nat.zero_le n) (by omega)
      refine ⟨fun n hn hheld hd => hfl.written n (Nat.zero_le n) (by omega) hheld hd, hgone,
        fun p => ?_⟩
      by_contra hne
      obtain ⟨n, hl⟩ := Option.ne_none_iff_exists'.mp hne
      obtain ⟨hn, hv, hf, -⟩ := hfl.sound.consistent.entry _ _ _ hl
      exact hgone n (hfl.numBufs ▸ hn) ⟨hv, hf⟩
  refine hflush.bind ?_
  rintro status e s₂ ⟨hfiles, hiff⟩
  have hfile₂ := (congrFun hfiles file).trans hfile₁
  rw [runs_unixCall_bind,
    runs_bind_of_yields (yields_fileAt (s := { s₂ with io := fun n => s₂.io (n + 1) }) hfile₂),
    runs_setFile_bind]
  -- closing the descriptor touches neither the pool nor the Unix file
  have hend : ∀ files io, LeftNothing s { s₂ with files := files, io := io } fo file ↔
      CanFlush s fo file 0 s.buf.numBufs := fun _ _ => by
    rw [← hiff]
    exact ⟨fun hl => ⟨hl.written, hl.gone, hl.unmapped⟩, fun hl => ⟨hl.written, hl.gone,
      hl.unmapped⟩⟩
  have hobj : ∀ g : FilePtr → Option File, Function.update g file
      (some { fo with openCnt := fo.openCnt - 1, unixFile := false }) file =
        some { fo with openCnt := 0, unixFile := false } := fun g => by
    rw [Function.update_self, hlast]
    rfl
  refine Runs.ite (fun _ => runs_pure.mpr ⟨hobj _, hend _ _⟩) fun _ =>
    runs_pure.mpr ⟨hobj _, hend _ _⟩

/-- The last `DB::closeFile` of a file. -/
theorem DB.closeFile_spec (h : s.buf.Sound) (hi : s.buf.Idle)
    (hfile : s.files file = some fo) (hlast : fo.openCnt = 1) :
    Runs False (DB.closeFile file) s fun status _ s' => status = .OK →
      s'.files file = none ∧ (LeftNothing s s' fo file ↔ CanFlush s fo file 0 s.buf.numBufs) := by
  unfold DB.closeFile
  refine Runs.ite (fun _ => runs_pure.mpr nofun) fun hne => ?_
  refine (File.close_spec hne h hi hfile hlast).bind ?_
  rintro status e s₁ ⟨hfile₁, hiff⟩
  rw [runs_bind_of_yields (yields_fileAt hfile₁), if_pos rfl, runs_get_bind]
  dsimp only
  rw [runs_set_bind]
  refine Runs.ite (fun _ => runs_pure.mpr nofun) fun _ => ?_
  rw [runs_setFile_bind, runs_pure]
  refine fun _ => ⟨Function.update_self _ _ _, ?_⟩
  rw [← hiff]
  exact ⟨fun hl => ⟨hl.written, hl.gone, hl.unmapped⟩, fun hl => ⟨hl.written, hl.gone, hl.unmapped⟩⟩

end Close

/-- In every run of a new buffer manager whose calls lose no page, a `closeFile` that drops the last
reference to a file and returns `OK` leaves nothing of the file behind exactly when none of its
pages is pinned and its dirty pages can be written back. -/
theorem closeFile_leaves_iff {bufs : Nat} {hash : FilePtr × Int → Fin (BufMgr.htsize bufs)}
    {s₀ s s' : Sys} {fo : File} {file : FilePtr} {e : Bool} (hpos : 0 < bufs)
    (hnew : s₀.buf = BufMgr.new bufs hash) (hrun : BufRun (fun s op => op.Safe s) s₀ s)
    (hfile : s.files file = some fo) (hlast : fo.openCnt = 1)
    (hy : Yields (DB.closeFile file) s .OK e s') :
    s'.files file = none ∧ (LeftNothing s s' fo file ↔ CanFlush s fo file 0 s.buf.numBufs) := by
  have h₀ : s₀.buf.Sound := by
    rw [hnew]
    exact ⟨.new bufs hash, hpos, Nat.sub_lt hpos Nat.one_pos⟩
  have hi₀ : s₀.buf.Idle := by
    rw [hnew]
    exact .new bufs hash
  exact (DB.closeFile_spec (sound_of_safe_run h₀ hrun) (idle_of_safe_run h₀ hi₀ hrun) hfile
    hlast).1 _ _ _ hy rfl

/-- A process with one frame and one open file, which the table of open files knows. -/
def oneOpenFile : Sys :=
  { oneFrame with openFiles := (OpenFileHashTbl.insert OpenFileHashTbl.new [65] 1).2 }

/-- The file is closed after one of its pages has been read and, if so, unpinned. -/
theorem exists_close_after_read (op : BufOp) (hop : ∀ s, op.Safe s) (k : Nat)
    (h : eval (do
      let _ ← (BufOp.readPage 1 1).run
      let _ ← op.run
      let s ← get
      let status ← DB.closeFile 1
      return (status, s)) oneOpenFile (fun r _ _ => (r.1, r.2.buf.numBufs,
        (r.2.buf.bufTable 0).valid, (r.2.buf.bufTable 0).file, (r.2.buf.bufTable 0).pinCnt,
          decide ((r.2.files 1).map File.openCnt = some 1))) = some (.OK, 1, true, 1, k, true)) :
    ∃ s s' fo e, BufRun (fun s op => op.Safe s) oneOpenFile s ∧
      s.files 1 = some fo ∧ fo.openCnt = 1 ∧ Yields (DB.closeFile 1) s .OK e s' ∧
      s.buf.numBufs = 1 ∧ s.buf.HeldBy 1 0 ∧ (s.buf.bufTable 0).pinCnt = k := by
  obtain ⟨r, e, s', hy, hv⟩ := exists_of_eval h
  obtain ⟨st₁, e₁, s₁, d₁, h₁, hrest₁, -⟩ := Yields.of_bind hy
  obtain ⟨st₂, e₂, s₂, d₂, h₂, hrest₂, -⟩ := Yields.of_bind hrest₁
  obtain ⟨t, e₃, s₃, d₃, h₃, hrest₃, -⟩ := Yields.of_bind hrest₂
  obtain ⟨st₄, e₄, s₄, d₄, h₄, hrest₄, -⟩ := Yields.of_bind hrest₃
  obtain ⟨rfl, -, rfl⟩ := Yields.unique (Yields.get s₂) h₃
  obtain ⟨rfl, -, -⟩ := yields_pure.mp hrest₄
  simp only [Prod.mk.injEq, decide_eq_true_eq, Option.map_eq_some_iff] at hv
  obtain ⟨rfl, hN, hvalid, hfile, hpin, fo, hfo, hcnt⟩ := hv
  have hsafe : (BufOp.readPage 1 1).Safe oneOpenFile :=
    fun hl => absurd hl.2.1 (by decide +kernel)
  exact ⟨_, s₄, fo, e₄, .call (.call .start hsafe h₁) (hop _) h₂, hfo, hcnt, h₄, hN,
    ⟨hvalid, hfile⟩, hpin⟩

/-- A page that has been written and unpinned goes to disk when its file is closed. -/
theorem closeFile_leaves_iff_unpinned : ∃ (s s' : Sys) (fo : File),
    s.files 1 = some fo ∧ s.buf.HeldBy 1 0 ∧
    (LeftNothing s s' fo 1 ↔ CanFlush s fo 1 0 s.buf.numBufs) := by
  obtain ⟨s, s', fo, e, hrun, hfo, hcnt, hy, -, hheld, -⟩ := exists_close_after_read
    (.unPinPage 1 1 true) (fun _ => trivial) 0 (by decide +kernel)
  exact ⟨s, s', fo, hfo, hheld,
    (closeFile_leaves_iff (by decide : 0 < 1) rfl hrun hfo hcnt hy).2⟩

/-- A pinned page stays in the pool when its file is closed and the `File` object deleted. -/
theorem not_leftNothing_of_pinned : ∃ (s s' : Sys) (fo : File) (e : Bool),
    BufRun (fun s op => op.Safe s) oneOpenFile s ∧ s.files 1 = some fo ∧ fo.openCnt = 1 ∧
    Yields (DB.closeFile 1) s .OK e s' ∧ s'.files 1 = none ∧ ¬LeftNothing s s' fo 1 := by
  obtain ⟨s, s', fo, e, hrun, hfo, hcnt, hy, hN, hheld, hpin⟩ := exists_close_after_read
    (.flushFile 9) (fun _ => trivial) 1 (by decide +kernel)
  have h₀ : oneOpenFile.buf.Sound := ⟨.new _ _, by decide, by decide⟩
  obtain ⟨hgone, hiff⟩ := (DB.closeFile_spec (sound_of_safe_run h₀ hrun)
    (idle_of_safe_run h₀ (.new _ _) hrun) hfo hcnt).1 _ _ _ hy rfl
  refine ⟨s, s', fo, e, hrun, hfo, hcnt, hy, hgone, fun hleft => ?_⟩
  have := (hiff.mp hleft).unpinned 0 (le_refl 0) (by omega) hheld
  omega

end Minirel
