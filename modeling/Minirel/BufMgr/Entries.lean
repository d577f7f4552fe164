import Minirel.BufMgr.Pins

/-!
# Entries of the hash table lead to their pages

Whatever fails, an entry of the hash table leads to a valid frame that holds its page. The converse
may be lost: a read that fails leaves a frame behind whose page the hash table has forgotten.

## Main definitions

* `BufMgr.Mapped`: the invariant.
* `BufMgr.withdrawn`: the pool after a page has been taken out of it.

## Main results

* `mapped_of_run`: the invariant holds in every run of the buffer manager.
-/

namespace Minirel

open Comp

namespace BufMgr

/-- An entry of the hash table leads to a valid frame that holds the page. -/
def Mapped (b : BufMgr) : Prop :=
  ∀ file p n, b.hashTable.lookup file p = some n →
    (b.bufTable n).valid = true ∧ (b.bufTable n).file = file ∧ (b.bufTable n).pageNo = p

namespace Mapped

variable {b b' : BufMgr} {n : Nat} {d : BufDesc} {file : FilePtr} {p : Int}

theorem new (bufs : Nat) (hash : FilePtr × Int → Fin (htsize bufs)) :
    (BufMgr.new bufs hash).Mapped := fun file p n h => by
  simp [BufMgr.new, BufHashTbl.lookup] at h

/-- Only the descriptors and the hash table matter. -/
theorem of_eq (h : b.Mapped) (hd : b'.bufTable = b.bufTable) (ht : b'.hashTable = b.hashTable) :
    b'.Mapped := by
  unfold Mapped
  rw [hd, ht]
  exact h

/-- A frame is found under one page at most. -/
theorem unique (h : b.Mapped) {file' : FilePtr} {p' : Int}
    (h₁ : b.hashTable.lookup file p = some n) (h₂ : b.hashTable.lookup file' p' = some n) :
    file' = file ∧ p' = p := by
  obtain ⟨-, hf₁, hp₁⟩ := h file p n h₁
  obtain ⟨-, hf₂, hp₂⟩ := h file' p' n h₂
  exact ⟨hf₂.symm.trans hf₁, hp₂.symm.trans hp₁⟩

/-- A descriptor that is not found may change. -/
theorem setDesc (h : b.Mapped) (hn : ∀ file p, b.hashTable.lookup file p = some n →
    d.valid = true ∧ d.file = file ∧ d.pageNo = p) : (b.setDesc n d).Mapped := by
  intro file p m hl
  by_cases hm : m = n
  · subst hm
    rw [bufTable_setDesc_self]
    exact hn file p hl
  · rw [bufTable_setDesc_of_ne b hm]
    exact h file p m hl

/-- An entry may go. -/
theorem remove (h : b.Mapped) (file : FilePtr) (p : Int) :
    ({ b with hashTable := (b.hashTable.remove file p).2 } : BufMgr).Mapped := by
  intro file' p' m hl
  have hl : (b.hashTable.remove file p).2.lookup file' p' = some m := hl
  rw [BufHashTbl.lookup_remove] at hl
  split at hl
  next => cases hl
  next => exact h file' p' m hl

/-- Taking a page out of the hash table and overwriting the descriptor of its frame. -/
theorem drop (h : b.Mapped) (hn : ∀ file' p', b.hashTable.lookup file' p' = some n →
    file' = file ∧ p' = p) (d : BufDesc) :
    ({ b.setDesc n d with hashTable := (b.hashTable.remove file p).2 } : BufMgr).Mapped := by
  refine ((h.remove file p).setDesc (n := n) (d := d) fun file' p' hl => ?_).of_eq rfl rfl
  have hl : (b.hashTable.remove file p).2.lookup file' p' = some n := hl
  rw [BufHashTbl.lookup_remove] at hl
  split at hl
  next => cases hl
  next hne => exact absurd (hn file' p' hl) hne

/-- Entering a page into a frame that no entry leads to. -/
theorem enter (h : b.Mapped) (hn : ∀ file' p', b.hashTable.lookup file' p' ≠ some n)
    (hd : d.valid = true) :
    ({ b.setDesc n d with hashTable := (b.hashTable.insert d.file d.pageNo n).2 } :
    BufMgr).Mapped := by
  have hset : (b.setDesc n d).Mapped := h.setDesc fun file p hl => absurd hl (hn file p)
  by_cases hfree : b.hashTable.lookup d.file d.pageNo = none
  · obtain ⟨t, ht, hlook⟩ := BufHashTbl.insert_of_lookup_eq_none n hfree
    rw [ht]
    intro file p m hl
    have hl : t.lookup file p = some m := hl
    rw [hlook] at hl
    split at hl
    next heq =>
      cases hl
      show ((b.setDesc n d).bufTable n).valid = true ∧ _
      rw [bufTable_setDesc_self]
      exact ⟨hd, heq.1.symm, heq.2.symm⟩
    next => exact hset file p m hl
  · rw [BufHashTbl.insert_of_lookup_ne_none n hfree]
    exact hset.of_eq rfl rfl

end Mapped

section Operations

variable {s : Sys} {file : FilePtr} {p : Int}

/-- After `allocBuf` no entry leads to the frame it returns. -/
theorem allocBuf_mapped (h : s.buf.Mapped) : Runs False allocBuf s fun r _ s' =>
    s'.buf.Mapped ∧ (r.1 = .OK → ∀ file p, s'.buf.hashTable.lookup file p ≠ some r.2) := by
  have hsw := swept_spec s
  have hmapped : (swept s).buf.Mapped := by
    cases he : evicts s with
    | true => exact (h.remove _ _).of_eq hsw.bufTable (hsw.evicted he).2.2
    | false => exact h.of_eq hsw.bufTable (hsw.kept he)
  have hvictim : exhausted s = false →
      ∀ file p, (swept s).buf.hashTable.lookup file p ≠ some (victim s) := by
    intro hex file p hl
    obtain ⟨hv, hf, hp⟩ := hmapped file p _ hl
    rw [hsw.bufTable] at hv hf hp
    have he : evicts s = true := (valid_victim hex).symm.trans hv
    rw [(hsw.evicted he).2.2, BufHashTbl.lookup_remove, if_pos ⟨hf.symm, hp.symm⟩] at hl
    cases hl
  refine runs_allocBuf (fun _ => ⟨hmapped, nofun⟩) (fun hex _ => ⟨hmapped, fun _ => hvictim hex⟩)
    fun hex _ => ?_
  refine (KeepsBuf.writePage _ _ _ (swept s)).mono fun status e s' hs' => ?_
  rw [hs'.2]
  exact ⟨hmapped, fun _ => hvictim hex⟩

theorem enterPage_mapped {n : Nat} (h : s.buf.Mapped)
    (hn : ∀ file p, s.buf.hashTable.lookup file p ≠ some n) :
    Runs False (enterPage file p n) s fun _ _ s' => s'.buf.Mapped := by
  unfold enterPage
  rw [runs_get_bind]
  dsimp only
  rw [runs_set_bind, runs_pure]
  exact (h.enter (d := ⟨file, p, 1, false, true⟩) hn rfl).of_eq rfl rfl

theorem readPage_mapped {page : PagePtr} (h : s.buf.Mapped) :
    Runs False (readPage file p page) s fun _ _ s' => s'.buf.Mapped := by
  unfold readPage
  rw [runs_get_bind]
  split
  next n hl =>
    rw [runs_modifyBuf_bind, runs_pure]
    refine (h.setDesc (n := n) fun file' p' hl' => ?_).of_eq rfl rfl
    exact h file' p' n hl'
  next =>
    refine (allocBuf_mapped h).bind ?_
    rintro ⟨status, n⟩ e s₁ ⟨h₁, hn⟩
    dsimp only at hn ⊢
    refine Runs.ite (fun _ => runs_pure.mpr h₁) fun hst => ?_
    rw [runs_get_bind]
    refine (KeepsBuf.readPage file p _ s₁).bind ?_
    rintro ⟨status₂, blk⟩ e₂ s₂ ⟨-, hbuf⟩
    dsimp only
    rw [runs_modifyBuf_bind]
    refine Runs.ite (fun _ => runs_pure.mpr (h₁.of_eq (by rw [hbuf]; rfl) (by rw [hbuf]; rfl)))
      fun _ => ?_
    refine enterPage_mapped (h₁.of_eq (by rw [hbuf]; rfl) (by rw [hbuf]; rfl)) ?_
    rw [hbuf]
    exact hn (by simpa using hst)

theorem unPinPage_mapped {dirty : Bool} (h : s.buf.Mapped) :
    Runs False (unPinPage file p dirty) s fun _ _ s' => s'.buf.Mapped := by
  unfold unPinPage
  rw [runs_get_bind]
  split
  next => exact runs_pure.mpr h
  next n hl =>
    have hset : ∀ d : BufDesc, d.file = (s.buf.bufTable n).file →
        d.pageNo = (s.buf.bufTable n).pageNo → d.valid = (s.buf.bufTable n).valid →
        (s.buf.setDesc n d).Mapped := fun d h₁ h₂ h₃ => h.setDesc fun file' p' hl' => by
      rw [h₁, h₂, h₃]
      exact h file' p' n hl'
    dsimp only
    split <;> split <;> rw [runs_modifyBuf_bind, runs_pure] <;> exact hset _ rfl rfl rfl

theorem allocPage_mapped {page : PagePtr} (h : s.buf.Mapped) :
    Runs False (allocPage file page) s fun _ _ s' => s'.buf.Mapped := by
  unfold allocPage
  refine (KeepsBuf.allocatePage file s).bind ?_
  rintro ⟨status, pageNo⟩ e s₁ ⟨-, hbuf⟩
  dsimp only
  rw [← hbuf] at h
  refine Runs.ite (fun _ => runs_pure.mpr h) fun _ => ?_
  refine (allocBuf_mapped h).bind ?_
  rintro ⟨status₂, n⟩ e₂ s₂ ⟨h₂, hn⟩
  dsimp only at hn ⊢
  refine Runs.ite (fun _ => runs_pure.mpr h₂) fun hst => ?_
  exact (enterPage_mapped h₂ (hn (by simpa using hst))).bind fun _ _ _ h₃ => runs_pure.mpr h₃

theorem flushFrames_mapped (n : Nat) : ∀ (i : Nat) {s : Sys}, s.buf.Mapped →
    Runs False (flushFrames file n i) s fun _ _ s' => s'.buf.Mapped := by
  induction n with
  | zero => exact fun i s h => runs_pure.mpr h
  | succ n ih =>
    intro i s h
    unfold flushFrames
    rw [runs_get_bind]
    refine Runs.ite (fun hc => ?_) fun _ => Runs.ite (fun _ => runs_pure.mpr h)
      fun _ => ih (i + 1) h
    refine Runs.ite (fun _ => runs_pure.mpr h) fun _ => ?_
    refine (flushFrame_buf i).bind ?_
    rintro status e s₁ ⟨hbad, hok⟩
    refine Runs.ite (fun hst => runs_pure.mpr (hbad hst ▸ h)) fun hst => ?_
    have hst : status = .OK := by simpa using hst
    rw [runs_modifyBuf_bind, hok hst]
    -- the page of the frame is the only one that may have been found in it
    have hone : ∀ file' p', s.buf.hashTable.lookup file' p' = some i →
        file' = file ∧ p' = (s.buf.bufTable i).pageNo := by
      intro file' p' hl
      obtain ⟨-, hf, hp⟩ := h file' p' i hl
      exact ⟨hf.symm.trans hc.2, hp.symm⟩
    refine ih (i + 1) ((h.drop hone ⟨0, -1, (s.buf.bufTable i).pinCnt, false, false⟩).of_eq ?_ rfl)
    rw [setDesc_setDesc]

/-- `disposePage` up to the call of the file layer. -/
def withdrawn (b : BufMgr) (file : FilePtr) (p : Int) : BufMgr :=
  { (match b.hashTable.lookup file p with
      | some n => b.setDesc n idleDesc
      | none => b) with hashTable := (b.hashTable.remove file p).2 }

theorem runs_disposePage {T : Prop} {Q : Status → Bool → Sys → Prop} :
    Runs T (disposePage file p) s Q ↔
      Runs T (File.disposePage file p) { s with buf := s.buf.withdrawn file p } Q := by
  unfold disposePage withdrawn
  rw [runs_get_bind]
  cases hl : s.buf.hashTable.lookup file p with
  | some n =>
    dsimp only
    rw [runs_modifyBuf_bind, runs_modifyBuf_bind]
    rfl
  | none =>
    dsimp only
    rw [runs_modifyBuf_bind]

theorem withdrawn_mapped {b : BufMgr} (h : b.Mapped) : (b.withdrawn file p).Mapped := by
  unfold withdrawn
  cases hl : b.hashTable.lookup file p with
  | some n => exact h.drop (fun file' p' hl' => h.unique hl hl') _
  | none => exact h.remove file p

theorem disposePage_mapped (h : s.buf.Mapped) :
    Runs False (disposePage file p) s fun _ _ s' => s'.buf.Mapped := by
  rw [runs_disposePage]
  refine (KeepsBuf.disposePage file p _).mono fun _ _ s' hs' => ?_
  rw [hs'.2]
  exact withdrawn_mapped h

theorem lookup_withdrawn (b : BufMgr) (f : FilePtr) (q : Int) :
    (b.withdrawn file p).hashTable.lookup f q =
      if f = file ∧ q = p then none else b.hashTable.lookup f q := by
  unfold withdrawn
  exact BufHashTbl.lookup_remove _ _ _ _ _

theorem bufPool_withdrawn (b : BufMgr) : (b.withdrawn file p).bufPool = b.bufPool := by
  unfold withdrawn
  cases b.hashTable.lookup file p <;> rfl

/-- The frames of other pages are left alone. -/
theorem bufTable_withdrawn {b : BufMgr} (h : b.Mapped) {f : FilePtr} {q : Int} {m : Nat}
    (hm : b.hashTable.lookup f q = some m) (hne : ¬(f = file ∧ q = p)) :
    (b.withdrawn file p).bufTable m = b.bufTable m := by
  unfold withdrawn
  cases hl : b.hashTable.lookup file p with
  | none => rfl
  | some n =>
    refine bufTable_setDesc_of_ne b ?_ idleDesc
    rintro rfl
    exact hne (h.unique hl hm)

end Operations

end BufMgr

open BufMgr

/-- Entries of the hash table lead to their pages in every run, whatever fails. -/
theorem mapped_of_run {C : Sys → BufOp → Prop} {s₀ s : Sys} (h₀ : s₀.buf.Mapped)
    (hrun : BufRun C s₀ s) : s.buf.Mapped := by
  induction hrun with
  | start => exact h₀
  | @call s s' op status e _ _ hy ih =>
    have hstep : Runs False op.run s fun _ _ s' => s'.buf.Mapped := by
      cases op with
      | readPage file p => exact (readPage_mapped ih).bind fun _ _ _ h => runs_pure.mpr h
      | unPinPage file p dirty => exact unPinPage_mapped ih
      | allocPage file => exact (allocPage_mapped ih).bind fun _ _ _ h => runs_pure.mpr h
      | flushFile file =>
        unfold BufOp.run flushFile
        dsimp only
        rw [runs_get_bind]
        exact flushFrames_mapped _ _ ih
      | disposePage file p => exact disposePage_mapped ih
    exact hstep.1 _ _ _ hy
  | other _ hbuf ih =>
    rw [hbuf]
    exact ih.of_eq rfl rfl

end Minirel
