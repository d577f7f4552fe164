import Minirel.BufMgr.Clock
import Minirel.Rules

/-!
# The buffer table invariant

The hash table of the buffer manager and the descriptors of its frames describe each other. Every
operation keeps them so, whatever it returns, unless a page that has just been evicted from its
frame cannot be replaced: `readPage` and `allocPage` then leave the frame marked valid although
the hash table has forgotten its page, or, for `allocPage`, enter a page that is buffered already.

## Main definitions

* `BufMgr.Consistent`: the invariant.
* `BufOp`, `BufRun`: the operations of the buffer manager and their runs.
* `BufOp.Safe`: the step does not meet one of the cases above.

## Main results

* `consistent_of_safe_run`: in a run whose steps are safe the invariant holds in every state.
* `not_consistent_after_failed_read`: a run in which it does not hold.
-/

namespace Minirel

open Comp

/-! ## The hash table as a map -/

namespace BufHashTbl

variable (t : BufHashTbl) (file file' : FilePtr) (pageNo pageNo' : Int) (frame : Nat)

theorem lookup_remove : (t.remove file pageNo).2.lookup file' pageNo' =
    if file' = file ∧ pageNo' = pageNo then none else t.lookup file' pageNo' := by
  unfold remove lookup
  cases h : t.erase? (file, pageNo) with
  | some t' =>
    simp only
    rw [ChainTable.find_erase? h]
    simp only [Prod.mk.injEq]
  | none =>
    simp only
    split
    next heq => rw [heq.1, heq.2, (ChainTable.erase?_eq_none_iff _ _).mp h]
    next => rfl

variable {t file pageNo}

theorem insert_of_lookup_eq_none (h : t.lookup file pageNo = none) :
    ∃ t', t.insert file pageNo frame = (.OK, t') ∧ ∀ file' pageNo', t'.lookup file' pageNo' =
      if file' = file ∧ pageNo' = pageNo then some frame else t.lookup file' pageNo' := by
  unfold insert
  cases hi : t.insert? (file, pageNo) frame with
  | some t' =>
    refine ⟨t', rfl, fun file' pageNo' => ?_⟩
    unfold lookup
    rw [ChainTable.find_insert? hi]
    simp only [Prod.mk.injEq]
  | none => exact absurd h ((ChainTable.insert?_eq_none_iff _ _ _).mp hi)

theorem insert_of_lookup_ne_none (h : t.lookup file pageNo ≠ none) :
    t.insert file pageNo frame = (.HASHTBLERROR, t) := by
  unfold insert
  rw [(ChainTable.insert?_eq_none_iff _ _ _).mpr h]

end BufHashTbl

/-! ## The invariant -/

namespace BufMgr

/-- The hash table and the descriptors of the frames describe each other. -/
structure Consistent (b : BufMgr) : Prop where
  /-- A frame is valid exactly if the hash table maps its page to it. -/
  valid_iff : ∀ n < b.numBufs, (b.bufTable n).valid = true ↔
    b.hashTable.lookup (b.bufTable n).file (b.bufTable n).pageNo = some n
  /-- An entry of the hash table points to a valid frame that holds the page. -/
  entry : ∀ file pageNo n, b.hashTable.lookup file pageNo = some n → n < b.numBufs ∧
    (b.bufTable n).valid = true ∧ (b.bufTable n).file = file ∧ (b.bufTable n).pageNo = pageNo
  /-- No two valid frames hold the same page. -/
  unique : ∀ m < b.numBufs, ∀ n < b.numBufs, (b.bufTable m).valid = true →
    (b.bufTable n).valid = true → (b.bufTable m).file = (b.bufTable n).file →
    (b.bufTable m).pageNo = (b.bufTable n).pageNo → m = n
  /-- A frame that is not valid is not dirty. -/
  clean : ∀ n < b.numBufs, (b.bufTable n).valid = false → (b.bufTable n).dirty = false

/-- The descriptor of a frame that holds no page. -/
def idleDesc : BufDesc := ⟨0, -1, 0, false, false⟩

/-- The buffer manager with the descriptor of a frame cleared. -/
def release (b : BufMgr) (n : Nat) : BufMgr := b.setDesc n idleDesc

@[simp]
theorem bufTable_setDesc_self (b : BufMgr) (n : Nat) (d : BufDesc) :
    (b.setDesc n d).bufTable n = d := Function.update_self _ _ _

theorem bufTable_setDesc_of_ne (b : BufMgr) {m n : Nat} (h : m ≠ n) (d : BufDesc) :
    (b.setDesc n d).bufTable m = b.bufTable m := Function.update_of_ne h _ _

@[simp]
theorem setDesc_setDesc (b : BufMgr) (n : Nat) (d d' : BufDesc) :
    (b.setDesc n d).setDesc n d' = b.setDesc n d' := by
  simp [setDesc]

namespace Consistent

variable {b b' : BufMgr} {n : Nat} {file : FilePtr} {pageNo : Int} {d : BufDesc}

/-- It is enough that entries lead to frames with the page and that pages in frames have entries. -/
theorem of_entries
    (hentry : ∀ file pageNo n, b.hashTable.lookup file pageNo = some n → n < b.numBufs ∧
      (b.bufTable n).valid = true ∧ (b.bufTable n).file = file ∧ (b.bufTable n).pageNo = pageNo)
    (hvalid : ∀ n < b.numBufs, (b.bufTable n).valid = true →
      b.hashTable.lookup (b.bufTable n).file (b.bufTable n).pageNo = some n)
    (hclean : ∀ n < b.numBufs, (b.bufTable n).valid = false → (b.bufTable n).dirty = false) :
    b.Consistent where
  valid_iff n hn := ⟨hvalid n hn, fun h => (hentry _ _ n h).2.1⟩
  entry := hentry
  unique m hm n hn hvm hvn hf hp := by
    have h₁ := hvalid m hm hvm
    have h₂ := hvalid n hn hvn
    rw [hf, hp, h₂] at h₁
    exact (Option.some.inj h₁).symm
  clean := hclean

/-- The invariant speaks of the hash table and the descriptors only. -/
theorem of_eq (h : b.Consistent) (hn : b'.numBufs = b.numBufs) (hd : b'.bufTable = b.bufTable)
    (ht : b'.hashTable = b.hashTable) : b'.Consistent := by
  refine of_entries ?_ ?_ ?_
  · rw [ht, hn, hd]
    exact h.entry
  · rw [ht, hn, hd]
    exact fun n hn => (h.valid_iff n hn).mp
  · rw [hn, hd]
    exact h.clean

/-- A freshly constructed buffer manager. -/
theorem new (bufs : Nat) (hash : FilePtr × Int → Fin (htsize bufs)) :
    (BufMgr.new bufs hash).Consistent := by
  refine of_entries ?_ ?_ ?_
  · intro file pageNo n h
    simp [BufMgr.new, BufHashTbl.lookup] at h
  · intro n _ h
    simp [BufMgr.new, zeroDesc] at h
  · intro n _ _
    rfl

/-- A descriptor may change as long as it describes the same page. -/
theorem setDesc (h : b.Consistent) (hf : d.file = (b.bufTable n).file)
    (hp : d.pageNo = (b.bufTable n).pageNo) (hv : d.valid = (b.bufTable n).valid)
    (hd : d.valid = false → d.dirty = false) : (b.setDesc n d).Consistent := by
  have hsame : ∀ m, ((b.setDesc n d).bufTable m).file = (b.bufTable m).file ∧
      ((b.setDesc n d).bufTable m).pageNo = (b.bufTable m).pageNo ∧
      ((b.setDesc n d).bufTable m).valid = (b.bufTable m).valid := by
    intro m
    by_cases hm : m = n
    · subst hm
      rw [bufTable_setDesc_self]
      exact ⟨hf, hp, hv⟩
    · rw [bufTable_setDesc_of_ne b hm]
      exact ⟨rfl, rfl, rfl⟩
  refine of_entries (fun file pageNo m hm => ?_) (fun m hm hvm => ?_) (fun m hm hvm => ?_)
  · rw [(hsame m).1, (hsame m).2.1, (hsame m).2.2]
    exact h.entry file pageNo m hm
  · rw [(hsame m).2.2] at hvm
    rw [(hsame m).1, (hsame m).2.1]
    exact (h.valid_iff m hm).mp hvm
  · by_cases hmn : m = n
    · subst hmn
      rw [bufTable_setDesc_self] at hvm ⊢
      exact hd hvm
    · rw [bufTable_setDesc_of_ne b hmn] at hvm ⊢
      exact h.clean m hm hvm

/-- A frame that holds no page may be cleared. -/
theorem release_of_not_valid (h : b.Consistent) (hv : (b.bufTable n).valid = false) :
    (b.release n).Consistent := by
  refine of_entries (fun file pageNo m hm => ?_) (fun m hm hvm => ?_) (fun m hm hvm => ?_)
  · obtain ⟨h₁, h₂, h₃, h₄⟩ := h.entry file pageNo m hm
    have hmn : m ≠ n := by
      rintro rfl
      rw [hv] at h₂
      cases h₂
    rw [release, bufTable_setDesc_of_ne b hmn]
    exact ⟨h₁, h₂, h₃, h₄⟩
  · by_cases hmn : m = n
    · subst hmn
      rw [release, bufTable_setDesc_self] at hvm
      cases hvm
    · rw [release, bufTable_setDesc_of_ne b hmn] at hvm ⊢
      exact (h.valid_iff m hm).mp hvm
  · by_cases hmn : m = n
    · subst hmn
      rw [release, bufTable_setDesc_self]
      rfl
    · rw [release, bufTable_setDesc_of_ne b hmn] at hvm ⊢
      exact h.clean m hm hvm

/-- Taking a page out of the hash table and clearing its frame. -/
theorem evict (h : b.Consistent) (hn : n < b.numBufs) (hv : (b.bufTable n).valid = true)
    (hf : (b.bufTable n).file = file) (hp : (b.bufTable n).pageNo = pageNo) :
    (({ b with hashTable := (b.hashTable.remove file pageNo).2 } : BufMgr).release
      n).Consistent := by
  refine of_entries (fun file' pageNo' m hm => ?_) (fun m hm hvm => ?_) (fun m hm hvm => ?_)
  · have hm : (b.hashTable.remove file pageNo).2.lookup file' pageNo' = some m := hm
    rw [BufHashTbl.lookup_remove] at hm
    split at hm
    next => cases hm
    next hne =>
      obtain ⟨h₁, h₂, h₃, h₄⟩ := h.entry file' pageNo' m hm
      have hmn : m ≠ n := by
        rintro rfl
        exact hne ⟨h₃.symm.trans hf, h₄.symm.trans hp⟩
      rw [release, bufTable_setDesc_of_ne _ hmn]
      exact ⟨h₁, h₂, h₃, h₄⟩
  · have hmn : m ≠ n := by
      rintro rfl
      rw [release, bufTable_setDesc_self] at hvm
      cases hvm
    rw [release, bufTable_setDesc_of_ne _ hmn] at hvm ⊢
    show (b.hashTable.remove file pageNo).2.lookup (b.bufTable m).file
      (b.bufTable m).pageNo = some m
    rw [BufHashTbl.lookup_remove, if_neg]
    · exact (h.valid_iff m hm).mp hvm
    · rintro ⟨h₁, h₂⟩
      exact hmn (h.unique m hm n hn hvm hv (h₁.trans hf.symm) (h₂.trans hp.symm))
  · by_cases hmn : m = n
    · subst hmn
      rw [release, bufTable_setDesc_self]
      rfl
    · rw [release, bufTable_setDesc_of_ne _ hmn] at hvm ⊢
      exact h.clean m hm hvm

/-- Entering a page that is not buffered into a frame that holds none. -/
theorem enter {t : BufHashTbl} (h : (b.release n).Consistent) (hn : n < b.numBufs)
    (hd : d.valid = true) (hfree : b.hashTable.lookup d.file d.pageNo = none)
    (ht : ∀ file pageNo, t.lookup file pageNo =
      if file = d.file ∧ pageNo = d.pageNo then some n else b.hashTable.lookup file pageNo) :
    ({ b.setDesc n d with hashTable := t } : BufMgr).Consistent := by
  have hother : ∀ file pageNo m, b.hashTable.lookup file pageNo = some m →
      m ≠ n ∧ m < b.numBufs ∧ (b.bufTable m).valid = true ∧ (b.bufTable m).file = file ∧
        (b.bufTable m).pageNo = pageNo := by
    intro file pageNo m hm
    obtain ⟨h₁, h₂, h₃, h₄⟩ := h.entry file pageNo m hm
    have hmn : m ≠ n := by
      rintro rfl
      rw [release, bufTable_setDesc_self] at h₂
      cases h₂
    rw [release, bufTable_setDesc_of_ne _ hmn] at h₂ h₃ h₄
    exact ⟨hmn, h₁, h₂, h₃, h₄⟩
  refine of_entries (fun file pageNo m hm => ?_) (fun m hm hvm => ?_) (fun m hm hvm => ?_)
  · have hm : t.lookup file pageNo = some m := hm
    rw [ht] at hm
    split at hm
    next heq =>
      cases hm
      refine ⟨hn, ?_⟩
      show ((b.setDesc n d).bufTable n).valid = true ∧ _
      rw [bufTable_setDesc_self]
      exact ⟨hd, heq.1.symm, heq.2.symm⟩
    next =>
      obtain ⟨hmn, h₁, h₂⟩ := hother file pageNo m hm
      refine ⟨h₁, ?_⟩
      show ((b.setDesc n d).bufTable m).valid = true ∧ _
      rw [bufTable_setDesc_of_ne _ hmn]
      exact h₂
  · show t.lookup ((b.setDesc n d).bufTable m).file ((b.setDesc n d).bufTable m).pageNo = some m
    rw [ht]
    by_cases hmn : m = n
    · subst hmn
      rw [bufTable_setDesc_self, if_pos ⟨rfl, rfl⟩]
    · have hvm : ((b.setDesc n d).bufTable m).valid = true := hvm
      rw [bufTable_setDesc_of_ne _ hmn] at hvm ⊢
      have hold : b.hashTable.lookup (b.bufTable m).file (b.bufTable m).pageNo = some m := by
        have := (h.valid_iff m hm).mp (by rw [release, bufTable_setDesc_of_ne _ hmn]; exact hvm)
        rwa [release, bufTable_setDesc_of_ne _ hmn] at this
      split
      next heq =>
        rw [heq.1, heq.2, hfree] at hold
        cases hold
      next => exact hold
  · by_cases hmn : m = n
    · subst hmn
      have hvm : ((b.setDesc m d).bufTable m).valid = false := hvm
      rw [bufTable_setDesc_self, hd] at hvm
      cases hvm
    · have hvm : ((b.setDesc n d).bufTable m).valid = false := hvm
      show ((b.setDesc n d).bufTable m).dirty = false
      rw [bufTable_setDesc_of_ne _ hmn] at hvm ⊢
      have := h.clean m hm
      rw [release, bufTable_setDesc_of_ne _ hmn] at this
      exact this hvm

end Consistent

/-! ## The operations -/

section Operations

variable {T : Prop} {s : Sys}

/-- The sweep of `allocBuf` found no frame. -/
def exhausted (s : Sys) : Bool :=
  let r := clockSweep (2 * s.buf.numBufs) s.buf
  !r.2.1 && r.2.2 == 0

/-- The frame that `allocBuf` picks holds a page. -/
def evicts (s : Sys) : Bool := (clockSweep (2 * s.buf.numBufs) s.buf).2.1

/-- The state after the sweep of `allocBuf`. -/
def swept (s : Sys) : Sys := { s with buf := (clockSweep (2 * s.buf.numBufs) s.buf).1 }

/-- The frame that `allocBuf` picks. -/
def victim (s : Sys) : Nat := (swept s).buf.clockHand

theorem swept_spec (s : Sys) :
    Swept s.buf (swept s).buf (evicts s) (clockSweep (2 * s.buf.numBufs) s.buf).2.2 :=
  clockSweep_spec _ _ _ _ _ rfl

/-- If the sweep finds no frame, every frame holds a pinned page. -/
theorem pinned_of_exhausted (hex : exhausted s = true) {n : Nat} (hn : n < s.buf.numBufs) :
    (s.buf.bufTable n).valid = true ∧ 0 < (s.buf.bufTable n).pinCnt := by
  unfold exhausted at hex
  simp only [Bool.and_eq_true, Bool.not_eq_true', beq_iff_eq] at hex
  exact clockSweep_exhausted (show clockSweep (2 * s.buf.numBufs) s.buf =
    ((clockSweep (2 * s.buf.numBufs) s.buf).1, false, 0) by rw [← hex.1, ← hex.2]) hn

/-- The frame that the sweep finds is valid exactly if the sweep took a page out of it. -/
theorem valid_victim (hex : exhausted s = false) :
    (s.buf.bufTable (victim s)).valid = evicts s := by
  have hsw := swept_spec s
  cases he : evicts s with
  | true => exact (hsw.evicted he).1
  | false =>
    refine hsw.free he fun hleft => ?_
    have hfound : (clockSweep (2 * s.buf.numBufs) s.buf).2.1 = false := he
    rw [exhausted, hfound, hleft] at hex
    cases hex

/-- What `allocBuf` does, by the outcome of its sweep. -/
theorem runs_allocBuf {Q : Status × Nat → Bool → Sys → Prop}
    (hfull : exhausted s = true → Q (.BUFFEREXCEEDED, 0) true (swept s))
    (hclean : exhausted s = false → ((swept s).buf.bufTable (victim s)).dirty = false →
      Q (.OK, victim s) false (swept s))
    (hdirty : exhausted s = false → ((swept s).buf.bufTable (victim s)).dirty = true →
      Runs T (File.writePage ((swept s).buf.bufTable (victim s)).file
        ((swept s).buf.bufTable (victim s)).pageNo ((swept s).buf.bufPool (victim s)))
        (swept s) fun status e s' => Q (status, victim s) e s') :
    Runs T allocBuf s Q := by
  unfold allocBuf
  rw [runs_get_bind]
  rcases hr : clockSweep (2 * s.buf.numBufs) s.buf with ⟨b, found, left⟩
  have hsw : swept s = { s with buf := b } := by rw [swept, hr]
  have hvi : victim s = b.clockHand := by rw [victim, hsw]
  have hex : exhausted s = (!found && left == 0) := by rw [exhausted, hr]
  rw [hsw, hvi, hex] at hclean hdirty
  rw [hsw, hex] at hfull
  dsimp only
  split
  next hc =>
    rw [runs_set_bind, runs_raise_bind, runs_pure]
    exact hfull (by simpa using hc)
  next hc =>
    have hc : (!found && left == 0) = false := by
      rw [← Bool.not_eq_true]
      intro h
      exact hc (by simpa using h)
    rw [runs_set_bind]
    split
    next hd =>
      refine (hdirty hc hd).bind fun status e s' hQ => ?_
      rw [runs_pure, Bool.or_false]
      exact hQ
    next hd =>
      rw [runs_pure]
      exact hclean hc (by simpa using hd)

/-- The state after the write-back that `allocBuf` makes if it needs to, unless it fails. -/
def wroteBack (s : Sys) : Option Sys :=
  let s₁ := swept s
  let d := s₁.buf.bufTable (victim s)
  if d.dirty then
    match (File.writePage d.file d.pageNo (s₁.buf.bufPool (victim s))).run s₁ with
    | some ((status, s₂), _) => if status = .OK then some s₂ else none
    | none => none
  else some s₁

/-- The operation gets a frame that held a page and cannot use it. -/
def Loses (s : Sys) : Prop := evicts s = true ∧ wroteBack s = none

/-- The sweep brings no page into the hash table. -/
theorem lookup_swept {file : FilePtr} {pageNo : Int}
    (h : s.buf.hashTable.lookup file pageNo = none) :
    (swept s).buf.hashTable.lookup file pageNo = none := by
  have hsw := swept_spec s
  cases he : evicts s with
  | true =>
    rw [(hsw.evicted he).2.2, BufHashTbl.lookup_remove, h, ite_self]
  | false => rw [hsw.kept he, h]

/-- After `allocBuf` the frame it returns can be cleared; if it fails the table is as before,
unless the write-back of a page already taken out of the hash table fails. -/
theorem allocBuf_consistent (h : s.buf.Consistent) (hpos : 0 < s.buf.numBufs)
    (hhand : s.buf.clockHand < s.buf.numBufs) :
    Runs False allocBuf s fun r _ s' =>
      s'.buf.numBufs = s.buf.numBufs ∧ s'.buf.clockHand < s.buf.numBufs ∧
      (r.1 = .OK → r.2 = victim s ∧ r.2 < s.buf.numBufs ∧ (s'.buf.release r.2).Consistent ∧
        exhausted s = false ∧ s'.buf = (swept s).buf ∧ wroteBack s = some s' ∧
        (evicts s = false → s'.buf.Consistent)) ∧
      (r.1 ≠ .OK → ¬Loses s → s'.buf.Consistent) := by
  have hsw := swept_spec s
  have hhand' : (swept s).buf.clockHand < s.buf.numBufs := hsw.clockHand hpos hhand
  have hfree : evicts s = false → (swept s).buf.Consistent := fun he =>
    h.of_eq hsw.numBufs hsw.bufTable (hsw.kept he)
  have hrel : exhausted s = false → ((swept s).buf.release (victim s)).Consistent := by
    intro hex
    cases he : evicts s with
    | true =>
      obtain ⟨hv, -, ht⟩ := hsw.evicted he
      refine (h.evict hhand' hv rfl rfl).of_eq hsw.numBufs ?_ ht
      show Function.update _ _ _ = Function.update _ _ _
      rw [hsw.bufTable]
      rfl
    | false =>
      refine (hfree he).release_of_not_valid ?_
      rw [hsw.bufTable, valid_victim hex, he]
  refine runs_allocBuf (fun hex => ?_) (fun hex hd => ?_) (fun hex hd => ?_)
  · refine ⟨hsw.numBufs, hhand', nofun, fun _ _ => hfree ?_⟩
    unfold exhausted at hex
    simp only [Bool.and_eq_true, Bool.not_eq_true'] at hex
    exact hex.1
  · refine ⟨hsw.numBufs, hhand', fun _ => ⟨rfl, hhand', hrel hex, hex, rfl, ?_, hfree⟩,
      fun h => absurd rfl h⟩
    simp only [wroteBack, hd, Bool.false_eq_true, ↓reduceIte]
  · have hkeep := KeepsBuf.writePage ((swept s).buf.bufTable (victim s)).file
      ((swept s).buf.bufTable (victim s)).pageNo ((swept s).buf.bufPool (victim s)) (swept s)
    refine ⟨fun status e s' hy => ?_, fun hf => hf.elim⟩
    obtain ⟨rfl, hbuf⟩ := hkeep.1 status e s' hy
    have hy : _ = some ((status, s'), false) := hy
    rw [hbuf]
    refine ⟨hsw.numBufs, hhand', fun hok => ⟨rfl, hhand', hrel hex, hex, rfl, ?_, hfree⟩,
      fun hbad hsafe => ?_⟩
    · have hok : status = .OK := hok
      unfold wroteBack
      simp only [hd, ↓reduceIte, hy, hok]
    · -- a write-back fails, so the frame was dirty and hence valid
      have hbad : status ≠ .OK := hbad
      refine hfree ?_
      rw [← Bool.not_eq_true]
      intro he
      refine hsafe ⟨he, ?_⟩
      unfold wroteBack
      simp only [hd, ↓reduceIte, hy, hbad]

/-- The buffer manager after a page has been entered into frame `n`. -/
def entered (b : BufMgr) (file : FilePtr) (pageNo : Int) (n : Nat) (t : BufHashTbl) : BufMgr :=
  { (b.setDesc n ⟨file, pageNo, 1, false, true⟩).setRefbit n true with hashTable := t }

theorem enterPage_spec {file : FilePtr} {pageNo : Int} (n : Nat)
    (hfree : s.buf.hashTable.lookup file pageNo = none) :
    ∃ t, (∀ file' pageNo', t.lookup file' pageNo' = if file' = file ∧ pageNo' = pageNo then some n
        else s.buf.hashTable.lookup file' pageNo') ∧
      Yields (enterPage file pageNo n) s (.OK, .frame n) false
        { s with buf := s.buf.entered file pageNo n t } := by
  obtain ⟨t, ht, hlook⟩ := BufHashTbl.insert_of_lookup_eq_none n hfree
  refine ⟨t, hlook, ?_⟩
  have ht : ((s.buf.setDesc n ((s.buf.bufTable n).Set file pageNo)).setRefbit n
    true).hashTable.insert
      file pageNo n = (.OK, t) := ht
  unfold enterPage
  refine Yields.bind (e := false) (d := false) (t := s) rfl ?_
  simp only [ht]
  rfl

theorem Consistent.entered {b : BufMgr} {n : Nat} {file : FilePtr} {pageNo : Int} {t : BufHashTbl}
    (h : (b.release n).Consistent) (hn : n < b.numBufs)
    (hfree : b.hashTable.lookup file pageNo = none)
    (ht : ∀ file' pageNo', t.lookup file' pageNo' = if file' = file ∧ pageNo' = pageNo then some n
        else b.hashTable.lookup file' pageNo') : (b.entered file pageNo n t).Consistent :=
  (h.enter (d := ⟨file, pageNo, 1, false, true⟩) hn rfl hfree ht).of_eq rfl rfl rfl

/-! ## Every operation keeps the table consistent -/

/-- The invariant of a buffer manager that is in use. -/
structure Sound (b : BufMgr) : Prop where
  consistent : b.Consistent
  numBufs_pos : 0 < b.numBufs
  clockHand_lt : b.clockHand < b.numBufs

/-- The frame that `readPage` gets held a page, and it cannot fill the frame again. -/
def ReadLoses (s : Sys) (file : FilePtr) (pageNo : Int) : Prop :=
  s.buf.hashTable.lookup file pageNo = none ∧ evicts s = true ∧
    ∀ s₁, wroteBack s = some s₁ → ∀ blk e s₂,
      ¬Yields (File.readPage file pageNo (s₁.buf.bufPool (victim s))) s₁ (.OK, blk) e s₂

theorem readPage_sound {file : FilePtr} {pageNo : Int} {page : PagePtr} (h : s.buf.Sound)
    (hsafe : ¬ReadLoses s file pageNo) :
    Runs False (readPage file pageNo page) s fun _ _ s' => s'.buf.Sound := by
  unfold readPage
  rw [runs_get_bind]
  split
  next n hlook =>
    obtain ⟨hn, hv, hf, hp⟩ := h.consistent.entry _ _ _ hlook
    rw [runs_modifyBuf_bind, runs_pure]
    refine ⟨(h.consistent.setDesc (n := n) ?_ ?_ ?_ ?_).of_eq rfl rfl rfl, h.numBufs_pos,
      h.clockHand_lt⟩
    · rfl
    · rfl
    · rfl
    · intro hfalse
      exact absurd (hv.symm.trans hfalse) (by decide)
  next hlook =>
    have halloc := allocBuf_consistent h.consistent h.numBufs_pos h.clockHand_lt
    refine halloc.bind ?_
    rintro ⟨status, n⟩ e s₁ ⟨hN, hhand, hok, hbad⟩
    dsimp only at hok hbad ⊢
    split
    next hne =>
      rw [runs_pure]
      refine ⟨hbad hne ?_, hN ▸ h.numBufs_pos, hN ▸ hhand⟩
      rintro ⟨he, hw⟩
      exact hsafe ⟨hlook, he, fun s₁ hs₁ => by rw [hw] at hs₁; cases hs₁⟩
    next heq =>
      have heq : status = .OK := by simpa using heq
      obtain ⟨rfl, hn, hrel, hex, hbuf, hwrote, hfree⟩ := hok heq
      rw [runs_get_bind]
      refine Runs.bind (P := fun r e s₂ => s₂.buf = s₁.buf ∧
          Yields (File.readPage file pageNo (s₁.buf.bufPool (victim s))) s₁ r e s₂)
        ⟨fun r e s₂ hy => ⟨((KeepsBuf.readPage _ _ _ s₁).1 r e s₂ hy).2, hy⟩, fun hf => hf.elim⟩ ?_
      rintro ⟨status₂, blk⟩ e₂ s₂ ⟨hbuf₂, hy⟩
      dsimp only
      rw [runs_modifyBuf_bind]
      split
      next hne =>
        -- the page could not be read, so the frame was a free one
        have hs₁ : s₁.buf.Consistent := by
          refine hfree ?_
          rw [← Bool.not_eq_true]
          intro he
          refine hsafe ⟨hlook, he, fun s₁' hs₁' blk' e' s₂' hy' => ?_⟩
          rw [hwrote] at hs₁'
          cases hs₁'
          have := (hy.unique hy').1
          cases this
          exact hne rfl
        rw [runs_pure, hbuf₂]
        exact ⟨hs₁.of_eq rfl rfl rfl, hN ▸ h.numBufs_pos, hN ▸ hhand⟩
      next =>
        have hlook₁ : s₁.buf.hashTable.lookup file pageNo = none := hbuf ▸ lookup_swept hlook
        rw [hbuf₂]
        obtain ⟨t, ht, hy₃⟩ := enterPage_spec
          (s := { s₂ with buf := s₁.buf.setPool (victim s) blk }) (victim s) hlook₁
        refine Runs.of_yields hy₃ ⟨?_, hN ▸ h.numBufs_pos, hN ▸ hhand⟩
        exact Consistent.entered (hrel.of_eq rfl rfl rfl) (hN ▸ hn) hlook₁ ht

theorem unPinPage_sound {file : FilePtr} {pageNo : Int} {dirty : Bool} (h : s.buf.Sound) :
    Runs False (unPinPage file pageNo dirty) s fun _ _ s' => s'.buf.Sound := by
  unfold unPinPage
  rw [runs_get_bind]
  split
  next => exact runs_pure.mpr h
  next n hlook =>
    obtain ⟨hn, hv, hf, hp⟩ := h.consistent.entry _ _ _ hlook
    have hset : ∀ d : BufDesc, d.file = (s.buf.bufTable n).file →
        d.pageNo = (s.buf.bufTable n).pageNo → d.valid = (s.buf.bufTable n).valid →
        (s.buf.setDesc n d).Sound := fun d h₁ h₂ h₃ =>
      ⟨h.consistent.setDesc h₁ h₂ h₃ fun hfalse =>
        absurd (hv.symm.trans (h₃.symm.trans hfalse)) (by decide), h.numBufs_pos, h.clockHand_lt⟩
    dsimp only
    split <;> split <;> rw [runs_modifyBuf_bind, runs_pure] <;> exact hset _ rfl rfl rfl

/-- `allocPage` gets a frame that held a page and cannot use it, or a page that is buffered. -/
def AllocLoses (s : Sys) (file : FilePtr) : Prop :=
  ∃ pageNo e s₁, Yields (File.allocatePage file) s (.OK, pageNo) e s₁ ∧
    (Loses s₁ ∨
      exhausted s₁ = false ∧ (swept s₁).buf.hashTable.lookup file pageNo ≠ none)

theorem allocPage_sound {file : FilePtr} {page : PagePtr} (h : s.buf.Sound)
    (hsafe : ¬AllocLoses s file) :
    Runs False (allocPage file page) s fun _ _ s' => s'.buf.Sound := by
  unfold allocPage
  refine Runs.bind (P := fun r e s₁ => s₁.buf = s.buf ∧
      Yields (File.allocatePage file) s r e s₁)
    ⟨fun r e s₁ hy => ⟨((KeepsBuf.allocatePage _ s).1 r e s₁ hy).2, hy⟩, fun hf => hf.elim⟩ ?_
  rintro ⟨status, pageNo⟩ e s₁ ⟨hbuf, hy⟩
  dsimp only
  split
  next => exact runs_pure.mpr (hbuf ▸ h)
  next heq =>
    have heq : status = .OK := by simpa using heq
    subst heq
    rw [← hbuf] at h
    have halloc := allocBuf_consistent h.consistent h.numBufs_pos h.clockHand_lt
    refine halloc.bind ?_
    rintro ⟨status, n⟩ e' s₂ ⟨hN, hhand, hok, hbad⟩
    dsimp only at hok hbad ⊢
    split
    next hne =>
      rw [runs_pure]
      exact ⟨hbad hne fun hl => hsafe ⟨pageNo, e, s₁, hy, Or.inl hl⟩, hN ▸ h.numBufs_pos,
        hN ▸ hhand⟩
    next heq =>
      have heq : status = .OK := by simpa using heq
      obtain ⟨rfl, hn, hrel, hex, hbuf₂, hwrote, hfree⟩ := hok heq
      have hlook : s₂.buf.hashTable.lookup file pageNo = none := by
        rw [hbuf₂]
        by_contra hcon
        exact hsafe ⟨pageNo, e, s₁, hy, Or.inr ⟨hex, hcon⟩⟩
      obtain ⟨t, ht, hy₃⟩ := enterPage_spec (s := s₂) (victim s₁) hlook
      refine Runs.bind (Runs.of_yields hy₃ (Q := fun _ _ s' => s'.buf.Sound) ?_)
        fun r e s' hs' => runs_pure.mpr hs'
      exact ⟨Consistent.entered hrel (hN ▸ hn) hlook ht, hN ▸ h.numBufs_pos, hN ▸ hhand⟩

theorem disposePage_sound {file : FilePtr} {pageNo : Int} (h : s.buf.Sound) :
    Runs False (disposePage file pageNo) s fun _ _ s' => s'.buf.Sound := by
  have hkeep : ∀ s₁ : Sys, s₁.buf.Sound →
      Runs False (File.disposePage file pageNo) s₁ fun _ _ s' => s'.buf.Sound := fun s₁ h₁ =>
    (KeepsBuf.disposePage file pageNo s₁).mono fun _ _ s' hs' => hs'.2 ▸ h₁
  unfold disposePage
  rw [runs_get_bind]
  split
  next n hlook =>
    obtain ⟨hn, hv, hf, hp⟩ := h.consistent.entry _ _ _ hlook
    rw [runs_modifyBuf_bind, runs_modifyBuf_bind]
    exact hkeep _ ⟨(h.consistent.evict hn hv hf hp).of_eq rfl rfl rfl, h.numBufs_pos,
      h.clockHand_lt⟩
  next hlook =>
    dsimp only
    rw [runs_modifyBuf_bind]
    refine hkeep _ ⟨?_, h.numBufs_pos, h.clockHand_lt⟩
    have herase : (s.buf.hashTable.remove file pageNo).2 = s.buf.hashTable := by
      unfold BufHashTbl.remove
      rw [(ChainTable.erase?_eq_none_iff _ _).mpr hlook]
    exact h.consistent.of_eq rfl rfl herase

theorem flushFrames_sound (file : FilePtr) : ∀ (n i : Nat) (s : Sys), i + n ≤ s.buf.numBufs →
    s.buf.Sound → Runs False (flushFrames file n i) s fun _ _ s' => s'.buf.Sound
  | 0, _, s => fun _ h => runs_pure.mpr h
  | n + 1, i, s => by
    intro hi h
    unfold flushFrames
    rw [runs_get_bind]
    dsimp only
    split
    next hc =>
      split
      next => exact runs_pure.mpr h
      next hpin =>
        -- what the write-back leaves of the descriptor
        have hflush : Runs False (flushFrame i) s fun status _ s' => s'.buf.Sound ∧
            s'.buf.numBufs = s.buf.numBufs ∧ (s'.buf.bufTable i).file = (s.buf.bufTable i).file ∧
            (s'.buf.bufTable i).pageNo = (s.buf.bufTable i).pageNo ∧
            (s'.buf.bufTable i).valid = true := by
          unfold flushFrame
          rw [runs_get_bind]
          dsimp only
          split
          next hd =>
            refine Runs.bind (KeepsBuf.writePage _ _ _ s) ?_
            rintro status e s₁ ⟨rfl, hbuf⟩
            split
            next =>
              rw [runs_pure, hbuf]
              exact ⟨h, rfl, rfl, rfl, hc.1⟩
            next =>
              rw [runs_modifyBuf_bind, runs_pure, hbuf]
              refine ⟨⟨h.consistent.setDesc rfl rfl rfl fun _ => rfl, h.numBufs_pos,
                h.clockHand_lt⟩, rfl, ?_⟩
              rw [bufTable_setDesc_self]
              exact ⟨rfl, rfl, hc.1⟩
          next => exact runs_pure.mpr ⟨h, rfl, rfl, rfl, hc.1⟩
        refine hflush.bind ?_
        rintro status e s₁ ⟨h₁, hN, hf, hp, hv⟩
        split
        next => exact runs_pure.mpr h₁
        next =>
          rw [runs_modifyBuf_bind]
          have hpin : (s.buf.bufTable i).pinCnt = 0 := by omega
          refine flushFrames_sound file n (i + 1) _ ?_ ⟨?_, h₁.numBufs_pos, h₁.clockHand_lt⟩
          · show i + 1 + n ≤ s₁.buf.numBufs
            omega
          · rw [hpin]
            exact (h₁.consistent.evict (by omega) hv (hf.trans hc.2) hp).of_eq rfl rfl rfl
    next =>
      split
      next => exact runs_pure.mpr h
      next => exact flushFrames_sound file n (i + 1) s (by omega) h

theorem flushFile_sound {file : FilePtr} (h : s.buf.Sound) :
    Runs False (flushFile file) s fun _ _ s' => s'.buf.Sound := by
  unfold flushFile
  rw [runs_get_bind]
  exact flushFrames_sound file s.buf.numBufs 0 s (by omega) h

end Operations

end BufMgr

/-! ## Runs -/

/-- A call of an operation of the buffer manager. -/
inductive BufOp
  | readPage (file : FilePtr) (pageNo : Int)
  | unPinPage (file : FilePtr) (pageNo : Int) (dirty : Bool)
  | allocPage (file : FilePtr)
  | flushFile (file : FilePtr)
  | disposePage (file : FilePtr) (pageNo : Int)

namespace BufOp

/-- The call, up to the status it returns. -/
def run : BufOp → M Status
  | .readPage file pageNo => do
    let (status, _) ← BufMgr.readPage file pageNo .null
    return status
  | .unPinPage file pageNo dirty => BufMgr.unPinPage file pageNo dirty
  | .allocPage file => do
    let (status, _) ← BufMgr.allocPage file .null
    return status
  | .flushFile file => BufMgr.flushFile file
  | .disposePage file pageNo => BufMgr.disposePage file pageNo

/-- The call does not take a page out of its frame without being able to fill the frame again,
and does not allocate a page that is buffered. -/
def Safe (s : Sys) : BufOp → Prop
  | .readPage file pageNo => ¬BufMgr.ReadLoses s file pageNo
  | .allocPage file => ¬BufMgr.AllocLoses s file
  | _ => True

/-- A safe call keeps the buffer table sound. -/
theorem sound_of_safe {s s' : Sys} {op : BufOp} {status : Status} {e : Bool} (h : s.buf.Sound)
    (hsafe : op.Safe s) (hy : Yields op.run s status e s') : s'.buf.Sound := by
  suffices hruns : Runs False op.run s fun _ _ s' => s'.buf.Sound from hruns.1 status e s' hy
  cases op with
  | readPage file pageNo =>
    exact (BufMgr.readPage_sound h hsafe).bind fun r _ _ h' => runs_pure.mpr h'
  | unPinPage file pageNo dirty => exact BufMgr.unPinPage_sound h
  | allocPage file => exact (BufMgr.allocPage_sound h hsafe).bind fun r _ _ h' => runs_pure.mpr h'
  | flushFile file => exact BufMgr.flushFile_sound h
  | disposePage file pageNo => exact BufMgr.disposePage_sound h

end BufOp

/-- The states reached from `s₀` by calls that satisfy `C`, in any order and with any arguments.
Between the calls the rest of the process may do what it likes, short of changing the buffer
table: write to frames, open and close files, change files on disk. -/
inductive BufRun (C : Sys → BufOp → Prop) (s₀ : Sys) : Sys → Prop
  | start : BufRun C s₀ s₀
  | call {s s' : Sys} {op : BufOp} {status : Status} {e : Bool} (hrun : BufRun C s₀ s)
      (hC : C s op) (hy : Yields op.run s status e s') : BufRun C s₀ s'
  | other {s s' : Sys} (hrun : BufRun C s₀ s)
      (hbuf : s'.buf = { s.buf with bufPool := s'.buf.bufPool }) : BufRun C s₀ s'

theorem sound_of_safe_run {s₀ s : Sys} (h₀ : s₀.buf.Sound)
    (hrun : BufRun (fun s op => op.Safe s) s₀ s) : s.buf.Sound := by
  induction hrun with
  | start => exact h₀
  | call _ hsafe hy ih => exact BufOp.sound_of_safe ih hsafe hy
  | @other s s' _ hbuf ih =>
    rw [hbuf]
    exact ⟨ih.consistent.of_eq rfl rfl rfl, ih.numBufs_pos, ih.clockHand_lt⟩

/-- From a fresh buffer manager of any size, with any files, safe calls lead only to states in
which the buffer table is consistent, whatever status they return. -/
theorem consistent_of_safe_run {bufs : Nat} {hash : FilePtr × Int → Fin (BufMgr.htsize bufs)}
    {s₀ s : Sys} (hpos : 0 < bufs) (hnew : s₀.buf = BufMgr.new bufs hash)
    (hrun : BufRun (fun s op => op.Safe s) s₀ s) : s.buf.Consistent := by
  refine (sound_of_safe_run ?_ hrun).consistent
  rw [hnew]
  exact ⟨BufMgr.Consistent.new bufs hash, hpos, Nat.sub_lt hpos Nat.one_pos⟩

/-- A process with one open file of two pages and a pool of one frame. -/
def oneFrame : Sys where
  unix := fun name => if name = [65] then some ⟨2, fun _ => Block.zero⟩ else none
  dataFile := fun _ => none
  io := fun _ => true
  files := fun file => if file = 1 then some ⟨[65], 1, true⟩ else none
  nextFile := 2
  openFiles := OpenFileHashTbl.new
  buf := BufMgr.new 1 fun _ => ⟨0, BufMgr.htsize_one_pos⟩

/-- The state that a call leads to. -/
def Sys.after (s : Sys) (op : BufOp) : Sys := (eval op.run s fun _ _ s' => s').getD s

theorem BufRun.after {C : Sys → BufOp → Prop} {s₀ s : Sys} {op : BufOp} (hrun : BufRun C s₀ s)
    (hC : C s op) (h : (eval op.run s fun _ _ _ => ()) = some ()) : BufRun C s₀ (s.after op) := by
  obtain ⟨status, e, s', hy, -⟩ := exists_of_eval h
  have hafter : s.after op = s' := by
    unfold Sys.after eval
    rw [show op.run.run s = some ((status, s'), e) from hy]
    rfl
  rw [hafter]
  exact .call hrun hC hy

/-- A read whose page can be written back and that succeeds after it loses nothing. -/
theorem BufMgr.not_readLoses_of_eval {s : Sys} {file : FilePtr} {p : Int}
    (h : ((wroteBack s).bind fun s₁ => eval (File.readPage file p (s₁.buf.bufPool (victim s))) s₁
      fun r _ _ => r.1) = some .OK) : ¬ReadLoses s file p := by
  rintro ⟨-, -, hall⟩
  obtain ⟨s₁, hs₁, hread⟩ := Option.bind_eq_some_iff.mp h
  obtain ⟨⟨status, blk⟩, e, s₂, hy, rfl⟩ := exists_of_eval hread
  exact hall s₁ hs₁ blk e s₂ hy

/-- A process with an open file of two pages and a pool of `bufs` frames. -/
def smallPool (bufs : Nat) : Sys :=
  { oneFrame with
    unix := fun name => if name = [65] then
      some ⟨3, fun p => if p = 0 then .dbPage ⟨-1, 1, 3⟩ else
        if p = 1 then .dbPage ⟨7, 7, 7⟩ else Block.zero⟩ else none
    buf := BufMgr.new bufs fun _ => ⟨0, Nat.succ_pos _⟩ }

/-- A dirty page is evicted by the read of another one. -/
theorem consistent_of_safe_run_evicted : ∃ s, BufRun (fun s op => op.Safe s) (smallPool 1) s ∧
    s.buf.hashTable.lookup 1 1 = none ∧ s.buf.hashTable.lookup 1 2 = some 0 ∧
    s.buf.Consistent := by
  let s₂ := ((smallPool 1).after (.readPage 1 1)).after (.unPinPage 1 1 true)
  have hrun : BufRun (fun s op => op.Safe s) (smallPool 1) (s₂.after (.readPage 1 2)) := by
    refine .after (.after (.after .start ?_ ?_) trivial ?_) ?_ ?_
    · exact fun h => absurd h.2.1 (by decide +kernel)
    · decide +kernel
    · decide +kernel
    · exact BufMgr.not_readLoses_of_eval (by decide +kernel)
    · decide +kernel
  exact ⟨_, hrun, by decide +kernel, by decide +kernel,
    consistent_of_safe_run (by decide) rfl hrun⟩

/-- The calls of a list, one after the other. -/
def runCalls : List BufOp → M (List Status)
  | [] => return []
  | op :: ops => do
    let status ← op.run
    let rest ← runCalls ops
    return status :: rest

theorem BufRun.of_runCalls {C : Sys → BufOp → Prop} {s₀ : Sys} (hC : ∀ s op, C s op)
    (ops : List BufOp) {s s' : Sys} {statuses : List Status} {e : Bool} (hrun : BufRun C s₀ s)
    (hy : Yields (runCalls ops) s statuses e s') : BufRun C s₀ s' := by
  induction ops generalizing s statuses e with
  | nil =>
    obtain ⟨-, rfl, -⟩ := yields_pure.mp hy
    exact hrun
  | cons op ops ih =>
    obtain ⟨status, e₁, s₁, e₂, h₁, h₂, -⟩ := hy.of_bind
    obtain ⟨rest, e₃, s₂, e₄, h₃, h₄, -⟩ := h₂.of_bind
    obtain ⟨-, rfl, -⟩ := yields_pure.mp h₄
    exact ih (.call hrun (hC _ _) h₁) h₃

/-- A read beyond the end of the file fails after the only frame has been emptied: the frame stays
valid, but the hash table no longer knows its page. -/
theorem not_consistent_after_failed_read :
    ∃ s, BufRun (fun _ _ => True) oneFrame s ∧ ¬s.buf.Consistent := by
  obtain ⟨statuses, e, s, hy, hv⟩ := exists_of_eval (s := oneFrame)
    (x := runCalls [.readPage 1 1, .unPinPage 1 1 false, .readPage 1 9])
    (g := fun statuses _ s => (statuses, s.buf.numBufs, (s.buf.bufTable 0).valid,
      s.buf.hashTable.lookup (s.buf.bufTable 0).file (s.buf.bufTable 0).pageNo))
    (v := ([.OK, .OK, .UNIXERR], 1, true, none)) (by decide +kernel)
  simp only [Prod.mk.injEq] at hv
  obtain ⟨-, hN, hvalid, hlook⟩ := hv
  refine ⟨s, .of_runCalls (fun _ _ => trivial) _ .start hy, fun h => ?_⟩
  have := (h.valid_iff 0 (by omega)).mp hvalid
  rw [hlook] at this
  cases this

end Minirel
