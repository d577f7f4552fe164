import Minirel.BufMgr.Pins
import Minirel.Store.View

/-!
# Pins and their owners

Every pin has an owner. The operations of the buffer manager keep the account of the pins whatever
else fails: a Unix call, a page number beyond the end of the file, or a pool without a free frame.
The account is a multiset of pins, and the pin counts of the frames are the pins on them.

A read that fails leaves a frame behind that carries a page the hash table has forgotten. The
account survives that, as long as nobody reads the forgotten page again.

## Main definitions

* `BufMgr.Sole`: the page is in no frame but the one that the hash table finds.
* `Pinned`: the pins there are.
* `Sys.pinCnt`: how many pins there are on a page.

## Main results

* `Pinned.readPage`, `Pinned.unPinPage`, `Pinned.allocPage`, `Pinned.closeFile`: what becomes of the
  pins in an operation.
-/

namespace Minirel

open Comp

namespace BufMgr

/-- The frame carries the page. -/
structure Carries (b : BufMgr) (n : Nat) (file : FilePtr) (pageNo : Int) : Prop where
  lt : n < b.numBufs
  valid : (b.bufTable n).valid = true
  file : (b.bufTable n).file = file
  pageNo : (b.bufTable n).pageNo = pageNo

/-- No frame carries the page but the one that the hash table finds. -/
def Sole (b : BufMgr) (file : FilePtr) (pageNo : Int) : Prop :=
  ∀ n, b.Carries n file pageNo → b.hashTable.lookup file pageNo = some n

variable {b b' : BufMgr} {n m : Nat} {file : FilePtr} {pageNo : Int} {d : BufDesc}

theorem Carries.of_eq (h : b.Carries n file pageNo) (hN : b'.numBufs = b.numBufs)
    (hd : b'.bufTable = b.bufTable) : b'.Carries n file pageNo := by
  refine ⟨hN ▸ h.lt, ?_, ?_, ?_⟩ <;> rw [hd]
  exacts [h.valid, h.file, h.pageNo]

/-- A frame carries one page. -/
theorem Carries.unique {file' : FilePtr} {pageNo' : Int} (h : b.Carries n file pageNo)
    (h' : b.Carries n file' pageNo') : file = file' ∧ pageNo = pageNo' :=
  ⟨h.file.symm.trans h'.file, h.pageNo.symm.trans h'.pageNo⟩

theorem carries_setDesc_self (hn : n < b.numBufs) (hv : d.valid = true) :
    (b.setDesc n d).Carries n d.file d.pageNo := by
  refine ⟨hn, ?_, ?_, ?_⟩ <;> rw [bufTable_setDesc_self]
  exact hv

/-- A change of another frame's descriptor does not matter. -/
theorem carries_setDesc_of_ne (h : m ≠ n) :
    (b.setDesc n d).Carries m file pageNo ↔ b.Carries m file pageNo := by
  constructor
  · rintro ⟨h₁, h₂, h₃, h₄⟩
    rw [bufTable_setDesc_of_ne b h] at h₂ h₃ h₄
    exact ⟨h₁, h₂, h₃, h₄⟩
  · rintro ⟨h₁, h₂, h₃, h₄⟩
    refine ⟨h₁, ?_, ?_, ?_⟩ <;> rw [bufTable_setDesc_of_ne b h] <;> assumption

/-- Nor does one that leaves the page of the frame as it is. -/
theorem carries_setDesc (hv : d.valid = (b.bufTable n).valid) (hf : d.file = (b.bufTable n).file)
    (hp : d.pageNo = (b.bufTable n).pageNo) :
    (b.setDesc n d).Carries m file pageNo ↔ b.Carries m file pageNo := by
  by_cases hm : m = n
  · subst hm
    constructor
    · rintro ⟨h₁, h₂, h₃, h₄⟩
      rw [bufTable_setDesc_self] at h₂ h₃ h₄
      exact ⟨h₁, hv ▸ h₂, hf ▸ h₃, hp ▸ h₄⟩
    · rintro ⟨h₁, h₂, h₃, h₄⟩
      refine ⟨h₁, ?_, ?_, ?_⟩ <;> rw [bufTable_setDesc_self]
      exacts [hv.trans h₂, hf.trans h₃, hp.trans h₄]
  · exact carries_setDesc_of_ne hm

end BufMgr

open BufMgr

/-- The pins `P` are all there are: each is on the only frame with its page, which the hash table
finds, and the pin count of a frame is the number of pins on it. -/
structure Pinned (b : BufMgr) (P : Multiset Pin) : Prop where
  numBufs_pos : 0 < b.numBufs
  clockHand_lt : b.clockHand < b.numBufs
  entry : ∀ file pageNo n, b.hashTable.lookup file pageNo = some n → b.Carries n file pageNo
  mapped : ∀ x ∈ P, b.hashTable.lookup x.file x.pageNo = some x.frame
  sole : ∀ x ∈ P, b.Sole x.file x.pageNo
  counts : ∀ n < b.numBufs, (b.bufTable n).pinCnt = P.countP (·.frame = n)

namespace Pinned

variable {b b' : BufMgr} {P P' : Multiset Pin} {x y : Pin} {n : Nat} {d : BufDesc}
  {file : FilePtr} {pageNo : Int} {t : BufHashTbl}

/-- The frame of a pin carries its page. -/
theorem carries (h : Pinned b P) (hx : x ∈ P) : b.Carries x.frame x.file x.pageNo :=
  h.entry _ _ _ (h.mapped x hx)

/-- The frame of a pin is pinned. -/
theorem pos (h : Pinned b P) (hx : x ∈ P) : 0 < (b.bufTable x.frame).pinCnt := by
  rw [h.counts _ (h.carries hx).lt, Multiset.countP_pos]
  exact ⟨x, hx, rfl⟩

/-- A frame that carries no page is not pinned. -/
theorem pinCnt_of_not_valid (h : Pinned b P) (hn : n < b.numBufs)
    (hv : (b.bufTable n).valid = false) : (b.bufTable n).pinCnt = 0 := by
  rw [h.counts n hn, Multiset.countP_eq_zero]
  rintro x hx rfl
  exact Bool.noConfusion (hv.symm.trans (h.carries hx).valid)

/-- There is not one pin more. -/
theorem not_cons (h : Pinned b P) : ¬Pinned b (x ::ₘ P) := by
  intro h'
  have hlt := (h'.carries (Multiset.mem_cons_self x P)).lt
  have hcount := (h.counts _ hlt).symm.trans (h'.counts _ hlt)
  rw [Multiset.countP_cons, if_pos rfl] at hcount
  omega

/-- Only the descriptors and the hash table matter. -/
theorem of_eq (h : Pinned b P) (hN : b'.numBufs = b.numBufs) (hc : b'.clockHand < b.numBufs)
    (hd : b'.bufTable = b.bufTable) (ht : b'.hashTable = b.hashTable) : Pinned b' P where
  numBufs_pos := hN ▸ h.numBufs_pos
  clockHand_lt := hN ▸ hc
  entry := fun file pageNo n hl => (h.entry file pageNo n (ht ▸ hl)).of_eq hN hd
  mapped := fun x hx => ht ▸ h.mapped x hx
  sole := fun x hx n hn => ht ▸ h.sole x hx n (hn.of_eq hN.symm hd.symm)
  counts := fun n hn => by rw [hd, h.counts n (hN ▸ hn)]

/-- A pin more or less: the descriptor keeps its page, and the new pins are accounted for. -/
theorem setDesc (h : Pinned b P) (hv : d.valid = (b.bufTable n).valid)
    (hf : d.file = (b.bufTable n).file) (hp : d.pageNo = (b.bufTable n).pageNo)
    (hmapped : ∀ x ∈ P', b.hashTable.lookup x.file x.pageNo = some x.frame ∧ b.Sole x.file x.pageNo)
    (hself : n < b.numBufs → d.pinCnt = P'.countP (·.frame = n))
    (hother : ∀ m ≠ n, P'.countP (·.frame = m) = P.countP (·.frame = m)) :
    Pinned (b.setDesc n d) P' where
  numBufs_pos := h.numBufs_pos
  clockHand_lt := h.clockHand_lt
  entry := fun file pageNo m hl => (carries_setDesc hv hf hp).mpr (h.entry file pageNo m hl)
  mapped := fun x hx => (hmapped x hx).1
  sole := fun x hx m hm => (hmapped x hx).2 m ((carries_setDesc hv hf hp).mp hm)
  counts := fun m hm => by
    by_cases hmn : m = n
    · subst hmn
      rw [bufTable_setDesc_self]
      exact hself hm
    · rw [bufTable_setDesc_of_ne b hmn, hother m hmn]
      exact h.counts m hm

/-- The page of a frame that is not pinned leaves the hash table. -/
theorem evict (h : Pinned b P) (hn : n < b.numBufs) (hv : (b.bufTable n).valid = true)
    (hzero : (b.bufTable n).pinCnt = 0)
    (ht : t = (b.hashTable.remove (b.bufTable n).file (b.bufTable n).pageNo).2) :
    Pinned { b with hashTable := t } P ∧ ∀ file pageNo, t.lookup file pageNo ≠ some n := by
  have hlook : ∀ {file pageNo m}, t.lookup file pageNo = some m →
      ¬(file = (b.bufTable n).file ∧ pageNo = (b.bufTable n).pageNo) ∧
        b.hashTable.lookup file pageNo = some m := by
    intro file pageNo m hl
    rw [ht, BufHashTbl.lookup_remove] at hl
    split at hl
    next => cases hl
    next hne => exact ⟨hne, hl⟩
  -- a pinned page is carried by its frame only, so that it is not the one that leaves
  have hkept : ∀ x ∈ P, t.lookup x.file x.pageNo = b.hashTable.lookup x.file x.pageNo := by
    intro x hx
    rw [ht, BufHashTbl.lookup_remove, if_neg]
    rintro ⟨hf, hp⟩
    have hl := h.sole x hx n ⟨hn, hv, hf.symm, hp.symm⟩
    rw [h.mapped x hx] at hl
    cases hl
    exact absurd hzero (Nat.ne_of_gt (h.pos hx))
  refine ⟨⟨h.numBufs_pos, h.clockHand_lt, fun file pageNo m hl => ?_, fun x hx => ?_,
    fun x hx m hm => ?_, h.counts⟩, fun file pageNo hl => ?_⟩
  · exact (h.entry file pageNo m (hlook hl).2).of_eq rfl rfl
  · exact (hkept x hx).trans (h.mapped x hx)
  · exact (hkept x hx).trans (h.sole x hx m (hm.of_eq rfl rfl))
  · have hc := h.entry file pageNo n (hlook hl).2
    exact (hlook hl).1 ⟨hc.file.symm, hc.pageNo.symm⟩

/-- A frame that the hash table does not know is cleared. -/
theorem vacate (h : Pinned b P) (hfree : ∀ file pageNo, b.hashTable.lookup file pageNo ≠ some n)
    (hv : d.valid = false) (hd : d.pinCnt = (b.bufTable n).pinCnt) : Pinned (b.setDesc n d) P where
  numBufs_pos := h.numBufs_pos
  clockHand_lt := h.clockHand_lt
  entry := fun file pageNo m hl => by
    have hm : m ≠ n := fun hm => hfree file pageNo (hm ▸ hl)
    exact (carries_setDesc_of_ne hm).mpr (h.entry file pageNo m hl)
  mapped := h.mapped
  sole := fun x hx m hm => by
    by_cases hmn : m = n
    · subst hmn
      have hvalid := hm.valid
      rw [bufTable_setDesc_self, hv] at hvalid
      cases hvalid
    · exact h.sole x hx m ((carries_setDesc_of_ne hmn).mp hm)
  counts := fun m hm => by
    by_cases hmn : m = n
    · subst hmn
      rw [bufTable_setDesc_self, hd]
      exact h.counts m hm
    · rw [bufTable_setDesc_of_ne b hmn]
      exact h.counts m hm

/-- A page that no other frame carries enters a frame that the hash table does not know. -/
theorem enter (h : Pinned b P) (hn : n < b.numBufs)
    (hfree : ∀ file pageNo, b.hashTable.lookup file pageNo ≠ some n)
    (hzero : (b.bufTable n).pinCnt = 0) (hnone : b.hashTable.lookup file pageNo = none)
    (hsole : ∀ m ≠ n, ¬b.Carries m file pageNo)
    (ht : ∀ file' pageNo', t.lookup file' pageNo' = if file' = file ∧ pageNo' = pageNo then some n
      else b.hashTable.lookup file' pageNo') :
    Pinned (b.entered file pageNo n t) (⟨file, pageNo, n, false⟩ ::ₘ P) := by
  have hne : ∀ x ∈ P, ¬(x.file = file ∧ x.pageNo = pageNo) := by
    rintro x hx ⟨rfl, rfl⟩
    exact Option.some_ne_none _ ((h.mapped x hx).symm.trans hnone)
  have hself : (b.entered file pageNo n t).Carries n file pageNo :=
    (carries_setDesc_self (d := ⟨file, pageNo, 1, false, true⟩) hn rfl).of_eq rfl rfl
  have hother : ∀ {m file' pageNo'}, m ≠ n →
      ((b.entered file pageNo n t).Carries m file' pageNo' ↔ b.Carries m file' pageNo') := by
    intro m file' pageNo' hm
    refine Iff.trans ⟨fun hc => ?_, fun hc => ?_⟩
      (carries_setDesc_of_ne (d := ⟨file, pageNo, 1, false, true⟩) hm)
    · exact hc.of_eq rfl rfl
    · exact hc.of_eq rfl rfl
  refine ⟨h.numBufs_pos, h.clockHand_lt, fun file' pageNo' m hl => ?_, fun x hx => ?_,
    fun x hx m hm => ?_, fun m hm => ?_⟩
  · replace hl : t.lookup file' pageNo' = some m := hl
    rw [ht] at hl
    split at hl
    next heq =>
      obtain ⟨rfl, rfl⟩ := heq
      obtain rfl := Option.some.inj hl
      exact hself
    next =>
      have hm : m ≠ n := fun hm => hfree file' pageNo' (hm ▸ hl)
      exact (hother hm).mpr (h.entry file' pageNo' m hl)
  · show t.lookup x.file x.pageNo = some x.frame
    rw [ht]
    rcases Multiset.mem_cons.mp hx with rfl | hx
    · rw [if_pos ⟨rfl, rfl⟩]
    · rw [if_neg (hne x hx), h.mapped x hx]
  · show t.lookup x.file x.pageNo = some m
    rw [ht]
    by_cases hmn : m = n
    · subst hmn
      rw [if_pos]
      obtain ⟨hf, hp⟩ := hm.unique hself
      exact ⟨hf, hp⟩
    · have hm := (hother hmn).mp hm
      rcases Multiset.mem_cons.mp hx with rfl | hx
      · exact absurd hm (hsole m hmn)
      · rw [if_neg (hne x hx), h.sole x hx m hm]
  · rw [Multiset.countP_cons]
    show ((b.setDesc n ⟨file, pageNo, 1, false, true⟩).bufTable m).pinCnt = _
    by_cases hmn : m = n
    · subst hmn
      rw [bufTable_setDesc_self, ← h.counts m hm, hzero, if_pos rfl]
    · rw [bufTable_setDesc_of_ne b hmn, h.counts m hm, if_neg (Ne.symm hmn)]
      rfl

end Pinned

/-- In a pool that has lost nothing no page is forgotten. -/
theorem BufMgr.Sound.sole {b : BufMgr} (h : b.Sound) (file : FilePtr) (pageNo : Int) :
    b.Sole file pageNo := by
  rintro n ⟨hn, hv, rfl, rfl⟩
  exact (h.consistent.valid_iff n hn).mp hv

/-- The pins on the frames below `k`, as many as their descriptors count. -/
def BufMgr.pinsBelow (b : BufMgr) : Nat → Multiset Pin
  | 0 => 0
  | k + 1 => Multiset.replicate (b.bufTable k).pinCnt
      ⟨(b.bufTable k).file, (b.bufTable k).pageNo, k, false⟩ + b.pinsBelow k

theorem BufMgr.mem_pinsBelow {b : BufMgr} {k : Nat} {x : Pin} (hx : x ∈ b.pinsBelow k) :
    x.frame < k ∧ 0 < (b.bufTable x.frame).pinCnt ∧ x.file = (b.bufTable x.frame).file ∧
      x.pageNo = (b.bufTable x.frame).pageNo := by
  induction k with
  | zero => exact absurd hx (Multiset.notMem_zero x)
  | succ k ih =>
    rcases Multiset.mem_add.mp hx with hx | hx
    · obtain ⟨hne, rfl⟩ := Multiset.mem_replicate.mp hx
      exact ⟨Nat.lt_succ_self k, Nat.pos_of_ne_zero hne, rfl, rfl⟩
    · obtain ⟨hlt, hrest⟩ := ih hx
      exact ⟨Nat.lt_succ_of_lt hlt, hrest⟩

theorem BufMgr.countP_pinsBelow (b : BufMgr) (k n : Nat) :
    (b.pinsBelow k).countP (·.frame = n) = if n < k then (b.bufTable n).pinCnt else 0 := by
  induction k with
  | zero => rfl
  | succ k ih =>
    unfold BufMgr.pinsBelow
    rw [Multiset.countP_add, ih]
    generalize hx : (⟨(b.bufTable k).file, (b.bufTable k).pageNo, k, false⟩ : Pin) = x
    have hframe : x.frame = k := by rw [← hx]
    by_cases hn : n = k
    · have hall : (Multiset.replicate (b.bufTable k).pinCnt x).countP (·.frame = n) =
          (b.bufTable k).pinCnt := by
        refine (Multiset.countP_eq_card.mpr fun y hy => ?_).trans (Multiset.card_replicate _ _)
        rw [Multiset.eq_of_mem_replicate hy, hframe, hn]
      rw [hall, if_neg (by omega), if_pos (by omega), hn, Nat.add_zero]
    · have hzero : (Multiset.replicate (b.bufTable k).pinCnt x).countP (·.frame = n) = 0 := by
        refine Multiset.countP_eq_zero.mpr fun y hy he => hn ?_
        rw [← he, Multiset.eq_of_mem_replicate hy, hframe]
      rw [hzero, Nat.zero_add]
      exact if_congr (by omega) rfl rfl

/-- The pins of a sound pool are those that its descriptors count. -/
theorem BufMgr.Sound.exists_pinned {b : BufMgr} (h : b.Sound) (hi : b.Idle) : ∃ P, Pinned b P := by
  refine ⟨b.pinsBelow b.numBufs, h.numBufs_pos, h.clockHand_lt, fun file pageNo n hl => ?_,
    fun x hx => ?_, fun x _ => h.sole x.file x.pageNo, fun n hn => ?_⟩
  · obtain ⟨hn, hv, hf, hp⟩ := h.consistent.entry file pageNo n hl
    exact ⟨hn, hv, hf, hp⟩
  · obtain ⟨hlt, hpos, hf, hp⟩ := BufMgr.mem_pinsBelow hx
    rw [hf, hp]
    exact h.lookup_pinned hi hlt hpos
  · rw [b.countP_pinsBelow, if_pos hn]

/-- The number of pins on a page. -/
def Sys.pinCnt (s : Sys) (file : FilePtr) (pageNo : Int) : Nat :=
  match s.buf.hashTable.lookup file pageNo with
  | some n => (s.buf.bufTable n).pinCnt
  | none => 0

/-- The account says how many pins there are on a page. -/
theorem Pinned.pinCnt_eq {s : Sys} {P : Multiset Pin} (h : Pinned s.buf P) (file : FilePtr)
    (pageNo : Int) :
    s.pinCnt file pageNo = P.countP fun x => x.file = file ∧ x.pageNo = pageNo := by
  unfold Sys.pinCnt
  cases hl : s.buf.hashTable.lookup file pageNo with
  | some n =>
    have hc := h.entry file pageNo n hl
    dsimp only
    rw [h.counts n hc.lt]
    refine Multiset.countP_congr rfl fun x hx => propext ⟨?_, ?_⟩
    · rintro rfl
      exact (h.carries hx).unique hc
    · rintro ⟨rfl, rfl⟩
      exact Option.some.inj ((h.mapped x hx).symm.trans hl)
  | none =>
    refine (Multiset.countP_eq_zero.mpr fun x hx => ?_).symm
    rintro ⟨rfl, rfl⟩
    rw [h.mapped x hx] at hl
    cases hl

/-- The pins of the clients of a store are all there are. -/
theorem Coh.pinned {s : Sys} {P : Multiset Pin} {v : View} (hc : Coh s P v) : Pinned s.buf P where
  numBufs_pos := hc.sound.numBufs_pos
  clockHand_lt := hc.sound.clockHand_lt
  entry := fun file pageNo n hl => by
    obtain ⟨hn, hv, hf, hp⟩ := hc.sound.consistent.entry file pageNo n hl
    exact ⟨hn, hv, hf, hp⟩
  mapped := hc.pins
  sole := fun x _ => hc.sound.sole x.file x.pageNo
  counts := hc.counts

/-! ## Reading a page -/

section Operations

variable {P : Multiset Pin} {s : Sys} {file : FilePtr}

/-- The frame can be given a new page: nobody has pinned it, the hash table does not know it, and
the other frames with a page of `b` that occurs once are known. -/
structure Vacant (b b' : BufMgr) (n : Nat) : Prop where
  lt : n < b'.numBufs
  pinCnt : (b'.bufTable n).pinCnt = 0
  unknown : ∀ file pageNo, b'.hashTable.lookup file pageNo ≠ some n
  carries : ∀ m file pageNo, b'.Carries m file pageNo ↔ b.Carries m file pageNo
  lookup : ∀ file pageNo, b.hashTable.lookup file pageNo = none →
    b'.hashTable.lookup file pageNo = none
  known : ∀ file pageNo, b.Sole file pageNo → ∀ m ≠ n, b'.Carries m file pageNo →
    b'.hashTable.lookup file pageNo = some m

/-- `allocBuf` finds a frame without pins, if it succeeds, and leaves the pins alone. -/
theorem Pinned.allocBuf (hP : Pinned s.buf P) :
    Runs False BufMgr.allocBuf s fun r _ s' => Pinned s'.buf P ∧
      (r.1 = .OK → Vacant s.buf s'.buf r.2) := by
  have hsw := swept_spec s
  have hhand : (swept s).buf.clockHand < s.buf.numBufs :=
    hsw.clockHand hP.numBufs_pos hP.clockHand_lt
  have hcarries : ∀ m file pageNo,
      (swept s).buf.Carries m file pageNo ↔ s.buf.Carries m file pageNo := fun m file pageNo =>
    ⟨fun hc => hc.of_eq hsw.numBufs.symm hsw.bufTable.symm,
      fun hc => hc.of_eq hsw.numBufs hsw.bufTable⟩
  have hfree : evicts s = false → Pinned (swept s).buf P := fun he =>
    hP.of_eq hsw.numBufs hhand hsw.bufTable (hsw.kept he)
  have hswept : Pinned (swept s).buf P := by
    cases he : evicts s with
    | true =>
      obtain ⟨hv, hzero, ht⟩ := hsw.evicted he
      exact (hP.evict hhand hv hzero ht).1.of_eq hsw.numBufs hhand hsw.bufTable rfl
    | false => exact hfree he
  have hvacant : exhausted s = false → Vacant s.buf (swept s).buf (victim s) := by
    intro hex
    cases he : evicts s with
    | true =>
      obtain ⟨hv, hzero, ht⟩ := hsw.evicted he
      refine ⟨hsw.numBufs ▸ hhand, by rw [hsw.bufTable]; exact hzero,
        (hP.evict hhand hv hzero ht).2, hcarries, fun file pageNo => lookup_swept, ?_⟩
      intro file pageNo hsole m hm hc
      have hl := hsole m ((hcarries m file pageNo).mp hc)
      rw [ht, BufHashTbl.lookup_remove, if_neg, hl]
      -- the page that has left was the victim's
      rintro ⟨rfl, rfl⟩
      exact hm (Option.some.inj (hl.symm.trans (hsole _ ⟨hhand, hv, rfl, rfl⟩)))
    | false =>
      have hv : (s.buf.bufTable (victim s)).valid = false := by
        refine hsw.free he fun hleft => ?_
        have hfound : (clockSweep (2 * s.buf.numBufs) s.buf).2.1 = false := he
        rw [exhausted, hfound, hleft] at hex
        cases hex
      refine ⟨hsw.numBufs ▸ hhand, ?_, fun file pageNo hl => ?_, hcarries,
        fun file pageNo => lookup_swept, fun file pageNo hsole m _ hc => ?_⟩
      · rw [hsw.bufTable]
        exact hP.pinCnt_of_not_valid hhand hv
      · rw [hsw.kept he] at hl
        exact Bool.noConfusion (hv.symm.trans (hP.entry file pageNo _ hl).valid)
      · rw [hsw.kept he]
        exact hsole m ((hcarries m file pageNo).mp hc)
  refine runs_allocBuf (fun _ => ⟨hswept, fun hst => absurd hst (by decide)⟩)
    (fun hex _ => ⟨hswept, fun _ => hvacant hex⟩) fun hex _ => ?_
  refine (KeepsBuf.writePage _ _ _ _).mono ?_
  rintro status e s' ⟨-, hbuf⟩
  rw [hbuf]
  exact ⟨hswept, fun _ => hvacant hex⟩

/-- Entering a page that no frame carries into a vacant frame. -/
theorem Pinned.enterPage {b : BufMgr} {n : Nat} {pageNo : Int} (hP : Pinned s.buf P)
    (hvac : Vacant b s.buf n) (hnone : b.hashTable.lookup file pageNo = none)
    (hnew : ∀ m, ¬b.Carries m file pageNo) :
    ∃ s', Yields (BufMgr.enterPage file pageNo n) s (.OK, .frame n) false s' ∧
      Pinned s'.buf (⟨file, pageNo, n, false⟩ ::ₘ P) ∧
      ∀ file' pageNo', b.Sole file' pageNo' → s'.buf.Sole file' pageNo' := by
  have hnone' := hvac.lookup file pageNo hnone
  obtain ⟨t, ht, hy⟩ := enterPage_spec n hnone'
  have hP' := hP.enter hvac.lt hvac.unknown hvac.pinCnt hnone'
    (fun m _ hc => hnew m ((hvac.carries m file pageNo).mp hc)) ht
  refine ⟨_, hy, hP', fun file' pageNo' hsole m hm => ?_⟩
  by_cases hmn : m = n
  · subst hmn
    -- the frame carries the new page, and no other one
    obtain ⟨hf, hp⟩ := hm.unique (hP'.carries (Multiset.mem_cons_self _ P))
    rw [hf, hp]
    exact hP'.mapped _ (Multiset.mem_cons_self _ P)
  · have hc : s.buf.Carries m file' pageNo' := by
      refine (carries_setDesc_of_ne (d := ⟨file, pageNo, 1, false, true⟩) hmn).mp ?_
      exact hm.of_eq rfl rfl
    show t.lookup file' pageNo' = some m
    rw [ht, if_neg, hvac.known file' pageNo' hsole m hmn hc]
    rintro ⟨rfl, rfl⟩
    exact hnew m ((hvac.carries m _ _).mp hc)

/-- `readPage` gives its caller a pin on the page, or leaves the pins as they are. Unless it fails
it leaves no page behind that the hash table has forgotten. -/
theorem Pinned.readPage {pageNo : Int} (hP : Pinned s.buf P) (hsole : s.buf.Sole file pageNo)
    (page : PagePtr) :
    Runs False (BufMgr.readPage file pageNo page) s fun r _ s' =>
      (r.1 = .OK ∧ (∀ file' pageNo', s.buf.Sole file' pageNo' → s'.buf.Sole file' pageNo') ∧
          ∃ n, r.2 = .frame n ∧ Pinned s'.buf (⟨file, pageNo, n, false⟩ ::ₘ P)) ∨
        (r.1 ≠ .OK ∧ r.2 = page ∧ Pinned s'.buf P) := by
  unfold BufMgr.readPage
  rw [runs_get_bind]
  split
  next n hl =>
    -- the page is in the pool
    rw [runs_modifyBuf_bind, runs_pure]
    have hset : Pinned (s.buf.setDesc n _) (⟨file, pageNo, n, false⟩ ::ₘ P) :=
      hP.setDesc (d := { s.buf.bufTable n with pinCnt := (s.buf.bufTable n).pinCnt + 1 }) rfl rfl
        rfl
        (fun x hx => ?_) (fun hn => ?_) fun m hm => ?_
    · refine Or.inl ⟨rfl, fun file' pageNo' h m hm => ?_, n, rfl,
        hset.of_eq rfl hP.clockHand_lt rfl rfl⟩
      refine h m ((carries_setDesc (d := { s.buf.bufTable n with
        pinCnt := (s.buf.bufTable n).pinCnt + 1 }) rfl rfl rfl).mp ?_)
      exact hm.of_eq rfl rfl
    · rcases Multiset.mem_cons.mp hx with rfl | hx
      · exact ⟨hl, hsole⟩
      · exact ⟨hP.mapped x hx, hP.sole x hx⟩
    · rw [Multiset.countP_cons, if_pos rfl, ← hP.counts n hn]
    · rw [Multiset.countP_cons, if_neg (Ne.symm hm), Nat.add_zero]
  next hl =>
    refine hP.allocBuf.bind ?_
    rintro ⟨status, n⟩ e s₁ ⟨hP₁, hvac⟩
    dsimp only at hvac ⊢
    split
    next hne => exact runs_pure.mpr (Or.inr ⟨hne, rfl, hP₁⟩)
    next heq =>
      have hvac := hvac (by simpa using heq)
      rw [runs_get_bind]
      refine (KeepsBuf.readPage _ _ _ s₁).bind ?_
      rintro ⟨status₂, blk⟩ e₂ s₂ ⟨-, hbuf⟩
      dsimp only
      rw [runs_modifyBuf_bind, hbuf]
      have hP₂ : Pinned (s₁.buf.setPool n blk) P := hP₁.of_eq rfl hP₁.clockHand_lt rfl rfl
      split
      next hne => exact runs_pure.mpr (Or.inr ⟨hne, rfl, hP₂⟩)
      next =>
        generalize hs₃ : ({ s₂ with buf := s₁.buf.setPool n blk } : Sys) = s₃
        have hbuf₃ : s₃.buf = s₁.buf.setPool n blk := by rw [← hs₃]
        rw [← hbuf₃] at hP₂
        have hvac₃ : Vacant s.buf s₃.buf n := by
          rw [hbuf₃]
          refine ⟨hvac.lt, hvac.pinCnt, hvac.unknown,
            fun m f p => Iff.trans ?_ (hvac.carries m f p),
            hvac.lookup, fun f p h m hm hc => hvac.known f p h m hm (hc.of_eq rfl rfl)⟩
          exact ⟨fun hc => hc.of_eq rfl rfl, fun hc => hc.of_eq rfl rfl⟩
        obtain ⟨s', hy, hP', hkeep⟩ := hP₂.enterPage hvac₃ hl fun m hc =>
          Option.some_ne_none m ((hsole m hc).symm.trans hl)
        exact Runs.of_yields hy (Or.inl ⟨rfl, hkeep, n, rfl, hP'⟩)

/-- A page that could not be read is not in the pool. -/
theorem runs_readPage_missing (file : FilePtr) (pageNo : Int) (page : PagePtr) (s : Sys) :
    Runs False (BufMgr.readPage file pageNo page) s fun r _ s' => r.1 ≠ .OK →
      s'.buf.hashTable.lookup file pageNo = none := by
  unfold BufMgr.readPage
  rw [runs_get_bind]
  split
  next =>
    rw [runs_modifyBuf_bind, runs_pure]
    exact fun hne => absurd rfl hne
  next hl =>
    have hswept : (swept s).buf.hashTable.lookup file pageNo = none := lookup_swept hl
    have halloc : Runs False BufMgr.allocBuf s fun _ _ s' =>
        s'.buf.hashTable.lookup file pageNo = none := by
      refine runs_allocBuf (fun _ => hswept) (fun _ _ => hswept) fun _ _ => ?_
      exact (KeepsBuf.writePage _ _ _ _).mono fun _ _ _ ⟨_, hbuf⟩ => hbuf ▸ hswept
    refine halloc.bind ?_
    rintro ⟨status, n⟩ e s₁ hl₁
    dsimp only
    refine Runs.ite (fun _ => runs_pure.mpr fun _ => hl₁) fun _ => ?_
    rw [runs_get_bind]
    refine (KeepsBuf.readPage _ _ _ s₁).bind ?_
    rintro ⟨status₂, blk⟩ e₂ s₂ ⟨-, hbuf⟩
    dsimp only
    rw [runs_modifyBuf_bind, hbuf]
    refine Runs.ite (fun _ => runs_pure.mpr fun _ => hl₁) fun _ => ?_
    -- a page that is not in the pool can be entered
    obtain ⟨t, -, hy⟩ := enterPage_spec
      (s := { s₂ with buf := s₁.buf.setPool n blk }) n hl₁
    exact Runs.of_yields hy fun hne => absurd rfl hne

/-! ## Giving a pin back -/

theorem runs_allocBuf_pool : Runs False BufMgr.allocBuf s fun _ _ s' =>
    s'.buf.bufPool = s.buf.bufPool := by
  have hsw := swept_spec s
  refine runs_allocBuf (fun _ => hsw.bufPool) (fun _ _ => hsw.bufPool) fun _ _ => ?_
  refine (KeepsBuf.writePage _ _ _ _).mono ?_
  rintro status e s' ⟨-, hbuf⟩
  rw [hbuf]
  exact hsw.bufPool

/-- A page that somebody has pinned keeps its content while another page is read. -/
theorem Pinned.readPage_pool {pageNo : Int} (hP : Pinned s.buf P) (page : PagePtr) :
    Runs False (BufMgr.readPage file pageNo page) s fun _ _ s' =>
      ∀ x ∈ P, s'.buf.bufPool x.frame = s.buf.bufPool x.frame := by
  unfold BufMgr.readPage
  rw [runs_get_bind]
  split
  next =>
    rw [runs_modifyBuf_bind, runs_pure]
    exact fun _ _ => rfl
  next =>
    refine (hP.allocBuf.and runs_allocBuf_pool).bind ?_
    rintro ⟨status, n⟩ e s₁ ⟨⟨hP₁, hvac⟩, hpool₁⟩
    dsimp only at hvac ⊢
    split
    next =>
      rw [runs_pure, hpool₁]
      exact fun _ _ => rfl
    next heq =>
      have hzero := (hvac (by simpa using heq)).pinCnt
      rw [runs_get_bind]
      refine (KeepsBuf.readPage _ _ _ s₁).bind ?_
      rintro ⟨status₂, blk⟩ e₂ s₂ ⟨-, hbuf⟩
      dsimp only
      rw [runs_modifyBuf_bind, hbuf]
      -- the frame that is filled is nobody's
      have hother : ∀ x ∈ P, (s₁.buf.setPool n blk).bufPool x.frame = s.buf.bufPool x.frame := by
        intro x hx
        have hpos := hP₁.pos hx
        rw [← hpool₁]
        exact Function.update_of_ne (by rintro rfl; omega) _ _
      split
      next =>
        rw [runs_pure]
        exact hother
      next =>
        refine (enterPage_pinned file pageNo n).mono ?_
        rintro r e₃ s₃ ⟨-, hpool, -, -⟩
        rw [hpool]
        exact hother

/-- A page that is not in the pool cannot be given back. -/
theorem yields_unPinPage_missing {pageNo : Int}
    (hl : s.buf.hashTable.lookup file pageNo = none) (dirty : Bool) :
    Yields (BufMgr.unPinPage file pageNo dirty) s .HASHNOTFOUND false s := by
  have hrun : Runs True (BufMgr.unPinPage file pageNo dirty) s fun st e s' =>
      st = .HASHNOTFOUND ∧ e = false ∧ s' = s := by
    unfold BufMgr.unPinPage
    rw [runs_get_bind, hl]
    exact runs_pure.mpr ⟨rfl, rfl, rfl⟩
  obtain ⟨s', hy, rfl⟩ := hrun.yields
  exact hy

/-- `unPinPage` of a pinned page succeeds, and takes the pin away. -/
theorem Pinned.unPinPage {y : Pin} (hP : Pinned s.buf (y ::ₘ P)) (dirty : Bool) :
    ∃ s', Yields (BufMgr.unPinPage y.file y.pageNo dirty) s .OK false s' ∧ Pinned s'.buf P ∧
      ∀ file pageNo, s.buf.Sole file pageNo → s'.buf.Sole file pageNo := by
  have hl := hP.mapped y (Multiset.mem_cons_self y P)
  have hpos := hP.pos (Multiset.mem_cons_self y P)
  -- whether the page is marked dirty makes no difference
  have hset : ∀ d : BufDesc, d.valid = (s.buf.bufTable y.frame).valid →
      d.file = (s.buf.bufTable y.frame).file → d.pageNo = (s.buf.bufTable y.frame).pageNo →
      d.pinCnt = (s.buf.bufTable y.frame).pinCnt - 1 → Pinned (s.buf.setDesc y.frame d) P ∧
        ∀ file pageNo, s.buf.Sole file pageNo → (s.buf.setDesc y.frame d).Sole file pageNo := by
    intro d hv hf hp hd
    refine ⟨hP.setDesc hv hf hp (fun x hx => ?_) (fun hn => ?_) fun m hm => ?_,
      fun file pageNo h m hm => h m ((carries_setDesc hv hf hp).mp hm)⟩
    · have hx' : x ∈ y ::ₘ P := Multiset.mem_cons_of_mem hx
      exact ⟨hP.mapped x hx', hP.sole x hx'⟩
    · rw [hd, hP.counts _ hn, Multiset.countP_cons, if_pos rfl, Nat.add_sub_cancel]
    · rw [Multiset.countP_cons, if_neg (Ne.symm hm), Nat.add_zero]
  have hrun : Runs True (BufMgr.unPinPage y.file y.pageNo dirty) s fun st e s' => st = .OK ∧
      e = false ∧ Pinned s'.buf P ∧
      ∀ file pageNo, s.buf.Sole file pageNo → s'.buf.Sole file pageNo := by
    unfold BufMgr.unPinPage
    rw [runs_get_bind, hl]
    dsimp only
    cases dirty with
    | true =>
      simp only [↓reduceIte]
      rw [if_neg (Nat.ne_of_gt hpos), runs_modifyBuf_bind, runs_pure]
      exact ⟨rfl, rfl, hset _ rfl rfl rfl rfl⟩
    | false =>
      simp only [Bool.false_eq_true, ↓reduceIte]
      rw [if_neg (Nat.ne_of_gt hpos), runs_modifyBuf_bind, runs_pure]
      exact ⟨rfl, rfl, hset _ rfl rfl rfl rfl⟩
  exact hrun.yields

/-! ## A new page -/

/-- The pool has a frame with the page that the file hands out next. -/
def AllocClash (s : Sys) (file : FilePtr) : Prop :=
  ∃ pageNo e s₁ n, Yields (File.allocatePage file) s (.OK, pageNo) e s₁ ∧
  s.buf.Carries n file pageNo

/-- `allocPage` gives its caller a pin on the new page, or leaves the pins as they are. -/
theorem Pinned.allocPage (hP : Pinned s.buf P) (hclash : ¬AllocClash s file) (page : PagePtr) :
    Runs False (BufMgr.allocPage file page) s fun r _ s' =>
      (r.1 = .OK ∧ ∃ n, r.2.2 = .frame n ∧ Pinned s'.buf (⟨file, r.2.1, n, false⟩ ::ₘ P)) ∨
        (r.1 ≠ .OK ∧ Pinned s'.buf P) := by
  unfold BufMgr.allocPage
  refine Runs.bind (P := fun r e s₁ => s₁.buf = s.buf ∧ Yields (File.allocatePage file) s r e s₁)
    ⟨fun r e s₁ hy => ⟨((KeepsBuf.allocatePage _ s).1 r e s₁ hy).2, hy⟩, fun hf => hf.elim⟩ ?_
  rintro ⟨status, pageNo⟩ e s₁ ⟨hbuf, hy⟩
  dsimp only
  split
  next hne => exact runs_pure.mpr (Or.inr ⟨hne, hbuf ▸ hP⟩)
  next heq =>
    have heq : status = .OK := by simpa using heq
    subst heq
    have hnew : ∀ m, ¬s₁.buf.Carries m file pageNo := fun m hm =>
      hclash ⟨pageNo, e, s₁, m, hy, hbuf ▸ hm⟩
    rw [← hbuf] at hP
    have hnone : s₁.buf.hashTable.lookup file pageNo = none := by
      by_contra hcon
      obtain ⟨m, hm⟩ := Option.ne_none_iff_exists'.mp hcon
      exact hnew m (hP.entry _ _ _ hm)
    refine hP.allocBuf.bind ?_
    rintro ⟨status, n⟩ e' s₂ ⟨hP₂, hvac⟩
    dsimp only at hvac ⊢
    split
    next hne => exact runs_pure.mpr (Or.inr ⟨hne, hP₂⟩)
    next heq =>
      obtain ⟨s', hy', hP', -⟩ := hP₂.enterPage (hvac (by simpa using heq)) hnone hnew
      rw [runs_bind_of_yields hy', runs_pure]
      exact Or.inl ⟨rfl, n, rfl, hP'⟩

/-! ## Closing a file -/

/-- Flushing takes pages out of the pool that nobody has pinned. -/
theorem Pinned.flushFrames (file : FilePtr) (n i : Nat) {s : Sys} (hP : Pinned s.buf P)
    (hi : i + n ≤ s.buf.numBufs) :
    Runs False (BufMgr.flushFrames file n i) s fun _ _ s' => Pinned s'.buf P := by
  induction n generalizing i s with
  | zero => exact runs_pure.mpr hP
  | succ n ih =>
    unfold BufMgr.flushFrames
    rw [runs_get_bind]
    dsimp only
    split
    next hc =>
      split
      next => exact runs_pure.mpr hP
      next hpin =>
        have hzero : (s.buf.bufTable i).pinCnt = 0 := by omega
        refine (BufMgr.flushFrame_buf i).bind ?_
        rintro status e s₁ ⟨hbad, hok⟩
        split
        next hne =>
          rw [runs_pure, hbad hne]
          exact hP
        next heq =>
          rw [runs_modifyBuf_bind, hok (by simpa using heq)]
          obtain ⟨hP₁, hfree⟩ := hP.evict (n := i) (by omega) hc.1 hzero rfl
          rw [hc.2] at hP₁ hfree
          have hP₂ := hP₁.vacate (d := ⟨0, -1, (s.buf.bufTable i).pinCnt, false,
            false⟩) hfree rfl rfl
          generalize hs₂ : ({ s₁ with buf := _ } : Sys) = s₂
          refine ih (s := s₂) (i + 1) ?_ ?_ <;> rw [← hs₂]
          · exact hP₂.of_eq rfl hP.clockHand_lt (Function.update_idem _ _ _) rfl
          · show i + 1 + n ≤ s.buf.numBufs
            omega
    next =>
      split
      next => exact runs_pure.mpr hP
      next => exact ih (i + 1) hP (by omega)

/-- `closeFile` leaves the pins as they are, whatever becomes of the file. -/
theorem Pinned.closeFile (hP : Pinned s.buf P) (file : FilePtr) :
    Runs False (DB.closeFile file) s fun _ _ s' => Pinned s'.buf P := by
  have hflush {s₁ : Sys} (hbuf : s₁.buf = s.buf) :
      Runs False (BufMgr.flushFile file) s₁ fun _ _ s' => Pinned s'.buf P := by
    rw [← hbuf] at hP
    unfold BufMgr.flushFile
    rw [runs_get_bind]
    exact hP.flushFrames file _ 0 (by omega)
  have hclose : Runs False (File.close file) s fun _ _ s' => Pinned s'.buf P := by
    unfold File.close
    refine (KeepsBuf.fileAt file s).bind ?_
    rintro fo e s₁ ⟨-, hbuf⟩
    split
    · rw [runs_pure, hbuf]
      exact hP
    rw [runs_setFile_bind]
    split
    · generalize hs₂ : ({ s₁ with files := _ } : Sys) = s₂
      have hbuf₂ : s₂.buf = s.buf := hs₂ ▸ hbuf
      refine (hflush hbuf₂).bind ?_
      intro _ _ s₃ hP₃
      rw [runs_unixCall_bind]
      refine (KeepsBuf.fileAt file _).bind ?_
      rintro fo' e' s₄ ⟨-, hbuf₄⟩
      rw [runs_setFile_bind]
      split <;> rw [runs_pure, hbuf₄] <;> exact hP₃
    · rw [runs_pure, hbuf]
      exact hP
  unfold DB.closeFile
  split
  · exact runs_pure.mpr hP
  refine hclose.bind ?_
  intro _ _ s₁ hP₁
  refine (KeepsBuf.fileAt file s₁).bind ?_
  rintro fo e s₂ ⟨-, hbuf₂⟩
  split
  · rw [runs_get_bind]
    dsimp only
    rw [runs_set_bind]
    split
    · rw [runs_pure]
      exact hbuf₂ ▸ hP₁
    · rw [runs_setFile_bind, runs_pure]
      exact hbuf₂ ▸ hP₁
  · rw [runs_pure, hbuf₂]
    exact hP₁

end Operations

end Minirel
