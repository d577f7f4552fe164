import Minirel.BufMgr.Content
import Minirel.BufMgr.Table

/-!
# Choosing a victim

`allocBuf` makes two rounds of the clock. It comes back with a frame exactly when there is one that
holds no page or a page that nobody has pinned, wherever the clock hand stands and whatever the
reference bits are.

## Main definitions

* `BufMgr.Evictable`: the frame may be taken.
* `BufMgr.CanWriteBack`: the pages that may be taken out of their frames can be written back.

## Main results

* `BufMgr.allocBuf_ok_iff`: when `allocBuf` returns `OK`, and what it has done to the frame it
  returns and to the other ones.
-/

namespace Minirel

open Comp

namespace BufMgr

/-- The frame holds no page, or a page that is not pinned. -/
def Evictable (b : BufMgr) (n : Nat) : Prop :=
  n < b.numBufs ∧ ((b.bufTable n).valid = false ∨ (b.bufTable n).pinCnt = 0)

/-- A dirty page that is not pinned can be written back. -/
def CanWriteBack (s : Sys) : Prop :=
  ∀ n < s.buf.numBufs, (s.buf.bufTable n).valid = true → (s.buf.bufTable n).pinCnt = 0 →
    (s.buf.bufTable n).dirty = true → ∃ e s', Yields (File.writePage (s.buf.bufTable n).file
      (s.buf.bufTable n).pageNo (s.buf.bufPool n)) s .OK e s'

/-- What has happened to the frame `n` that was taken, and what has not happened to other ones. -/
structure Takes (s s' : Sys) (n : Nat) : Prop where
  evictable : s.buf.Evictable n
  /-- The page that was in the frame is out of the hash table, and no other page. -/
  removed : (s.buf.bufTable n).valid = true → ∀ file p, s'.buf.hashTable.lookup file p =
    if file = (s.buf.bufTable n).file ∧ p = (s.buf.bufTable n).pageNo then none
    else s.buf.hashTable.lookup file p
  unmapped : (s.buf.bufTable n).valid = false → s'.buf.hashTable = s.buf.hashTable
  /-- The page that was in the frame is on disk as it was in the frame. -/
  written : (s.buf.bufTable n).valid = true → (s.buf.bufTable n).dirty = true →
    s'.disk? (s.buf.bufTable n).file (s.buf.bufTable n).pageNo = some (s.buf.bufPool n)
  others : ∀ m, m ≠ n → s'.buf.bufTable m = s.buf.bufTable m ∧
    s'.buf.bufPool m = s.buf.bufPool m

variable {s : Sys}

theorem victim_lt (hN : 0 < s.buf.numBufs) : victim s < s.buf.numBufs :=
  clockHand_clockSweep_lt _ _ hN (by omega)

/-- A sweep that finds a frame finds one that may be taken. -/
theorem evictable_victim (hN : 0 < s.buf.numBufs) (hex : exhausted s = false) :
    s.buf.Evictable (victim s) := by
  refine ⟨victim_lt hN, ?_⟩
  cases he : evicts s with
  | true => exact Or.inr ((swept_spec s).evicted he).2.1
  | false => exact Or.inl ((valid_victim hex).trans he)

/-- The sweep finds a frame exactly if one may be taken. -/
theorem exhausted_eq_false_iff (hN : 0 < s.buf.numBufs) :
    exhausted s = false ↔ ∃ n, s.buf.Evictable n := by
  constructor
  · intro hex
    exact ⟨victim s, evictable_victim hN hex⟩
  · rintro ⟨n, hn, hfree⟩
    rw [← Bool.not_eq_true]
    intro hex
    obtain ⟨hv, hp⟩ := pinned_of_exhausted hex hn
    rcases hfree with hfree | hfree
    · rw [hv] at hfree
      cases hfree
    · omega

/-- Once the sweep has found a frame and the disk is as it should be, the frame is taken. -/
theorem takes_victim {s' : Sys} (hN : 0 < s.buf.numBufs) (hex : exhausted s = false)
    (hbuf : s'.buf = (swept s).buf)
    (hwritten : (s.buf.bufTable (victim s)).dirty = true → s'.disk? (s.buf.bufTable (victim s)).file
      (s.buf.bufTable (victim s)).pageNo = some (s.buf.bufPool (victim s))) :
    Takes s s' (victim s) := by
  have hsw := swept_spec s
  have hvalid := valid_victim hex
  refine ⟨evictable_victim hN hex, fun hv file p => ?_, fun hv => ?_, fun _ => hwritten,
    fun m _ => ?_⟩
  · rw [hbuf, (hsw.evicted (hvalid.symm.trans hv)).2.2]
    exact BufHashTbl.lookup_remove _ _ _ _ _
  · rw [hbuf]
    exact hsw.kept (hvalid.symm.trans hv)
  · rw [hbuf, hsw.bufTable, hsw.bufPool]
    exact ⟨rfl, rfl⟩

/-- The write-back of the frame that the sweep has found. -/
theorem exists_writeBack (hN : 0 < s.buf.numBufs) (hex : exhausted s = false)
    (hclean : ∀ n < s.buf.numBufs, (s.buf.bufTable n).valid = false →
      (s.buf.bufTable n).dirty = false) (hwrite : CanWriteBack s)
    (hd : (s.buf.bufTable (victim s)).dirty = true) :
    ∃ s', Yields (File.writePage (s.buf.bufTable (victim s)).file
        (s.buf.bufTable (victim s)).pageNo (s.buf.bufPool (victim s))) (swept s) .OK false s' ∧
      s'.buf = (swept s).buf ∧ s'.disk? (s.buf.bufTable (victim s)).file
        (s.buf.bufTable (victim s)).pageNo = some (s.buf.bufPool (victim s)) := by
  obtain ⟨hn, hfree⟩ := evictable_victim hN hex
  have hv : (s.buf.bufTable (victim s)).valid = true := by
    rw [← Bool.not_eq_false]
    intro hv
    rw [hclean _ hn hv] at hd
    cases hd
  have hpin : (s.buf.bufTable (victim s)).pinCnt = 0 := by
    rcases hfree with hfree | hfree
    · rw [hv] at hfree
      cases hfree
    · exact hfree
  obtain ⟨e, s', hy⟩ := hwrite _ hn hv hpin hd
  obtain ⟨fo, uf, hfo, huf, hio, hopen, hp, -, -⟩ := File.yields_writePage_ok_iff.mp hy
  -- the sweep has changed nothing that the write depends on
  refine ⟨_, File.yields_writePage_ok_iff.mpr ⟨fo, uf, hfo, huf, hio, hopen, hp, rfl, rfl⟩, rfl, ?_⟩
  have hfo' : (swept s).files (s.buf.bufTable (victim s)).file = some fo := hfo
  unfold Sys.disk?
  dsimp only
  rw [hfo', Option.bind_some, Function.update_self, Option.bind_some]
  exact uf.page?_write_self _ (by omega)

/-- `allocBuf` returns `OK` exactly if some frame holds no page or a page that is not pinned, and
`BUFFEREXCEEDED` otherwise. The frame it returns is such a frame; its page is out of the hash table
and, if it was dirty, on disk, and the other frames are as before up to their reference bits. -/
theorem allocBuf_ok_iff (hN : 0 < s.buf.numBufs)
    (hclean : ∀ n < s.buf.numBufs, (s.buf.bufTable n).valid = false →
      (s.buf.bufTable n).dirty = false) (hwrite : CanWriteBack s) :
    Runs True allocBuf s fun r _ s' =>
      (r.1 = .OK ↔ ∃ n, s.buf.Evictable n) ∧ (r.1 ≠ .OK → r.1 = .BUFFEREXCEEDED) ∧
      (r.1 = .OK → Takes s s' r.2) := by
  have hsw := swept_spec s
  have htable : (swept s).buf.bufTable = s.buf.bufTable := hsw.bufTable
  have hpool : (swept s).buf.bufPool = s.buf.bufPool := hsw.bufPool
  refine runs_allocBuf (fun hex => ?_) (fun hex hd => ?_) (fun hex hd => ?_)
  · refine ⟨iff_of_false nofun fun hfree => ?_, fun _ => rfl, nofun⟩
    rw [(exhausted_eq_false_iff hN).mpr hfree] at hex
    cases hex
  · rw [htable] at hd
    refine ⟨iff_of_true rfl ⟨_, evictable_victim hN hex⟩, fun h => absurd rfl h, fun _ => ?_⟩
    exact takes_victim hN hex rfl fun hd' => by rw [hd] at hd'; cases hd'
  · rw [htable] at hd
    rw [htable, hpool]
    obtain ⟨s', hy, hbuf, hdisk⟩ := exists_writeBack hN hex hclean hwrite hd
    refine Runs.of_yields hy ⟨iff_of_true rfl ⟨_, evictable_victim hN hex⟩, fun h => absurd rfl h,
      fun _ => ?_⟩
    exact takes_victim hN hex hbuf fun _ => hdisk

/-- The pool of one frame, which holds a dirty page that nobody has pinned. -/
def dirtyFrame : Sys :=
  { oneFrame with buf := { oneFrame.buf.setDesc 0 ⟨1, 1, 0, true, true⟩ with
      hashTable := (oneFrame.buf.hashTable.insert 1 1 0).2 } }

/-- The dirty page is written back and its frame returned. -/
theorem allocBuf_ok_iff_dirtyFrame :
    ∃ e s', Yields allocBuf dirtyFrame (.OK, 0) e s' ∧ Takes dirtyFrame s' 0 := by
  have hN : dirtyFrame.buf.numBufs = 1 := rfl
  have hdesc : dirtyFrame.buf.bufTable 0 = ⟨1, 1, 0, true, true⟩ := rfl
  have hclean : ∀ n < dirtyFrame.buf.numBufs, (dirtyFrame.buf.bufTable n).valid = false →
      (dirtyFrame.buf.bufTable n).dirty = false := by
    intro n hn hv
    obtain rfl : n = 0 := by omega
    rw [hdesc] at hv
    cases hv
  have hwrite : CanWriteBack dirtyFrame := by
    intro n hn _ _ _
    obtain rfl : n = 0 := by omega
    rw [hdesc]
    exact ⟨_, _, File.yields_writePage_ok_iff.mpr ⟨_, _, rfl, rfl, rfl, rfl, le_refl 1, rfl, rfl⟩⟩
  obtain ⟨⟨status, n⟩, e, s', hy, hiff, -, htakes⟩ :=
    (allocBuf_ok_iff (by decide) hclean hwrite).exists
  have hok : status = .OK := hiff.mpr ⟨0, by decide, Or.inr (by rw [hdesc])⟩
  subst hok
  have hs' := htakes rfl
  obtain rfl : n = 0 := by
    have := hs'.evictable.1
    omega
  exact ⟨e, s', hy, hs'⟩

end BufMgr

end Minirel
