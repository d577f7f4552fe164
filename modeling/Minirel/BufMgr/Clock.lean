import Minirel.BufMgr

/-!
# The clock sweep of `allocBuf`

What the loop of `allocBuf` does to the buffer manager, and when it comes to an end without a
frame.

## Main results

* `BufMgr.clockSweep_spec`: the sweep moves the clock hand, clears reference bits, and, if it
  picks a frame that holds a page, removes that page from the hash table.
* `BufMgr.clockSweep_exhausted`: in two rounds the sweep finds a frame unless every frame is
  pinned.
-/

namespace Minirel

namespace BufMgr

/-- What a sweep from `b` to `b'` may have done: `found` tells whether the frame under the clock
hand held a page, `left` how many steps were left. -/
structure Swept (b b' : BufMgr) (found : Bool) (left : Nat) : Prop where
  numBufs : b'.numBufs = b.numBufs
  bufTable : b'.bufTable = b.bufTable
  bufPool : b'.bufPool = b.bufPool
  clockHand : 0 < b.numBufs → b.clockHand < b.numBufs → b'.clockHand < b.numBufs
  /-- A frame that held a page is not pinned, and its page is out of the hash table. -/
  evicted : found = true → (b.bufTable b'.clockHand).valid = true ∧
    (b.bufTable b'.clockHand).pinCnt = 0 ∧
    b'.hashTable = (b.hashTable.remove (b.bufTable b'.clockHand).file
      (b.bufTable b'.clockHand).pageNo).2
  kept : found = false → b'.hashTable = b.hashTable
  free : found = false → left ≠ 0 → (b.bufTable b'.clockHand).valid = false

variable {b b' : BufMgr} {found : Bool} {left n : Nat}

@[simp]
theorem bufTable_advanceClock (b : BufMgr) : b.advanceClock.bufTable = b.bufTable := rfl

@[simp]
theorem refbit_advanceClock (b : BufMgr) : b.advanceClock.refbit = b.refbit := rfl

theorem clockHand_advanceClock_lt (hpos : 0 < b.numBufs) :
    b.advanceClock.clockHand < b.numBufs := Nat.mod_lt _ hpos

/-- The sweep goes on from a state that differs in the clock hand and the reference bits only. -/
private theorem Swept.of_eq {c : BufMgr} (h : Swept c b' found left)
    (h₁ : c.numBufs = b.numBufs) (h₂ : c.bufTable = b.bufTable) (h₃ : c.bufPool = b.bufPool)
    (h₄ : c.hashTable = b.hashTable) (h₅ : 0 < b.numBufs → c.clockHand < b.numBufs) :
    Swept b b' found left := by
  refine ⟨h.numBufs.trans h₁, h.bufTable.trans h₂, h.bufPool.trans h₃, fun hpos _ => ?_, ?_, ?_, ?_⟩
  · have := h.clockHand (h₁ ▸ hpos) (h₁ ▸ h₅ hpos)
    rwa [h₁] at this
  · rw [← h₂, ← h₄]
    exact h.evicted
  · rw [← h₄]
    exact h.kept
  · rw [← h₂]
    exact h.free

theorem clockSweep_spec : ∀ (n : Nat) (b b' : BufMgr) (found : Bool) (left : Nat),
    clockSweep n b = (b', found, left) → Swept b b' found left
  | 0, b, b', found, left => by
    intro h
    cases h
    exact ⟨rfl, rfl, rfl, fun _ h => h, nofun, fun _ => rfl, fun _ h => absurd rfl h⟩
  | n + 1, b, b', found, left => by
    intro h
    unfold clockSweep at h
    dsimp only at h
    split at h
    next hv =>
      -- the frame is free
      cases h
      exact ⟨rfl, rfl, rfl, fun hpos _ => clockHand_advanceClock_lt hpos, nofun,
        fun _ => rfl, fun _ _ => by simpa using hv⟩
    next hv =>
      split at h
      next hr =>
        split at h
        next hp =>
          -- the frame holds a page and is taken
          cases h
          refine ⟨rfl, rfl, rfl, fun hpos _ => clockHand_advanceClock_lt hpos, fun _ => ?_,
            nofun, nofun⟩
          exact ⟨by simpa using hv, hp, rfl⟩
        next hp =>
          exact (clockSweep_spec n _ b' found left h).of_eq rfl rfl rfl rfl
            fun hpos => clockHand_advanceClock_lt hpos
      next hr =>
        exact (clockSweep_spec n _ b' found left h).of_eq rfl rfl rfl rfl
          fun hpos => clockHand_advanceClock_lt hpos

/-- A frame `v` that lies `d` steps ahead of the clock hand stops the sweep if it is free, or holds
a page that is not pinned; in the second case it may take another round to come back to it. -/
private theorem clockSweep_stops {v : Nat} : ∀ (n d : Nat) (b : BufMgr), 0 < d → d ≤ b.numBufs →
    (b.clockHand + d) % b.numBufs = v →
    ((b.bufTable v).valid = false ∧ d < n ∨
      ((b.bufTable v).valid = true ∧ (b.bufTable v).pinCnt = 0) ∧
        d + (if b.refbit v then b.numBufs else 0) ≤ n) →
    ∀ b' left, clockSweep n b = (b', false, left) → left ≠ 0
  | 0, d, b => by
    intro hd _ _ hor
    omega
  | n + 1, d, b => by
    intro hd hdN hv hor b' left h
    unfold clockSweep at h
    dsimp only at h
    have hN : 0 < b.numBufs := by omega
    -- the frame the clock hand comes to
    obtain ⟨u, hu⟩ : ∃ u, b.advanceClock.clockHand = u := ⟨_, rfl⟩
    have huv : d = 1 → u = v := by
      rintro rfl
      exact hu.symm.trans hv
    have hnext : 1 < d → (u + (d - 1)) % b.numBufs = v := by
      intro h1
      rw [← hu, ← hv]
      unfold advanceClock
      rw [Nat.mod_add_mod]
      congr 1
      omega
    rw [hu, bufTable_advanceClock, refbit_advanceClock] at h
    split at h
    next hfree =>
      -- a free frame ends the sweep, and it is not the last step
      cases h
      rcases hor with ⟨-, h⟩ | ⟨⟨hval, -⟩, h⟩
      · omega
      · rintro rfl
        have hd1 : d = 1 := by
          split at h <;> omega
        rw [huv hd1, hval] at hfree
        exact hfree rfl
    next hvalid =>
      have hvalid : (b.bufTable u).valid = true := by simpa using hvalid
      split at h
      next hclear =>
        split at h
        next => cases h
        next hpin =>
          -- a pinned frame is passed, so it is not `v`
          have hd1 : d ≠ 1 := by
            intro hd1
            have := huv hd1
            subst this
            rcases hor with ⟨hval, -⟩ | ⟨⟨-, hval⟩, -⟩
            · rw [hvalid] at hval
              cases hval
            · exact hpin hval
          refine clockSweep_stops (v := v) n (d - 1) b.advanceClock (by omega)
            (le_trans (Nat.sub_le d 1) hdN) ?_ ?_ b' left h
          · rw [hu]
            exact hnext (by omega)
          · rw [bufTable_advanceClock, refbit_advanceClock]
            rcases hor with ⟨hval, h⟩ | ⟨hval, h⟩
            · exact Or.inl ⟨hval, by omega⟩
            · exact Or.inr ⟨hval, show d - 1 + (if b.refbit v then b.numBufs else 0) ≤ n by omega⟩
      next hset =>
        have hset : b.refbit u = true := by simpa using hset
        -- the reference bit of the frame is cleared; if the frame is `v`, a round is left
        by_cases hd1 : d = 1
        · have huv := huv hd1
          subst huv
          refine clockSweep_stops (v := u) n b.numBufs (b.advanceClock.setRefbit u false)
            hN (le_refl _)
            ?_ ?_ b' left h
          · show (b.advanceClock.clockHand + b.numBufs) % b.numBufs = u
            rw [hu, Nat.add_mod_right]
            exact Nat.mod_eq_of_lt (hu ▸ clockHand_advanceClock_lt hN)
          · right
            rcases hor with ⟨hval, -⟩ | ⟨hval, h⟩
            · rw [hvalid] at hval
              cases hval
            · rw [if_pos hset] at h
              refine ⟨hval, ?_⟩
              have hoff : (b.advanceClock.setRefbit u false).refbit u = false :=
                Function.update_self _ _ _
              rw [hoff]
              show b.numBufs + 0 ≤ n
              omega
        · refine clockSweep_stops (v := v) n (d - 1) (b.advanceClock.setRefbit u false) (by omega)
            (le_trans (Nat.sub_le d 1) hdN) ?_ ?_ b' left h
          · show (b.advanceClock.clockHand + (d - 1)) % b.numBufs = v
            rw [hu]
            exact hnext (by omega)
          · rcases hor with ⟨hval, h⟩ | ⟨hval, h⟩
            · exact Or.inl ⟨hval, by omega⟩
            · refine Or.inr ⟨hval, ?_⟩
              have hle : (if (b.advanceClock.setRefbit u false).refbit v then b.numBufs else 0) ≤
                  (if b.refbit v then b.numBufs else 0) := by
                by_cases hvu : v = u
                · subst hvu
                  rw [show (b.advanceClock.setRefbit v false).refbit v = false from
                    Function.update_self _ _ _]
                  exact Nat.zero_le _
                · rw [show (b.advanceClock.setRefbit u false).refbit v = b.refbit v from
                    Function.update_of_ne hvu _ _]
              exact le_trans (Nat.add_le_add_left hle _) (by omega)

/-- Every frame lies between one and `numBufs` steps ahead of the clock hand. -/
theorem exists_steps_ahead (b : BufMgr) {v : Nat} (hv : v < b.numBufs) :
    ∃ d, 0 < d ∧ d ≤ b.numBufs ∧ (b.clockHand + d) % b.numBufs = v := by
  have hN : 0 < b.numBufs := by omega
  have hc := Nat.mod_lt b.clockHand hN
  rcases Nat.lt_or_ge (b.clockHand % b.numBufs) v with h | h
  · refine ⟨v - b.clockHand % b.numBufs, by omega, by omega, ?_⟩
    rw [← Nat.mod_add_mod, Nat.add_sub_cancel' (le_of_lt h), Nat.mod_eq_of_lt hv]
  · refine ⟨v + b.numBufs - b.clockHand % b.numBufs, by omega, by omega, ?_⟩
    rw [← Nat.mod_add_mod, Nat.add_sub_cancel' (by omega), Nat.add_mod_right, Nat.mod_eq_of_lt hv]

/-- If two rounds of the clock end without a frame, every frame holds a pinned page. -/
theorem clockSweep_exhausted (h : clockSweep (2 * b.numBufs) b = (b', false, 0)) {v : Nat}
    (hv : v < b.numBufs) : (b.bufTable v).valid = true ∧ 0 < (b.bufTable v).pinCnt := by
  obtain ⟨d, hd₁, hd₂, hd₃⟩ := b.exists_steps_ahead hv
  by_contra hcon
  refine clockSweep_stops (2 * b.numBufs) d b hd₁ hd₂ hd₃ ?_ b' 0 h rfl
  cases hval : (b.bufTable v).valid with
  | false => exact Or.inl ⟨rfl, by omega⟩
  | true =>
    refine Or.inr ⟨⟨rfl, ?_⟩, by split <;> omega⟩
    by_contra hpin
    exact hcon ⟨hval, Nat.pos_of_ne_zero hpin⟩

/-- A sweep of at least one step leaves the clock hand on a frame. -/
theorem clockHand_clockSweep_lt : ∀ (n : Nat) (b : BufMgr), 0 < b.numBufs → 0 < n →
    (clockSweep n b).1.clockHand < b.numBufs
  | 0, b => fun _ h => absurd h (lt_irrefl 0)
  | n + 1, b => by
    intro hN _
    have hadv := b.clockHand_advanceClock_lt hN
    -- the steps that remain start from a hand on a frame, so that none at all is fine too
    have hrest : ∀ c : BufMgr, c.numBufs = b.numBufs → c.clockHand < b.numBufs →
        (clockSweep n c).1.clockHand < b.numBufs := by
      intro c hc hlt
      cases n with
      | zero => exact hlt
      | succ n => exact hc ▸ clockHand_clockSweep_lt (n + 1) c (hc ▸ hN) (Nat.succ_pos n)
    unfold clockSweep
    dsimp only
    split
    next => exact hadv
    next =>
      split
      next =>
        split
        next => exact hadv
        next => exact hrest _ rfl hadv
      next => exact hrest _ rfl hadv

end BufMgr

end Minirel
