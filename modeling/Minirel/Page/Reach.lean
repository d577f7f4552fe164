import Minirel.Page.SlotMap
import Mathlib.Algebra.BigOperators.Group.Finset.Basic
import Mathlib.Data.Int.Interval

/-!
# Pages reached by runs of calls

The calls that fill and empty a page, and what holds of a page after any run of them from `init`.
A page is a finite map from slot numbers to byte strings: `SlotMap.Step` says what each call does to
the map and which status it returns, and `refines_slotMap` that the page follows it. Its space is
accounted for to the byte: the records tile the area below `freePtr`, the slot array ends with a
slot in use, and `freeSpace` is what is left.

Slot numbers below zero are not refused as they should be: the entries `slot[1]`, `slot[2]`, …
behind the slot array are the header fields of the page.
-/

namespace Minirel

/-- The calls that change a page. -/
inductive Page.Op where
  /-- `insertRecord`. -/
  | insert (rec : Record)
  /-- `deleteRecord`. -/
  | delete (rid : RID)
  /-- `setNextPage`. -/
  | link (pageNo : Int)

/-- The status of a call and the RID that an insertion returns. -/
def Page.Op.call (p : Page) : Page.Op → Option (Status × RID × Page)
  | .insert rec => p.insertRecord rec
  | .delete rid => (p.deleteRecord rid).map fun r => (r.1, NULLRID, r.2)
  | .link pageNo => some (.OK, NULLRID, p.setNextPage pageNo)

/-- A run of calls, with what each of them returns. -/
def Page.runOps : List Page.Op → Page → Option (List (Status × RID) × Page)
  | [], p => some ([], p)
  | op :: ops, p => do
    let r ← op.call p
    let rs ← runOps ops r.2.2
    some ((r.1, r.2.1) :: rs.1, rs.2)

/-- A record of 1 to 1004 bytes to insert, or a slot number that is not negative to delete. -/
def Page.Op.InRange : Page.Op → Prop
  | .insert rec => rec.Readable ∧ 1 ≤ rec.length ∧ rec.length ≤ 1004
  | .delete rid => 0 ≤ rid.slotNo
  | .link _ => True

/-! ## Finite maps -/

/-- The content of a page: which byte string a slot number stands for. -/
abbrev SlotMap := Nat → Option Bytes

namespace SlotMap

/-- What a call does to the content of page `n`, and what it returns. -/
inductive Step (n : Int) : SlotMap → Page.Op → Status × RID → SlotMap → Prop where
  /-- There is no room for the record. -/
  | full (m : SlotMap) (rec : Record) : Step n m (.insert rec) (.NOSPACE, NULLRID) m
  /-- The record gets the lowest slot number that is free. -/
  | insert {m : SlotMap} {j : Nat} (rec : Record) (hfree : m j = none)
      (hlow : ∀ i < j, m i ≠ none) :
      Step n m (.insert rec) (.OK, ⟨n, j⟩) (Function.update m j (some rec.bytes))
  /-- The record is removed. -/
  | delete {m : SlotMap} {j : Nat} (q : Int) (hlive : m j ≠ none) :
      Step n m (.delete ⟨q, j⟩) (.OK, NULLRID) (Function.update m j none)
  /-- There is no such record. -/
  | invalid {m : SlotMap} {j : Nat} (q : Int) (hfree : m j = none) :
      Step n m (.delete ⟨q, j⟩) (.INVALIDSLOTNO, NULLRID) m
  /-- The content does not include the link to the next page. -/
  | link (m : SlotMap) (q : Int) : Step n m (.link q) (.OK, NULLRID) m

/-- A run of steps. -/
inductive Steps (n : Int) : SlotMap → List Page.Op → List (Status × RID) → SlotMap → Prop where
  | nil (m : SlotMap) : Steps n m [] [] m
  | cons {m m' m'' : SlotMap} {op : Page.Op} {r : Status × RID} {ops : List Page.Op}
      {rs : List (Status × RID)} (hstep : Step n m op r m') (hrun : Steps n m' ops rs m'') :
      Steps n m (op :: ops) (r :: rs) m''

/-- The number of bytes of the first `N` slots. -/
def size (m : SlotMap) (N : Nat) : Nat := ∑ j ∈ Finset.range N, ((m j).getD []).length

/-- Slots that are free add nothing. -/
theorem size_of_le {m : SlotMap} {K N : Nat} (hKN : K ≤ N) (h : ∀ j, K ≤ j → m j = none) :
    size m N = size m K := by
  unfold size
  symm
  apply Finset.sum_subset
  · intro j hj
    simp only [Finset.mem_range] at hj ⊢
    omega
  · intro j _ hj
    rw [h j (by simpa using hj)]
    rfl

/-- Filling a free slot adds the bytes of its record. -/
theorem size_insert {m : SlotMap} {j N : Nat} (hj : j < N) (hfree : m j = none) (b : Bytes) :
    size (Function.update m j (some b)) N = size m N + b.length := by
  have hmem : j ∈ Finset.range N := Finset.mem_range.mpr hj
  unfold size
  rw [← Finset.add_sum_erase _ _ hmem, ← Finset.add_sum_erase _ (fun i =>
    ((m i).getD []).length) hmem]
  have hrest : ∑ i ∈ (Finset.range N).erase j, ((Function.update m j (some b) i).getD []).length =
      ∑ i ∈ (Finset.range N).erase j, ((m i).getD []).length := by
    apply Finset.sum_congr rfl
    intro i hi
    rw [Function.update_of_ne (Finset.ne_of_mem_erase hi)]
  rw [hrest, Function.update_self, hfree]
  simp only [Option.getD_some, Option.getD_none, List.length_nil]
  omega

/-- Freeing a slot takes the bytes of its record away. -/
theorem size_delete {m : SlotMap} {j N : Nat} (hj : j < N) {b : Bytes} (hlive : m j = some b) :
    size (Function.update m j none) N + b.length = size m N := by
  rw [← size_insert hj (Function.update_self j none m) b, Function.update_idem, ← hlive,
    Function.update_eq_self]

end SlotMap

namespace Page

/-! ## What every reached page satisfies -/

/-- Pages reached from `init` by calls that meet a condition on the page and the call. -/
inductive Reach (Ok : Page → Op → Prop) : Page → Prop where
  | init (p : Page) (pageNo : Int) : Reach Ok (p.init pageNo)
  | step {p p' : Page} {op : Op} {st : Status} {rid : RID} (hp : Reach Ok p) (hop : Ok p op)
      (hcall : op.call p = some (st, rid, p')) : Reach Ok p'

/-- A page whose space is accounted for. -/
structure Accounted (p : Page) : Prop extends p.WF where
  /-- No record is empty. -/
  sized : ∀ j, p.rec? j ≠ some []
  /-- `freePtr` is the sum of the lengths of the records. -/
  freePtr_eq : p.freePtr = SlotMap.size p.rec? p.slots
  /-- The last slot is in use. -/
  last : ∀ i, i + 1 = p.slots → p.InUse i

/-- A page after `init` is accounted for. -/
theorem accounted_init (p : Page) (pageNo : Int) : (p.init pageNo).Accounted where
  toWF := wf_init p pageNo
  sized j := by rw [rec?_init]; exact nofun
  freePtr_eq := rfl
  last i hi := absurd hi (Nat.succ_ne_zero i)

/-- Records are in slots of the slot array. -/
theorem rec?_eq_none_of_le {p : Page} {j : Nat} (hj : p.slots ≤ j) : p.rec? j = none :=
  (rec?_eq_none_iff p j).mpr (Or.inl hj)

namespace Accounted

variable {p : Page}

/-- The records of a page over any number of slots that covers the slot array. -/
theorem size_eq (hp : p.Accounted) {N : Nat} (hN : p.slots ≤ N) :
    (SlotMap.size p.rec? N : Int) = p.freePtr := by
  rw [hp.freePtr_eq, SlotMap.size_of_le hN fun j hj => rec?_eq_none_of_le hj]

/-- An insertion of a record that is not empty keeps the page accounted for. -/
theorem inserted (hp : p.Accounted) {rec : Record} (hrec : rec.Readable) (hpos : 1 ≤ rec.length)
    (hfit : rec.length + 4 ≤ p.freeSpace) {j : Nat} (hj : j ≤ p.slots) (hfree : p.rec? j = none) :
    (p.inserted rec j).Accounted := by
  have hslots : (p.inserted rec j).slots = _ := slots_inserted hp.toWF
  have hrec' := rec?_inserted hp.toWF hrec hfit hj hfree
  have hlt : j < (p.inserted rec j).slots := by
    rw [hslots]
    split <;> omega
  have hle : p.slots ≤ (p.inserted rec j).slots := by
    rw [hslots]
    split <;> omega
  refine ⟨wf_inserted hp.toWF hrec hfit hj hfree, fun i => ?_, ?_, fun i hi => ?_⟩
  · rw [hrec', Function.update_apply]
    split
    · simpa using Record.bytes_ne_nil hrec hpos
    · exact hp.sized i
  · rw [hrec', SlotMap.size_insert hlt hfree, Nat.cast_add, hp.size_eq hle,
      Record.length_bytes hrec]
    show p.freePtr + rec.length = p.freePtr + (rec.length.toNat : Int)
    omega
  · rw [inUse_inserted hp.toWF hrec hfit hj hfree]
    -- the slot is new, and then the last one, or the last slot is as before
    rw [hslots] at hi
    split at hi
    · exact Or.inl (by omega)
    · exact Or.inr (hp.last i hi)

/-- So does the deletion of a record. -/
theorem deleted (hp : p.Accounted) {p' : Page} {j : Nat} {b : Bytes} (hwf : p'.WF)
    (hlive : p.rec? j = some b) (hrec : p'.rec? = Function.update p.rec? j none)
    (hptr : p'.freePtr = p.freePtr - b.length)
    (hlast : j + 1 < p.slots ∧ p'.slots = p.slots ∨ ∀ i, i + 1 = p'.slots → p'.InUse i) :
    p'.Accounted := by
  have huse : p.InUse j := (rec?_ne_none_iff p j).mp (by rw [hlive]; exact nofun)
  refine ⟨hwf, fun i => ?_, ?_, fun i hi => ?_⟩
  · rw [hrec, Function.update_apply]
    split
    · exact nofun
    · exact hp.sized i
  · have hsum := SlotMap.size_delete (N := p.slots + p'.slots) (Nat.lt_add_right _ huse.1) hlive
    have hcut : SlotMap.size p'.rec? (p.slots + p'.slots) = SlotMap.size p'.rec? p'.slots :=
      SlotMap.size_of_le (Nat.le_add_left _ _) fun i hi => rec?_eq_none_of_le hi
    rw [← hrec, hcut] at hsum
    have hall := hp.size_eq (Nat.le_add_right p.slots p'.slots)
    omega
  · rcases hlast with ⟨hlt, hsame⟩ | hlast
    · have hused := hp.last i (by omega)
      rw [← rec?_ne_none_iff, hrec, Function.update_of_ne (by omega)]
      exact (rec?_ne_none_iff p i).mpr hused
    · exact hlast i hi

end Accounted

/-- What a call in range does to a page: it follows the map, and the space stays accounted for. -/
theorem call_spec {p : Page} (hp : p.Accounted) {op : Op} (hop : op.InRange) :
    ∃ st rid p', op.call p = some (st, rid, p') ∧ p'.Accounted ∧ p'.curPage = p.curPage ∧
      SlotMap.Step p.curPage p.rec? op (st, rid) p'.rec? := by
  cases op with
  | insert rec =>
    obtain ⟨hread, hpos, -⟩ := hop
    by_cases hfit : rec.length + 4 ≤ p.freeSpace
    · obtain ⟨j, hins, hj, hfree, hlow⟩ := insertRecord_eq hp.toWF hread hfit
      refine ⟨_, _, _, hins, hp.inserted hread hpos hfit hj hfree, rfl, ?_⟩
      rw [rec?_inserted hp.toWF hread hfit hj hfree]
      exact .insert rec hfree hlow
    · obtain ⟨-, hins⟩ | ⟨hle, -⟩ := insertRecord_spec hp.toWF hread
      · exact ⟨_, _, _, hins, hp, rfl, .full _ rec⟩
      · exact absurd hle hfit
  | delete rid =>
    obtain ⟨q, slotNo⟩ := rid
    lift slotNo to Nat using hop with j
    cases hrec : p.rec? j with
    | none =>
      refine ⟨_, _, p, ?_, hp, rfl, .invalid q hrec⟩
      simp only [Op.call, deleteRecord_invalid hp.toWF (Or.inl hrec) q, Option.map_some]
    | some b =>
      have hb : b ≠ [] := by
        rintro rfl
        exact hp.sized j hrec
      obtain ⟨p', hdel, hwf, hrec', hcur, -, hptr, hlast⟩ := deleteRecord_full hp.toWF hrec hb q
      refine ⟨.OK, NULLRID, p', ?_, hp.deleted hwf hrec hrec' hptr hlast, hcur, ?_⟩
      · simp only [Op.call, hdel, Option.map_some]
      · rw [hrec']
        exact .delete q (by rw [hrec]; exact nofun)
  | link q =>
    refine ⟨.OK, NULLRID, p.setNextPage q, rfl, ⟨wf_setNextPage hp.toWF q, ?_, ?_, ?_⟩, rfl, ?_⟩
    · exact hp.sized
    · exact hp.freePtr_eq
    · exact hp.last
    · exact .link _ q

/-- Every page reached by calls in range is accounted for. -/
theorem Reach.accounted {p : Page} (hp : Reach (fun _ op => op.InRange) p) : p.Accounted := by
  induction hp with
  | init p pageNo => exact accounted_init p pageNo
  | step _ hop hcall ih =>
    obtain ⟨st, rid, p', hcall', hacc, -⟩ := call_spec ih hop
    rw [hcall] at hcall'
    cases hcall'
    exact hacc

/-- A run of calls in range goes through and follows the map. -/
theorem runOps_spec : ∀ (ops : List Op) {p : Page}, p.Accounted → (∀ op ∈ ops, op.InRange) →
    ∃ rs p', runOps ops p = some (rs, p') ∧ p'.Accounted ∧
      SlotMap.Steps p.curPage p.rec? ops rs p'.rec?
  | [], p, hp, _ => ⟨[], p, rfl, hp, .nil _⟩
  | op :: ops, p, hp, hops => by
    obtain ⟨st, rid, p', hcall, hp', hcur, hstep⟩ := call_spec hp (hops op List.mem_cons_self)
    obtain ⟨rs, p'', hrun, hp'', hsteps⟩ :=
      runOps_spec ops hp' fun o ho => hops o (List.mem_cons_of_mem op ho)
    refine ⟨(st, rid) :: rs, p'', ?_, hp'', .cons hstep (hcur ▸ hsteps)⟩
    show (op.call p).bind _ = _
    rw [hcall, Option.bind_some]
    show (runOps ops p').bind _ = _
    rw [hrun, Option.bind_some]

/-- Every run of insertions of 1 to 1004 bytes and of deletions of slots that are not negative
follows the finite map, and `getRecord` reads exactly that map off the page it leads to; a deletion
of a slot that is not in the map leaves that page as it is. -/
theorem refines_slotMap (p : Page) (n : Int) (ops : List Op) (hops : ∀ op ∈ ops, op.InRange) :
    ∃ (rs : List (Status × RID)) (q : Page) (m : SlotMap), runOps ops (p.init n) = some (rs, q) ∧
      SlotMap.Steps n (fun _ => none) ops rs m ∧
      ∀ (pageNo : Int) (j : Nat),
        (∀ b, m j = some b → ∃ r, q.getRecord ⟨pageNo, j⟩ = some (.OK, r) ∧
          q.bytes? r.data r.length = some b) ∧
        (m j = none → (∃ r, q.getRecord ⟨pageNo, j⟩ = some (.INVALIDSLOTNO, r)) ∧
          q.deleteRecord ⟨pageNo, j⟩ = some (.INVALIDSLOTNO, q)) := by
  obtain ⟨rs, q, hrun, hq, hsteps⟩ := runOps_spec ops (accounted_init p n) hops
  have hempty : (p.init n).rec? = fun _ => none := funext (rec?_init p n)
  rw [hempty] at hsteps
  refine ⟨rs, q, q.rec?, hrun, hsteps, fun pageNo j => ⟨fun b hb => ?_, fun hnone => ⟨?_, ?_⟩⟩⟩
  · have hne : b ≠ [] := by
      rintro rfl
      exact hq.sized j hb
    obtain ⟨r, hget, -, -, -, hbytes⟩ := getRecord_spec hq.toWF hb hne pageNo
    exact ⟨r, hget, hbytes⟩
  · exact ⟨_, getRecord_invalid hq.toWF (Or.inl hnone) pageNo⟩
  · exact deleteRecord_invalid hq.toWF (Or.inl hnone) pageNo

/-- Two records go in, the first is deleted, and a third takes its slot. -/
def reused : List Op :=
  [.insert ⟨[1, 2], 2⟩, .insert ⟨[3], 1⟩, .delete ⟨7, 0⟩, .insert ⟨[4], 1⟩]

theorem inRange_reused : ∀ op ∈ reused, op.InRange := by simp [reused, Op.InRange, Record.Readable]

/-- The third record has got the slot of the first. -/
theorem refines_slotMap_reused :
    ∃ (q : Page) (m : SlotMap),
      runOps reused (zero.init 7) =
        some ([(.OK, ⟨7, 0⟩), (.OK, ⟨7, 1⟩), (.OK, NULLRID), (.OK, ⟨7, 0⟩)], q) ∧
      SlotMap.Steps 7 (fun _ => none) reused
        [(.OK, ⟨7, 0⟩), (.OK, ⟨7, 1⟩), (.OK, NULLRID), (.OK, ⟨7, 0⟩)] m ∧
      ∀ (pageNo : Int) (j : Nat),
        (∀ b, m j = some b → ∃ r, q.getRecord ⟨pageNo, j⟩ = some (.OK, r) ∧
          q.bytes? r.data r.length = some b) ∧
        (m j = none → (∃ r, q.getRecord ⟨pageNo, j⟩ = some (.INVALIDSLOTNO, r)) ∧
          q.deleteRecord ⟨pageNo, j⟩ = some (.INVALIDSLOTNO, q)) := by
  obtain ⟨rs, q, m, hrun, hsteps, hslots⟩ := refines_slotMap zero 7 reused inRange_reused
  have hrs : (runOps reused (zero.init 7)).map Prod.fst =
      some [(.OK, ⟨7, 0⟩), (.OK, ⟨7, 1⟩), (.OK, NULLRID), (.OK, ⟨7, 0⟩)] := by decide +kernel
  rw [hrun] at hrs
  obtain rfl := Option.some.inj hrs
  exact ⟨q, m, hrun, hsteps, hslots⟩

/-! ## Space -/

/-- Stretches inside `[0, n)` that do not overlap and whose lengths add up to `n` leave no gap. -/
theorem exists_mem_of_sum_length {ι : Type} [DecidableEq ι] {S : Finset ι} {off len : ι → Int}
    {n : Int} (hrange : ∀ i ∈ S, 0 ≤ len i ∧ 0 ≤ off i ∧ off i + len i ≤ n)
    (hdis : ∀ i ∈ S, ∀ j ∈ S, i ≠ j → off i + len i ≤ off j ∨ off j + len j ≤ off i)
    (hsum : n = ((∑ i ∈ S, (len i).toNat : Nat) : Int)) {a : Int} (ha : 0 ≤ a) (han : a < n) :
    ∃ i ∈ S, off i ≤ a ∧ a < off i + len i := by
  have hsub : S.biUnion (fun i => Finset.Ico (off i) (off i + len i)) ⊆ Finset.Ico 0 n := by
    intro x hx
    obtain ⟨i, hi, hxi⟩ := Finset.mem_biUnion.mp hx
    obtain ⟨-, hlo, hhi⟩ := hrange i hi
    rw [Finset.mem_Ico] at hxi ⊢
    omega
  have hpair : (S : Set ι).PairwiseDisjoint fun i => Finset.Ico (off i) (off i + len i) := by
    intro i hi j hj hij
    apply Finset.disjoint_left.mpr
    intro x hxi hxj
    rw [Finset.mem_Ico] at hxi hxj
    have := hdis i hi j hj hij
    omega
  -- both sides have `n` elements
  have hcard : (Finset.Ico 0 n).card ≤
      (S.biUnion fun i => Finset.Ico (off i) (off i + len i)).card := by
    rw [Finset.card_biUnion hpair, Int.card_Ico]
    simp only [Int.card_Ico, add_sub_cancel_left]
    omega
  have hall := Finset.eq_of_subset_of_card_le hsub hcard
  have hmem : a ∈ Finset.Ico 0 n := Finset.mem_Ico.mpr ⟨ha, han⟩
  rw [← hall] at hmem
  obtain ⟨i, hi, hai⟩ := Finset.mem_biUnion.mp hmem
  exact ⟨i, hi, Finset.mem_Ico.mp hai⟩

namespace Accounted

variable {p : Page}

/-- The number of bytes of a page, summed over the slots in use. -/
theorem freePtr_eq_sum (hp : p.Accounted) :
    p.freePtr = ((∑ j ∈ (Finset.range p.slots).filter p.InUse, (p.entry j).length.toNat : Nat) :
      Int) := by
  rw [hp.freePtr_eq, SlotMap.size, Finset.sum_filter]
  congr 1
  apply Finset.sum_congr rfl
  intro j _
  unfold rec?
  split <;> simp [length_span]

/-- The records tile the area below `freePtr`. -/
theorem tiles (hp : p.Accounted) (a : Int) :
    0 ≤ a ∧ a < p.freePtr ↔
      ∃! j, p.InUse j ∧ (p.entry j).offset ≤ a ∧ a < (p.entry j).offset + (p.entry j).length := by
  constructor
  · rintro ⟨ha, han⟩
    have huse : ∀ j, j ∈ (Finset.range p.slots).filter p.InUse ↔ p.InUse j := by
      intro j
      rw [Finset.mem_filter, Finset.mem_range]
      exact ⟨fun h => h.2, fun h => ⟨h.1, h⟩⟩
    obtain ⟨j, hj, hlo, hhi⟩ := exists_mem_of_sum_length
      (fun j hj => hp.range j ((huse j).mp hj))
      (fun i hi j hj hij => hp.disjoint i j ((huse i).mp hi) ((huse j).mp hj) hij)
      hp.freePtr_eq_sum ha han
    refine ⟨j, ⟨(huse j).mp hj, hlo, hhi⟩, ?_⟩
    rintro i ⟨hi, hlo', hhi'⟩
    by_contra hij
    have := hp.disjoint i j hi ((huse j).mp hj) hij
    omega
  · rintro ⟨j, ⟨hj, hlo, hhi⟩, -⟩
    obtain ⟨-, hoff, hend⟩ := hp.range j hj
    omega

/-- An insertion in range succeeds exactly when record and slot entry fit. -/
theorem insertRecord_ok_iff (hp : p.Accounted) {rec : Record} (hrec : rec.Readable) :
    (∃ rid p', p.insertRecord rec = some (.OK, rid, p')) ↔ rec.length + 4 ≤ p.freeSpace := by
  obtain ⟨hlt, hins⟩ | ⟨hle, j, p', hins, -⟩ := insertRecord_spec hp.toWF hrec
  · rw [hins]
    simp only [Option.some.injEq, Prod.mk.injEq, reduceCtorEq, false_and, exists_false, false_iff]
    omega
  · exact ⟨fun _ => hle, fun _ => ⟨_, _, hins⟩⟩

/-- A page without records is as `init` leaves it. -/
theorem eq_init_of_empty (hp : p.Accounted) (hempty : ∀ j, p.rec? j = none) :
    p.slotCnt = 0 ∧ p.freePtr = 0 ∧ p.freeSpace = 1004 := by
  have hslots : p.slots = 0 := by
    by_contra hne
    have hlast := hp.last (p.slots - 1) (by omega)
    exact (rec?_ne_none_iff p _).mpr hlast (hempty _)
  have hptr : p.freePtr = 0 := by
    rw [hp.freePtr_eq, hslots]
    rfl
  have hcnt := hp.slotCnt_eq
  have hspace := hp.space
  omega

/-- Deleting every record, in any order, goes through. -/
theorem runOps_delete (n : Int) : ∀ (order : List Nat) {p : Page}, p.Accounted → order.Nodup →
    (∀ j, j ∈ order ↔ p.rec? j ≠ none) →
    ∃ q, runOps (order.map fun j => .delete ⟨n, j⟩) p =
        some (order.map fun _ => (.OK, NULLRID), q) ∧
      q.slotCnt = 0 ∧ q.freePtr = 0 ∧ q.freeSpace = 1004
  | [], p, hp, _, horder => by
    refine ⟨p, rfl, hp.eq_init_of_empty fun j => ?_⟩
    by_contra hne
    exact absurd ((horder j).mpr hne) List.not_mem_nil
  | j :: order, p, hp, hnodup, horder => by
    obtain ⟨hj, hnodup'⟩ := List.nodup_cons.mp hnodup
    have hlive := (horder j).mp List.mem_cons_self
    obtain ⟨b, hrec⟩ := Option.ne_none_iff_exists'.mp hlive
    have hb : b ≠ [] := by
      rintro rfl
      exact hp.sized j hrec
    obtain ⟨p', hdel, hwf, hrec', -, -, hptr, hlast⟩ := deleteRecord_full hp.toWF hrec hb n
    obtain ⟨q, hrun, hq⟩ := runOps_delete n order (hp.deleted hwf hrec hrec' hptr hlast) hnodup'
      (fun i => by
        rw [hrec', Function.update_apply]
        split
        · rename_i hij
          subst hij
          simp [hj]
        · rename_i hij
          rw [← horder i, List.mem_cons]
          simp [hij])
    refine ⟨q, ?_, hq⟩
    show ((p.deleteRecord ⟨n, j⟩).map fun r => (r.1, NULLRID, r.2)).bind _ = _
    rw [hdel, Option.map_some, Option.bind_some]
    show (runOps (order.map fun j => .delete ⟨n, j⟩) p').bind _ = _
    rw [hrun, Option.bind_some]
    rfl

end Accounted

/-- In every page reached by insertions of 1 to 1004 bytes and deletions of slots that are not
negative, the header fields account for every byte: `freePtr` for the records, which tile the area
below it, the slot array for its entries, which no record overlaps, and `freeSpace` for the rest. An
insertion succeeds exactly when the record and a slot entry fit, and deleting all the records, in
any order, brings the page back to where it started. -/
theorem accounted_of_reach {q : Page} (hq : Reach (fun _ op => op.InRange) q) :
    q.slotCnt = -q.slots ∧
    q.freePtr = SlotMap.size q.rec? q.slots ∧
    (∀ a, 0 ≤ a ∧ a < q.freePtr ↔ ∃! j, q.InUse j ∧
      (q.entry j).offset ≤ a ∧ a < (q.entry j).offset + (q.entry j).length) ∧
    q.freeSpace = 1004 - q.freePtr - 4 * q.slots ∧ 0 ≤ q.freeSpace ∧
    (∀ i j : Nat, q.InUse i → j < q.slots →
      (q.entry i).offset + (q.entry i).length ≤ slotAddr (-j)) ∧
    (∀ j, j + 1 = q.slots → q.InUse j) ∧
    (∀ rec : Record, (Op.insert rec).InRange →
      ((∃ rid q', q.insertRecord rec = some (.OK, rid, q')) ↔ rec.length + 4 ≤ q.freeSpace)) ∧
    ∀ (n : Int) (order : List Nat), order.Nodup → (∀ j, j ∈ order ↔ q.rec? j ≠ none) →
      ∃ q', runOps (order.map fun j => .delete ⟨n, j⟩) q =
          some (order.map fun _ => (.OK, NULLRID), q') ∧
        q'.slotCnt = 0 ∧ q'.freePtr = 0 ∧ q'.freeSpace = 1004 := by
  have hacc := hq.accounted
  have hspace := hacc.space
  refine ⟨hacc.slotCnt_eq, hacc.freePtr_eq, hacc.tiles, by omega, hacc.freeSpace_nonneg, ?_,
    hacc.last, fun rec hrec => hacc.insertRecord_ok_iff hrec.1, fun n order hnodup horder =>
      hacc.runOps_delete n order hnodup horder⟩
  intro i j hi hj
  have hslots := hacc.slots_le
  have hfree := hacc.freeSpace_nonneg
  obtain ⟨-, -, hend⟩ := hacc.range i hi
  rw [slotAddr_neg (by omega)]
  omega

/-- The page after a first insertion. -/
theorem exists_insert_first : ∃ q, (Op.insert ⟨[1, 2], 2⟩).call (zero.init 7) =
    some (.OK, ⟨7, 0⟩, q) ∧ q.freePtr = 2 ∧ q.slotCnt = -1 := ⟨_, rfl, by decide, by decide⟩

/-- The page that a run of calls leads to. -/
theorem Reach.runOps {Ok : Page → Op → Prop} : ∀ (ops : List Op) {p q : Page}
    {rs : List (Status × RID)},
    Reach Ok p → (∀ op ∈ ops, ∀ p, Ok p op) → Page.runOps ops p = some (rs, q) → Reach Ok q
  | [], p, q, rs, hp, _, hrun => by
    cases hrun
    exact hp
  | op :: ops, p, q, rs, hp, hops, hrun => by
    obtain ⟨⟨st, rid, p'⟩, hcall, hrest⟩ := Option.bind_eq_some_iff.mp hrun
    obtain ⟨⟨rs', q'⟩, hrun', heq⟩ := Option.bind_eq_some_iff.mp hrest
    cases heq
    exact Reach.runOps ops (hp.step (hops op List.mem_cons_self p) hcall)
      (fun o ho => hops o (List.mem_cons_of_mem op ho)) hrun'

/-- A page with a record behind a slot that has been freed is accounted for. -/
theorem accounted_of_reach_deleted :
    ∃ q, Reach (fun _ op => op.InRange) q ∧ q.freePtr = 1 ∧ q.slots = 2 ∧
      q.freePtr = SlotMap.size q.rec? q.slots ∧
      q.freeSpace = 1004 - q.freePtr - 4 * q.slots := by
  obtain ⟨⟨rs, q⟩, hrun, hq⟩ :=
    Option.map_eq_some_iff.mp (show (Page.runOps (reused.take 3) (zero.init 7)).map
    (fun r => (r.2.freePtr, r.2.slots)) = some (1, 2) by decide +kernel)
  obtain ⟨hptr, hslots⟩ := Prod.mk.inj hq
  have hreach : Reach (fun _ op => op.InRange) q :=
    Reach.runOps _ (.init zero 7)
    (fun op hop _ => inRange_reused op (List.mem_of_mem_take hop)) hrun
  obtain ⟨-, hsum, -, hfree, -⟩ := accounted_of_reach hreach
  exact ⟨q, hreach, hptr, hslots, hsum, hfree⟩

/-! ## Slot numbers below zero -/

/-- The slot number is that of a record on the page, and the record is not empty. -/
def Live (p : Page) (slotNo : Int) : Prop := 0 ≤ slotNo ∧ (p.rec? slotNo.toNat).getD [] ≠ []

instance (p : Page) (slotNo : Int) : Decidable (p.Live slotNo) :=
  inferInstanceAs (Decidable (_ ∧ _))

/-- The slot number of a record leads to its bytes. -/
theorem live_natCast {p : Page} {j : Nat} : p.Live j ↔ ∃ b, b ≠ [] ∧ p.rec? j = some b := by
  unfold Live
  rw [Int.toNat_natCast]
  cases p.rec? j with
  | none => simp
  | some b => simp

/-- `getRecord` and `deleteRecord` succeed for the slot numbers of records, and for all others
return `INVALIDSLOTNO` and leave the page as it is. -/
def Refuses (p : Page) (rid : RID) : Prop :=
  (∃ r, p.getRecord rid = some (if p.Live rid.slotNo then .OK else .INVALIDSLOTNO, r)) ∧
  ∃ p', p.deleteRecord rid = some (if p.Live rid.slotNo then .OK else .INVALIDSLOTNO, p') ∧
    (¬p.Live rid.slotNo → p' = p)

/-- The slot number is not negative, or the header field that its entry overlays does not look like
the length of a record: the entry is `slotCnt` and `freePtr`, `freeSpace` and `dummy`, or the two
halves of `nextPage` or of `curPage`. -/
def NoAlias (p : Page) (slotNo : Int) : Prop :=
  0 ≤ slotNo ∨ slotNo = -1 ∧ p.freePtr ≤ 0 ∨ slotNo = -2 ∧ p.dummy ≤ 0 ∨
    slotNo = -3 ∧ toShort (p.nextPage / 65536) ≤ 0 ∨ slotNo = -4 ∧ toShort (p.curPage / 65536) ≤ 0

/-- An insertion of bytes that are there, of any number, or a deletion that meets no alias. -/
def Op.Sheltered (p : Page) : Op → Prop
  | .insert rec => rec.Readable
  | .delete rid => p.NoAlias rid.slotNo
  | .link _ => True

/-- Behind the slot array both functions go by the length that the header field stands for. -/
theorem getRecord_header {p : Page} (hcnt : p.slotCnt ≤ 0) {rid : RID} (hneg : rid.slotNo < 0) :
    p.getRecord rid = (p.slot? (-rid.slotNo)).bind fun s =>
      if s.length > 0 then some (.OK, ⟨s.offset, s.length⟩) else some (.INVALIDSLOTNO, ⟨0, 0⟩) := by
  unfold getRecord
  dsimp only
  rw [if_pos (by omega)]
  rfl

/-- The entry behind a slot number that meets no alias has no length. -/
theorem NoAlias.slot? {p : Page} {slotNo : Int} (h : p.NoAlias slotNo) (hneg : slotNo < 0) :
    ∃ s, p.slot? (-slotNo) = some s ∧ ¬s.length > 0 := by
  unfold Page.slot? InSlots
  rcases h with hpos | ⟨rfl, h⟩ | ⟨rfl, h⟩ | ⟨rfl, h⟩ | ⟨rfl, h⟩
  · omega
  · exact ⟨_, rfl, by simpa using h⟩
  · exact ⟨_, rfl, by simpa using h⟩
  · exact ⟨_, rfl, by simpa using h⟩
  · exact ⟨_, rfl, by simpa using h⟩

/-- Where the slot number meets an alias, the entry has a length or lies outside of the page. -/
theorem slot?_of_alias {p : Page} {slotNo : Int} (h : ¬p.NoAlias slotNo) {s : Slot}
    (hs : p.slot? (-slotNo) = some s) : s.length > 0 := by
  unfold NoAlias at h
  push Not at h
  obtain ⟨hneg, h₁, h₂, h₃, h₄⟩ := h
  have hout : ¬InSlots (-slotNo) := by
    unfold InSlots
    omega
  unfold slot? at hs
  rw [if_neg hout] at hs
  split at hs
  · cases hs
    exact h₁ (by omega)
  · split at hs
    · cases hs
      exact h₂ (by omega)
    · split at hs
      · cases hs
        exact h₃ (by omega)
      · split at hs
        · cases hs
          exact h₄ (by omega)
        · cases hs

/-- A slot number that meets no alias is refused, unless it is that of a record. -/
theorem refuses_of_noAlias {p : Page} (hp : p.WF) {rid : RID} (h : p.NoAlias rid.slotNo) :
    p.Refuses rid := by
  obtain ⟨q, slotNo⟩ := rid
  by_cases hpos : 0 ≤ slotNo
  · lift slotNo to Nat using hpos with j
    by_cases hlive : p.Live j
    · obtain ⟨b, hb, hrec⟩ := live_natCast.mp hlive
      obtain ⟨r, hget, -⟩ := getRecord_spec hp hrec hb q
      obtain ⟨p', hdel, -⟩ := deleteRecord_spec hp hrec hb q
      exact ⟨⟨r, by rw [if_pos hlive, hget]⟩, p', by
        rw [if_pos hlive, hdel], fun h => absurd hlive h⟩
    · -- no record in the slot, or one without bytes
      have hnone : p.rec? j = none ∨ p.rec? j = some [] := by
        by_contra hne
        push Not at hne
        obtain ⟨b, hb⟩ := Option.ne_none_iff_exists'.mp hne.1
        exact hlive (live_natCast.mpr ⟨b, fun h => hne.2 (h ▸ hb), hb⟩)
      refine ⟨⟨⟨0, 0⟩, ?_⟩, p, ?_, fun _ => rfl⟩
      · rw [if_neg hlive, getRecord_invalid hp hnone q]
      · rw [if_neg hlive, deleteRecord_invalid hp hnone q]
  · have hlive : ¬p.Live slotNo := fun h => hpos h.1
    obtain ⟨s, hs, hlen⟩ := h.slot? (by simpa using hpos)
    have hslot : -slotNo > p.slotCnt := by
      have := hp.slotCnt_nonpos
      omega
    dsimp only at hs
    refine ⟨⟨⟨0, 0⟩, ?_⟩, p, ?_, fun _ => rfl⟩
    · rw [if_neg hlive, getRecord_header hp.slotCnt_nonpos (by dsimp only; omega)]
      dsimp only
      rw [hs, Option.bind_some, if_neg hlen]
    · unfold deleteRecord
      dsimp only
      rw [if_neg hlive, if_pos hslot, hs]
      show (if s.length > 0 then _ else _) = _
      rw [if_neg hlen]

/-- Calls that meet no alias keep a page well formed. -/
theorem wf_of_reach {q : Page} (hq : Reach Op.Sheltered q) : q.WF := by
  induction hq with
  | init p pageNo => exact wf_init p pageNo
  | @step p p' op st rid _ hop hcall ih =>
    cases op with
    | insert rec =>
      obtain ⟨-, hins⟩ | ⟨-, j, p'', hins, hwf, -⟩ := insertRecord_spec ih hop
      · rw [Op.call, hins] at hcall
        cases hcall
        exact ih
      · rw [Op.call, hins] at hcall
        cases hcall
        exact hwf
    | delete rid' =>
      obtain ⟨-, p'', hdel, hsame⟩ := refuses_of_noAlias ih hop
      rw [Op.call, hdel, Option.map_some] at hcall
      cases hcall
      by_cases hlive : p.Live rid'.slotNo
      · obtain ⟨q, slotNo⟩ := rid'
        dsimp only at hdel hlive
        lift slotNo to Nat using hlive.1 with j
        obtain ⟨b, hb, hrec⟩ := live_natCast.mp hlive
        obtain ⟨p₁, hdel', hwf, -⟩ := deleteRecord_spec ih hrec hb q
        rw [hdel, if_pos hlive] at hdel'
        cases hdel'
        exact hwf
      · rw [hsame hlive]
        exact ih
    | link pageNo =>
      cases hcall
      exact wf_setNextPage ih pageNo

/-- On a page reached by insertions and by deletions that meet no alias, `getRecord` and
`deleteRecord` refuse what is not the slot number of a record exactly when it meets no alias. -/
theorem refuses_iff {q : Page} (hq : Reach Op.Sheltered q) (rid : RID) :
    q.Refuses rid ↔ q.NoAlias rid.slotNo := by
  have hwf := wf_of_reach hq
  constructor
  · rintro ⟨⟨r, hget⟩, -⟩
    by_contra halias
    have hneg : rid.slotNo < 0 := by
      by_contra hpos
      exact halias (Or.inl (by omega))
    have hlive : ¬q.Live rid.slotNo := fun h => absurd h.1 (by omega)
    rw [getRecord_header hwf.slotCnt_nonpos hneg, if_neg hlive] at hget
    obtain ⟨s, hs, hget⟩ := Option.bind_eq_some_iff.mp hget
    rw [if_pos (slot?_of_alias halias hs)] at hget
    cases hget
  · exact refuses_of_noAlias hwf

/-- The only record of a page is deleted, and the entry of slot `-1`, the number of slots and the
free pointer, is not told from one. -/
theorem refuses_iff_first : ∃ q, Reach Op.Sheltered q ∧ q.Refuses ⟨7, 0⟩ ∧ ¬q.Refuses ⟨7, -1⟩ := by
  obtain ⟨q, hcall, hptr, -⟩ := exists_insert_first
  have hq : Reach Op.Sheltered q :=
    .step (.init zero 7) (by simp [Op.Sheltered, Record.Readable]) hcall
  refine ⟨q, hq, (refuses_iff hq ⟨7, 0⟩).mpr (Or.inl (le_refl 0)), fun hrefuses => ?_⟩
  have halias : q.NoAlias (-1) := (refuses_iff hq ⟨7, -1⟩).mp hrefuses
  unfold NoAlias at halias
  rw [hptr] at halias
  omega

/-- `getRecord` succeeds for `NULLRID` on a page that has a record. -/
theorem not_refuses_nullrid :
    ¬∀ q : Page, Reach Op.Sheltered q → ∀ rid : RID, q.Refuses rid := by
  intro hall
  obtain ⟨q, hcall, hptr, hcnt⟩ := exists_insert_first
  have hq : Reach Op.Sheltered q :=
    .step (.init zero 7) (by simp [Op.Sheltered, Record.Readable]) hcall
  obtain ⟨⟨r, hget⟩, -⟩ := hall q hq NULLRID
  have hlive : ¬q.Live NULLRID.slotNo := fun h => absurd h.1 (by decide)
  rw [getRecord_header (by omega) (by decide), if_neg hlive] at hget
  have hslot : q.slot? (-NULLRID.slotNo) = some ⟨q.slotCnt, q.freePtr⟩ := rfl
  rw [hslot, Option.bind_some, if_pos (by dsimp only; omega)] at hget
  cases hget

end Page

end Minirel
