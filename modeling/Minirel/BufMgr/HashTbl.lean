import Minirel.BufMgr.Table
import Minirel.Lib.Linked

/-!
# The buckets of the buffer hash table (`bufHash.cpp`)

`class BufHashTbl` as it is in memory: an array of pointers to buckets that are linked by their
`next` pointers. Its operations return what those of the chained table return that the buffer
manager uses, and change the chains in the same way, so that the table is a finite map whatever
the hash function is, if its values are in range. Those of `BufHashTbl::hash` need not be.

## Main definitions

* `HashBuckets`: the table, with `insert`, `lookup` and `remove`.
* `HashBuckets.Refines`: the chains are those of a `BufHashTbl`.
* `HashRun`: the sequences of calls, and `frameOf`: the frame that a key was last inserted with.
* `IndexInRange`: the calls for a page use an index inside of the array.

## Main results

* `HashRun.exists_refines`: in every run the table is a chained table that holds what the calls have
  left in it.
* `HashRun.isFiniteMap`: what the calls return in every run.
* `HashBuckets.indexInRange_iff`: for which pages `hash` is in range.
-/

namespace Minirel

/-! ## Buckets -/

/-- A pointer to a bucket. It is 0 if it is `NULL`. -/
abbrev BucketPtr := Nat

/-- `struct hashBucket`. -/
structure HashBucket where
  /-- The file of the page. -/
  file : FilePtr
  /-- The page within the file. -/
  pageNo : Int
  /-- The frame of the page in the buffer pool. -/
  frameNo : Nat
  /-- The next bucket of the chain. -/
  next : BucketPtr

/-- The bucket has the key. -/
def HashBucket.HasKey (b : HashBucket) (file : FilePtr) (pageNo : Int) : Prop :=
  b.file = file ∧ b.pageNo = pageNo

instance (b : HashBucket) (file : FilePtr) (pageNo : Int) : Decidable (b.HasKey file pageNo) :=
  inferInstanceAs (Decidable (_ ∧ _))

/-- The key and the frame of a bucket. -/
def HashBucket.entry (b : HashBucket) : (FilePtr × Int) × Nat := ((b.file, b.pageNo), b.frameNo)

/-- `class BufHashTbl`, with the buckets that have been allocated. -/
structure HashBuckets where
  /-- The number of entries of `ht`. -/
  HTSIZE : Nat
  /-- The first bucket of each chain. -/
  ht : Nat → BucketPtr
  /-- The buckets by their addresses; `none` where there is none. -/
  mem : BucketPtr → Option HashBucket

namespace HashBuckets

/-- `BufHashTbl::BufHashTbl`. -/
def init (htSize : Nat) : HashBuckets := ⟨htSize, fun _ => 0, fun _ => none⟩

/-- `BufHashTbl::hash`: the address as an `int`, plus the page number, modulo the size. -/
def hash (HTSIZE : Nat) (file : FilePtr) (pageNo : Int) : Int :=
  let tmp := toInt file
  (toInt (tmp + pageNo)).tmod HTSIZE

/-- `ht[index]`, if the index is in bounds. -/
def entry (t : HashBuckets) (index : Int) : Option BucketPtr :=
  if 0 ≤ index ∧ index < t.HTSIZE then some (t.ht index.toNat) else none

/-- `ht[index] = p`. -/
def setEntry (t : HashBuckets) (index : Int) (p : BucketPtr) : HashBuckets :=
  { t with ht := Function.update t.ht index.toNat p }

/-- Write, allocate or (with `none`) delete a bucket. -/
def setBucket (t : HashBuckets) (p : BucketPtr) (b : Option HashBucket) : HashBuckets :=
  { t with mem := Function.update t.mem p b }

/-- Allocate the bucket `b` at `p` and put it in front of a chain. -/
def pushFront (t : HashBuckets) (index : Int) (p : BucketPtr) (b : HashBucket) : HashBuckets :=
  (t.setBucket p (some b)).setEntry index p

/-- The loop of `insert` and `lookup`: `tmpBuc` when it ends, which is 0 if no bucket has the
key. -/
def search (t : HashBuckets) (file : FilePtr) (pageNo : Int) : Nat → BucketPtr → Option BucketPtr
  | 0, _ => none
  | fuel + 1, tmpBuc =>
    if tmpBuc = 0 then some 0
    else do
      let b ← t.mem tmpBuc
      if b.HasKey file pageNo then return tmpBuc
      t.search file pageNo fuel b.next

/-- The loop of `remove`: `prevBuc` and `tmpBuc` when it ends. -/
def searchPrev (t : HashBuckets) (file : FilePtr) (pageNo : Int) :
    Nat → BucketPtr → BucketPtr → Option (BucketPtr × BucketPtr)
  | 0, _, _ => none
  | fuel + 1, prevBuc, tmpBuc =>
    if tmpBuc = 0 then some (prevBuc, 0)
    else do
      let b ← t.mem tmpBuc
      if b.HasKey file pageNo then return (prevBuc, tmpBuc)
      t.searchPrev file pageNo fuel tmpBuc b.next

variable (hash : FilePtr → Int → Int) (fuel : Nat)

/-- `BufHashTbl::insert`, where `p` is what `new hashBucket` returns. -/
def insert (t : HashBuckets) (file : FilePtr) (pageNo : Int) (frameNo : Nat) (p : BucketPtr) :
    Option (Status × HashBuckets) := do
  let index := hash file pageNo
  let head ← t.entry index
  let tmpBuc ← t.search file pageNo fuel head
  if tmpBuc ≠ 0 then return (.HASHTBLERROR, t)
  if p = 0 then return (.HASHTBLERROR, t)
  return (.OK, t.pushFront index p ⟨file, pageNo, frameNo, head⟩)

/-- `BufHashTbl::lookup`, with the value of the caller's `frameNo` before and after the call. -/
def lookup (t : HashBuckets) (file : FilePtr) (pageNo : Int) (frameNo : Nat) :
    Option (Status × Nat) := do
  let head ← t.entry (hash file pageNo)
  let tmpBuc ← t.search file pageNo fuel head
  if tmpBuc = 0 then return (.HASHNOTFOUND, frameNo)
  let b ← t.mem tmpBuc
  return (.OK, b.frameNo)

/-- `BufHashTbl::remove`. -/
def remove (t : HashBuckets) (file : FilePtr) (pageNo : Int) : Option (Status × HashBuckets) := do
  let index := hash file pageNo
  let head ← t.entry index
  let (prevBuc, tmpBuc) ← t.searchPrev file pageNo fuel head head
  if tmpBuc = 0 then return (.HASHTBLERROR, t)
  let b ← t.mem tmpBuc
  if tmpBuc = head then return (.OK, (t.setEntry index b.next).setBucket tmpBuc none)
  let prev ← t.mem prevBuc
  return (.OK, (t.setBucket prevBuc (some { prev with next := b.next })).setBucket tmpBuc none)

/-! ## Chains -/

variable {t t' : HashBuckets} {hash : FilePtr → Int → Int} {head p : BucketPtr} {b : HashBucket}
  {l : List (BucketPtr × HashBucket)} {file : FilePtr} {pageNo : Int} {fuel : Nat}

/-- Where the pointer of a bucket leads. -/
def next (t : HashBuckets) (p : BucketPtr) : BucketPtr := ((t.mem p).map HashBucket.next).getD 0

/-- The buckets `l` are a chain that starts at `head`. -/
structure IsChain (t : HashBuckets) (head : BucketPtr) (l : List (BucketPtr × HashBucket)) :
    Prop where
  linked : Linked t.next 0 head (l.map Prod.fst)
  stored : ∀ e ∈ l, t.mem e.1 = some e.2

theorem next_of_mem (h : t.mem p = some b) : t.next p = b.next := by
  unfold next
  rw [h]
  rfl

theorem isChain_nil : IsChain t head [] ↔ head = 0 :=
  ⟨fun h => h.linked, fun h => ⟨h, nofun⟩⟩

theorem isChain_cons : IsChain t head ((p, b) :: l) ↔
    p = head ∧ p ≠ 0 ∧ t.mem p = some b ∧ IsChain t b.next l := by
  constructor
  · intro h
    obtain ⟨rfl, hp, hl⟩ := h.linked
    have hb := h.stored (p, b) List.mem_cons_self
    rw [next_of_mem hb] at hl
    exact ⟨rfl, hp, hb, hl, fun e he => h.stored e (List.mem_cons_of_mem _ he)⟩
  · rintro ⟨rfl, hp, hb, hl⟩
    refine ⟨⟨rfl, hp, ?_⟩, ?_⟩
    · rw [next_of_mem hb]
      exact hl.linked
    · intro e he
      rcases List.mem_cons.mp he with rfl | he
      · exact hb
      · exact hl.stored e he

/-- A chain does not depend on other buckets. -/
theorem IsChain.congr (h : IsChain t head l) (hmem : ∀ e ∈ l, t'.mem e.1 = t.mem e.1) :
    IsChain t' head l := by
  refine ⟨h.linked.congr fun q hq => ?_, fun e he => (hmem e he).trans (h.stored e he)⟩
  obtain ⟨e, he, rfl⟩ := List.mem_map.mp hq
  unfold next
  rw [hmem e he]

/-- The loop of `insert` and `lookup` comes to the first bucket with the key. -/
theorem IsChain.search_eq (h : IsChain t head l) (hfuel : l.length < fuel) :
    t.search file pageNo fuel head =
      some (((l.find? fun e => e.2.HasKey file pageNo).map Prod.fst).getD 0) := by
  induction l generalizing head fuel with
  | nil =>
    obtain ⟨fuel, rfl⟩ := Nat.exists_eq_succ_of_ne_zero (Nat.ne_zero_of_lt hfuel)
    unfold search
    rw [if_pos (isChain_nil.mp h)]
    rfl
  | cons e l ih =>
    obtain ⟨fuel, rfl⟩ := Nat.exists_eq_succ_of_ne_zero (Nat.ne_zero_of_lt hfuel)
    obtain ⟨p, b⟩ := e
    obtain ⟨rfl, hp, hb, hl⟩ := isChain_cons.mp h
    unfold search
    rw [if_neg hp, hb, Option.bind_eq_bind, Option.bind_some]
    by_cases hkey : b.HasKey file pageNo
    · rw [if_pos hkey]
      simp [hkey]
    · rw [if_neg hkey, List.find?_cons_of_neg (by simpa using hkey)]
      exact ih hl (Nat.lt_of_succ_lt_succ hfuel)

/-- The loop of `remove` ends at 0 if no bucket has the key. -/
theorem IsChain.searchPrev_absent (h : IsChain t head l)
    (habsent : ∀ e ∈ l, ¬e.2.HasKey file pageNo) (hfuel : l.length < fuel) (q : BucketPtr) :
    ∃ q', t.searchPrev file pageNo fuel q head = some (q', 0) := by
  induction l generalizing head fuel q with
  | nil =>
    obtain ⟨fuel, rfl⟩ := Nat.exists_eq_succ_of_ne_zero (Nat.ne_zero_of_lt hfuel)
    unfold searchPrev
    rw [if_pos (isChain_nil.mp h)]
    exact ⟨q, rfl⟩
  | cons e l ih =>
    obtain ⟨fuel, rfl⟩ := Nat.exists_eq_succ_of_ne_zero (Nat.ne_zero_of_lt hfuel)
    obtain ⟨p, b⟩ := e
    obtain ⟨rfl, hp, hb, hl⟩ := isChain_cons.mp h
    unfold searchPrev
    rw [if_neg hp, hb, Option.bind_eq_bind, Option.bind_some,
      if_neg (habsent (p, b) List.mem_cons_self)]
    exact ih hl (fun e he => habsent e (List.mem_cons_of_mem _ he)) (Nat.lt_of_succ_lt_succ hfuel) p

/-- Otherwise it ends at the first such bucket, with the bucket before it. -/
theorem IsChain.searchPrev_present {l₁ l₂ : List (BucketPtr × HashBucket)}
    (h : IsChain t head (l₁ ++ (p, b) :: l₂)) (hkey : b.HasKey file pageNo)
    (hfirst : ∀ e ∈ l₁, ¬e.2.HasKey file pageNo) (hfuel : l₁.length < fuel) (q : BucketPtr) :
    t.searchPrev file pageNo fuel q head =
      some ((l₁.getLast?.map Prod.fst).getD q, p) := by
  induction l₁ generalizing head fuel q with
  | nil =>
    obtain ⟨fuel, rfl⟩ := Nat.exists_eq_succ_of_ne_zero (Nat.ne_zero_of_lt hfuel)
    obtain ⟨rfl, hp, hb, -⟩ := isChain_cons.mp h
    unfold searchPrev
    rw [if_neg hp, hb, Option.bind_eq_bind, Option.bind_some, if_pos hkey]
    rfl
  | cons e l₁ ih =>
    obtain ⟨fuel, rfl⟩ := Nat.exists_eq_succ_of_ne_zero (Nat.ne_zero_of_lt hfuel)
    obtain ⟨p', b'⟩ := e
    obtain ⟨rfl, hp, hb, hl⟩ := isChain_cons.mp h
    unfold searchPrev
    rw [if_neg hp, hb, Option.bind_eq_bind, Option.bind_some,
      if_neg (hfirst (p', b') List.mem_cons_self),
      ih hl (fun e he => hfirst e (List.mem_cons_of_mem _ he)) (Nat.lt_of_succ_lt_succ hfuel) p']
    -- the bucket before the first one of the rest is this one
    cases l₁ with
    | nil => rfl
    | cons e' l₁ =>
      rw [List.getLast?_cons_cons]
      obtain ⟨z, hz⟩ := Option.ne_none_iff_exists'.mp
        (show (e' :: l₁).getLast? ≠ none from mt List.getLast?_eq_none_iff.mp
          (List.cons_ne_nil _ _))
      rw [hz]
      rfl

/-- A bucket that comes after others is not the first one of its chain. -/
theorem IsChain.ne_head {l₁ l₂ : List (BucketPtr × HashBucket)}
    (h : IsChain t head (l₁ ++ (p, b) :: l₂)) (hl₁ : l₁ ≠ []) : p ≠ head := by
  cases l₁ with
  | nil => exact absurd rfl hl₁
  | cons e l₁ =>
    have hnd := h.linked.nodup
    simp only [List.cons_append, List.map_cons, List.map_append, List.nodup_cons, List.mem_append,
      List.mem_cons, not_or] at hnd
    obtain ⟨rfl, -⟩ := isChain_cons.mp h
    exact Ne.symm hnd.1.2.1

/-- A bucket is taken out of its chain by the pointer of the bucket before it. -/
theorem IsChain.unlink {l₁ l₂ : List (BucketPtr × HashBucket)} {q : BucketPtr} {prev : HashBucket}
    (h : IsChain t head (l₁ ++ (q, prev) :: (p, b) :: l₂)) :
    IsChain ((t.setBucket q (some { prev with next := b.next })).setBucket p none) head
      (l₁ ++ (q, { prev with next := b.next }) :: l₂) := by
  induction l₁ generalizing head with
  | nil =>
    have hnd := h.linked.nodup
    simp only [List.nil_append, List.map_cons, List.nodup_cons, List.mem_cons, not_or] at hnd
    obtain ⟨⟨hqp, hq⟩, hp, -⟩ := hnd
    obtain ⟨rfl, hq0, -, hl⟩ := isChain_cons.mp h
    obtain ⟨-, -, -, hl₂⟩ := isChain_cons.mp hl
    refine isChain_cons.mpr ⟨rfl, hq0, ?_, hl₂.congr fun e he => ?_⟩
    · exact (Function.update_of_ne hqp _ _).trans (Function.update_self _ _ _)
    · have hep : e.1 ≠ p := fun heq => hp (heq ▸ List.mem_map_of_mem he)
      have heq : e.1 ≠ q := fun heq => hq (heq ▸ List.mem_map_of_mem he)
      exact (Function.update_of_ne hep _ _).trans (Function.update_of_ne heq _ _)
  | cons e l₁ ih =>
    have hnd := h.linked.nodup
    simp only [List.cons_append, List.map_cons, List.map_append, List.nodup_cons, List.mem_append,
      List.mem_cons, not_or] at hnd
    obtain ⟨⟨-, heq, hep, -⟩, -⟩ := hnd
    obtain ⟨rfl, he0, he, hl⟩ := isChain_cons.mp h
    refine isChain_cons.mpr ⟨rfl, he0, ?_, ih hl⟩
    exact ((Function.update_of_ne hep _ _).trans (Function.update_of_ne heq _ _)).trans he

/-! ## The calls on a chain -/

/-- The value that a call comes to, once its loop has enough rounds. -/
def Returns {α : Type} (call : Nat → Option α) (a : α) : Prop :=
  ∃ N, ∀ fuel, N ≤ fuel → call fuel = some a

/-- The table without the bucket `b` at `p`, which comes after the buckets `l₁` of its chain. -/
def unlinked (t : HashBuckets) (index : Int) (l₁ : List (BucketPtr × HashBucket)) (p : BucketPtr)
    (b : HashBucket) : HashBuckets :=
  match l₁.getLast? with
  | none => (t.setEntry index b.next).setBucket p none
  | some (q, prev) => (t.setBucket q (some { prev with next := b.next })).setBucket p none

theorem unlinked_concat (t : HashBuckets) (index : Int) (l₁ : List (BucketPtr × HashBucket))
    (q : BucketPtr) (prev : HashBucket) (p : BucketPtr) (b : HashBucket) :
    t.unlinked index (l₁ ++ [(q, prev)]) p b =
      (t.setBucket q (some { prev with next := b.next })).setBucket p none := by
  unfold unlinked
  rw [List.getLast?_append]
  rfl

/-- The first bucket with a key splits the chain. -/
theorem exists_append_of_find? (h : (l.find? fun e => e.2.HasKey file pageNo) = some (p, b)) :
    ∃ l₁ l₂, l = l₁ ++ (p, b) :: l₂ ∧ b.HasKey file pageNo ∧ ∀ e ∈ l₁, ¬e.2.HasKey file pageNo := by
  obtain ⟨hkey, l₁, l₂, rfl, hfirst⟩ := List.find?_eq_some_iff_append.mp h
  exact ⟨l₁, l₂, rfl, of_decide_eq_true hkey, fun e he => by simpa using hfirst e he⟩

section Calls

variable (h : IsChain t head l) (hhead : t.entry (hash file pageNo) = some head)

include h hhead

theorem IsChain.insert_returns (frameNo : Nat) (p : BucketPtr) :
    Returns (fun fuel => t.insert hash fuel file pageNo frameNo p)
      (match l.find? fun e => e.2.HasKey file pageNo with
        | some _ => (.HASHTBLERROR, t)
        | none => if p = 0 then (.HASHTBLERROR, t)
          else (.OK, t.pushFront (hash file pageNo) p ⟨file, pageNo, frameNo, head⟩)) := by
  refine ⟨l.length + 1, fun fuel hfuel => ?_⟩
  dsimp only
  unfold HashBuckets.insert
  dsimp only
  rw [hhead, Option.bind_eq_bind, Option.bind_some, h.search_eq hfuel, Option.bind_some]
  cases hfind : l.find? fun e => e.2.HasKey file pageNo with
  | none =>
    rw [if_neg fun hn => hn rfl]
    split
    · rfl
    · rfl
  | some e =>
    have he := List.mem_of_find?_eq_some hfind
    have hne : e.1 ≠ 0 := h.linked.ne_stop_of_mem (List.mem_map_of_mem he)
    simp only [Option.map_some, Option.getD_some]
    rw [if_pos hne]
    rfl

theorem IsChain.lookup_returns (frameNo : Nat) :
    Returns (fun fuel => t.lookup hash fuel file pageNo frameNo)
      (match l.find? fun e => e.2.HasKey file pageNo with
        | some e => (.OK, e.2.frameNo)
        | none => (.HASHNOTFOUND, frameNo)) := by
  refine ⟨l.length + 1, fun fuel hfuel => ?_⟩
  dsimp only
  unfold HashBuckets.lookup
  rw [hhead, Option.bind_eq_bind, Option.bind_some, h.search_eq hfuel, Option.bind_eq_bind,
    Option.bind_some]
  cases hfind : l.find? fun e => e.2.HasKey file pageNo with
  | none => rfl
  | some e =>
    have he := List.mem_of_find?_eq_some hfind
    have hne : e.1 ≠ 0 := h.linked.ne_stop_of_mem (List.mem_map_of_mem he)
    simp only [Option.map_some, Option.getD_some]
    rw [if_neg hne, h.stored e he]
    rfl

theorem IsChain.remove_absent (habsent : (l.find? fun e => e.2.HasKey file pageNo) = none) :
    Returns (fun fuel => t.remove hash fuel file pageNo) (.HASHTBLERROR, t) := by
  rw [List.find?_eq_none] at habsent
  refine ⟨l.length + 1, fun fuel hfuel => ?_⟩
  obtain ⟨q, hq⟩ := h.searchPrev_absent (fun e he hkey => habsent e he (decide_eq_true hkey)) hfuel
    head
  dsimp only
  unfold HashBuckets.remove
  dsimp only
  rw [hhead, Option.bind_eq_bind, Option.bind_some, hq, Option.bind_eq_bind, Option.bind_some]
  rfl

omit h in
theorem IsChain.remove_present {l₁ l₂ : List (BucketPtr × HashBucket)}
    (h : IsChain t head (l₁ ++ (p, b) :: l₂)) (hkey : b.HasKey file pageNo)
    (hfirst : ∀ e ∈ l₁, ¬e.2.HasKey file pageNo) :
    Returns (fun fuel => t.remove hash fuel file pageNo)
      (.OK, t.unlinked (hash file pageNo) l₁ p b) := by
  have hmem : (p, b) ∈ l₁ ++ (p, b) :: l₂ := List.mem_append_right _ List.mem_cons_self
  have hp : p ≠ 0 := h.linked.ne_stop_of_mem (List.mem_map_of_mem hmem)
  have hb : t.mem p = some b := h.stored (p, b) hmem
  refine ⟨l₁.length + 1, fun fuel hfuel => ?_⟩
  have hloop := h.searchPrev_present hkey hfirst hfuel head
  dsimp only
  unfold HashBuckets.remove
  dsimp only
  rw [hhead, Option.bind_eq_bind, Option.bind_some, hloop, Option.bind_eq_bind, Option.bind_some,
    if_neg hp, hb, Option.bind_eq_bind, Option.bind_some]
  rcases l₁.eq_nil_or_concat' with rfl | ⟨l₀, ⟨q, prev⟩, rfl⟩
  · obtain ⟨hfront, -⟩ := isChain_cons.mp h
    rw [if_pos hfront]
    rfl
  · have hq : t.mem q = some prev := h.stored (q, prev)
      (List.mem_append_left _ (List.mem_append_right _ List.mem_cons_self))
    rw [if_neg (h.ne_head (List.append_ne_nil_of_right_ne_nil _ (List.cons_ne_nil _ _))),
      unlinked_concat, List.getLast?_append, List.getLast?_singleton]
    dsimp only [Option.some_or, Option.map_some, Option.getD_some]
    rw [hq, Option.bind_some]
    rfl

/-- Every call for a key comes to an end. -/
theorem IsChain.exists_remove_returns :
    ∃ r, Returns (fun fuel => t.remove hash fuel file pageNo) r := by
  cases hfind : l.find? fun e => e.2.HasKey file pageNo with
  | none => exact ⟨_, h.remove_absent hhead hfind⟩
  | some e =>
    obtain ⟨l₁, l₂, rfl, hkey, hfirst⟩ := exists_append_of_find? (p := e.1) (b := e.2) hfind
    exact ⟨_, h.remove_present hhead hkey hfirst⟩

end Calls

/-! ## The table as a `BufHashTbl` -/

/-- The chains of `t` hold what those of `c` hold. -/
structure Refines (hash : FilePtr → Int → Int) (t : HashBuckets) (c : BufHashTbl) : Prop where
  size : c.size = t.HTSIZE
  hash_eq : ∀ file pageNo, hash file pageNo = (c.hash (file, pageNo)).val
  chain : ∀ i : Fin c.size, ∃ l, IsChain t (t.ht i) l ∧ c.chain i = l.map fun e => e.2.entry

section Refines

/-- Looking a key up is finding the first element with the key. -/
private theorem lookup_map {α K V : Type} [DecidableEq K] (f : α → K × V) (k : K) (p : α → Bool)
    (l : List α) (hp : ∀ x, p x = true ↔ (f x).1 = k) :
    (l.map f).lookup k = (l.find? p).map fun x => (f x).2 := by
  induction l with
  | nil => rfl
  | cons x l ih =>
    obtain ⟨a, b, hab⟩ : ∃ a b, f x = (a, b) := ⟨_, _, rfl⟩
    have hpx := hp x
    rw [hab] at hpx
    rw [List.map_cons, hab, List.lookup_cons]
    by_cases hx : a = k
    · rw [beq_iff_eq.mpr hx.symm, List.find?_cons_of_pos (hpx.mpr hx), Option.map_some, hab]
    · rw [beq_eq_false_iff_ne.mpr (Ne.symm hx), List.find?_cons_of_neg (mt hpx.mp hx)]
      exact ih

variable {c : BufHashTbl}

/-- A new table has no entry. -/
theorem refines_init {htSize : Nat}
    (hrange : ∀ file pageNo, 0 ≤ hash file pageNo ∧ hash file pageNo < htSize) :
    Refines hash (init htSize)
      (ChainTable.empty htSize fun k => ⟨(hash k.1 k.2).toNat, by
      have := hrange k.1 k.2; omega⟩) where
  size := rfl
  hash_eq file pageNo := (Int.toNat_of_nonneg (hrange file pageNo).1).symm
  chain _ := ⟨[], isChain_nil.mpr rfl, rfl⟩

variable (h : Refines hash t c)

include h

/-- The index of a key is in bounds. -/
theorem Refines.entry_eq (file : FilePtr) (pageNo : Int) :
    t.entry (hash file pageNo) = some (t.ht (c.hash (file, pageNo))) := by
  have hlt := (c.hash (file, pageNo)).isLt
  have hsize := h.size
  unfold entry
  rw [h.hash_eq, if_pos (by omega), Int.toNat_natCast]

omit h in
/-- A bucket in a chain has a key that belongs there. -/
theorem hash_of_mem_chain {i : Fin c.size} (hl : c.chain i = l.map fun e => e.2.entry)
    {e : BucketPtr × HashBucket} (he : e ∈ l) : c.hash (e.2.file, e.2.pageNo) = i := by
  refine c.placed i e.2.entry ?_
  rw [hl]
  exact List.mem_map_of_mem he

omit h in
/-- Chains of different indices have no bucket in common. -/
theorem ne_of_mem_chain {i j : Fin c.size} (hij : i ≠ j) {head' : BucketPtr}
    {l' : List (BucketPtr × HashBucket)} (hl : IsChain t head l)
    (hc : c.chain i = l.map fun e => e.2.entry) (hl' : IsChain t head' l')
    (hc' : c.chain j = l'.map fun e => e.2.entry) {e e' : BucketPtr × HashBucket} (he : e ∈ l)
    (he' : e' ∈ l') : e.1 ≠ e'.1 := by
  intro heq
  -- one bucket would have a key for both of them
  have hbucket : e.2 = e'.2 := by
    have hstored := hl.stored e he
    rw [heq, hl'.stored e' he'] at hstored
    exact (Option.some.inj hstored).symm
  refine hij ((hash_of_mem_chain hc he).symm.trans ?_)
  rw [hbucket]
  exact hash_of_mem_chain hc' he'

omit h in
/-- The frame of a key is that of the first bucket with the key. -/
theorem lookup_eq_find? (hc : c.chain (c.hash (file, pageNo)) = l.map fun e => e.2.entry) :
    c.lookup file pageNo = (l.find? fun e => e.2.HasKey file pageNo).map fun e => e.2.frameNo := by
  unfold BufHashTbl.lookup ChainTable.find
  rw [hc]
  refine lookup_map (fun e => e.2.entry) (file, pageNo) _ l fun e => ?_
  rw [decide_eq_true_iff]
  exact ⟨fun heq => Prod.ext heq.1 heq.2, fun heq => ⟨congrArg Prod.fst heq, congrArg Prod.snd heq⟩⟩

theorem lookup_refines (file : FilePtr) (pageNo : Int) (frameNo : Nat) :
    Returns (fun fuel => t.lookup hash fuel file pageNo frameNo) (match c.lookup file pageNo with
      | some n => (.OK, n)
      | none => (.HASHNOTFOUND, frameNo)) := by
  obtain ⟨l, hl, hc⟩ := h.chain (c.hash (file, pageNo))
  have hret := hl.lookup_returns (h.entry_eq file pageNo) frameNo
  rw [lookup_eq_find? hc]
  cases hfind : l.find? fun e => e.2.HasKey file pageNo with
  | none => rwa [hfind] at hret
  | some e => rwa [hfind] at hret

/-- A key that is present is not inserted again. -/
theorem insert_of_present (hpresent : c.lookup file pageNo ≠ none) (frameNo : Nat) (p : BucketPtr) :
    Returns (fun fuel => t.insert hash fuel file pageNo frameNo p) (.HASHTBLERROR, t) := by
  obtain ⟨l, hl, hc⟩ := h.chain (c.hash (file, pageNo))
  rw [lookup_eq_find? hc] at hpresent
  obtain ⟨e, hfind⟩ := Option.ne_none_iff_exists'.mp (mt Option.map_eq_none_iff.mpr hpresent)
  have hret := hl.insert_returns (h.entry_eq file pageNo) frameNo p
  rwa [hfind] at hret

/-- A key that is absent is inserted, if there is memory for its bucket. -/
theorem insert_of_absent (habsent : c.lookup file pageNo = none) (frameNo : Nat) (p : BucketPtr) :
    Returns (fun fuel => t.insert hash fuel file pageNo frameNo p)
      (if p = 0 then (.HASHTBLERROR, t)
        else (.OK, t.pushFront (hash file pageNo) p
          ⟨file, pageNo, frameNo, t.ht (c.hash (file, pageNo))⟩)) := by
  obtain ⟨l, hl, hc⟩ := h.chain (c.hash (file, pageNo))
  rw [lookup_eq_find? hc, Option.map_eq_none_iff] at habsent
  have hret := hl.insert_returns (h.entry_eq file pageNo) frameNo p
  rwa [habsent] at hret

/-- The new bucket is in front of the chain of its key. -/
theorem refines_pushFront (habsent : c.lookup file pageNo = none) (frameNo : Nat) {p : BucketPtr}
    (hp : p ≠ 0) (hnew : t.mem p = none) :
    Refines hash (t.pushFront (hash file pageNo) p
      ⟨file, pageNo, frameNo, t.ht (c.hash (file, pageNo))⟩) (c.insert file pageNo frameNo).2 := by
  have hkeys : (file, pageNo) ∉ (c.chain (c.hash (file, pageNo))).map Prod.fst := by
    intro hk
    have hnone : c.insert? (file, pageNo) frameNo = none := by
      unfold ChainTable.insert?
      rw [dif_pos hk]
    exact (ChainTable.insert?_eq_none_iff c (file, pageNo) frameNo).mp hnone habsent
  unfold BufHashTbl.insert ChainTable.insert?
  rw [dif_neg hkeys]
  generalize hb : HashBucket.mk file pageNo frameNo (t.ht (c.hash (file, pageNo))) = b
  refine ⟨h.size, h.hash_eq, fun i => ?_⟩
  obtain ⟨l, hl, hc⟩ := h.chain i
  -- the new bucket is in none of the chains so far
  have hframe : IsChain (t.pushFront (hash file pageNo) p b) (t.ht i) l := by
    refine hl.congr fun e he => Function.update_of_ne (fun heq => ?_) _ _
    have hstored := hl.stored e he
    rw [heq, hnew] at hstored
    cases hstored
  have hindex : (hash file pageNo).toNat = (c.hash (file, pageNo)).val := by
    rw [h.hash_eq, Int.toNat_natCast]
  have hht : (t.pushFront (hash file pageNo) p b).ht =
      Function.update t.ht (c.hash (file, pageNo)).val p := by
    rw [← hindex]
    rfl
  rw [hht]
  change ∃ l', _ ∧ c.setChain (file, pageNo) _ i = _
  unfold ChainTable.setChain
  by_cases hi : i = c.hash (file, pageNo)
  · subst hi
    rw [if_pos rfl, Function.update_self, hc]
    refine ⟨(p, b) :: l, isChain_cons.mpr ⟨rfl, hp, Function.update_self _ _ _, ?_⟩, ?_⟩
    · rw [← hb] at hframe ⊢
      exact hframe
    · rw [← hb]
      rfl
  · rw [if_neg hi, Function.update_of_ne fun he => hi (Fin.ext he)]
    exact ⟨l, hframe, hc⟩

/-- Nothing is removed if the key is absent. -/
theorem remove_of_absent (habsent : c.lookup file pageNo = none) :
    Returns (fun fuel => t.remove hash fuel file pageNo) (.HASHTBLERROR, t) := by
  obtain ⟨l, hl, hc⟩ := h.chain (c.hash (file, pageNo))
  rw [lookup_eq_find? hc, Option.map_eq_none_iff] at habsent
  exact hl.remove_absent (h.entry_eq file pageNo) habsent

/-- The table after a bucket has been taken out of the chain of its key. -/
theorem refines_remove {l₁ l₂ l' : List (BucketPtr × HashBucket)}
    (hl : IsChain t (t.ht (c.hash (file, pageNo))) (l₁ ++ (p, b) :: l₂))
    (hc : c.chain (c.hash (file, pageNo)) = (l₁ ++ (p, b) :: l₂).map fun e => e.2.entry)
    (hkey : b.HasKey file pageNo) (hfirst : ∀ e ∈ l₁, ¬e.2.HasKey file pageNo)
    (hsize : t'.HTSIZE = t.HTSIZE)
    (hht : ∀ i, i ≠ (c.hash (file, pageNo)).val → t'.ht i = t.ht i)
    (hmem : ∀ q, (∀ e ∈ l₁ ++ (p, b) :: l₂, q ≠ e.1) → t'.mem q = t.mem q)
    (hl' : IsChain t' (t'.ht (c.hash (file, pageNo))) l')
    (hc' : (l'.map fun e => e.2.entry) = (l₁ ++ l₂).map fun e => e.2.entry) :
    Refines hash t' (c.remove file pageNo).2 := by
  have hentry (e : HashBucket) : e.entry.1 = (file, pageNo) ↔ e.HasKey file pageNo := Prod.ext_iff
  have hkeys : (file, pageNo) ∈ (c.chain (c.hash (file, pageNo))).map Prod.fst := by
    rw [hc, List.map_map]
    refine List.mem_map.mpr ⟨(p, b), ?_, (hentry b).mpr hkey⟩
    exact List.mem_append_right _ List.mem_cons_self
  have herase : (c.chain (c.hash (file, pageNo))).eraseP (fun e => e.1 = (file, pageNo)) =
      l'.map fun e => e.2.entry := by
    rw [hc, hc', List.map_append, List.map_append, List.map_cons, List.eraseP_append_right,
      List.eraseP_cons_of_pos (p := fun e : (FilePtr × Int) × Nat => decide (e.1 = (file, pageNo)))
        (a := (p, b).2.entry) (decide_eq_true ((hentry b).mpr hkey))]
    intro x hx
    obtain ⟨e, he, rfl⟩ := List.mem_map.mp hx
    rw [decide_eq_true_iff, hentry]
    exact hfirst e he
  unfold BufHashTbl.remove ChainTable.erase?
  rw [if_pos hkeys]
  refine ⟨h.size.trans hsize.symm, h.hash_eq, fun i => ?_⟩
  change ∃ l, _ ∧ c.setChain (file, pageNo) _ i = _
  unfold ChainTable.setChain
  by_cases hi : i = c.hash (file, pageNo)
  · subst hi
    rw [if_pos rfl]
    exact ⟨l', hl', herase⟩
  · rw [if_neg hi, hht i fun he => hi (Fin.ext he)]
    obtain ⟨l, hli, hci⟩ := h.chain i
    exact ⟨l, hli.congr fun e he => hmem _ fun e' he' => ne_of_mem_chain
      (c := c) hi hli hci hl hc he he', hci⟩

/-- A key that is present is removed from its chain. -/
theorem remove_of_present (hpresent : c.lookup file pageNo ≠ none) :
    ∃ t', Returns (fun fuel => t.remove hash fuel file pageNo) (.OK, t') ∧
      Refines hash t' (c.remove file pageNo).2 := by
  obtain ⟨l, hl, hc⟩ := h.chain (c.hash (file, pageNo))
  rw [lookup_eq_find? hc] at hpresent
  obtain ⟨⟨p, b⟩, hfind⟩ := Option.ne_none_iff_exists'.mp (mt Option.map_eq_none_iff.mpr hpresent)
  obtain ⟨l₁, l₂, rfl, hkey, hfirst⟩ := exists_append_of_find? hfind
  refine ⟨_, hl.remove_present (h.entry_eq file pageNo) hkey hfirst, ?_⟩
  have hmem : (p, b) ∈ l₁ ++ (p, b) :: l₂ := List.mem_append_right _ List.mem_cons_self
  have hindex : (hash file pageNo).toNat = (c.hash (file, pageNo)).val := by
    rw [h.hash_eq, Int.toNat_natCast]
  rcases l₁.eq_nil_or_concat' with rfl | ⟨l₀, ⟨q, prev⟩, rfl⟩
  · -- the bucket is the first one of its chain
    have hht : (t.unlinked (hash file pageNo) [] p b).ht =
        Function.update t.ht (c.hash (file, pageNo)).val b.next := by
      rw [← hindex]
      rfl
    obtain ⟨-, -, -, hl₂⟩ := isChain_cons.mp hl
    have hrest : IsChain (t.unlinked (hash file pageNo) [] p b)
        ((t.unlinked (hash file pageNo) [] p b).ht (c.hash (file, pageNo))) l₂ := by
      rw [hht, Function.update_self]
      refine hl₂.congr fun e he => Function.update_of_ne (fun heq => ?_) _ _
      have hnd := hl.linked.nodup
      simp only [List.nil_append, List.map_cons, List.nodup_cons] at hnd
      exact hnd.1 (heq ▸ List.mem_map_of_mem he)
    refine refines_remove h hl hc hkey hfirst rfl (fun i hi => ?_) (fun q hq => ?_) hrest rfl
    · rw [hht, Function.update_of_ne hi]
    · exact Function.update_of_ne (hq (p, b) hmem) _ _
  · -- the bucket before it gets its pointer
    rw [unlinked_concat]
    have hl₃ := hl
    rw [List.append_assoc, List.singleton_append] at hl₃
    refine refines_remove h hl hc hkey hfirst rfl (fun _ _ => rfl) (fun r hr => ?_) hl₃.unlink ?_
    · refine (Function.update_of_ne (hr (p, b) hmem) _ _).trans (Function.update_of_ne ?_ _ _)
      exact hr (q, prev) (List.mem_append_left _ (List.mem_append_right _ List.mem_cons_self))
    · simp only [List.map_append, List.map_cons, List.append_assoc]
      rfl

end Refines

end HashBuckets

/-! ## Sequences of calls -/

open HashBuckets

/-- A call and the status that it returned. -/
inductive HashEvent
  | insert (file : FilePtr) (pageNo : Int) (frameNo : Nat) (status : Status)
  | lookup (file : FilePtr) (pageNo : Int) (status : Status)
  | remove (file : FilePtr) (pageNo : Int) (status : Status)

/-- The frame of the last successful insertion of the key, if the key has not been removed since.
The last call comes first. -/
def frameOf : List HashEvent → FilePtr → Int → Option Nat
  | [], _, _ => none
  | .insert file pageNo frameNo .OK :: calls, file', pageNo' =>
    if file' = file ∧ pageNo' = pageNo then some frameNo else frameOf calls file' pageNo'
  | .remove file pageNo .OK :: calls, file', pageNo' =>
    if file' = file ∧ pageNo' = pageNo then none else frameOf calls file' pageNo'
  | _ :: calls, file', pageNo' => frameOf calls file' pageNo'

/-- The table after a sequence of calls. `new` returns 0, or an address where there is no bucket. -/
inductive HashRun (hash : FilePtr → Int → Int) (htSize : Nat) :
    List HashEvent → HashBuckets → Prop
  | init : HashRun hash htSize [] (init htSize)
  | insert {calls t t' file pageNo frameNo p status} (run : HashRun hash htSize calls t)
      (new : p = 0 ∨ t.mem p = none)
      (call : Returns (fun fuel => t.insert hash fuel file pageNo frameNo p) (status, t')) :
      HashRun hash htSize (.insert file pageNo frameNo status :: calls) t'
  | lookup {calls t file pageNo frameNo frameNo' status} (run : HashRun hash htSize calls t)
      (call : Returns (fun fuel => t.lookup hash fuel file pageNo frameNo) (status, frameNo')) :
      HashRun hash htSize (.lookup file pageNo status :: calls) t
  | remove {calls t t' file pageNo status} (run : HashRun hash htSize calls t)
      (call : Returns (fun fuel => t.remove hash fuel file pageNo) (status, t')) :
      HashRun hash htSize (.remove file pageNo status :: calls) t'

/-- What the calls return after the calls so far, and what they leave unchanged. -/
structure IsFiniteMap (hash : FilePtr → Int → Int) (calls : List HashEvent) (t : HashBuckets) :
    Prop where
  insert_present : ∀ file pageNo, frameOf calls file pageNo ≠ none → ∀ frameNo p,
    Returns (fun fuel => t.insert hash fuel file pageNo frameNo p) (.HASHTBLERROR, t)
  insert_absent : ∀ file pageNo, frameOf calls file pageNo = none → ∀ frameNo p, p ≠ 0 →
    ∃ t', Returns (fun fuel => t.insert hash fuel file pageNo frameNo p) (.OK, t')
  insert_full : ∀ file pageNo frameNo,
    Returns (fun fuel => t.insert hash fuel file pageNo frameNo 0) (.HASHTBLERROR, t)
  lookup : ∀ file pageNo frameNo, Returns (fun fuel => t.lookup hash fuel file pageNo frameNo)
    (match frameOf calls file pageNo with
      | some n => (.OK, n)
      | none => (.HASHNOTFOUND, frameNo))
  remove_present : ∀ file pageNo, frameOf calls file pageNo ≠ none →
    ∃ t', Returns (fun fuel => t.remove hash fuel file pageNo) (.OK, t')
  remove_absent : ∀ file pageNo, frameOf calls file pageNo = none →
    Returns (fun fuel => t.remove hash fuel file pageNo) (.HASHTBLERROR, t)

section Runs

variable {hash : FilePtr → Int → Int} {htSize : Nat} {calls : List HashEvent} {t : HashBuckets}

theorem HashBuckets.Returns.unique {α : Type} {call : Nat → Option α} {a b : α}
    (h : Returns call a) (h' : Returns call b) : a = b := by
  obtain ⟨n, hn⟩ := h
  obtain ⟨m, hm⟩ := h'
  have ha := hn (max n m) (le_max_left n m)
  rw [hm (max n m) (le_max_right n m)] at ha
  exact (Option.some.inj ha).symm

/-- In every run the table refines a chained table that holds what the calls have left in it. -/
theorem HashRun.exists_refines
    (hrange : ∀ file pageNo, 0 ≤ hash file pageNo ∧ hash file pageNo < htSize)
    (hrun : HashRun hash htSize calls t) :
    ∃ c, Refines hash t c ∧ ∀ file pageNo, c.lookup file pageNo = frameOf calls file pageNo := by
  induction hrun with
  | init => exact ⟨_, refines_init hrange, fun _ _ => rfl⟩
  | @insert calls t t' file pageNo frameNo p status _ hnew hcall ih =>
    obtain ⟨c, hc, hmap⟩ := ih
    by_cases hkey : c.lookup file pageNo = none
    · have hret := hcall.unique (insert_of_absent hc hkey frameNo p)
      by_cases hp : p = 0
      · rw [if_pos hp] at hret
        cases hret
        exact ⟨c, hc, hmap⟩
      · rw [if_neg hp] at hret
        cases hret
        refine ⟨_, refines_pushFront hc hkey frameNo hp (hnew.resolve_left hp), ?_⟩
        obtain ⟨c', hc', hlookup⟩ := BufHashTbl.insert_of_lookup_eq_none frameNo hkey
        intro file' pageNo'
        rw [hc', hlookup, hmap]
        rfl
    · cases hcall.unique (insert_of_present hc hkey frameNo p)
      exact ⟨c, hc, hmap⟩
  | lookup _ _ ih =>
    obtain ⟨c, hc, hmap⟩ := ih
    exact ⟨c, hc, hmap⟩
  | @remove calls t t' file pageNo status _ hcall ih =>
    obtain ⟨c, hc, hmap⟩ := ih
    by_cases hkey : c.lookup file pageNo = none
    · cases hcall.unique (remove_of_absent hc hkey)
      exact ⟨c, hc, hmap⟩
    · obtain ⟨t'', hret, href⟩ := remove_of_present hc hkey
      cases hcall.unique hret
      refine ⟨_, href, fun file' pageNo' => ?_⟩
      rw [BufHashTbl.lookup_remove, hmap]
      rfl

/-- In every run the table is a finite map. -/
theorem HashRun.isFiniteMap
    (hrange : ∀ file pageNo, 0 ≤ hash file pageNo ∧ hash file pageNo < htSize)
    (hrun : HashRun hash htSize calls t) : IsFiniteMap hash calls t := by
  obtain ⟨c, hc, hmap⟩ := hrun.exists_refines hrange
  refine ⟨fun file pageNo hkey frameNo p => ?_, fun file pageNo hkey frameNo p hp => ?_,
    fun file pageNo frameNo => ?_, fun file pageNo frameNo => ?_, fun file pageNo hkey => ?_,
    fun file pageNo hkey => ?_⟩
  · rw [← hmap] at hkey
    exact insert_of_present hc hkey frameNo p
  · rw [← hmap] at hkey
    have hret := insert_of_absent hc hkey frameNo p
    rw [if_neg hp] at hret
    exact ⟨_, hret⟩
  · by_cases hkey : c.lookup file pageNo = none
    · have hret := insert_of_absent hc hkey frameNo 0
      rwa [if_pos rfl] at hret
    · exact insert_of_present hc hkey frameNo 0
  · rw [← hmap]
    exact lookup_refines hc file pageNo frameNo
  · rw [← hmap] at hkey
    obtain ⟨t', hret, -⟩ := remove_of_present hc hkey
    exact ⟨t', hret⟩
  · rw [← hmap] at hkey
    exact remove_of_absent hc hkey

end Runs

/-- A table of one bucket: two pages with one hash value, of which the older one is removed. -/
theorem isFiniteMap_removed : ∃ t,
    IsFiniteMap (fun _ _ => 0) [.remove 1 2 .OK, .insert 5 6 7 .OK, .insert 1 2 3 .OK] t := by
  let t₁ := (init 1).pushFront 0 4 ⟨1, 2, 3, 0⟩
  let t₂ := t₁.pushFront 0 8 ⟨5, 6, 7, 4⟩
  have hfirst : Returns (fun fuel => (init 1).insert (fun _ _ => 0) fuel 1 2 3 4) (.OK, t₁) := by
    refine ⟨1, fun fuel hfuel => ?_⟩
    obtain ⟨fuel, rfl⟩ := Nat.exists_eq_add_of_le' hfuel
    rfl
  have hsecond : Returns (fun fuel => t₁.insert (fun _ _ => 0) fuel 5 6 7 8) (.OK, t₂) := by
    refine ⟨2, fun fuel hfuel => ?_⟩
    obtain ⟨fuel, rfl⟩ := Nat.exists_eq_add_of_le' hfuel
    rfl
  have hremove : Returns (fun fuel => t₂.remove (fun _ _ => 0) fuel 1 2)
      (.OK, (t₂.setBucket 8 (some ⟨5, 6, 7, 0⟩)).setBucket 4 none) := by
    refine ⟨3, fun fuel hfuel => ?_⟩
    obtain ⟨fuel, rfl⟩ := Nat.exists_eq_add_of_le' hfuel
    rfl
  have hrun₂ : HashRun (fun _ _ => 0) 1 [.insert 5 6 7 .OK, .insert 1 2 3 .OK] t₂ :=
    .insert (.insert .init (.inr rfl) hfirst) (.inr rfl) hsecond
  have hrun : HashRun (fun _ _ => 0) 1 [.remove 1 2 .OK, .insert 5 6 7 .OK, .insert 1 2 3 .OK] _ :=
    .remove hrun₂ hremove
  exact ⟨_, hrun.isFiniteMap fun _ _ => by decide⟩

/-! ## The range of `hash` -/

namespace HashBuckets

/-- Every chain comes to an end. -/
def Chained (t : HashBuckets) : Prop := ∀ i < t.HTSIZE, ∃ l, IsChain t (t.ht i) l

/-- The index that `hash` computes for a page is inside of the array, and the calls for the page
come to an end in every table of the size. -/
structure IndexInRange (HTSIZE : Nat) (file : FilePtr) (pageNo : Int) : Prop where
  range : 0 ≤ hash HTSIZE file pageNo ∧ hash HTSIZE file pageNo < HTSIZE
  insert : ∀ t : HashBuckets, t.HTSIZE = HTSIZE → t.Chained → ∀ frameNo p,
    ∃ r, Returns (fun fuel => t.insert (hash HTSIZE) fuel file pageNo frameNo p) r
  lookup : ∀ t : HashBuckets, t.HTSIZE = HTSIZE → t.Chained → ∀ frameNo,
    ∃ r, Returns (fun fuel => t.lookup (hash HTSIZE) fuel file pageNo frameNo) r
  remove : ∀ t : HashBuckets, t.HTSIZE = HTSIZE → t.Chained →
    ∃ r, Returns (fun fuel => t.remove (hash HTSIZE) fuel file pageNo) r

/-- The remainder of the division in C is in range for no negative number but the multiples. -/
theorem tmod_range_iff {x : Int} {n : Nat} (hn : 0 < n) :
    (0 ≤ x.tmod n ∧ x.tmod n < n) ↔ 0 ≤ x ∨ (n : Int) ∣ x := by
  have hlt : x.tmod n < n := Int.tmod_lt_of_pos x (by omega)
  constructor
  · rintro ⟨hnonneg, -⟩
    by_contra hno
    rw [not_or, not_le] at hno
    have hle : x.tmod n ≤ 0 := by
      have hneg := Int.tmod_nonneg (a := -x) (n : Int) (by omega)
      rw [Int.neg_tmod] at hneg
      omega
    exact hno.2 (Int.dvd_of_tmod_eq_zero (le_antisymm hle hnonneg))
  · rintro (hx | hx)
    · exact ⟨Int.tmod_nonneg (n : Int) hx, hlt⟩
    · exact ⟨(Int.tmod_eq_zero_of_dvd hx).ge, hlt⟩

/-- The index is in range if the sum of the address and the page number is no negative `int`, or if
its distance from 4294967296 is a multiple of the size. -/
theorem indexInRange_iff {HTSIZE : Nat} (hsize : 0 < HTSIZE) (file : FilePtr) (pageNo : Int) :
    IndexInRange HTSIZE file pageNo ↔ (file + pageNo) % 4294967296 < 2147483648 ∨
      (HTSIZE : Int) ∣ 4294967296 - (file + pageNo) % 4294967296 := by
  generalize hv : (file + pageNo) % 4294967296 = v
  have hrange : (0 ≤ hash HTSIZE file pageNo ∧ hash HTSIZE file pageNo < HTSIZE) ↔
      v < 2147483648 ∨ (HTSIZE : Int) ∣ 4294967296 - v := by
    unfold hash
    dsimp only
    rw [tmod_range_iff hsize]
    rcases lt_or_ge v 2147483648 with hsmall | hlarge
    · refine iff_of_true (.inl ?_) (.inl hsmall)
      unfold toInt
      omega
    · -- the value is negative, and its absolute value is the distance
      have hval : toInt (toInt file + pageNo) = -(4294967296 - v) := by
        unfold toInt
        omega
      rw [hval, Int.dvd_neg]
      exact or_congr (iff_of_false (by omega) (by omega)) Iff.rfl
  rw [← hrange]
  constructor
  · exact IndexInRange.range
  · intro h
    have hentry (t : HashBuckets) (hsize : t.HTSIZE = HTSIZE) (ht : t.Chained) :
        ∃ head l, t.entry (hash HTSIZE file pageNo) = some head ∧ IsChain t head l := by
      obtain ⟨l, hl⟩ := ht (hash HTSIZE file pageNo).toNat (by omega)
      exact ⟨_, l, if_pos (by omega), hl⟩
    refine ⟨h, fun t hsize ht frameNo p => ?_, fun t hsize ht frameNo => ?_, fun t hsize ht => ?_⟩
    · obtain ⟨head, l, hhead, hl⟩ := hentry t hsize ht
      exact ⟨_, hl.insert_returns hhead frameNo p⟩
    · obtain ⟨head, l, hhead, hl⟩ := hentry t hsize ht
      exact ⟨_, hl.lookup_returns hhead frameNo⟩
    · obtain ⟨head, l, hhead, hl⟩ := hentry t hsize ht
      exact hl.exists_remove_returns hhead

/-- A page of a file at the address 4096, in a table of 13 buckets. -/
theorem indexInRange_iff_low : IndexInRange 13 4096 7 :=
  (indexInRange_iff (by decide) 4096 7).mpr (.inl (by decide))

/-- Page 0 of a file at the address 2147483648, in a table of 13 buckets. -/
theorem not_indexInRange_high : ¬IndexInRange 13 2147483648 0 := by
  intro h
  exact absurd h.range.1 (by decide)

end HashBuckets

end Minirel
