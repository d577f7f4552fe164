import Mathlib.Algebra.BigOperators.Group.List.Basic
import Mathlib.Data.List.Nodup

/-!
# Chained hash tables

An array of buckets, each a chain of key-value entries, indexed by a hash function whose values
are in range. The chain structure is the one of the usual C implementation: `insert?` walks the
chain and links a new entry in front, `erase?` unlinks the first entry with the key.

The invariant is carried by the type: every entry is in the bucket of its key, and no bucket
holds two entries for one key. The results say that such a table is a finite map, whatever the
hash function is: `find_insert?`, `find_erase?`, `insert?_eq_none_iff`, `erase?_eq_none_iff`.
-/

/-- A hash table with chained buckets. -/
structure ChainTable (K V : Type) [DecidableEq K] where
  /-- The number of buckets. -/
  size : ℕ
  /-- The bucket of a key. -/
  hash : K → Fin size
  /-- The chain of a bucket. -/
  chain : Fin size → List (K × V)
  /-- An entry is in the bucket of its key. -/
  placed : ∀ i, ∀ e ∈ chain i, hash e.1 = i
  /-- The keys of a bucket are distinct. -/
  nodup : ∀ i, ((chain i).map Prod.fst).Nodup

namespace ChainTable

variable {K V : Type} [DecidableEq K]

/-- The table with no entry. -/
def empty (size : ℕ) (hash : K → Fin size) : ChainTable K V where
  size := size
  hash := hash
  chain _ := []
  placed := by simp
  nodup := by simp

/-- The value stored for a key. -/
def find (t : ChainTable K V) (k : K) : Option V := (t.chain (t.hash k)).lookup k

/-- The chains with bucket `hash k` replaced. -/
def setChain (t : ChainTable K V) (k : K) (c : List (K × V)) (i : Fin t.size) : List (K × V) :=
  if i = t.hash k then c else t.chain i

/-- Link a new entry in front of its chain; `none` if the key has an entry already. -/
def insert? (t : ChainTable K V) (k : K) (v : V) : Option (ChainTable K V) :=
  if h : k ∈ (t.chain (t.hash k)).map Prod.fst then none
  else some
    { t with
      chain := t.setChain k ((k, v) :: t.chain (t.hash k))
      placed := by
        intro i e he
        unfold setChain at he
        split at he
        next hi =>
          rcases List.mem_cons.mp he with rfl | he
          · exact hi.symm
          · rw [hi]; exact t.placed _ e he
        next => exact t.placed i e he
      nodup := by
        intro i
        unfold setChain
        split
        next => exact List.nodup_cons.mpr ⟨h, t.nodup _⟩
        next => exact t.nodup i }

/-- Unlink the entry of a key from its chain; `none` if the key has no entry. -/
def erase? (t : ChainTable K V) (k : K) : Option (ChainTable K V) :=
  if k ∈ (t.chain (t.hash k)).map Prod.fst then
    some
      { t with
        chain := t.setChain k ((t.chain (t.hash k)).eraseP fun e => e.1 = k)
        placed := by
          intro i e he
          unfold setChain at he
          split at he
          next hi => rw [hi]; exact t.placed _ e (List.mem_of_mem_eraseP he)
          next => exact t.placed i e he
        nodup := by
          intro i
          unfold setChain
          split
          next => exact (t.nodup _).sublist (List.eraseP_sublist.map _)
          next => exact t.nodup i }
  else none

/-! ## Chains as association lists -/

/-- A key has a value in a chain exactly if it is the key of some entry. -/
private theorem lookup_eq_none_iff_keys (c : List (K × V)) (k : K) :
    c.lookup k = none ↔ k ∉ c.map Prod.fst := by
  rw [List.lookup_eq_none_iff, List.mem_map, not_exists]
  refine forall_congr' fun e => ?_
  rw [not_and]
  refine imp_congr_right fun _ => ?_
  rw [bne_iff_ne, ne_comm]

/-- Unlinking the first entry of `k` from a chain with distinct keys removes `k` alone. -/
private theorem lookup_eraseP (c : List (K × V)) (hc : (c.map Prod.fst).Nodup) (k k' : K) :
    (c.eraseP fun e => e.1 = k).lookup k' = if k' = k then none else c.lookup k' := by
  induction c with
  | nil => simp
  | cons e c ih =>
    obtain ⟨a, w⟩ := e
    rw [List.map_cons, List.nodup_cons] at hc
    by_cases he : a = k
    · rw [List.eraseP_cons_of_pos (by simpa using he)]
      by_cases hk : k' = k
      · rw [if_pos hk, lookup_eq_none_iff_keys, hk, ← he]
        exact hc.1
      · have hb : (k' == a) = false := by simpa [he] using hk
        rw [List.lookup_cons, hb, if_neg hk]
    · rw [List.eraseP_cons_of_neg (by simpa using he)]
      by_cases hk : k' = a
      · rw [hk, List.lookup_cons_self, List.lookup_cons_self, if_neg he]
      · have hb : (k' == a) = false := by simpa using hk
        rw [List.lookup_cons, List.lookup_cons, hb]
        exact ih hc.2

/-! ## The table as a finite map -/

@[simp]
theorem find_empty (size : ℕ) (hash : K → Fin size) (k : K) :
    (empty size hash : ChainTable K V).find k = none := rfl

/-- Insertion is refused exactly if the key is present. -/
theorem insert?_eq_none_iff (t : ChainTable K V) (k : K) (v : V) :
    t.insert? k v = none ↔ t.find k ≠ none := by
  rw [find, Ne, lookup_eq_none_iff_keys, not_not]
  unfold insert?
  split <;> simp_all

/-- Removal is refused exactly if the key is absent. -/
theorem erase?_eq_none_iff (t : ChainTable K V) (k : K) :
    t.erase? k = none ↔ t.find k = none := by
  rw [find, lookup_eq_none_iff_keys]
  unfold erase?
  split <;> simp_all

/-- A successful insertion maps the key to the value and leaves every other key alone. -/
theorem find_insert? {t t' : ChainTable K V} {k : K} {v : V} (h : t.insert? k v = some t')
    (k' : K) : t'.find k' = if k' = k then some v else t.find k' := by
  unfold insert? at h
  split at h
  next => cases h
  next hk =>
    cases h
    by_cases hkk : k' = k
    · simp [find, setChain, hkk]
    · have hb : (k' == k) = false := by simpa using hkk
      by_cases hh : t.hash k' = t.hash k
      · simp [find, setChain, hh, hkk, List.lookup_cons, hb]
      · simp [find, setChain, hh, hkk]

/-- A successful removal removes the key and leaves every other key alone. -/
theorem find_erase? {t t' : ChainTable K V} {k : K} (h : t.erase? k = some t') (k' : K) :
    t'.find k' = if k' = k then none else t.find k' := by
  unfold erase? at h
  split at h
  next hk =>
    cases h
    by_cases hh : t.hash k' = t.hash k
    · simp only [find, setChain, hh, ↓reduceIte]
      exact lookup_eraseP _ (t.nodup _) k k'
    · have hkk : k' ≠ k := fun e => hh (by rw [e])
      simp [find, setChain, hh, hkk]
  next => cases h

/-! ## The entries of a table -/

/-- All entries, bucket by bucket. -/
def entries (t : ChainTable K V) : List (K × V) := (List.finRange t.size).flatMap t.chain

/-- A key with a value has exactly one entry, and a key without has none. -/
theorem countP_entries (t : ChainTable K V) (k : K) :
    t.entries.countP (fun e => e.1 = k) = if (t.find k).isSome then 1 else 0 := by
  -- entries of `k` are in its bucket only, and there at most once
  have hbucket : ∀ i, (t.chain i).countP (fun e => e.1 = k) =
      if i = t.hash k then (if (t.find k).isSome then 1 else 0) else 0 := by
    intro i
    split
    next hi =>
      subst hi
      have hkeys : (t.chain (t.hash k)).countP (fun e => e.1 = k) =
          ((t.chain (t.hash k)).map Prod.fst).count k := by
        rw [List.count, List.countP_map]
        exact List.countP_congr fun e _ => by simp
      rw [hkeys, (t.nodup _).count]
      have hmem := lookup_eq_none_iff_keys (t.chain (t.hash k)) k
      cases hl : (t.chain (t.hash k)).lookup k with
      | none => simp [find, hl, hmem.mp hl]
      | some v =>
        have hk : k ∈ (t.chain (t.hash k)).map Prod.fst := by
          by_contra hk
          rw [hmem.mpr hk] at hl
          cases hl
        simp only [find, hl, hk, Option.isSome_some, ↓reduceIte]
    next hi =>
      rw [List.countP_eq_zero]
      intro e he hek
      exact hi ((t.placed i e he).symm.trans (congrArg t.hash (of_decide_eq_true hek)))
  unfold entries
  rw [List.countP_flatMap, List.sum_map_eq_nsmul_single (t.hash k),
    (List.nodup_finRange t.size).count, if_pos (List.mem_finRange _), one_nsmul]
  · exact (hbucket _).trans (if_pos rfl)
  · intro i hi _
    exact (hbucket i).trans (if_neg hi)

end ChainTable
