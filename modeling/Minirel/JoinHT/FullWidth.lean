import Mathlib.Tactic.LinearCombination
import Minirel.JoinHT.Multimap

/-!
# Strings that fill the join attribute

`lookup` compares strings up to the length of the attribute, while `hash` reads them up to their
NUL. For a string that has no NUL within the length it goes on to the bytes after the attribute, and
these can lead to any index.

## Main definitions

* `SameAttr`: the comparison of `lookup`.
* `RespectsEquality`: an attribute is found with every attribute that is equal to it.

## Main results

* `exists_continuation`: the bytes after a string decide its hash value.
* `respectsEquality_iff`: the attributes that are found.
-/

namespace Minirel

namespace joinHashTbl

open OpenFileHashTbl

/-! ## What the bytes after a string do to its hash -/

/-- A round of the loop of `hash`. -/
def hashStep (value : Int) (c : UInt8) : Int := toInt (31 * value + charValue c)

/-- Overflow may be left until the end. -/
theorem toInt_hashStep {v x : Int} (h : toInt v = toInt x) (c : UInt8) :
    toInt (hashStep v c) = toInt (31 * x + charValue c) := by
  unfold hashStep toInt at *
  omega

theorem toInt_foldl {v x : Int} (h : toInt v = toInt x) (l : Bytes) :
    toInt (l.foldl hashStep v) = toInt (l.foldl (fun x c => 31 * x + charValue c) x) := by
  induction l generalizing v x with
  | nil => exact h
  | cons c l ih => exact ih (toInt_hashStep h c)

/-- The hash of a string leaves out its first character. -/
theorem hashString_eq_foldl {c : UInt8} {l : Bytes} (hc : c ≠ 0) (hl : 0 ∉ l) (value : Int) :
    hashString (c :: (l ++ [0])) value = some ((l ++ [0]).foldl hashStep value) := by
  induction l generalizing c value with
  | nil => simp [hashString, hc, hashStep]
  | cons d l ih =>
    have hd : d ≠ 0 := fun he => hl (he ▸ List.mem_cons_self)
    rw [List.cons_append, hashString.eq_def]
    dsimp only
    rw [if_neg hc]
    exact ih hd (fun hm => hl (List.mem_cons_of_mem d hm)) _

/-- `k` characters from 1 to 31 that stand for `n`, and the number that `k` characters 1 stand
for. -/
def digits : Nat → Nat → Bytes
  | 0, _ => []
  | k + 1, n => digits k (n / 31) ++ [UInt8.ofNat (n % 31 + 1)]

/-- The number that `k` characters 1 stand for. -/
def ones : Nat → Nat
  | 0 => 0
  | k + 1 => 31 * ones k + 1

theorem zero_notMem_digits (k n : Nat) : 0 ∉ digits k n := by
  induction k generalizing n with
  | zero => exact List.not_mem_nil
  | succ k ih =>
    unfold digits
    rw [List.mem_append, List.mem_singleton, not_or]
    refine ⟨ih _, fun h => ?_⟩
    have hval := congrArg UInt8.toNat h
    rw [UInt8.toNat_ofNat'] at hval
    have := Nat.mod_lt n (show 0 < 31 by decide)
    simp only [UInt8.toNat_zero] at hval
    omega

theorem charValue_digit (n : Nat) : charValue (UInt8.ofNat (n % 31 + 1)) = n % 31 + 1 := by
  have := Nat.mod_lt n (show 0 < 31 by decide)
  unfold charValue
  rw [UInt8.toNat_ofNat', Nat.mod_eq_of_lt (by omega), if_pos (by omega)]
  omega

theorem foldl_digits (k n : Nat) (h : n < 31 ^ k) (x : Int) :
    (digits k n).foldl (fun x c => 31 * x + charValue c) x = 31 ^ k * x + ones k + n := by
  induction k generalizing n with
  | zero =>
    have hn : n = 0 := by simpa using h
    rw [hn]
    simp [digits, ones]
  | succ k ih =>
    have hdiv : n / 31 < 31 ^ k := by
      rw [Nat.div_lt_iff_lt_mul (by decide), ← pow_succ]
      exact h
    unfold digits ones
    rw [List.foldl_append, ih (n / 31) hdiv, List.foldl_cons, List.foldl_nil,
      charValue_digit, pow_succ]
    have := Nat.div_add_mod n 31
    push_cast
    generalize (31 : Int) ^ k = y
    have hsplit : (n : Int) = 31 * (n / 31) + n % 31 := by omega
    linear_combination -hsplit

/-- Characters after a string lead to every value. -/
theorem exists_foldl_hashStep (v x : Int) :
    ∃ l : Bytes, 0 ∉ l ∧ toInt (l.foldl hashStep v) = toInt x := by
  -- seven characters stand for more than 4294967296 numbers in succession
  have hn : ((x - 31 ^ 7 * v - ones 7) % 4294967296).toNat < 31 ^ 7 := by
    have := Int.emod_lt_of_pos (x - 31 ^ 7 * v - ones 7) (show (0 : Int) < 4294967296 by decide)
    omega
  refine ⟨_, zero_notMem_digits 7 ((x - 31 ^ 7 * v - ones 7) % 4294967296).toNat, ?_⟩
  rw [toInt_foldl rfl, foldl_digits 7 _ hn, Int.toNat_of_nonneg (Int.emod_nonneg _ (by decide))]
  unfold toInt
  omega

/-- The bytes after a string that has no NUL decide its hash value. -/
theorem exists_continuation {f : Bytes} (hf : 0 ∉ f) (hne : f ≠ []) (x : Int) :
    ∃ rest, hashString (f ++ rest ++ [0]) 0 = some (toInt (31 * x)) := by
  obtain ⟨c, f, rfl⟩ := List.exists_cons_of_ne_nil hne
  rw [List.mem_cons, not_or] at hf
  obtain ⟨l, hl, hval⟩ := exists_foldl_hashStep (f.foldl hashStep 0) x
  refine ⟨l, ?_⟩
  rw [List.cons_append, List.cons_append, hashString_eq_foldl (Ne.symm hf.1)
    (by rw [List.mem_append, not_or]; exact ⟨hf.2, hl⟩), List.foldl_append, List.foldl_append]
  have hlast := toInt_hashStep hval 0
  rw [show charValue 0 = 0 from rfl, add_zero] at hlast
  rw [List.foldl_cons, List.foldl_nil, ← hlast]
  exact congrArg some (toInt_eq (toInt_range _).1 (toInt_range _).2).symm

/-! ## The comparison of `lookup` -/

/-- `strncmp` finds no difference between the attributes at two pointers. -/
def SameAttr (attrLen : Int) (p q : Bytes) : Prop :=
  strncmp (fun i => p[i]?) (fun i => q[i]?) attrLen.toNat 0 = some .eq

section Comparison

variable {attrLen : Int} {p q : Bytes}

/-- The attributes are equal up to their NUL or their end. -/
theorem sameAttr_iff (hp : attrLen ≤ p.length) (hq : attrLen ≤ q.length) :
    SameAttr attrLen p q ↔ cstr (p.take attrLen.toNat) = cstr (q.take attrLen.toNat) := by
  obtain ⟨r, hr, hiff⟩ := strncmp_eq_take_iff (f := fun i => p[i]?) (g := fun i => q[i]?)
    attrLen.toNat 0 p q (fun j => by rw [Nat.zero_add]) (fun j => by rw [Nat.zero_add])
    (.inr (by omega)) (.inr (by omega))
  unfold SameAttr
  rw [hr, Option.some.injEq]
  exact hiff

/-- Two equal attributes both have a NUL or both have none. -/
theorem SameAttr.zero_mem (h : SameAttr attrLen p q) (hp : attrLen ≤ p.length)
    (hq : attrLen ≤ q.length) (hnul : 0 ∈ p.take attrLen.toNat) : 0 ∈ q.take attrLen.toNat := by
  rw [sameAttr_iff hp hq] at h
  by_contra hno
  -- the string without a NUL is longer
  have hlt := length_cstr_lt hnul
  rw [cstr_take hnul] at h
  have hall : cstr (q.take attrLen.toNat) = q.take attrLen.toNat := by
    unfold cstr
    rw [List.takeWhile_eq_self_iff]
    intro c hc
    exact decide_eq_true fun he => hno (he ▸ hc)
  rw [hall] at h
  have := congrArg List.length h
  rw [List.length_take_of_le (by omega)] at this
  omega

end Comparison

/-! ## Tables of strings -/

variable {attr : AttrDesc} {HTSIZE index : Int} {t t' t₀ : joinHashTbl} {p q tuple : Bytes}
  {rid : RID} {ins : List (RID × Bytes)}

/-- Every bucket holds a string of the length of the attribute, and `bucketCnt` counts them. -/
structure HoldsStrings (attr : AttrDesc) (HTSIZE : Int) (t : joinHashTbl) : Prop where
  joinAttr : t.joinAttr = attr
  size : t.HTSIZE = HTSIZE
  chain : ∀ index e, t.entry index = some e → e.bucketCnt = e.chain.length ∧
    ∀ b ∈ e.chain, ∃ v, b.attrValue = .sValue v ∧ attr.attrLen ≤ v.length

/-- A bucket on the chain of an index holds the attribute at `p`. -/
def HasBucket (t : joinHashTbl) (index : Int) (rid : RID) (p : Bytes) : Prop :=
  ∃ e, t.entry index = some e ∧ ⟨.sValue (p.take t.joinAttr.attrLen.toNat), rid⟩ ∈ e.chain

/-- The table with a bucket put in front of the chain `e`. -/
def pushBucket (t : joinHashTbl) (index : Int) (e : HTentry) (b : joinhashBucket) : joinHashTbl :=
  { t with ht := t.ht.set index.toNat ⟨e.bucketCnt + 1, b :: e.chain⟩ }

theorem entry_pushBucket_self {e : HTentry} (h : t.entry index = some e) (b : joinhashBucket) :
    (t.pushBucket index e b).entry index = some ⟨e.bucketCnt + 1, b :: e.chain⟩ := by
  unfold entry at h ⊢
  split at h
  · cases h
  next hneg =>
    rw [if_neg hneg]
    exact List.getElem?_set_self (List.getElem?_eq_some_iff.mp h).1

theorem entry_pushBucket_of_ne {e : HTentry} (h : t.entry index = some e) {index' : Int}
    (hne : index' ≠ index) (b : joinhashBucket) :
    (t.pushBucket index e b).entry index' = t.entry index' := by
  unfold entry at h ⊢
  split at h
  · cases h
  · split
    · rfl
    · exact List.getElem?_set_ne (by omega)

theorem holdsStrings_new (h : new HTSIZE attr = some t) : HoldsStrings attr HTSIZE t := by
  unfold new at h
  split at h
  · cases h
  · cases h
    refine ⟨rfl, rfl, fun index e he => ?_⟩
    unfold entry at he
    split at he
    · cases he
    · have he : e = ⟨0, []⟩ := List.eq_of_mem_replicate (List.mem_of_getElem? he)
      subst he
      exact ⟨rfl, nofun⟩

/-- What `insert` does with a string. -/
theorem insert_inversion (hstr : t.joinAttr.attrType = Datatype.STRING.code)
    (h : t.insert rid tuple = some (.OK, t')) :
    ∃ p index e, t.joinAttrPtr tuple = some p ∧ t.joinAttr.attrLen ≤ p.length ∧
      hash t.HTSIZE p t.joinAttr.attrType = some index ∧ t.entry index = some e ∧
      t' = t.pushBucket index e ⟨.sValue (p.take t.joinAttr.attrLen.toNat), rid⟩ := by
  unfold joinHashTbl.insert at h
  obtain ⟨p, hp, h⟩ := Option.bind_eq_some_iff.mp h
  obtain ⟨index, hindex, h⟩ := Option.bind_eq_some_iff.mp h
  obtain ⟨e, he, h⟩ := Option.bind_eq_some_iff.mp h
  obtain ⟨value, hvalue, h⟩ := Option.bind_eq_some_iff.mp h
  unfold storeValue at hvalue
  rw [hstr, if_neg (by decide), if_neg (by decide), if_pos rfl] at hvalue
  split at hvalue
  · cases hvalue
  · cases hvalue
    cases h
    exact ⟨p, index, e, hp, by omega, hindex, he, rfl⟩

/-- An insertion keeps the buckets so far. -/
theorem HasBucket.insert (h : HasBucket t index rid p)
    (hstr : t.joinAttr.attrType = Datatype.STRING.code) {rid' : RID}
    (hins : t.insert rid' tuple = some (.OK, t')) : HasBucket t' index rid p := by
  obtain ⟨q, index', e', -, -, -, he', rfl⟩ := insert_inversion hstr hins
  obtain ⟨e, he, hmem⟩ := h
  by_cases hij : index = index'
  · subst hij
    rw [he] at he'
    cases he'
    exact ⟨_, entry_pushBucket_self he _, List.mem_cons_of_mem _ hmem⟩
  · exact ⟨e, (entry_pushBucket_of_ne he' hij _).trans he, hmem⟩

/-- The bucket that an insertion adds. -/
theorem hasBucket_of_insert (hstr : t.joinAttr.attrType = Datatype.STRING.code)
    (hins : t.insert rid tuple = some (.OK, t')) (hp : t.joinAttrPtr tuple = some p)
    (hindex : hash t.HTSIZE p t.joinAttr.attrType = some index) : HasBucket t' index rid p := by
  obtain ⟨q, index', e, hq, -, hindex', he, rfl⟩ := insert_inversion hstr hins
  rw [hp] at hq
  cases hq
  rw [hindex] at hindex'
  cases hindex'
  exact ⟨_, entry_pushBucket_self he _, List.mem_cons_self⟩

theorem HoldsStrings.insert (h : HoldsStrings attr HTSIZE t)
    (hstr : attr.attrType = Datatype.STRING.code) (hins : t.insert rid tuple = some (.OK, t')) :
    HoldsStrings attr HTSIZE t' := by
  obtain ⟨p, index, e, -, hlen, -, he, rfl⟩ := insert_inversion (h.joinAttr.symm ▸ hstr) hins
  refine ⟨h.joinAttr, h.size, fun i c hc => ?_⟩
  by_cases hij : i = index
  · subst hij
    rw [entry_pushBucket_self he] at hc
    cases hc
    obtain ⟨hcnt, hall⟩ := h.chain _ e he
    refine ⟨congrArg (· + 1) hcnt, fun b hb => ?_⟩
    rcases List.mem_cons.mp hb with rfl | hb
    · refine ⟨_, rfl, ?_⟩
      rw [h.joinAttr] at hlen ⊢
      rw [List.length_take]
      omega
    · exact hall b hb
  · rw [entry_pushBucket_of_ne he hij] at hc
    exact h.chain i c hc

/-- After any insertions, a tuple among them has its bucket. -/
theorem HoldsStrings.build (h : HoldsStrings attr HTSIZE t)
    (hstr : attr.attrType = Datatype.STRING.code) (hbuild : t.build ins = some t') :
    HoldsStrings attr HTSIZE t' ∧
    (∀ index rid p, HasBucket t index rid p → HasBucket t' index rid p) ∧
      ∀ x ∈ ins, ∀ p index, t.joinAttrPtr x.2 = some p → hash HTSIZE p attr.attrType = some index →
        HasBucket t' index x.1 p := by
  induction ins generalizing t with
  | nil =>
    cases hbuild
    exact ⟨h, fun _ _ _ hb => hb, nofun⟩
  | cons x ins ih =>
    obtain ⟨rid, tuple⟩ := x
    have hstr' : t.joinAttr.attrType = Datatype.STRING.code := h.joinAttr.symm ▸ hstr
    unfold joinHashTbl.build at hbuild
    obtain ⟨⟨status, t₁⟩, hins, hbuild⟩ := Option.bind_eq_some_iff.mp hbuild
    dsimp only at hbuild
    split at hbuild
    next hok =>
      subst hok
      have h₁ := h.insert hstr hins
      obtain ⟨hholds, hkeep, hnew⟩ := ih h₁ hbuild
      refine ⟨hholds, fun index rid p hb => hkeep _ _ _ (hb.insert hstr' hins),
        fun x hx p index hp hi => ?_⟩
      rcases List.mem_cons.mp hx with rfl | hx
      · refine hkeep _ _ _ (hasBucket_of_insert hstr' hins hp ?_)
        rw [h.size, h.joinAttr]
        exact hi
      · have hptr : t₁.joinAttrPtr x.2 = some p := by
          unfold joinAttrPtr at hp ⊢
          rw [h₁.joinAttr, ← h.joinAttr]
          exact hp
        exact hnew x hx p index hptr hi
    next => cases hbuild

/-- `lookup` finds a bucket on the chain of its index with an equal attribute. -/
theorem HasBucket.lookup (h : HasBucket t index rid p) (ht : HoldsStrings attr HTSIZE t)
    (hstr : attr.attrType = Datatype.STRING.code)
    (hindex : hash HTSIZE q attr.attrType = some index) (hp : attr.attrLen ≤ p.length)
    (hq : attr.attrLen ≤ q.length) (hsame : SameAttr attr.attrLen p q) :
    ∃ ridCnt outRids, t.lookup q = some (.OK, ridCnt, outRids) ∧
    some rid ∈ outRids.take ridCnt := by
  obtain ⟨e, he, hmem⟩ := h
  obtain ⟨hcnt, hall⟩ := ht.chain index e he
  have hcmp : ∀ v : Bytes, matches? attr (.sValue v) q = (strncmp (fun i => v[i]?) (fun i => q[i]?)
      attr.attrLen.toNat 0).bind fun r => some (decide (r = .eq)) := by
    intro v
    unfold matches?
    rw [hstr, if_neg (by decide), if_neg (by decide), if_pos rfl]
    rfl
  -- every bucket of the chain can be compared
  have hm : ∀ b ∈ e.chain, matches? attr b.attrValue q =
      some (decide (matches? attr b.attrValue q = some true)) := by
    intro b hb
    obtain ⟨v, hv, hlen⟩ := hall b hb
    obtain ⟨r, hr, -⟩ := strncmp_eq_take_iff (f := fun i => v[i]?) (g := fun i => q[i]?)
      attr.attrLen.toNat 0 v q (fun j => by rw [Nat.zero_add]) (fun j => by rw [Nat.zero_add])
      (.inr (by omega)) (.inr (by omega))
    rw [hv, hcmp, hr, Option.bind_some]
    cases decide (r = .eq) with
    | true => rfl
    | false => rfl
  obtain ⟨out, hloop, -, htake⟩ := lookupChain_filter hm 0 (List.replicate e.bucketCnt none)
    (by rw [List.length_replicate, hcnt, Nat.zero_add]; exact List.length_filter_le _ _)
  rw [List.take_zero, List.nil_append, Nat.zero_add] at htake
  refine ⟨(e.chain.filter fun b => matches? attr b.attrValue q = some true).length, out, ?_, ?_⟩
  · unfold joinHashTbl.lookup
    rw [ht.size, ht.joinAttr, hindex, Option.bind_eq_bind, Option.bind_some, he,
      Option.bind_eq_bind,
      Option.bind_some, hloop, Nat.zero_add]
    rfl
  · rw [htake]
    refine List.mem_map.mpr ⟨_, List.mem_filter.mpr ⟨hmem, decide_eq_true ?_⟩, rfl⟩
    have hsame' : SameAttr attr.attrLen (p.take t.joinAttr.attrLen.toNat) q := by
      rw [ht.joinAttr, sameAttr_iff (by rw [List.length_take]; omega) hq, List.take_take,
        Nat.min_self]
      exact (sameAttr_iff hp hq).mp hsame
    rw [hcmp, show strncmp _ _ _ _ = some .eq from hsame']
    rfl

/-! ## Which attributes are found -/

/-- The attribute at `p` has the index of every attribute in `mem` that is equal to it, and a lookup
with that one finds the tuples that have been inserted with `p`. -/
def RespectsEquality (attr : AttrDesc) (HTSIZE : Int) (mem : Set Bytes) (p : Bytes) : Prop :=
  ∀ q ∈ mem, attr.attrLen ≤ q.length → SameAttr attr.attrLen p q →
    ∃ index, hash HTSIZE p attr.attrType = some index ∧ hash HTSIZE q attr.attrType = some index ∧
      ∀ t₀ ins t, new HTSIZE attr = some t₀ → t₀.build ins = some t →
        ∀ x ∈ ins, t₀.joinAttrPtr x.2 = some p →
          ∃ ridCnt outRids, t.lookup q = some (.OK, ridCnt, outRids) ∧
            some x.1 ∈ outRids.take ridCnt

section Equality

variable {mem : Set Bytes} (hstr : attr.attrType = Datatype.STRING.code)

include hstr

/-- It is enough that the index is the same. -/
theorem respectsEquality_of_index (hp : attr.attrLen ≤ p.length)
    (h : ∀ q ∈ mem, attr.attrLen ≤ q.length → SameAttr attr.attrLen p q →
      ∃ index, hash HTSIZE p attr.attrType = some index ∧
      hash HTSIZE q attr.attrType = some index) :
    RespectsEquality attr HTSIZE mem p := by
  intro q hq hlen hsame
  obtain ⟨index, hindexp, hindexq⟩ := h q hq hlen hsame
  refine ⟨index, hindexp, hindexq, fun t₀ ins t hnew hbuild x hx hptr => ?_⟩
  obtain ⟨ht, -, hbuckets⟩ := (holdsStrings_new hnew).build hstr hbuild
  exact (hbuckets x hx p index hptr hindexp).lookup ht hstr hindexq hp hlen hsame

/-- The hash index of a string in memory. -/
theorem hash_of_hashString {value : Int} (hsize : 1 ≤ HTSIZE) (h : hashString p 0 = some value) :
    hash HTSIZE p attr.attrType = some ((value.tmod HTSIZE).natAbs : Int) := by
  have hne : HTSIZE ≠ 0 := by omega
  unfold hash hashValue
  rw [hstr, if_neg (by decide), if_neg (by decide), if_pos rfl, h, Option.bind_eq_bind,
    Option.bind_some, if_neg hne]

/-- A string that does not end in memory has no hash. -/
theorem hash_of_notMem (h : 0 ∉ p) : hash HTSIZE p attr.attrType = none := by
  have hloop : ∀ (l : Bytes) (value : Int), 0 ∉ l → hashString l value = none := by
    intro l
    induction l with
    | nil => exact fun _ _ => rfl
    | cons c l ih =>
      intro value hl
      rw [List.mem_cons, not_or] at hl
      unfold hashString
      rw [if_neg (Ne.symm hl.1)]
      cases l with
      | nil => rfl
      | cons d l => exact ih _ hl.2
  unfold hash hashValue
  rw [hstr, if_neg (by decide), if_neg (by decide), if_pos rfl, hloop p 0 h]
  rfl

/-- Equal attributes with a NUL have the same index. -/
theorem exists_index_of_zero_mem (hsize : 1 ≤ HTSIZE) (hp : attr.attrLen ≤ p.length)
    (hq : attr.attrLen ≤ q.length) (hnul : 0 ∈ p.take attr.attrLen.toNat)
    (hsame : SameAttr attr.attrLen p q) :
    ∃ index, hash HTSIZE p attr.attrType = some index ∧
    hash HTSIZE q attr.attrType = some index := by
  have hnulq := hsame.zero_mem hp hq hnul
  have hcstr := (sameAttr_iff hp hq).mp hsame
  rw [cstr_take hnul, cstr_take hnulq] at hcstr
  have hread (r : Bytes) (hr : 0 ∈ r.take attr.attrLen.toNat) :
      JoinKey.read attr r = some (.str (cstr r)) := by
    unfold JoinKey.read
    rw [hstr, if_neg (by decide), if_pos rfl, if_pos hr]
  have hindex := hash_eq (hread q hnulq) hsize
  rw [← hcstr] at hindex
  exact ⟨_, hash_eq (hread p hnul) hsize, hindex⟩

/-- A string without a NUL has another index than some other string that starts like it. -/
theorem exists_other_index (hsize : 2 ≤ HTSIZE) {f : Bytes} (hf : 0 ∉ f) (hne : f ≠ [])
    (index : Int) :
    ∃ rest other, hash HTSIZE (f ++ rest ++ [0]) attr.attrType = some other ∧ other ≠ index := by
  by_cases hzero : index = 0
  · -- 3186588639 is the inverse of 31
    obtain ⟨rest, hrest⟩ := exists_continuation hf hne 3186588639
    refine ⟨rest, _, hash_of_hashString hstr (by omega) hrest, ?_⟩
    rw [show toInt (31 * 3186588639) = 1 from rfl, hzero,
      Int.tmod_eq_of_lt (by decide) (by omega)]
    decide
  · obtain ⟨rest, hrest⟩ := exists_continuation hf hne 0
    refine ⟨rest, _, hash_of_hashString hstr (by omega) hrest, ?_⟩
    rw [show toInt (31 * 0) = 0 from rfl, Int.zero_tmod]
    exact Ne.symm hzero

/-- An attribute has the index of all that are equal to it exactly if it has a NUL. If there is a
NUL in memory after both of them, this is needed only if the table has more than one chain. -/
theorem respectsEquality_iff (hlen : 1 ≤ attr.attrLen) (hsize : 1 ≤ HTSIZE)
    (hp : attr.attrLen ≤ p.length) :
    (RespectsEquality attr HTSIZE Set.univ p ↔ 0 ∈ p.take attr.attrLen.toNat) ∧
      (0 ∈ p → (RespectsEquality attr HTSIZE {q | 0 ∈ q} p ↔
        0 ∈ p.take attr.attrLen.toNat ∨ HTSIZE = 1)) := by
  have hfield : (p.take attr.attrLen.toNat).length = attr.attrLen.toNat :=
    List.length_take_of_le (by omega)
  have hne : p.take attr.attrLen.toNat ≠ [] := by
    intro he
    rw [he, List.length_nil] at hfield
    omega
  -- what starts with the field is equal to it
  have hsame (rest : Bytes) : attr.attrLen ≤ (p.take attr.attrLen.toNat ++ rest).length ∧
      SameAttr attr.attrLen p (p.take attr.attrLen.toNat ++ rest) := by
    have hlen : attr.attrLen ≤ (p.take attr.attrLen.toNat ++ rest).length := by
      rw [List.length_append, hfield]
      omega
    refine ⟨hlen, (sameAttr_iff hp hlen).mpr ?_⟩
    rw [List.take_append_of_le_length hfield.ge, List.take_take, Nat.min_self]
  have henough {mem : Set Bytes} (hnul : 0 ∈ p.take attr.attrLen.toNat) :
      RespectsEquality attr HTSIZE mem p :=
    respectsEquality_of_index hstr hp fun q _ hq hs =>
      exists_index_of_zero_mem hstr hsize hp hq hnul hs
  refine ⟨⟨fun h => ?_, henough⟩, fun hend => ⟨fun h => ?_, ?_⟩⟩
  · by_contra hno
    -- in memory that ends with the field the hash runs out of it
    obtain ⟨hlen, hs⟩ := hsame []
    obtain ⟨index, -, hindex, -⟩ := h _ (Set.mem_univ _) hlen hs
    rw [List.append_nil, hash_of_notMem hstr hno] at hindex
    cases hindex
  · by_contra hno
    rw [not_or] at hno
    obtain ⟨index, hindex, -⟩ := h p hend hp ((sameAttr_iff hp hp).mpr rfl)
    obtain ⟨rest, other, hother, hdiff⟩ :=
      exists_other_index hstr (show 2 ≤ HTSIZE by omega) hno.1 hne index
    obtain ⟨hlen, hs⟩ := hsame (rest ++ [0])
    rw [← List.append_assoc] at hlen hs
    obtain ⟨index', hindex', hother', -⟩ := h _ (List.mem_append_right _ List.mem_cons_self) hlen hs
    rw [hindex] at hindex'
    rw [hother] at hother'
    cases hindex'
    cases hother'
    exact hdiff rfl
  · rintro (hnul | rfl)
    · exact henough hnul
    · -- there is one chain only
      refine respectsEquality_of_index hstr hp fun q hq _ _ => ⟨0, ?_, ?_⟩
      · obtain ⟨value, hvalue, -⟩ := hashString_cstr hend 0
        rw [hash_of_hashString hstr hsize hvalue, Int.tmod_one]
        rfl
      · obtain ⟨value, hvalue, -⟩ := hashString_cstr hq 0
        rw [hash_of_hashString hstr hsize hvalue, Int.tmod_one]
        rfl

end Equality

/-- The string `[97]` in an attribute of two bytes. -/
theorem respectsEquality_iff_short :
    RespectsEquality ⟨[], [], 0, Datatype.STRING.code, 2⟩ 13 Set.univ [97, 0] :=
  (respectsEquality_iff rfl (by decide) (by decide) (by decide)).1.mpr (by decide)

/-- The string `[97, 98]` fills the attribute. It ends in memory right after it, and the same string
in another tuple is followed by a character. -/
theorem not_respectsEquality_full :
    ¬RespectsEquality ⟨[], [], 0, Datatype.STRING.code, 2⟩ 13 Set.univ [97, 98, 0] := by
  intro h
  obtain ⟨index, hindex, hindex', -⟩ := h [97, 98, 99, 0] (Set.mem_univ _) (by decide) rfl
  have h₁ : hash 13 [97, 98, 0] Datatype.STRING.code = some 9 := by decide
  have h₂ : hash 13 [97, 98, 99, 0] Datatype.STRING.code = some 7 := by decide
  rw [h₁] at hindex
  rw [h₂] at hindex'
  cases hindex
  cases hindex'

end joinHashTbl

end Minirel
