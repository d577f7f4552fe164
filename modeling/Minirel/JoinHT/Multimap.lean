import Minirel.JoinHT

/-!
# The hash table of a join is a multimap

On an attribute of type `INTEGER` or `STRING` the table maps every attribute value to the records
inserted with it, the one inserted last first.

## Main results

* `hash_eq`: the hash index depends on the value of the attribute alone and is in range.
* `Represents.insert`, `Represents.lookup`: what an insertion adds to the multimap that a table
  represents, and what a lookup reads from it.
* `lookup_of_build`: the two together, for every sequence of insertions.
-/

namespace Minirel

/-- The value of a join attribute, strings compared up to their NUL. -/
inductive JoinKey
  | int (v : Int)
  | str (b : Bytes)
  deriving DecidableEq, Repr

namespace JoinKey

/-- The value of the attribute at a pointer, if it is an `INTEGER` or a `STRING` that ends within
its length. -/
def read (attr : AttrDesc) (attrPtr : Bytes) : Option JoinKey :=
  if attr.attrType = Datatype.INTEGER.code then
    if 4 ≤ attrPtr.length then some (.int (intOfBytes attrPtr)) else none
  else if attr.attrType = Datatype.STRING.code then
    if 0 ∈ attrPtr.take attr.attrLen.toNat then some (.str (cstr attrPtr)) else none
  else none

/-- The value of the attribute in a tuple that is long enough to have it. -/
def ofTuple (attr : AttrDesc) (tuple : Bytes) : Option JoinKey :=
  if 0 ≤ attr.attrOffset ∧ 0 ≤ attr.attrLen ∧ attr.attrOffset + attr.attrLen ≤ tuple.length then
    read attr (tuple.drop attr.attrOffset.toNat)
  else none

/-- The value that the hash function computes before it reduces it to an index. -/
def value (HTSIZE : Int) : JoinKey → Int
  | .int v => toInt (toInt (v * HTSIZE) * 31)
  | .str b => (joinHashTbl.hashString (b ++ [0]) 0).getD 0

/-- The index of the chain of an attribute value. -/
def index (HTSIZE : Int) (k : JoinKey) : Nat := ((k.value HTSIZE).tmod HTSIZE).natAbs

end JoinKey

namespace joinHashTbl

variable {attr : AttrDesc} {p p' tuple : Bytes} {k k' : JoinKey} {HTSIZE : Int}

/-! ## Hashing and comparing attributes -/

/-- The hash of a string stops at the NUL. -/
theorem hashString_cstr (h : 0 ∈ p) (value : Int) :
    ∃ r, hashString p value = some r ∧ hashString (cstr p ++ [0]) value = some r := by
  induction p generalizing value with
  | nil => simp at h
  | cons c p ih =>
    by_cases hc : c = 0
    · exact ⟨value, by simp [hashString, hc], by simp [hashString, hc]⟩
    · have hp : 0 ∈ p := (List.mem_cons.mp h).resolve_left (Ne.symm hc)
      obtain ⟨d, q, rfl⟩ : ∃ d q, p = d :: q := by
        cases p with
        | nil => simp at hp
        | cons d q => exact ⟨d, q, rfl⟩
      obtain ⟨r, h₁, h₂⟩ := ih hp (toInt (31 * value + OpenFileHashTbl.charValue d))
      refine ⟨r, ?_, ?_⟩
      · unfold hashString
        rw [if_neg hc]
        exact h₁
      · -- the string that is left starts with the same character
        obtain ⟨q', hq⟩ : ∃ q', cstr (d :: q) ++ [0] = d :: q' := by
          by_cases hd : d = 0
          · exact ⟨[], by rw [hd, cstr_cons_zero, List.nil_append]⟩
          · exact ⟨cstr q ++ [0], by rw [cstr_cons_of_ne hd, List.cons_append]⟩
        rw [cstr_cons_of_ne hc, List.cons_append]
        unfold hashString
        rw [if_neg hc, hq]
        rw [hq] at h₂
        exact h₂

/-- The hash index depends on the value of the attribute alone. -/
theorem hash_eq (h : JoinKey.read attr p = some k) (hsize : 0 < HTSIZE) :
    hash HTSIZE p attr.attrType = some ((k.index HTSIZE : Nat) : Int) := by
  have hne : HTSIZE ≠ 0 := hsize.ne'
  have hv : hashValue HTSIZE p attr.attrType = some (k.value HTSIZE) := by
    unfold JoinKey.read at h
    unfold hashValue
    split at h
    next htype =>
      split at h
      next hlen =>
        cases h
        rw [if_pos htype, if_neg (by omega)]
        rfl
      next => cases h
    next htype =>
      split at h
      next hstr =>
        split at h
        next hmem =>
          cases h
          obtain ⟨r, h₁, h₂⟩ := hashString_cstr (List.mem_of_mem_take hmem) 0
          rw [if_neg htype, if_neg (by rw [hstr]; decide), if_pos hstr, h₁]
          simp [JoinKey.value, h₂]
        next => cases h
      next => cases h
  unfold hash
  rw [hv]
  simp [hne, JoinKey.index]

/-- The hash index is in range. -/
theorem index_lt (k : JoinKey) (hsize : 0 < HTSIZE) : (k.index HTSIZE : Int) < HTSIZE := by
  unfold JoinKey.index
  rw [Int.natAbs_tmod]
  have := Nat.mod_lt (k.value HTSIZE).natAbs (show 0 < HTSIZE.natAbs by omega)
  omega

/-- What a bucket stores for an attribute value. -/
def Stores (attr : AttrDesc) (value : JAttrType) (k : JoinKey) : Prop :=
  ∃ p, storeValue attr p = some value ∧ JoinKey.read attr p = some k

/-- `lookup` compares values of attributes. -/
theorem matches?_of_stores {value : JAttrType} (hs : Stores attr value k')
    (h : JoinKey.read attr p = some k) : matches? attr value p = some (decide (k' = k)) := by
  obtain ⟨q, hstore, hq⟩ := hs
  unfold JoinKey.read at h hq
  unfold storeValue at hstore
  unfold matches?
  split at h
  next htype =>
    rw [if_pos htype] at hq hstore ⊢
    split at h
    next hp =>
      split at hq
      next hq' =>
        rw [if_neg (by omega)] at hstore
        cases h
        cases hq
        cases hstore
        simp only [if_neg (show ¬p.length < 4 by omega), JoinKey.int.injEq]
      next => cases hq
    next => cases h
  next htype =>
    split at h
    next hstr =>
      have hfloat : attr.attrType ≠ Datatype.FLOAT.code := by rw [hstr]; decide
      rw [if_neg htype, if_pos hstr] at hq
      rw [if_neg htype, if_neg hfloat, if_pos hstr] at hstore ⊢
      split at h
      next hp =>
        split at hq
        next hq' =>
          split at hstore
          next => cases hstore
          next hlen =>
            cases h
            cases hq
            cases hstore
            have hcut : (q.take attr.attrLen.toNat).take attr.attrLen.toNat =
                q.take attr.attrLen.toNat := by rw [List.take_take, Nat.min_self]
            obtain ⟨r, hr, hiff⟩ := strncmp_eq_iff attr.attrLen.toNat 0
              (q.take attr.attrLen.toNat) p (fun j => by rw [Nat.zero_add]) (fun j => by
                rw [Nat.zero_add]) (Or.inl (hcut.symm ▸ hq')) hp
            have hcstr : cstr (q.take attr.attrLen.toNat) = cstr q := cstr_take hq'
            rw [hcstr] at hiff
            simp only [hr, Option.bind_eq_bind, Option.bind_some, JoinKey.str.injEq, hiff]
        next => cases hq
      next => cases h
    next => cases h

/-! ## Tables and the multimaps they represent -/

variable {t : joinHashTbl} {es : List (JoinKey × RID)}

/-- A bucket stands for an entry of the multimap. -/
def BucketOf (attr : AttrDesc) (b : joinhashBucket) (x : JoinKey × RID) : Prop :=
  b.rid = x.2 ∧ Stores attr b.attrValue x.1

/-- The table holds the entries `es`, the one inserted last first: each chain holds those whose
index it is, in this order, and counts its buckets. -/
structure Represents (t : joinHashTbl) (es : List (JoinKey × RID)) : Prop where
  size_pos : 0 < t.HTSIZE
  length : t.ht.length = t.HTSIZE.toNat
  chain : ∀ i e, t.ht[i]? = some e → e.bucketCnt = e.chain.length ∧
    List.Forall₂ (BucketOf t.joinAttr) e.chain (es.filter fun x => x.1.index t.HTSIZE = i)

theorem represents_new (attr : AttrDesc) (hsize : 0 < HTSIZE) :
    ∃ t, new HTSIZE attr = some t ∧ t.joinAttr = attr ∧ t.HTSIZE = HTSIZE ∧ Represents t [] := by
  refine ⟨⟨attr, HTSIZE, List.replicate HTSIZE.toNat ⟨0, []⟩⟩, if_neg (by omega), rfl, rfl,
    hsize, List.length_replicate, fun i e he => ?_⟩
  have he : e = ⟨0, []⟩ := List.eq_of_mem_replicate (List.mem_of_getElem? he)
  subst he
  exact ⟨rfl, List.Forall₂.nil⟩

/-- The chain of an attribute value. -/
theorem Represents.exists_entry (h : Represents t es) (k : JoinKey) :
    ∃ e, t.entry ((k.index t.HTSIZE : Nat) : Int) = some e ∧ t.ht[k.index t.HTSIZE]? = some e := by
  have hlt : k.index t.HTSIZE < t.ht.length := by
    have := index_lt k h.size_pos
    rw [h.length]
    omega
  refine ⟨t.ht[k.index t.HTSIZE], ?_, List.getElem?_eq_getElem hlt⟩
  unfold entry
  rw [if_neg (by omega), Int.toNat_natCast]
  exact List.getElem?_eq_getElem hlt

/-- The attribute of a tuple can be stored. -/
theorem exists_stores (h : JoinKey.ofTuple attr tuple = some k) :
    ¬(attr.attrOffset < 0 ∨ tuple.length < attr.attrOffset) ∧
      ∃ value, storeValue attr (tuple.drop attr.attrOffset.toNat) = some value ∧
        JoinKey.read attr (tuple.drop attr.attrOffset.toNat) = some k := by
  unfold JoinKey.ofTuple at h
  split at h
  next hin =>
    obtain ⟨h₁, h₂, h₃⟩ := hin
    refine ⟨by omega, ?_⟩
    have hdrop : (tuple.drop attr.attrOffset.toNat).length =
        tuple.length - attr.attrOffset.toNat := List.length_drop
    have hread := h
    unfold JoinKey.read at h
    unfold storeValue
    split at h
    next htype =>
      rw [if_pos htype]
      split at h
      next hlen => exact ⟨_, if_neg (by omega), hread⟩
      next => cases h
    next htype =>
      split at h
      next hstr =>
        rw [if_neg htype, if_neg (by rw [hstr]; decide), if_pos hstr]
        exact ⟨_, if_neg (by omega), hread⟩
      next => cases h
  next => cases h

/-- `insert` adds an entry for the attribute of the tuple in front. -/
theorem Represents.insert (h : Represents t es) (rid : RID)
    (hk : JoinKey.ofTuple t.joinAttr tuple = some k) :
    ∃ t', t.insert rid tuple = some (.OK, t') ∧ t'.joinAttr = t.joinAttr ∧
      t'.HTSIZE = t.HTSIZE ∧ Represents t' ((k, rid) :: es) := by
  obtain ⟨hptr, value, hvalue, hread⟩ := exists_stores hk
  obtain ⟨e, hentry, he⟩ := h.exists_entry k
  have hindex := hash_eq hread h.size_pos
  set i := k.index t.HTSIZE with hi
  set e' : HTentry := ⟨e.bucketCnt + 1, ⟨value, rid⟩ :: e.chain⟩ with he'
  have hlt : i < t.ht.length := (List.getElem?_eq_some_iff.mp he).1
  refine ⟨{ t with ht := t.ht.set i e' }, ?_, rfl, rfl, h.size_pos, ?_, fun j c hc => ?_⟩
  · unfold joinHashTbl.insert joinAttrPtr
    rw [if_neg hptr]
    simp only [Option.bind_eq_bind, Option.bind_some, hindex, hentry, hvalue]
    rfl
  · rw [List.length_set]
    exact h.length
  · show c.bucketCnt = c.chain.length ∧ List.Forall₂ (BucketOf t.joinAttr) c.chain
      (((k, rid) :: es).filter fun x => x.1.index t.HTSIZE = j)
    by_cases hij : j = i
    · subst hij
      obtain ⟨hcnt, hchain⟩ := h.chain _ _ he
      have hc : some e' = some c := by rw [← hc, List.getElem?_set_self hlt]
      cases hc
      rw [List.filter_cons_of_pos (by simp [← hi])]
      refine ⟨by rw [he', hcnt]; rfl, List.Forall₂.cons ⟨rfl, _, hvalue, hread⟩ hchain⟩
    · rw [List.filter_cons_of_neg (by simpa [← hi] using Ne.symm hij)]
      refine h.chain j c ?_
      rw [← hc, List.getElem?_set_ne (Ne.symm hij)]

/-- The loop of `lookup` over a chain sets one element of the array for each match, in the order
of the chain, and stays within the array if that has room for them. -/
theorem lookupChain_filter {m : joinhashBucket → Bool} {chain : List joinhashBucket}
    (hm : ∀ b ∈ chain, matches? attr b.attrValue p = some (m b)) (ridCnt : Nat)
    (outRids : List (Option RID)) (hroom : ridCnt + (chain.filter m).length ≤ outRids.length) :
    ∃ out', lookupChain attr p chain ridCnt outRids = some
      (ridCnt + (chain.filter m).length, out') ∧
      out'.length = outRids.length ∧
      out'.take (ridCnt + (chain.filter m).length) =
        outRids.take ridCnt ++ (chain.filter m).map fun b => some b.rid := by
  induction chain generalizing ridCnt outRids with
  | nil => exact ⟨outRids, rfl, rfl, by simp⟩
  | cons b chain ih =>
    have hrest : ∀ b ∈ chain, matches? attr b.attrValue p = some (m b) :=
      fun b hb => hm b (List.mem_cons_of_mem _ hb)
    unfold lookupChain
    by_cases hb : m b = true
    · rw [List.filter_cons_of_pos hb, List.length_cons] at hroom ⊢
      simp only [hm b List.mem_cons_self, hb, Option.bind_eq_bind, Option.bind_some, ↓reduceIte]
      rw [if_pos (by omega)]
      obtain ⟨out', h₁, h₂, h₃⟩ := ih hrest (ridCnt + 1) (outRids.set ridCnt (some b.rid))
        (by rw [List.length_set]; omega)
      refine ⟨out', ?_, by rw [h₂, List.length_set], ?_⟩
      · rw [h₁]
        congr 2
        omega
      · rw [show ridCnt + ((chain.filter m).length + 1) = ridCnt + 1 + (chain.filter m).length by
          omega, h₃, List.map_cons]
        -- the element set in this round is the last one of the part so far
        rw [List.take_add_one, List.take_set_of_le (le_refl ridCnt),
          List.getElem?_set_self (by omega),
          Option.toList_some, List.append_assoc, List.singleton_append]
    · rw [List.filter_cons_of_neg hb] at hroom ⊢
      simp only [hm b List.mem_cons_self, hb, Option.bind_eq_bind, Option.bind_some,
        Bool.false_eq_true, ↓reduceIte]
      exact ih hrest ridCnt outRids hroom

/-- The buckets that match are those of the entries of the value. -/
theorem exists_matching (hk : JoinKey.read attr p = some k) {chain : List joinhashBucket}
    {xs : List (JoinKey × RID)} (hchain : List.Forall₂ (BucketOf attr) chain xs) :
    ∃ m : joinhashBucket → Bool, (∀ b ∈ chain, matches? attr b.attrValue p = some (m b)) ∧
      (chain.filter m).map (fun b => some b.rid) =
        (xs.filter fun x => x.1 = k).map fun x => some x.2 := by
  refine ⟨fun b => matches? attr b.attrValue p = some true, ?_⟩
  induction hchain with
  | nil => exact ⟨nofun, rfl⟩
  | @cons b x chain xs hb _ ih =>
    obtain ⟨hrid, hstores⟩ := hb
    have hm := matches?_of_stores hstores hk
    refine ⟨fun c hc => ?_, ?_⟩
    · rcases List.mem_cons.mp hc with rfl | hc
      · simp [hm]
      · exact ih.1 c hc
    · by_cases hx : x.1 = k
      · rw [List.filter_cons_of_pos (by simpa [hm] using hx),
          List.filter_cons_of_pos (by simpa using hx),
          List.map_cons, List.map_cons, hrid, ih.2]
      · rw [List.filter_cons_of_neg (by simpa [hm] using hx),
          List.filter_cons_of_neg (by simpa using hx),
          ih.2]

theorem lookupChain_spec (hk : JoinKey.read attr p = some k) {chain : List joinhashBucket}
    {xs : List (JoinKey × RID)} (hchain : List.Forall₂ (BucketOf attr) chain xs) (ridCnt : Nat)
    (outRids : List (Option RID))
    (hroom : ridCnt + (xs.filter fun x => x.1 = k).length ≤ outRids.length) :
    ∃ out', lookupChain attr p chain ridCnt outRids =
        some (ridCnt + (xs.filter fun x => x.1 = k).length, out') ∧
      out'.length = outRids.length ∧
      out'.take (ridCnt + (xs.filter fun x => x.1 = k).length) =
        outRids.take ridCnt ++ (xs.filter fun x => x.1 = k).map fun x => some x.2 := by
  obtain ⟨m, hm, hmap⟩ := exists_matching hk hchain
  have hlen : (chain.filter m).length = (xs.filter fun x => x.1 = k).length := by
    have := congrArg List.length hmap
    rwa [List.length_map, List.length_map] at this
  have h := lookupChain_filter hm ridCnt outRids (hlen.symm ▸ hroom)
  rwa [hlen, hmap] at h

/-- `lookup` finds the records of an attribute value, the one inserted last first, and allocates
room for all of them. -/
theorem Represents.lookup (h : Represents t es) (hk : JoinKey.read t.joinAttr p = some k) :
    ∃ e outRids, t.entry ((k.index t.HTSIZE : Nat) : Int) = some e ∧
      t.lookup p = some (.OK, (es.filter fun x => x.1 = k).length, outRids) ∧
      outRids.length = e.bucketCnt ∧ (es.filter fun x => x.1 = k).length ≤ e.bucketCnt ∧
      outRids.take (es.filter fun x => x.1 = k).length =
        (es.filter fun x => x.1 = k).map fun x => some x.2 := by
  obtain ⟨e, hentry, he⟩ := h.exists_entry k
  obtain ⟨hcnt, hchain⟩ := h.chain _ _ he
  -- the entries of the value are all on its chain
  have hfilter : (es.filter fun x => x.1.index t.HTSIZE = k.index t.HTSIZE).filter
      (fun x => x.1 = k) = es.filter fun x => x.1 = k := by
    rw [List.filter_filter]
    refine List.filter_congr fun x _ => ?_
    by_cases hx : x.1 = k
    · simp [hx]
    · simp [hx]
  have hle : (es.filter fun x => x.1 = k).length ≤ e.bucketCnt := by
    rw [← hfilter, hcnt, hchain.length_eq]
    exact List.length_filter_le _ _
  obtain ⟨outRids, h₁, h₂, h₃⟩ := lookupChain_spec hk hchain 0 (List.replicate e.bucketCnt none)
    (by rw [hfilter, List.length_replicate]; omega)
  rw [hfilter, Nat.zero_add] at h₁ h₃
  rw [List.length_replicate] at h₂
  refine ⟨e, outRids, hentry, ?_, h₂, hle, h₃⟩
  unfold joinHashTbl.lookup
  simp only [hash_eq hk h.size_pos, Option.bind_eq_bind, Option.bind_some, hentry, h₁]

/-! ## Runs of insertions -/

/-- The table after insertions that all return `OK`. -/
def build : joinHashTbl → List (RID × Bytes) → Option joinHashTbl
  | t, [] => some t
  | t, (newRid, tuple) :: ins => do
    let (status, t) ← t.insert newRid tuple
    if status = .OK then build t ins else none

/-- A run of insertions of tuples that have the attribute. -/
theorem Represents.build {ins : List (RID × Bytes)} (h : Represents t es)
    (hins : ∀ x ∈ ins, (JoinKey.ofTuple t.joinAttr x.2).isSome) :
    ∃ t', t.build ins = some t' ∧ t'.joinAttr = t.joinAttr ∧ t'.HTSIZE = t.HTSIZE ∧
      Represents t' ((ins.reverse.filterMap fun x =>
        (JoinKey.ofTuple t.joinAttr x.2).map fun k => (k, x.1)) ++ es) := by
  induction ins generalizing t es with
  | nil => exact ⟨t, rfl, rfl, rfl, h⟩
  | cons x ins ih =>
    obtain ⟨newRid, tuple⟩ := x
    obtain ⟨k, hk⟩ := Option.isSome_iff_exists.mp (hins _ List.mem_cons_self)
    obtain ⟨t₁, hinsert, ha₁, hs₁, hr₁⟩ := h.insert newRid hk
    obtain ⟨t', hbuild, ha', hs', hr'⟩ := ih hr₁ fun x hx => by
      rw [ha₁]
      exact hins x (List.mem_cons_of_mem _ hx)
    refine ⟨t', ?_, ha'.trans ha₁, hs'.trans hs₁, ?_⟩
    · unfold joinHashTbl.build
      simp only [hinsert, Option.bind_eq_bind, Option.bind_some, ↓reduceIte]
      exact hbuild
    · rw [ha₁] at hr'
      rw [List.reverse_cons, List.filterMap_append, List.append_assoc]
      simpa [hk] using hr'

/-- The entries of one attribute value among the insertions. -/
theorem filter_entries (attr : AttrDesc) (k : JoinKey) (ins : List (RID × Bytes)) :
    ((ins.filterMap fun x => (JoinKey.ofTuple attr x.2).map fun k => (k, x.1)).filter
      fun x => x.1 = k).map (fun x => some x.2) =
    (ins.filter fun x => JoinKey.ofTuple attr x.2 = some k).map fun x => some x.1 := by
  induction ins with
  | nil => rfl
  | cons x ins ih =>
    cases hk : JoinKey.ofTuple attr x.2 with
    | none => simpa [hk] using ih
    | some k' =>
      by_cases hkk : k' = k
      · simpa [hk, hkk] using ih
      · simpa [hk, hkk] using ih

/-- The table is a multimap: after any sequence of insertions a lookup returns `OK` and the records
of the tuples whose attribute has the value looked up, the one inserted last first. The hash index
is in range, and the records fit the array allocated for them. -/
theorem lookup_of_build (hsize : 1 ≤ HTSIZE) {ins : List (RID × Bytes)}
    (hins : ∀ x ∈ ins, (JoinKey.ofTuple attr x.2).isSome) :
    ∃ t₀ t, new HTSIZE attr = some t₀ ∧ t₀.build ins = some t ∧
      ∀ p k, JoinKey.read attr p = some k →
        ∃ index e ridCnt outRids, hash HTSIZE p attr.attrType = some index ∧
          0 ≤ index ∧ index < HTSIZE ∧ t.entry index = some e ∧
          t.lookup p = some (.OK, ridCnt, outRids) ∧
          outRids.length = e.bucketCnt ∧ ridCnt ≤ e.bucketCnt ∧
          outRids.take ridCnt = (ins.reverse.filter fun x =>
            JoinKey.ofTuple attr x.2 = some k).map fun x => some x.1 := by
  obtain ⟨t₀, hnew, ha₀, hs₀, hr₀⟩ := represents_new attr (show 0 < HTSIZE by omega)
  obtain ⟨t, hbuild, ha, hs, hr⟩ := hr₀.build (by rwa [ha₀])
  rw [ha₀] at ha hr
  rw [hs₀] at hs
  refine ⟨t₀, t, hnew, hbuild, fun p k hk => ?_⟩
  obtain ⟨e, outRids, hentry, hlookup, hlen, hle, htake⟩ := hr.lookup (by rwa [ha])
  rw [hs] at hentry
  refine ⟨_, e, _, outRids, hash_eq hk (by omega), by omega, index_lt k (by omega), hentry,
    hlookup, hlen, hle, ?_⟩
  rw [htake, List.append_nil]
  exact filter_entries attr k ins.reverse

/-- Two tuples with the same `INTEGER` attribute, the second one found first. -/
theorem lookup_of_build_twoTuples :
    ∃ t₀ t, new 3 ⟨[], [], 0, 1, 4⟩ = some t₀ ∧
      t₀.build [(⟨1, 0⟩, intBytes 7), (⟨1, 1⟩, intBytes 7)] = some t ∧
      ∃ outRids, t.lookup (intBytes 7) = some (.OK, 2, outRids) ∧
        outRids.take 2 = [some ⟨1, 1⟩, some ⟨1, 0⟩] := by
  obtain ⟨t₀, t, h₀, h, hlookup⟩ := @lookup_of_build ⟨[], [], 0, 1, 4⟩ 3 (by decide)
    [(⟨1, 0⟩, intBytes 7), (⟨1, 1⟩, intBytes 7)] (by decide)
  obtain ⟨_, e, ridCnt, outRids, -, -, -, -, hl, hlen, hle, htake⟩ :=
    hlookup (intBytes 7) (.int 7) (by decide)
  have htake : outRids.take ridCnt = [some ⟨1, 1⟩, some ⟨1, 0⟩] := htake.trans (by decide)
  have hcnt : ridCnt = 2 := by
    have := congrArg List.length htake
    rw [List.length_take, hlen] at this
    simpa [Nat.min_eq_left hle] using this
  subst hcnt
  exact ⟨t₀, t, h₀, h, outRids, hl, htake⟩

end joinHashTbl

end Minirel
