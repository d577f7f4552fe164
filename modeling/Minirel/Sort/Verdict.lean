import Minirel.Sort.Key
import Minirel.HeapFile.Predicate

/-!
# The two comparisons

The sort compares strings with `memcmp`, and a scan with `strncmp`, which stops at a common NUL.
What follows the NUL of a shorter string decides the order of the sort, and a scan does not see it.

## Main definitions

* `MatchAnswers`: the answer of `matchRec` to a record with a given field.
* `SameVerdict`: `reccmp` and `matchRec` agree on two fields.
* `Alike`: the fields are not two arrays with the same string in them.

## Main results

* `sameVerdict_iff`: the two comparisons agree on such fields, and on no others. In a sorted
  sequence of such fields those that a scan takes to be equal are next to each other.
-/

namespace Minirel

open Comp SortedFile HeapFileScan

/-- `matchRec` gives the answer `v` for each record with the field `p`, wherever it is, in a scan
with the filter `q`. -/
def MatchAnswers (length : Int) (type : Datatype) (op : Operator) (p q : Bytes) (v : Bool) : Prop :=
  ∀ (s : Sys) (h : HeapFileScan) (filter : CharPtr) (offset : Int) (page : Page) (rec : PageRecord)
    (b : Bytes), 0 ≤ offset → offset + length ≤ b.length → (b.length : Int) ≤ DATASIZE →
    sortField offset length b = p → page.Holds rec b →
    (∀ i < length.toNat, s.charAt filter i = q[i]?) →
    Yields (matchRec (startScan h offset length type (some filter) op).2 page rec) s v false s

/-- `reccmp` is negative, zero or positive exactly if a scan finds the field less than the filter,
equal to it or greater. -/
def SameVerdict (length : Int) (type : Datatype) (p q : Bytes) : Prop :=
  ∃ c, reccmp p q length length type = some c ∧
    MatchAnswers length type .LT p q (decide (c < 0)) ∧
    MatchAnswers length type .EQ p q (decide (c = 0)) ∧
    MatchAnswers length type .GT p q (decide (0 < c))

/-- Strings that are equal up to the first NUL are equal behind it too. -/
def Alike (type : Datatype) (p q : Bytes) : Prop := type = .STRING → cstr p = cstr q → p = q

/-- Two numbers whose difference has the wrong sign whichever of them comes first. -/
def Opposite (type : Datatype) (p q : Bytes) : Prop :=
  type = .INTEGER ∧ toInt (intOfBytes p - intOfBytes q) = -2147483648

/-- A field that may come before another one in a sorted file. -/
def NotAfter (length : Int) (type : Datatype) (p q : Bytes) : Prop :=
  ∃ c, reccmp p q length length type = some c ∧ c ≤ 0

/-! ## `strncmp` and `memcmp` -/

/-- `strncmp` finds the first place where the strings differ, as `memcmp` does, unless both have
ended before. -/
theorem strncmp_memcmp (n i : Nat) {f g : Nat → Option UInt8} {a b : Bytes} (ha : a.length = n)
    (hb : b.length = n) (hf : ∀ j < n, f (i + j) = a[j]?) (hg : ∀ j < n, g (i + j) = b[j]?) :
    ∃ o, strncmp f g n i = some o ∧ (cstr a = cstr b → o = .eq) ∧
      (cstr a ≠ cstr b → memcmp n a b = some o) := by
  induction n generalizing i a b with
  | zero =>
    rw [List.length_eq_zero_iff.mp ha, List.length_eq_zero_iff.mp hb]
    exact ⟨.eq, rfl, fun _ => rfl, fun _ => rfl⟩
  | succ n ih =>
    obtain ⟨x, a, rfl⟩ := List.exists_cons_of_length_eq_add_one ha
    obtain ⟨y, b, rfl⟩ := List.exists_cons_of_length_eq_add_one hb
    have hfx : f i = some x := hf 0 (Nat.succ_pos n)
    have hgy : g i = some y := hg 0 (Nat.succ_pos n)
    unfold strncmp memcmp
    simp only [hfx, hgy, Option.bind_eq_bind, Option.bind_some]
    by_cases hxy : x = y
    · subst hxy
      rw [if_neg (not_not.mpr rfl), if_pos rfl]
      by_cases hx : x = 0
      · -- a common NUL
        rw [if_pos hx, hx, cstr_cons_zero, cstr_cons_zero]
        exact ⟨.eq, rfl, fun _ => rfl, fun hne => absurd rfl hne⟩
      · obtain ⟨o, ho, heq, hne⟩ := ih (i + 1) (Nat.succ.inj ha) (Nat.succ.inj hb)
          (fun j hj => by rw [Nat.add_assoc,
          Nat.add_comm 1]; exact hf (j + 1) (Nat.succ_lt_succ hj))
          fun j hj => by rw [Nat.add_assoc, Nat.add_comm 1]; exact hg (j + 1) (Nat.succ_lt_succ hj)
        rw [if_neg hx, cstr_cons_of_ne hx, cstr_cons_of_ne hx]
        refine ⟨o, ho, fun h => heq (List.cons.inj h).2, fun h => hne fun h' => h (by rw [h'])⟩
    · rw [if_pos hxy, if_neg hxy]
      exact ⟨_, rfl, fun h => absurd h (cstr_cons_ne hxy a b), fun _ => rfl⟩

/-! ## The verdicts -/

section Verdict

variable {length : Int} {type : Datatype} {op : Operator} {p q r : Bytes} {v v' : Bool}

/-- A record that is nothing but the field, at the end of a page, in a scan with the filter in the
memory of the client. -/
theorem MatchAnswers.plain (hlen : 1 ≤ length) (hp : (p.length : Int) = length)
    (hsize : length ≤ DATASIZE) (h : MatchAnswers length type op p q v) :
    Yields (matchRec (startScan plainScan 0 length type (some (.client q)) op).2 (Page.atEnd p)
      (Page.lastRecord p)) oneFrame v false oneFrame := by
  have hp' : (p.length : Int) ≤ 1004 := hp ▸ hsize
  refine h oneFrame plainScan (.client q) 0 _ _ p (le_refl 0) (by omega) hp' ?_
    (Page.holds_atEnd hp') fun _ _ => rfl
  unfold sortField
  rw [Int.toNat_zero, List.drop_zero, List.take_of_length_le (by omega)]

/-- There is at most one answer. -/
theorem MatchAnswers.unique (hlen : 1 ≤ length) (hp : (p.length : Int) = length)
    (hsize : length ≤ DATASIZE) (h : MatchAnswers length type op p q v)
    (h' : MatchAnswers length type op p q v') : v = v' :=
  ((h'.plain hlen hp hsize).unique (h.plain hlen hp hsize)).1

/-- The answers of a scan for the three operators. -/
theorem exists_verdict (hlen : 1 ≤ length) (hword : type = .INTEGER → length = 4)
    (hfloat : type ≠ .FLOAT) (hp : (p.length : Int) = length) (hq : (q.length : Int) = length) :
    ∃ o, (∀ op, MatchAnswers length type op p q (op.holds (some o))) ∧
      (type = .INTEGER → o = compare (toInt (intOfBytes p - intOfBytes q)) 0) ∧
      (type = .STRING → (cstr p = cstr q → o = .eq) ∧
        (cstr p ≠ cstr q → memcmp length.toNat p q = some o)) := by
  have hwords : type ≠ .STRING → length = 4 := fun hs => hword (by
    cases type with
    | STRING => exact absurd rfl hs
    | INTEGER => rfl
    | FLOAT => exact absurd rfl hfloat)
  have htake : q.take length.toNat = q := List.take_of_length_le (by omega)
  -- the answer of `matchRec` is that of the predicate
  have hanswer (o : Ordering) (ho : ∀ op offset b, offset + length ≤ (b.length : Int) →
      sortField offset length b = p →
      satisfies offset length type (some q) op b = op.holds (some o)) (op : Operator) :
      MatchAnswers length type op p q (op.holds (some o)) := by
    intro s h filter offset page rec b hoff hend hb hfield hrec hval
    unfold DATASIZE at hb
    rw [startScan_some hoff hlen hwords, ← ho op offset b hend hfield]
    refine yields_matchRec rfl hoff hlen ?_ (Or.inl ?_) hval hrec
    · dsimp only
      omega
    · dsimp only
      omega
  cases htype : type with
  | INTEGER =>
    refine ⟨_, htype ▸ hanswer _ fun op offset b hend hfield => ?_, fun _ => rfl, nofun⟩
    unfold satisfies
    dsimp only
    rw [htype, if_neg (not_lt.mpr hend)]
    dsimp only
    rw [htake, ← hfield]
    rfl
  | FLOAT => exact absurd htype hfloat
  | STRING =>
    obtain ⟨o, ho, heq, hne⟩ := strncmp_memcmp length.toNat 0 (a := p) (b := q) (f := (p[·]?))
      (g := (q[·]?)) (by omega) (by omega) (fun j _ => by rw [Nat.zero_add]) fun j _ => by
        rw [Nat.zero_add]
    refine ⟨o, htype ▸ hanswer _ fun op offset b hend hfield => ?_, nofun, fun _ => ⟨heq, hne⟩⟩
    unfold satisfies
    dsimp only
    rw [htype, if_neg (not_lt.mpr hend)]
    dsimp only
    unfold sortField at hfield
    rw [hfield, ho]
    rfl

/-- `reccmp` for two fields of the length. -/
theorem exists_reccmp (hword : type = .INTEGER → length = 4) (hfloat : type ≠ .FLOAT)
    (hp : (p.length : Int) = length) (hq : (q.length : Int) = length) :
    ∃ c, reccmp p q length length type = some c ∧
      (type = .INTEGER → (c < 0 ↔ toInt (intOfBytes p - intOfBytes q) < 0) ∧
        (c = 0 ↔ toInt (intOfBytes p - intOfBytes q) = 0)) ∧
      (type = .STRING → ∃ o, memcmp length.toNat p q = some o ∧ (c < 0 ↔ o = .lt) ∧
        (c = 0 ↔ o = .eq) ∧
        (o = .lt ↔ p.map (fun c => (c.toNat : Int)) < q.map fun c => (c.toNat : Int)) ∧
        (o = .eq ↔ p.map (fun c => (c.toNat : Int)) = q.map fun c => (c.toNat : Int))) := by
  cases htype : type with
  | INTEGER =>
    have h4 := hword htype
    obtain ⟨c, hc, hlt, heq⟩ := reccmp_integer length length (show 4 ≤ p.length by omega)
      (show 4 ≤ q.length by omega)
    exact ⟨c, hc, fun _ => ⟨hlt, heq⟩, nofun⟩
  | FLOAT => exact absurd htype hfloat
  | STRING =>
    obtain ⟨o, ho, hlt, heq⟩ := memcmp_spec length.toNat (show p.length = length.toNat by omega)
      (show q.length = length.toNat by omega)
    obtain ⟨c, hc, hclt, hceq⟩ := reccmp_string ho
    exact ⟨c, hc, nofun, fun _ => ⟨o, ho, hclt, hceq, hlt, heq⟩⟩

theorem map_toNat_inj :
    p.map (fun c => (c.toNat : Int)) = q.map (fun c => (c.toNat : Int)) ↔ p = q :=
  (List.map_injective_iff.mpr fun _ _ h => UInt8.toNat_inj.mp (Int.ofNat.inj h)).eq_iff

/-- The two comparisons agree exactly if what `strncmp` and `memcmp` find is the same. -/
theorem sameVerdict_iff_alike (hlen : 1 ≤ length) (hsize : length ≤ DATASIZE)
    (hword : type = .INTEGER → length = 4) (hfloat : type ≠ .FLOAT) (hp : (p.length : Int) = length)
    (hq : (q.length : Int) = length) : SameVerdict length type p q ↔ Alike type p q := by
  obtain ⟨o, hmatch, hint, hstr⟩ := exists_verdict hlen hword hfloat hp hq
  obtain ⟨c, hc, hcint, hcstr⟩ := exists_reccmp hword hfloat hp hq
  -- the answers are those that `reccmp` asks for, if the signs are the same
  have hsigns : SameVerdict length type p q ↔ (c < 0 ↔ o = .lt) ∧ (c = 0 ↔ o = .eq) := by
    constructor
    · rintro ⟨c', hc', hlt, heq, -⟩
      rw [hc] at hc'
      cases hc'
      have h₁ := hlt.unique hlen hp hsize (hmatch .LT)
      have h₂ := heq.unique hlen hp hsize (hmatch .EQ)
      unfold Operator.holds at h₁ h₂
      rw [decide_eq_decide, Option.some.injEq] at h₁ h₂
      exact ⟨h₁, h₂⟩
    · rintro ⟨hlt, heq⟩
      have hgt : 0 < c ↔ o = .gt := by
        cases o with
        | lt => exact iff_of_false (by have := hlt.mpr rfl; omega) nofun
        | eq => exact iff_of_false (by have := heq.mpr rfl; omega) nofun
        | gt =>
          have h₁ := mt hlt.mp nofun
          have h₂ := mt heq.mp nofun
          exact iff_of_true (by omega) rfl
      have h₁ := hmatch .LT
      have h₂ := hmatch .EQ
      have h₃ := hmatch .GT
      unfold Operator.holds at h₁ h₂ h₃
      simp only [Option.some.injEq] at h₁ h₂ h₃
      exact ⟨c, hc, by simpa only [hlt] using h₁, by simpa only [heq] using h₂,
        by simpa only [hgt] using h₃⟩
  rw [hsigns]
  cases htype : type with
  | INTEGER =>
    obtain ⟨hlt, heq⟩ := hcint htype
    rw [hlt, heq, hint htype]
    exact iff_of_true ⟨Int.compare_eq_lt.symm, Int.compare_eq_eq.symm⟩ nofun
  | FLOAT => exact absurd htype hfloat
  | STRING =>
    obtain ⟨heq, hne⟩ := hstr htype
    obtain ⟨o', ho', hclt, hceq, -, hkey⟩ := hcstr htype
    rw [map_toNat_inj] at hkey
    by_cases hcstr : cstr p = cstr q
    · -- a scan sees no difference
      have ho := heq hcstr
      rw [hceq, hclt, ho, hkey]
      constructor
      · rintro ⟨-, h⟩ - -
        exact h.mpr rfl
      · intro h
        have hpq := h rfl hcstr
        rw [hkey.mpr hpq]
        exact ⟨Iff.rfl, iff_of_true hpq rfl⟩
    · have hsame := hne hcstr
      rw [ho'] at hsame
      cases hsame
      exact iff_of_true ⟨hclt, hceq⟩ fun _ h => absurd h hcstr

theorem toInt_sub_eq_zero {x y : Int} (hx : -2147483648 ≤ x ∧ x < 2147483648)
    (hy : -2147483648 ≤ y ∧ y < 2147483648) : toInt (x - y) = 0 ↔ x = y := by
  unfold toInt
  omega

/-- Differences that have wrapped are not positive in both directions only if they are zero or half
the range of an `int`. -/
theorem toInt_sub_between {x z : Int} (h₁ : toInt (x - z) ≤ 0) (h₂ : toInt (z - x) ≤ 0)
    (hne : toInt (x - z) ≠ -2147483648) : toInt (x - z) = 0 ∧ toInt (z - x) = 0 := by
  unfold toInt at *
  omega

theorem nonpos_of_signs {c t : Int} (hlt : c < 0 ↔ t < 0) (heq : c = 0 ↔ t = 0) (hc : c ≤ 0) :
    t ≤ 0 := by
  omega

/-- A field between two equal ones is equal to them. -/
theorem reccmp_between (hword : type = .INTEGER → length = 4) (hfloat : type ≠ .FLOAT)
    (hp : (p.length : Int) = length) (hq : (q.length : Int) = length)
    (hr : (r.length : Int) = length) (hpq : reccmp p q length length type = some 0)
    (hpr : NotAfter length type p r) (hrq : NotAfter length type r q) (hopp : ¬Opposite type p r) :
    reccmp p r length length type = some 0 ∧ reccmp r q length length type = some 0 := by
  obtain ⟨c₁, h₁, hle₁⟩ := hpr
  obtain ⟨c₂, h₂, hle₂⟩ := hrq
  obtain ⟨c, hc, hint, hstr⟩ := exists_reccmp hword hfloat hp hq
  obtain ⟨c₁', hc₁, hint₁, hstr₁⟩ := exists_reccmp hword hfloat hp hr
  obtain ⟨c₂', hc₂, hint₂, hstr₂⟩ := exists_reccmp hword hfloat hr hq
  rw [hpq] at hc
  rw [h₁] at hc₁
  rw [h₂] at hc₂
  cases hc
  cases hc₁
  cases hc₂
  rw [h₁, h₂, Option.some.injEq, Option.some.injEq]
  cases htype : type with
  | INTEGER =>
    have hpq := (toInt_sub_eq_zero (intOfBytes_range p) (intOfBytes_range q)).mp
      ((hint htype).2.mp rfl)
    obtain ⟨hlt₁, heq₁⟩ := hint₁ htype
    obtain ⟨hlt₂, heq₂⟩ := hint₂ htype
    rw [heq₁, heq₂]
    rw [← hpq] at hlt₂ heq₂ ⊢
    exact toInt_sub_between (nonpos_of_signs hlt₁ heq₁ hle₁) (nonpos_of_signs hlt₂ heq₂ hle₂)
      fun h => hopp ⟨htype, h⟩
  | FLOAT => exact absurd htype hfloat
  | STRING =>
    obtain ⟨o, -, -, heq, -, hkey⟩ := hstr htype
    obtain ⟨o₁, -, hlt₁, heq₁, hkey₁, hkey₁'⟩ := hstr₁ htype
    obtain ⟨o₂, -, hlt₂, heq₂, hkey₂, hkey₂'⟩ := hstr₂ htype
    have hpq := map_toNat_inj.mp (hkey.mp (heq.mp rfl))
    subst hpq
    rw [heq₁, hkey₁', heq₂, hkey₂']
    rcases Int.lt_or_eq_of_le hle₁ with hn₁ | hz₁
    · rcases Int.lt_or_eq_of_le hle₂ with hn₂ | hz₂
      · exact absurd (hkey₁.mp (hlt₁.mp hn₁)) (lt_asymm (hkey₂.mp (hlt₂.mp hn₂)))
      · have := hkey₂'.mp (heq₂.mp hz₂)
        exact ⟨this.symm, this⟩
    · have := hkey₁'.mp (heq₁.mp hz₁)
      exact ⟨this, this.symm⟩

/-- For all fields of one type and length: the sort and a scan give the same verdict on two of them
exactly if they are alike, that is, if they do not hold the same string and differ behind its NUL.
In a sequence of such fields in the order of `reccmp`, fields that a scan takes to be equal are
equal for `reccmp`, and so is what stands between them, as long as no two numbers differ by half the
range of an `int`; with two that do, there are sequences in which equal numbers are apart. -/
theorem sameVerdict_iff (hlen : 1 ≤ length) (hsize : length ≤ DATASIZE)
    (hword : type = .INTEGER → length = 4) (hfloat : type ≠ .FLOAT) :
    (∀ p q : Bytes, (p.length : Int) = length → (q.length : Int) = length →
      (SameVerdict length type p q ↔ Alike type p q)) ∧
    (∀ l : List Bytes, (∀ p ∈ l, (p.length : Int) = length) → l.Pairwise (NotAfter length type) →
      (∀ p ∈ l, ∀ q ∈ l, Alike type p q ∧ ¬Opposite type p q) →
      ∀ l₁ p l₂ q l₃, l = l₁ ++ p :: (l₂ ++ q :: l₃) → MatchAnswers length type .EQ p q true →
        reccmp p q length length type = some 0 ∧ ∀ r ∈ l₂,
          reccmp p r length length type = some 0 ∧ MatchAnswers length type .EQ r q true) ∧
    ∀ p q : Bytes, (p.length : Int) = length → (q.length : Int) = length → Opposite type p q →
      [p, q, p].Pairwise (NotAfter length type) ∧ MatchAnswers length type .EQ p p true ∧
        MatchAnswers length type .EQ q p false := by
  have hsame {p q : Bytes} (hp : (p.length : Int) = length) (hq : (q.length : Int) = length) :
      SameVerdict length type p q ↔ Alike type p q :=
    sameVerdict_iff_alike hlen hsize hword hfloat hp hq
  refine ⟨fun p q => hsame, ?_, ?_⟩
  · rintro l hl hsorted hcond l₁ p l₂ q l₃ rfl hmatch
    have hpl : p ∈ l₁ ++ p :: (l₂ ++ q :: l₃) := by simp
    have hql : q ∈ l₁ ++ p :: (l₂ ++ q :: l₃) := by simp
    have hp := hl p hpl
    have hq := hl q hql
    obtain ⟨c, hc, -, heq, -⟩ := (hsame hp hq).mpr (hcond p hpl q hql).1
    have hzero := hmatch.unique hlen hp hsize heq
    rw [eq_comm, decide_eq_true_eq] at hzero
    subst hzero
    refine ⟨hc, fun r hr => ?_⟩
    have hrl : r ∈ l₁ ++ p :: (l₂ ++ q :: l₃) := by simp [hr]
    -- the field stands between the two
    have htail := (List.pairwise_append.mp hsorted).2.1
    have hpr : NotAfter length type p r :=
      (List.pairwise_cons.mp htail).1 r (List.mem_append_left _ hr)
    have hrq : NotAfter length type r q :=
      (List.pairwise_append.mp (List.pairwise_cons.mp htail).2).2.2 r hr q List.mem_cons_self
    obtain ⟨h₁, h₂⟩ := reccmp_between hword hfloat hp hq (hl r hrl) hc hpr hrq (hcond p hpl r hrl).2
    obtain ⟨c', hc', -, heq', -⟩ := (hsame (hl r hrl) hq).mpr (hcond r hrl q hql).1
    rw [h₂] at hc'
    cases hc'
    exact ⟨h₁, heq'⟩
  · rintro p q hp hq ⟨rfl, hopp⟩
    have hx := intOfBytes_range p
    have hy := intOfBytes_range q
    have halike (a b : Bytes) : Alike .INTEGER a b := nofun
    obtain ⟨c, hc, hint, -⟩ := exists_reccmp hword hfloat hp hq
    obtain ⟨c', hc', hint', -⟩ := exists_reccmp hword hfloat hq hp
    obtain ⟨c₀, hc₀, hint₀, -⟩ := exists_reccmp hword hfloat hp hp
    have hneg : c < 0 := (hint rfl).1.mpr (by
      rw [hopp]
      decide)
    have hneg' : c' < 0 := (hint' rfl).1.mpr (by
      unfold toInt at hopp ⊢
      omega)
    have hzero : c₀ = 0 := (hint₀ rfl).2.mpr (by
      rw [sub_self]
      rfl)
    refine ⟨?_, ?_, ?_⟩
    · simp only [List.pairwise_cons, List.mem_cons, List.not_mem_nil, or_false, forall_eq_or_imp,
        forall_eq, List.Pairwise.nil, and_true, IsEmpty.forall_iff, implies_true]
      exact ⟨⟨⟨c, hc, hneg.le⟩, c₀, hc₀, hzero.le⟩, c', hc', hneg'.le⟩
    · obtain ⟨d, hd, -, heq, -⟩ := (hsame hp hp).mpr (halike p p)
      rw [hc₀] at hd
      cases hd
      rwa [decide_eq_true hzero] at heq
    · obtain ⟨d, hd, -, heq, -⟩ := (hsame hq hp).mpr (halike q p)
      rw [hc'] at hd
      cases hd
      rwa [decide_eq_false (by omega)] at heq

end Verdict

/-! ### Strings of three bytes -/

/-- Two strings that differ before their NUL. -/
theorem sameVerdict_iff_three : SameVerdict 3 .STRING [97, 0, 1] [98, 0, 0] := by
  have hverdict := sameVerdict_iff (show (1 : Int) ≤ 3 by decide)
    (show (3 : Int) ≤ DATASIZE by decide)
    (show Datatype.STRING = .INTEGER → (3 : Int) = 4 from nofun) nofun
  exact (hverdict.1 [97, 0, 1] [98, 0, 0] rfl rfl).mpr fun _ h => absurd h (by decide)

/-- The string `[97]` twice, with different bytes behind the NUL: the sort puts one before the
other, and a scan takes them to be equal. -/
theorem not_sameVerdict_padding : ¬SameVerdict 3 .STRING [97, 0, 1] [97, 0, 2] := by
  have hiff : SameVerdict 3 .STRING [97, 0, 1] [97, 0, 2] ↔ Alike .STRING [97, 0, 1] [97, 0, 2] :=
    sameVerdict_iff_alike (by decide) (by decide) nofun nofun rfl rfl
  exact fun h => absurd (hiff.mp h rfl (by decide)) (by decide)

end Minirel
