import Minirel.Catalog
import Minirel.HeapFile.Filter
import Mathlib.Data.List.TakeWhile

/-!
# Tuples of the catalogs

A tuple of a catalog starts with the name of its relation, a C string in an array of `MAXNAME`
bytes. What is behind the NUL is what happened to be in the array.

## Main definitions

* `Named`: a tuple that starts with a name.
* `RelDesc.decode`, `AttrDesc.decode`: what a tuple says, without the bytes behind the names.

## Main results

* `strcmpEq_name`, `satisfies_name`: how the catalogs look for a name.
* `RelDesc.decode_bytes`, `AttrDesc.decode_bytes`: a tuple says what has been stored in it.
-/

namespace Minirel

/-- A tuple that starts with an array of `MAXNAME` bytes, and a C string in it. -/
structure Named (b : Bytes) : Prop where
  length : MAXNAME ≤ b.length
  nul : 0 ∈ b.take MAXNAME

/-- A name that can be passed to the catalogs: a C string whose size is an `int`. -/
structure IsName (name : Bytes) : Prop where
  nul : (0 : UInt8) ∉ name
  length : name.length < 2147483647

section Strings

variable {a b name t : Bytes} {n : Nat}

theorem cstr_append (h : 0 ∈ b) : cstr (b ++ t) = cstr b := by
  rw [← cstr_take (n := b.length) (b := b ++ t), List.take_left]
  rw [List.take_left]
  exact h

/-- To tell whether a C string is a given one, its first bytes up to the length of that one, and one
more, are enough. -/
theorem cstr_take_eq_iff (hn : n = name.length + 1) (hnb : n ≤ b.length) :
    cstr (b.take n) = name ↔ cstr b = name := by
  by_cases h : 0 ∈ b.take n
  · rw [cstr_take h]
  · have hlen : (b.take n).length = n := List.length_take_of_le hnb
    constructor
    · intro he
      rw [cstr_eq_self h] at he
      rw [he] at hlen
      omega
    · -- the string goes on behind these bytes
      intro he
      have hpre : b.take n <+: cstr b := by
        conv_rhs => rw [← List.take_append_drop n b]
        unfold cstr
        rw [List.takeWhile_append_of_pos]
        · exact List.prefix_append _ _
        · exact fun x hx => decide_eq_true fun hx0 => h (hx0 ▸ hx)
      have := hpre.length_le
      rw [he] at this
      omega

/-- `strcmp` of a C string and a name. -/
theorem strcmpEq_name (hb : 0 ∈ b) (hname : (0 : UInt8) ∉ name) :
    strcmpEq (b ++ t) (name ++ [0]) = some (decide (cstr b = name)) := by
  induction b generalizing name with
  | nil => cases hb
  | cons x b ih =>
    cases name with
    | nil =>
      show (if x ≠ 0 then some false else if x = 0 then some true else _) = _
      by_cases hx : x = 0
      · rw [if_neg (not_not.mpr hx), if_pos hx, hx, cstr_cons_zero]
        rfl
      · rw [if_pos hx, cstr_cons_of_ne hx]
        rfl
    | cons y name =>
      obtain ⟨hy, hname⟩ := not_or.mp (mt List.mem_cons.mpr hname)
      show (if x ≠ y then some false else if x = 0 then some true else
        strcmpEq (b ++ t) (name ++ [0])) = _
      by_cases hxy : x = y
      · have hx : x ≠ 0 := hxy ▸ Ne.symm hy
        rw [if_neg (not_not.mpr hxy), if_neg hx,
          ih ((List.mem_cons.mp hb).resolve_left (Ne.symm hx)) hname, cstr_cons_of_ne hx]
        simp [hxy]
      · rw [if_pos hxy]
        by_cases hx : x = 0
        · rw [hx, cstr_cons_zero]
          rfl
        · rw [cstr_cons_of_ne hx]
          simp [hxy]

/-- The first bytes of a C string. -/
theorem cstr_take_eq (n : Nat) (b : Bytes) : cstr (b.take n) = (cstr b).take n := by
  induction b generalizing n with
  | nil => simp [cstr]
  | cons x b ih =>
    cases n with
    | zero => rfl
    | succ n =>
      rw [List.take_succ_cons]
      by_cases hx : x = 0
      · rw [hx, cstr_cons_zero, cstr_cons_zero, List.take_nil]
      · rw [cstr_cons_of_ne hx, cstr_cons_of_ne hx, ih, List.take_succ_cons]

theorem cSize_lt (b : Bytes) : cSize b < 2147483648 := BitVec.toInt_lt

/-- The size of a string that is not too long. -/
theorem IsName.cSize (h : IsName name) : cSize name = name.length + 1 := by
  have := h.length
  unfold Minirel.cSize
  rw [BitVec.toInt_ofNat', Nat.cast_add, Nat.cast_one]
  exact Int.bmod_eq_of_le (by omega) (by omega)

/-- The filter with which the catalogs look for a name can be evaluated. -/
theorem compares_name (hpos : 1 ≤ cSize name) : Compares 0 (cSize name) .STRING (name ++ [0]) where
  offset_nonneg := le_refl 0
  length_pos := hpos
  length_word := fun hne => absurd rfl hne
  end_lt := by have := cSize_lt name; omega
  readable := Or.inr ⟨rfl, List.mem_append_right _ List.mem_cons_self⟩

/-- What a scan for equal strings makes of the outcome of `strncmp`. -/
theorem any_holds_eq {o : Option Ordering} {P : Prop} [Decidable P]
    (h : ∃ r, o = some r ∧ (r = .eq ↔ P)) :
    (o.any fun d => Operator.EQ.holds (some d)) = decide P := by
  obtain ⟨r, rfl, hiff⟩ := h
  show Operator.EQ.holds (some r) = _
  cases r with
  | eq => exact (decide_eq_true (hiff.mp rfl)).symm
  | lt => exact (decide_eq_false fun he => nomatch hiff.mpr he).symm
  | gt => exact (decide_eq_false fun he => nomatch hiff.mpr he).symm

/-- The filter with which the catalogs look for a name is passed by the tuples of that name. -/
theorem satisfies_name (hb : Named b) (hname : IsName name) :
    satisfies 0 (name.length + 1) .STRING (some (name ++ [0])) .EQ b = decide (cstr b = name) := by
  unfold satisfies
  dsimp only
  by_cases hlen : b.length < name.length + 1
  · rw [if_pos (by omega), eq_comm, decide_eq_false_iff_not]
    -- the name is too long for the array
    intro he
    have h₁ := length_cstr_lt hb.nul
    have h₂ := hb.length
    rw [he] at h₁
    omega
  · have htoNat : ((name.length : Int) + 1).toNat = name.length + 1 := by omega
    have hle : name.length + 1 ≤ b.length := Nat.not_lt.mp hlen
    rw [if_neg (by omega), htoNat]
    have hdrop : List.drop (Int.toNat 0) b = b := rfl
    rw [hdrop]
    refine any_holds_eq ?_
    obtain ⟨r, hr, hiff⟩ := strncmp_eq_iff (f := fun i => (b.take (name.length + 1))[i]?)
      (g := fun i => (name ++ [0])[i]?) (name.length + 1) 0 (b.take (name.length + 1)) (name ++ [0])
      (fun j => by rw [Nat.zero_add]) (fun j => by rw [Nat.zero_add])
      (Or.inr (List.length_take_of_le hle).ge)
      (by rw [List.take_of_length_le (by simp)]; exact List.mem_append_right _ List.mem_cons_self)
    rw [cstr_append_zero name [] hname.nul, cstr_take_eq_iff rfl hle] at hiff
    exact ⟨r, hr, hiff⟩

/-- A filter that is shorter than the name is passed by the tuples whose name starts with these
characters. -/
theorem satisfies_prefix (hname : (0 : UInt8) ∉ name) (hn : n ≤ name.length) :
    satisfies 0 n .STRING (some (name ++ [0])) .EQ b = decide (name.take n <+: cstr b) := by
  have htake : (name.take n).length = n := List.length_take_of_le hn
  unfold satisfies
  dsimp only
  rw [zero_add]
  by_cases hlen : b.length < n
  · rw [if_pos (by omega), eq_comm, decide_eq_false_iff_not]
    intro hpre
    have h₁ := hpre.length_le
    have h₂ : (cstr b).length ≤ b.length := (List.takeWhile_sublist _).length_le
    omega
  · rw [if_neg (by omega), Int.toNat_natCast]
    have hdrop : List.drop (Int.toNat 0) b = b := rfl
    rw [hdrop]
    refine any_holds_eq ?_
    obtain ⟨r, hr, hiff⟩ := strncmp_eq_take_iff (f := fun i => (b.take n)[i]?)
      (g := fun i => (name ++ [0])[i]?) n 0 (b.take n) (name ++ [0]) (fun j => by rw [Nat.zero_add])
      (fun j => by rw [Nat.zero_add]) (Or.inr (List.length_take_of_le (not_lt.mp hlen)).ge)
      (Or.inr (by rw [List.length_append]; omega))
    refine ⟨r, hr, hiff.trans ?_⟩
    rw [List.take_take, min_self, cstr_take_eq, List.take_append_of_le_length hn,
      cstr_eq_self fun h => hname (List.mem_of_mem_take h), List.prefix_iff_eq_take, htake, eq_comm]

end Strings

/-- The range of an `int`. -/
def IsInt (n : Int) : Prop := -2147483648 ≤ n ∧ n < 2147483648

theorem IsInt.toInt_eq {n : Int} (h : IsInt n) : toInt n = n := Minirel.toInt_eq h.1 h.2

/-! ## `RelDesc` -/

namespace RelDesc

/-- The name is in an array of `MAXNAME` bytes. -/
def Sized (d : RelDesc) : Prop := d.relName.length = MAXNAME

/-- A descriptor of zero bytes. -/
def zero : RelDesc := ⟨List.replicate MAXNAME 0, 0⟩

theorem sized_zero : zero.Sized := rfl

/-- What a tuple of `relcat` says. -/
def decode (b : Bytes) : RelDesc := ⟨cstr b, (ofBytes b).attrCnt⟩

variable {d : RelDesc}

theorem length_bytes (h : d.Sized) : d.bytes.length = 36 := by
  unfold bytes
  rw [List.length_append, h, length_intBytes]
  rfl

/-- A descriptor is recovered from its bytes. -/
theorem ofBytes_bytes (h : d.Sized) (hn : IsInt d.attrCnt) : ofBytes d.bytes = d := by
  unfold ofBytes bytes
  rw [List.take_left' h, List.drop_left' h, ← List.append_nil (intBytes _),
    intOfBytes_intBytes_append, hn.toInt_eq]

theorem named_bytes (h : d.Sized) (h0 : 0 ∈ d.relName) : Named d.bytes where
  length := by
    rw [length_bytes h]
    decide
  nul := by
    unfold bytes
    rw [List.take_left' h]
    exact h0

theorem decode_bytes (h : d.Sized) (h0 : 0 ∈ d.relName) (hn : IsInt d.attrCnt) :
    decode d.bytes = ⟨cstr d.relName, d.attrCnt⟩ := by
  unfold decode
  rw [ofBytes_bytes h hn]
  unfold bytes
  rw [cstr_append h0]

end RelDesc

/-! ## `AttrDesc` -/

namespace AttrDesc

/-- The names are in arrays of `MAXNAME` bytes. -/
structure Sized (d : AttrDesc) : Prop where
  relName : d.relName.length = MAXNAME
  attrName : d.attrName.length = MAXNAME

/-- A descriptor of zero bytes. -/
def zero : AttrDesc := ⟨List.replicate MAXNAME 0, List.replicate MAXNAME 0, 0, 0, 0⟩

theorem sized_zero : zero.Sized := ⟨rfl, rfl⟩

/-- The numbers are in the range of an `int`. -/
structure Ints (d : AttrDesc) : Prop where
  offset : IsInt d.attrOffset
  type : IsInt d.attrType
  length : IsInt d.attrLen

/-- The names as C strings. -/
def strings (d : AttrDesc) : AttrDesc :=
  { d with relName := cstr d.relName, attrName := cstr d.attrName }

/-- What a tuple of `attrcat` says. -/
def decode (b : Bytes) : AttrDesc := (ofBytes b).strings

variable {d : AttrDesc}

theorem length_bytes (h : d.Sized) : d.bytes.length = 76 := by
  unfold bytes
  simp only [List.length_append, h.relName, h.attrName, length_intBytes]
  rfl

/-- A descriptor is recovered from its bytes. -/
theorem ofBytes_bytes (h : d.Sized) (hn : d.Ints) : ofBytes d.bytes = d := by
  have hrest : d.bytes.drop MAXNAME =
      d.attrName ++ (intBytes d.attrOffset ++ (intBytes d.attrType ++ intBytes d.attrLen)) := by
    unfold bytes
    rw [List.append_assoc, List.append_assoc, List.append_assoc, List.drop_left' h.relName]
  have hnums : d.bytes.drop (2 * MAXNAME) =
      intBytes d.attrOffset ++ (intBytes d.attrType ++ intBytes d.attrLen) := by
    rw [two_mul, ← List.drop_drop, hrest, List.drop_left' h.attrName]
  have htype : d.bytes.drop (2 * MAXNAME + 4) = intBytes d.attrType ++ intBytes d.attrLen := by
    rw [← List.drop_drop, hnums, List.drop_left' (length_intBytes _)]
  have hlen : d.bytes.drop (2 * MAXNAME + 8) = intBytes d.attrLen := by
    rw [show 2 * MAXNAME + 8 = 2 * MAXNAME + 4 + 4 from rfl, ← List.drop_drop, htype,
      List.drop_left' (length_intBytes _)]
  have hname : d.bytes.take MAXNAME = d.relName := by
    unfold bytes
    rw [List.append_assoc, List.append_assoc, List.append_assoc, List.take_left' h.relName]
  unfold ofBytes
  rw [hname, hrest, hnums, htype, hlen, List.take_left' h.attrName, intOfBytes_intBytes_append,
    intOfBytes_intBytes_append, ← List.append_nil (intBytes d.attrLen), intOfBytes_intBytes_append,
    hn.offset.toInt_eq, hn.type.toInt_eq, hn.length.toInt_eq]

theorem named_bytes (h : d.Sized) (h0 : 0 ∈ d.relName) : Named d.bytes where
  length := by
    rw [length_bytes h]
    decide
  nul := by
    unfold bytes
    rw [List.append_assoc, List.append_assoc, List.append_assoc, List.take_left' h.relName]
    exact h0

theorem decode_bytes (h : d.Sized) (hn : d.Ints) : decode d.bytes = d.strings := by
  unfold decode
  rw [ofBytes_bytes h hn]

/-- The first name of a tuple is its relation name. -/
theorem relName_decode {b : Bytes} (hb : Named b) : (decode b).relName = cstr b := cstr_take hb.nul

end AttrDesc

/-- What `strcpy` leaves in an array is a C string. -/
theorem strcpy_spec {dst src a : Bytes} (h : strcpy dst src = some a) (hsrc : (0 : UInt8) ∉ src) :
    a.length = dst.length ∧ 0 ∈ a ∧ cstr a = src := by
  unfold strcpy at h
  split at h
  next hlt =>
    cases h
    refine ⟨?_, List.mem_append_right _ List.mem_cons_self, cstr_append_zero _ _ hsrc⟩
    rw [List.length_append, List.length_cons, List.length_drop]
    omega
  next => cases h

/-- A name that fits into an array can be copied there. -/
theorem strcpy_of_lt {dst src : Bytes} (h : src.length < dst.length) :
    ∃ a, strcpy dst src = some a := by
  unfold strcpy
  rw [if_pos h]
  exact ⟨_, rfl⟩

end Minirel
