import Mathlib.Data.List.TakeWhile
import Mathlib.Tactic.NormNum
import Mathlib.Tactic.Linarith

/-!
# Status codes, machine integers and C strings

The vocabulary shared by all layers of Minirel: the status codes of `error.h`, record
identifiers, the two widths of machine integers that the page layout uses, and the C library's
string functions on byte lists.

Reading past the end of a byte list is undefined behavior in the source; the functions that can
do so return `none` there.
-/

namespace Minirel

/-- A stretch of memory, byte by byte. -/
abbrev Bytes := List UInt8

/-- A `std::string` used as the name of a Unix file. -/
abbrev FileName := Bytes

/-- The status codes of `error.h` that the modeled functions return. -/
inductive Status
  | OK
  | BADFILEPTR | BADFILE | FILEOPEN | FILENOTOPEN | UNIXERR | BADPAGEPTR | BADPAGENO | FILEEXISTS
  | HASHTBLERROR | HASHNOTFOUND | BUFFEREXCEEDED | PAGENOTPINNED | BADBUFFER | PAGEPINNED
  | NOSPACE | NORECORDS | ENDOFPAGE | INVALIDSLOTNO | INVALIDRECLEN
  | BADSCANPARM | FILEEOF
  | BADSORTPARM | INSUFMEM
  | BADCATPARM | RELNOTFOUND | ATTRNOTFOUND | NAMETOOLONG | RELEXISTS
  | ATTRTYPEMISMATCH
  deriving DecidableEq, Repr

/-- `struct RID`: the page and the slot of a record. -/
structure RID where
  /-- Number of the page. -/
  pageNo : Int
  /-- Number of the slot on the page, from `0`. -/
  slotNo : Int
  deriving DecidableEq, Repr

/-- `NULLRID`, the position of a scan that has not returned a record. -/
def NULLRID : RID := ⟨-1, -1⟩

/-! ## Machine integers -/

/-- The value of a `short` after an assignment of `v`. -/
def toShort (v : Int) : Int := (v + 32768) % 65536 - 32768

/-- The value of an `int` after an operation with exact result `v`, overflow wrapping. -/
def toInt (v : Int) : Int := (v + 2147483648) % 4294967296 - 2147483648

theorem toShort_eq {v : Int} (hlo : -32768 ≤ v) (hhi : v < 32768) : toShort v = v := by
  unfold toShort
  omega

theorem toInt_eq {v : Int} (hlo : -2147483648 ≤ v) (hhi : v < 2147483648) : toInt v = v := by
  unfold toInt
  omega

theorem toInt_range (v : Int) : -2147483648 ≤ toInt v ∧ toInt v < 2147483648 := by
  unfold toInt
  omega

/-- A sum that has wrapped may be computed with further. -/
theorem toInt_toInt_sub (v w : Int) : toInt (toInt v - w) = toInt (v - w) := by
  unfold toInt
  omega

/-- The byte of weight `w` in the two's complement representation of `v`. -/
def byteOf (v w : Int) : UInt8 := UInt8.ofNat (v / w % 256).toNat

theorem toNat_byteOf (v w : Int) : ((byteOf v w).toNat : Int) = v / w % 256 := by
  have hlo : 0 ≤ v / w % 256 := Int.emod_nonneg _ (by omega)
  have hhi : v / w % 256 < 256 := Int.emod_lt_of_pos _ (by omega)
  unfold byteOf
  rw [UInt8.toNat_ofNat']
  omega

/-- The `short` stored in two bytes. -/
def shortOfBytes (lo hi : UInt8) : Int := toShort (lo.toNat + 256 * hi.toNat)

/-- A `short` is recovered from its bytes. -/
@[simp]
theorem shortOfBytes_byteOf (v : Int) :
    shortOfBytes (byteOf v 1) (byteOf v 256) = toShort v := by
  have h₁ : v / 256 % 256 = v / 256 - 256 * (v / 256 / 256) := by omega
  unfold shortOfBytes toShort
  rw [toNat_byteOf, toNat_byteOf]
  omega

/-- The bytes of an `int`, least significant first. -/
def intBytes (v : Int) : Bytes := [byteOf v 1, byteOf v 256, byteOf v 65536, byteOf v 16777216]

/-- The `int` stored in the first four bytes of a list. -/
def intOfBytes (b : Bytes) : Int :=
  toInt ((b.getD 0 0).toNat + 256 * (b.getD 1 0).toNat + 65536 * (b.getD 2 0).toNat +
    16777216 * (b.getD 3 0).toNat)

@[simp]
theorem length_intBytes (v : Int) : (intBytes v).length = 4 := rfl

/-- An `int` is recovered from its bytes, whatever follows them. -/
@[simp]
theorem intOfBytes_intBytes_append (v : Int) (b : Bytes) :
    intOfBytes (intBytes v ++ b) = toInt v := by
  simp only [intOfBytes, intBytes, List.cons_append, List.getD_cons_zero, List.getD_cons_succ,
    toNat_byteOf]
  unfold toInt
  omega

/-! ## C strings -/

/-- The C string that starts a stretch of memory: its bytes before the first NUL. -/
def cstr (b : Bytes) : Bytes := b.takeWhile (· ≠ 0)

/-- `strcpy(dst, src)` into an array `dst`, where `src` is the string without its NUL; `none` if
the string and its NUL do not fit. -/
def strcpy (dst src : Bytes) : Option Bytes :=
  if src.length < dst.length then some (src ++ 0 :: dst.drop (src.length + 1)) else none

/-- `strncpy(dst, src, n)` for an array of `n` bytes: the string cut or NUL-padded to `n`. -/
def strncpy (src : Bytes) (n : Nat) : Bytes :=
  (src ++ List.replicate n 0).take n

/-- `strcmp(a, b) == 0`, reading both strings byte by byte up to a difference or a NUL; `none` if
one of the two stretches of memory ends before. -/
def strcmpEq : Bytes → Bytes → Option Bool
  | a :: as, b :: bs => if a ≠ b then some false else if a = 0 then some true else strcmpEq as bs
  | _, _ => none

/-- The sign of `strncmp(a, b, n)`, bytes compared as `unsigned char`; `a` and `b` give the bytes
at increasing addresses, `none` outside the memory that may be read. -/
def strncmp (a b : Nat → Option UInt8) : Nat → Nat → Option Ordering
  | 0, _ => some .eq
  | n + 1, i => do
    let x ← a i
    let y ← b i
    if x ≠ y then some (compare x.toNat y.toNat)
    else if x = 0 then some .eq
    else strncmp a b n (i + 1)

@[simp]
theorem cstr_cons_zero (b : Bytes) : cstr (0 :: b) = [] := by simp [cstr]

theorem cstr_cons_of_ne {c : UInt8} (hc : c ≠ 0) (b : Bytes) : cstr (c :: b) = c :: cstr b := by
  simp [cstr, hc]

/-- What follows the NUL of a C string does not matter. -/
theorem cstr_append_zero (b c : Bytes) (hb : (0 : UInt8) ∉ b) : cstr (b ++ 0 :: c) = b := by
  induction b with
  | nil => exact cstr_cons_zero c
  | cons x b ih =>
    obtain ⟨hx, hb⟩ := not_or.mp (mt List.mem_cons.mpr hb)
    rw [List.cons_append, cstr_cons_of_ne (Ne.symm hx), ih hb]

/-- A C string may be cut behind its NUL. -/
theorem cstr_take {b : Bytes} {n : Nat} (h : 0 ∈ b.take n) : cstr (b.take n) = cstr b := by
  induction b generalizing n with
  | nil => simp at h
  | cons c b ih =>
    cases n with
    | zero => simp at h
    | succ n =>
      rw [List.take_succ_cons] at h ⊢
      by_cases hc : c = 0
      · rw [hc, cstr_cons_zero, cstr_cons_zero]
      · rw [cstr_cons_of_ne hc, cstr_cons_of_ne hc,
          ih ((List.mem_cons.mp h).resolve_left (Ne.symm hc))]

theorem cstr_eq_self {b : Bytes} (h : (0 : UInt8) ∉ b) : cstr b = b :=
  List.takeWhile_eq_self_iff.mpr fun _ hx => decide_eq_true fun hx0 => h (hx0 ▸ hx)

/-- A C string is shorter than an array that it is in. -/
theorem length_cstr_lt {b : Bytes} {n : Nat} (h : 0 ∈ b.take n) : (cstr b).length < n := by
  induction b generalizing n with
  | nil => simp at h
  | cons c b ih =>
    cases n with
    | zero => simp at h
    | succ n =>
      by_cases hc : c = 0
      · rw [hc, cstr_cons_zero]
        exact Nat.succ_pos n
      · rw [List.take_succ_cons] at h
        rw [cstr_cons_of_ne hc]
        exact Nat.succ_lt_succ (ih ((List.mem_cons.mp h).resolve_left (Ne.symm hc)))

/-- Strings of which one starts with another character are different. -/
theorem cstr_cons_ne {x y : UInt8} (hxy : x ≠ y) (a b : Bytes) : cstr (x :: a) ≠ cstr (y :: b) := by
  by_cases hx : x = 0
  · rw [hx, cstr_cons_zero, cstr_cons_of_ne fun hy => hxy (hx.trans hy.symm)]
    exact nofun
  · rw [cstr_cons_of_ne hx]
    by_cases hy : y = 0
    · rw [hy, cstr_cons_zero]
      exact nofun
    · rw [cstr_cons_of_ne hy]
      exact fun h => hxy (List.cons.inj h).1

/-- `strncmp` compares what is in front of the NULs and of the bound. -/
theorem strncmp_eq_take_iff {f g : Nat → Option UInt8} (n i : Nat) (a b : Bytes)
    (hf : ∀ j, f (i + j) = a[j]?) (hg : ∀ j, g (i + j) = b[j]?)
    (ha : 0 ∈ a.take n ∨ n ≤ a.length) (hb : 0 ∈ b.take n ∨ n ≤ b.length) :
    ∃ r, strncmp f g n i = some r ∧ (r = .eq ↔ cstr (a.take n) = cstr (b.take n)) := by
  induction n generalizing i a b with
  | zero => exact ⟨.eq, rfl, by simp⟩
  | succ n ih =>
    obtain ⟨y, b, rfl⟩ : ∃ y b', b = y :: b' := by
      cases b with
      | nil => simp at hb
      | cons y b => exact ⟨y, b, rfl⟩
    obtain ⟨x, a, rfl⟩ : ∃ x a', a = x :: a' := by
      cases a with
      | nil => simp at ha
      | cons x a => exact ⟨x, a, rfl⟩
    have hfx : f i = some x := hf 0
    have hgy : g i = some y := hg 0
    unfold strncmp
    simp only [hfx, hgy, Option.bind_eq_bind, Option.bind_some, List.take_succ_cons]
    by_cases hxy : x = y
    · subst hxy
      simp only [ne_eq, not_true_eq_false, ↓reduceIte]
      by_cases hx : x = 0
      · subst hx
        simp
      · rw [if_neg hx]
        have hshort {l : Bytes} (hl : 0 ∈ (x :: l).take (n + 1) ∨ n + 1 ≤ (x :: l).length) :
            0 ∈ l.take n ∨ n ≤ l.length :=
          hl.imp (fun h => (List.mem_cons.mp h).resolve_left (Ne.symm hx)) Nat.le_of_succ_le_succ
        obtain ⟨r, hr, hiff⟩ := ih (i + 1) a b
          (fun j => by rw [Nat.add_assoc, Nat.add_comm 1]; exact hf (j + 1))
          (fun j => by rw [Nat.add_assoc, Nat.add_comm 1]; exact hg (j + 1)) (hshort ha) (hshort hb)
        refine ⟨r, hr, hiff.trans ?_⟩
        rw [cstr_cons_of_ne hx, cstr_cons_of_ne hx, List.cons.injEq]
        exact (and_iff_right rfl).symm
    · rw [if_pos hxy]
      refine ⟨_, rfl, ?_⟩
      rw [Nat.compare_eq_eq, UInt8.toNat_inj]
      exact iff_of_false hxy (cstr_cons_ne hxy _ _)

/-- `strncmp` tells two C strings apart if the second one ends within the bound, provided the
first one does so too or is that long. -/
theorem strncmp_eq_iff {f g : Nat → Option UInt8} (n i : Nat) (a b : Bytes)
    (hf : ∀ j, f (i + j) = a[j]?) (hg : ∀ j, g (i + j) = b[j]?)
    (ha : 0 ∈ a.take n ∨ n ≤ a.length) (hb : 0 ∈ b.take n) :
    ∃ r, strncmp f g n i = some r ∧ (r = .eq ↔ cstr a = cstr b) := by
  obtain ⟨r, hr, hiff⟩ := strncmp_eq_take_iff n i a b hf hg ha (Or.inl hb)
  refine ⟨r, hr, hiff.trans ?_⟩
  rw [cstr_take hb]
  by_cases hnul : 0 ∈ a.take n
  · rw [cstr_take hnul]
  · -- the first string is too long to be equal
    have hna := ha.resolve_left hnul
    have hlt := length_cstr_lt hb
    have htake : (a.take n).length = n := List.length_take_of_le hna
    have hlong : n ≤ (cstr a).length := by
      have hpos : ∀ x ∈ a.take n, decide (x ≠ 0) = true := fun x hx =>
        decide_eq_true fun h => hnul (h ▸ hx)
      conv_rhs => rw [← List.take_append_drop n a]
      unfold cstr
      rw [List.takeWhile_append_of_pos hpos, List.length_append]
      omega
    rw [cstr_eq_self hnul]
    exact iff_of_false (fun h => by rw [h] at htake; omega) fun h => by rw [h] at hlong; omega

end Minirel
