import Minirel.HeapFile.Scan

/-!
# The predicate of a scan

A scan with a filter returns the records that hold the attribute of the filter, with a value that
compares with the filter as the operator asks. The comparison depends on the bytes of the record
only, wherever it is on its page, as long as the filter keeps its value. The bound test of
`matchRec` is made in `int` arithmetic, so that the end of the attribute has to be an `int`.

## Main definitions

* `satisfies`: the records that a filter selects.
* `Compares`: what the caller of `startScan` has to take care of.

## Main results

* `yields_matchRec`, `answers_filter`: `matchRec` selects these records.
-/

namespace Minirel

open Comp

/-- Whether the attribute of a record compares with the value of the filter as the operator asks.
Without a filter every record is selected, and with one no record that ends before the attribute. -/
def satisfies (offset length : Int) (type : Datatype) (filter : Option Bytes) (op : Operator)
    (b : Bytes) : Bool :=
  match filter with
  | none => true
  | some f =>
    if (b.length : Int) < offset + length then false else
    let attr := (b.drop offset.toNat).take length.toNat
    match type with
    | .INTEGER =>
      op.holds (some (compare (toInt (intOfBytes attr - intOfBytes (f.take length.toNat))) 0))
    | .FLOAT => op.holds (floatSign attr (f.take length.toNat))
    | .STRING => (strncmp (attr[·]?) (f[·]?) length.toNat 0).any fun d => op.holds (some d)

/-- The parameters of a scan that compares records with the value `f`: `startScan` accepts them,
the attribute ends at an `int`, and the value is as long as the attribute, or ends with a NUL. -/
structure Compares (offset length : Int) (type : Datatype) (f : Bytes) : Prop where
  offset_nonneg : 0 ≤ offset
  length_pos : 1 ≤ length
  length_word : type ≠ .STRING → length = 4
  end_lt : offset + length < 2147483648
  readable : length ≤ f.length ∨ type = .STRING ∧ 0 ∈ f

/-! ## Reading records and filters -/

/-- The bytes at a pointer, one after the other. -/
theorem mapM_charAt {g : Nat → Option UInt8} {b : Bytes} {n : Nat} (hg : ∀ i < n, g i = b[i]?)
    (hn : n ≤ b.length) : (List.range n).mapM g = some (b.take n) := by
  induction n with
  | zero => rfl
  | succ n ih =>
    have hlt : n < b.length := hn
    have hlast : g n = some b[n] := by
      rw [hg n (Nat.lt_succ_self n), List.getElem?_eq_getElem hlt]
    rw [List.range_succ, List.mapM_append, ih (fun i hi => hg i (Nat.lt_succ_of_lt hi))
      (Nat.le_of_lt hn), List.mapM_cons, List.mapM_nil, hlast, List.take_succ_eq_append_getElem hn]
    rfl

/-- `strncmp` reads the first `n` bytes only. -/
theorem strncmp_congr {f f' g g' : Nat → Option UInt8} (n i : Nat)
    (hf : ∀ j, i ≤ j → j < i + n → f j = f' j) (hg : ∀ j, i ≤ j → j < i + n → g j = g' j) :
    strncmp f g n i = strncmp f' g' n i := by
  induction n generalizing i with
  | zero => rfl
  | succ n ih =>
    unfold strncmp
    rw [hf i (le_refl i) (by omega), hg i (le_refl i) (by omega),
      ih (i + 1) (fun j h₁ h₂ => hf j (by omega) (by omega)) fun j h₁ h₂ =>
        hg j (by omega) (by omega)]

/-- `strncmp` has a result if the first string has `n` bytes, and the second one too or a NUL. -/
theorem strncmp_isSome (a b : Bytes) (n i : Nat) (ha : i + n ≤ a.length)
    (hb : i + n ≤ b.length ∨ 0 ∈ b.drop i) : (strncmp (a[·]?) (b[·]?) n i).isSome := by
  induction n generalizing i with
  | zero => rfl
  | succ n ih =>
    have hi : i < b.length := by
      rcases hb with hb | hb
      · omega
      · by_contra hge
        rw [List.drop_eq_nil_of_le (not_lt.mp hge)] at hb
        cases hb
    unfold strncmp
    rw [List.getElem?_eq_getElem (show i < a.length by omega), List.getElem?_eq_getElem hi]
    simp only [Option.bind_eq_bind, Option.bind_some]
    split
    · rfl
    · next heq =>
      split
      · rfl
      · next hz =>
        refine ih (i + 1) (by omega) (hb.imp (fun h => by omega) fun h => ?_)
        rw [List.drop_eq_getElem_cons hi] at h
        refine (List.mem_cons.mp h).resolve_left fun hz' => hz ?_
        rw [not_ne_iff.mp heq, ← hz']

namespace Page

variable {p : Page} {d n o l : Int} {b : Bytes}

/-- A part of a stretch of bytes. -/
theorem bytes?_slice (hb : p.bytes? d n = some b) (hd : 0 ≤ d) (hdn : d + n ≤ 1004) (ho : 0 ≤ o)
    (hl : 0 ≤ l) (hol : o + l ≤ n) :
    p.bytes? (d + o) l = some ((b.drop o.toNat).take l.toNat) := by
  rw [bytes?_eq_span p hd (by omega) hdn] at hb
  cases hb
  rw [bytes?_eq_span p (by omega) hl (by omega)]
  congr 1
  unfold span
  apply List.ext_getElem
  · simp only [List.length_map, List.length_range, List.length_take, List.length_drop]
    omega
  · intro i h₁ h₂
    simp only [List.length_map, List.length_range] at h₁
    simp only [List.getElem_map, List.getElem_range, List.getElem_take, List.getElem_drop]
    congr 1
    omega

/-- One byte of a part of a stretch of bytes. -/
theorem byte?_slice (hb : p.bytes? d n = some b) (hd : 0 ≤ d) (hdn : d + n ≤ 1004) (ho : 0 ≤ o)
    (hol : o + l ≤ n) {i : Nat} (hi : i < l.toNat) :
    p.byte? (d + o + i) = ((b.drop o.toNat).take l.toNat)[i]? := by
  have hbytes := bytes?_slice hb hd hdn ho (by omega) hol
  rw [bytes?_eq_span p (by omega) (by omega) (by omega)] at hbytes
  rw [← Option.some.inj hbytes]
  unfold byte? span DATASIZE SLOTSIZE
  rw [if_pos (by omega), List.getElem?_map, List.getElem?_range hi]
  show some _ = some _
  congr 2
  omega

/-- The bytes of a record of the page are `b`. -/
structure Holds (p : Page) (rec : PageRecord) (b : Bytes) : Prop where
  length : rec.length = b.length
  byte : ∀ i < b.length, p.byte? (rec.data + i) = b[i]?

theorem holds_of_bytes {rec : PageRecord} (hlen : rec.length = b.length) (hd : 0 ≤ rec.data)
    (hdn : rec.data + rec.length ≤ 1004) (hb : p.bytes? rec.data rec.length = some b) :
    p.Holds rec b where
  length := hlen
  byte i hi := by
    have hbyte := byte?_slice hb hd hdn (le_refl 0) (l := (b.length : Int)) (by omega)
      (show i < (b.length : Int).toNat by omega)
    rwa [Int.toNat_zero, List.drop_zero, Int.toNat_natCast, List.take_length, add_zero] at hbyte

namespace Holds

variable {rec : PageRecord}

theorem mem (h : p.Holds rec b) {i : Nat} (hi : i < b.length) :
    0 ≤ rec.data + i ∧ rec.data + i < 1008 ∧ p.mem (rec.data + i).toNat = b[i] := by
  have hbyte := h.byte i hi
  rw [List.getElem?_eq_getElem hi] at hbyte
  unfold byte? at hbyte
  split at hbyte
  next hin => exact ⟨hin.1, hin.2, Option.some.inj hbyte⟩
  next => cases hbyte

/-- A part of the record. -/
theorem bytes?_attr (h : p.Holds rec b) (ho : 0 ≤ o) (hl : 1 ≤ l) (hol : o + l ≤ b.length) :
    p.bytes? (rec.data + o) l = some ((b.drop o.toNat).take l.toNat) := by
  have hfirst := h.mem (show o.toNat < b.length by omega)
  have hlast := h.mem (show (o + l - 1).toNat < b.length by omega)
  unfold bytes? DATASIZE SLOTSIZE
  rw [if_pos (by omega)]
  congr 1
  apply List.ext_getElem
  · simp only [List.length_map, List.length_range, List.length_take, List.length_drop]
    omega
  · intro i h₁ h₂
    simp only [List.length_map, List.length_range] at h₁
    have hmem := h.mem (show o.toNat + i < b.length by omega)
    simp only [List.getElem_map, List.getElem_range, List.getElem_take, List.getElem_drop]
    rw [← hmem.2.2]
    congr 1
    omega

theorem byte?_attr (h : p.Holds rec b) (ho : 0 ≤ o) (hol : o + l ≤ b.length) {i : Nat}
    (hi : i < l.toNat) : p.byte? (rec.data + o + i) = ((b.drop o.toNat).take l.toNat)[i]? := by
  have hbyte := h.byte (o.toNat + i) (by omega)
  rw [List.getElem?_take_of_lt hi, List.getElem?_drop, ← hbyte]
  congr 1
  omega

end Holds

end Page

/-! ## The answers of `matchRec` -/

namespace HeapFileScan

variable {T : Prop} {R : Multiset Pin} {v : View} {nm : FileName} {h : HeapFileScan}
  {filter : CharPtr} {f : Bytes}

/-- `startScan` accepts a filter. -/
theorem startScan_some {offset length : Int} {type : Datatype} {op : Operator}
    (h₁ : 0 ≤ offset) (h₂ : 1 ≤ length) (h₃ : type ≠ .STRING → length = 4) :
    startScan h offset length type (some filter) op =
      (.OK, { h with offset, length, type, filter := some filter, op }) := by
  unfold startScan
  rw [if_neg (show ¬(some filter).isNone = true from Bool.false_ne_true), if_neg]
  rintro (h | ⟨rfl, h⟩ | ⟨rfl, h⟩)
  · omega
  · exact h (h₃ nofun)
  · exact h (h₃ nofun)

/-- The lengths that `startScan` does not accept. -/
theorem startScan_badLength {offset length : Int} {type : Datatype} {op : Operator}
    (h₁ : ¬(1 ≤ length ∧ (type ≠ .STRING → length = 4))) :
    startScan h offset length type (some filter) op = (.BADSCANPARM, h) := by
  unfold startScan
  rw [if_neg (show ¬(some filter).isNone = true from Bool.false_ne_true), if_pos]
  by_contra hn
  obtain ⟨hlen, hword⟩ := not_or.mp hn
  refine h₁ ⟨by omega, fun htype => ?_⟩
  cases type with
  | STRING => exact absurd rfl htype
  | INTEGER => simpa using hword
  | FLOAT => simpa using hword

/-- What `startScan` has found out about a filter that it accepts. -/
theorem startScan_ok {offset length : Int} {type : Datatype} {op : Operator}
    (hok : (startScan h offset length type (some filter) op).1 = .OK) :
    0 ≤ offset ∧ 1 ≤ length ∧ (type ≠ .STRING → length = 4) := by
  unfold startScan at hok
  rw [if_neg (show ¬(some filter).isNone = true from Bool.false_ne_true)] at hok
  split at hok
  · cases hok
  next hn =>
    refine ⟨by omega, by omega, fun htype => ?_⟩
    cases type with
    | STRING => exact absurd rfl htype
    | INTEGER => exact of_not_not fun hl => hn (Or.inr (Or.inl ⟨rfl, hl⟩))
    | FLOAT => exact of_not_not fun hl => hn (Or.inr (Or.inr ⟨rfl, hl⟩))

/-- `matchRec` evaluates the predicate on the bytes of the record. -/
theorem yields_matchRec {s : Sys} {page : Page} {rec : PageRecord} {b : Bytes}
    (hfilter : h.filter = some filter) (ho : 0 ≤ h.offset) (hl : 1 ≤ h.length)
    (hend : h.offset + h.length ≤ 2147483648)
    (hread : h.length ≤ f.length ∨ h.type = .STRING ∧ 0 ∈ f)
    (hval : ∀ i < h.length.toNat, s.charAt filter i = f[i]?) (hrec : page.Holds rec b) :
    Yields (matchRec h page rec) s (satisfies h.offset h.length h.type (some f) h.op b)
      false s := by
  have hlen := hrec.length
  unfold matchRec satisfies
  rw [hfilter]
  dsimp only
  rw [toInt_toInt_sub, toInt_eq (by omega) (by omega)]
  by_cases hshort : (b.length : Int) < h.offset + h.length
  · rw [if_pos (by omega), if_pos hshort]
    exact Yields.pure _ _
  rw [if_neg (by omega), if_neg hshort]
  refine (Yields.get s).bind (d := false) ?_
  -- a value that is not a string is read as a whole
  have hmapM : h.type ≠ .STRING → (List.range h.length.toNat).mapM (s.charAt filter) =
      some (f.take h.length.toNat) := fun htype =>
    mapM_charAt hval (by
      have := hread.resolve_right fun hs => htype hs.1
      omega)
  have hattr := hrec.bytes?_attr ho hl (by omega)
  cases htype : h.type with
  | INTEGER =>
    dsimp only
    rw [hattr, hmapM (htype ▸ nofun)]
    rfl
  | FLOAT =>
    dsimp only
    rw [hattr, hmapM (htype ▸ nofun)]
    rfl
  | STRING =>
    dsimp only
    rw [strncmp_congr h.length.toNat 0
      (fun j _ hj => hrec.byte?_attr (l := h.length) ho (by omega) (by omega))
      fun j _ hj => hval j (by omega)]
    have hsome := strncmp_isSome ((b.drop h.offset.toNat).take h.length.toNat) f h.length.toNat 0
      (by rw [List.length_take, List.length_drop]; omega) (hread.imp (fun hr => by omega) And.right)
    obtain ⟨d, hd⟩ := Option.isSome_iff_exists.mp hsome
    rw [hd]
    exact Yields.pure _ _

/-- `matchRec` selects the records that satisfy the predicate, as long as the value of the filter
does not change. -/
theorem answers_filter (hfilter : h.filter = some filter)
    (hcmp : Compares h.offset h.length h.type f)
    (hval : ∀ s P fv, Coh s P (v.setFile nm (some fv)) → R ≤ P →
      ∀ i < h.length.toNat, s.charAt filter i = f[i]?) :
    Answers T R v nm h fun _ _ b a => a = satisfies h.offset h.length h.type (some f) h.op b := by
  intro s P fv page rec b hc hR _ hlen hd hdn hbytes
  have hy := yields_matchRec hfilter hcmp.offset_nonneg hcmp.length_pos hcmp.end_lt.le hcmp.readable
    (hval s P fv hc hR) (Page.holds_of_bytes hlen hd hdn hbytes)
  exact Runs.of_yields hy ⟨rfl, rfl, rfl⟩

end HeapFileScan

end Minirel
