import Minirel.HeapFile.Filter

/-!
# When the predicate of a scan is the comparison it stands for

`matchRec` compares numbers by the sign of their difference and looks for the end of the attribute
with a sum, both in `int` arithmetic. A difference that is not an `int` has the other sign after it
has wrapped, and an attribute that ends beyond the `int`s is taken to end before the record does.

## Main definitions

* `selects`: the comparison itself.
* `Undistorted`: the records, filters and operators for which no overflow matters.

## Main results

* `matchRec_selects_iff`: for these, and for no others, `matchRec` decides the comparison from the
  bytes of the record alone.
-/

namespace Minirel

open Comp

/-- Whether the record has the attribute and the attribute compares with the filter as the operator
says: numbers in their order, and strings by `strncmp`. -/
def selects (offset length : Int) (type : Datatype) (op : Operator) (f b : Bytes) : Bool :=
  if offset + length ≤ b.length then
    let attr := (b.drop offset.toNat).take length.toNat
    match type with
    | .INTEGER => op.holds (some (compare (intOfBytes attr) (intOfBytes (f.take length.toNat))))
    | .FLOAT => op.holds (floatSign attr (f.take length.toNat))
    | .STRING => (strncmp (attr[·]?) (f[·]?) length.toNat 0).any fun d => op.holds (some d)
  else false

/-- No overflow matters. If the end of the attribute is an `int`, this says that the difference of
the two numbers is one too, unless the operator asks only whether they are equal. If it is not,
`strncmp` has to decide against the record before it comes to its end. -/
def Undistorted (offset length : Int) (type : Datatype) (op : Operator) (f b : Bytes) : Prop :=
  if offset + length ≤ 2147483648 then
    type = .INTEGER → offset + length ≤ b.length → op = .EQ ∨ op = .NE ∨
      -2147483648 ≤ intOfBytes ((b.drop offset.toNat).take length.toNat) -
          intOfBytes (f.take length.toNat) ∧
        intOfBytes ((b.drop offset.toNat).take length.toNat) -
          intOfBytes (f.take length.toNat) < 2147483648
  else
    type = .STRING ∧ ∃ d, strncmp ((b.drop offset.toNat)[·]?) (f[·]?) length.toNat 0 = some d ∧
      op.holds (some d) = false

/-! ## Differences that wrap -/

theorem intOfBytes_range (b : Bytes) : -2147483648 ≤ intOfBytes b ∧ intOfBytes b < 2147483648 :=
  toInt_range _

/-- The sign of a difference that has wrapped is the wrong one. -/
theorem compare_toInt_sub {x y : Int} (hx : -2147483648 ≤ x ∧ x < 2147483648)
    (hy : -2147483648 ≤ y ∧ y < 2147483648) :
    compare (toInt (x - y)) 0 = if -2147483648 ≤ x - y ∧ x - y < 2147483648 then compare x y
      else (compare x y).swap := by
  have hrange := toInt_range (x - y)
  rcases lt_trichotomy x y with h | rfl | h
  · rw [Int.compare_eq_lt.mpr h]
    split
    next hin =>
      rw [toInt_eq hin.1 hin.2]
      exact Int.compare_eq_lt.mpr (by omega)
    next =>
      have hpos : 0 < toInt (x - y) := by
        unfold toInt
        omega
      exact Int.compare_eq_gt.mpr hpos
  · rw [sub_self, if_pos (by omega), Int.compare_eq_eq.mpr rfl]
    rfl
  · rw [Int.compare_eq_gt.mpr h]
    split
    next hin =>
      rw [toInt_eq hin.1 hin.2]
      exact Int.compare_eq_gt.mpr (by omega)
    next =>
      have hneg : toInt (x - y) < 0 := by
        unfold toInt
        omega
      exact Int.compare_eq_lt.mpr hneg

/-- Only the operators that ask for equality do not see the wrong sign. -/
theorem Operator.holds_swap_iff (op : Operator) {o : Ordering} (ho : o ≠ .eq) :
    op.holds (some o.swap) = op.holds (some o) ↔ op = .EQ ∨ op = .NE := by
  cases o with
  | eq => exact absurd rfl ho
  | lt => cases op <;> decide
  | gt => cases op <;> decide

theorem Operator.holds_sub_iff (op : Operator) {x y : Int}
    (hx : -2147483648 ≤ x ∧ x < 2147483648) (hy : -2147483648 ≤ y ∧ y < 2147483648) :
    op.holds (some (compare (toInt (x - y)) 0)) = op.holds (some (compare x y)) ↔
      op = .EQ ∨ op = .NE ∨ -2147483648 ≤ x - y ∧ x - y < 2147483648 := by
  rw [compare_toInt_sub hx hy]
  split
  next hin => exact iff_of_true rfl (Or.inr (Or.inr hin))
  next hout =>
    have hne : compare x y ≠ .eq := fun heq => hout (by
      have := Int.compare_eq_eq.mp heq
      omega)
    rw [op.holds_swap_iff hne]
    exact ⟨Or.imp_right Or.inl, Or.imp_right fun h => h.resolve_right hout⟩

/-- The predicate of a scan is the comparison, if no difference has wrapped. -/
theorem satisfies_eq_selects_iff {offset length : Int} {type : Datatype} {op : Operator}
    {f b : Bytes} : satisfies offset length type (some f) op b = selects offset length type op f b ↔
      (type = .INTEGER → offset + length ≤ b.length → op = .EQ ∨ op = .NE ∨
        -2147483648 ≤ intOfBytes ((b.drop offset.toNat).take length.toNat) -
            intOfBytes (f.take length.toNat) ∧
          intOfBytes ((b.drop offset.toNat).take length.toNat) -
            intOfBytes (f.take length.toNat) < 2147483648) := by
  unfold satisfies selects
  dsimp only
  by_cases hend : offset + length ≤ b.length
  · rw [if_neg (not_lt.mpr hend), if_pos hend]
    cases type with
    | INTEGER =>
      dsimp only
      rw [op.holds_sub_iff (intOfBytes_range _) (intOfBytes_range _)]
      exact ⟨fun h _ _ => h, fun h => h rfl hend⟩
    | FLOAT => exact iff_of_true rfl nofun
    | STRING => exact iff_of_true rfl nofun
  · rw [if_pos (not_le.mp hend), if_neg hend]
    exact iff_of_true rfl fun _ h => absurd h hend

/-! ## Attributes that end beyond the largest `int` -/

/-- `strncmp` comes to the same result if there is more memory to read. -/
theorem strncmp_mono {f f' g : Nat → Option UInt8} (hf : ∀ j x, f j = some x → f' j = some x)
    (n i : Nat) {d : Ordering} (h : strncmp f g n i = some d) : strncmp f' g n i = some d := by
  induction n generalizing i with
  | zero => exact h
  | succ n ih =>
    unfold strncmp at h ⊢
    obtain ⟨x, hx, h⟩ := Option.bind_eq_some_iff.mp h
    obtain ⟨y, hy, h⟩ := Option.bind_eq_some_iff.mp h
    rw [hf i x hx, hy]
    simp only [Option.bind_eq_bind, Option.bind_some]
    split at h
    next hne => rwa [if_pos hne]
    next heq =>
      rw [if_neg heq]
      split at h
      next hz => rwa [if_pos hz]
      next hz =>
        rw [if_neg hz]
        exact ih (i + 1) h

namespace Page

/-- A page that has the bytes at the very end of its memory. -/
def atEnd (b : Bytes) : Page := { Page.zero with mem := fun x => b.getD (x + b.length - 1008) 0 }

/-- Where they are. -/
def lastRecord (b : Bytes) : PageRecord := ⟨1008 - b.length, b.length⟩

variable {b : Bytes}

/-- What follows the record is outside the page. -/
theorem byte?_atEnd (hb : (b.length : Int) ≤ 1004) (i : Nat) :
    (atEnd b).byte? ((lastRecord b).data + i) = b[i]? := by
  unfold byte? lastRecord DATASIZE SLOTSIZE
  dsimp only
  by_cases hi : i < b.length
  · rw [if_pos (by omega), List.getElem?_eq_getElem hi]
    show some (b.getD ((1008 - (b.length : Int) + i).toNat + b.length - 1008) 0) = some b[i]
    rw [show (1008 - (b.length : Int) + i).toNat + b.length - 1008 = i by omega,
      List.getD_eq_getElem?_getD, List.getElem?_eq_getElem hi]
    rfl
  · rw [if_neg (by omega), List.getElem?_eq_none (not_lt.mp hi)]

theorem holds_atEnd (hb : (b.length : Int) ≤ 1004) : (atEnd b).Holds (lastRecord b) b :=
  ⟨rfl, fun i _ => byte?_atEnd hb i⟩

end Page

namespace HeapFileScan

variable {s : Sys} {h : HeapFileScan} {filter : CharPtr} {f b : Bytes} {page : Page}
  {rec : PageRecord}

/-- The bound test lets the record pass if the attribute ends beyond the `int`s, and `strncmp` goes
on from there. -/
theorem yields_matchRec_wrapped {d : Ordering} (hfilter : h.filter = some filter)
    (hend : 2147483648 < h.offset + h.length) (ho : h.offset < 2147483648)
    (hl : h.length < 2147483648) (htype : h.type = .STRING) (hrec : 0 ≤ rec.length)
    (hd : strncmp (fun i => page.byte? (rec.data + h.offset + i))
      (s.charAt filter) h.length.toNat 0 =
      some d) : Yields (matchRec h page rec) s (h.op.holds (some d)) false s := by
  have hneg : toInt (toInt (h.offset + h.length) - 1) < 0 := by
    unfold toInt
    omega
  unfold matchRec
  rw [hfilter, htype]
  dsimp only
  rw [if_neg (by omega)]
  refine (Yields.get s).bind (d := false) ?_
  rw [hd]
  exact Yields.pure _ _

/-- With the record at the end of a page there is no other outcome. -/
theorem matchRec_atEnd (hfilter : h.filter = some filter) (hb : (b.length : Int) ≤ 1004)
    (hend : 2147483648 < h.offset + h.length) (ho : h.offset < 2147483648)
    (hl : h.length < 2147483648) (hfloat : h.type ≠ .FLOAT)
    (hword : h.type = .INTEGER → h.length = 4)
    (hval : ∀ i < h.length.toNat, s.charAt filter i = f[i]?) :
    Runs False (matchRec h (Page.atEnd b) (Page.lastRecord b)) s fun a _ _ => h.type = .STRING ∧
      ∃ d, strncmp ((b.drop h.offset.toNat)[·]?) (f[·]?) h.length.toNat 0 = some d ∧
        a = h.op.holds (some d) := by
  have hneg : toInt (toInt (h.offset + h.length) - 1) < 0 := by
    unfold toInt
    omega
  unfold matchRec
  rw [hfilter]
  dsimp only
  rw [if_neg (show ¬toInt (toInt (h.offset + h.length) - 1) ≥ (Page.lastRecord b).length from
    not_le.mpr (lt_of_lt_of_le hneg (Int.natCast_nonneg _))), runs_get_bind]
  cases htype : h.type with
  | INTEGER =>
    -- the four bytes are nowhere near the page
    have h4 := hword htype
    refine Runs.ofOption_bind (fun hfalse => hfalse.elim) fun x hx => ?_
    unfold Page.bytes? Page.lastRecord DATASIZE SLOTSIZE at hx
    rw [if_neg (by dsimp only; omega)] at hx
    cases hx
  | FLOAT => exact absurd htype hfloat
  | STRING =>
    refine Runs.ofOption_bind (fun hfalse => hfalse.elim) fun d hd => runs_pure.mpr
      ⟨rfl, d, ?_, rfl⟩
    rw [← hd]
    refine (strncmp_congr _ 0 (fun j _ _ => ?_) fun j _ hj => hval j (by omega)).symm
    rw [List.getElem?_drop, ← Page.byte?_atEnd hb]
    congr 1
    omega

/-- For every record and all parameters that `startScan` accepts: wherever the record is, `matchRec`
says whether the attribute compares with the filter, and reads nothing but the record, exactly if no
overflow matters. -/
theorem matchRec_selects_iff {offset length : Int} {type : Datatype} {op : Operator}
    (hoffset : offset < 2147483648) (hlength : length < 2147483648) (htype : type ≠ .FLOAT)
    (hok : (startScan h offset length type (some filter) op).1 = .OK)
    (hb : (b.length : Int) ≤ DATASIZE) (hread : length ≤ f.length ∨ type = .STRING ∧ 0 ∈ f)
    (hval : ∀ i < length.toNat, s.charAt filter i = f[i]?) :
    (∀ page rec, page.Holds rec b →
      Yields (matchRec (startScan h offset length type (some filter) op).2 page rec) s
        (selects offset length type op f b) false s) ↔ Undistorted offset length type op f b := by
  obtain ⟨ho, hl, hword⟩ := startScan_ok hok
  rw [startScan_some ho hl hword]
  set q : HeapFileScan := { h with offset, length, type, filter := some filter, op }
  unfold Undistorted
  by_cases hend : offset + length ≤ 2147483648
  · rw [if_pos hend, ← satisfies_eq_selects_iff]
    have hy : ∀ page rec, page.Holds rec b → Yields (matchRec q page rec) s
        (satisfies offset length type (some f) op b) false s := fun page rec hrec =>
      yields_matchRec (h := q) rfl ho hl hend hread hval hrec
    constructor
    · intro h
      exact ((h _ _ (Page.holds_atEnd hb)).unique (hy _ _ (Page.holds_atEnd hb))).1
    · rintro heq page rec hrec
      rw [← heq]
      exact hy page rec hrec
  · have hlt : 2147483648 < offset + length := not_le.mp hend
    have hnot : selects offset length type op f b = false := if_neg (by
      unfold DATASIZE at hb
      omega)
    rw [if_neg hend, hnot]
    constructor
    · intro h
      have hlast := matchRec_atEnd (s := s) (h := q) rfl hb hlt hoffset hlength htype
        (fun hi => hword (hi.trans_ne nofun)) hval
      obtain ⟨hs, d, hd, ha⟩ := hlast.1 _ _ _ (h _ _ (Page.holds_atEnd hb))
      exact ⟨hs, d, hd, ha.symm⟩
    · rintro ⟨hs, d, hd, ha⟩ page rec hrec
      -- the place of the record does not matter to `strncmp`, which does not leave it
      have hcmp : strncmp (fun i => page.byte? (rec.data + offset + i)) (s.charAt filter)
          length.toNat 0 = some d := by
        rw [strncmp_congr _ 0 (fun _ _ _ => rfl) fun j _ hj => hval j (by omega)]
        refine strncmp_mono (fun j x hx => ?_) _ 0 hd
        rw [List.getElem?_drop] at hx
        have hin : offset.toNat + j < b.length := (List.getElem?_eq_some_iff.mp hx).1
        rw [← hx, ← hrec.byte _ hin]
        congr 1
        omega
      have hy : Yields (matchRec q page rec) s (op.holds (some d)) false s :=
        yields_matchRec_wrapped (h := q) rfl hlt hoffset hlength hs
          (hrec.length ▸ Int.natCast_nonneg _) hcmp
      rwa [ha] at hy

/-! ### Two comparisons of numbers -/

/-- A scan that has not been started. -/
def plainScan : HeapFileScan :=
  { toHeapFile := HeapFile.uninit, offset := 0, length := 0, type := .STRING, filter := none
    op := .LT, markedPageNo := 0, markedRec := NULLRID }

/-- A record with the number `1` is less than a filter with the number `2`. -/
theorem matchRec_selects_iff_one_two : Yields (matchRec
    (startScan plainScan 0 4 .INTEGER (some (.client (intBytes 2))) .LT).2
    (Page.atEnd (intBytes 1)) (Page.lastRecord (intBytes 1))) oneFrame true false oneFrame := by
  have hin : Undistorted 0 4 .INTEGER .LT (intBytes 2) (intBytes 1) := by
    unfold Undistorted
    rw [if_pos (by decide)]
    exact fun _ _ => Or.inr (Or.inr (by decide))
  have hless : selects 0 4 .INTEGER .LT (intBytes 2) (intBytes 1) = true := by decide
  have hiff := matchRec_selects_iff (show (0 : Int) < 2147483648 by decide)
    (show (4 : Int) < 2147483648 by decide) (show Datatype.INTEGER ≠ .FLOAT from nofun)
    (show (startScan plainScan 0 4 .INTEGER (some (.client (intBytes 2))) .LT).1 = .OK from rfl)
    (show ((intBytes 1).length : Int) ≤ DATASIZE by decide)
    (show (4 : Int) ≤ (intBytes 2).length ∨ _ from Or.inl (by decide))
    (show ∀ i < (4 : Int).toNat, oneFrame.charAt (.client (intBytes 2)) i = (intBytes 2)[i]? from
      fun _ _ => rfl)
  have hy := hiff.mpr hin _ _ (Page.holds_atEnd (by decide))
  rwa [hless] at hy

/-- The smallest `int` is not found to be less than `1`. -/
theorem not_selects_minimum : ¬∀ page rec, page.Holds rec (intBytes (-2147483648)) →
    Yields (matchRec (startScan plainScan 0 4 .INTEGER (some (.client (intBytes 1)))
      .LT).2 page rec)
      oneFrame (selects 0 4 .INTEGER .LT (intBytes 1) (intBytes (-2147483648))) false oneFrame := by
  intro h
  have hb : ((intBytes (-2147483648)).length : Int) ≤ 1004 := by decide
  have hy := yields_matchRec (s := oneFrame) (f := intBytes 1)
    (h := (startScan plainScan 0 4 .INTEGER (some (.client (intBytes 1))) .LT).2) rfl
    (by decide) (by decide) (by decide) (Or.inl (by decide)) (fun _ _ => rfl)
    (Page.holds_atEnd hb)
  have heq := ((h _ _ (Page.holds_atEnd hb)).unique hy).1
  exact absurd heq (by decide)

end HeapFileScan

end Minirel
