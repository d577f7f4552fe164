import Minirel.HeapFile.Predicate
import Minirel.Join.NestedLoops
import Mathlib.Data.List.Lex

/-!
# The join that `QU_NL_Join` stands for

The values of an attribute are those of a linear order: numbers, and strings in the order of their
characters up to the NUL. A join pairs the records whose attributes are related as the operator
says. The inner scan compares from the other side, with the operator mirrored.

## Main definitions

* `Operator.relates`: the relation of an operator.
* `Datatype.key`: the value of an attribute.
* `relationalJoin`: the records of a join.

## Main results

* `Operator.mirror_relates`: an operator with its operands exchanged.
* `JoinPlan.Sound.rows_eq`: what the loops write is the join.
* `relationalJoin_perm_swap`: a join from the other side has the same records.
-/

namespace Minirel

open Comp Relational

/-! ## Operators -/

namespace Operator

variable {κ : Type} [LinearOrder κ] {a b : κ} {o : Ordering}

/-- The relation of an operator. -/
def relates : Operator → κ → κ → Bool
  | .LT, a, b => decide (a < b)
  | .LTE, a, b => decide (a ≤ b)
  | .EQ, a, b => decide (a = b)
  | .GTE, a, b => decide (b ≤ a)
  | .GT, a, b => decide (b < a)
  | .NE, a, b => decide (a ≠ b)

/-- The operator with its operands exchanged. -/
theorem mirror_relates (op : Operator) (a b : κ) : op.mirror.relates b a = op.relates a b := by
  cases op with
  | EQ => exact decide_eq_decide.mpr eq_comm
  | NE => exact decide_eq_decide.mpr ne_comm
  | _ => rfl

/-- The outcome of a comparison decides the relation. -/
theorem holds_eq_relates (op : Operator) (hlt : o = .lt ↔ a < b) (heq : o = .eq ↔ a = b) :
    op.holds (some o) = op.relates a b := by
  have hgt : o = .gt ↔ b < a := by
    constructor
    · rintro rfl
      exact lt_of_le_of_ne (not_lt.mp fun h => nomatch hlt.mpr h) fun h => nomatch heq.mpr h.symm
    · intro h
      cases ho : o with
      | gt => rfl
      | lt => exact absurd h (lt_asymm (hlt.mp ho))
      | eq => exact absurd h (heq.mp ho).not_gt
  cases op with
  | LT => exact decide_eq_decide.mpr (by simp [hlt])
  | GT => exact decide_eq_decide.mpr (by simp [hgt])
  | EQ => exact decide_eq_decide.mpr (by simp [heq])
  | NE => exact decide_eq_decide.mpr (by simp [heq])
  | LTE => exact decide_eq_decide.mpr (by simp [hlt, heq, le_iff_lt_or_eq])
  | GTE => exact decide_eq_decide.mpr (by simp [hgt, heq, le_iff_lt_or_eq, eq_comm])

end Operator

/-! ## Values -/

/-- The value of an attribute: the number, or the numbers of the characters. -/
def Datatype.key (type : Datatype) (b : Bytes) : List Int :=
  match type with
  | .INTEGER => [intOfBytes b]
  | _ => (cstr b).map fun c => (c.toNat : Int)

/-- `strncmp` compares the values of two strings of one length. -/
theorem strncmp_key (n i : Nat) {f g : Nat → Option UInt8} {a b : Bytes} (ha : a.length = n)
    (hb : b.length = n) (hf : ∀ j, f (i + j) = a[j]?) (hg : ∀ j, g (i + j) = b[j]?) :
    ∃ o, strncmp f g n i = some o ∧ (o = .lt ↔ Datatype.STRING.key a < Datatype.STRING.key b) ∧
      (o = .eq ↔ Datatype.STRING.key a = Datatype.STRING.key b) := by
  induction n generalizing i a b with
  | zero =>
    rw [List.length_eq_zero_iff.mp ha, List.length_eq_zero_iff.mp hb]
    exact ⟨.eq, rfl, by simp [Datatype.key], by simp⟩
  | succ n ih =>
    obtain ⟨x, a, rfl⟩ := List.exists_cons_of_length_eq_add_one ha
    obtain ⟨y, b, rfl⟩ := List.exists_cons_of_length_eq_add_one hb
    rw [List.length_cons, Nat.add_right_cancel_iff] at ha hb
    have hx : f i = some x := hf 0
    have hy : g i = some y := hg 0
    unfold strncmp
    rw [hx, hy]
    simp only [Option.bind_eq_bind, Option.bind_some]
    by_cases hxy : x = y
    · subst hxy
      rw [if_neg (not_not.mpr rfl)]
      by_cases h0 : x = 0
      · -- both strings end here
        rw [if_pos h0]
        simp [h0, Datatype.key, cstr_cons_zero]
      · rw [if_neg h0]
        obtain ⟨o, ho, hlt, heq⟩ := ih (i + 1) ha hb
          (fun j => by rw [add_assoc, add_comm 1 j]; exact hf (j + 1))
          fun j => by rw [add_assoc, add_comm 1 j]; exact hg (j + 1)
        refine ⟨o, ho, ?_, ?_⟩
        · simpa [Datatype.key, cstr_cons_of_ne h0, List.cons_lt_cons_iff] using hlt
        · simpa [Datatype.key, cstr_cons_of_ne h0] using heq
    · rw [if_pos hxy]
      have hne : x.toNat ≠ y.toNat := fun h => hxy (UInt8.toNat_inj.mp h)
      refine ⟨_, rfl, ?_, ?_⟩
      · rw [Nat.compare_eq_lt]
        by_cases hx0 : x = 0
        · -- the first string ends before the second one
          have hy0 : y ≠ 0 := fun h => hxy (hx0.trans h.symm)
          subst hx0
          have hpos : 0 < y.toNat := by
            rw [Nat.pos_iff_ne_zero]
            exact fun h => hne h.symm
          simp [Datatype.key, cstr_cons_zero, cstr_cons_of_ne hy0, hpos]
        · by_cases hy0 : y = 0
          · subst hy0
            simp [Datatype.key, cstr_cons_zero]
          · simp [Datatype.key, cstr_cons_of_ne hx0, cstr_cons_of_ne hy0,
              List.cons_lt_cons_iff, hne]
      · rw [Nat.compare_eq_eq]
        refine iff_of_false hne fun h => cstr_cons_ne hxy a b ?_
        refine List.map_injective_iff.mpr (fun c d hcd => ?_) h
        exact UInt8.toNat_inj.mp (Int.natCast_inj.mp hcd)

/-- The predicate of a scan relates the values. -/
theorem satisfies_eq_relates {offset length : Int} {type : Datatype} {op : Operator} {f b : Bytes}
    (htype : type ≠ .FLOAT) (hoffset : 0 ≤ offset) (hend : offset + length ≤ b.length)
    (hf : (f.length : Int) = length)
    (hdiff : type = .INTEGER → op = .EQ ∨ op = .NE ∨
      -2147483648 ≤ intOfBytes ((b.drop offset.toNat).take length.toNat) - intOfBytes f ∧
        intOfBytes ((b.drop offset.toNat).take length.toNat) - intOfBytes f < 2147483648) :
    satisfies offset length type (some f) op b =
      op.relates (type.key ((b.drop offset.toNat).take length.toNat)) (type.key f) := by
  have htake : f.take length.toNat = f := List.take_of_length_le (by omega)
  have hselects : satisfies offset length type (some f) op b = selects offset length type
    op f b ↔ _ :=
    satisfies_eq_selects_iff
  rw [htake] at hselects
  rw [hselects.mpr fun hi _ => hdiff hi]
  unfold selects
  rw [if_pos hend]
  dsimp only
  cases type with
  | FLOAT => exact absurd rfl htype
  | INTEGER =>
    dsimp only
    rw [htake]
    refine op.holds_eq_relates ?_ ?_
    · rw [Int.compare_eq_lt]
      simp [Datatype.key, List.cons_lt_cons_iff]
    · rw [Int.compare_eq_eq]
      simp [Datatype.key]
  | STRING =>
    dsimp only
    have hlen : ((b.drop offset.toNat).take length.toNat).length = length.toNat := by
      rw [List.length_take, List.length_drop]
      omega
    obtain ⟨o, ho, hlt, heq⟩ :=
      strncmp_key length.toNat 0 hlen (show f.length = length.toNat by omega)
      (fun j => by rw [Nat.zero_add]) fun j => by rw [Nat.zero_add]
    rw [ho]
    exact op.holds_eq_relates hlt heq

/-! ## Joins -/

/-- The records of the join of `outer` and `inner`, in the order of the pairs: the attributes `ds`
of the pairs whose attributes `d₁` and `d₂` are related. -/
def relationalJoin (type : Datatype) (op : Operator) (d₁ d₂ : AttrDesc) (ds : List AttrDesc)
    (outer inner : List Bytes) : List Bytes :=
  thetaJoin (fun o i => op.relates (type.key (d₁.value o)) (type.key (d₂.value i)))
    (fun o i => ds.flatMap fun d => d.value (JoinPlan.source d₁.relName d o i)) outer inner

theorem relationalJoin_nil (type : Datatype) (op : Operator) (d₁ d₂ : AttrDesc)
    (ds : List AttrDesc) (inner : List Bytes) : relationalJoin type op d₁ d₂ ds [] inner = [] := rfl

/-- The numbers `x` and `y` may be compared by their difference, as far as the operator is
concerned. -/
def Operator.Subtracts (op : Operator) (x y : Int) : Prop :=
  op = .EQ ∨ op = .NE ∨ -2147483648 ≤ x - y ∧ x - y < 2147483648

/-- What the loops write is the join of the records. -/
theorem JoinPlan.Sound.rows_eq {plan : JoinPlan} {type : Datatype} {op : Operator}
    {outer inner : List Bytes} (h : plan.Sound type outer inner) (htype : type ≠ .FLOAT)
    (hop : plan.myop = op.mirror) (hlen : plan.attrDesc1.attrLen = plan.attrDesc2.attrLen)
    (hinner : ∀ i ∈ inner, plan.attrDesc2.Within i)
    (hdiff : type = .INTEGER → ∀ o ∈ outer, ∀ i ∈ inner, op.mirror.Subtracts
      (intOfBytes (plan.attrDesc2.value i)) (intOfBytes (plan.attrDesc1.value o))) :
    thetaJoin (plan.pairs type) plan.row outer inner =
      relationalJoin type op plan.attrDesc1 plan.attrDesc2 plan.attrDescArray outer inner := by
  refine thetaJoin_congr fun o ho i hi => ?_
  have hkey : plan.key o = plan.attrDesc1.value o := by
    unfold JoinPlan.key AttrDesc.value
    rw [hlen]
  have hwithin : plan.attrDesc1.Within o := by
    refine ⟨h.key.1, ?_, ?_⟩
    · rw [hlen]
      exact (hinner i hi).len_nonneg
    · rw [hlen]
      exact h.key.2 o ho
  unfold JoinPlan.pairs
  rw [hkey, hop, ← op.mirror_relates]
  obtain ⟨h₁, -, h₃⟩ := hinner i hi
  exact satisfies_eq_relates htype h₁ h₃ (hwithin.length_value.trans hlen) fun ht =>
    hdiff ht o ho i hi

/-- A join from the other side has the same records. -/
theorem relationalJoin_perm_swap {type : Datatype} {op : Operator} {d₁ d₂ : AttrDesc}
    {ds : List AttrDesc} {A B : List Bytes} (hne : cstr d₁.relName ≠ cstr d₂.relName)
    (hds : ∀ d ∈ ds, cstr d.relName = cstr d₁.relName ∨ cstr d.relName = cstr d₂.relName) :
    (relationalJoin type op d₁ d₂ ds A B).Perm (relationalJoin type op.mirror d₂ d₁ ds B A) := by
  refine thetaJoin_perm_swap.trans (List.Perm.of_eq ?_)
  have hrow : (fun b a => ds.flatMap fun d => d.value (JoinPlan.source d₁.relName d a b)) =
      fun b a => ds.flatMap fun d => d.value (JoinPlan.source d₂.relName d b a) := by
    funext b a
    refine List.flatMap_congr fun d hd => ?_
    unfold JoinPlan.source
    rcases hds d hd with hd | hd
    · rw [if_pos hd, if_neg fun h => hne (hd.symm.trans h)]
    · rw [if_neg fun h => hne (h.symm.trans hd), if_pos hd]
  unfold relationalJoin
  rw [hrow]
  exact thetaJoin_congr fun b _ a _ => (op.mirror_relates _ _).symm

end Minirel
