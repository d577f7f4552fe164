import Minirel.Catalog.Fuel
import Minirel.Join

/-!
# Joins with more fuel

With a larger bound on the rounds of its loops, `QU_Join` has the outcomes it had.
-/

namespace Minirel

open Comp

variable {m n : Nat}

theorem AttrCatalog.getInfo_mono (hle : m ≤ n) (relation attrName : Bytes) (record : AttrDesc) :
    Extends (getInfo m relation attrName record) (getInfo n relation attrName record) := by
  refine .ite (.refl _) (.bind_right _ fun r => .ite (.refl _) (.ite (.refl _) ?_))
  refine .bind (HeapFileScan.scanNext_mono hle _) fun r => ?_
  exact .bind (getLoop_mono hle attrName r.1 r.2.2 record) fun r => .refl _

theorem resolveLoop_mono (hle : m ≤ n) (projCnt : Int) (projNames : List AttrInfo) (i : Int)
    (theProjections : List AttrDesc) : Extends (resolveLoop m projCnt projNames i theProjections)
      (resolveLoop n projCnt projNames i theProjections) := by
  obtain ⟨k, hk⟩ : ∃ k, (projCnt - i).toNat = k := ⟨_, rfl⟩
  induction k generalizing i theProjections with
  | zero =>
    unfold resolveLoop
    rw [if_neg (by omega), if_neg (by omega)]
    exact .refl _
  | succ k ih =>
    conv => congr <;> unfold resolveLoop
    refine .ite (.ite (.refl _) (.bind_right _ fun p => .bind_right _ fun d => ?_)) (.refl _)
    refine .bind (AttrCatalog.getInfo_mono hle p.relName p.attrName d) fun r => .ite (.refl _) ?_
    exact ih (i + 1) _ (by omega)

/-! ## The loops of `QU_NL_Join` -/

variable {k l : Nat} {plan : JoinPlan}

theorem innerLoop_mono (hle : m ≤ n) (hkl : k ≤ l) (outerRec : RecPtr) (innerScan : HeapFileScan)
    (out : JoinOutput) :
    Extends (innerLoop m plan outerRec k innerScan out)
    (innerLoop n plan outerRec l innerScan out) := by
  induction k generalizing l innerScan out with
  | zero => exact .failure _
  | succ k ih =>
    obtain ⟨l, rfl⟩ : ∃ l', l = l' + 1 := ⟨l - 1, by omega⟩
    conv => congr <;> unfold innerLoop
    refine .bind (HeapFileScan.scanNext_mono hle innerScan) fun r => .ite (.refl _) ?_
    refine .bind_right _ fun rec => .ite (.refl _) (.bind_right _ fun out => ?_)
    exact ih (by omega) r.2.2 out

theorem joinOuter_mono (hle : m ≤ n) (outerRec : RecPtr) (out : JoinOutput) :
    Extends (joinOuter m plan outerRec out) (joinOuter n plan outerRec out) := by
  refine .bind_right _ fun relName => .bind_right _ fun r => .ite (.refl _)
    (.bind_right _ fun filter => ?_)
  refine .ite (.refl _) (.bind (innerLoop_mono hle hle outerRec _ out) fun r => .refl _)

theorem outerLoop_mono (hle : m ≤ n) (hkl : k ≤ l) (outerScan : HeapFileScan) (out : JoinOutput) :
    Extends (outerLoop m plan k outerScan out) (outerLoop n plan l outerScan out) := by
  induction k generalizing l outerScan out with
  | zero => exact .failure _
  | succ k ih =>
    obtain ⟨l, rfl⟩ : ∃ l', l = l' + 1 := ⟨l - 1, by omega⟩
    conv => congr <;> unfold outerLoop
    refine .bind (HeapFileScan.scanNext_mono hle outerScan) fun r => .ite (.refl _) ?_
    refine .bind_right _ fun rec => .ite (.refl _) (.bind (joinOuter_mono hle _ out) fun q => ?_)
    obtain ⟨early, out⟩ := q
    cases early with
    | some status => exact .refl _
    | none => exact ih (by omega) r.2.2 out

theorem joinScans_mono (hle : m ≤ n) (junkData : Nat → UInt8) (result : FileName) :
    Extends (joinScans m junkData plan result) (joinScans n junkData plan result) := by
  refine .bind_right _ fun r => .ite (.refl _) (.ite (.refl _) (.bind_right _ fun relName => ?_))
  refine .bind_right _ fun r => .ite (.refl _) (.ite (.refl _) ?_)
  exact .bind (outerLoop_mono hle hle _ _) fun r => .refl _

/-! ## The joins -/

theorem QU_NL_Join_mono (hle : m ≤ n) (junk : JoinLocals) (result : FileName) (projCnt : Int)
    (projNames : List AttrInfo) (attr1 : AttrInfo) (op : Operator) (attr2 : AttrInfo) :
    Extends (QU_NL_Join m junk result projCnt projNames attr1 op attr2)
      (QU_NL_Join n junk result projCnt projNames attr1 op attr2) := by
  refine .ite (.refl _)
    (.ite (.refl _) (.bind (resolveLoop_mono hle projCnt projNames 0 _) fun r => ?_))
  obtain ⟨early, i, arr⟩ := r
  cases early with
  | some status => exact .refl _
  | none =>
    refine .bind (AttrCatalog.getInfo_mono hle _ _ _) fun r => .ite (.refl _) ?_
    refine .bind (AttrCatalog.getInfo_mono hle _ _ _) fun r => .ite (.refl _) ?_
    exact .bind_right _ fun reclen => joinScans_mono hle _ _

/-- `QU_Join` with a larger bound. -/
theorem QU_Join_mono (hle : m ≤ n) (JoinMethod : JoinType) (junk : JoinLocals) (result : FileName)
    (projCnt : Int) (projNames : List AttrInfo) (attr1 : AttrInfo) (op : Operator)
    (attr2 : AttrInfo) :
    Extends (QU_Join JoinMethod m junk result projCnt projNames attr1 op attr2)
      (QU_Join JoinMethod n junk result projCnt projNames attr1 op attr2) :=
  .ite (QU_NL_Join_mono hle junk result projCnt projNames attr1 op attr2) (.refl _)

end Minirel
