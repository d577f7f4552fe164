import Minirel.Catalog
import Minirel.Lib.Fuel

/-!
# Scans of the catalogs with more fuel

The bound on the number of rounds that `scanNext` and the loops of the catalogs take does not
change what they do: with a larger bound each has the outcomes it had.
-/

namespace Minirel

open Comp

namespace HeapFileScan

variable {m n : Nat}

theorem seekPage_succ (n : Nat) (h : HeapFileScan) : Extends (seekPage n h)
    (seekPage (n + 1) h) := by
  induction n generalizing h with
  | zero => exact .failure _
  | succ n ih =>
    conv => congr <;> unfold seekPage
    refine .bind_right _ fun blk => .ite (.refl _) (.bind_right _ fun st => .ite (.refl _) ?_)
    refine .bind_right _ fun r => .ite (.refl _)
      (.bind_right _ fun blk => .bind_right _ fun r => ?_)
    exact .ite (.refl _) (ih _)

theorem advance_mono (hle : m ≤ n) (h : HeapFileScan) : Extends (advance m h) (advance n h) :=
  .bind_right _ fun _ => .bind_right _ fun _ =>
    .ite (.refl _) (.of_le (fun n => seekPage_succ n h) hle)

theorem scanLoop_succ (n : Nat) (h : HeapFileScan) : Extends (scanLoop n h)
    (scanLoop (n + 1) h) := by
  induction n generalizing h with
  | zero => exact .failure _
  | succ n ih =>
    conv => congr <;> unfold scanLoop
    refine .bind (advance_mono (Nat.le_succ n) h) fun r => .ite (.refl _) ?_
    refine .bind_right _ fun blk => .bind_right _ fun r => .ite (.refl _) ?_
    exact .bind_right _ fun found => .ite (.refl _) (ih _)

theorem scanLoop_mono (hle : m ≤ n) (h : HeapFileScan) : Extends (scanLoop m h) (scanLoop n h) :=
  .of_le (fun n => scanLoop_succ n h) hle

theorem scanFirst_mono (hle : m ≤ n) (h : HeapFileScan) : Extends (scanFirst m h)
    (scanFirst n h) := by
  unfold scanFirst
  refine .bind_right _ fun hdr => .ite (.refl _) (.bind_right _ fun r => .ite (.refl _) ?_)
  refine .bind_right _ fun blk => .bind_right _ fun r => .ite (.refl _) ?_
  refine .bind_right _ fun r => .ite (.refl _) (.bind_right _ fun found => .ite (.refl _) ?_)
  exact scanLoop_mono hle _

/-- `scanNext` with a larger bound. -/
theorem scanNext_mono (hle : m ≤ n) (h : HeapFileScan) : Extends (scanNext m h) (scanNext n h) :=
  .ite (.refl _) (.ite (scanFirst_mono hle h) (scanLoop_mono hle h))

end HeapFileScan

open HeapFileScan

namespace RelCatalog

variable {m n : Nat}

theorem getInfo_mono (hle : m ≤ n) (relation : Bytes) (record : RelDesc) :
    Extends (getInfo m relation record) (getInfo n relation record) := by
  refine .ite (.refl _) (.bind_right _ fun r => .ite (.refl _) (.ite (.refl _) ?_))
  exact .bind (scanNext_mono hle _) fun r => .refl _

/-- `createRel` with a larger bound. -/
theorem createRel_mono (hle : m ≤ n) (rd : RelDesc) (ad : AttrDesc) (relation : Bytes)
    (attrCnt : Int) (attrList : List AttrInfo) :
    Extends (createRel m rd ad relation attrCnt attrList)
    (createRel n rd ad relation attrCnt attrList) :=
  .ite (.refl _) (.ite (.refl _) (.bind (getInfo_mono hle relation rd) fun _ => .refl _))

theorem removeLoop_succ (n : Nat) (relation : Bytes) (ret status : Status) (hfs : HeapFileScan) :
    Extends (removeLoop relation ret n status hfs)
    (removeLoop relation ret (n + 1) status hfs) := by
  induction n generalizing status hfs with
  | zero => exact .failure _
  | succ n ih =>
    conv => congr <;> unfold removeLoop
    refine .ite (.refl _) (.ite (.refl _) (.bind_right _ fun r => .ite (.refl _) ?_))
    refine .bind_right _ fun b => .bind_right _ fun same => .ite (.refl _) ?_
    exact .bind (scanNext_mono (Nat.le_succ n) hfs) fun r => ih r.1 r.2.2

theorem removeInfo_mono (hle : m ≤ n) (status ret : Status) (relation : Bytes) :
    Extends (removeInfo m status ret relation) (removeInfo n status ret relation) := by
  refine .ite (.refl _) (.bind_right _ fun r => .ite (.refl _) (.ite (.refl _) ?_))
  exact .bind (scanNext_mono hle _) fun r => .of_le
    (fun k => removeLoop_succ k relation ret r.1 r.2.2) hle

end RelCatalog

namespace AttrCatalog

variable {m n : Nat}

theorem getLoop_succ (attrName : Bytes) (n : Nat) (status : Status) (hfs : HeapFileScan)
    (record : AttrDesc) :
    Extends (getLoop attrName n status hfs record)
    (getLoop attrName (n + 1) status hfs record) := by
  induction n generalizing status hfs record with
  | zero => exact .failure _
  | succ n ih =>
    conv => congr <;> unfold getLoop
    refine .ite (.refl _) (.bind_right _ fun r => .ite (.refl _) ?_)
    refine .bind_right _ fun b => .bind_right _ fun mem => .bind_right _ fun name =>
      .ite (.refl _) ?_
    exact .bind (scanNext_mono (Nat.le_succ n) hfs) fun r => ih r.1 r.2.2 _

theorem getLoop_mono (hle : m ≤ n) (attrName : Bytes) (status : Status) (hfs : HeapFileScan)
    (record : AttrDesc) :
    Extends (getLoop attrName m status hfs record) (getLoop attrName n status hfs record) :=
  .of_le (fun k => getLoop_succ attrName k status hfs record) hle

theorem relInfoLoop_succ (n : Nat) (relation : Bytes) (status : Status) (hfs : HeapFileScan)
    (amount : Int) (attrs : List AttrDesc) :
    Extends (relInfoLoop relation n status hfs amount attrs)
      (relInfoLoop relation (n + 1) status hfs amount attrs) := by
  induction n generalizing status hfs amount attrs with
  | zero => exact .failure _
  | succ n ih =>
    conv => congr <;> unfold relInfoLoop
    refine .ite (.refl _)
      (.ite (.refl _) (.ite (.refl _) (.bind_right _ fun r => .ite (.refl _) ?_)))
    refine .bind_right _ fun b => .bind_right _ fun same => ?_
    exact .bind (scanNext_mono (Nat.le_succ n) hfs) fun r => ih r.1 r.2.2 _ _

theorem getRelInfo_mono (hle : m ≤ n) (junk : RelDesc) (junkAttr : AttrDesc) (relation : Bytes)
    (attrCnt : Int) (attrs : List AttrDesc) :
    Extends (getRelInfo m junk junkAttr relation attrCnt attrs)
      (getRelInfo n junk junkAttr relation attrCnt attrs) := by
  refine .ite (.refl _)
    (.bind (RelCatalog.getInfo_mono hle relation junk) fun r => .ite (.refl _) ?_)
  refine .ite (.refl _) (.bind_right _ fun r => .ite (.refl _) (.ite (.refl _) ?_))
  refine .bind (scanNext_mono hle _) fun r => ?_
  exact .bind (.of_le (fun k => relInfoLoop_succ k relation r.1 r.2.2 _ _) hle) fun r => .refl _

theorem dropLoop_succ (n : Nat) (relation : Bytes) (status got : Status) (scan : HeapFileScan) :
    Extends (dropLoop relation n status got scan) (dropLoop relation (n + 1) status got scan) := by
  induction n generalizing status got scan with
  | zero => exact .failure _
  | succ n ih =>
    conv => congr <;> unfold dropLoop
    refine .ite (.refl _) (.bind_right _ fun r => .ite (.refl _) ?_)
    refine .bind_right _ fun b => .bind_right _ fun same => .ite ?_ ?_
    · refine .bind_right _ fun d => .bind (scanNext_mono (Nat.le_succ n) _) fun r => ?_
      exact ih r.1 _ r.2.2
    · exact .bind (scanNext_mono (Nat.le_succ n) scan) fun r => ih r.1 _ r.2.2

theorem dropLoop_mono (hle : m ≤ n) (relation : Bytes) (status got : Status) (scan : HeapFileScan) :
    Extends (dropLoop relation m status got scan) (dropLoop relation n status got scan) :=
  .of_le (fun k => dropLoop_succ k relation status got scan) hle

theorem dropAttrs_mono (hle : m ≤ n) (got : Status) (relation : Bytes) :
    Extends (dropAttrs m got relation) (dropAttrs n got relation) := by
  refine .bind_right _ fun r => .ite (.refl _) (.ite (.refl _) ?_)
  refine .bind (scanNext_mono hle _) fun r => ?_
  exact .bind (dropLoop_mono hle relation r.1 got r.2.2) fun r => .refl _

theorem dropRelation_mono (hle : m ≤ n) (got ended : Status) (relation : Bytes) :
    Extends (dropRelation m got ended relation) (dropRelation n got ended relation) := by
  refine .ite (.refl _) (.bind_right _ fun r => .ite (.refl _) (.ite (.refl _) ?_))
  refine .bind (scanNext_mono hle _) fun r => ?_
  refine .bind (dropLoop_mono hle relation r.1 _ r.2.2) fun r => ?_
  refine .ite (.refl _) (.ite (.refl _) (.bind_right _ fun r => .ite (.refl _) ?_))
  exact dropAttrs_mono hle got relation

end AttrCatalog

/-- `destroyRel` with a larger bound. -/
theorem RelCatalog.destroyRel_mono {m n : Nat} (hle : m ≤ n) (u : Unset) (relation : Bytes) :
    Extends (destroyRel m u relation) (destroyRel n u relation) := by
  refine .ite (.refl _)
    (.bind (removeInfo_mono hle u.status u.ret relation) fun st => .ite (.refl _) ?_)
  exact .bind (AttrCatalog.dropRelation_mono hle u.got u.ended relation) fun st => .refl _

end Minirel
