import Mathlib.Algebra.Order.BigOperators.Group.List
import Minirel.Join.Scans
import Minirel.Lib.ThetaJoin

/-!
# The two loops of `QU_NL_Join`

The filter of the inner scan points into the page of the outer record, which stays pinned as long as
the inner scan goes on. Each pair that passes is one record more at the end of the result.

## Main definitions

* `JoinPlan.row`, `JoinPlan.pairs`: what is made of a pair, and which pairs there are.
* `JoinPlan.rows`, `JoinPlan.result`: what is written, and what is returned.
* `JoinPlan.Sound`: what the records of the two relations have to be like.
* `JoinOutput.Wrote`: the rows that have been written.

## Main results

* `copyAttrs_spec`: the bytes of a result record.
* `innerLoop_spec`, `outerLoop_spec`: the loops write the join of the records.
* `joinScans_spec`: all files but the result are left as they were.
-/

namespace Minirel

open Comp HeapFile HeapFileScan InsertFileScan Relational

/-! ## Attributes of records -/

/-- The bytes of the attribute in a record. -/
def AttrDesc.value (d : AttrDesc) (b : Bytes) : Bytes :=
  (b.drop d.attrOffset.toNat).take d.attrLen.toNat

/-- The record has the attribute. -/
structure AttrDesc.Within (d : AttrDesc) (b : Bytes) : Prop where
  offset_nonneg : 0 ≤ d.attrOffset
  len_nonneg : 0 ≤ d.attrLen
  end_le : d.attrOffset + d.attrLen ≤ b.length

theorem AttrDesc.Within.length_value {d : AttrDesc} {b : Bytes} (h : d.Within b) :
    ((d.value b).length : Int) = d.attrLen := by
  obtain ⟨h₁, h₂, h₃⟩ := h
  unfold AttrDesc.value
  rw [List.length_take, List.length_drop]
  omega

/-- `strcmp` of two C strings. -/
theorem strcmpEq_cstr {a b : Bytes} (ha : 0 ∈ a) (hb : 0 ∈ b) :
    strcmpEq a b = some (decide (cstr a = cstr b)) := by
  induction a generalizing b with
  | nil => cases ha
  | cons x a ih =>
    cases b with
    | nil => cases hb
    | cons y b =>
      show (if x ≠ y then some false else if x = 0 then some true else strcmpEq a b) = _
      by_cases hxy : x = y
      · subst hxy
        rw [if_neg (not_not.mpr rfl)]
        by_cases hx : x = 0
        · rw [if_pos hx, hx, cstr_cons_zero, cstr_cons_zero]
          rfl
        · have ha' : 0 ∈ a := (List.mem_cons.mp ha).resolve_left (Ne.symm hx)
          have hb' : 0 ∈ b := (List.mem_cons.mp hb).resolve_left (Ne.symm hx)
          rw [if_neg hx, ih ha' hb', cstr_cons_of_ne hx, cstr_cons_of_ne hx]
          simp
      · rw [if_pos hxy, decide_eq_false (cstr_cons_ne hxy a b)]

/-! ## Rows -/

namespace JoinPlan

/-- Where an attribute of the result is copied from: the outer record or the inner one. -/
def source (relName : Bytes) (d : AttrDesc) (outer inner : Bytes) : Bytes :=
  if cstr d.relName = cstr relName then outer else inner

/-- The result record for two records. -/
def row (plan : JoinPlan) (outer inner : Bytes) : Bytes :=
  plan.attrDescArray.flatMap fun d => d.value (source plan.attrDesc1.relName d outer inner)

/-- The value that the inner scan compares with. -/
def key (plan : JoinPlan) (outer : Bytes) : Bytes :=
  (outer.drop plan.attrDesc1.attrOffset.toNat).take plan.attrDesc2.attrLen.toNat

/-- Whether the inner scan selects the record. -/
def pairs (plan : JoinPlan) (type : Datatype) (outer inner : Bytes) : Bool :=
  satisfies plan.attrDesc2.attrOffset plan.attrDesc2.attrLen type
    (some (plan.key outer)) plan.myop inner

/-- `startScan` accepts the attribute of the inner relation. -/
def Accepts (plan : JoinPlan) (type : Datatype) : Prop :=
  1 ≤ plan.attrDesc2.attrLen ∧ (type ≠ .STRING → plan.attrDesc2.attrLen = 4)

instance (plan : JoinPlan) (type : Datatype) : Decidable (plan.Accepts type) :=
  inferInstanceAs (Decidable (_ ∧ _))

/-- The rows that are written. An attribute that `startScan` does not accept ends the loops at the
first outer record. -/
def rows (plan : JoinPlan) (type : Datatype) (outer inner : List Bytes) : List Bytes :=
  if plan.Accepts type then thetaJoin (plan.pairs type) plan.row outer inner else []

/-- The status that the loops are left with, if they are left early. -/
def early (plan : JoinPlan) (type : Datatype) (outer : List Bytes) : Option Status :=
  if outer = [] ∨ plan.Accepts type then none else some .BADSCANPARM

/-- What the join returns, and the number that it prints. -/
def result (plan : JoinPlan) (type : Datatype) (outer inner : List Bytes) : Status × Option Int :=
  match plan.early type outer with
  | some status => (status, none)
  | none => (.OK, some (toInt (plan.rows type outer inner).length))

/-- The descriptors describe the records of the two relations, and a result record fits on a
page. -/
structure Sound (plan : JoinPlan) (type : Datatype) (outer inner : List Bytes) : Prop where
  attrType : Datatype.ofCode plan.attrDesc2.attrType = some type
  relName : 0 ∈ plan.attrDesc1.relName ∧ ∀ d ∈ plan.attrDescArray, 0 ∈ d.relName
  /-- The outer records have the bytes that are compared. -/
  key : 0 ≤ plan.attrDesc1.attrOffset ∧
    ∀ o ∈ outer, plan.attrDesc1.attrOffset + plan.attrDesc2.attrLen ≤ o.length
  filter : 0 ≤ plan.attrDesc2.attrOffset ∧
    plan.attrDesc2.attrOffset + plan.attrDesc2.attrLen < 2147483648
  attrs : ∀ d ∈ plan.attrDescArray, ∀ o ∈ outer, ∀ i ∈ inner,
    d.Within (source plan.attrDesc1.relName d o i)
  reclen : plan.reclen = (plan.attrDescArray.map AttrDesc.attrLen).sum
  width : 1 ≤ plan.reclen ∧ plan.reclen ≤ 1000

end JoinPlan

/-! ## A pair -/

section Pair

variable {T : Prop} {s : Sys} {P : Multiset Pin} {v : View} {nmO nmI : FileName} {yO yI : Pin}
  {outerRec innerRec : RecPtr} {o i relName : Bytes}

/-- Copying to memory that is long enough. -/
theorem memcpyAt_append {pre rest src : Bytes} (h : src.length ≤ rest.length) :
    memcpyAt (pre ++ rest) pre.length src = some (pre ++ src ++ rest.drop src.length) := by
  unfold memcpyAt
  rw [if_pos, Int.toNat_natCast, List.take_left, List.drop_append]
  · simp
  · rw [Int.toNat_natCast, List.length_append]
    omega

/-- The attributes that are left are copied behind those that have been copied. -/
theorem copyAttrs_spec {ds : List AttrDesc} (hc : Coh s P v) (hO : RecPtr.At v nmO yO outerRec o)
    (hI : RecPtr.At v nmI yI innerRec i) (hyO : yO ∈ P) (hyI : yI ∈ P) (hrel : 0 ∈ relName)
    (hds : ∀ d ∈ ds, 0 ∈ d.relName ∧ d.Within (JoinPlan.source relName d o i)) (pre rest : Bytes)
    (hlen : (rest.length : Int) = (ds.map AttrDesc.attrLen).sum)
    (hmax : pre.length + rest.length ≤ 1000) :
    Yields (copyAttrs relName outerRec innerRec ds pre.length (pre ++ rest)) s
      (pre ++ ds.flatMap fun d => d.value (JoinPlan.source relName d o i)) false s := by
  induction ds generalizing pre rest with
  | nil =>
    have hnil : rest = [] := List.eq_nil_of_length_eq_zero (by simpa using hlen)
    subst hnil
    exact Yields.pure _ _
  | cons d ds ih =>
    obtain ⟨h0, hwithin⟩ := hds d List.mem_cons_self
    have hds' := fun d' hd' => hds d' (List.mem_cons_of_mem d hd')
    have hrest : 0 ≤ (ds.map AttrDesc.attrLen).sum := by
      refine List.sum_nonneg fun n hn => ?_
      obtain ⟨d', hd', rfl⟩ := List.mem_map.mp hn
      exact (hds' d' hd').2.len_nonneg
    have hvalue := hwithin.length_value
    rw [List.map_cons, List.sum_cons] at hlen
    set src := d.value (JoinPlan.source relName d o i) with hsrc
    -- the attribute is read off one of the two records
    have hread : Yields ((if decide (cstr d.relName = cstr relName) = true then outerRec
      else innerRec).read
        d.attrOffset d.attrLen) s src false s := by
      obtain ⟨h₁, h₂, h₃⟩ := hwithin
      rw [hsrc]
      unfold JoinPlan.source at h₃ ⊢
      by_cases hd : cstr d.relName = cstr relName
      · rw [if_pos hd] at h₃ ⊢
        rw [if_pos (decide_eq_true hd)]
        exact hO.read hc hyO h₁ h₂ h₃
      · rw [if_neg hd] at h₃ ⊢
        rw [if_neg (by simpa using hd)]
        exact hI.read hc hyI h₁ h₂ h₃
    unfold copyAttrs
    rw [strcmpEq_cstr h0 hrel, List.flatMap_cons, ← hsrc, ← List.append_assoc]
    refine Yields.bind (e := false) (d := false) rfl (hread.bind (d := false) ?_)
    rw [memcpyAt_append (by omega)]
    refine Yields.bind (e := false) (d := false) rfl ?_
    have hoffset : toInt (pre.length + d.attrLen) = ((pre ++ src).length : Int) := by
      rw [toInt_eq (by omega) (by omega), List.length_append, Nat.cast_add, hvalue]
    rw [hoffset]
    refine ih hds' (pre ++ src) (rest.drop src.length) ?_ ?_
    · rw [List.length_drop]
      omega
    · rw [List.length_append, List.length_drop]
      omega

end Pair

/-! ## What has been written -/

/-- Since the view `v₀` the rows have been added to the result, and nothing else has been done. -/
structure JoinOutput.Wrote (v₀ : View) (nm : FileName) (c : Int) (fv₀ : FileView) (H₀ : Heap)
    (reclen : Int) (rows : List Bytes) (v : View) (out : JoinOutput) (x y : Pin) : Prop where
  file : ∃ fv H, v = v₀.setFile nm (some fv) ∧ Writer v nm c out.resultRel fv H x y ∧ H.Sized ∧
    Heap.Grows fv₀ fv H₀ H ∧ H.rows = (rows : Multiset Bytes) + H₀.rows ∧
    (H₀.Packed → H.contents = H₀.contents ++ rows) ∧ (H₀.Counted → H.Counted)
  data : (out.outputData.length : Int) = reclen
  count : out.resultTupCnt = toInt rows.length

section Loops

variable {T : Prop} {s : Sys} {P : Multiset Pin} {v₀ v : View} {nmO nmI nmR : FileName}
  {cO cI cR : Int} {fvO fvI fvR : FileView} {HO HI HR : Heap} {plan : JoinPlan} {type : Datatype}
  {xO yO xI yI xR yR : Pin} {outerRec innerRec : RecPtr} {o i : Bytes} {out : JoinOutput}
  {outerScan innerScan scan : HeapFileScan} {l : List (RID × Bytes)} {rows : List Bytes}
  {outer inner : List Bytes}

/-- A row is as long as the record that is written. -/
theorem JoinPlan.Sound.length_row (h : plan.Sound type outer inner) (ho : o ∈ outer)
    (hi : i ∈ inner) :
    ((plan.row o i).length : Int) = plan.reclen := by
  rw [h.reclen]
  have hattrs := fun d hd => h.attrs d hd o ho i hi
  unfold JoinPlan.row
  generalize plan.attrDescArray = ds at hattrs ⊢
  induction ds with
  | nil => rfl
  | cons d ds ih =>
    rw [List.flatMap_cons, List.length_append, List.map_cons, List.sum_cons, Nat.cast_add,
      (hattrs d List.mem_cons_self).length_value, ih fun d' hd' => hattrs d'
        (List.mem_cons_of_mem d hd')]

theorem toInt_succ (n : Nat) : toInt (toInt n + 1) = toInt (n + 1 : Nat) := by
  unfold toInt
  omega

/-- A pair that passes is one row more. -/
theorem joinPair_spec (hplan : plan.Sound type outer inner) (ho : o ∈ outer) (hi : i ∈ inner)
    (hc : Coh s (yR ::ₘ xR ::ₘ P) v) (hO : RecPtr.At v nmO yO outerRec o)
    (hI : RecPtr.At v nmI yI innerRec i) (hyO : yO ∈ P) (hyI : yI ∈ P)
    (hW : out.Wrote v₀ nmR cR fvR HR plan.reclen rows v xR yR)
    (hT : T → 0 < freeFrames v.numBufs (yR ::ₘ xR ::ₘ P)) :
    Clean T (joinPair plan outerRec innerRec out) s fun out' s' => ∃ v' x' y',
      Coh s' (y' ::ₘ x' ::ₘ P) v' ∧
      out'.Wrote v₀ nmR cR fvR HR plan.reclen (rows ++ [plan.row o i]) v' x' y' := by
  obtain ⟨⟨fv, H, hv, hw, hsized, hgrows, hrows, hcontents, hcounted⟩, hdata, hcount⟩ := hW
  have hlen := hplan.length_row ho hi
  have hcopy := copyAttrs_spec hc hO hI (Multiset.mem_cons_of_mem (Multiset.mem_cons_of_mem hyO))
    (Multiset.mem_cons_of_mem (Multiset.mem_cons_of_mem hyI)) hplan.relName.1
    (fun d hd => ⟨hplan.relName.2 d hd, hplan.attrs d hd o ho i hi⟩) [] out.outputData
    (hdata.trans hplan.reclen) (by have := hplan.width.2; rw [List.length_nil]; omega)
  have hcopy : Yields (copyAttrs plan.attrDesc1.relName outerRec innerRec plan.attrDescArray 0
    out.outputData) s (plan.row o i) false s := hcopy
  have hread : Record.Readable ⟨plan.row o i, plan.reclen⟩ :=
    ⟨hlen ▸ Int.natCast_nonneg _, hlen.ge⟩
  have hbytes : Record.bytes ⟨plan.row o i, plan.reclen⟩ = plan.row o i := by
    unfold Record.bytes
    rw [← hlen, Int.toNat_natCast, List.take_length]
  unfold joinPair
  rw [clean_bind_of_yields hcopy]
  refine (hw.insert hc hread hread.1 hplan.width.2 hT).bind ?_
  rintro ⟨st, rid, resultRel⟩ s' ⟨hst, x', y', fv', H', hc', hw', hgrows', hadd⟩
  dsimp only at hst hw' hadd ⊢
  rw [hbytes] at hadd
  rw [hst, if_neg fun hn => hn rfl, clean_pure]
  have hne : plan.row o i ≠ [] := fun hnil => by
    have := hplan.width.1
    rw [← hlen, hnil] at this
    exact absurd this (by decide)
  refine ⟨_, x', y', hc', ⟨fv', H', ?_, hw', ?_, hgrows.trans hgrows', ?_, fun hpacked => ?_,
    fun hcnt => hadd.counted hw.heapAt hw'.heapAt (hcounted hcnt)⟩, hlen, ?_⟩
  · rw [hv, View.setFile_setFile]
  · obtain ⟨-, -, hrec, -⟩ | ⟨hne', -⟩ := hadd
    · exact hsized.insert hne hrec
    · exact absurd rfl hne'
  · rw [hadd.rows hw.heapAt hw'.heapAt, hrows, ← Multiset.coe_add, ← Multiset.cons_add,
      add_comm (rows : Multiset Bytes)]
    rfl
  · have hpre := (hgrows'.ordered (hgrows.ordered hpacked).1).2
    rw [hadd.contents_ok hw.heapAt hw'.heapAt hpre, hcontents hpacked, List.append_assoc]
  · dsimp only
    rw [hcount, toInt_succ, List.length_append]
    rfl

/-! ## The inner loop -/

namespace JoinOutput.Wrote

variable {c : Int} {fv₀ : FileView} {H₀ : Heap} {reclen : Int} {x y : Pin} {nm : FileName}

/-- Only the result has changed. -/
theorem other (h : out.Wrote v₀ nmR c fv₀ H₀ reclen rows v x y) (hne : nm ≠ nmR) :
    v.file nm = v₀.file nm ∧ v.handle nm = v₀.handle nm := by
  obtain ⟨fv, H, rfl, -⟩ := h.file
  exact ⟨View.file_setFile_of_ne hne, rfl⟩

theorem numBufs (h : out.Wrote v₀ nmR c fv₀ H₀ reclen rows v x y) : v.numBufs = v₀.numBufs := by
  obtain ⟨fv, H, rfl, -⟩ := h.file
  rfl

/-- Another file has been opened or closed. -/
theorem setHandle (h : out.Wrote v₀ nmR c fv₀ H₀ reclen rows v x y) (hne : nm ≠ nmR)
    (d : Option (FilePtr × Int)) :
    out.Wrote (v₀.setHandle nm d) nmR c fv₀ H₀ reclen rows (v.setHandle nm d) x y := by
  obtain ⟨⟨fv, H, rfl, hw, hrest⟩, hdata, hcount⟩ := h
  exact ⟨⟨fv, H, rfl, hw.congr rfl (View.handle_setHandle_of_ne hne.symm), hrest⟩, hdata, hcount⟩

/-- The pins on the result are not on another file. -/
theorem file_ne {f : FilePtr} {d : Int} {Q : Multiset Pin}
    (h : out.Wrote v₀ nmR c fv₀ H₀ reclen rows v x y) (hc : Coh s Q v)
    (hh : v.handle nm = some (f, d)) (hne : nm ≠ nmR) : x.file ≠ f ∧ y.file ≠ f := by
  obtain ⟨fv, H, -, hw, -⟩ := h.file
  have hfile : out.resultRel.filePtr ≠ f := by
    rintro rfl
    exact hne (hc.name_unique hh hw.handle)
  exact ⟨hw.header.file ▸ hfile, hw.page.file ▸ hfile⟩

/-- The other heap files are as they were. -/
theorem isHeap {fv : FileView} {H : Heap} (h : out.Wrote v₀ nmR c fv₀ H₀ reclen rows v x y)
    (hne : nm ≠ nmR) (hH : IsHeap v₀ nm fv H) : IsHeap v nm fv H := by
  obtain ⟨hfile, hhandle⟩ := h.other hne
  exact { hH with
    file := hfile.trans hH.file
    opened := fun f d hh => hH.opened f d (hhandle.symm.trans hh) }

end JoinOutput.Wrote

/-- Six pins take six frames at most, and five of them five. -/
theorem freeFrames_pairs {N : Nat} (h : 7 ≤ freeFrames N P) (x y x' y' x'' y'' : Pin) :
    0 < freeFrames N (x ::ₘ y' ::ₘ x' ::ₘ y'' ::ₘ x'' ::ₘ P) ∧
      0 < freeFrames N (y ::ₘ x ::ₘ y' ::ₘ x' ::ₘ y'' ::ₘ x'' ::ₘ P) := by
  have h₁ := freeFrames_cons_cons N x'' y'' P
  have h₂ := freeFrames_cons_cons N x' y' (y'' ::ₘ x'' ::ₘ P)
  have h₃ := freeFrames_cons N x (y' ::ₘ x' ::ₘ y'' ::ₘ x'' ::ₘ P)
  have h₄ := freeFrames_cons N y (x ::ₘ y' ::ₘ x' ::ₘ y'' ::ₘ x'' ::ₘ P)
  omega

/-- The pins on the result in front of the others. -/
theorem pins_rotate (x y x' y' x'' y'' : Pin) (P : Multiset Pin) :
    y ::ₘ x ::ₘ y' ::ₘ x' ::ₘ y'' ::ₘ x'' ::ₘ P = y'' ::ₘ x'' ::ₘ y ::ₘ x ::ₘ y' ::ₘ x' ::ₘ P := by
  rw [pins_swap x' y' x'' y'', pins_swap x y x'' y'']

/-- The parameters of the inner scan. -/
theorem JoinPlan.Sound.compares (h : plan.Sound type outer inner) (hacc : plan.Accepts type)
    (ho : o ∈ outer) :
    Compares plan.attrDesc2.attrOffset plan.attrDesc2.attrLen type (plan.key o) := by
  obtain ⟨h₁, h₄⟩ := h.filter
  obtain ⟨h₂, h₃⟩ := hacc
  refine ⟨h₁, h₂, h₃, h₄, Or.inl ?_⟩
  have hle := h.key.2 o ho
  have hpos := h.key.1
  unfold JoinPlan.key
  rw [List.length_take, List.length_drop]
  omega

/-- `matchRec` of the inner scan compares with the outer record, as long as its page is pinned. -/
theorem answers_inner {R : Multiset Pin} (hplan : plan.Sound type outer inner)
    (hacc : plan.Accepts type) (ho : o ∈ outer) (hrec : RecPtr.At v nmO yO outerRec o)
    (hne : nmO ≠ nmI) (hyO : yO ∈ R) :
    Answers T R v nmI { scan with
      offset := plan.attrDesc2.attrOffset, length := plan.attrDesc2.attrLen, type
      filter := some (.pool yO.frame (outerRec.record.data + plan.attrDesc1.attrOffset))
      op := plan.myop } fun _ _ b a => a = plan.pairs type o b := by
  refine answers_filter rfl (hplan.compares hacc ho) fun s P fv hc hR j hj => ?_
  have hrec' : RecPtr.At (v.setFile nmI (some fv)) nmO yO outerRec o :=
    hrec.congr (View.file_setFile_of_ne hne) rfl
  exact hrec'.charAt hc (Multiset.mem_of_le hR hyO) hplan.key.1 (hplan.key.2 o ho) hj

/-- The inner loop writes a row for each record that is left of its scan. -/
theorem innerLoop_spec (fuel n : Nat) (hplan : plan.Sound type outer inner)
    (hacc : plan.Accepts type) (ho : o ∈ outer)
    (hl : ∀ q ∈ l, q.2 ∈ inner) (hOI : nmO ≠ nmI) (hOR : nmO ≠ nmR) (hIR : nmI ≠ nmR)
    (hrec : RecPtr.At v₀ nmO yO outerRec o)
    (hc : Coh s (yI ::ₘ xI ::ₘ yO ::ₘ xO ::ₘ yR ::ₘ xR ::ₘ P) v)
    (hI : Reader v₀ nmI cI (plan.pairs type o) innerScan fvI HI xI yI l)
    (hmoves : Moves { scan with
      offset := plan.attrDesc2.attrOffset, length := plan.attrDesc2.attrLen, type
      filter := some (.pool yO.frame (outerRec.record.data + plan.attrDesc1.attrOffset))
      op := plan.myop } innerScan)
    (hW : out.Wrote v₀ nmR cR fvR HR plan.reclen rows v xR yR)
    (hT : T → 7 ≤ freeFrames v₀.numBufs P ∧ l.length < n ∧
    HI.rids.length + HI.pages.length + 1 ≤ fuel) :
    Clean T (innerLoop fuel plan outerRec n innerScan out) s fun r s' => ∃ v' yI' xR' yR',
      Coh s' (yI' ::ₘ xI ::ₘ yO ::ₘ xO ::ₘ yR' ::ₘ xR' ::ₘ P) v' ∧
      Reader v₀ nmI cI (plan.pairs type o) r.1 fvI HI xI yI' [] ∧
      r.2.Wrote v₀ nmR cR fvR HR plan.reclen (rows ++ l.map fun q => plan.row o q.2) v'
        xR' yR' := by
  induction n generalizing s v innerScan yI xR yR out rows l with
  | zero => exact Clean.failure fun ht => absurd (hT ht).2.1 (Nat.not_lt_zero _)
  | succ n ih =>
    obtain ⟨hfileI, hhandleI⟩ := hW.other hIR
    obtain ⟨hfileO, hhandleO⟩ := hW.other hOR
    have hrecv := hrec.congr hfileO hhandleO
    have hans : Answers T (yO ::ₘ xO ::ₘ yR ::ₘ xR ::ₘ P) v nmI innerScan
        fun _ _ b a => a = plan.pairs type o b :=
      (answers_inner hplan hacc ho hrecv hOI (Multiset.mem_cons_self _ _)).moves hmoves
    unfold innerLoop
    refine ((hI.congr hfileI hhandleI).next fuel hc hans fun ht => ⟨?_, (hT ht).2.2⟩).bind ?_
    · rw [hW.numBufs]
      exact (freeFrames_pairs (hT ht).1 xI yI xO yO xR yR).1
    rintro ⟨st, rid, scan'⟩ s₁ ⟨hm, hnext, yI', hc₁, hI₁⟩
    dsimp only at hm hnext hI₁ ⊢
    cases hnext with
    | eof =>
      rw [if_pos nofun, clean_pure]
      refine ⟨v, yI', xR, yR, hc₁, hI₁.congr hfileI.symm hhandleI.symm, ?_⟩
      rw [List.map_nil, List.append_nil]
      exact hW
    | @record rid b l hr =>
      rw [if_neg fun hn => hn rfl]
      obtain ⟨rec, hget, hat⟩ := hI₁.getRecord hc₁ hr
      rw [clean_bind_of_yields hget]
      dsimp only
      rw [if_neg fun hn => hn rfl]
      rw [pins_rotate] at hc₁
      refine (joinPair_spec hplan ho (hl _ List.mem_cons_self) hc₁ hrecv hat ?_ ?_ hW
        fun ht => ?_).bind ?_
      · simp
      · simp
      · rw [hW.numBufs, ← pins_rotate]
        exact (freeFrames_pairs (hT ht).1 _ _ _ _ _ _).2
      rintro out₁ s₂ ⟨v₂, xR₂, yR₂, hc₂, hW₂⟩
      rw [← pins_rotate] at hc₂
      refine (ih (fun q hq => hl q (List.mem_cons_of_mem _ hq)) hc₂
        (hI₁.congr hfileI.symm hhandleI.symm) (hmoves.trans hm) hW₂ fun ht => ?_).mono ?_
      · obtain ⟨h₁, h₂, h₃⟩ := hT ht
        exact ⟨h₁, Nat.lt_of_succ_lt_succ h₂, h₃⟩
      rintro r s' ⟨v', yI'', xR', yR', hc', hI', hW'⟩
      rw [List.append_assoc] at hW'
      exact ⟨v', yI'', xR', yR', hc', hI', hW'⟩

/-! ## The outer loop -/

/-- An inner scan is closed. The file of the inner relation is open as often as it was before. -/
theorem JoinOutput.Wrote.closeInner {out' : JoinOutput} {rows' : List Bytes} {scan' : HeapFileScan}
    {v₁ v₂ : View} {s₁ s₂ : Sys} {xR' yR' yI' : Pin} {sat : Bytes → Bool}
    (hW : out.Wrote v₀ nmR cR fvR HR plan.reclen rows v xR yR) (hIR : nmI ≠ nmR)
    (hI : IsHeap v₀ nmI fvI HI) (hc : Coh s (yO ::ₘ xO ::ₘ yR ::ₘ xR ::ₘ P) v)
    (hsame : ∀ f d, v.handle nmI = some (f, d) → scan.filePtr = f)
    (hv₁ : v₁ = v₀.setHandle nmI (some (scan.filePtr, v₀.openCnt nmI + 1)))
    (hc₁ : Coh s₁ (yI ::ₘ xI ::ₘ yO ::ₘ xO ::ₘ yR ::ₘ xR ::ₘ P)
      (v.setHandle nmI (some (scan.filePtr, v₀.openCnt nmI + 1))))
    (hc₂ : Coh s₂ (yI' ::ₘ xI ::ₘ yO ::ₘ xO ::ₘ yR' ::ₘ xR' ::ₘ P) v₂)
    (hI₂ : Reader v₁ nmI (v₀.openCnt nmI + 1) sat scan' fvI HI xI yI' l)
    (hW₂ : out'.Wrote v₁ nmR cR fvR HR plan.reclen rows' v₂ xR' yR') :
    ∃ s₃ v', Yields scan'.delete s₂ () false s₃ ∧
      Coh s₃ (yO ::ₘ xO ::ₘ yR' ::ₘ xR' ::ₘ P) v' ∧
      out'.Wrote v₀ nmR cR fvR HR plan.reclen rows' v' xR' yR' := by
  have hH := hW.isHeap hIR hI
  obtain ⟨-, hhandleI⟩ := hW.other hIR
  obtain ⟨hfile₂, hhandle₂⟩ := hW₂.other hIR
  have hcnt : v.openCnt nmI = v₀.openCnt nmI := by
    unfold View.openCnt
    rw [hhandleI]
  have hptr : scan'.filePtr = scan.filePtr := by
    have hh := hI₂.handle
    rw [hv₁, View.handle_setHandle_self] at hh
    exact (congrArg Prod.fst (Option.some.inj hh)).symm
  -- the file is closed as often as it has been opened
  have hpos := hI.openCnt_nonneg
  obtain ⟨s₃, hclose, hc₃⟩ := (hI₂.congr hfile₂ hhandle₂).close hc₂ (by omega) fun hone z hz => by
    have hfar := fun z hz => hc.file_ne_of_opened hH.opened (hcnt.symm ▸ hc₁) (hcnt ▸ hone) z hz
    have hresult := hW₂.file_ne hc₂ (hhandle₂.trans hI₂.handle) hIR
    rw [hptr] at hresult ⊢
    simp only [Multiset.mem_cons] at hz hfar
    rcases hz with rfl | rfl | rfl | rfl | hz
    · exact hfar z (Or.inl rfl)
    · exact hfar z (Or.inr (Or.inl rfl))
    · exact hresult.2
    · exact hresult.1
    · exact hfar z (Or.inr (Or.inr (Or.inr (Or.inr hz))))
  have hclosed : closed scan'.filePtr (v₀.openCnt nmI + 1) = v₀.handle nmI := by
    rw [hptr]
    refine closed_openCnt hI.opened fun f d hh => hsame f d ?_
    rw [hhandleI, hh]
  rw [hclosed] at hc₃
  have hW₃ := hW₂.setHandle hIR (v₀.handle nmI)
  rw [hv₁, View.setHandle_setHandle, View.setHandle_self rfl] at hW₃
  exact ⟨s₃, _, hclose, hc₃, hW₃⟩

/-- For one outer record the inner relation is opened, scanned and closed. -/
theorem joinOuter_spec (fuel : Nat) (hplan : plan.Sound type outer HI.contents) (ho : o ∈ outer)
    (hOI : nmO ≠ nmI) (hOR : nmO ≠ nmR) (hIR : nmI ≠ nmR)
    (hname : cString plan.attrDesc2.relName = some nmI) (hrec : RecPtr.At v₀ nmO yO outerRec o)
    (hI : IsHeap v₀ nmI fvI HI) (hc : Coh s (yO ::ₘ xO ::ₘ yR ::ₘ xR ::ₘ P) v)
    (hW : out.Wrote v₀ nmR cR fvR HR plan.reclen rows v xR yR)
    (hT : T → 7 ≤ freeFrames v₀.numBufs P ∧ HI.rids.length + HI.pages.length + 1 ≤ fuel) :
    Clean T (joinOuter fuel plan outerRec out) s fun r s' => r.1 = plan.early type [o] ∧
      ∃ v' xR' yR', Coh s' (yO ::ₘ xO ::ₘ yR' ::ₘ xR' ::ₘ P) v' ∧
        r.2.Wrote v₀ nmR cR fvR HR plan.reclen
          (rows ++ plan.rows type [o] HI.contents) v' xR' yR' := by
  have hH := hW.isHeap hIR hI
  obtain ⟨hfileI, hhandleI⟩ := hW.other hIR
  unfold joinOuter
  rw [hname, clean_ofOption_some_bind]
  refine (new_reader hc hH fun ht => ?_).bind ?_
  · have h₁ := freeFrames_cons_cons v₀.numBufs xR yR P
    have h₂ := freeFrames_cons_cons v₀.numBufs xO yO (yR ::ₘ xR ::ₘ P)
    have h₃ := (hT ht).1
    rw [hW.numBufs]
    omega
  rintro ⟨st, scan⟩ s₁ ⟨hst, -, xI, yI, hsame, hc₁, hnew⟩
  dsimp only at hst hsame hc₁ hnew ⊢
  subst hst
  have hcnt : v.openCnt nmI = v₀.openCnt nmI := by
    unfold View.openCnt
    rw [hhandleI]
  have hfilter : outerRec.charPtr plan.attrDesc1.attrOffset =
      some (.pool yO.frame (outerRec.record.data + plan.attrDesc1.attrOffset)) := by
    unfold RecPtr.charPtr
    rw [hrec.page]
  rw [if_neg fun hn => hn rfl, hfilter, clean_ofOption_some_bind, hplan.attrType]
  -- the view with the inner relation open once more
  set v₁ := v₀.setHandle nmI (some (scan.filePtr, v₀.openCnt nmI + 1)) with hv₁
  have hW₁ := hW.setHandle hIR (some (scan.filePtr, v.openCnt nmI + 1))
  rw [hcnt, ← hv₁] at hW₁
  rw [hcnt] at hc₁
  obtain ⟨hfile₁, hhandle₁⟩ := hW₁.other hIR
  unfold JoinPlan.early JoinPlan.rows
  by_cases hacc : plan.Accepts type
  swap
  · -- `startScan` refuses the attribute
    have hread := hnew (fun _ => true) scan rfl
    rw [hcnt] at hread
    obtain ⟨s₂, v₂, hclose, hc₂, hW₂⟩ := hW.closeInner hIR hI hc hsame hv₁ hc₁ hc₁
      (hread.congr hfile₁.symm hhandle₁.symm) hW₁
    simp only [startScan_badLength hacc]
    rw [if_pos nofun, clean_bind_of_yields hclose, clean_pure, if_neg (by simp [hacc]),
      if_neg hacc, List.append_nil]
    exact ⟨rfl, v₂, xR, yR, hc₂, hW₂⟩
  have hstart : startScan scan plan.attrDesc2.attrOffset plan.attrDesc2.attrLen type
      (some (.pool yO.frame (outerRec.record.data + plan.attrDesc1.attrOffset))) plan.myop = _ :=
    startScan_some hplan.filter.1 hacc.1 hacc.2
  simp only [hstart]
  rw [if_neg fun hn => hn rfl, if_pos (Or.inr hacc), if_pos hacc]
  have hread := hnew (plan.pairs type o) { scan with
    offset := plan.attrDesc2.attrOffset, length := plan.attrDesc2.attrLen, type
    filter := some (.pool yO.frame (outerRec.record.data + plan.attrDesc1.attrOffset))
    op := plan.myop } rfl
  rw [hcnt] at hread
  have hread₁ := hread.congr hfile₁.symm hhandle₁.symm
  have hrec₁ : RecPtr.At v₁ nmO yO outerRec o := hrec.congr rfl (View.handle_setHandle_of_ne hOI)
  have hselect : (HI.select (plan.pairs type o) HI.rids).map Prod.snd =
      HI.contents.filter (plan.pairs type o) := HI.map_select _
  refine (innerLoop_spec fuel fuel hplan hacc ho (fun q hq => ?_) hOI hOR hIR hrec₁ hc₁ hread₁
    (.refl _) hW₁
    fun ht => ⟨(hT ht).1, ?_, (hT ht).2⟩).bind ?_
  · have hq' := List.mem_map_of_mem (f := Prod.snd) hq
    rw [hselect] at hq'
    exact List.mem_of_mem_filter hq'
  · have hlen : (HI.select (plan.pairs type o) HI.rids).length ≤ _ := length_select_le HI.rids
    have := (hT ht).2
    omega
  rintro ⟨scan', out'⟩ s₂ ⟨v₂, yI', xR', yR', hc₂, hI₂, hW₂⟩
  dsimp only at hI₂ hW₂ ⊢
  obtain ⟨s₃, v₃, hclose, hc₃, hW₃⟩ := hW.closeInner hIR hI hc hsame hv₁ hc₁ hc₂ hI₂ hW₂
  rw [clean_bind_of_yields hclose, clean_pure, thetaJoin_singleton, ← hselect, List.map_map]
  exact ⟨rfl, v₃, xR', yR', hc₃, hW₃⟩

namespace JoinPlan

variable {os is : List Bytes}

/-- The rows of the first outer record come first. -/
theorem rows_cons (plan : JoinPlan) (type : Datatype) :
    plan.rows type (o :: os) is = plan.rows type [o] is ++ plan.rows type os is := by
  unfold rows
  split
  · rw [thetaJoin_singleton, thetaJoin_cons]
  · rfl

theorem rows_nil (plan : JoinPlan) (type : Datatype) : plan.rows type [] is = [] := by
  unfold rows
  rw [thetaJoin_nil, ite_self]

/-- The loops go on behind a record unless they are left there. -/
theorem early_cons (plan : JoinPlan) (type : Datatype) (o : Bytes) (os is : List Bytes) :
    plan.early type (o :: os) = plan.early type [o] ∧
      (plan.early type [o] = none → plan.early type os = none) ∧
      (plan.early type [o] ≠ none → ∀ os', plan.rows type os' is = []) := by
  unfold early rows
  by_cases hacc : plan.Accepts type <;> simp [hacc]

end JoinPlan

/-- The outer loop writes the join of the records that are left of its scan, or ends at the first
one. -/
theorem outerLoop_spec (fuel n : Nat) (hplan : plan.Sound type outer HI.contents)
    (hl : ∀ q ∈ l, q.2 ∈ outer) (hOI : nmO ≠ nmI) (hOR : nmO ≠ nmR) (hIR : nmI ≠ nmR)
    (hname : cString plan.attrDesc2.relName = some nmI) (hI : IsHeap v₀ nmI fvI HI)
    (hc : Coh s (yO ::ₘ xO ::ₘ yR ::ₘ xR ::ₘ P) v)
    (hO : Reader v₀ nmO cO (fun _ => true) outerScan fvO HO xO yO l)
    (hfilter : outerScan.filter = none) (hW : out.Wrote v₀ nmR cR fvR HR plan.reclen rows v xR yR)
    (hT : T → 7 ≤ freeFrames v₀.numBufs P ∧ l.length < n ∧
    HO.rids.length + HO.pages.length + 1 ≤ fuel ∧
      HI.rids.length + HI.pages.length + 1 ≤ fuel) :
    Clean T (outerLoop fuel plan n outerScan out) s fun r s' =>
      r.1 = plan.early type (l.map Prod.snd) ∧ ∃ v' yO' xR' yR' l',
        Coh s' (yO' ::ₘ xO ::ₘ yR' ::ₘ xR' ::ₘ P) v' ∧
        Reader v₀ nmO cO (fun _ => true) r.2.1 fvO HO xO yO' l' ∧
        r.2.2.Wrote v₀ nmR cR fvR HR plan.reclen
          (rows ++ plan.rows type (l.map Prod.snd) HI.contents) v' xR' yR' := by
  induction n generalizing s v outerScan yO xR yR out rows l with
  | zero => exact Clean.failure fun ht => absurd (hT ht).2.1 (Nat.not_lt_zero _)
  | succ n ih =>
    obtain ⟨hfileO, hhandleO⟩ := hW.other hOR
    unfold outerLoop
    refine ((hO.congr hfileO hhandleO).next fuel hc (answers_all T _ v nmO hfilter)
      fun ht => ⟨?_, (hT ht).2.2.1⟩).bind ?_
    · have h₁ := freeFrames_cons_cons v₀.numBufs xR yR P
      have h₂ := freeFrames_cons v₀.numBufs xO (yR ::ₘ xR ::ₘ P)
      have h₃ := (hT ht).1
      rw [hW.numBufs]
      omega
    rintro ⟨st, rid, scan'⟩ s₁ ⟨hm, hnext, yO', hc₁, hO₁⟩
    dsimp only at hm hnext hO₁ ⊢
    have hO₁' := hO₁.congr hfileO.symm hhandleO.symm
    cases hnext with
    | eof =>
      rw [if_pos nofun, clean_pure]
      refine ⟨rfl, v, yO', xR, yR, _, hc₁, hO₁', ?_⟩
      rw [List.map_nil, plan.rows_nil, List.append_nil]
      exact hW
    | @record rid b l hr =>
      rw [if_neg fun hn => hn rfl]
      obtain ⟨rec, hget, hat⟩ := hO₁.getRecord hc₁ hr
      rw [clean_bind_of_yields hget]
      dsimp only
      rw [if_neg fun hn => hn rfl]
      refine (joinOuter_spec fuel hplan (hl _ List.mem_cons_self) hOI hOR hIR hname
        (hat.congr hfileO.symm hhandleO.symm) hI hc₁ hW fun ht => ⟨(hT ht).1,
        (hT ht).2.2.2⟩).bind ?_
      rintro ⟨early, out₁⟩ s₂ ⟨hearly, v₂, xR₂, yR₂, hc₂, hW₂⟩
      dsimp only at hearly hW₂ ⊢
      obtain ⟨hcons, hgo, hstop⟩ := plan.early_cons type b (l.map Prod.snd) HI.contents
      rw [List.map_cons, hcons]
      cases early with
      | some status =>
        -- the loop is left
        dsimp only
        rw [clean_pure]
        rw [hstop (by rw [← hearly]; exact nofun) [b]] at hW₂
        rw [hstop (by rw [← hearly]; exact nofun)]
        exact ⟨hearly, v₂, yO', xR₂, yR₂, _, hc₂, hO₁', hW₂⟩
      | none =>
        have hfilter' : scan'.filter = none := by
          obtain ⟨_, _, _, _, rfl, -⟩ := hm
          exact hfilter
        refine (ih (fun q hq => hl q (List.mem_cons_of_mem _ hq)) hc₂ hO₁' hfilter' hW₂
          fun ht => ?_).mono ?_
        · obtain ⟨h₁, h₂, h₃⟩ := hT ht
          exact ⟨h₁, Nat.lt_of_succ_lt_succ h₂, h₃⟩
        rintro r s' ⟨hr, v', yO'', xR', yR', l', hc', hO', hW'⟩
        rw [List.append_assoc, ← plan.rows_cons] at hW'
        exact ⟨hr.trans ((hgo hearly.symm).trans hearly), v', yO'', xR', yR', l', hc', hO', hW'⟩

/-! ## The three files -/

/-- The join of two files is written behind the records of a third one. -/
theorem joinScans_spec (fuel : Nat) {junkData : Nat → UInt8}
    (hplan : plan.Sound type HO.contents HI.contents) (hOI : nmO ≠ nmI) (hOR : nmO ≠ nmR)
    (hIR : nmI ≠ nmR) (hnameO : cString plan.attrDesc1.relName = some nmO)
    (hnameI : cString plan.attrDesc2.relName = some nmI) (hc : Coh s P v) (hO : IsHeap v nmO fvO HO)
    (hI : IsHeap v nmI fvI HI) (hR : IsHeap v nmR fvR HR)
    (hT : T → 7 ≤ freeFrames v.numBufs P ∧ HO.rids.length + HO.pages.length + 1 ≤ fuel ∧
      HI.rids.length + HI.pages.length + 1 ≤ fuel) :
    Clean T (joinScans fuel junkData plan nmR) s fun r s' =>
      r = plan.result type HO.contents HI.contents ∧
      ∃ fv' H', Coh s' P (v.setFile nmR (some fv')) ∧ IsHeap (v.setFile nmR (some fv')) nmR fv' H' ∧
        H'.rows = (plan.rows type HO.contents HI.contents : Multiset Bytes) + HR.rows ∧
        (HR.Packed → H'.Packed ∧
          H'.contents = HR.contents ++ plan.rows type HO.contents HI.contents) ∧
        (HR.Counted → H'.Counted) := by
  unfold joinScans
  refine (new_writer hc hR fun ht => ?_).bind ?_
  · have := (hT ht).1
    omega
  rintro ⟨st, resultRel⟩ s₁ ⟨hst, xR, yR, hsameR, hc₁, hw₁⟩
  dsimp only at hst hsameR hc₁ hw₁ ⊢
  subst hst
  set v₁ := v.setHandle nmR (some (resultRel.filePtr, v.openCnt nmR + 1)) with hv₁
  have hwidth := hplan.width
  rw [if_neg fun hn => hn rfl, if_neg (by omega), hnameO, clean_ofOption_some_bind]
  have hO₁ : IsHeap v₁ nmO fvO HO := { hO with
    opened := fun f c hh => hO.opened f c ((View.handle_setHandle_of_ne hOR).symm.trans hh) }
  have hI₁ : IsHeap v₁ nmI fvI HI := { hI with
    opened := fun f c hh => hI.opened f c ((View.handle_setHandle_of_ne hIR).symm.trans hh) }
  refine (new_reader hc₁ hO₁ fun ht => ?_).bind ?_
  · have h₁ := freeFrames_cons_cons v.numBufs xR yR P
    have h₂ := (hT ht).1
    show 2 ≤ freeFrames v.numBufs _
    omega
  rintro ⟨st, scan⟩ s₂ ⟨hst, -, xO, yO, hsameO, hc₂, hnew⟩
  dsimp only at hst hsameO hc₂ hnew ⊢
  subst hst
  set v₂ := v₁.setHandle nmO (some (scan.filePtr, v₁.openCnt nmO + 1)) with hv₂
  have hstart : scan.startScan 0 0 .STRING none .EQ = (.OK, { scan with filter := none }) := rfl
  rw [if_neg fun hn => hn rfl, hstart]
  dsimp only
  rw [if_neg fun hn => hn rfl]
  have hI₂ : IsHeap v₂ nmI fvI HI := { hI₁ with
    opened := fun f c hh => hI₁.opened f c ((View.handle_setHandle_of_ne hOI.symm).symm.trans hh) }
  have hw₂ : Writer v₂ nmR _ resultRel fvR HR xR yR :=
    hw₁.congr rfl (View.handle_setHandle_of_ne hOR.symm)
  have hselect : (HO.select (fun _ => true) HO.rids).map Prod.snd = HO.contents := by
    rw [HO.map_select]
    exact List.filter_true _
  have hW : JoinOutput.Wrote v₂ nmR (v.openCnt nmR + 1) fvR HR plan.reclen [] v₂
      ⟨resultRel, (List.range plan.reclen.toNat).map junkData, 0⟩ xR yR := by
    refine ⟨⟨fvR, HR, (View.setFile_self hw₂.file).symm, hw₂, hR.sized, .refl fvR HR,
      (zero_add _).symm,
      fun _ => (List.append_nil _).symm, id⟩, ?_, rfl⟩
    rw [List.length_map, List.length_range]
    omega
  refine (outerLoop_spec fuel fuel hplan (fun q hq => ?_) hOI hOR hIR hnameI hI₂ hc₂
    (hnew (fun _ => true) { scan with filter := none } rfl) rfl hW fun ht => ?_).bind ?_
  · have hq' := List.mem_map_of_mem (f := Prod.snd) hq
    rwa [hselect] at hq'
  · obtain ⟨h₁, h₂, h₃⟩ := hT ht
    have hlen : (HO.select (fun _ => true) HO.rids).length ≤ _ := length_select_le HO.rids
    exact ⟨h₁, by omega, h₂, h₃⟩
  rintro ⟨early, scan', out'⟩ s₃ ⟨hearly, v₃, yO', xR', yR', l', hc₃, hO₃, hW₃⟩
  dsimp only at hearly hO₃ hW₃ ⊢
  rw [hselect] at hearly
  rw [hselect, List.nil_append] at hW₃
  unfold JoinPlan.result
  rw [← hearly]
  generalize plan.rows type HO.contents HI.contents = rows at hW₃ ⊢
  obtain ⟨hfile₃, hhandle₃⟩ := hW₃.other hOR
  have hptr : scan'.filePtr = scan.filePtr := by
    have hh := hO₃.handle
    rw [hv₂, View.handle_setHandle_self] at hh
    exact (congrArg Prod.fst (Option.some.inj hh)).symm
  -- the outer relation is closed
  have hposO := hO₁.openCnt_nonneg
  obtain ⟨s₄, hclose, hc₄⟩ := (hO₃.congr hfile₃ hhandle₃).close hc₃ (by omega) fun hone z hz => by
    have hfar := fun z hz => hc₁.file_ne_of_opened hO₁.opened hc₂ hone z hz
    have hresult := hW₃.file_ne hc₃ (hhandle₃.trans hO₃.handle) hOR
    rw [hptr] at hresult ⊢
    simp only [Multiset.mem_cons] at hz hfar
    rcases hz with rfl | rfl | hz
    · exact hresult.2
    · exact hresult.1
    · exact hfar z (Or.inr (Or.inr hz))
  rw [clean_bind_of_yields hclose]
  have hclosedO : closed scan'.filePtr (v₁.openCnt nmO + 1) = v₁.handle nmO := by
    rw [hptr]
    exact closed_openCnt hO₁.opened hsameO
  rw [hclosedO] at hc₄
  have hW₄ := hW₃.setHandle hOR (v₁.handle nmO)
  rw [hv₂, View.setHandle_setHandle, View.setHandle_self rfl] at hW₄
  obtain ⟨⟨fv₄, H₄, hv₄, hw₄, hsized, hgrows, hrows, hcontents, hcounted⟩, -, hcount⟩ := hW₄
  -- so is the result
  have hptrR : out'.resultRel.filePtr = resultRel.filePtr := by
    have hh := hw₄.handle
    rw [hv₄, View.handle_setFile, hv₁, View.handle_setHandle_self] at hh
    exact (congrArg Prod.fst (Option.some.inj hh)).symm
  have hposR := hR.openCnt_nonneg
  obtain ⟨s₅, fv₅, hcloseR, hH₅, hc₅⟩ := hw₄.close hc₄ (by omega) fun hone z hz => by
    rw [hptrR]
    exact hc.file_ne_of_opened hR.opened hc₁ hone z hz
  rw [clean_bind_of_yields hcloseR]
  rw [hptrR, closed_openCnt hR.opened hsameR, hv₄, hv₁, View.reopened] at hc₅
  have hpost : ∃ fv' H', Coh s₅ P (v.setFile nmR (some fv')) ∧
      IsHeap (v.setFile nmR (some fv')) nmR fv' H' ∧ H'.rows = (rows : Multiset Bytes) + HR.rows ∧
      (HR.Packed → H'.Packed ∧ H'.contents = HR.contents ++ rows) ∧ (HR.Counted → H'.Counted) :=
    ⟨fv₅, H₄, hc₅, ⟨hR.name, View.file_setFile_self, hH₅, hsized, hR.opened⟩, hrows,
      fun hpacked => ⟨(hgrows.ordered hpacked).1, hcontents hpacked⟩, hcounted⟩
  cases early with
  | some status => exact clean_pure.mpr ⟨rfl, hpost⟩
  | none => exact clean_pure.mpr ⟨by rw [hcount], hpost⟩

end Loops

end Minirel
