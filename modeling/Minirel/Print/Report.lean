import Minirel.Join.Scans
import Minirel.Lib.Traverse
import Minirel.Print

/-!
# What is printed

The loop of `UT_Print` prints a line for each record of a scan. A string is read up to the width of
its column, which is the length of its attribute only if the name of the attribute is not longer.

## Main definitions

* `AttrDesc.Prints`: what `printf` reads of a tuple lies in the tuple.
* `rowText`: the line of a tuple.
* `report`: what `UT_Print` prints of a relation.

## Main results

* `textAt_eq`: the conversion `%.*s`.
* `UT_printRec_yields`: the line of a record.
* `printLoop_spec`: the lines of all records.
-/

namespace Minirel

open Comp HeapFile HeapFileScan Traverse

/-! ## Strings -/

theorem cstr_cstr (b : Bytes) : cstr (cstr b) = cstr b :=
  List.takeWhile_idem

section Text

variable {char : Nat → Option UInt8} {l : Bytes} {n i : Nat}

/-- `printf` stops at the NUL, or when it has read as many characters as it may. -/
theorem textAt_eq (hchar : ∀ j < l.length, char (i + j) = l[j]?) (hstop : n ≤ l.length ∨ 0 ∈ l) :
    textAt char n i = some (cstr (l.take n)) := by
  induction n generalizing l i with
  | zero => rfl
  | succ n ih =>
    cases l with
    | nil =>
      rcases hstop with hn | hn
      · exact absurd hn (Nat.not_succ_le_zero n)
      · exact absurd hn List.not_mem_nil
    | cons c l =>
      have hc : char i = some c := hchar 0 (Nat.zero_lt_succ _)
      have hrest : ∀ j < l.length, char (i + 1 + j) = l[j]? := fun j hj => by
        have := hchar (j + 1) (Nat.succ_lt_succ hj)
        rwa [List.getElem?_cons_succ, Nat.add_comm j 1, ← Nat.add_assoc] at this
      unfold textAt
      rw [hc, List.take_succ_cons]
      by_cases h0 : c = 0
      · -- the string ends here
        subst h0
        simp
      · have hstop' : n ≤ l.length ∨ 0 ∈ l := by
          refine hstop.imp Nat.le_of_succ_le_succ fun hmem => ?_
          exact (List.mem_cons.mp hmem).resolve_left fun he => h0 he.symm
        simp only [Option.bind_eq_bind, Option.bind_some, if_neg h0, ih hrest hstop',
          cstr_cons_of_ne h0]
        rfl

end Text

/-! ## Lines -/

/-- The text of an attribute of a tuple, in a column of the width. -/
def AttrDesc.text (formatFloat : Bytes → Bytes) (d : AttrDesc) (width : Int) (b : Bytes) : Bytes :=
  match Datatype.ofCode d.attrType with
  | some .INTEGER => decimal (intOfBytes ((b.drop d.attrOffset.toNat).take 4))
  | some .FLOAT => formatFloat ((b.drop d.attrOffset.toNat).take 4)
  | _ => cstr ((b.drop d.attrOffset.toNat).take width.toNat)

/-- `printf` does not read behind the tuple. -/
structure AttrDesc.Prints (d : AttrDesc) (width : Int) (b : Bytes) : Prop where
  nonneg : 0 ≤ d.attrOffset
  le : d.attrOffset ≤ b.length
  number : d.attrType = 1 ∨ d.attrType = 2 → d.attrOffset + 4 ≤ b.length
  string : d.attrType ≠ 1 → d.attrType ≠ 2 →
    d.attrOffset.toNat + width.toNat ≤ b.length ∨ 0 ∈ b.drop d.attrOffset.toNat

/-- The line of a tuple. -/
def rowText (formatFloat : Bytes → Bytes) (columns : List (AttrDesc × Int)) (b : Bytes) : Bytes :=
  (columns.flatMap fun p => padRight p.2 (p.1.text formatFloat p.2 b) ++ ascii "  ") ++ ascii "\n"

theorem Datatype.ofCode_eq_some {code : Int} {type : Datatype} :
    Datatype.ofCode code = some type ↔ code = type.code := by
  unfold Datatype.ofCode
  cases type <;> simp only [Datatype.code] <;> split_ifs <;> simp <;> omega

section Rows

variable {s : Sys} {P : Multiset Pin} {v : View} {nm : FileName} {y : Pin} {r : RecPtr} {b : Bytes}
  {formatFloat : Bytes → Bytes} {d : AttrDesc} {width : Int} {columns : List (AttrDesc × Int)}

/-- A string. -/
theorem printString_yields {offset : Int} (h : RecPtr.At v nm y r b) (hc : Coh s P v) (hy : y ∈ P)
    (h0 : 0 ≤ offset) (hle : offset ≤ b.length)
    (hstop : offset.toNat + width.toNat ≤ b.length ∨ 0 ∈ b.drop offset.toNat) :
    Yields (printString r offset width) s
      (padRight width (cstr ((b.drop offset.toNat).take width.toNat))) false s := by
  -- the memory from the string to the end of the tuple
  have hmem : ∀ j < (b.drop offset.toNat).length,
      s.charAt (.pool y.frame (r.record.data + offset)) (0 + j) = (b.drop offset.toNat)[j]? := by
    intro j hj
    have hlen : offset + ((b.drop offset.toNat).length : Int) ≤ b.length := by
      rw [List.length_drop]
      omega
    rw [Nat.zero_add, h.charAt hc hy h0 hlen (by rwa [Int.toNat_natCast]), Int.toNat_natCast,
      List.take_length]
  have hstop' : width.toNat ≤ (b.drop offset.toNat).length ∨ 0 ∈ b.drop offset.toNat := by
    refine hstop.imp_left fun hn => ?_
    rw [List.length_drop]
    omega
  have hptr : r.charPtr offset = some (.pool y.frame (r.record.data + offset)) := by
    unfold RecPtr.charPtr
    rw [h.page]
  unfold printString
  rw [hptr]
  refine Yields.bind (x := ofOption (some _)) (d := false) (Yields.pure _ _) ?_
  refine (Yields.get s).bind (d := false) ?_
  rw [textAt_eq hmem hstop']
  exact Yields.pure _ _

/-- The text of an attribute. -/
theorem printAttr_yields (h : RecPtr.At v nm y r b) (hc : Coh s P v) (hy : y ∈ P)
    (hp : d.Prints width b) : Yields (printAttr formatFloat r d width) s
      (padRight width (d.text formatFloat width b) ++ ascii "  ") false s := by
  have hread : d.attrType = 1 ∨ d.attrType = 2 →
      Yields (r.read d.attrOffset 4) s ((b.drop d.attrOffset.toNat).take 4) false s := fun ht =>
    h.read hc hy hp.nonneg (by decide) (hp.number ht)
  have hstring : d.attrType ≠ 1 → d.attrType ≠ 2 → Yields (printString r d.attrOffset width) s
      (padRight width (cstr ((b.drop d.attrOffset.toNat).take width.toNat))) false s := fun h₁ h₂ =>
    printString_yields h hc hy hp.nonneg hp.le (hp.string h₁ h₂)
  unfold printAttr AttrDesc.text
  rcases htype : Datatype.ofCode d.attrType with _ | type
  · refine (hstring (fun hn => ?_) fun hn => ?_).bind (d := false) (Yields.pure _ _)
    · rw [hn] at htype
      cases htype
    · rw [hn] at htype
      cases htype
  · have hcode := Datatype.ofCode_eq_some.mp htype
    cases type with
    | STRING =>
      have hne : d.attrType ≠ 1 ∧ d.attrType ≠ 2 := by
        rw [hcode]
        decide
      exact (hstring hne.1 hne.2).bind (d := false) (Yields.pure _ _)
    | INTEGER => exact (hread (Or.inl hcode)).bind (d := false) (Yields.pure _ _)
    | FLOAT => exact (hread (Or.inr hcode)).bind (d := false) (Yields.pure _ _)

/-- The line of a record. -/
theorem UT_printRec_yields (h : RecPtr.At v nm y r b) (hc : Coh s P v) (hy : y ∈ P)
    (hp : ∀ p ∈ columns, p.1.Prints p.2 b) :
    Yields (UT_printRec formatFloat r columns) s (rowText formatFloat columns b) false s := by
  induction columns with
  | nil => exact Yields.pure _ _
  | cons p columns ih =>
    have hrest := ih fun q hq => hp q (List.mem_cons_of_mem _ hq)
    unfold UT_printRec
    refine (printAttr_yields h hc hy (hp p List.mem_cons_self)).bind (d := false)
      (hrest.bind (d := false) ?_)
    unfold rowText
    rw [List.flatMap_cons, ← List.append_assoc]
    exact Yields.pure _ _

end Rows

/-! ## The loop -/

section Loop

variable {T : Prop} {s : Sys} {P R : Multiset Pin} {v : View} {nm : FileName} {c : Int}
  {fv : FileView} {H : Heap} {h : HeapFileScan} {x y : Pin} {l : List (RID × Bytes)}
  {formatFloat : Bytes → Bytes} {columns : List (AttrDesc × Int)}

/-- The end of a scan, and the destructor behind it. -/
theorem endScan_delete {sat : Bytes → Bool} (hr : Reader v nm c sat h fv H x y l)
    (hc : Coh s (y ::ₘ x ::ₘ R) v) (hpos : 0 < c) (hlast : c = 1 → ∀ z ∈ R, z.file ≠ h.filePtr) :
    ∃ h' s₁ s₂, Yields (endScan h) s (.OK, h') false s₁ ∧
    Yields (HeapFileScan.delete h') s₁ () false s₂ ∧
      Coh s₂ R (v.setHandle nm (closed h.filePtr c)) := by
  have hw : y.wrote = true → h.curDirtyFlag = true := fun hw => by
    rw [hr.reads.unwritten.2] at hw
    cases hw
  obtain ⟨s₁, fv₁, hy₁, hc₁, hfor₁⟩ := hr.reads.page.unpin hc hr.handle hr.file h.curDirtyFlag hw
  -- nothing has been written
  obtain rfl : fv₁ = fv := hfor₁.eq_of_not fun p hp => by
    rw [hr.reads.curClean] at hp
    cases hp.1
  rw [View.setFile_self hr.file] at hc₁
  let h' : HeapFileScan := { h with curPage := .null, curPageNo := 0, curDirtyFlag := false }
  have hheader : HasHeader h'.toHeapFile H x := { hr.reads.header with }
  obtain ⟨s₂, fv₂, hy₂, hc₂, hfor₂⟩ :=
    delete_scan_null (h := h') hc₁ hr.handle hr.file hheader rfl hpos hlast
  obtain rfl : fv₂ = fv₁ := hfor₂.eq_of_not fun p hp => by
    rw [show h'.hdrDirtyFlag = false from hr.reads.hdrClean] at hp
    cases hp.1
  rw [View.setFile_self hr.file] at hc₂
  exact ⟨h', s₁, s₂, yields_endScan hr.reads.page hy₁, hy₂, hc₂⟩

theorem toInt_add_succ {records : Int} {n : Nat} :
    toInt (toInt (records + 1) + n) = toInt (records + (n + 1 : Nat)) := by
  unfold toInt
  omega

/-- The loop prints the records that are left of its scan. -/
theorem printLoop_spec (fuel n : Nat) {records : Int} {out : Bytes}
    (hprints : ∀ q ∈ l, ∀ p ∈ columns, p.1.Prints p.2 q.2) (hc : Coh s (y ::ₘ x ::ₘ R) v)
    (hr : Reader v nm c (fun _ => true) h fv H x y l) (hfilter : h.filter = none)
    (hrecords : records = toInt records)
    (hT : T → 0 < freeFrames v.numBufs (x ::ₘ R) ∧ H.rids.length + H.pages.length + 1 ≤ fuel ∧
      l.length < n) :
    Clean T (printLoop formatFloat fuel columns n h records out) s fun r s' => ∃ h' y',
      r = (.inr .FILEEOF, h', toInt (records + l.length),
        out ++ l.flatMap fun q => rowText formatFloat columns q.2) ∧
      Coh s' (y' ::ₘ x ::ₘ R) v ∧ Reader v nm c (fun _ => true) h' fv H x y' [] := by
  induction n generalizing s h y l records out with
  | zero => exact Clean.failure fun ht => absurd (hT ht).2.2 (Nat.not_lt_zero _)
  | succ n ih =>
    unfold printLoop
    refine (hr.next fuel hc (answers_all T _ v nm hfilter) fun ht => ⟨(hT ht).1,
      (hT ht).2.1⟩).bind ?_
    rintro ⟨st, rid, h'⟩ s₁ ⟨hm, hnext, y', hc₁, hr₁⟩
    dsimp only at hm hnext hr₁ ⊢
    cases hnext with
    | eof =>
      rw [if_pos nofun, clean_pure]
      refine ⟨h', y', ?_, hc₁, hr₁⟩
      rw [List.length_nil, List.flatMap_nil, List.append_nil, Int.natCast_zero,
        add_zero, ← hrecords]
    | @record rid b l hrec =>
      rw [if_neg fun hn => hn rfl]
      obtain ⟨rec, hget, hat⟩ := hr₁.getRecord hc₁ hrec
      rw [clean_bind_of_yields hget]
      dsimp only
      rw [if_neg fun hn => hn rfl, clean_bind_of_yields
        (UT_printRec_yields hat hc₁ (Multiset.mem_cons_self _ _) (hprints _ List.mem_cons_self))]
      have hfilter' : h'.filter = none := by
        obtain ⟨_, _, _, _, rfl, -⟩ := hm
        exact hfilter
      refine (ih (fun q hq => hprints q (List.mem_cons_of_mem _ hq)) hc₁ hr₁ hfilter'
        (by unfold toInt; omega)
        fun ht => ?_).mono ?_
      · obtain ⟨h₁, h₂, h₃⟩ := hT ht
        rw [List.length_cons] at h₃
        exact ⟨h₁, h₂, Nat.lt_of_succ_lt_succ h₃⟩
      rintro r s' ⟨h'', y'', rfl, hc', hr'⟩
      refine ⟨h'', y'', ?_, hc', hr'⟩
      rw [toInt_add_succ, List.length_cons, List.flatMap_cons, List.append_assoc]

end Loop

/-! ## Columns -/

/-- The width of a column. -/
def AttrDesc.width (d : AttrDesc) : Int :=
  if d.attrType = 0 then min (max ((cstr d.attrName).length : Int) d.attrLen) 20
  else min (max ((cstr d.attrName).length : Int) 5) 7

/-- The attributes with the widths of their columns. -/
def columnsOf (ds : List AttrDesc) : List (AttrDesc × Int) := ds.map fun d => (d, d.width)

/-- The lines above the tuples. -/
def headingText (relName : Bytes) (ds : List AttrDesc) : Bytes :=
  ascii "Relation name: " ++ relName ++ ascii "\n\n" ++
    (ds.map fun d => padRight d.width ((cstr d.attrName).take d.width.toNat) ++ ascii
      " ").flatten ++
    ascii "\n" ++ (ds.map fun d => List.replicate d.width.toNat 45 ++ ascii "  ").flatten ++
      ascii "\n"

/-- What `UT_Print` prints of a relation with the tuples `ts`. -/
def report (formatFloat : Bytes → Bytes) (relName : Bytes) (ds : List AttrDesc)
    (ts : List Bytes) : Bytes :=
  headingText relName ds ++ ts.flatMap (rowText formatFloat (columnsOf ds)) ++
    ascii "\nNumber of records: " ++ decimal (toInt ts.length) ++ ascii "\n"

section Columns

variable {d : AttrDesc} {ds : List AttrDesc} {relName : Bytes} {ts : List Bytes}
  {formatFloat : Bytes → Bytes}

theorem columnWidth_eq (hnul : 0 ∈ d.attrName) (htype : ∃ type : Datatype, d.attrType = type.code) :
    columnWidth d = some d.width := by
  obtain ⟨type, htype⟩ := htype
  unfold columnWidth AttrDesc.width cString
  rw [if_pos hnul, Datatype.ofCode_eq_some.mpr htype, htype]
  cases type <;> rfl

theorem UT_computeWidth_eq (h : ∀ d ∈ ds, 0 ∈ d.attrName ∧
    ∃ type : Datatype, d.attrType = type.code) :
    UT_computeWidth ds = some (ds.map AttrDesc.width) := by
  unfold UT_computeWidth
  refine mapM_eq_some ?_
  rw [List.map_map]
  exact List.map_congr_left fun d hd => columnWidth_eq (h d hd).1 (h d hd).2

theorem zip_width : ds.zip (ds.map AttrDesc.width) = columnsOf ds := by
  have hzip : (ds.map id).zip (ds.map AttrDesc.width) = _ := List.zip_map'
  rwa [List.map_id] at hzip

theorem printName_eq (hnul : 0 ∈ d.attrName) (width : Int) :
    printName d width = some
      (padRight width ((cstr d.attrName).take width.toNat) ++ ascii " ") := by
  have htext : textAt (fun i => d.attrName[i]?) width.toNat 0 = some
    (cstr (d.attrName.take width.toNat)) :=
    textAt_eq (fun j _ => by rw [Nat.zero_add]) (Or.inr hnul)
  unfold printName
  rw [htext, cstr_take_eq]
  rfl

theorem printHeading_eq (hnul : ∀ d ∈ ds, 0 ∈ d.attrName) :
    printHeading relName (columnsOf ds) = some (headingText relName ds) := by
  have hnames : ((columnsOf ds).mapM fun column => printName column.1 column.2) =
      some (ds.map fun d => padRight d.width
        ((cstr d.attrName).take d.width.toNat) ++ ascii " ") := by
    refine mapM_eq_some ?_
    unfold columnsOf
    rw [List.map_map, List.map_map]
    exact List.map_congr_left fun d hd => printName_eq (hnul d hd) d.width
  unfold printHeading
  rw [hnames]
  unfold headingText columnsOf
  rw [List.map_map]
  rfl

theorem width_strings (d : AttrDesc) : d.strings.width = d.width := by
  unfold AttrDesc.width AttrDesc.strings
  dsimp only
  rw [cstr_cstr]

/-- What is behind the names of the descriptors is not printed. -/
theorem report_strings :
    report formatFloat relName (ds.map AttrDesc.strings) ts = report formatFloat relName ds ts := by
  have hname : ∀ d : AttrDesc, cstr d.strings.attrName = cstr d.attrName :=
    fun d => cstr_cstr d.attrName
  have hheading : headingText relName (ds.map AttrDesc.strings) = headingText relName ds := by
    unfold headingText
    simp only [List.map_map, Function.comp_def, width_strings, hname]
  have hrow : rowText formatFloat (columnsOf (ds.map AttrDesc.strings)) = rowText formatFloat
    (columnsOf ds) := by
    funext b
    unfold rowText columnsOf
    simp only [List.map_map, List.flatMap_map, Function.comp_def, width_strings]
    rfl
  unfold report
  rw [hheading, hrow]

end Columns

end Minirel
