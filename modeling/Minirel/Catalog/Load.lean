import Minirel.Catalog.Relations
import Minirel.Catalog.Fuel
import Minirel.HeapFile.Append

/-!
# Loading a relation

`UT_Load` looks the relation up, forms the width of its tuples and appends what it reads from a Unix
file in pieces of that width. It never deletes the `InsertFileScan`: the file of the relation stays
open, with two of its pages pinned.

## Main definitions

* `fileTuples`: the complete tuples of a data file.
* `Loaded`: what becomes of the file of the relation.

## Main results

* `loadTuples_spec`: the loop.
* `Database.load`: `UT_Load` on a consistent catalog.
-/

namespace Minirel

open Comp HeapFile InsertFileScan

/-! ## The data file -/

/-- The complete tuples of `width` bytes of a data file; what is left at its end is not read. -/
def fileTuples (width : Nat) (data : Bytes) : List Bytes :=
  (List.range (data.length / width)).map fun i => (data.drop (i * width)).take width

/-- All files that can be loaded have been written anew. -/
def Sys.withData (s : Sys) (data : Bytes) : Sys := { s with dataFile := fun _ => some data }

theorem Coh.withData {s : Sys} {P : Multiset Pin} {v : View} (h : Coh s P v) (data : Bytes) :
    Coh (s.withData data) P v :=
  { h with opened := fun nm f c hh => { h.opened nm f c hh with } }

section FileTuples

variable {width : Nat} {data : Bytes}

@[simp] theorem length_fileTuples : (fileTuples width data).length = data.length / width := by
  simp [fileTuples]

theorem fileTuples_of_lt (h : data.length < width) : fileTuples width data = [] := by
  rw [← List.length_eq_zero_iff, length_fileTuples, Nat.div_eq_of_lt h]

theorem fileTuples_of_le (hpos : 0 < width) (h : width ≤ data.length) :
    fileTuples width data = data.take width :: fileTuples width (data.drop width) := by
  have hdiv : data.length / width = (data.drop width).length / width + 1 := by
    rw [List.length_drop, Nat.div_eq_sub_div hpos h]
  unfold fileTuples
  rw [hdiv, List.range_succ_eq_map, List.map_cons, List.map_map, Nat.zero_mul, List.drop_zero]
  refine congrArg _ (List.map_congr_left fun i _ => ?_)
  simp only [Function.comp_apply, List.drop_drop]
  rw [Nat.succ_mul, Nat.add_comm]

theorem length_of_mem_fileTuples {t : Bytes} (h : t ∈ fileTuples width data) :
    t.length = width := by
  obtain ⟨i, hi, rfl⟩ := List.mem_map.mp h
  have hle : (i + 1) * width ≤ data.length :=
    (Nat.mul_le_mul_right width (List.mem_range.mp hi)).trans (Nat.div_mul_le_self ..)
  rw [Nat.succ_mul] at hle
  rw [List.length_take, List.length_drop]
  omega

end FileTuples

/-! ## The loop -/

/-- The file of the relation after the data file has been read in pieces of `width` bytes: all
complete tuples have been added, or none because the width was refused. -/
structure Loaded (width : Int) (data : Bytes) (st : Option Status) (fv fv' : FileView)
    (H H' : Heap) :
    Prop where
  grows : Heap.Grows fv fv' H H'
  sized : H.Sized → H'.Sized
  counted : H.Counted → H'.Counted
  rows : if width ≤ 1000 ∨ (data.length : Int) < width then
      st = none ∧ H'.rows = (fileTuples width.toNat data : Multiset Bytes) + H.rows
    else st = some (insertStatus width) ∧ H'.rows = H.rows
  unchanged : (data.length : Int) < width → fv' = fv ∧ H' = H
  /-- The tuples are behind all records, in the order of the data file. -/
  contents : H.Packed → H'.contents = H.contents ++
    if width ≤ 1000 then fileTuples width.toNat data else []

section Load

variable {T : Prop} {s : Sys} {P R : Multiset Pin} {v : View} {nm : FileName} {c : Int}
  {fv : FileView} {H : Heap} {h : InsertFileScan} {x y : Pin} {width : Int} {data : Bytes}

/-- An empty piece is read again and again. -/
theorem loadTuples_zero {F : Prop} (fuel : Nat) (hs : Appends R v nm c s h fv H x y)
    (hF : F → 3 ≤ freeFrames v.numBufs R) :
    Runs False (loadTuples 0 fuel data h) s fun _ e _ => (F → e = false) ∧ (e = false → False) := by
  induction fuel generalizing s h fv H x y data with
  | zero => exact Runs.failure id
  | succ fuel ih =>
    unfold loadTuples
    rw [runs_bind_of_yields (yields_unixCall_of_io hs.coh.io), if_pos ⟨rfl, Int.natCast_nonneg _⟩]
    have hread : (⟨data.take (0 : Int).toNat, 0⟩ : Record).Readable :=
      ⟨le_refl 0, Int.natCast_nonneg _⟩
    have hins : Clean F (InsertFileScan.insertRecord h ⟨data.take (0 : Int).toNat, 0⟩) s _ :=
      hs.insert (fun _ _ => hread) fun hf => by
        have := hF hf
        have := freeFrames_cons_cons v.numBufs x y R
        omega
    refine hins.bind_runs False.elim ?_
    rintro ⟨st, rid, h'⟩ s₁ ⟨hst, x', y', fv', H', hs', -⟩
    dsimp only at hst hs' ⊢
    rw [hst, insertStatus_of_le (le_refl 0) (by decide), if_neg fun hn => hn rfl]
    exact ih hs'

/-- The loop of `UT_Load` appends the complete tuples of the file. -/
theorem loadTuples_spec (fuel : Nat) (hs : Appends R v nm c s h fv H x y) (hpos : 1 ≤ width)
    (hT : T → 3 ≤ freeFrames v.numBufs R ∧ data.length < fuel) :
    Clean T (loadTuples width fuel data h) s fun r s' => ∃ x' y' fv' H',
      Appends R v nm c s' r.2 fv' H' x' y' ∧ Loaded width data r.1 fv fv' H H' := by
  induction fuel generalizing s h fv H x y data with
  | zero => exact Clean.failure fun ht => absurd (hT ht).2 (Nat.not_lt_zero _)
  | succ fuel ih =>
    unfold loadTuples
    rw [clean_bind_of_yields (yields_unixCall_of_io hs.coh.io)]
    by_cases hle : width ≤ data.length
    swap
    · -- the end of the file
      rw [if_neg fun hn => hle hn.2, clean_pure]
      refine ⟨x, y, fv, H, hs, .refl fv H, id, id, ?_, fun _ => ⟨rfl, rfl⟩, fun _ => ?_⟩
      · rw [if_pos (Or.inr (not_le.mp hle)), fileTuples_of_lt (by omega),
          Multiset.coe_nil, zero_add]
        exact ⟨rfl, rfl⟩
      · rw [fileTuples_of_lt (by omega), ite_self, List.append_nil]
    rw [if_pos ⟨rfl, hle⟩]
    have hread : (⟨data.take width.toNat, width⟩ : Record).Readable := by
      refine ⟨by dsimp only; omega, ?_⟩
      dsimp only
      rw [List.length_take]
      omega
    refine (hs.insert (fun _ _ => hread) fun ht => ?_).bind ?_
    · have := (hT ht).1
      have := freeFrames_cons_cons v.numBufs x y R
      omega
    rintro ⟨st, rid, h'⟩ s₁ ⟨hst, x₁, y₁, fv₁, H₁, hs₁, hg₁, hadd⟩
    dsimp only at hst hs₁ hadd ⊢
    by_cases hw : width ≤ 1000
    swap
    · -- the width is refused
      have hne : insertStatus width ≠ .OK := by
        unfold insertStatus
        rw [if_neg hw]
        split <;> exact Status.noConfusion
      have hrec : H₁.rec? = H.rec? := by
        rcases hadd with ⟨hok, -⟩ | ⟨-, hrec, -⟩
        · exact absurd (hst.symm.trans hok) hne
        · exact hrec
      rw [if_pos (by rw [hst]; exact hne), clean_pure]
      refine ⟨x₁, y₁, fv₁, H₁, hs₁, hg₁, fun hsized r b hb => hsized r b (hrec ▸ hb),
        hadd.counted hs.heapAt hs₁.heapAt, ?_, fun hlt => absurd hle (not_le.mpr hlt),
        fun hpacked => ?_⟩
      · rw [if_neg (by omega), hst]
        exact ⟨rfl, Heap.rows_congr hs.heapAt hs₁.heapAt hrec⟩
      · rw [if_neg hw, List.append_nil]
        exact hadd.contents_refused (hst ▸ hne) hs.heapAt hs₁.heapAt (hg₁.ordered hpacked).2
    rw [insertStatus_of_le (by omega) hw] at hst
    subst hst
    rw [if_neg fun hn => hn rfl]
    have hdrop : (data.drop width.toNat).length + width.toNat = data.length := by
      rw [List.length_drop]
      omega
    refine (ih hs₁ fun ht => ?_).mono ?_
    · obtain ⟨h₁, h₂⟩ := hT ht
      exact ⟨h₁, by omega⟩
    rintro ⟨st', h₂⟩ s₂ ⟨x₂, y₂, fv₂, H₂, hs₂, hl⟩
    dsimp only at hs₂ hl ⊢
    have hbytes : (⟨data.take width.toNat, width⟩ : Record).bytes = data.take width.toNat := by
      show (data.take width.toNat).take width.toNat = _
      rw [List.take_take, min_self]
    have hrows := hadd.rows hs.heapAt hs₁.heapAt
    have htuples : fileTuples width.toNat data =
        data.take width.toNat :: fileTuples width.toNat (data.drop width.toNat) :=
      fileTuples_of_le (by omega) (by omega)
    refine ⟨x₂, y₂, fv₂, H₂, hs₂, hg₁.trans hl.grows, fun hsized => hl.sized ?_,
      fun hcnt => hl.counted (hadd.counted hs.heapAt hs₁.heapAt hcnt), ?_,
      fun hlt => absurd hle (not_le.mpr hlt), fun hpacked => ?_⟩
    · rcases hadd with ⟨-, -, hrec, -⟩ | ⟨hne, -⟩
      · exact hsized.insert (Record.bytes_ne_nil hread hpos) hrec
      · exact absurd rfl hne
    · have hrest := hl.rows
      rw [if_pos (Or.inl hw)] at hrest ⊢
      refine ⟨hrest.1, ?_⟩
      rw [hrest.2, hrows, hbytes, htuples, ← Multiset.cons_coe, Multiset.cons_add,
        Multiset.add_cons]
    · obtain ⟨hpacked₁, hrids₁⟩ := hg₁.ordered hpacked
      rw [hl.contents hpacked₁, hadd.contents_ok hs.heapAt hs₁.heapAt hrids₁, hbytes,
        if_pos hw, if_pos hw,
        htuples, List.append_assoc]
      rfl

end Load

theorem loadTuples_succ (width : Int) (n : Nat) (rest : Bytes) (iFile : InsertFileScan) :
    Extends (loadTuples width n rest iFile) (loadTuples width (n + 1) rest iFile) := by
  induction n generalizing rest iFile with
  | zero => exact .failure _
  | succ n ih =>
    conv => congr <;> unfold loadTuples
    exact .bind_right _ fun ok => .ite (.bind_right _ fun r => .ite (.refl _) (ih _ _)) (.refl _)

/-- `UT_Load` with a larger bound. -/
theorem UT_Load_mono {m n : Nat} (hle : m ≤ n) (rd junk : RelDesc) (junkAttr : AttrDesc)
    (relation fileName : Bytes) : Extends (UT_Load m rd junk junkAttr relation fileName)
      (UT_Load n rd junk junkAttr relation fileName) := by
  refine .ite (.refl _) (.bind_right _ fun ok => .bind_right _ fun s => ?_)
  dsimp only
  split
  next => exact .refl _
  next =>
    refine .ite (.refl _)
      (.bind (RelCatalog.getInfo_mono hle relation rd) fun r => .ite (.refl _) ?_)
    refine .bind_right _ fun relName => .bind
      (AttrCatalog.getRelInfo_mono hle junk junkAttr _ 0 []) fun r => ?_
    refine .ite (.refl _) (.bind_right _ fun r => .ite (.refl _) (.ite (.refl _) ?_))
    exact .bind (.of_le (fun k => loadTuples_succ _ k _ _) hle) fun r => .refl _

/-! ## The width of the tuples -/

/-- The sum is formed in `int` arithmetic. -/
theorem tupleWidth_eq (attrs : List AttrDesc) :
    tupleWidth attrs = toInt (attrs.map AttrDesc.attrLen).sum := by
  have hfold : ∀ z : Int, attrs.foldl (fun width a => toInt (width + a.attrLen)) (toInt z) =
      toInt (z + (attrs.map AttrDesc.attrLen).sum) := by
    induction attrs with
    | nil => exact fun z => congrArg toInt (add_zero z).symm
    | cons a attrs ih =>
      intro z
      have hadd : toInt (toInt z + a.attrLen) = toInt (z + a.attrLen) := by
        unfold toInt
        omega
      rw [List.foldl_cons, hadd, ih, List.map_cons, List.sum_cons, add_assoc]
  have hzero := hfold 0
  rwa [zero_add] at hzero

/-- The width that `UT_Load` forms from what `getRelInfo` returns. -/
theorem Relation.tupleWidth_eq {R : Relation} {attrs : List AttrDesc}
    (h : (attrs.map AttrDesc.strings : Multiset AttrDesc) = R.attrDescs) :
    tupleWidth attrs = toInt (sumLen R.attrs) := by
  have hlens := congrArg (fun l => (l.map AttrDesc.attrLen).sum) h
  rw [Multiset.map_coe, Multiset.map_coe, Multiset.sum_coe, Multiset.sum_coe, List.map_map,
    Relation.attrDescs, map_attrLen_descsFrom] at hlens
  rw [Minirel.tupleWidth_eq]
  exact congrArg toInt hlens

/-! ## `UT_Load` -/

/-- The object stays, with its pins. -/
theorem InsertFileScan.Appends.leaves {s : Sys} {P : Multiset Pin} {v : View} {nm : FileName}
    {f : FilePtr} {fv fv' : FileView} {H H' : Heap} {h : InsertFileScan} {x y : Pin}
    (hs : Appends P (v.setHandle nm (some (f, v.openCnt nm + 1))) nm
      (v.openCnt nm + 1) s h fv' H' x y)
    (hH : IsHeap v nm fv H) (hsame : ∀ g d, v.handle nm = some (g, d) → f = g) (hsized : H'.Sized) :
    Leaves (· = nm) 2 P v s (y ::ₘ x ::ₘ P)
        ((v.setHandle nm (some (h.filePtr, v.openCnt nm + 1))).setFile nm (some fv')) ∧
      IsHeap ((v.setHandle nm (some (h.filePtr, v.openCnt nm + 1))).setFile nm (some fv'))
        nm fv' H' := by
  obtain rfl : f = h.filePtr := by
    have hhandle := hs.handle
    rw [View.handle_setHandle_self] at hhandle
    exact congrArg Prod.fst (Option.some.inj hhandle)
  have hpins : ∀ z ∈ y ::ₘ x ::ₘ 0, z.file = h.filePtr := by
    intro z hz
    rcases Multiset.mem_cons.mp hz with rfl | hz
    · exact hs.page.file
    · rw [Multiset.mem_singleton.mp hz]
      exact hs.header.file
  refine ⟨⟨hs.coh, (Later.setHandle hH.opened hsame).setFile _ _,
    fun nm' hnm => View.file_setFile_of_ne hnm, y ::ₘ x ::ₘ 0, ?_, le_refl 2,
    Accounted.setHandle hs.coh hpins⟩, ⟨hH.name, View.file_setFile_self, hs.heapAt, hsized,
    fun g d hh => ?_⟩⟩
  · rw [Multiset.cons_add, Multiset.cons_add, zero_add]
  · rw [View.handle_setFile, View.handle_setHandle_self] at hh
    cases hh
    have hcnt := hH.openCnt_nonneg
    omega

/-- The catalogs are as they were. -/
theorem Catalogs.of_other {v v' : View} {fv fvA : FileView} {H HA : Heap} {nm : FileName}
    {o : Option FileView} {S : FileName → Prop} (h : Catalogs v fv H fvA HA)
    (hcatalog : ¬IsCatalog nm) (hlater : Later S v v') (hfile : v'.file = (v.setFile nm o).file) :
    Catalogs v' fv H fvA HA := by
  have hother : ∀ nm', IsCatalog nm' → v'.file nm' = v.file nm' := fun nm' hnm => by
    rw [hfile]
    exact View.file_setFile_of_ne fun hn => hcatalog (hn ▸ hnm)
  exact ⟨h.relcat.same hlater (hother _ (Or.inl rfl)), h.relTuples,
    h.attrcat.same hlater (hother _ (Or.inr rfl)), h.attrTuples⟩

section UTLoad

variable {T : Prop} {s : Sys} {C : List Relation} {P : Multiset Pin} {v : View}
  {fv fvA fvR : FileView} {H HA HR : Heap} {R : Relation} {relation fileName data : Bytes}
  {rd junk : RelDesc} {junkAttr : AttrDesc}

/-- A relation of the catalog is loaded. -/
theorem Database.load {F : Prop} (h : Database s C P v fv H fvA HA) (hR : R ∈ C)
    (hcatalog : ¬IsCatalog R.name) (hHR : IsHeap v R.name fvR HR) (fuel : Nat)
    (hfile : fileName ≠ []) (hdata : s.dataFile fileName = some data) (hrd : rd.Sized)
    (hjunk : junk.Sized)
    (hF : F → 7 ≤ freeFrames v.numBufs P ∧ H.rids.length + H.pages.length + 1 ≤ fuel ∧
      2 * HA.rids.length + HA.pages.length + 1 ≤ fuel ∧ data.length < fuel)
    (hT : T → F ∧ 1 ≤ toInt (sumLen R.attrs)) :
    Runs T (UT_Load fuel rd junk junkAttr R.name fileName) s fun st e s' => (F → e = false) ∧
      (e = false → ∃ P' v' fvR' HR' o,
      1 ≤ toInt (sumLen R.attrs) ∧
      LeavesCatalogs False (fun nm => IsCatalog nm ∨ nm = R.name) 6 P v H HA s' P' v' H HA ∧
      v'.file = (v.setFile R.name (some fvR')).file ∧ IsHeap v' R.name fvR' HR' ∧
      (v'.handle R.name).isSome ∧ Loaded (toInt (sumLen R.attrs)) data o fvR fvR' HR HR' ∧
      st = o.getD .OK) := by
  have hwf := h.wf R hR
  unfold UT_Load
  rw [if_neg (by rintro (hn | hn | hn | hn)
                 · exact hwf.ne_nil hn
                 · exact hfile hn
                 · exact hcatalog (Or.inl hn)
                 · exact hcatalog (Or.inr hn)),
    runs_bind_of_yields (yields_unixCall_of_io h.coh.io), runs_get_bind, hdata]
  dsimp only
  rw [if_neg fun hn => hn rfl]
  refine (RelCatalog.getInfo_spec fuel h.coh h.catalogs.relcat h.catalogs.relTuples hwf.isName
    hwf.ne_nil hrd
    fun hf => ?_).bind_runs (fun ht => (hT ht).1) ?_
  · obtain ⟨h₁, h₂, -⟩ := hF hf
    exact ⟨by omega, h₂⟩
  rintro ⟨st, d⟩ s₁ ⟨⟨P₁, v₁, hread₁⟩, hr⟩
  obtain ⟨b, hfind, hdecode⟩ := h.find?_rel hR
  rw [hfind] at hr
  cases hr
  dsimp only
  rw [if_neg fun hn => hn rfl]
  have hcString : cString (RelDesc.ofBytes b).relName = some R.name := by
    obtain ⟨rid, hrid⟩ := Heap.exists_of_mem_contents (List.mem_of_find?_eq_some hfind)
    have hnul := (h.catalogs.relTuples rid b hrid).2.nul
    have hname : cstr (b.take MAXNAME) = R.name := by
      rw [cstr_take hnul]
      exact congrArg RelDesc.relName hdecode
    exact (if_pos hnul).trans (congrArg some hname)
  rw [hcString, runs_ofOption_some_bind]
  have hdb₁ := h.same hread₁.leaves hread₁.file
  have hfree₁ := hread₁.freeFrames_le
  refine (hdb₁.getRelInfo hR fuel hjunk fun hf => ?_).bind_runs (fun ht => (hT ht).1) ?_
  · obtain ⟨h₁, h₂, h₃, -⟩ := hF hf
    exact ⟨by omega, h₂, h₃⟩
  rintro ⟨st, cnt, attrs⟩ s₂ ⟨⟨P₂, v₂, hread₂⟩, hst, -, hattrs⟩
  dsimp only at hst hattrs ⊢
  subst hst
  rw [if_neg fun hn => hn rfl]
  have hread : HasRead IsCatalog 4 P v s₂ P₂ v₂ :=
    (hread₁.mono (fun _ => Or.inl) le_rfl).trans hread₂
  have hHR₂ := hread.isHeap hHR
  have hfree₂ := hread.freeFrames_le
  refine (new_appends hread.coh hHR₂ fun hf => ?_).bind_runs (fun ht => (hT ht).1) ?_
  · have := (hF hf).1
    omega
  rintro ⟨st, iFile⟩ s₃ ⟨hst, x, y, hsame, hs⟩
  dsimp only at hst hsame hs ⊢
  subst hst
  rw [if_neg fun hn => hn rfl, R.tupleWidth_eq hattrs]
  have hframes : F → 3 ≤ freeFrames v₂.numBufs P₂ := fun hf => by
    have := (hF hf).1
    omega
  by_cases hneg : toInt (sumLen R.attrs) < 0
  · rw [if_pos hneg]
    exact Runs.failure fun ht => by have := (hT ht).2; omega
  rw [if_neg hneg]
  by_cases hpos : 1 ≤ toInt (sumLen R.attrs)
  swap
  · -- a width of zero
    rw [le_antisymm (Int.lt_add_one_iff.mp (not_le.mp hpos)) (not_lt.mp hneg)]
    have hnot : ¬T := fun ht => hpos (hT ht).2
    have hzero : Runs T (loadTuples 0 fuel data iFile) s₃ _ :=
      ⟨(loadTuples_zero fuel hs hframes).1, fun ht => absurd ht hnot⟩
    refine hzero.bind fun r e s' hr => ⟨fun st e' s'' _ => ?_, fun ht => absurd ht hnot⟩
    cases e with
    | false => exact (hr.2 rfl).elim
    | true => exact ⟨fun hf => absurd (hr.1 hf) Bool.noConfusion, fun he => absurd he (by simp)⟩
  refine (loadTuples_spec fuel hs hpos fun hf => ⟨hframes hf, (hF hf).2.2.2⟩).bind_runs
    (fun ht => (hT ht).1) ?_
  rintro ⟨o, h'⟩ s₄ ⟨x', y', fvR', HR', hs', hl⟩
  obtain ⟨hleaves, hIsHeap⟩ := hs'.leaves hHR₂ hsame (hl.sized hHR.sized)
  have hfiles : ((v₂.setHandle R.name (some (h'.filePtr, v₂.openCnt R.name + 1))).setFile R.name
      (some fvR')).file = (v.setFile R.name (some fvR')).file := by
    show Function.update v₂.file R.name (some fvR') = _
    rw [hread.file]
    rfl
  have hopen : ((v₂.setHandle R.name (some (h'.filePtr, v₂.openCnt R.name + 1))).setFile R.name
      (some fvR')).handle R.name = some (h'.filePtr, v₂.openCnt R.name +
      1) := View.handle_setHandle_self
  -- the object's two pins are on the file of the relation
  have hwrote : ∀ z ∈ y' ::ₘ x' ::ₘ P₂, z.wrote = true → z ∈ P ∨ ∀ nm c,
      ((v₂.setHandle R.name (some (h'.filePtr, v₂.openCnt R.name + 1))).setFile R.name
        (some fvR')).handle nm =
        some (z.file, c) → ¬IsCatalog nm := by
    intro z hz hw
    by_cases hfile : z.file = h'.filePtr
    · refine Or.inr fun nm c hh hnm => ?_
      rw [hfile] at hh
      exact hcatalog (hleaves.coh.name_unique hh hopen ▸ hnm)
    · refine Or.inl (hread.mem_of_wrote ?_ hw)
      rcases Multiset.mem_cons.mp hz with rfl | hz
      · exact absurd hs'.page.file hfile
      · exact (Multiset.mem_cons.mp hz).resolve_left fun hn => hfile (hn ▸ hs'.header.file)
  have hdone : ∀ st, st = o.getD .OK → ∃ P' v' fvR' HR' o, 1 ≤ toInt (sumLen R.attrs) ∧
      LeavesCatalogs False (fun nm => IsCatalog nm ∨ nm = R.name) 6 P v H HA s₄ P' v' H HA ∧
      v'.file = (v.setFile R.name (some fvR')).file ∧ IsHeap v' R.name fvR' HR' ∧
      (v'.handle R.name).isSome ∧ Loaded (toInt (sumLen R.attrs)) data o fvR fvR' HR HR' ∧
      st = o.getD .OK := fun st hst =>
    ⟨_, _, fvR', HR', o, hpos, ⟨(hread.leaves.mono (fun _ => Or.inl) le_rfl).trans
      (hleaves.mono (fun _ => Or.inr) le_rfl), .refl H, .refl HA, fun _ => hwrote⟩, hfiles, hIsHeap,
      by simp, hl, hst⟩
  cases o with
  | some st => exact runs_pure.mpr ⟨fun _ => rfl, fun _ => hdone st rfl⟩
  | none =>
    dsimp only
    rw [runs_bind_of_yields (yields_unixCall_of_io hs'.coh.io), if_neg fun hn => hn rfl, runs_pure]
    exact ⟨fun _ => rfl, fun _ => hdone .OK rfl⟩

/-- Before it opens the file of the relation, `UT_Load` refuses what is not a relation of the
database, and what is not there to be read. -/
theorem Database.load_refused (h : Database s C P v fv H fvA HA) (fuel : Nat)
    (hname : IsName relation) (hrd : rd.Sized)
    (href : relation = [] ∨ fileName = [] ∨ IsCatalog relation ∨
      s.dataFile fileName = none ∨ relation ∉ names C)
    (hT : T → 2 ≤ freeFrames v.numBufs P ∧ H.rids.length + H.pages.length + 1 ≤ fuel) :
    Clean T (UT_Load fuel rd junk junkAttr relation fileName) s fun st s' =>
      st ≠ .OK ∧ ∃ P' v', HasRead IsCatalog 1 P v s' P' v' := by
  have hsame : ∃ P' v', HasRead IsCatalog 1 P v s P' v' :=
    ⟨P, v, (HasRead.refl IsCatalog h.coh).mono (fun _ => id) (Nat.zero_le 1)⟩
  unfold UT_Load
  by_cases hparam : relation = [] ∨ fileName = [] ∨ relation = RELCATNAME ∨ relation = ATTRCATNAME
  · rw [if_pos hparam, clean_pure]
    exact ⟨Status.noConfusion, hsame⟩
  rw [if_neg hparam, clean_bind_of_yields (yields_unixCall_of_io h.coh.io), clean_get_bind]
  cases hdata : s.dataFile fileName with
  | none =>
    dsimp only
    rw [clean_pure]
    exact ⟨Status.noConfusion, hsame⟩
  | some data =>
    have hnot : relation ∉ names C := by
      rcases href with hn | hn | hn | hn | hn
      · exact absurd (Or.inl hn) hparam
      · exact absurd (Or.inr (Or.inl hn)) hparam
      · exact absurd (Or.inr (Or.inr hn)) hparam
      · cases hdata.symm.trans hn
      · exact hn
    dsimp only
    rw [if_neg fun hn => hn rfl]
    refine (RelCatalog.getInfo_spec fuel h.coh h.catalogs.relcat h.catalogs.relTuples hname
      (fun hn => hparam (Or.inl hn)) hrd hT).bind ?_
    rintro ⟨st, d⟩ s₁ ⟨⟨P₁, v₁, hread⟩, hr⟩
    -- no tuple has the name
    have hfind : H.contents.find? (hasName relation) = none := by
      refine List.find?_eq_none.mpr fun b hb hname => hnot (h.lists.mem_names.mpr ?_)
      exact ⟨b, Multiset.mem_coe.mpr hb, hname⟩
    rw [hfind] at hr
    cases hr
    dsimp only
    rw [if_pos (show Status.RELNOTFOUND ≠ .OK from Status.noConfusion), clean_pure]
    exact ⟨Status.noConfusion, P₁, v₁, hread.mono (fun _ => Or.inl) le_rfl⟩

/-- A call either is refused, or there are a relation, its file and the data. -/
theorem FilesOf.load_cases {unix : FileName → Option UnixFile} (h : FilesOf unix C v) (s : Sys)
    (relation fileName : Bytes) :
    (relation = [] ∨ fileName = [] ∨ IsCatalog relation ∨ s.dataFile fileName = none ∨
    relation ∉ names C) ∨
      ∃ R ∈ C, R.name = relation ∧ ¬IsCatalog R.name ∧ fileName ≠ [] ∧ ∃ data fvR HR,
        s.dataFile fileName = some data ∧ IsHeap v R.name fvR HR := by
  refine or_iff_not_imp_left.mpr fun href => ?_
  push Not at href
  obtain ⟨-, hfile, hcatalog, hdata, hmem⟩ := href
  obtain ⟨data, hdata⟩ := Option.ne_none_iff_exists'.mp hdata
  obtain ⟨R, hR, rfl⟩ := List.mem_map.mp hmem
  obtain ⟨fvR, HR, hHR⟩ := h.file R hR
  exact ⟨R, hR, rfl, hcatalog, hfile, data, fvR, HR, hdata, hHR⟩

/-- With seven frames no call of the buffer manager fails. -/
theorem InStep.load_clean {unix : FileName → Option UnixFile} {s' : Sys} {st : Status} {e : Bool}
    (h : InStep unix s C) (hname : IsName relation) (hfree : 7 ≤ s.freeFrames)
    (hstep : (CatalogCall.load relation fileName).Step s st e s') : e = false := by
  obtain ⟨P, v, fv, H, fvA, HA, hd, hf⟩ := h
  obtain ⟨fuel, rd, junk, junkAttr, hrd, hjunk, hy⟩ := hstep
  rw [hd.coh.freeFrames_eq] at hfree
  obtain href | ⟨R, hR, rfl, hcatalog, hfile, data, fvR, HR, hdata, hHR⟩ :=
    hf.load_cases s relation fileName
  · have hcall : Clean True (UT_Load (max fuel (H.rids.length + H.pages.length + 1)) rd junk
      junkAttr relation
        fileName) s _ :=
      hd.load_refused _ hname hrd href fun _ => ⟨by omega, le_max_right _ _⟩
    exact (hcall.of_extends trivial (UT_Load_mono (le_max_left _ _) _ _ _ _ _) hy).1
  · -- whether the call returns does not matter
    let bound := max fuel (max (H.rids.length + H.pages.length + 1)
      (max (2 * HA.rids.length + HA.pages.length + 1) (data.length + 1)))
    have hcall : Runs False (UT_Load bound rd junk junkAttr R.name fileName) s _ :=
      hd.load (F := True) hR hcatalog hHR bound hfile hdata hrd hjunk
        (fun _ => ⟨hfree, by omega, by omega, by omega⟩) False.elim
    exact (hcall.1 _ _ _ (UT_Load_mono (le_max_left _ _) _ _ _ _ _ _ _ _ _ hy)).1 trivial

/-- A load keeps the catalogs and the files in step, whatever it returns. -/
theorem InStep.load {unix : FileName → Option UnixFile} {s' : Sys} {st : Status}
    (h : InStep unix s C) (hname : IsName relation)
    (hstep : (CatalogCall.load relation fileName).Step s st false s') : InStep unix s' C := by
  obtain ⟨P, v, fv, H, fvA, HA, hd, hf⟩ := h
  obtain ⟨fuel, rd, junk, junkAttr, hrd, hjunk, hy⟩ := hstep
  obtain href | ⟨R, hR, rfl, hcatalog, hfile, data, fvR, HR, hdata, hHR⟩ :=
    hf.load_cases s relation fileName
  · obtain ⟨-, P', v', hread⟩ :=
      (hd.load_refused (T := False) fuel hname hrd href False.elim).of_yields hy
    exact ⟨P', v', fv, H, fvA, HA, hd.same hread.leaves hread.file, hf.same hread.leaves hread.file⟩
  have hcall : Runs False (UT_Load fuel rd junk junkAttr R.name fileName) s _ :=
    hd.load (F := False) hR hcatalog hHR fuel hfile hdata hrd hjunk False.elim False.elim
  obtain ⟨P', v', fvR', HR', o, -, hl, hfiles, hHR', -⟩ := (hcall.1 _ _ _ hy).2 rfl
  have hmem : R.name ∈ names C := List.mem_map_of_mem hR
  have hother : ∀ nm, nm ≠ R.name → v'.file nm = v.file nm := fun nm hnm => by
    rw [hfiles]
    exact View.file_setFile_of_ne hnm
  have hcat : Catalogs v' fv H fvA HA :=
    ⟨hd.catalogs.relcat.same hl.later (hother _ fun hn => hcatalog (Or.inl hn.symm)),
    hd.catalogs.relTuples,
      hd.catalogs.attrcat.same hl.later (hother _ fun hn => hcatalog (Or.inr hn.symm)),
      hd.catalogs.attrTuples⟩
  refine ⟨P', v', fv, H, fvA, HA, ⟨hl.coh, hcat, hd.lists, hd.nodup, hd.wf,
    fun nm => hl.later.pos nm (hd.opened nm)⟩, fun R' hR' => ?_, fun nm hnm => ?_,
    hl.later.foreign.trans hf.foreign⟩
  · by_cases hn : R'.name = R.name
    · rw [hn]
      exact ⟨fvR', HR', hHR'⟩
    · obtain ⟨fv', H', hH'⟩ := hf.file R' hR'
      exact ⟨fv', H', hH'.same hl.later (hother _ hn)⟩
  · rw [hother nm fun hn => hnm (hn ▸ hmem)]
    exact hf.absent nm hnm

end UTLoad

end Minirel
