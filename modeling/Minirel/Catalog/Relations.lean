import Minirel.Catalog.Session

/-!
# The catalogs over whole sessions

`createRel` and `destroyRel` keep two heap files and the files of the database in step. Which
relations there are is told by the calls that have returned `OK`.

## Main definitions

* `CatalogRun`: what a session does, call by call.
* `created`: the relations that have been created and not been destroyed.
* `ConsistentCatalog`: the catalogs and the files tell the same.

## Main results

* `Lists.declare`, `Lists.drop`: what the two calls do to the tuples.
* `consistent_of_run`: the catalogs are consistent whenever a call has returned.
-/

namespace Minirel

open Comp HeapFile

/-! ## Descriptors of a relation -/

theorem length_descsFrom (ordering : Int) (l : List AttrInfo) :
    (descsFrom ordering l).length = l.length := by
  induction l generalizing ordering with
  | nil => rfl
  | cons a l ih =>
    unfold descsFrom
    rw [List.length_cons, ih, List.length_cons]

theorem map_attrLen_descsFrom {ordering : Int} {l : List AttrInfo} :
    (descsFrom ordering l).map AttrDesc.attrLen = l.map AttrInfo.attrLen := by
  induction l generalizing ordering with
  | nil => rfl
  | cons a l ih => exact congrArg _ ih

theorem relName_of_mem_descsFrom {name : Bytes} {ordering : Int} {l : List AttrInfo}
    (hl : ∀ a ∈ l, a.relName = name) {d : AttrDesc} (hd : d ∈ descsFrom ordering l) :
    d.relName = name := by
  induction l generalizing ordering with
  | nil => cases hd
  | cons a l ih =>
    rcases List.mem_cons.mp hd with rfl | hd
    · exact hl a List.mem_cons_self
    · exact ih (fun a ha => hl a (List.mem_cons_of_mem _ ha)) hd

/-- The sum of the lengths of attributes. -/
def sumLen (l : List AttrInfo) : Int := (l.map AttrInfo.attrLen).sum

theorem sumLen_cons (a : AttrInfo) (l : List AttrInfo) : sumLen (a :: l) = a.attrLen + sumLen l :=
  List.sum_cons

theorem sumLen_nonneg {l : List AttrInfo} (hl : ∀ a ∈ l, 0 ≤ a.attrLen) : 0 ≤ sumLen l := by
  induction l with
  | nil => exact le_refl 0
  | cons a l ih =>
    have ha := hl a List.mem_cons_self
    have hrest := ih fun a ha => hl a (List.mem_cons_of_mem _ ha)
    rw [sumLen_cons]
    omega

/-- As long as the offsets do not overflow, an attribute has as offset the sum of the lengths of
those before it. -/
theorem getElem?_descsFrom {ordering : Int} {l : List AttrInfo} (h0 : 0 ≤ ordering)
    (hl : ∀ a ∈ l, 0 ≤ a.attrLen) (hsum : ordering + sumLen l < 2147483648) {i : Nat} {a : AttrInfo}
    (ha : l[i]? = some a) :
    (descsFrom ordering l)[i]? =
      some ⟨a.relName, a.attrName, ordering + sumLen (l.take i), a.attrType, a.attrLen⟩ := by
  induction l generalizing ordering i with
  | nil => cases ha
  | cons b l ih =>
    have hb := hl b List.mem_cons_self
    have hl' : ∀ a ∈ l, 0 ≤ a.attrLen := fun a ha => hl a (List.mem_cons_of_mem _ ha)
    have hrest := sumLen_nonneg hl'
    rw [sumLen_cons] at hsum
    unfold descsFrom
    cases i with
    | zero =>
      rw [List.getElem?_cons_zero] at ha ⊢
      cases ha
      rw [List.take_zero]
      show some _ = some (AttrDesc.mk _ _ (ordering + 0) _ _)
      rw [add_zero]
    | succ i =>
      rw [List.getElem?_cons_succ] at ha ⊢
      have htoInt : toInt (ordering + b.attrLen) = ordering + b.attrLen :=
        toInt_eq (by omega) (by omega)
      rw [htoInt, ih (by omega) hl' (by omega) ha, List.take_succ_cons, sumLen_cons, add_assoc]

namespace Relation

/-- A name that `createRel` accepts, and attributes that carry it. -/
structure WF (R : Relation) : Prop where
  nul : (0 : UInt8) ∉ R.name
  ne_nil : R.name ≠ []
  length : R.name.length < MAXNAME
  attrs : ∀ a ∈ R.attrs, a.relName = R.name

variable {R : Relation}

theorem WF.isName (h : R.WF) : IsName R.name := ⟨h.nul, h.length.trans (by decide)⟩

theorem WF.relName (h : R.WF) {d : AttrDesc} (hd : d ∈ R.attrDescs) : d.relName = R.name :=
  relName_of_mem_descsFrom h.attrs hd

/-- All its tuples have its name. -/
theorem WF.filter_attrDescs (h : R.WF) (name : Bytes) :
    (R.attrDescs.filter fun d => decide (d.relName = name)) =
      if R.name = name then R.attrDescs else [] := by
  split
  next hn =>
    exact List.filter_eq_self.mpr fun d hd => decide_eq_true ((h.relName hd).trans hn)
  next hn =>
    refine List.filter_eq_nil_iff.mpr fun d hd ht => hn ?_
    exact (h.relName hd).symm.trans (of_decide_eq_true ht)

theorem length_attrDescs (R : Relation) : R.attrDescs.length = R.attrs.length :=
  length_descsFrom 0 _

theorem wf_relcat : relcat.WF := ⟨by decide, by decide, by decide, by decide⟩

theorem wf_attrcat : attrcat.WF := ⟨by decide, by decide, by decide, by decide⟩

end Relation

/-! ## The tuples of the catalogs -/

/-- The names of relations. -/
def names (C : List Relation) : List FileName := C.map Relation.name

section Tuples

variable {fv fvA : FileView} {H H' HA HA' : Heap} {C : List Relation} {relation : Bytes}

/-- The name in a tuple of `attrcat`. -/
theorem Heap.Tuples.named (h : H.Tuples 76) (hH : HeapAt fv H) {b : Bytes} (hb : b ∈ H.rows) :
    (AttrDesc.decode b).relName = cstr b := by
  obtain ⟨rid, hrec⟩ := (Heap.mem_rows hH).mp hb
  exact AttrDesc.relName_decode (h rid b hrec).2

/-- There is a tuple in `relcat` for each relation. -/
theorem Lists.mem_names (h : Lists H HA C) :
    relation ∈ names C ↔ Known relation H.rows := by
  have hmem : relation ∈ names C ↔ relation ∈ (H.rows.map RelDesc.decode).map RelDesc.relName := by
    rw [h.rel, Multiset.map_coe, Multiset.mem_coe, List.map_map]
    rfl
  rw [hmem, Multiset.map_map, Multiset.mem_map]
  exact exists_congr fun b => and_congr_right fun _ => decide_eq_true_iff.symm

/-- The relation that has been added to the catalogs. -/
theorem Lists.declare {attrCnt : Int} {attrList : List AttrInfo} (h : Lists H HA C)
    (hd : Declares relation attrCnt attrList H H' HA HA') (hpos : 1 ≤ attrCnt) :
    Lists H' HA' (⟨relation, attrList.take attrCnt.toNat⟩ :: C) := by
  obtain ⟨b, hrows, hb⟩ := hd.rel
  obtain ⟨l, hrowsA, hl⟩ := hd.attrs
  have hlen : ((attrList.take attrCnt.toNat).length : Int) = attrCnt := by
    have := hd.cnt
    rw [List.length_take]
    omega
  refine ⟨?_, ?_⟩
  · rw [hrows, Multiset.map_cons, hb, h.rel, Multiset.cons_coe, List.map_cons]
    unfold Relation.desc
    rw [hlen]
  · rw [hrowsA, Multiset.map_add, hl, h.attr, Multiset.coe_add]
    rfl

/-- The tuples of the relations with other names. -/
theorem Lists.drop (h : Lists H HA C) (hwf : ∀ R ∈ C, R.WF) (htuples : HA.Tuples 76)
    (hHA : HeapAt fvA HA) (hrows : H'.rows = withoutName relation H.rows)
    (hrowsA : HA'.rows = withoutName relation HA.rows) :
    Lists H' HA' (C.filter fun R => R.name ≠ relation) := by
  refine ⟨?_, ?_⟩
  · have hmap : (withoutName relation H.rows).map RelDesc.decode =
        (H.rows.map RelDesc.decode).filter fun d => d.relName ≠ relation := by
      rw [Multiset.filter_map]
      refine congrArg (Multiset.map _) (Multiset.filter_congr fun b _ => not_congr ?_)
      exact decide_eq_true_iff
    rw [hrows, hmap, h.rel, Multiset.filter_coe, List.filter_map]
    rfl
  · have hmap : (withoutName relation HA.rows).map AttrDesc.decode =
        (HA.rows.map AttrDesc.decode).filter fun d => d.relName ≠ relation := by
      rw [Multiset.filter_map]
      refine congrArg (Multiset.map _) (Multiset.filter_congr fun b hb => not_congr ?_)
      rw [htuples.named hHA hb]
      exact decide_eq_true_iff
    rw [hrowsA, hmap, h.attr, Multiset.filter_coe, List.filter_flatMap]
    refine congrArg _ ?_
    clear h
    induction C with
    | nil => rfl
    | cons R C ih =>
      have hR := hwf R List.mem_cons_self
      rw [List.flatMap_cons, ih fun R hR => hwf R (List.mem_cons_of_mem _ hR)]
      by_cases hn : R.name = relation
      · rw [List.filter_cons_of_neg (by simpa using hn), List.filter_eq_nil_iff.mpr,
          List.nil_append]
        intro d hd
        rw [hR.relName hd]
        simpa using hn
      · rw [List.filter_cons_of_pos (by simpa using hn), List.flatMap_cons,
          List.filter_eq_self.mpr]
        intro d hd
        rw [hR.relName hd]
        simpa using hn

end Tuples

/-! ## Sessions -/

/-- A call that may change the catalogs. -/
inductive CatalogCall
  | createRel (relation : Bytes) (attrCnt : Int) (attrList : List AttrInfo)
  | destroyRel (relation : Bytes)
  | load (relation fileName : Bytes)

/-- The call returns with this status, and with its flag raised if a call of the buffer manager has
failed. The locals of the functions hold anything before they are set. -/
def CatalogCall.Step (call : CatalogCall) (s : Sys) (st : Status) (e : Bool) (s' : Sys) : Prop :=
  match call with
  | .createRel relation attrCnt attrList => ∃ fuel rd ad, rd.Sized ∧ ad.Sized ∧
      Yields (RelCatalog.createRel fuel rd ad relation attrCnt attrList) s st e s'
  | .destroyRel relation => ∃ fuel u, Yields (RelCatalog.destroyRel fuel u relation) s st e s'
  | .load relation fileName => ∃ fuel rd junk junkAttr, rd.Sized ∧ junk.Sized ∧
      Yields (UT_Load fuel rd junk junkAttr relation fileName) s st e s'

/-- A call that has returned. -/
structure CatalogEvent where
  /-- The call. -/
  call : CatalogCall
  /-- What it has returned. -/
  status : Status
  /-- Whether a call of the buffer manager has failed in it. -/
  failed : Bool

/-- The calls of a session, the last one first. -/
inductive CatalogRun (s₀ : Sys) : List CatalogEvent → Sys → Prop
  | start : CatalogRun s₀ [] s₀
  | step {tr : List CatalogEvent} {s s' : Sys} {call : CatalogCall} {st : Status} {e : Bool}
      (hrun : CatalogRun s₀ tr s) (hstep : call.Step s st e s') :
      CatalogRun s₀ (⟨call, st, e⟩ :: tr) s'

/-- A session on a database that `dbcreate` has made in a directory with the files `unix`, when it
has opened the catalogs. -/
inductive NewSession (unix : FileName → Option UnixFile) : Sys → Prop
  | intro {dataFile dataFile' : FileName → Option Bytes} {hash hash' : BufHash} {rd : RelDesc}
      {ad : AttrDesc} {s s' : Sys} {relCat attrCat : HeapFile} (hrel : unix RELCATNAME = none)
      (hattr : unix ATTRCATNAME = none) (hrd : rd.Sized) (had : ad.Sized)
      (hcreate : Yields (dbcreate rd ad) (Sys.start unix dataFile (fun _ => true) hash) .OK false s)
      (hopen : Yields openCatalogs (Sys.start s.unix dataFile' (fun _ => true) hash')
        (.OK, relCat, attrCat) false s') : NewSession unix s'

/-- The relations that have been created and not been destroyed. -/
def created : List CatalogEvent → List Relation
  | [] => []
  | ⟨.createRel relation attrCnt attrList, st, _⟩ :: tr =>
    if st = .OK then ⟨relation, attrList.take attrCnt.toNat⟩ :: created tr else created tr
  | ⟨.destroyRel relation, st, _⟩ :: tr =>
    if st = .OK then (created tr).filter fun R => R.name ≠ relation else created tr
  | ⟨.load _ _, _, _⟩ :: tr => created tr

theorem created_createRel {relation : Bytes} {attrCnt : Int} {attrList : List AttrInfo}
    {st : Status} {e : Bool} {tr : List CatalogEvent} :
    created (⟨.createRel relation attrCnt attrList, st, e⟩ :: tr) =
      if st = .OK then ⟨relation, attrList.take attrCnt.toNat⟩ :: created tr else created tr := rfl

theorem created_destroyRel {relation : Bytes} {st : Status} {e : Bool} {tr : List CatalogEvent} :
    created (⟨.destroyRel relation, st, e⟩ :: tr) =
      if st = .OK then (created tr).filter fun R => R.name ≠ relation else created tr := rfl

/-- All relations: those, and the catalogs. -/
def relations (tr : List CatalogEvent) : List Relation :=
  created tr ++ [Relation.relcat, Relation.attrcat]

/-! ## Consistency -/

/-- The tuples of the catalogs, as descriptors. -/
def StoresTuples (s : Sys) (rel : Multiset RelDesc) (att : Multiset AttrDesc) : Prop :=
  ∃ P v fv H fvA HA, Coh s P v ∧ Catalogs v fv H fvA HA ∧ H.rows.map RelDesc.decode = rel ∧
    HA.rows.map AttrDesc.decode = att

/-- There is a heap file of this name. -/
def ExistsHeapFile (s : Sys) (nm : FileName) : Prop :=
  ∃ P v fv H, Coh s P v ∧ IsHeap v nm fv H

/-- Each attribute has as offset the sum of the lengths of those before it. -/
def Relation.Exact (R : Relation) : Prop :=
  ∀ (i : Nat) (a : AttrInfo), R.attrs[i]? = some a → R.attrDescs[i]? =
    some ⟨R.name, a.attrName, sumLen (R.attrs.take i), a.attrType, a.attrLen⟩

/-- The catalogs and the files tell that there are the relations `C`, in a directory that had the
files `unix` before. -/
structure ConsistentCatalog (unix : FileName → Option UnixFile) (s : Sys) (C : List Relation) :
    Prop where
  unique : (names C).Nodup
  /-- Each relation has one tuple in `relcat`, and in `attrcat` those of its attributes; `attrcat`
  has no others. -/
  tuples : ∃ rel att, StoresTuples s rel att ∧ rel = (C.map Relation.desc : Multiset RelDesc) ∧
    (∀ R ∈ C, (att.filter fun d => d.relName = R.name) = (R.attrDescs : Multiset AttrDesc)) ∧
    ∀ d ∈ att, d.relName ∈ names C
  exact : ∀ R ∈ C, R.Exact
  file : ∀ R ∈ C, ExistsHeapFile s R.name
  noFile : ∀ nm, nm ∉ names C → unix nm = none → s.unix nm = none
  /-- `getRelInfo` returns them, if there are three frames for its scans. -/
  getRelInfo : ∀ R ∈ C, ∃ N, ∀ (fuel : Nat) (junk : RelDesc) (junkAttr : AttrDesc) (attrCnt : Int)
    (attrs : List AttrDesc), junk.Sized → Clean (3 ≤ s.freeFrames ∧ N ≤ fuel)
      (AttrCatalog.getRelInfo fuel junk junkAttr R.name attrCnt attrs) s fun r _ => r.1 = .OK ∧
        r.2.1 = R.attrs.length ∧ (r.2.2.map AttrDesc.strings : Multiset AttrDesc) = R.attrDescs

/-- The catalogs list the relations `C`. -/
structure Database (s : Sys) (C : List Relation) (P : Multiset Pin) (v : View)
    (fv : FileView) (H : Heap) (fvA : FileView) (HA : Heap) : Prop where
  coh : Coh s P v
  catalogs : Catalogs v fv H fvA HA
  lists : Lists H HA C
  nodup : (names C).Nodup
  wf : ∀ R ∈ C, R.WF
  opened : ∀ nm f c, v.handle nm = some (f, c) → 0 < c

/-- What is left by a call that has opened, closed and changed files of `S` only, with the catalogs
`H` and `HA` before it. Their pages are still there, and unless `D` no page of theirs has been
written to that is still pinned. -/
structure LeavesCatalogs (D : Prop) (S : FileName → Prop) (k : Nat) (P : Multiset Pin) (v : View)
    (H HA : Heap) (s : Sys) (P' : Multiset Pin) (v' : View) (H' HA' : Heap) :
    Prop extends Leaves S k P v s P' v' where
  rel : H.Le H'
  attr : HA.Le HA'
  wrote : ¬D → ∀ z ∈ P', z.wrote = true → z ∈ P ∨ ∀ nm c, v'.handle nm = some (z.file, c) →
    ¬IsCatalog nm

theorem HasRead.leavesCatalogs {D : Prop} {S : FileName → Prop} {k : Nat} {P P' : Multiset Pin}
    {v v' : View} {H HA : Heap} {s : Sys} (h : HasRead S k P v s P' v') :
    LeavesCatalogs D S k P v H HA s P' v' H HA :=
  ⟨h.leaves, .refl H, .refl HA, fun _ _ hz hw => Or.inl (h.mem_of_wrote hz hw)⟩

theorem LeavesCatalogs.mono {D : Prop} {S S' : FileName → Prop} {k k' : Nat} {P P' : Multiset Pin}
    {v v' : View} {H HA H' HA' : Heap} {s : Sys} (h : LeavesCatalogs D S k P v H HA s P' v' H' HA')
    (hS : ∀ nm, S nm → S' nm) (hk : k ≤ k') : LeavesCatalogs D S' k' P v H HA s P' v' H' HA' :=
  ⟨h.toLeaves.mono hS hk, h.rel, h.attr, h.wrote⟩

namespace Database

variable {s : Sys} {C : List Relation} {P : Multiset Pin} {v : View} {fv fvA : FileView}
  {H HA : Heap} {R : Relation}

/-- The tuples of a relation in `attrcat`. -/
theorem filter_attrs (h : Database s C P v fv H fvA HA) (hR : R ∈ C) :
    ((HA.rows.map AttrDesc.decode).filter fun d => d.relName = R.name) =
      (R.attrDescs : Multiset AttrDesc) := by
  rw [h.lists.attr, Multiset.filter_coe, List.filter_flatMap]
  have hwf := h.wf
  have hnodup := h.nodup
  clear h
  refine congrArg _ ?_
  induction C with
  | nil => cases hR
  | cons R' C ih =>
    obtain ⟨hnot, hnodup'⟩ := List.nodup_cons.mp hnodup
    have hwf' : ∀ R ∈ C, R.WF := fun R hR => hwf R (List.mem_cons_of_mem _ hR)
    rw [List.flatMap_cons, (hwf R' List.mem_cons_self).filter_attrDescs]
    rcases List.mem_cons.mp hR with rfl | hR
    · -- no other relation has the name
      rw [if_pos rfl, List.flatMap_eq_nil_iff.mpr, List.append_nil]
      intro R' hR'
      rw [(hwf' R' hR').filter_attrDescs, if_neg fun hn => hnot (List.mem_map.mpr ⟨R', hR', hn⟩)]
    · rw [if_neg fun hn => hnot (List.mem_map.mpr ⟨R, hR, hn.symm⟩), List.nil_append]
      exact ih hR hwf' hnodup'

/-- The tuples that `getRelInfo` collects. -/
theorem relAttrs (h : Database s C P v fv H fvA HA) (hR : R ∈ C) :
    ((Minirel.relAttrs R.name HA.contents).map AttrDesc.strings : Multiset AttrDesc) =
      R.attrDescs := by
  have hnamed : ∀ b ∈ HA.rows, (hasName R.name b = true ↔
    (AttrDesc.decode b).relName = R.name) := by
    intro b hb
    rw [h.catalogs.attrTuples.named h.catalogs.attrcat.heapAt hb]
    exact decide_eq_true_iff
  have hfilter : (HA.rows.filter fun b => hasName R.name b = true).map AttrDesc.decode =
      (HA.rows.map AttrDesc.decode).filter fun d => d.relName = R.name := by
    rw [Multiset.filter_map]
    exact congrArg _ (Multiset.filter_congr fun b hb => hnamed b hb)
  rw [← h.filter_attrs hR, ← hfilter]
  unfold Minirel.relAttrs Heap.rows
  rw [List.map_map, Multiset.filter_coe, Multiset.map_coe]
  simp only [Bool.decide_eq_true]
  rfl

/-- The tuple that `getInfo` finds in `relcat`. -/
theorem find?_rel (h : Database s C P v fv H fvA HA) (hR : R ∈ C) :
    ∃ b, H.contents.find? (hasName R.name) = some b ∧ RelDesc.decode b = R.desc := by
  have hmem : R.name ∈ names C := List.mem_map_of_mem hR
  obtain ⟨b, hfind, hb, hname⟩ | ⟨-, hnone⟩ := find?_hasName R.name H
  · refine ⟨b, hfind, ?_⟩
    have hdec : RelDesc.decode b ∈ (C.map Relation.desc : Multiset RelDesc) :=
      h.lists.rel ▸ Multiset.mem_map_of_mem _ hb
    obtain ⟨R', hR', heq⟩ := List.mem_map.mp (Multiset.mem_coe.mp hdec)
    have hn : R'.name = R.name := by
      have := congrArg RelDesc.relName heq
      exact this.trans (of_decide_eq_true hname)
    rw [← heq, List.inj_on_of_nodup_map h.nodup hR' hR hn]
  · obtain ⟨b, hb, hname⟩ := h.lists.mem_names.mp hmem
    rw [hnone b hb] at hname
    cases hname

theorem length_relAttrs (h : Database s C P v fv H fvA HA) (hR : R ∈ C) :
    (Minirel.relAttrs R.name HA.contents).length = R.attrs.length := by
  have hcard := congrArg Multiset.card (h.relAttrs hR)
  rwa [Multiset.coe_card, Multiset.coe_card, List.length_map, R.length_attrDescs] at hcard

/-- `relcat` announces the tuples that are in `attrcat`. -/
theorem find?_count (h : Database s C P v fv H fvA HA) (hR : R ∈ C) :
    ∃ b, H.contents.find? (hasName R.name) = some b ∧
      (RelDesc.ofBytes b).attrCnt = (Minirel.relAttrs R.name HA.contents).length := by
  obtain ⟨b, hfind, hb⟩ := h.find?_rel hR
  refine ⟨b, hfind, ?_⟩
  rw [h.length_relAttrs hR]
  exact congrArg RelDesc.attrCnt hb

/-- `getRelInfo` of a relation. -/
theorem getRelInfo {T : Prop} (h : Database s C P v fv H fvA HA) (hR : R ∈ C) (fuel : Nat)
    {junk : RelDesc} {junkAttr : AttrDesc} {attrCnt : Int} {attrs : List AttrDesc}
    (hjunk : junk.Sized)
    (hT : T → 3 ≤ freeFrames v.numBufs P ∧ H.rids.length + H.pages.length + 1 ≤ fuel ∧
      2 * HA.rids.length + HA.pages.length + 1 ≤ fuel) :
    Clean T (AttrCatalog.getRelInfo fuel junk junkAttr R.name attrCnt attrs) s fun r s' =>
      (∃ P' v', HasRead IsCatalog 3 P v s' P' v') ∧ r.1 = .OK ∧ r.2.1 = R.attrs.length ∧
        (r.2.2.map AttrDesc.strings : Multiset AttrDesc) = R.attrDescs := by
  have hwf := h.wf R hR
  obtain ⟨b, hfind, hcnt⟩ := h.find?_count hR
  refine (AttrCatalog.getRelInfo_spec fuel h.coh h.catalogs.relcat h.catalogs.relTuples
    h.catalogs.attrcat h.catalogs.attrTuples hwf.isName hwf.ne_nil hjunk hfind hcnt hT).mono ?_
  rintro r s' ⟨hread, rfl⟩
  refine ⟨hread, rfl, ?_, ?_⟩
  · rw [h.length_relAttrs hR]
  · rw [List.map_reverse, Multiset.coe_reverse]
    exact h.relAttrs hR

section Calls

variable {T : Prop} {relation : Bytes}

/-- The catalogs are as they were, and so are the files. -/
theorem same {S : FileName → Prop} {k : Nat} {P' : Multiset Pin} {v' : View} {s' : Sys}
    (h : Database s C P v fv H fvA HA) (hl : Leaves S k P v s' P' v') (hfile : v'.file = v.file) :
    Database s' C P' v' fv H fvA HA :=
  ⟨hl.coh, h.catalogs.same hl.later hfile, h.lists, h.nodup, h.wf,
    fun nm => hl.later.pos nm (h.opened nm)⟩

/-- `createRel` refuses the relation, or adds it to the catalogs. -/
theorem createRel (h : Database s C P v fv H fvA HA) (fuel : Nat) {rd : RelDesc} {ad : AttrDesc}
    {attrCnt : Int} {attrList : List AttrInfo} (hname : (0 : UInt8) ∉ relation)
    (hforeign : ¬v.foreign relation) (hrd : rd.Sized) (had : ad.Sized) (hcnt : IsInt attrCnt)
    (hattrs : ∀ a ∈ attrList, a.Valid ∧ a.relName = relation)
    (hT : T → 4 ≤ freeFrames v.numBufs P ∧ H.rids.length + H.pages.length + 1 ≤ fuel ∧
      attrCnt.toNat ≤ attrList.length) :
    Clean T (RelCatalog.createRel fuel rd ad relation attrCnt attrList) s fun st s' =>
      ∃ P' v' fv' H' fvA' HA',
        (RefusesSchema relation attrCnt (relation ∈ names C) ∧ st ≠ .OK ∧ st ≠ .FILEEXISTS ∧
          LeavesCatalogs False IsCatalog 1 P v H HA s' P' v' H' HA' ∧ v'.file = v.file ∧
          Database s' C P' v' fv' H' fvA' HA') ∨
        (¬RefusesSchema relation attrCnt (relation ∈ names C) ∧
          LeavesCatalogs False (fun nm => IsCatalog nm ∨ nm = relation) 1 P v H HA s' P' v' H' HA' ∧
          Database s' (⟨relation, attrList.take attrCnt.toNat⟩ :: C) P' v' fv' H' fvA' HA' ∧
          match v.file relation with
          | none => st = .OK ∧ v'.handle relation = none ∧
              ∃ fvR HR, IsHeap v' relation fvR HR ∧ HR.rids = [] ∧ HR.Counted
          | some fvR =>
            st = .FILEEXISTS ∧ (¬IsCatalog relation → v'.file relation = some fvR)) := by
  rw [h.lists.mem_names]
  refine (RelCatalog.createRel_spec fuel h.coh h.catalogs hname hforeign (h.opened relation) hrd had
    hcnt (fun a ha => (hattrs a ha).1) hT).mono ?_
  rintro st s' ⟨P', v', ⟨href, hst, hst', hread⟩ | ⟨hacc, hl, hwrote, ⟨fv', H', fvA', HA', hcat,
    hdecl⟩, hfile⟩⟩
  · exact ⟨P', v', fv, H, fvA, HA,
      Or.inl ⟨href, hst, hst', hread.leavesCatalogs.mono (fun _ => Or.inl) le_rfl,
      hread.file, h.same hread.leaves hread.file⟩⟩
  · have hacc' := hacc
    unfold RefusesSchema at hacc'
    push Not at hacc'
    obtain ⟨hne, hpos, hlen, hunknown⟩ := hacc'
    have hcats : LeavesCatalogs False _ 1 P v H HA s' P' v' H' HA' :=
      ⟨hl, hdecl.le, hdecl.leA, fun _ z hz hw => Or.inl (hwrote z hz hw)⟩
    refine ⟨P', v', fv', H', fvA', HA',
      Or.inr ⟨hacc, hcats, ⟨hl.coh, hcat, h.lists.declare hdecl hpos,
      List.nodup_cons.mpr ⟨fun hn => hunknown (h.lists.mem_names.mp hn), h.nodup⟩, ?_,
      fun nm => hl.later.pos nm (h.opened nm)⟩, ?_⟩⟩
    · intro R hR
      rcases List.mem_cons.mp hR with rfl | hR
      · exact ⟨hname, hne, hlen, fun a ha => (hattrs a (List.mem_of_mem_take ha)).2⟩
      · exact h.wf R hR
    · cases hfR : v.file relation with
      | some fvR =>
        rw [hfR] at hfile
        exact hfile
      | none =>
        rw [hfR] at hfile
        obtain ⟨hst, hhandle, p, q, pg, fvR, hf', hR⟩ := hfile
        exact ⟨hst, hhandle, fvR, _, isHeap_fresh hne hf' hR hhandle, Heap.rids_fresh,
          Heap.counted_fresh⟩

/-- `destroyRel` removes the relation from the catalogs, if there is one. -/
theorem destroyRel (h : Database s C P v fv H fvA HA) (fuel : Nat) {u : RelCatalog.Unset}
    (hname : IsName relation)
    (hT : T → 5 ≤ freeFrames v.numBufs P ∧ 2 * H.rids.length + H.pages.length + 1 ≤ fuel ∧
      2 * HA.rids.length + HA.pages.length + 1 ≤ fuel) :
    Clean T (RelCatalog.destroyRel fuel u relation) s fun st s' => ∃ P' v' fv' H' fvA' HA',
      ((relation = [] ∨ IsCatalog relation ∨ relation ∉ names C) ∧ st ≠ .OK ∧
        LeavesCatalogs (¬IsCatalog relation) IsCatalog 2 P v H HA s' P' v' H' HA' ∧
        v'.file = v.file ∧
        Database s' C P' v' fv' H' fvA' HA') ∨
      (¬(relation = [] ∨ IsCatalog relation) ∧
        LeavesCatalogs (¬IsCatalog relation) (fun nm => IsCatalog nm ∨ nm = relation) 4 P v H HA s'
          P' v' H' HA' ∧
        Database s' (C.filter fun R => R.name ≠ relation) P' v' fv' H' fvA' HA' ∧
        if (v.handle relation).isSome then st = .FILEOPEN ∧ v'.file relation = v.file relation
        else v'.file relation = none ∧ ((v.file relation).isSome → st = .OK)) := by
  refine (RelCatalog.destroyRel_spec fuel h.coh h.catalogs hname hT).mono ?_
  rintro st s' ⟨P', v', ⟨hbad, hst, rfl, rfl, hc⟩ | ⟨hgood, -, hret, hst, hnone, hl, hfile⟩ |
    ⟨hgood, hl, ⟨fv', H', fvA', HA', hcat, hpages, hpagesA, hrows, hrowsA, -⟩, hfile⟩⟩
  · have hread := (HasRead.refl IsCatalog hc).mono (fun _ h => h) (Nat.zero_le 2)
    refine ⟨P', v', fv, H, fvA, HA, Or.inl ⟨hbad.imp_right Or.inl, ?_, hread.leavesCatalogs, rfl,
      h.same hread.leaves rfl⟩⟩
    rw [hst]
    nofun
  · have hcats : LeavesCatalogs (¬IsCatalog relation) IsCatalog 2 P v H HA s' P' v' H HA :=
      ⟨hl.mono (fun _ => Or.inl) le_rfl, .refl H, .refl HA,
      fun hn => absurd (fun hc => hgood (Or.inr hc)) hn⟩
    refine ⟨P', v', fv, H, fvA, HA, Or.inl ⟨Or.inr (Or.inr fun hn => ?_), hst ▸ hret, hcats, hfile,
      h.same hl hfile⟩⟩
    obtain ⟨b, hb, hbname⟩ := h.lists.mem_names.mp hn
    rw [hnone b hb] at hbname
    cases hbname
  · have hcats : LeavesCatalogs (¬IsCatalog relation) _ 4 P v H HA s' P' v' H' HA' :=
      ⟨hl, hpages.le, hpagesA.le, fun hn => absurd (fun hc => hgood (Or.inr hc)) hn⟩
    refine ⟨P', v', fv', H', fvA', HA', Or.inr ⟨hgood, hcats, ⟨hl.coh, hcat,
      h.lists.drop h.wf h.catalogs.attrTuples h.catalogs.attrcat.heapAt hrows hrowsA, ?_,
      fun R hR => h.wf R (List.mem_of_mem_filter hR), fun nm => hl.later.pos nm (h.opened nm)⟩,
      hfile⟩⟩
    exact h.nodup.sublist (List.filter_sublist.map _)

end Calls

end Database

/-! ## Runs -/

theorem IsCatalog.mem_names {tr : List CatalogEvent} {nm : FileName} (h : IsCatalog nm) :
    nm ∈ names (relations tr) := by
  refine List.mem_map.mpr ?_
  rcases h with rfl | rfl
  · exact ⟨Relation.relcat, List.mem_append_right _ (by simp), rfl⟩
  · exact ⟨Relation.attrcat, List.mem_append_right _ (by simp), rfl⟩

/-- A session starts with the relations `relcat` and `attrcat`, and with no other file. -/
theorem NewSession.database {unix : FileName → Option UnixFile} {s : Sys} (h : NewSession unix s) :
    ∃ P v fv H fvA HA, Database s (relations []) P v fv H fvA HA ∧
      (∀ nm, ¬IsCatalog nm → v.file nm = none ∧ v.handle nm = none) ∧
      v.foreign = (fun nm => ((unix nm).isSome : Prop)) ∧ 96 ≤ freeFrames v.numBufs P := by
  cases h with
  | @intro dataFile dataFile' hash hash' rd ad s₁ s relCat attrCat hrel hattr hrd had
      hcreate hopen =>
    obtain ⟨-, v, fv, H, fvA, HA, hdisk, hcat, hlists, habsent, hforeign⟩ :=
      (dbcreate_spec (T := False) hrel hattr hrd had).of_yields hcreate
    have hc := hdisk.start (fun x hx => absurd hx (Multiset.notMem_zero x)) dataFile' hash'
    have hcat' := hcat.reloaded
    obtain ⟨-, x, y, xA, yA, -, -, hlater, hc'⟩ :=
      (openCatalogs_spec (T := False) hc hcat'.relcat hcat'.attrcat False.elim).of_yields hopen
    refine ⟨_, _, fv.reloaded, H, fvA.reloaded, HA, ⟨hc', hcat'.same hlater rfl,
      hlists, by decide, ?_,
      fun nm => hlater.pos nm nofun⟩, fun nm hnm => ⟨?_, hlater.other nm hnm⟩, hforeign, ?_⟩
    · intro R hR
      rcases List.mem_cons.mp hR with rfl | hR
      · exact Relation.wf_relcat
      · rw [List.mem_singleton.mp hR]
        exact Relation.wf_attrcat
    · show (v.file nm).map _ = none
      rw [habsent nm hnm]
      rfl
    · have hframes : freeFrames BUFS 0 = 100 := freeFrames_zero 100
      have h₁ := freeFrames_cons BUFS x 0
      have h₂ := freeFrames_cons BUFS y (x ::ₘ 0)
      have h₃ := freeFrames_cons BUFS xA (y ::ₘ x ::ₘ 0)
      have h₄ := freeFrames_cons BUFS yA (xA ::ₘ y ::ₘ x ::ₘ 0)
      show 96 ≤ freeFrames BUFS _
      omega

/-- A database can be made, and a session started on it. -/
theorem exists_newSession {unix : FileName → Option UnixFile} (hrel : unix RELCATNAME = none)
    (hattr : unix ATTRCATNAME = none) : ∃ s, NewSession unix s := by
  have hhash : 0 < BufMgr.htsize BUFS := by decide
  have hspec : Clean True (dbcreate .zero .zero)
      (Sys.start unix (fun _ => none) (fun _ => true) fun _ => ⟨0, hhash⟩) _ :=
    dbcreate_spec hrel hattr RelDesc.sized_zero AttrDesc.sized_zero
  obtain ⟨st, s, hcreate, hst, v, fv, H, fvA, HA, hdisk, hcat, -⟩ := hspec.exists trivial
  subst hst
  have hc := hdisk.start (fun x hx => absurd hx (Multiset.notMem_zero x)) (fun _ => none)
    fun _ => ⟨0, hhash⟩
  have hframes : 4 ≤ freeFrames v.reloaded.numBufs 0 := by
    show 4 ≤ freeFrames BUFS 0
    rw [freeFrames_zero]
    decide
  obtain ⟨⟨st, relCat, attrCat⟩, s', hopen, hst, -⟩ := (openCatalogs_spec (T := True) hc
    hcat.reloaded.relcat hcat.reloaded.attrcat fun _ => hframes).exists trivial
  dsimp only at hst
  subst hst
  exact ⟨s', .intro hrel hattr RelDesc.sized_zero AttrDesc.sized_zero hcreate hopen⟩

/-- What the callers of `createRel` and `destroyRel` see to: the strings and numbers are such as C
has them, all attributes carry the name of the relation, no other Unix file has it, and the lengths
have a sum in the range of `int`. A relation that is destroyed is there. -/
def CatalogCall.Proper (unix : FileName → Option UnixFile) (C : List Relation) : CatalogCall → Prop
  | .createRel relation attrCnt attrList => (0 : UInt8) ∉ relation ∧ unix relation = none ∧
      IsInt attrCnt ∧ (∀ a ∈ attrList, a.Valid ∧ a.relName = relation ∧ 0 ≤ a.attrLen) ∧
      IsInt (sumLen attrList)
  | .destroyRel relation => relation ∈ names C
  | .load _ _ => False

/-- What any caller of `createRel` and `destroyRel` sees to: the strings and numbers are such as C
has them, all attributes carry the name of the relation, and no other Unix file has it. -/
def CatalogCall.Sound (unix : FileName → Option UnixFile) : CatalogCall → Prop
  | .createRel relation attrCnt attrList => (0 : UInt8) ∉ relation ∧ unix relation = none ∧
      IsInt attrCnt ∧ ∀ a ∈ attrList, a.Valid ∧ a.relName = relation
  | .destroyRel relation => IsName relation
  | .load _ _ => False

/-- All calls of the run are such, and no call of the buffer manager has failed. -/
def ProperRun (unix : FileName → Option UnixFile) : List CatalogEvent → Prop
  | [] => True
  | ev :: tr => ProperRun unix tr ∧ ev.failed = false ∧ ev.call.Proper unix (relations tr)

/-- The files of the database are the heap files of the relations. -/
structure FilesOf (unix : FileName → Option UnixFile) (C : List Relation) (v : View) : Prop where
  file : ∀ R ∈ C, ∃ fvR HR, IsHeap v R.name fvR HR
  absent : ∀ nm, nm ∉ names C → v.file nm = none
  foreign : v.foreign = fun nm => ((unix nm).isSome : Prop)

theorem Relation.exact_of_sumLen {name : FileName} {attrs : List AttrInfo}
    (hattrs : ∀ a ∈ attrs, a.relName = name ∧ 0 ≤ a.attrLen) (hsum : sumLen attrs < 2147483648) :
    (⟨name, attrs⟩ : Relation).Exact := by
  intro i a ha
  have h := getElem?_descsFrom (le_refl 0) (fun a ha => (hattrs a ha).2) (by omega) ha
  rw [zero_add] at h
  rw [← (hattrs a (List.mem_of_getElem? ha)).1]
  exact h

theorem sumLen_take_le {l : List AttrInfo} (hl : ∀ a ∈ l, 0 ≤ a.attrLen) (n : Nat) :
    sumLen (l.take n) ≤ sumLen l := by
  have hsplit : sumLen (l.take n ++ l.drop n) = sumLen (l.take n) + sumLen (l.drop n) := by
    unfold sumLen
    rw [List.map_append, List.sum_append]
  have hrest := sumLen_nonneg fun a ha => hl a (List.mem_of_mem_drop (i := n) ha)
  rw [List.take_append_drop] at hsplit
  omega

namespace FilesOf

variable {unix : FileName → Option UnixFile} {C : List Relation} {P P' : Multiset Pin} {v v' : View}
  {s' : Sys} {S : FileName → Prop} {k : Nat} {relation : FileName}

theorem not_foreign (h : FilesOf unix C v) (hunix : unix relation = none) :
    ¬v.foreign relation := by
  rw [h.foreign]
  dsimp only
  rw [hunix]
  exact Bool.false_ne_true

/-- Nothing has changed, except that the catalogs may be open more often. -/
theorem same (h : FilesOf unix C v) (hl : Leaves IsCatalog k P v s' P' v')
    (hfile : v'.file = v.file) :
    FilesOf unix C v' := by
  refine ⟨fun R hR => ?_, fun nm hnm => hfile ▸ h.absent nm hnm, hl.later.foreign.trans h.foreign⟩
  obtain ⟨fvR, HR, hH⟩ := h.file R hR
  exact ⟨fvR, HR, hH.same hl.later (congrFun hfile R.name)⟩

/-- The other heap files are still there. -/
theorem isHeap (hl : Leaves (fun nm => IsCatalog nm ∨ nm = relation) k P v s' P' v')
    {fv fvA : FileView} {H HA : Heap} (hcat : Catalogs v' fv H fvA HA) {nm : FileName}
    (hne : nm ≠ relation) (h : ∃ fvR HR, IsHeap v nm fvR HR) : ∃ fvR HR, IsHeap v' nm fvR HR := by
  obtain ⟨fvR, HR, hH⟩ := h
  by_cases hcatalog : IsCatalog nm
  · rcases hcatalog with rfl | rfl
    · exact ⟨_, _, hcat.relcat⟩
    · exact ⟨_, _, hcat.attrcat⟩
  · exact ⟨fvR, HR, hl.isHeap (fun hn => hn.elim hcatalog hne) hH⟩

/-- A relation and its file have been created. -/
theorem create (h : FilesOf unix C v)
    (hl : Leaves (fun nm => IsCatalog nm ∨ nm = relation) k P v s' P' v') {fv fvA fvR : FileView}
    {H HA HR : Heap} {attrs : List AttrInfo} (hcat : Catalogs v' fv H fvA HA)
    (hR : IsHeap v' relation fvR HR) (hall : ∀ nm, IsCatalog nm → nm ∈ names C) :
    FilesOf unix (⟨relation, attrs⟩ :: C) v' where
  file R hmem := by
    by_cases hn : R.name = relation
    · exact ⟨fvR, HR, hn ▸ hR⟩
    · rcases List.mem_cons.mp hmem with rfl | hmem
      · exact absurd rfl hn
      · exact isHeap hl hcat hn (h.file R hmem)
  absent nm hnm := by
    have hne : nm ≠ relation := fun hn => hnm (List.mem_cons.mpr (Or.inl hn))
    have hnot : nm ∉ names C := fun hn => hnm (List.mem_cons_of_mem _ hn)
    exact (hl.other nm fun hn => hn.elim (fun hc => hnot (hall nm hc)) hne).trans (h.absent nm hnot)
  foreign := hl.later.foreign.trans h.foreign

/-- A relation and its file have been destroyed. -/
theorem destroy (h : FilesOf unix C v)
    (hl : Leaves (fun nm => IsCatalog nm ∨ nm = relation) k P v s' P' v') {fv fvA : FileView}
    {H HA : Heap} (hcat : Catalogs v' fv H fvA HA) (hfile : v'.file relation = none)
    (hall : ∀ nm, IsCatalog nm → nm ∈ names C) :
    FilesOf unix (C.filter fun R => R.name ≠ relation) v' where
  file R hmem := by
    obtain ⟨hmem, hn⟩ := List.mem_filter.mp hmem
    exact isHeap hl hcat (of_decide_eq_true hn) (h.file R hmem)
  absent nm hnm := by
    by_cases hn : nm = relation
    · exact hn ▸ hfile
    · have hnot : nm ∉ names C := fun hmem => by
        obtain ⟨R, hR, rfl⟩ := List.mem_map.mp hmem
        exact hnm (List.mem_map_of_mem (List.mem_filter.mpr ⟨hR, decide_eq_true hn⟩))
      exact (hl.other nm fun hc => hc.elim (fun hc => hnot (hall nm hc)) hn).trans
        (h.absent nm hnot)
  foreign := hl.later.foreign.trans h.foreign

end FilesOf

/-- The catalogs and the files tell the same. -/
def InStep (unix : FileName → Option UnixFile) (s : Sys) (C : List Relation) : Prop :=
  ∃ P v fv H fvA HA, Database s C P v fv H fvA HA ∧ FilesOf unix C v

/-- Only the catalogs are open. -/
def Sys.Closed (s : Sys) : Prop := ∀ nm, ¬IsCatalog nm → s.openFiles.find nm = none

/-- What holds whenever a call has returned. -/
def TidyCatalog (unix : FileName → Option UnixFile) (s : Sys) (C : List Relation) : Prop :=
  InStep unix s C ∧ s.Closed

section Closed

variable {s s' : Sys} {P P' : Multiset Pin} {v v' : View} {nm : FileName}
  {S : FileName → Prop} {k : Nat}

theorem Coh.find_eq_none (h : Coh s P v) : s.openFiles.find nm = none ↔ v.handle nm = none := by
  rw [h.openFiles nm]
  exact Option.map_eq_none_iff

/-- The files that have not been opened are still closed. -/
theorem Sys.Closed.leaves (h : s.Closed) (hc : Coh s P v) (hl : Leaves S k P v s' P' v')
    (hS : ∀ nm, S nm → ¬IsCatalog nm → v'.handle nm = none) : s'.Closed := by
  intro nm hnm
  refine hl.coh.find_eq_none.mpr ?_
  by_cases hs : S nm
  · exact hS nm hs hnm
  · exact (hl.later.other nm hs).trans (hc.find_eq_none.mp (h nm hnm))

end Closed

theorem relations_createRel {relation : Bytes} {attrCnt : Int} {attrList : List AttrInfo}
    {st : Status} {e : Bool} {tr : List CatalogEvent} :
    relations (⟨.createRel relation attrCnt attrList, st, e⟩ :: tr) =
      if st = .OK then ⟨relation, attrList.take attrCnt.toNat⟩ :: relations tr
        else relations tr := by
  unfold relations
  rw [created_createRel]
  split
  next => rfl
  next => rfl

theorem relations_destroyRel {relation : Bytes} {st : Status} {e : Bool} {tr : List CatalogEvent}
    (hne : ¬IsCatalog relation) :
    relations (⟨.destroyRel relation, st, e⟩ :: tr) =
      if st = .OK then (relations tr).filter fun R => R.name ≠ relation else relations tr := by
  unfold relations
  rw [created_destroyRel]
  split
  next =>
    rw [List.filter_append]
    refine congrArg _ (List.filter_eq_self.mpr fun R hR => ?_).symm
    refine decide_eq_true (show R.name ≠ relation from fun hn => hne ?_)
    rcases List.mem_cons.mp hR with rfl | hR
    · exact Or.inl hn.symm
    · rw [List.mem_singleton.mp hR] at hn
      exact Or.inr hn.symm
  next => rfl

theorem filter_name_of_not_mem {C : List Relation} {relation : Bytes} (h : relation ∉ names C) :
    (C.filter fun R => R.name ≠ relation) = C := by
  refine List.filter_eq_self.mpr fun R hR => decide_eq_true ?_
  rintro rfl
  exact h (List.mem_map_of_mem hR)

/-- The call does not destroy a relation whose file is open. -/
def CatalogCall.Free (s : Sys) : CatalogCall → Prop
  | .createRel _ _ _ => True
  | .destroyRel relation => IsCatalog relation ∨ s.openFiles.find relation = none
  | .load _ _ => True

/-- The relations after a call that has returned the status. -/
def CatalogCall.after (call : CatalogCall) (st : Status) (C : List Relation) : List Relation :=
  match call with
  | .createRel relation attrCnt attrList =>
    if st = .OK then ⟨relation, attrList.take attrCnt.toNat⟩ :: C else C
  | .destroyRel relation => if st = .OK then C.filter fun R => R.name ≠ relation else C
  | .load _ _ => C

/-- Each call keeps the catalogs and the files in step, and leaves no other file open. -/
theorem InStep.next {unix : FileName → Option UnixFile} {s s' : Sys} {C : List Relation}
    {call : CatalogCall} {st : Status} (h : InStep unix s C)
    (hall : ∀ nm, IsCatalog nm → nm ∈ names C) (hsound : call.Sound unix) (hfree : call.Free s)
    (hstep : call.Step s st false s') :
    InStep unix s' (call.after st C) ∧ (s.Closed → s'.Closed) := by
  obtain ⟨P, v, fv, H, fvA, HA, hd, hf⟩ := h
  cases call with
  | createRel relation attrCnt attrList =>
    obtain ⟨hname, hunix, hcnt, hattrs⟩ := hsound
    obtain ⟨fuel, rd, ad, hrd, had, hy⟩ := hstep
    obtain ⟨P', v', fv', H', fvA', HA', h⟩ := (hd.createRel (T := False) fuel hname
      (hf.not_foreign hunix) hrd had hcnt hattrs False.elim).of_yields hy
    unfold CatalogCall.after
    dsimp only
    obtain ⟨-, hst, -, hl, hfile, hd'⟩ | ⟨hacc, hl, hd', hfile⟩ := h
    · rw [if_neg hst]
      exact ⟨⟨P', v', fv', H', fvA', HA', hd', hf.same hl.toLeaves hfile⟩,
        fun hclosed => hclosed.leaves hd.coh hl.toLeaves fun nm hs hnm => absurd hs hnm⟩
    · -- there is no file of this name yet
      rw [hf.absent relation fun hn => hacc (Or.inr (Or.inr (Or.inr hn)))] at hfile
      obtain ⟨rfl, hh, fvR, HR, hR, -⟩ := hfile
      rw [if_pos rfl]
      refine ⟨⟨P', v', fv', H', fvA', HA', hd', hf.create hl.toLeaves hd'.catalogs hR hall⟩,
        fun hclosed => hclosed.leaves hd.coh hl.toLeaves fun nm hs hnm => ?_⟩
      rw [hs.resolve_left hnm]
      exact hh
  | destroyRel relation =>
    obtain ⟨fuel, u, hy⟩ := hstep
    obtain ⟨P', v', fv', H', fvA', HA', h⟩ :=
      (hd.destroyRel (T := False) fuel hsound False.elim).of_yields hy
    unfold CatalogCall.after
    dsimp only
    obtain ⟨-, hst, hl, hfile, hd'⟩ | ⟨hgood, hl, hd', hfile⟩ := h
    · -- the call has been refused
      rw [if_neg hst]
      exact ⟨⟨P', v', fv', H', fvA', HA', hd', hf.same hl.toLeaves hfile⟩,
        fun hclosed => hclosed.leaves hd.coh hl.toLeaves fun nm hs hnm => absurd hs hnm⟩
    · have hcatalog : ¬IsCatalog relation := fun hn => hgood (Or.inr hn)
      rw [hd.coh.find_eq_none.mp (hfree.resolve_left hcatalog), if_neg (by decide)] at hfile
      obtain ⟨hfile, hst⟩ := hfile
      have hafter : (if st = .OK then C.filter fun R => R.name ≠ relation else C) =
          C.filter fun R => R.name ≠ relation := by
        split
        next => rfl
        next hne =>
          refine (filter_name_of_not_mem fun hn => hne (hst ?_)).symm
          obtain ⟨R, hR, rfl⟩ := List.mem_map.mp hn
          obtain ⟨fvR, HR, hH⟩ := hf.file R hR
          rw [hH.file]
          rfl
      rw [hafter]
      refine ⟨⟨P', v', fv', H', fvA', HA', hd', hf.destroy hl.toLeaves hd'.catalogs hfile hall⟩,
        fun hclosed => hclosed.leaves hd.coh hl.toLeaves fun nm hs hnm => ?_⟩
      rw [hs.resolve_left hnm]
      exact hl.coh.handle_eq_none hfile
  | load relation fileName => exact hsound.elim

/-- The catalogs are not destroyed. -/
theorem CatalogCall.Step.destroyRel_ne_ok {s s' : Sys} {relation : Bytes} {st : Status} {e : Bool}
    (hstep : (CatalogCall.destroyRel relation).Step s st e s') (h : IsCatalog relation) :
    st ≠ .OK := by
  obtain ⟨fuel, u, hy⟩ := hstep
  unfold RelCatalog.destroyRel at hy
  rw [if_pos (show relation = [] ∨ relation = RELCATNAME ∨
    relation = ATTRCATNAME from Or.inr h)] at hy
  obtain ⟨rfl, -, -⟩ := yields_pure.mp hy
  exact Status.noConfusion

/-- The relations of a run change in the same way. -/
theorem CatalogCall.Step.relations_eq {s s' : Sys} {call : CatalogCall} {st : Status} {e : Bool}
    (hstep : call.Step s st e s') (tr : List CatalogEvent) :
    relations (⟨call, st, e⟩ :: tr) = call.after st (relations tr) := by
  cases call with
  | createRel relation attrCnt attrList => exact relations_createRel
  | destroyRel relation =>
    by_cases hcatalog : IsCatalog relation
    · have hst := hstep.destroyRel_ne_ok hcatalog
      unfold relations CatalogCall.after
      rw [created_destroyRel, if_neg hst]
      exact (if_neg hst).symm
    · exact relations_destroyRel hcatalog
  | load relation fileName => rfl

/-- Nothing but the catalogs is open whenever a call has returned. -/
theorem TidyCatalog.step {unix : FileName → Option UnixFile} {s s' : Sys} {tr : List CatalogEvent}
    {call : CatalogCall} {st : Status} (h : TidyCatalog unix s (relations tr))
    (hsound : call.Sound unix) (hstep : call.Step s st false s') :
    TidyCatalog unix s' (relations (⟨call, st, false⟩ :: tr)) := by
  have hfree : call.Free s := by
    cases call with
    | createRel relation attrCnt attrList => exact trivial
    | destroyRel relation => exact or_iff_not_imp_left.mpr (h.2 relation)
    | load relation fileName => exact trivial
  obtain ⟨hin, hclosed⟩ := h.1.next (fun nm => IsCatalog.mem_names) hsound hfree hstep
  rw [hstep.relations_eq]
  exact ⟨hin, hclosed h.2⟩

/-- The catalogs and the files are in step when a session starts. -/
theorem NewSession.tidy {unix : FileName → Option UnixFile} {s : Sys} (h : NewSession unix s) :
    TidyCatalog unix s (relations []) := by
  obtain ⟨P, v, fv, H, fvA, HA, hd, hfiles, hforeign, -⟩ := h.database
  refine ⟨⟨P, v, fv, H, fvA, HA, hd, fun R hR => ?_, fun nm hnm => ?_, hforeign⟩,
    fun nm hnm => hd.coh.find_eq_none.mpr (hfiles nm hnm).2⟩
  · rcases List.mem_cons.mp hR with rfl | hR
    · exact ⟨fv, H, hd.catalogs.relcat⟩
    · rw [List.mem_singleton.mp hR]
      exact ⟨fvA, HA, hd.catalogs.attrcat⟩
  · exact (hfiles nm fun hn => hnm hn.mem_names).1

/-- The callers that see to more see to this. -/
theorem CatalogCall.Proper.sound {unix : FileName → Option UnixFile} {C : List Relation} {s : Sys}
    {call : CatalogCall} (h : call.Proper unix C) (hin : InStep unix s C) : call.Sound unix := by
  cases call with
  | createRel relation attrCnt attrList =>
    obtain ⟨hname, hunix, hcnt, hattrs, -⟩ := h
    exact ⟨hname, hunix, hcnt, fun a ha => ⟨(hattrs a ha).1, (hattrs a ha).2.1⟩⟩
  | destroyRel relation =>
    obtain ⟨P, v, fv, H, fvA, HA, hd, -⟩ := hin
    obtain ⟨R, hR, rfl⟩ := List.mem_map.mp h
    exact (hd.wf R hR).isName
  | load relation fileName => exact h

theorem tidy_of_run {unix : FileName → Option UnixFile} {s₀ s : Sys} {tr : List CatalogEvent}
    (h₀ : NewSession unix s₀) (hrun : CatalogRun s₀ tr s) (hproper : ProperRun unix tr) :
    TidyCatalog unix s (relations tr) := by
  induction hrun with
  | start => exact h₀.tidy
  | step hrun hstep ih =>
    obtain ⟨hrest, hfailed, hcall⟩ := hproper
    dsimp only at hfailed
    subst hfailed
    exact (ih hrest).step (hcall.sound (ih hrest).1) hstep

/-- The offsets do not overflow. -/
theorem ProperRun.exact {unix : FileName → Option UnixFile} {tr : List CatalogEvent}
    (h : ProperRun unix tr) : ∀ R ∈ relations tr, R.Exact := by
  induction tr with
  | nil =>
    intro R hR
    rcases List.mem_cons.mp hR with rfl | hR
    · exact Relation.exact_of_sumLen (by decide) (by decide)
    · rw [List.mem_singleton.mp hR]
      exact Relation.exact_of_sumLen (by decide) (by decide)
  | cons ev tr ih =>
    obtain ⟨call, st, e⟩ := ev
    obtain ⟨hrest, -, hcall⟩ := h
    cases call with
    | createRel relation attrCnt attrList =>
      obtain ⟨-, -, -, hattrs, hsum⟩ := hcall
      rw [relations_createRel]
      split
      next =>
        intro R hR
        rcases List.mem_cons.mp hR with rfl | hR
        · refine Relation.exact_of_sumLen (fun a ha => (hattrs a (List.mem_of_mem_take ha)).2) ?_
          exact lt_of_le_of_lt (sumLen_take_le (fun a ha => (hattrs a ha).2.2) _) hsum.2
        · exact ih hrest R hR
      next => exact ih hrest
    | destroyRel relation =>
      intro R hR
      refine ih hrest R ?_
      unfold relations at hR ⊢
      rw [created_destroyRel] at hR
      split at hR
      next =>
        obtain hR | hR := List.mem_append.mp hR
        · exact List.mem_append_left _ (List.mem_of_mem_filter hR)
        · exact List.mem_append_right _ hR
      next => exact hR
    | load relation fileName => exact hcall.elim

theorem InStep.consistent {unix : FileName → Option UnixFile} {s : Sys} {C : List Relation}
    (h : InStep unix s C) (hexact : ∀ R ∈ C, R.Exact) : ConsistentCatalog unix s C := by
  obtain ⟨P, v, fv, H, fvA, HA, hd, hf⟩ := h
  refine ⟨hd.nodup, ⟨_, _, ⟨P, v, fv, H, fvA, HA, hd.coh, hd.catalogs, rfl, rfl⟩, hd.lists.rel,
    fun R hR => hd.filter_attrs hR, fun d hmem => ?_⟩, hexact, fun R hR => ?_,
    fun nm hnm hunix => ?_,
    fun R hR => ⟨max (H.rids.length + H.pages.length + 1)
      (2 * HA.rids.length + HA.pages.length + 1),
      fun fuel junk junkAttr attrCnt attrs hjunk =>
        (hd.getRelInfo hR fuel hjunk fun ht => ?_).mono fun r s' hr => hr.2⟩⟩
  · -- every tuple of `attrcat` is one of a relation
    rw [hd.lists.attr, Multiset.mem_coe] at hmem
    obtain ⟨R, hR, hdR⟩ := List.mem_flatMap.mp hmem
    rw [(hd.wf R hR).relName hdR]
    exact List.mem_map_of_mem hR
  · obtain ⟨fvR, HR, hH⟩ := hf.file R hR
    exact ⟨P, v, fvR, HR, hd.coh, hH⟩
  · exact hd.coh.absent nm (hf.absent nm hnm) (hf.not_foreign hunix)
  · obtain ⟨hfree, hfuel⟩ := ht
    rw [hd.coh.freeFrames_eq] at hfree
    exact ⟨hfree, (le_max_left _ _).trans hfuel, (le_max_right _ _).trans hfuel⟩

/-- In every state that calls of `createRel` and `destroyRel` lead to, the catalogs list exactly the
relations that have been created and not been destroyed, and so do the heap files. -/
theorem consistent_of_run {unix : FileName → Option UnixFile} {s₀ s : Sys} {tr : List CatalogEvent}
    (h₀ : NewSession unix s₀) (hrun : CatalogRun s₀ tr s) (hproper : ProperRun unix tr) :
    ConsistentCatalog unix s (relations tr) :=
  (tidy_of_run h₀ hrun hproper).1.consistent hproper.exact

/-! ### A session that creates a relation -/

/-- An attribute `[66]` of a relation `[65]`: a string of four bytes. -/
def oneAttr : AttrInfo := ⟨[65], [66], 0, 4⟩

theorem oneAttr_valid : oneAttr.Valid :=
  ⟨by decide, by decide, by decide, by decide, by decide, by decide⟩

/-- A new session in an empty directory can create the relation `[65]`. -/
theorem NewSession.exists_createRel {s₀ : Sys} (h₀ : NewSession (fun _ => none) s₀)
    {attrs : List AttrInfo} (hattrs : ∀ a ∈ attrs, a.Valid ∧ a.relName = [65]) (hne : attrs ≠ [])
    (hlen : IsInt attrs.length) :
    ∃ s, (CatalogCall.createRel [65] attrs.length attrs).Step s₀ .OK false s := by
  obtain ⟨P, v, fv, H, fvA, HA, hd, hfiles, hforeign, hframes⟩ := h₀.database
  have hnot : ¬v.foreign [65] := by
    rw [hforeign]
    exact Bool.false_ne_true
  have hcall : Clean True (RelCatalog.createRel (H.rids.length + H.pages.length + 1)
    .zero .zero [65]
      attrs.length attrs) s₀ _ :=
    hd.createRel _ (by decide) hnot RelDesc.sized_zero AttrDesc.sized_zero hlen hattrs
      fun _ => ⟨by omega, le_refl _, by rw [Int.toNat_natCast]⟩
  obtain ⟨st, s, hy, P', v', fv', H', fvA', HA', h⟩ := hcall.exists trivial
  obtain rfl : st = .OK := by
    obtain ⟨href, -⟩ | ⟨-, -, -, hfile⟩ := h
    · -- none of the reasons to refuse it
      rcases href with h | h | h | h
      · cases h
      · have := List.length_pos_of_ne_nil hne
        omega
      · exact absurd h (by decide)
      · exact absurd h (by decide)
    · rw [(hfiles [65] (by decide)).1] at hfile
      exact hfile.1
  exact ⟨s, _, _, _, RelDesc.sized_zero, AttrDesc.sized_zero, hy⟩

/-- In a new session the relation `[65]` can be created, and its file is closed again. -/
theorem exists_created : ∃ s₀ s, NewSession (fun _ => none) s₀ ∧
    (CatalogCall.createRel [65] 1 [oneAttr]).Step s₀ .OK false s ∧
    TidyCatalog (fun _ => none) s (relations [⟨.createRel [65] 1 [oneAttr], .OK, false⟩]) ∧
    95 ≤ s.freeFrames := by
  obtain ⟨s₀, h₀⟩ : ∃ s₀, NewSession (fun _ => none) s₀ := exists_newSession rfl rfl
  have hattrs : ∀ a ∈ [oneAttr], a.Valid ∧ a.relName = [65] := fun a ha => by
    rw [List.mem_singleton.mp ha]
    exact ⟨oneAttr_valid, rfl⟩
  obtain ⟨s, hstep⟩ := h₀.exists_createRel hattrs (by decide) (by decide)
  have hsound : (CatalogCall.createRel [65] 1 [oneAttr]).Sound fun _ => none :=
    ⟨by decide, rfl, by decide, hattrs⟩
  refine ⟨s₀, s, h₀, hstep, h₀.tidy.step hsound hstep, ?_⟩
  obtain ⟨P, v, fv, H, fvA, HA, hd, -, hforeign, hframes⟩ := h₀.database
  obtain ⟨fuel, rd, ad, hrd, had, hy⟩ := hstep
  have hnot : ¬v.foreign [65] := by
    rw [hforeign]
    exact Bool.false_ne_true
  obtain ⟨P', v', -, H', -, HA', ⟨-, -, -, hl, -⟩ | ⟨-, hl, -⟩⟩ :=
    (hd.createRel (T := False) fuel (by decide)
    hnot hrd had (by decide) hattrs False.elim).of_yields hy
  all_goals
    have := hl.freeFrames_le
    rw [hl.coh.freeFrames_eq]
    omega

/-- A relation whose file is not open can be destroyed. -/
theorem TidyCatalog.exists_destroyRel {unix : FileName → Option UnixFile} {s : Sys}
    {C : List Relation} {R : Relation} (h : TidyCatalog unix s C) (hR : R ∈ C)
    (hcatalog : ¬IsCatalog R.name) (hframes : 5 ≤ s.freeFrames) :
    ∃ s', (CatalogCall.destroyRel R.name).Step s .OK false s' := by
  obtain ⟨⟨P, v, fv, H, fvA, HA, hd, hf⟩, hclosed⟩ := h
  rw [hd.coh.freeFrames_eq] at hframes
  have hcall : Clean True (RelCatalog.destroyRel
      (2 * H.rids.length + H.pages.length + 1 + (2 * HA.rids.length + HA.pages.length + 1))
      ⟨.OK, .OK, .OK, .OK⟩ R.name) s _ :=
    hd.destroyRel _ (hd.wf R hR).isName fun _ => ⟨hframes, by omega, by omega⟩
  obtain ⟨st, s', hy, P', v', fv', H', fvA', HA', hbad | ⟨-, -, -, hfile⟩⟩ := hcall.exists trivial
  · rcases hbad.1 with h | h | h
    · exact absurd h (hd.wf R hR).ne_nil
    · exact absurd h hcatalog
    · exact absurd (List.mem_map_of_mem hR) h
  · obtain ⟨fvR, HR, hH⟩ := hf.file R hR
    rw [hd.coh.find_eq_none.mp (hclosed R.name hcatalog), if_neg (by decide), hH.file] at hfile
    obtain rfl := hfile.2 rfl
    exact ⟨s', _, _, hy⟩

/-- The relation is created and destroyed. -/
theorem consistent_of_run_destroyed : ∃ s₀ s, NewSession (fun _ => none) s₀ ∧
    CatalogRun s₀ [⟨.destroyRel [65], .OK, false⟩, ⟨.createRel [65] 1 [oneAttr], .OK, false⟩] s ∧
    ConsistentCatalog (fun _ => none) s (relations
      [⟨.destroyRel [65], .OK, false⟩, ⟨.createRel [65] 1 [oneAttr], .OK, false⟩]) := by
  obtain ⟨s₀, s, h₀, hcreate, htidy, hframes⟩ := exists_created
  obtain ⟨s', hdestroy⟩ : ∃ s', (CatalogCall.destroyRel [65]).Step s .OK false s' :=
    htidy.exists_destroyRel (R := ⟨[65], [oneAttr]⟩) List.mem_cons_self (by decide) (by omega)
  have hrun : CatalogRun s₀
      [⟨.destroyRel [65], .OK, false⟩, ⟨.createRel [65] 1 [oneAttr], .OK, false⟩] s' :=
    .step (.step .start hcreate) hdestroy
  refine ⟨s₀, s', h₀, hrun, consistent_of_run h₀ hrun
    ⟨⟨trivial, rfl, by decide, rfl, by decide, ?_, by decide⟩, rfl, List.mem_cons_self⟩⟩
  intro a ha
  rw [List.mem_singleton.mp ha]
  exact ⟨oneAttr_valid, rfl, by decide⟩

end Minirel
