import Minirel.Catalog.Update

/-!
# Creating and destroying relations

`createRel` adds a tuple to `relcat`, a tuple for each attribute to `attrcat`, and a heap file.
`destroyRel` deletes the tuples with the name from both catalogs, and then the file.

## Main definitions

* `Catalogs`: the two catalogs are heap files of tuples.
* `descsFrom`: the tuples of `attrcat` for a list of attributes.
* `RefusesSchema`: when `createRel` returns before it has changed anything.
* `RelCatalog.declare`, `RelCatalog.dropTuples`: the two calls until they turn to the file.

## Main results

* `RelCatalog.createRel_spec`, `RelCatalog.destroyRel_spec`: what becomes of the tuples and of the
  file, whatever other tuples and files there are.
-/

namespace Minirel

open Comp HeapFile

/-- The catalogs are heap files of named tuples. -/
structure Catalogs (v : View) (fv : FileView) (H : Heap) (fvA : FileView) (HA : Heap) : Prop where
  relcat : IsHeap v RELCATNAME fv H
  relTuples : H.Tuples 36
  attrcat : IsHeap v ATTRCATNAME fvA HA
  attrTuples : HA.Tuples 76

theorem attrcat_ne_relcat : ATTRCATNAME ≠ RELCATNAME := by decide

/-- The catalogs themselves. -/
def IsCatalog (nm : FileName) : Prop := nm = RELCATNAME ∨ nm = ATTRCATNAME

instance (nm : FileName) : Decidable (IsCatalog nm) :=
  inferInstanceAs (Decidable (nm = RELCATNAME ∨ nm = ATTRCATNAME))

section Catalogs

variable {S : FileName → Prop} {k : Nat} {P P' : Multiset Pin} {v v' : View} {s : Sys}
  {fv fvA : FileView} {H HA : Heap}

/-- Files are opened, and none is changed. -/
theorem Catalogs.same (h : Catalogs v fv H fvA HA) (hlater : Later S v v')
    (hfile : v'.file = v.file) :
    Catalogs v' fv H fvA HA :=
  ⟨h.relcat.same hlater (congrFun hfile _), h.relTuples, h.attrcat.same hlater (congrFun hfile _),
    h.attrTuples⟩

theorem Catalogs.hasRead (h : Catalogs v fv H fvA HA) (hr : HasRead S k P v s P' v') :
    Catalogs v' fv H fvA HA :=
  ⟨hr.isHeap h.relcat, h.relTuples, hr.isHeap h.attrcat, h.attrTuples⟩

/-- Another file is changed. -/
theorem Catalogs.leaves (h : Catalogs v fv H fvA HA) (hl : Leaves S k P v s P' v')
    (hS : ∀ nm, S nm → ¬IsCatalog nm) : Catalogs v' fv H fvA HA :=
  ⟨hl.isHeap (fun hs => hS _ hs (Or.inl rfl)) h.relcat, h.relTuples,
    hl.isHeap (fun hs => hS _ hs (Or.inr rfl)) h.attrcat, h.attrTuples⟩

end Catalogs

/-! ## Adding tuples -/

/-- An `attrInfo` holds two C strings in arrays of `MAXNAME` bytes, and numbers of type `int`. -/
structure AttrInfo.Valid (a : AttrInfo) : Prop where
  relName : (0 : UInt8) ∉ a.relName
  attrName : (0 : UInt8) ∉ a.attrName
  relLen : a.relName.length < MAXNAME
  nameLen : a.attrName.length < MAXNAME
  type : IsInt a.attrType
  length : IsInt a.attrLen

/-- The tuples that are added to `attrcat` for a list of attributes, the first of which has the
offset `ordering`. -/
def descsFrom : Int → List AttrInfo → List AttrDesc
  | _, [] => []
  | ordering, a :: l =>
    ⟨a.relName, a.attrName, ordering, a.attrType, a.attrLen⟩ ::
      descsFrom (toInt (ordering + a.attrLen)) l

instance (n : Int) : Decidable (IsInt n) :=
  inferInstanceAs (Decidable (-2147483648 ≤ n ∧ n < 2147483648))

instance (a : AttrInfo) : Decidable a.Valid :=
  decidable_of_iff (((0 : UInt8) ∉ a.relName ∧ (0 : UInt8) ∉ a.attrName) ∧
      (a.relName.length < MAXNAME ∧ a.attrName.length < MAXNAME) ∧
      IsInt a.attrType ∧ IsInt a.attrLen)
    ⟨fun ⟨⟨h₁, h₂⟩, ⟨h₃, h₄⟩, h₅, h₆⟩ => ⟨h₁, h₂, h₃, h₄, h₅, h₆⟩,
      fun h => ⟨⟨h.relName, h.attrName⟩, ⟨h.relLen, h.nameLen⟩, h.type, h.length⟩⟩

theorem isInt_toInt (n : Int) : IsInt (toInt n) := by
  unfold IsInt toInt
  omega

/-- The string fits into an array of a descriptor. -/
theorem isSome_strcpy {dst src : Bytes} (hdst : dst.length = MAXNAME)
    (hsrc : src.length < MAXNAME) :
    (strcpy dst src).isSome := by
  obtain ⟨b, hb⟩ := strcpy_of_lt (hdst.symm ▸ hsrc)
  rw [hb]
  rfl

/-- A tuple is added to a catalog. -/
theorem addTuple_rows {T : Prop} {s : Sys} {P : Multiset Pin} {v : View} {nm : FileName}
    {fv : FileView} {H : Heap} {n : Nat} {b : Bytes} (hc : Coh s P v) (hH : IsHeap v nm fv H)
    (htuples : H.Tuples n) (hn : 0 < n ∧ n ≤ 1000) (hb : b.length = n) (hnamed : Named b)
    (hT : T → 3 ≤ freeFrames v.numBufs P) :
    Clean T (addTuple nm ⟨b, n⟩) s fun st s' => st = .OK ∧ ∃ fv' H',
      Coh s' P (v.setFile nm (some fv')) ∧ IsHeap (v.setFile nm (some fv')) nm fv' H' ∧
      H'.Tuples n ∧ H.Le H' ∧ H'.rows = b ::ₘ H.rows := by
  have hread : (⟨b, n⟩ : Record).Readable := ⟨by dsimp only; omega, by dsimp only; omega⟩
  have hbytes : (⟨b, n⟩ : Record).bytes = b := by
    show b.take (n : Int).toNat = b
    rw [Int.toNat_natCast, ← hb, List.take_length]
  refine (addTuple_spec hc hH hread (by dsimp only; omega) (by dsimp only; omega) hT).mono ?_
  rintro st s' ⟨hst, fv', H', hc', hH', hle, rid, hnone, hrec⟩
  rw [hbytes] at hrec
  exact ⟨hst, fv', H', hc', hH', htuples.insert ⟨hb, hnamed⟩ hrec, hle,
    Heap.rows_insert hH.heapAt hH'.heapAt hnone hrec⟩

section Attrs

variable {T : Prop} {s : Sys} {P : Multiset Pin} {v : View} {fvA : FileView} {HA : Heap}
  {attrList : List AttrInfo} {ad : AttrDesc}

/-- The tuple that is added for an attribute. -/
theorem attrDesc_decode {a : AttrInfo} {attrName relName : Bytes} {ordering : Int} (ha : a.Valid)
    (had : ad.Sized) (hattr : strcpy ad.attrName a.attrName = some attrName)
    (hrel : strcpy ad.relName a.relName = some relName) (hord : IsInt ordering) :
    let ad' : AttrDesc := ⟨relName, attrName, ordering, a.attrType, a.attrLen⟩
    ad'.Sized ∧ ad'.bytes.length = 76 ∧ Named ad'.bytes ∧
      AttrDesc.decode ad'.bytes = ⟨a.relName, a.attrName, ordering, a.attrType, a.attrLen⟩ := by
  intro ad'
  obtain ⟨hlen₁, -, hname₁⟩ := strcpy_spec hattr ha.attrName
  obtain ⟨hlen₂, h0, hname₂⟩ := strcpy_spec hrel ha.relName
  have hsized : ad'.Sized := ⟨hlen₂.trans had.relName, hlen₁.trans had.attrName⟩
  refine ⟨hsized, AttrDesc.length_bytes hsized, AttrDesc.named_bytes hsized h0, ?_⟩
  rw [AttrDesc.decode_bytes hsized ⟨hord, ha.type, ha.length⟩]
  show AttrDesc.mk (cstr relName) (cstr attrName) _ _ _ = _
  rw [hname₁, hname₂]

/-- The loop of `createRel` adds a tuple for each attribute. -/
theorem RelCatalog.addAttrs_spec (n i : Nat) {ordering : Int} (hc : Coh s P v)
    (hHA : IsHeap v ATTRCATNAME fvA HA) (htuples : HA.Tuples 76) (hattrs : ∀ a ∈ attrList, a.Valid)
    (had : ad.Sized) (hord : IsInt ordering)
    (hT : T → 3 ≤ freeFrames v.numBufs P ∧ i + n ≤ attrList.length) :
    Clean T (addAttrs attrList n i ordering ad) s fun _ s' => ∃ fvA' HA' l,
      Coh s' P (v.setFile ATTRCATNAME (some fvA')) ∧
      IsHeap (v.setFile ATTRCATNAME (some fvA')) ATTRCATNAME fvA' HA' ∧ HA'.Tuples 76 ∧ HA.Le HA' ∧
      HA'.rows = l + HA.rows ∧
      l.map AttrDesc.decode = descsFrom ordering ((attrList.drop i).take n) ∧
      n ≤ attrList.length - i := by
  induction n generalizing i ordering ad s v fvA HA with
  | zero =>
    unfold addAttrs
    rw [clean_pure]
    refine ⟨fvA, HA, 0, ?_, ?_, htuples, .refl HA, (zero_add _).symm, ?_, Nat.zero_le _⟩
    · rwa [View.setFile_self hHA.file]
    · rwa [View.setFile_self hHA.file]
    · rw [List.take_zero]
      rfl
  | succ n ih =>
    unfold addAttrs
    refine Clean.ofOption_bind (fun ht => ?_) fun a ha => ?_
    · rw [List.getElem?_eq_getElem (by have := (hT ht).2; omega)]
      rfl
    have hvalid := hattrs a (List.mem_of_getElem? ha)
    refine Clean.ofOption_bind (fun _ => isSome_strcpy had.attrName hvalid.nameLen)
      fun attrName hattr => ?_
    refine Clean.ofOption_bind (fun _ => isSome_strcpy had.relName hvalid.relLen)
      fun relName hrel => ?_
    obtain ⟨hsized, hlen, hnamed, hdecode⟩ := attrDesc_decode hvalid had hattr hrel hord
    dsimp only at hlen hnamed hdecode ⊢
    rw [AttrCatalog.addInfo_eq]
    generalize AttrDesc.bytes ⟨relName, attrName, ordering, a.attrType, a.attrLen⟩ = b
      at hlen hnamed hdecode ⊢
    refine (addTuple_rows hc hHA htuples (by decide) hlen hnamed fun ht => (hT ht).1).bind ?_
    rintro st s₁ ⟨-, fv₁, H₁, hc₁, hH₁, htuples₁, hle₁, hrows₁⟩
    refine (ih (i + 1) hc₁ hH₁ htuples₁ hsized (isInt_toInt _) fun ht => ?_).mono ?_
    · obtain ⟨h₁, h₂⟩ := hT ht
      exact ⟨h₁, by omega⟩
    rintro - s₂ ⟨fv₂, H₂, l, hc₂, hH₂, htuples₂, hle₂, hrows₂, hl, hlen₂⟩
    rw [View.setFile_setFile] at hc₂ hH₂
    obtain ⟨hi, rfl⟩ := List.getElem?_eq_some_iff.mp ha
    refine ⟨fv₂, H₂, b ::ₘ l, hc₂, hH₂, htuples₂, hle₁.trans hle₂, ?_, ?_, by omega⟩
    · rw [hrows₂, hrows₁, Multiset.add_cons, Multiset.cons_add]
    · rw [Multiset.map_cons, hl, hdecode, List.drop_eq_getElem_cons hi, List.take_succ_cons]
      rfl

end Attrs

/-! ## `createRel` -/

/-- `createRel` returns before it has changed anything; `known` says that there is a tuple with the
name in `relcat`. -/
def RefusesSchema (relation : Bytes) (attrCnt : Int) (known : Prop) : Prop :=
  relation = [] ∨ attrCnt < 1 ∨ MAXNAME ≤ relation.length ∨ known

/-- There is a tuple with the name. -/
def Known (relation : Bytes) (rows : Multiset Bytes) : Prop := ∃ b ∈ rows, hasName relation b = true

section Leaves

variable {P : Multiset Pin} {v : View} {s' : Sys} {nm : FileName}

theorem leaves_setFile {o : Option FileView} (hc : Coh s' P (v.setFile nm o)) :
    Leaves (· = nm) 0 P v s' P (v.setFile nm o) :=
  ⟨hc, (Later.refl _ v).setFile nm o, fun _ hne => View.file_setFile_of_ne hne, 0,
    (zero_add P).symm,
    le_refl 0, .zero _ _⟩

theorem hasRead_setHandle {f : FilePtr}
    (hc : Coh s' P (v.setHandle nm (some (f, v.openCnt nm + 1))))
    (hpos : ∀ g c, v.handle nm = some (g, c) → 0 < c)
    (hsame : ∀ g c, v.handle nm = some (g, c) → f = g) :
    HasRead (· = nm) 0 P v s' P (v.setHandle nm (some (f, v.openCnt nm + 1))) :=
  ⟨hc, .setHandle hpos hsame, rfl, 0, (zero_add P).symm, le_refl 0, .zero _ _,
    fun _ hz => absurd hz (Multiset.notMem_zero _)⟩

end Leaves

/-- There is a first tuple with the name, or none. -/
theorem find?_hasName (relation : Bytes) (H : Heap) :
    (∃ b, H.contents.find? (hasName relation) = some b ∧ b ∈ H.rows ∧ hasName relation b = true) ∨
      H.contents.find? (hasName relation) = none ∧ ∀ b ∈ H.rows, hasName relation b = false := by
  cases hfind : H.contents.find? (hasName relation) with
  | some b =>
    exact Or.inl ⟨b, rfl, Multiset.mem_coe.mpr (List.mem_of_find?_eq_some hfind),
      List.find?_some hfind⟩
  | none =>
    refine Or.inr ⟨rfl, fun b hb => Bool.eq_false_iff.mpr fun hn => ?_⟩
    exact List.find?_eq_none.mp hfind b (Multiset.mem_coe.mp hb) hn

section CreateRel

variable {T : Prop} {s : Sys} {P : Multiset Pin} {v : View} {fv fvA : FileView} {H HA : Heap}
  {relation : Bytes}

/-- What is added to the catalogs for a relation. -/
structure Declares (relation : Bytes) (attrCnt : Int) (attrList : List AttrInfo)
    (H H' HA HA' : Heap) :
    Prop where
  le : H.Le H'
  leA : HA.Le HA'
  rel : ∃ b, H'.rows = b ::ₘ H.rows ∧ RelDesc.decode b = ⟨relation, attrCnt⟩
  attrs : ∃ l, HA'.rows = l + HA.rows ∧
    l.map AttrDesc.decode = descsFrom 0 (attrList.take attrCnt.toNat)
  cnt : attrCnt.toNat ≤ attrList.length

/-- `createRel` until it creates the file: the status with which it has returned before that, if it
has. -/
def RelCatalog.declare (fuel : Nat) (rd : RelDesc) (ad : AttrDesc) (relation : Bytes)
    (attrCnt : Int) (attrList : List AttrInfo) : M (Option Status) := do
  if relation = [] ∨ attrCnt < 1 then return some .BADCATPARM else
  if relation.length ≥ MAXNAME then return some .NAMETOOLONG else
  let (status, rd) ← getInfo fuel relation rd
  if status = .OK then return some .RELEXISTS else
  if status ≠ .RELNOTFOUND then return some status else
  let relName ← ofOption (strcpy rd.relName relation)
  let status ← addInfo ⟨relName, attrCnt⟩
  if status ≠ .OK then return some status else
  addAttrs attrList attrCnt.toNat 0 0 ad
  return none

/-- What is left of `createRel`. -/
def RelCatalog.finish (relation : Bytes) : Option Status → M Status
  | some status => return status
  | none => createHeapFile relation

theorem RelCatalog.createRel_eq (fuel : Nat) (rd : RelDesc) (ad : AttrDesc) (relation : Bytes)
    (attrCnt : Int) (attrList : List AttrInfo) :
    createRel fuel rd ad relation attrCnt attrList =
      declare fuel rd ad relation attrCnt attrList >>= finish relation := by
  unfold createRel declare
  simp only [ite_bind, bind_assoc, pure_bind, finish]

/-- Before the file is created, `createRel` has refused the relation or has added its tuples. -/
theorem RelCatalog.declare_spec (fuel : Nat) {rd : RelDesc} {ad : AttrDesc} {attrCnt : Int}
    {attrList : List AttrInfo} (hc : Coh s P v) (hcat : Catalogs v fv H fvA HA)
    (hname : (0 : UInt8) ∉ relation) (hrd : rd.Sized) (had : ad.Sized) (hcnt : IsInt attrCnt)
    (hattrs : ∀ a ∈ attrList, a.Valid)
    (hT : T → 4 ≤ freeFrames v.numBufs P ∧ H.rids.length + H.pages.length + 1 ≤ fuel ∧
      attrCnt.toNat ≤ attrList.length) :
    Clean T (declare fuel rd ad relation attrCnt attrList) s fun r s' => ∃ P' v',
      (RefusesSchema relation attrCnt (Known relation H.rows) ∧
        (∃ st, r = some st ∧ st ≠ .OK ∧ st ≠ .FILEEXISTS) ∧
        HasRead (· = RELCATNAME) 1 P v s' P' v') ∨
      (¬RefusesSchema relation attrCnt (Known relation H.rows) ∧ r = none ∧
        Leaves IsCatalog 1 P v s' P' v' ∧ (∀ z ∈ P', z.wrote = true → z ∈ P) ∧
        ∃ fv' H' fvA' HA', Catalogs v' fv' H' fvA' HA' ∧
          Declares relation attrCnt attrList H H' HA HA') := by
  unfold declare
  by_cases hbad : relation = [] ∨ attrCnt < 1
  · rw [if_pos hbad, clean_pure]
    exact ⟨P, v, Or.inl ⟨hbad.imp_right Or.inl, ⟨_, rfl, nofun, nofun⟩,
      (HasRead.refl _ hc).mono (fun _ h => h) zero_le_one⟩⟩
  rw [if_neg hbad]
  by_cases hlong : relation.length ≥ MAXNAME
  · rw [if_pos hlong, clean_pure]
    exact ⟨P, v, Or.inl ⟨Or.inr (Or.inr (Or.inl hlong)), ⟨_, rfl, nofun, nofun⟩,
      (HasRead.refl _ hc).mono (fun _ h => h) zero_le_one⟩⟩
  rw [if_neg hlong]
  push Not at hbad hlong
  have hne := hbad.1
  have hlen : relation.length < 2147483647 := hlong.trans (by decide)
  refine (RelCatalog.getInfo_spec fuel hc hcat.relcat hcat.relTuples ⟨hname, hlen⟩ hne hrd
    fun ht => ?_).bind ?_
  · obtain ⟨h₁, h₂, -⟩ := hT ht
    exact ⟨by omega, h₂⟩
  rintro ⟨st, rd'⟩ s₁ ⟨⟨P₁, v₁, hread⟩, hr⟩
  obtain ⟨b, hfind, hb, hbname⟩ | ⟨hfind, hnone⟩ := find?_hasName relation H
  · -- there is a relation with this name
    rw [hfind] at hr
    cases hr
    dsimp only
    rw [if_pos rfl, clean_pure]
    exact ⟨P₁, v₁, Or.inl ⟨Or.inr (Or.inr (Or.inr ⟨b, hb, hbname⟩)), ⟨_, rfl, nofun, nofun⟩, hread⟩⟩
  rw [hfind] at hr
  cases hr
  dsimp only
  rw [if_neg nofun, if_neg fun hn => hn rfl]
  have haccept : ¬RefusesSchema relation attrCnt (Known relation H.rows) := by
    rintro (h | h | h | ⟨b, hb, hbname⟩)
    · exact hne h
    · omega
    · omega
    · rw [hnone b hb] at hbname
      cases hbname
  -- the tuple of `relcat`
  refine Clean.ofOption_bind (fun _ => isSome_strcpy hrd hlong) fun relName hrel => ?_
  obtain ⟨hlen', h0, hcstr⟩ := strcpy_spec hrel hname
  have hsized : RelDesc.Sized ⟨relName, attrCnt⟩ := hlen'.trans hrd
  have hcat₁ := hcat.hasRead hread
  have hframes : T → 3 ≤ freeFrames v₁.numBufs P₁ := fun ht => by
    have := (hT ht).1
    have := hread.freeFrames_le
    omega
  rw [RelCatalog.addInfo_eq]
  refine (addTuple_rows hread.coh hcat₁.relcat hcat₁.relTuples (by decide)
    (RelDesc.length_bytes hsized) (RelDesc.named_bytes hsized h0) hframes).bind ?_
  rintro st s₂ ⟨rfl, fv', H', hc₂, hH', htuples', hle, hrows⟩
  rw [if_neg fun hn => hn rfl]
  have hleaves₂ := hread.leaves.trans ((leaves_setFile hc₂).mono (fun _ h => h) le_rfl)
  -- the tuples of `attrcat`
  have hHA := (leaves_setFile hc₂).isHeap attrcat_ne_relcat hcat₁.attrcat
  refine (addAttrs_spec attrCnt.toNat 0 hc₂ hHA hcat₁.attrTuples hattrs had (by decide)
    fun ht => ⟨hframes ht, ?_⟩).bind ?_
  · have := (hT ht).2.2
    omega
  rintro - s₃ ⟨fvA', HA', l, hc₃, hHA', htuplesA', hleA, hrowsA, hl, hlenA⟩
  have hcat₃ : Catalogs _ fv' H' fvA' HA' :=
    ⟨(leaves_setFile hc₃).isHeap attrcat_ne_relcat.symm hH', htuples', hHA', htuplesA'⟩
  have hleaves₃ := (hleaves₂.mono (fun nm hnm => (Or.inl hnm : IsCatalog nm)) le_rfl).trans
    ((leaves_setFile hc₃).mono (fun nm hnm => (Or.inr hnm : IsCatalog nm)) le_rfl)
  have hdecl : Declares relation attrCnt attrList H H' HA HA' := by
    refine ⟨hle, hleA, ⟨_, hrows, ?_⟩, ⟨l, hrowsA, hl⟩, hlenA⟩
    rw [RelDesc.decode_bytes hsized h0 hcnt, hcstr]
  rw [clean_pure]
  refine ⟨P₁, _, Or.inr ⟨haccept, rfl, hleaves₃, fun z hz hw => ?_, fv', H', fvA', HA',
    hcat₃, hdecl⟩⟩
  obtain ⟨L, rfl, -, -, hL⟩ := hread.pins
  rcases Multiset.mem_add.mp hz with hz | hz
  · rw [hL z hz] at hw
    cases hw
  · exact hz

theorem RefusesSchema.ne_nil {attrCnt : Int} {known : Prop}
    (h : ¬RefusesSchema relation attrCnt known) : relation ≠ [] := fun hn => h (Or.inl hn)

/-- `createRel` refuses the relation, or adds its tuples and then creates its file, unless there is
one with that name. -/
theorem RelCatalog.createRel_spec (fuel : Nat) {rd : RelDesc} {ad : AttrDesc} {attrCnt : Int}
    {attrList : List AttrInfo} (hc : Coh s P v) (hcat : Catalogs v fv H fvA HA)
    (hname : (0 : UInt8) ∉ relation) (hforeign : ¬v.foreign relation)
    (hpos : ∀ f c, v.handle relation = some (f, c) → 0 < c) (hrd : rd.Sized) (had : ad.Sized)
    (hcnt : IsInt attrCnt) (hattrs : ∀ a ∈ attrList, a.Valid)
    (hT : T → 4 ≤ freeFrames v.numBufs P ∧ H.rids.length + H.pages.length + 1 ≤ fuel ∧
      attrCnt.toNat ≤ attrList.length) :
    Clean T (createRel fuel rd ad relation attrCnt attrList) s fun st s' => ∃ P' v',
      (RefusesSchema relation attrCnt (Known relation H.rows) ∧ st ≠ .OK ∧ st ≠ .FILEEXISTS ∧
        HasRead (· = RELCATNAME) 1 P v s' P' v') ∨
      (¬RefusesSchema relation attrCnt (Known relation H.rows) ∧
        Leaves (fun nm => IsCatalog nm ∨ nm = relation) 1 P v s' P' v' ∧
        (∀ z ∈ P', z.wrote = true → z ∈ P) ∧
        (∃ fv' H' fvA' HA', Catalogs v' fv' H' fvA' HA' ∧
          Declares relation attrCnt attrList H H' HA HA') ∧
        match v.file relation with
        | none => st = .OK ∧ v'.handle relation = none ∧ ∃ p q pg fvR, v'.file relation = some fvR ∧
            HeapAt fvR (.fresh relation p q pg)
        | some fvR => st = .FILEEXISTS ∧ (¬IsCatalog relation → v'.file relation = some fvR)) := by
  rw [createRel_eq]
  refine (declare_spec fuel hc hcat hname hrd had hcnt hattrs hT).bind ?_
  rintro r s₃ ⟨P₁, v₃, ⟨href, ⟨st, rfl, hst, hst'⟩, hread⟩ |
    ⟨haccept, rfl, hleaves₃, hwrote, fv', H', fvA', HA', hcat₃, hdecl⟩⟩
  · exact clean_pure.mpr ⟨P₁, v₃, Or.inl ⟨href, hst, hst', hread⟩⟩
  have hc₃ := hleaves₃.coh
  have hne := RefusesSchema.ne_nil haccept
  -- the heap file
  have hleaves : ∀ {s' v'}, Leaves (· = relation) 0 P₁ v₃ s' P₁ v' →
      Leaves (fun nm => IsCatalog nm ∨ nm = relation) 1 P v s' P₁ v' := fun h =>
    (hleaves₃.mono (fun _ => Or.inl) le_rfl).trans (h.mono (fun _ => Or.inr) le_rfl)
  cases hfile : v.file relation with
  | none =>
    have hcatalog : ¬IsCatalog relation := by
      rintro (rfl | rfl)
      · rw [hcat.relcat.file] at hfile
        cases hfile
      · rw [hcat.attrcat.file] at hfile
        cases hfile
    have hfile₃ : v₃.file relation = none := (hleaves₃.other relation hcatalog).trans hfile
    have hforeign₃ : ¬v₃.foreign relation := by rwa [hleaves₃.later.foreign]
    refine (createHeapFile_spec hc₃ hne hfile₃ hforeign₃ fun ht => ?_).mono ?_
    · have := (hT ht).1
      have := hleaves₃.freeFrames_le
      omega
    rintro st s₄ ⟨hst, p, q, pg, fvR, hc₄, hR⟩
    have hl := leaves_setFile hc₄
    refine ⟨P₁, _, Or.inr ⟨haccept, hleaves hl, hwrote, ⟨fv', H', fvA', HA', ?_, hdecl⟩, hst,
      ?_, p, q, pg,
      fvR, View.file_setFile_self, hR⟩⟩
    · exact hcat₃.leaves hl fun nm hnm => by rwa [hnm]
    · exact hc₃.handle_eq_none hfile₃
  | some fvR =>
    obtain ⟨fvR', hfile₃, hsame⟩ : ∃ fvR', v₃.file relation = some fvR' ∧
        (¬IsCatalog relation → fvR' = fvR) := by
      by_cases hcatalog : IsCatalog relation
      · rcases hcatalog with rfl | rfl
        · exact ⟨_, hcat₃.relcat.file, fun hn => absurd (Or.inl rfl) hn⟩
        · exact ⟨_, hcat₃.attrcat.file, fun hn => absurd (Or.inr rfl) hn⟩
      · exact ⟨fvR, (hleaves₃.other relation hcatalog).trans hfile, fun _ => rfl⟩
    have hpos₃ := hleaves₃.later.pos relation hpos
    obtain ⟨f, s₄, hy, hc₄, hsame₄⟩ := createHeapFile_exists hc₃ hne hfile₃ hpos₃
    have hopened := hasRead_setHandle hc₄ hpos₃ hsame₄
    refine Runs.of_yields hy ⟨fun _ => rfl,
      fun _ => ⟨P₁, _, Or.inr ⟨haccept, hleaves hopened.leaves,
      hwrote, ⟨fv', H', fvA', HA', hcat₃.hasRead hopened, hdecl⟩, rfl, fun hcatalog => ?_⟩⟩⟩
    rw [← hsame hcatalog]
    exact hfile₃

end CreateRel

/-! ## `destroyRel` -/

section DestroyRel

variable {T : Prop} {s : Sys} {P : Multiset Pin} {v : View} {fv fvA : FileView} {H HA : Heap}
  {relation : Bytes}

theorem withoutName_cons {b : Bytes} {rows : Multiset Bytes} (hb : hasName relation b = true) :
    withoutName relation (b ::ₘ rows) = withoutName relation rows :=
  Multiset.filter_cons_of_neg _ (fun hn => hn hb)

/-- If there is one tuple with the name at most, the others have other names. -/
theorem hasName_of_card_le {b : Bytes} {rows : Multiset Bytes} (hb : hasName relation b = true)
    (hone : ((b ::ₘ rows).filter fun b => hasName relation b = true).card ≤ 1) :
    ∀ b ∈ rows, hasName relation b = false := by
  intro b' hb'
  refine Bool.eq_false_iff.mpr fun hn => ?_
  rw [Multiset.filter_cons_of_pos (p := fun b => hasName relation b = true) _ hb,
    Multiset.card_cons] at hone
  have hmem : b' ∈ rows.filter fun b => hasName relation b = true :=
    Multiset.mem_filter.mpr ⟨hb', hn⟩
  have := Multiset.card_pos_iff_exists_mem.mpr ⟨b', hmem⟩
  omega

/-- If `status` happens not to be `OK`, `removeInfo` opens a scan and returns. -/
theorem RelCatalog.removeInfo_unset (fuel : Nat) {status ret : Status} (hc : Coh s P v)
    (hH : IsHeap v RELCATNAME fv H) (hne : relation ≠ []) (hstatus : status ≠ .OK)
    (hT : T → 2 ≤ freeFrames v.numBufs P) :
    Clean T (removeInfo fuel status ret relation) s fun st s' => st = .OK ∧ ∃ P' v',
      HasRead (· = RELCATNAME) 2 P v s' P' v' := by
  unfold removeInfo
  rw [if_neg hne]
  refine (new_scanAll hc hH hT).bind ?_
  rintro ⟨st, h⟩ s₁ ⟨hst, h', x, -, hx, hlater, hs, hclean⟩
  dsimp only
  rw [if_pos hstatus, clean_pure]
  obtain ⟨P', hread⟩ := hasRead_of_abandon hs hH hlater hx hclean
  exact ⟨hst, P', _, hread⟩

/-- `destroyHeapFile`: a file that is open is left alone. -/
theorem destroyHeapFile_spec (hc : Coh s P v) (hne : relation ≠ []) :
    ∃ st s' v', Yields (destroyHeapFile relation) s st false s' ∧
      Leaves (· = relation) 0 P v s' P v' ∧
      if (v.handle relation).isSome then st = .FILEOPEN ∧ v' = v
      else v' = v.setFile relation none ∧ ((v.file relation).isSome → st = .OK) := by
  have hfind : OpenFileHashTbl.find s.openFiles relation = (v.handle relation).map Prod.fst :=
    hc.openFiles relation
  cases hh : v.handle relation with
  | some d =>
    refine ⟨.FILEOPEN, s, v, ?_, .refl _ hc, ?_⟩
    · unfold destroyHeapFile DB.destroyFile
      rw [if_neg hne]
      refine (Yields.get s).bind (d := false) ?_
      rw [hfind, hh, if_pos (by rfl)]
      exact Yields.pure _ _
    · rw [if_pos (by rfl)]
      exact ⟨rfl, rfl⟩
  | none =>
    suffices h : ∃ st s', Yields (destroyHeapFile relation) s st false s' ∧
        Coh s' P (v.setFile relation none) ∧ ((v.file relation).isSome → st = .OK) by
      obtain ⟨st, s', hy, hc', hst⟩ := h
      refine ⟨st, s', _, hy, leaves_setFile hc', ?_⟩
      rw [if_neg (by decide)]
      exact ⟨rfl, hst⟩
    cases hf : v.file relation with
    | some fv =>
      obtain ⟨s', hy, hc'⟩ := hc.destroyFile hne hf hh
      exact ⟨.OK, s', hy, hc', fun _ => rfl⟩
    | none =>
      -- no file of the database; there may be another one
      have hrun : ∀ {st s'}, Yields (File.destroy relation) s st false s' →
          Yields (destroyHeapFile relation) s st false s' := fun hy => by
        unfold destroyHeapFile DB.destroyFile
        rw [if_neg hne]
        refine (Yields.get s).bind (d := false) ?_
        rw [hfind, hh, if_neg (by decide)]
        exact hy
      by_cases hu : (s.unix relation).isSome
      · have hc' : Coh (s.setUnix relation none) P (v.setFile relation none) :=
          hc.withUnix hh (fun _ _ => rfl) nofun
        refine ⟨.OK, _, hrun ?_, hc', fun _ => rfl⟩
        unfold File.destroy
        refine (Yields.get s).bind (d := false) ?_
        refine (yields_unixCall_of_io hc.io).bind (d := false) ?_
        rw [if_pos ⟨rfl, hu⟩]
        exact (yields_setUnix relation none s).bind (Yields.pure _ _)
      · refine ⟨.UNIXERR, s, hrun ?_, ?_, nofun⟩
        · unfold File.destroy
          refine (Yields.get s).bind (d := false) ?_
          refine (yields_unixCall_of_io hc.io).bind (d := false) ?_
          rw [if_neg fun hn => hu hn.2]
          exact Yields.pure _ _
        · rwa [View.setFile_self hf]

/-- What `removeInfo` does to `relcat`, whatever its locals happen to hold: with the first tuple of
the name deleted or not, the others are still there. -/
theorem RelCatalog.removeInfo_any (fuel : Nat) {status ret : Status} (hc : Coh s P v)
    (hH : IsHeap v RELCATNAME fv H) (htuples : H.Tuples 36) (hname : IsName relation)
    (hne : relation ≠ [])
    (hT : T → 2 ≤ freeFrames v.numBufs P ∧ H.rids.length + H.pages.length + 1 ≤ fuel) :
    Clean T (removeInfo fuel status ret relation) s fun st s' => ∃ P' v',
      Leaves (· = RELCATNAME) 2 P v s' P' v' ∧
      ((status = .OK ∧ st = ret ∧ (∀ b ∈ H.rows, hasName relation b = false) ∧ v'.file = v.file) ∨
      (st = .OK ∧ ∃ fv' H', IsHeap v' RELCATNAME fv' H' ∧ H'.Tuples 36 ∧ H.SamePages H' ∧
        H'.rows ≤ H.rows ∧ withoutName relation H'.rows = withoutName relation H.rows ∧
        (status = .OK → (H.rows.filter fun b => hasName relation b = true).card ≤ 1 →
          fv'.kept = fv.kept ∧ ∀ b ∈ H'.rows, hasName relation b = false))) := by
  by_cases hstatus : status = .OK
  · subst hstatus
    refine (removeInfo_spec fuel hc hH htuples hname hne hT).mono ?_
    rintro st s' ⟨P', v', hleaves, h⟩
    refine ⟨P', v', hleaves, ?_⟩
    obtain ⟨b, hfind, hb, hbname⟩ | ⟨hfind, hnone⟩ := find?_hasName relation H
    · rw [hfind] at h
      obtain ⟨hst, fv', H', hH', htuples', hkept, hpages, hrows⟩ := h
      refine Or.inr ⟨hst, fv', H', hH', htuples', hpages, hrows ▸ Multiset.le_cons_self _ _, ?_,
        fun _ hone => ⟨hkept, hasName_of_card_le hbname (hrows ▸ hone)⟩⟩
      rw [hrows, withoutName_cons hbname]
    · rw [hfind] at h
      exact Or.inl ⟨rfl, h.1, hnone, h.2⟩
  · refine (removeInfo_unset fuel hc hH hne hstatus fun ht => (hT ht).1).mono ?_
    rintro st s' ⟨hst, P', v', hread⟩
    exact ⟨P', v', hread.leaves, Or.inr ⟨hst, fv, H, hread.isHeap hH, htuples, .refl H,
      le_refl _, rfl,
      fun h => absurd h hstatus⟩⟩

/-- There are as many record identifiers as records. -/
theorem IsHeap.length_rids {nm : FileName} (h : IsHeap v nm fv H) :
    H.rids.length = H.rows.card := by
  rw [← Heap.map_records h.heapAt, List.length_map]
  exact (List.length_map _).symm

/-- `destroyRel` until it destroys the file: the status with which it has returned before that, if
it has. -/
def RelCatalog.dropTuples (fuel : Nat) (u : Unset) (relation : Bytes) : M (Option Status) := do
  if relation = [] ∨ relation = RELCATNAME ∨
    relation = ATTRCATNAME then return some .BADCATPARM else
  let status ← removeInfo fuel u.status u.ret relation
  if status ≠ .OK then return some status else
  let status ← AttrCatalog.dropRelation fuel u.got u.ended relation
  if status ≠ .OK then return some status else
  return none

/-- What is left of `destroyRel`. -/
def RelCatalog.finishDrop (relation : Bytes) : Option Status → M Status
  | some status => return status
  | none => destroyHeapFile relation

theorem RelCatalog.destroyRel_eq (fuel : Nat) (u : Unset) (relation : Bytes) :
    destroyRel fuel u relation = dropTuples fuel u relation >>= finishDrop relation := by
  unfold destroyRel dropTuples
  simp only [ite_bind, bind_assoc, pure_bind, finishDrop]

/-- Before the file is destroyed, `destroyRel` has deleted all the tuples with the name, whatever
its locals happen to hold, unless `removeInfo` finds none and does not happen to return `OK`. -/
theorem RelCatalog.dropTuples_spec (fuel : Nat) {u : Unset} (hc : Coh s P v)
    (hcat : Catalogs v fv H fvA HA) (hname : IsName relation)
    (hT : T → 5 ≤ freeFrames v.numBufs P ∧ 2 * H.rids.length + H.pages.length + 1 ≤ fuel ∧
      2 * HA.rids.length + HA.pages.length + 1 ≤ fuel) :
    Clean T (dropTuples fuel u relation) s fun r s' => ∃ P' v',
      ((relation = [] ∨ IsCatalog relation) ∧ r = some .BADCATPARM ∧ P' = P ∧ v' = v ∧ Coh s' P v) ∨
      (¬(relation = [] ∨ IsCatalog relation) ∧ u.status = .OK ∧ u.ret ≠ .OK ∧ r = some u.ret ∧
        (∀ b ∈ H.rows, hasName relation b = false) ∧ Leaves (· = RELCATNAME) 2 P v s' P' v' ∧
        v'.file = v.file) ∨
      (¬(relation = [] ∨ IsCatalog relation) ∧ r = none ∧ Leaves IsCatalog 4 P v s' P' v' ∧
        ∃ fv' H' fvA' HA', Catalogs v' fv' H' fvA' HA' ∧ H.SamePages H' ∧ HA.SamePages HA' ∧
          H'.rows = withoutName relation H.rows ∧ HA'.rows = withoutName relation HA.rows ∧
          (u.status = .OK → (H.rows.filter fun b => hasName relation b = true).card ≤ 1 →
            fv'.kept = fv.kept)) := by
  unfold dropTuples
  by_cases hbad : relation = [] ∨ relation = RELCATNAME ∨ relation = ATTRCATNAME
  · rw [if_pos hbad, clean_pure]
    exact ⟨P, v, Or.inl ⟨hbad, rfl, rfl, rfl, hc⟩⟩
  rw [if_neg hbad]
  have hne : relation ≠ [] := fun hn => hbad (Or.inl hn)
  have hcatalog : ¬IsCatalog relation := fun hn => hbad (Or.inr hn)
  refine (removeInfo_any fuel hc hcat.relcat hcat.relTuples hname hne fun ht => ?_).bind ?_
  · obtain ⟨h₁, h₂, -⟩ := hT ht
    exact ⟨by omega, by omega⟩
  rintro st s₁ ⟨P₁, v₁, hleaves₁, h₁⟩
  by_cases hst : st = .OK
  swap
  · rw [if_pos hst, clean_pure]
    obtain ⟨hstatus, rfl, hnone, hfile⟩ | ⟨hst', -⟩ := h₁
    · exact ⟨P₁, v₁, Or.inr (Or.inl ⟨hbad, hstatus, hst, rfl, hnone, hleaves₁, hfile⟩)⟩
    · exact absurd hst' hst
  rw [if_neg fun hn => hn hst]
  -- either way, what is left of the tuples
  obtain ⟨fv₁, H₁, hH₁, htuples₁, hpages₁, hle₁, hrows₁, hkept₁⟩ : ∃ fv₁ H₁,
      IsHeap v₁ RELCATNAME fv₁ H₁ ∧ H₁.Tuples 36 ∧ H.SamePages H₁ ∧ H₁.rows ≤ H.rows ∧
      withoutName relation H₁.rows = withoutName relation H.rows ∧
      (u.status = .OK → (H.rows.filter fun b => hasName relation b = true).card ≤ 1 →
        fv₁.kept = fv.kept ∧ ∀ b ∈ H₁.rows, hasName relation b = false) := by
    obtain ⟨-, -, hnone, hfile⟩ | ⟨-, h⟩ := h₁
    · exact ⟨fv, H, ⟨hcat.relcat.name, hfile ▸ hcat.relcat.file, hcat.relcat.heapAt,
        hcat.relcat.sized,
        hleaves₁.later.pos _ hcat.relcat.opened⟩, hcat.relTuples, .refl H, le_refl _, rfl,
        fun _ _ => ⟨rfl, hnone⟩⟩
    · exact h
  have hHA₁ := hleaves₁.isHeap attrcat_ne_relcat hcat.attrcat
  refine (AttrCatalog.dropRelation_spec fuel hleaves₁.coh hH₁ htuples₁ hHA₁
    hcat.attrTuples hname hne
    fun ht => ?_).bind ?_
  · obtain ⟨h₁, h₂, h₃⟩ := hT ht
    have hcard := Multiset.card_le_card hle₁
    rw [← hH₁.length_rids, ← hcat.relcat.length_rids] at hcard
    rw [hpages₁.pages]
    have := hleaves₁.freeFrames_le
    exact ⟨by omega, by omega, h₃⟩
  rintro st₂ s₂ ⟨rfl, P₂, v₂, hleaves₂, ⟨fv₂, H₂, hH₂, htuples₂, hpages₂, hrows₂, hsame₂⟩,
    fvA₂, HA₂, hHA₂, htuplesA₂, hpagesA₂, hrowsA₂⟩
  rw [if_neg fun hn => hn rfl]
  have hleaves := (hleaves₁.mono (fun nm hnm => (Or.inl hnm : IsCatalog nm)) le_rfl).trans hleaves₂
  rw [clean_pure]
  refine ⟨P₂, v₂, Or.inr (Or.inr ⟨hbad, rfl, hleaves, fv₂, H₂, fvA₂, HA₂,
    ⟨hH₂, htuples₂, hHA₂, htuplesA₂⟩,
    hpages₁.trans hpages₂, hpagesA₂, ?_, hrowsA₂, fun hstatus hone => ?_⟩)⟩
  · rw [hrows₂, hrows₁]
  · obtain ⟨hkept, hnone⟩ := hkept₁ hstatus hone
    rw [(hsame₂ hnone).1, hkept]

/-- `destroyRel` deletes all the tuples with the name, whatever its locals happen to hold, unless
`removeInfo` finds none and does not happen to return `OK`. -/
theorem RelCatalog.destroyRel_spec (fuel : Nat) {u : Unset} (hc : Coh s P v)
    (hcat : Catalogs v fv H fvA HA) (hname : IsName relation)
    (hT : T → 5 ≤ freeFrames v.numBufs P ∧ 2 * H.rids.length + H.pages.length + 1 ≤ fuel ∧
      2 * HA.rids.length + HA.pages.length + 1 ≤ fuel) :
    Clean T (destroyRel fuel u relation) s fun st s' => ∃ P' v',
      ((relation = [] ∨ IsCatalog relation) ∧ st = .BADCATPARM ∧ P' = P ∧ v' = v ∧ Coh s' P v) ∨
      (¬(relation = [] ∨ IsCatalog relation) ∧ u.status = .OK ∧ u.ret ≠ .OK ∧ st = u.ret ∧
        (∀ b ∈ H.rows, hasName relation b = false) ∧ Leaves (· = RELCATNAME) 2 P v s' P' v' ∧
        v'.file = v.file) ∨
      (¬(relation = [] ∨ IsCatalog relation) ∧
        Leaves (fun nm => IsCatalog nm ∨ nm = relation) 4 P v s' P' v' ∧
        (∃ fv' H' fvA' HA', Catalogs v' fv' H' fvA' HA' ∧ H.SamePages H' ∧ HA.SamePages HA' ∧
          H'.rows = withoutName relation H.rows ∧ HA'.rows = withoutName relation HA.rows ∧
          (u.status = .OK → (H.rows.filter fun b => hasName relation b = true).card ≤ 1 →
            fv'.kept = fv.kept)) ∧
        if (v.handle relation).isSome then st = .FILEOPEN ∧ v'.file relation = v.file relation
        else v'.file relation = none ∧ ((v.file relation).isSome → st = .OK)) := by
  rw [destroyRel_eq]
  refine (dropTuples_spec fuel hc hcat hname hT).bind ?_
  rintro r s₂ ⟨P₂, v₂, ⟨hbad, rfl, rfl, rfl, hc₂⟩ | ⟨hacc, hstatus, hret, rfl, hnone, hl, hfile⟩ |
    ⟨hacc, rfl, hleaves, fv₂, H₂, fvA₂, HA₂, hcat₂, hpages, hpagesA, hrows, hrowsA, hkept⟩⟩
  · exact clean_pure.mpr ⟨P₂, v₂, Or.inl ⟨hbad, rfl, rfl, rfl, hc₂⟩⟩
  · exact clean_pure.mpr ⟨P₂, v₂, Or.inr (Or.inl ⟨hacc, hstatus, hret, rfl, hnone, hl, hfile⟩)⟩
  have hne : relation ≠ [] := fun hn => hacc (Or.inl hn)
  have hcatalog : ¬IsCatalog relation := fun hn => hacc (Or.inr hn)
  obtain ⟨st, s₃, v₃, hy, hleaves₃, hfile⟩ := destroyHeapFile_spec hleaves.coh hne
  refine Runs.of_yields hy ⟨fun _ => rfl, fun _ => ⟨P₂, v₃, Or.inr (Or.inr ⟨hacc,
    (hleaves.mono (fun _ => Or.inl) le_rfl).trans (hleaves₃.mono (fun _ => Or.inr) le_rfl),
    ⟨fv₂, H₂, fvA₂, HA₂, hcat₂.leaves hleaves₃ fun nm hnm => by rwa [hnm], hpages, hpagesA, hrows,
      hrowsA, hkept⟩, ?_⟩)⟩⟩
  rw [hleaves.later.other relation hcatalog, hleaves.other relation hcatalog] at hfile
  split at hfile
  next h =>
    rw [if_pos h, hfile.2]
    exact ⟨hfile.1, hleaves.other relation hcatalog⟩
  next h =>
    rw [if_neg h, hfile.1]
    exact ⟨View.file_setFile_self, hfile.2⟩

end DestroyRel

end Minirel
