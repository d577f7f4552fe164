import Minirel.Catalog.Create
import Minirel.Utility

/-!
# Sessions

A session keeps the objects `relCat` and `attrCat` from its start to its end. When it has ended, the
next process finds the pages on disk as the last one has left them.

## Main definitions

* `HeapFile.Reads`: an object that has only read.
* `OnDisk`: what is on disk at the end of a process.
* `Lists`: the tuples of the catalogs, as descriptors.

## Main results

* `openCatalogs_spec`, `UT_Quit_spec`: the start and the end of a session.
* `dbcreate_spec`: a new database describes its catalogs.
-/

namespace Minirel

open Comp HeapFile

/-! ## The end of a process -/

/-- What is on disk when the buffer manager has been deleted. -/
structure OnDisk (unix : FileName → Option UnixFile) (P : Multiset Pin) (v : View) : Prop where
  absent : ∀ nm, v.file nm = none → ¬v.foreign nm → unix nm = none
  stored : ∀ nm fv, v.file nm = some fv → ∃ uf, unix nm = some uf ∧ Stored uf fv ∧
    ∀ p, fv.alloc p → ∀ blk,
      fv.kept p = some blk ∨ fv.cur p = some blk ∧ (∀ x ∈ P, x.wrote = false) →
      uf.page p.toNat = blk

/-- A file that has just been found on disk. -/
def FileView.reloaded (fv : FileView) : FileView := { fv with kept := fv.cur }

/-- The files that a new process finds. -/
def View.reloaded (v : View) : View where
  numBufs := BUFS
  file := fun nm => (v.file nm).map FileView.reloaded
  handle := fun _ => none
  foreign := v.foreign

/-- All files are on disk as they are in memory. -/
def View.Clean (v : View) : Prop := ∀ nm fv, v.file nm = some fv → fv.kept = fv.cur

theorem View.clean_reloaded (v : View) : v.reloaded.Clean := fun nm fv hf => by
  obtain ⟨fv, -, rfl⟩ := Option.map_eq_some_iff.mp hf
  rfl

theorem View.file_reloaded {v : View} {nm : FileName} {fv : FileView} (h : v.file nm = some fv) :
    v.reloaded.file nm = some fv.reloaded := by
  show (v.file nm).map _ = _
  rw [h]
  rfl

theorem HeapAt.reloaded {fv : FileView} {H : Heap} (h : HeapAt fv H) : HeapAt fv.reloaded H :=
  { h with }

theorem IsHeap.reloaded {v : View} {nm : FileName} {fv : FileView} {H : Heap}
    (h : IsHeap v nm fv H) :
    IsHeap v.reloaded nm fv.reloaded H :=
  ⟨h.name, View.file_reloaded h.file, h.heapAt.reloaded, h.sized, nofun⟩

theorem Catalogs.reloaded {v : View} {fv fvA : FileView} {H HA : Heap}
    (h : Catalogs v fv H fvA HA) :
    Catalogs v.reloaded fv.reloaded H fvA.reloaded HA :=
  ⟨h.relcat.reloaded, h.relTuples, h.attrcat.reloaded, h.attrTuples⟩

/-- If no page was pinned that had been written to, the next process finds all files as they
were. -/
theorem OnDisk.start {unix : FileName → Option UnixFile} {P : Multiset Pin} {v : View}
    (h : OnDisk unix P v) (hP : ∀ x ∈ P, x.wrote = false) (dataFile : FileName → Option Bytes)
    (hash : BufHash) : Coh (Sys.start unix dataFile (fun _ => true) hash) 0 v.reloaded := by
  refine Coh.start (show 0 < BUFS by decide) rfl rfl
    (fun nm => ChainTable.find_empty _ _ nm) Nat.one_pos
    (fun _ => rfl) (fun nm hnone hforeign => ?_) fun nm fv' hf' => ?_
  · exact h.absent nm (Option.map_eq_none_iff.mp hnone) hforeign
  · obtain ⟨fv, hf, rfl⟩ := Option.map_eq_some_iff.mp hf'
    obtain ⟨uf, huf, hst, hpages⟩ := h.stored nm fv hf
    refine ⟨uf, huf, hst, fun p hp blk hblk => hpages p hp blk (Or.inr ⟨?_, hP⟩)⟩
    rcases hblk with hblk | hblk
    · exact hblk
    · exact hblk

/-! ## The objects of a session -/

/-- The object has read the header and a page of the file, and has changed neither. -/
structure HeapFile.Reads (h : HeapFile) (H : Heap) (x y : Pin) : Prop where
  header : HasHeader h H x
  page : HasPage h H y
  unwritten : x.wrote = false ∧ y.wrote = false
  hdrClean : h.hdrDirtyFlag = false
  curClean : h.curDirtyFlag = false

theorem HeapFile.Reads.mono {h : HeapFile} {H H' : Heap} {x y : Pin} (hr : h.Reads H x y)
    (hle : H.Le H') : h.Reads H' x y :=
  { hr with header := hr.header.mono hle, page := hr.page.mono hle }

section Session

variable {T : Prop} {s : Sys} {P : Multiset Pin} {v : View} {nm : FileName} {fv fvA : FileView}
  {H HA : Heap} {h relCat attrCat : HeapFile} {x y xA yA : Pin} {c cA : Int}

/-- An object on a heap file. -/
theorem HeapFile.new_reads (hc : Coh s P v) (hH : IsHeap v nm fv H)
    (hT : T → 2 ≤ freeFrames v.numBufs P) :
    Clean T (HeapFile.new nm) s fun r s' => r.1 = .OK ∧ ∃ x y, r.2.Reads H x y ∧
      (∀ f c, v.handle nm = some (f, c) → r.2.filePtr = f) ∧
      Coh s' (y ::ₘ x ::ₘ P) (v.setHandle nm (some (r.2.filePtr, v.openCnt nm + 1))) := by
  refine (new_spec hc hH.name hH.file hH.heapAt hH.opened hT).mono ?_
  rintro r s' ⟨f, n, m, rfl, hsame, hc'⟩
  exact ⟨rfl, ⟨f, H.hdrNo, n, false⟩, ⟨f, H.hdr.firstPage, m, false⟩, ⟨⟨rfl, rfl, rfl, rfl, nofun⟩,
    ⟨rfl, rfl, rfl, hH.heapAt.first_mem⟩, ⟨rfl, rfl⟩, rfl, rfl⟩, hsame, hc'⟩

/-- The start of a session. -/
theorem openCatalogs_spec (hc : Coh s P v) (hH : IsHeap v RELCATNAME fv H)
    (hHA : IsHeap v ATTRCATNAME fvA HA) (hT : T → 4 ≤ freeFrames v.numBufs P) :
    Clean T openCatalogs s fun r s' => r.1 = .OK ∧ ∃ x y xA yA, r.2.1.Reads H x y ∧
      r.2.2.Reads HA xA yA ∧
      Later IsCatalog v ((v.setHandle RELCATNAME (some (r.2.1.filePtr,
      v.openCnt RELCATNAME + 1))).setHandle
        ATTRCATNAME (some (r.2.2.filePtr, v.openCnt ATTRCATNAME + 1))) ∧
      Coh s' (yA ::ₘ xA ::ₘ y ::ₘ x ::ₘ P)
        ((v.setHandle RELCATNAME (some (r.2.1.filePtr, v.openCnt RELCATNAME + 1))).setHandle
          ATTRCATNAME (some (r.2.2.filePtr, v.openCnt ATTRCATNAME + 1))) := by
  unfold openCatalogs
  refine (new_reads hc hH fun ht => ?_).bind ?_
  · have := hT ht
    omega
  rintro ⟨st, relCat⟩ s₁ ⟨rfl, x, y, hx, hsame, hc₁⟩
  dsimp only at hx hsame hc₁ ⊢
  rw [if_neg fun hn => hn rfl]
  have hlater := Later.setHandle (v := v) hH.opened hsame
  have hHA₁ : IsHeap (v.setHandle RELCATNAME (some (relCat.filePtr, v.openCnt RELCATNAME + 1)))
      ATTRCATNAME fvA HA := hHA.same hlater rfl
  refine (new_reads hc₁ hHA₁ fun ht => ?_).bind ?_
  · have := hT ht
    have := freeFrames_cons v.numBufs x P
    have := freeFrames_cons v.numBufs y (x ::ₘ P)
    show 2 ≤ freeFrames v.numBufs _
    omega
  rintro ⟨st, attrCat⟩ s₂ ⟨rfl, xA, yA, hxA, hsameA, hc₂⟩
  have hcnt : (v.setHandle RELCATNAME (some (relCat.filePtr, v.openCnt RELCATNAME + 1))).openCnt
      ATTRCATNAME = v.openCnt ATTRCATNAME := by
    unfold View.openCnt
    rw [View.handle_setHandle_of_ne attrcat_ne_relcat]
  have hlaterA := Later.setHandle hHA₁.opened hsameA
  dsimp only at hxA hlaterA hc₂ ⊢
  rw [hcnt] at hlaterA hc₂
  rw [clean_pure]
  exact ⟨rfl, x, y, xA, yA, hx, hxA,
    (hlater.mono fun _ => Or.inl).trans (hlaterA.mono fun _ => Or.inr), hc₂⟩

/-- The destructor of an object that has only read. -/
theorem HeapFile.Reads.delete (hr : h.Reads H x y) (hc : Coh s (y ::ₘ x ::ₘ P) v)
    (hh : v.handle nm = some (h.filePtr, c)) (hf : v.file nm = some fv) (hpos : 0 < c)
    (hlast : c = 1 → ∀ z ∈ P, z.file ≠ h.filePtr) :
    ∃ s', Yields (HeapFile.delete h) s () false s' ∧
      Coh s' P (v.setHandle nm (closed h.filePtr c)) := by
  obtain ⟨s', fv', hy, hc', hfor⟩ := delete_spec hc hh hf hr.header hr.page
    (fun hw => by rw [hr.unwritten.2] at hw; cases hw) hpos hlast
  obtain rfl : fv' = fv := hfor.eq_of_not fun p hp => by
    rw [hr.curClean, hr.hdrClean] at hp
    rcases hp with ⟨hp, -⟩ | ⟨hp, -⟩ <;> cases hp
  rw [View.setFile_self hf] at hc'
  exact ⟨s', hy, hc'⟩

/-- The end of a session up to the destructor of the buffer manager, whoever else has pages pinned
or files open. -/
theorem deleteCatalogs_spec (hc : Coh s (yA ::ₘ xA ::ₘ y ::ₘ x ::ₘ P) v) (hr : relCat.Reads H x y)
    (hrA : attrCat.Reads HA xA yA) (hh : v.handle RELCATNAME = some (relCat.filePtr, c))
    (hhA : v.handle ATTRCATNAME = some (attrCat.filePtr, cA)) (hf : v.file RELCATNAME = some fv)
    (hfA : v.file ATTRCATNAME = some fvA) (hpos : 0 < c ∧ 0 < cA)
    (hlast : c = 1 → ∀ z ∈ P, z.file ≠ relCat.filePtr)
    (hlastA : cA = 1 → ∀ z ∈ P, z.file ≠ attrCat.filePtr) :
    ∃ s', (∀ s'', Yields BufMgr.delete s' () false s'' → Yields (UT_Quit relCat attrCat) s
      () false s'') ∧
      Coh s' P ((v.setHandle RELCATNAME (closed relCat.filePtr c)).setHandle ATTRCATNAME
        (closed attrCat.filePtr cA)) := by
  have hne : attrCat.filePtr ≠ relCat.filePtr := fun he =>
    attrcat_ne_relcat (hc.name_unique (he ▸ hhA) hh)
  have hswap : yA ::ₘ xA ::ₘ y ::ₘ x ::ₘ P = y ::ₘ x ::ₘ yA ::ₘ xA ::ₘ P := by
    rw [Multiset.cons_swap xA y, Multiset.cons_swap xA x, Multiset.cons_swap yA y,
      Multiset.cons_swap yA x]
  rw [hswap] at hc
  obtain ⟨s₁, hy₁, hc₁⟩ := hr.delete hc hh hf hpos.1 fun hone z hz => by
    rcases Multiset.mem_cons.mp hz with rfl | hz
    · rw [hrA.page.file]
      exact hne
    rcases Multiset.mem_cons.mp hz with rfl | hz
    · rw [hrA.header.file]
      exact hne
    · exact hlast hone z hz
  obtain ⟨s₂, hy₂, hc₂⟩ := hrA.delete hc₁
    ((View.handle_setHandle_of_ne attrcat_ne_relcat).trans hhA) hfA hpos.2 hlastA
  exact ⟨s₂, fun s₃ hy₃ => hy₁.bind (d := false) (hy₂.bind (d := false) hy₃), hc₂⟩

/-- The end of a session, whoever else has pages pinned or files open. -/
theorem UT_Quit_spec (hc : Coh s (yA ::ₘ xA ::ₘ y ::ₘ x ::ₘ P) v) (hr : relCat.Reads H x y)
    (hrA : attrCat.Reads HA xA yA) (hh : v.handle RELCATNAME = some (relCat.filePtr, c))
    (hhA : v.handle ATTRCATNAME = some (attrCat.filePtr, cA)) (hf : v.file RELCATNAME = some fv)
    (hfA : v.file ATTRCATNAME = some fvA) (hpos : 0 < c ∧ 0 < cA)
    (hlast : c = 1 → ∀ z ∈ P, z.file ≠ relCat.filePtr)
    (hlastA : cA = 1 → ∀ z ∈ P, z.file ≠ attrCat.filePtr) :
    ∃ s', Yields (UT_Quit relCat attrCat) s () false s' ∧ OnDisk s'.unix P v := by
  obtain ⟨s₂, hquit, hc₂⟩ := deleteCatalogs_spec hc hr hrA hh hhA hf hfA hpos hlast hlastA
  obtain ⟨s₃, hy, habsent, hstored⟩ := hc₂.delete
  exact ⟨s₃, hquit s₃ hy, habsent, hstored⟩

end Session

/-! ## Relations as they have been declared -/

/-- A relation with its attributes in the order in which they have been declared. -/
structure Relation where
  /-- The name of the relation and of its heap file. -/
  name : FileName
  /-- Its attributes. -/
  attrs : List AttrInfo

namespace Relation

/-- Its tuple in `relcat`. -/
def desc (R : Relation) : RelDesc := ⟨R.name, R.attrs.length⟩

/-- Its tuples in `attrcat`. -/
def attrDescs (R : Relation) : List AttrDesc := descsFrom 0 R.attrs

/-- The relation `relcat`. -/
def relcat : Relation :=
  ⟨RELCATNAME, [⟨RELCATNAME, relNameStr, Datatype.code .STRING, 32⟩,
    ⟨RELCATNAME, attrCntStr, Datatype.code .INTEGER, 4⟩]⟩

/-- The relation `attrcat`. -/
def attrcat : Relation :=
  ⟨ATTRCATNAME, [⟨ATTRCATNAME, relNameStr, Datatype.code .STRING, 32⟩,
    ⟨ATTRCATNAME, attrNameStr, Datatype.code .STRING, 32⟩,
    ⟨ATTRCATNAME, attrOffsetStr, Datatype.code .INTEGER, 4⟩,
    ⟨ATTRCATNAME, attrTypeStr, Datatype.code .INTEGER, 4⟩,
    ⟨ATTRCATNAME, attrLenStr, Datatype.code .INTEGER, 4⟩]⟩

end Relation

/-- The tuples of the catalogs are those of the relations `C`. -/
structure Lists (H HA : Heap) (C : List Relation) : Prop where
  rel : H.rows.map RelDesc.decode = (C.map Relation.desc : Multiset RelDesc)
  attr : HA.rows.map AttrDesc.decode = (C.flatMap Relation.attrDescs : Multiset AttrDesc)

/-! ## `dbcreate` -/

/-- Of the files of `v₀` only the catalogs have changed; they have the tuples `R` and `A`. -/
def Describes (P : Multiset Pin) (v₀ : View) (H₀ HA₀ : Heap) (R : Multiset RelDesc)
    (A : Multiset AttrDesc) (s : Sys) : Prop :=
  ∃ v fv H fvA HA, Coh s P v ∧ v.numBufs = v₀.numBufs ∧ v.handle = v₀.handle ∧
    v.foreign = v₀.foreign ∧ (∀ nm, ¬IsCatalog nm → v.file nm = v₀.file nm) ∧
    Catalogs v fv H fvA HA ∧ H₀.Le H ∧ HA₀.Le HA ∧ H.rows.map RelDesc.decode = R ∧
    HA.rows.map AttrDesc.decode = A

section Describe

variable {T : Prop} {s : Sys} {P : Multiset Pin} {v₀ : View} {H₀ HA₀ : Heap} {R : Multiset RelDesc}
  {A : Multiset AttrDesc}

/-- A tuple that `dbcreate` adds to `relcat`. -/
theorem catalogRel_spec {rd : RelDesc} {relName : Bytes} {attrCnt : Int}
    (hd : Describes P v₀ H₀ HA₀ R A s) (hrd : rd.Sized) (hname : (0 : UInt8) ∉ relName)
    (hlen : relName.length < MAXNAME) (hcnt : IsInt attrCnt)
    (hT : T → 3 ≤ freeFrames v₀.numBufs P) :
    Clean T (catalogRel rd relName attrCnt) s fun r s' => r.1 = .OK ∧ r.2.Sized ∧
      Describes P v₀ H₀ HA₀ (⟨relName, attrCnt⟩ ::ₘ R) A s' := by
  obtain ⟨v, fv, H, fvA, HA, hc, hN, hhandle, hforeign, hother, hcat, hle, hleA, hR, hA⟩ := hd
  unfold catalogRel
  refine Clean.ofOption_bind (fun _ => isSome_strcpy hrd hlen) fun b hb => ?_
  obtain ⟨hlen', h0, hcstr⟩ := strcpy_spec hb hname
  have hsized : RelDesc.Sized ⟨b, attrCnt⟩ := hlen'.trans hrd
  dsimp only
  rw [RelCatalog.addInfo_eq]
  refine (addTuple_rows hc hcat.relcat hcat.relTuples (by decide) (RelDesc.length_bytes hsized)
    (RelDesc.named_bytes hsized h0) fun ht => hN ▸ hT ht).bind ?_
  rintro st s₁ ⟨rfl, fv', H', hc₁, hH', htuples', hle', hrows⟩
  rw [clean_pure]
  have hl := leaves_setFile hc₁
  refine ⟨rfl, hsized, _, fv', H', fvA, HA, hc₁, hN, hhandle, hforeign, fun nm hnm => ?_,
    ⟨hH', htuples', hl.isHeap attrcat_ne_relcat hcat.attrcat, hcat.attrTuples⟩,
    hle.trans hle', hleA,
    ?_, hA⟩
  · exact (hl.other nm (mt Or.inl hnm)).trans (hother nm hnm)
  · rw [hrows, Multiset.map_cons, hR, RelDesc.decode_bytes hsized h0 hcnt, hcstr]

/-- A tuple that `dbcreate` adds to `attrcat`. -/
theorem catalogAttr_spec {ad : AttrDesc} (a : AttrInfo) {attrOffset : Int} {attrType : Datatype}
    (hd : Describes P v₀ H₀ HA₀ R A s) (had : ad.Sized) (ha : a.Valid) (hoff : IsInt attrOffset)
    (htype : a.attrType = attrType.code) (hT : T → 3 ≤ freeFrames v₀.numBufs P) :
    Clean T (catalogAttr ad a.relName a.attrName attrOffset attrType a.attrLen) s fun r s' =>
      r.1 = .OK ∧ r.2.Sized ∧ Describes P v₀ H₀ HA₀ R
        (⟨a.relName, a.attrName, attrOffset, a.attrType, a.attrLen⟩ ::ₘ A) s' := by
  obtain ⟨v, fv, H, fvA, HA, hc, hN, hhandle, hforeign, hother, hcat, hle, hleA, hR, hA⟩ := hd
  unfold catalogAttr
  refine Clean.ofOption_bind (fun _ => isSome_strcpy had.relName ha.relLen) fun rn hrn => ?_
  refine Clean.ofOption_bind (fun _ => isSome_strcpy had.attrName ha.nameLen) fun an han => ?_
  obtain ⟨hsized, hlen, hnamed, hdecode⟩ := attrDesc_decode ha had han hrn hoff
  dsimp only at hsized hlen hnamed hdecode ⊢
  rw [← htype, AttrCatalog.addInfo_eq]
  refine (addTuple_rows hc hcat.attrcat hcat.attrTuples (by decide) hlen hnamed
    fun ht => hN ▸ hT ht).bind ?_
  rintro st s₁ ⟨rfl, fv', H', hc₁, hH', htuples', hle', hrows⟩
  rw [clean_pure]
  have hl := leaves_setFile hc₁
  refine ⟨rfl, hsized, _, fv, H, fv', H', hc₁, hN, hhandle, hforeign, fun nm hnm => ?_,
    ⟨hl.isHeap attrcat_ne_relcat.symm hcat.relcat, hcat.relTuples, hH', htuples'⟩, hle,
    hleA.trans hle', hR, ?_⟩
  · exact (hl.other nm (mt Or.inr hnm)).trans (hother nm hnm)
  · rw [hrows, Multiset.map_cons, hA, hdecode]

/-- `dbcreate` describes the catalogs in the catalogs. -/
theorem describeCatalogs_spec {rd : RelDesc} {ad : AttrDesc} (hd : Describes P v₀ H₀ HA₀ 0 0 s)
    (hrd : rd.Sized) (had : ad.Sized) (hT : T → 3 ≤ freeFrames v₀.numBufs P) :
    Clean T (describeCatalogs rd ad) s fun st s' => st = .OK ∧
      Describes P v₀ H₀ HA₀ ([Relation.relcat, Relation.attrcat].map Relation.desc : List RelDesc)
        ([Relation.relcat, Relation.attrcat].flatMap Relation.attrDescs : List AttrDesc) s' := by
  have hrel : ∀ a ∈ Relation.relcat.attrs, a.Valid := by
    simp only [Relation.relcat, List.forall_mem_cons, List.not_mem_nil, false_implies, implies_true,
      and_true]
    exact ⟨⟨by decide, by decide, by decide, by decide, by decide, by decide⟩,
      by decide, by decide, by decide, by decide, by decide, by decide⟩
  have hattr : ∀ a ∈ Relation.attrcat.attrs, a.Valid := by
    simp only [Relation.attrcat, List.forall_mem_cons, List.not_mem_nil, false_implies,
      implies_true,
      and_true]
    exact ⟨⟨by decide, by decide, by decide, by decide, by decide, by decide⟩,
      ⟨by decide, by decide, by decide, by decide, by decide, by decide⟩,
      ⟨by decide, by decide, by decide, by decide, by decide, by decide⟩,
      ⟨by decide, by decide, by decide, by decide, by decide, by decide⟩,
      by decide, by decide, by decide, by decide, by decide, by decide⟩
  unfold describeCatalogs
  refine (catalogRel_spec hd hrd (by decide) (by decide) (by decide) hT).bind ?_
  rintro ⟨st, rd⟩ s₁ ⟨rfl, hrd, hd⟩
  dsimp only at hrd hd ⊢
  rw [if_neg fun hn => hn rfl]
  refine (catalogAttr_spec ⟨RELCATNAME, relNameStr, Datatype.code .STRING, 32⟩ hd had
    (hrel _ (by decide)) (by decide) rfl hT).bind ?_
  rintro ⟨st, ad⟩ s₂ ⟨rfl, had, hd⟩
  dsimp only at had hd ⊢
  rw [if_neg fun hn => hn rfl]
  refine (catalogAttr_spec ⟨RELCATNAME, attrCntStr, Datatype.code .INTEGER, 4⟩ hd had
    (hrel _ (by decide)) (by decide) rfl hT).bind ?_
  rintro ⟨st, ad⟩ s₃ ⟨rfl, had, hd⟩
  dsimp only at had hd ⊢
  rw [if_neg fun hn => hn rfl]
  refine (catalogRel_spec hd hrd (by decide) (by decide) (by decide) hT).bind ?_
  rintro ⟨st, rd⟩ s₄ ⟨rfl, -, hd⟩
  dsimp only at hd ⊢
  rw [if_neg fun hn => hn rfl]
  refine (catalogAttr_spec ⟨ATTRCATNAME, relNameStr, Datatype.code .STRING, 32⟩ hd had
    (hattr _ (by decide)) (by decide) rfl hT).bind ?_
  rintro ⟨st, ad⟩ s₅ ⟨rfl, had, hd⟩
  dsimp only at had hd ⊢
  rw [if_neg fun hn => hn rfl]
  refine (catalogAttr_spec ⟨ATTRCATNAME, attrNameStr, Datatype.code .STRING, 32⟩ hd had
    (hattr _ (by decide)) (by decide) rfl hT).bind ?_
  rintro ⟨st, ad⟩ s₆ ⟨rfl, had, hd⟩
  dsimp only at had hd ⊢
  rw [if_neg fun hn => hn rfl]
  refine (catalogAttr_spec ⟨ATTRCATNAME, attrOffsetStr, Datatype.code .INTEGER, 4⟩ hd had
    (hattr _ (by decide)) (by decide) rfl hT).bind ?_
  rintro ⟨st, ad⟩ s₇ ⟨rfl, had, hd⟩
  dsimp only at had hd ⊢
  rw [if_neg fun hn => hn rfl]
  refine (catalogAttr_spec ⟨ATTRCATNAME, attrTypeStr, Datatype.code .INTEGER, 4⟩ hd had
    (hattr _ (by decide)) (by decide) rfl hT).bind ?_
  rintro ⟨st, ad⟩ s₈ ⟨rfl, had, hd⟩
  dsimp only at had hd ⊢
  rw [if_neg fun hn => hn rfl]
  refine (catalogAttr_spec ⟨ATTRCATNAME, attrLenStr, Datatype.code .INTEGER, 4⟩ hd had
    (hattr _ (by decide)) (by decide) rfl hT).bind ?_
  rintro ⟨st, ad⟩ s₉ ⟨rfl, -, hd⟩
  rw [clean_pure]
  refine ⟨rfl, ?_⟩
  convert hd using 1
  · exact Multiset.coe_eq_coe.mpr (by decide)
  · exact Multiset.coe_eq_coe.mpr (by decide)

end Describe

theorem freeFrames_zero (N : Nat) : freeFrames N 0 = N := by
  unfold freeFrames
  rw [Finset.filter_true_of_mem fun n _ => Multiset.countP_zero _, Finset.card_range]

/-- A process that has just started, in a directory whose files are not known. -/
def View.unknown (unix : FileName → Option UnixFile) : View :=
  ⟨BUFS, fun _ => none, fun _ => none, fun nm => (unix nm).isSome⟩

theorem Coh.unknown (unix : FileName → Option UnixFile) (dataFile : FileName → Option Bytes)
    (hash : BufHash) : Coh (Sys.start unix dataFile (fun _ => true) hash) 0
      (View.unknown unix) := by
  refine Coh.start (show 0 < BUFS by decide) rfl rfl (fun nm => ChainTable.find_empty _ _ nm)
    Nat.one_pos (fun _ => rfl) (fun nm _ hforeign => ?_) nofun
  exact Option.not_isSome_iff_eq_none.mp hforeign

/-- A new heap file is there, with no records. -/
theorem isHeap_fresh {v : View} {nm : FileName} {p q : Int} {pg : Page} {fv : FileView}
    (hne : nm ≠ []) (hf : v.file nm = some fv) (hH : HeapAt fv (.fresh nm p q pg))
    (hh : v.handle nm = none) : IsHeap v nm fv (.fresh nm p q pg) := by
  refine ⟨hne, hf, hH, fun r b hb => ?_, fun f c h => ?_⟩
  · rw [Heap.rec?_fresh] at hb
    cases hb
  · rw [hh] at h
    cases h

theorem tuples_fresh {n : Nat} {nm : FileName} {p q : Int} {pg : Page} :
    (Heap.fresh nm p q pg).Tuples n := fun r b hb => by
  rw [Heap.rec?_fresh] at hb
  cases hb

/-- `dbcreate` leaves a database on disk that consists of the catalogs. -/
theorem dbcreate_spec {T : Prop} {unix : FileName → Option UnixFile}
    {dataFile : FileName → Option Bytes} {hash : BufHash} {rd : RelDesc} {ad : AttrDesc}
    (hrel : unix RELCATNAME = none) (hattr : unix ATTRCATNAME = none) (hrd : rd.Sized)
    (had : ad.Sized) :
    Clean T (dbcreate rd ad) (Sys.start unix dataFile (fun _ => true) hash) fun st s' => st = .OK ∧
      ∃ v fv H fvA HA, OnDisk s'.unix 0 v ∧ Catalogs v fv H fvA HA ∧
        Lists H HA [Relation.relcat, Relation.attrcat] ∧ (∀ nm, ¬IsCatalog nm → v.file nm = none) ∧
        v.foreign = fun nm => ((unix nm).isSome : Prop) := by
  have hc := Coh.unknown unix dataFile hash
  have hforeign : ∀ {nm}, unix nm = none → ¬(View.unknown unix).foreign nm := fun h => by
    show ¬((unix _).isSome : Prop)
    rw [h]
    exact Bool.false_ne_true
  have hframes : freeFrames BUFS 0 = 100 := freeFrames_zero 100
  unfold dbcreate
  -- the two heap files
  refine (createHeapFile_spec hc (by decide) rfl (hforeign hrel) fun _ => ?_).bind ?_
  · show 2 ≤ freeFrames BUFS 0
    omega
  rintro st s₁ ⟨rfl, p, q, pg, fv, hc₁, hH⟩
  rw [if_neg fun hn => hn rfl]
  refine (createHeapFile_spec hc₁ (by decide) (View.file_setFile_of_ne attrcat_ne_relcat)
    (hforeign hattr) fun _ => ?_).bind ?_
  · show 2 ≤ freeFrames BUFS 0
    omega
  rintro st s₂ ⟨rfl, pA, qA, pgA, fvA, hc₂, hHA⟩
  rw [if_neg fun hn => hn rfl]
  generalize hv : ((View.unknown unix).setFile RELCATNAME (some fv)).setFile ATTRCATNAME
    (some fvA) = v
    at hc₂
  have hhandle : ∀ nm, v.handle nm = none := fun nm => by
    rw [← hv]
    rfl
  have hIs : IsHeap v RELCATNAME fv (.fresh RELCATNAME p q pg) := by
    refine isHeap_fresh (by decide) ?_ hH (hhandle _)
    rw [← hv]
    exact (View.file_setFile_of_ne attrcat_ne_relcat.symm).trans View.file_setFile_self
  have hIsA : IsHeap v ATTRCATNAME fvA (.fresh ATTRCATNAME pA qA pgA) := by
    refine isHeap_fresh (by decide) ?_ hHA (hhandle _)
    rw [← hv]
    exact View.file_setFile_self
  have hN : v.numBufs = BUFS := by
    rw [← hv]
    rfl
  -- the objects
  refine (openCatalogs_spec hc₂ hIs hIsA fun _ => by rw [hN]; omega).bind ?_
  rintro ⟨st, relCat, attrCat⟩ s₃ ⟨rfl, x, y, xA, yA, hr, hrA, hlater, hc₃⟩
  dsimp only at hr hrA hlater hc₃ ⊢
  rw [if_neg fun hn => hn rfl]
  have hcnt : ∀ nm, v.openCnt nm = 0 := fun nm => by
    unfold View.openCnt
    rw [hhandle]
  rw [hcnt, hcnt] at hlater hc₃
  generalize hv₁ : (v.setHandle RELCATNAME (some (relCat.filePtr, 0 + 1))).setHandle ATTRCATNAME
    (some (attrCat.filePtr, 0 + 1)) = v₁ at hlater hc₃
  have hfile₁ : v₁.file = v.file := by
    rw [← hv₁]
    rfl
  have hcat : Catalogs v fv (.fresh RELCATNAME p q pg) fvA (.fresh ATTRCATNAME pA qA pgA) :=
    ⟨hIs, tuples_fresh, hIsA, tuples_fresh⟩
  have hcat₁ := hcat.same hlater hfile₁
  have hframes₁ : 3 ≤ freeFrames v₁.numBufs (yA ::ₘ xA ::ₘ y ::ₘ x ::ₘ 0) := by
    have h₁ := freeFrames_cons BUFS x 0
    have h₂ := freeFrames_cons BUFS y (x ::ₘ 0)
    have h₃ := freeFrames_cons BUFS xA (y ::ₘ x ::ₘ 0)
    have h₄ := freeFrames_cons BUFS yA (xA ::ₘ y ::ₘ x ::ₘ 0)
    rw [hlater.numBufs, hN]
    omega
  -- the tuples
  have hd : Describes (yA ::ₘ xA ::ₘ y ::ₘ x ::ₘ 0) v₁ (.fresh RELCATNAME p q pg)
      (.fresh ATTRCATNAME pA qA pgA) 0 0 s₃ := by
    refine ⟨v₁, fv, _, fvA, _, hc₃, rfl, rfl, rfl, fun _ _ => rfl, hcat₁, .refl _, .refl _, ?_, ?_⟩
    · rw [Heap.rows_fresh, Multiset.map_zero]
    · rw [Heap.rows_fresh, Multiset.map_zero]
  refine (describeCatalogs_spec hd hrd had fun _ => hframes₁).bind ?_
  rintro st s₄ ⟨rfl, v₂, fv₂, H₂, fvA₂, HA₂, hc₄, hN₂, hhandle₂, hforeign₂, hother₂,
    hcat₂, hle, hleA,
    hR, hA⟩
  rw [if_neg fun hn => hn rfl]
  have hh : v₂.handle RELCATNAME = some (relCat.filePtr, 1) := by
    rw [hhandle₂, ← hv₁]
    exact (View.handle_setHandle_of_ne attrcat_ne_relcat.symm).trans View.handle_setHandle_self
  have hhA : v₂.handle ATTRCATNAME = some (attrCat.filePtr, 1) := by
    rw [hhandle₂, ← hv₁]
    exact View.handle_setHandle_self
  obtain ⟨s₅, hy, hdisk⟩ := UT_Quit_spec hc₄ (hr.mono hle) (hrA.mono hleA) hh hhA hcat₂.relcat.file
    hcat₂.attrcat.file ⟨Int.one_pos, Int.one_pos⟩ (fun _ z hz => absurd hz (Multiset.notMem_zero z))
    fun _ z hz => absurd hz (Multiset.notMem_zero z)
  rw [clean_bind_of_yields hy, clean_pure]
  refine ⟨rfl, v₂, fv₂, H₂, fvA₂, HA₂, hdisk, hcat₂, ⟨hR, hA⟩, fun nm hnm => ?_, ?_⟩
  · rw [hother₂ nm hnm, hfile₁, ← hv, View.file_setFile_of_ne fun hn => hnm (Or.inr hn),
      View.file_setFile_of_ne fun hn => hnm (Or.inl hn)]
    rfl
  · rw [hforeign₂, hlater.foreign, ← hv]
    rfl

end Minirel
