import Minirel.Catalog.Atomic

/-!
# Relations that come back

`RelCatalog::removeInfo` deletes a tuple of `relcat` in its frame and never gives the frame back, so
that nothing is written to disk. A relation that has been destroyed is in `relcat` again when the
database is opened the next time.

## Main definitions

* `Session`: the objects of a session, and the pins that others have left behind.
* `StoredDatabase`: a consistent database on disk.
* `DropSession`: a session that destroys a relation.

## Main results

* `Session.quit`: what is on disk at the end of a session.
* `StoredDatabase.exists_drop`: any relation can be destroyed.
* `not_staysDropped`: none stays so.
-/

namespace Minirel

open Comp HeapFile

/-! ## What is certain to be on disk -/

/-- Only what has been kept on disk is known. -/
def FileView.surviving (fv : FileView) : FileView := { fv with cur := fv.kept }

theorem FileView.surviving_eq_self {fv : FileView} (h : fv.kept = fv.cur) : fv.surviving = fv := by
  cases fv
  cases h
  rfl

/-- The files that a new process finds, as far as they are known whoever has had pages pinned. -/
def View.surviving (v : View) : View where
  numBufs := BUFS
  file := fun nm => (v.file nm).map FileView.surviving
  handle := fun _ => none
  foreign := v.foreign

theorem View.file_surviving {v : View} {nm : FileName} {fv : FileView} (h : v.file nm = some fv) :
    v.surviving.file nm = some fv.surviving := by
  show (v.file nm).map _ = _
  rw [h]
  rfl

theorem OnDisk.survives {unix : FileName → Option UnixFile} {P : Multiset Pin} {v : View}
    (h : OnDisk unix P v) (dataFile : FileName → Option Bytes) (hash : BufHash) :
    Coh (Sys.start unix dataFile (fun _ => true) hash) 0 v.surviving := by
  refine Coh.start (show 0 < BUFS by decide) rfl rfl
    (fun nm => ChainTable.find_empty _ _ nm) Nat.one_pos
    (fun _ => rfl) (fun nm hnone hforeign => ?_) fun nm fv' hf' => ?_
  · exact h.absent nm (Option.map_eq_none_iff.mp hnone) hforeign
  · obtain ⟨fv, hf, rfl⟩ := Option.map_eq_some_iff.mp hf'
    obtain ⟨uf, huf, hst, hpages⟩ := h.stored nm fv hf
    refine ⟨uf, huf, hst, fun p hp blk hblk => hpages p hp blk (Or.inl ?_)⟩
    rcases hblk with hblk | hblk
    · exact hblk
    · exact hblk

/-- If no page of a heap file has been written back, the file is as it was. -/
theorem HeapAt.surviving {fv fv' : FileView} {H H' : Heap} (h : HeapAt fv H) (h' : HeapAt fv' H')
    (hpages : H.SamePages H') (hkept : fv'.kept = fv.cur) : HeapAt fv'.surviving H where
  first := h'.first.trans hpages.hdrNo
  hdr_alloc := hpages.hdrNo ▸ h'.hdr_alloc
  hdr := by
    unfold FileView.hdr? FileView.surviving
    rw [hkept]
    exact h.hdr
  linked := h.linked
  last := h.last
  pageCnt := h.pageCnt
  hdr_not_mem := h.hdr_not_mem
  alloc p hp := h'.alloc p (hpages.pages ▸ hp)
  page p hp := by
    unfold FileView.page? FileView.surviving
    rw [hkept]
    exact h.page p hp
  wf := h.wf
  curPage := h.curPage

/-! ## Sessions -/

/-- The objects of a session that have read the catalogs `H` and `HA`. Of the pins `P`, the pins `Q`
are not theirs; a catalog that there are such pins on is not open for its object only. -/
structure Session (relCat attrCat : HeapFile) (s : Sys) (P Q : Multiset Pin) (v : View)
    (H HA : Heap) : Prop where
  coh : Coh s P v
  pins : ∃ x y xA yA, relCat.Reads H x y ∧ attrCat.Reads HA xA yA ∧
    P = Q + (yA ::ₘ xA ::ₘ y ::ₘ x ::ₘ 0)
  rel : ∃ c, 0 < c ∧ v.handle RELCATNAME = some (relCat.filePtr, c) ∧
    (c = 1 → ∀ z ∈ Q, z.file ≠ relCat.filePtr)
  attr : ∃ c, 0 < c ∧ v.handle ATTRCATNAME = some (attrCat.filePtr, c) ∧
    (c = 1 → ∀ z ∈ Q, z.file ≠ attrCat.filePtr)

namespace Session

variable {relCat attrCat : HeapFile} {s s' : Sys} {P P' Q : Multiset Pin} {v v' : View}
  {fv fv' fvA fvA' : FileView} {H H' HA HA' : Heap} {S : FileName → Prop} {k : Nat}

/-- A handle of one of the objects, after others have left pins on the file. -/
private theorem handle_leaves {nm : FileName} {f : FilePtr} {L : Multiset Pin}
    (h : ∃ c, 0 < c ∧ v.handle nm = some (f, c) ∧ (c = 1 → ∀ z ∈ Q, z.file ≠ f))
    (hlater : Later S v v') (hacc : Accounted v v' L) :
    ∃ c, 0 < c ∧ v'.handle nm = some (f, c) ∧ (c = 1 → ∀ z ∈ L + Q, z.file ≠ f) := by
  obtain ⟨c, hpos, hh, hQ⟩ := h
  obtain ⟨c', hle, hh'⟩ := hlater.handle nm f c hh
  refine ⟨c', hpos.trans_le hle, hh', fun hone z hz => ?_⟩
  obtain rfl : c = c' := by omega
  rcases Multiset.mem_add.mp hz with hz | hz
  · exact hacc nm f c hh hh' z hz
  · exact hQ hone z hz

/-- Others open files, change them and leave pins behind. -/
theorem leaves (h : Session relCat attrCat s P Q v H HA) (hl : Leaves S k P v s' P' v')
    (hle : H.Le H') (hleA : HA.Le HA') :
    ∃ Q', Session relCat attrCat s' P' Q' v' H' HA' ∧ ∀ z ∈ Q', z ∈ Q ∨ z ∈ P' := by
  obtain ⟨L, rfl, -, hacc⟩ := hl.pins
  obtain ⟨x, y, xA, yA, hr, hrA, rfl⟩ := h.pins
  refine ⟨L + Q, ⟨hl.coh, ⟨x, y, xA, yA, hr.mono hle, hrA.mono hleA, (add_assoc L Q _).symm⟩,
    handle_leaves h.rel hl.later hacc, handle_leaves h.attr hl.later hacc⟩, fun z hz => ?_⟩
  rcases Multiset.mem_add.mp hz with hz | hz
  · exact Or.inr (Multiset.mem_add.mpr (Or.inl hz))
  · exact Or.inl hz

/-- The objects have not written to their pages. -/
theorem mem_of_wrote (h : Session relCat attrCat s P Q v H HA) {z : Pin} (hz : z ∈ P)
    (hw : z.wrote = true) : z ∈ Q := by
  obtain ⟨x, y, xA, yA, hr, hrA, rfl⟩ := h.pins
  have hno : ∀ {z' : Pin}, z'.wrote = false → z ≠ z' := fun hz' he => by
    rw [← he, hw] at hz'
    cases hz'
  refine (Multiset.mem_add.mp hz).resolve_right fun hz => ?_
  simp only [Multiset.mem_cons, Multiset.notMem_zero, or_false] at hz
  rcases hz with hz | hz | hz | hz
  · exact hno hrA.unwritten.2 hz
  · exact hno hrA.unwritten.1 hz
  · exact hno hr.unwritten.2 hz
  · exact hno hr.unwritten.1 hz

/-- The end of the session. -/
theorem quit (h : Session relCat attrCat s P Q v H HA) (hcat : Catalogs v fv H fvA HA) :
    ∃ s', Yields (UT_Quit relCat attrCat) s () false s' ∧ OnDisk s'.unix Q v := by
  obtain ⟨hc, ⟨x, y, xA, yA, hr, hrA, rfl⟩, ⟨c, hpos, hh, hQ⟩, cA, hposA, hhA, hQA⟩ := h
  have hpins : Q + (yA ::ₘ xA ::ₘ y ::ₘ x ::ₘ 0) = yA ::ₘ xA ::ₘ y ::ₘ x ::ₘ Q := by
    simp only [Multiset.add_cons, add_zero]
  rw [hpins] at hc
  exact UT_Quit_spec hc hr hrA hh hhA hcat.relcat.file hcat.attrcat.file ⟨hpos, hposA⟩ hQ hQA

end Session

/-! ## Databases on disk -/

/-- There is a consistent database on disk that lists the relations `C`. -/
def StoredDatabase (unix : FileName → Option UnixFile) (C : List Relation) : Prop :=
  ∃ v fv H fvA HA, OnDisk unix 0 v ∧ Catalogs v fv H fvA HA ∧ Lists H HA C ∧ (names C).Nodup ∧
    ∀ R ∈ C, R.WF ∧ ∃ fvR HR, IsHeap v R.name fvR HR

/-- What a session finds that has been started on a database. -/
structure Started (unix : FileName → Option UnixFile) (relCat attrCat : HeapFile) (s : Sys)
    (C : List Relation) (P : Multiset Pin) (v : View) (fv : FileView) (H : Heap) (fvA : FileView)
    (HA : Heap) : Prop where
  session : Session relCat attrCat s P 0 v H HA
  database : Database s C P v fv H fvA HA
  closed : ∀ nm, ¬IsCatalog nm → v.handle nm = none
  files : ∀ R ∈ C, ∃ fvR HR, IsHeap v R.name fvR HR
  frames : 96 ≤ freeFrames v.numBufs P
  clean : v.Clean
  absent : ∀ nm, unix nm = none → v.file nm = none ∧ ¬v.foreign nm

section Start

variable {unix : FileName → Option UnixFile} {C : List Relation}

/-- The start of a session. -/
theorem StoredDatabase.start (h : StoredDatabase unix C) (dataFile : FileName → Option Bytes)
    (hash : BufHash) : Clean True openCatalogs (Sys.start unix dataFile (fun _ => true) hash)
      fun r s => r.1 = .OK ∧ ∃ P v fv H fvA HA,
        Started unix r.2.1 r.2.2 s C P v fv H fvA HA := by
  obtain ⟨v₀, fv, H, fvA, HA, hdisk₀, hcat, hlists, hnodup, hC⟩ := h
  -- a file that is not there does not matter to anybody else
  let v : View := { v₀ with foreign := fun nm => (unix nm).isSome }
  have hdisk : OnDisk unix 0 v :=
    ⟨fun nm _ hforeign => Option.not_isSome_iff_eq_none.mp hforeign, hdisk₀.stored⟩
  replace hcat : Catalogs v fv H fvA HA := { hcat with
    relcat := { hcat.relcat with }, attrcat := { hcat.attrcat with } }
  have hc := hdisk.start (fun x hx => absurd hx (Multiset.notMem_zero x)) dataFile hash
  have hcat' := hcat.reloaded
  have hframes : freeFrames BUFS 0 = 100 := freeFrames_zero 100
  refine (openCatalogs_spec hc hcat'.relcat hcat'.attrcat fun _ => ?_).mono ?_
  · show 4 ≤ freeFrames BUFS 0
    omega
  rintro ⟨st, relCat, attrCat⟩ s ⟨hst, x, y, xA, yA, hr, hrA, hlater, hc'⟩
  dsimp only at hr hrA hlater hc'
  have hnone : ∀ {f : FilePtr} {c : Int}, c = 1 → ∀ z ∈ (0 : Multiset Pin), z.file ≠ f :=
    fun _ z hz => absurd hz (Multiset.notMem_zero z)
  refine ⟨hst, _, _, fv.reloaded, H, fvA.reloaded, HA,
    ⟨hc', ⟨x, y, xA, yA, hr, hrA, (zero_add _).symm⟩,
    ⟨_, Int.one_pos, ?_, hnone⟩, ⟨_, Int.one_pos, View.handle_setHandle_self, hnone⟩⟩,
    ⟨hc', hcat'.same hlater rfl, hlists, hnodup, fun R hR => (hC R hR).1,
      fun nm => hlater.pos nm nofun⟩, hlater.other, fun R hR => ?_, ?_, View.clean_reloaded v,
    fun nm hnone => ⟨?_, ?_⟩⟩
  · exact (View.handle_setHandle_of_ne attrcat_ne_relcat.symm).trans View.handle_setHandle_self
  · obtain ⟨fvR, HR, hHR⟩ := (hC R hR).2
    have hHR : IsHeap v R.name fvR HR := { hHR with }
    exact ⟨_, HR, hHR.reloaded.same hlater rfl⟩
  · have h₁ := freeFrames_cons BUFS x 0
    have h₂ := freeFrames_cons BUFS y (x ::ₘ 0)
    have h₃ := freeFrames_cons BUFS xA (y ::ₘ x ::ₘ 0)
    have h₄ := freeFrames_cons BUFS yA (xA ::ₘ y ::ₘ x ::ₘ 0)
    show 96 ≤ freeFrames BUFS _
    omega
  · refine Option.map_eq_none_iff.mpr (Option.eq_none_iff_forall_ne_some.mpr fun fw hf => ?_)
    obtain ⟨uf, huf, -⟩ := hdisk.stored nm fw hf
    rw [hnone] at huf
    cases huf
  · show ¬((unix nm).isSome : Prop)
    rw [hnone]
    exact Bool.false_ne_true

/-- What `relcat` is found to hold. -/
theorem StoredDatabase.relTuples (h : StoredDatabase unix C) (dataFile : FileName → Option Bytes)
    (hash : BufHash) : (Sys.start unix dataFile (fun _ => true) hash).relTuples =
      some (C.map Relation.desc : Multiset RelDesc) := by
  obtain ⟨v, fv, H, fvA, HA, hdisk, hcat, hlists, -⟩ := h
  have hc := hdisk.start (fun x hx => absurd hx (Multiset.notMem_zero x)) dataFile hash
  rw [hcat.reloaded.relTuples_eq hc, hlists.rel]

end Start

/-! ## Dropping a relation -/

/-- A session on the files of `unix` that opens the catalogs, destroys the relation and ends. The
local variable of `removeInfo` that has not been given a value happens to be `OK`. -/
inductive DropSession (relation : Bytes) (unix : FileName → Option UnixFile) :
    (FileName → Option UnixFile) → Prop
  | intro {dataFile : FileName → Option Bytes} {hash : BufHash} {relCat attrCat : HeapFile}
      {s₁ s₂ s₃ : Sys} {fuel : Nat} {u : RelCatalog.Unset} {e e' e'' : Bool}
      (hopen : Yields openCatalogs (Sys.start unix dataFile (fun _ => true) hash)
        (.OK, relCat, attrCat) e s₁)
      (hstatus : u.status = .OK)
      (hdestroy : Yields (RelCatalog.destroyRel fuel u relation) s₁ .OK e' s₂)
      (hquit : Yields (UT_Quit relCat attrCat) s₂ () e'' s₃) : DropSession relation unix s₃.unix

/-- Between the two states the relation has gone from the catalogs and no other has; the record
counts of the catalogs are right. -/
structure StaysDropped (relation : Bytes) (s s' : Sys) : Prop where
  rel : s'.relTuples = s.relTuples.map fun rel => rel.filter fun d => d.relName ≠ relation
  attr : s'.attrTuples = s.attrTuples.map fun att => att.filter fun d => d.relName ≠ relation
  counted : ∀ nm H, IsCatalog nm → s'.heap? nm = some H → H.Counted

section Drop

variable {unix unix' : FileName → Option UnixFile} {C : List Relation} {relation : Bytes}
  {H HA : Heap}

/-- A name that is listed once belongs to one tuple. -/
theorem Lists.card_filter_hasName (h : Lists H HA C) (hnodup : (names C).Nodup) :
    (H.rows.filter fun b => hasName relation b = true).card ≤ 1 := by
  have hname : ∀ b, hasName relation b = true ↔ (RelDesc.decode b).relName = relation := fun b =>
    decide_eq_true_iff
  have hcount := congrArg (Multiset.countP fun d => d.relName = relation) h.rel
  rw [Multiset.countP_map, Multiset.coe_countP, List.countP_map] at hcount
  simp only [hname]
  rw [hcount]
  have hone := List.nodup_iff_count_le_one.mp hnodup relation
  unfold names List.count at hone
  rw [List.countP_map] at hone
  refine le_of_eq_of_le (List.countP_congr fun R _ => ?_) hone
  show decide (R.name = relation) = true ↔ (R.name == relation) = true
  rw [decide_eq_true_iff, beq_iff_eq]

/-- Whatever the session does, `relcat` is found again as it was. -/
theorem DropSession.relTuples (h : StoredDatabase unix C) (hcatalog : ¬IsCatalog relation)
    (hmem : relation ∈ names C) (hs : DropSession relation unix unix')
    (dataFile : FileName → Option Bytes) (hash : BufHash) :
    (Sys.start unix' dataFile (fun _ => true) hash).relTuples =
      some (C.map Relation.desc : Multiset RelDesc) := by
  obtain @⟨_, _, relCat, attrCat, s₁, s₂, s₃, fuel, u, _, _, _, hopen, hstatus, hdestroy, hquit⟩ :=
    hs
  obtain ⟨-, -, P, v, fv, H, fvA, HA, hst⟩ := (h.start _ _).of_extends trivial (.refl _) hopen
  obtain ⟨hses, hdb, -, -, hframes, hclean, -⟩ := hst
  dsimp only at hses
  obtain ⟨R, hR, rfl⟩ := List.mem_map.mp hmem
  have hwf := hdb.wf R hR
  -- the tuple of `relcat` is deleted in its frame
  have hcall : Clean True (RelCatalog.destroyRel _ u R.name) s₁ _ :=
    RelCatalog.destroyRel_spec (max fuel (2 * H.rids.length + H.pages.length + 1 +
      (2 * HA.rids.length + HA.pages.length + 1))) hdb.coh hdb.catalogs hwf.isName
      fun _ => ⟨le_trans (by decide) hframes, le_trans (Nat.le_add_right _ _) (le_max_right _ _),
        le_trans (Nat.le_add_left _ _) (le_max_right _ _)⟩
  obtain ⟨-, P', v', ⟨hbad, -⟩ | ⟨-, -, hret, hst, -⟩ | ⟨-, hl, ⟨fv', H', fvA', HA', hcat', hpages,
      hpagesA, -, -, hkept'⟩, -⟩⟩ :=
    hcall.of_extends trivial (RelCatalog.destroyRel_mono (le_max_left _ _) _ _) hdestroy
  · exact absurd hbad (not_or.mpr ⟨hwf.ne_nil, hcatalog⟩)
  · exact absurd hst.symm hret
  -- and the frame is thrown away
  obtain ⟨Q, hses', -⟩ := hses.leaves hl hpages.le hpagesA.le
  obtain ⟨s₄, hy, hdisk⟩ := hses'.quit hcat'
  obtain ⟨-, -, rfl⟩ := hquit.unique hy
  have hc := hdisk.survives dataFile hash
  have hkept₁ : fv'.kept = fv.cur :=
    (hkept' hstatus (hdb.lists.card_filter_hasName hdb.nodup)).trans
      (hclean _ _ hdb.catalogs.relcat.file)
  have hrel : IsHeap v'.surviving RELCATNAME fv'.surviving H :=
    ⟨hcat'.relcat.name, View.file_surviving hcat'.relcat.file,
      hdb.catalogs.relcat.heapAt.surviving hcat'.relcat.heapAt hpages hkept₁,
      hdb.catalogs.relcat.sized,
      nofun⟩
  rw [Sys.relTuples, ← hdb.lists.rel, ← Option.map_some, ← hrel.heap? hc, Option.map_map]
  rfl

/-- A relation that a session destroys is never gone when the database is opened again. -/
theorem not_staysDropped (h : StoredDatabase unix C) (hcatalog : ¬IsCatalog relation)
    (hmem : relation ∈ names C) (hs : DropSession relation unix unix')
    (dataFile dataFile' : FileName → Option Bytes) (hash hash' : BufHash) :
    ¬StaysDropped relation (Sys.start unix dataFile (fun _ => true) hash)
      (Sys.start unix' dataFile' (fun _ => true) hash') := by
  intro hdropped
  have hrel := hdropped.rel
  rw [hs.relTuples h hcatalog hmem, h.relTuples] at hrel
  -- the tuple is still there
  obtain ⟨R, hR, rfl⟩ := List.mem_map.mp hmem
  have hdesc : R.desc ∈ (C.map Relation.desc : Multiset RelDesc) :=
    Multiset.mem_coe.mpr (List.mem_map_of_mem hR)
  rw [Option.some.inj hrel] at hdesc
  exact (Multiset.mem_filter.mp hdesc).2 rfl

/-- Any relation can be destroyed. -/
theorem StoredDatabase.exists_drop (h : StoredDatabase unix C) (hcatalog : ¬IsCatalog relation)
    (hmem : relation ∈ names C) : ∃ unix', DropSession relation unix unix' := by
  have hhash : 0 < BufMgr.htsize BUFS := by decide
  obtain ⟨⟨st, relCat, attrCat⟩, s, hopen, hst, P, v, fv, H, fvA, HA, hses, hdb, hclosed, hfiles,
    hframes, -⟩ := (h.start (fun _ => none) fun _ => ⟨0, hhash⟩).exists trivial
  dsimp only at hst hses
  subst hst
  obtain ⟨R, hR, rfl⟩ := List.mem_map.mp hmem
  have hwf := hdb.wf R hR
  have hcall : Clean True (RelCatalog.destroyRel (2 * H.rids.length + H.pages.length + 1 +
      (2 * HA.rids.length + HA.pages.length + 1)) ⟨.OK, .OK, .OK, .OK⟩ R.name) s _ :=
    RelCatalog.destroyRel_spec _ hdb.coh hdb.catalogs hwf.isName
      fun _ => ⟨le_trans (by decide) hframes, Nat.le_add_right _ _, Nat.le_add_left _ _⟩
  obtain ⟨st, s', hy, P', v', ⟨hbad, -⟩ | ⟨-, -, hret, -⟩ | ⟨-, hl,
    ⟨fv', H', fvA', HA', hcat', hpages,
      hpagesA, -⟩, hfile⟩⟩ := hcall.exists trivial
  · exact absurd hbad (not_or.mpr ⟨hwf.ne_nil, hcatalog⟩)
  · exact absurd rfl hret
  -- the file of the relation is not open
  rw [hclosed R.name hcatalog, if_neg (by decide)] at hfile
  obtain ⟨fvR, HR, hHR⟩ := hfiles R hR
  obtain rfl : st = .OK := hfile.2 (hHR.file ▸ rfl)
  obtain ⟨Q, hses', -⟩ := hses.leaves hl hpages.le hpagesA.le
  obtain ⟨s₃, hquit, -⟩ := hses'.quit hcat'
  exact ⟨s₃.unix, .intro hopen rfl hy hquit⟩

end Drop

/-! ## A database with a relation -/

/-- If nobody has left a page pinned that had been written to, all files are on disk. -/
theorem Session.stored {relCat attrCat : HeapFile} {s : Sys} {P Q : Multiset Pin} {v : View}
    {fv fvA : FileView} {H HA : Heap} {C : List Relation} (h : Session relCat attrCat s P Q v H HA)
    (hdb : Database s C P v fv H fvA HA) (hfiles : ∀ R ∈ C, ∃ fvR HR, IsHeap v R.name fvR HR)
    (hQ : ∀ z ∈ Q, z.wrote = false) :
    ∃ s', Yields (UT_Quit relCat attrCat) s () false s' ∧ StoredDatabase s'.unix C := by
  obtain ⟨s', hy, hdisk⟩ := h.quit hdb.catalogs
  have hclean : OnDisk s'.unix 0 v := ⟨hdisk.absent, fun nm fv hf => by
    obtain ⟨uf, huf, hst, hpages⟩ := hdisk.stored nm fv hf
    refine ⟨uf, huf, hst, fun p hp blk hblk => hpages p hp blk ?_⟩
    exact hblk.imp_right fun hcur => ⟨hcur.1, hQ⟩⟩
  exact ⟨s', hy, v, fv, H, fvA, HA, hclean, hdb.catalogs, hdb.lists, hdb.nodup,
    fun R hR => ⟨hdb.wf R hR, hfiles R hR⟩⟩

/-- A new database is consistent. -/
theorem exists_stored_new :
    ∃ unix, StoredDatabase unix [Relation.relcat, Relation.attrcat] ∧ unix [65] = none := by
  have hhash : 0 < BufMgr.htsize BUFS := by decide
  have hspec : Clean True (dbcreate .zero .zero)
      (Sys.start (fun _ => none) (fun _ => none) (fun _ => true) fun _ => ⟨0, hhash⟩) _ :=
    dbcreate_spec rfl rfl RelDesc.sized_zero AttrDesc.sized_zero
  obtain ⟨st, s, -, -, v, fv, H, fvA, HA, hdisk, hcat, hlists, habsent,
    hforeign⟩ := hspec.exists trivial
  have hnone : s.unix [65] = none := hdisk.absent _ (habsent _ (by decide)) (by
    rw [hforeign]
    exact Bool.false_ne_true)
  refine ⟨s.unix, ⟨v, fv, H, fvA, HA, hdisk, hcat, hlists, by decide, fun R hR => ?_⟩, hnone⟩
  rcases List.mem_cons.mp hR with rfl | hR
  · exact ⟨Relation.wf_relcat, fv, H, hcat.relcat⟩
  · rw [List.mem_singleton.mp hR]
    exact ⟨Relation.wf_attrcat, fvA, HA, hcat.attrcat⟩

/-- The relation of one attribute. -/
def oneRelation : Relation := ⟨[65], [oneAttr]⟩

/-- A relation is added to a new database. Its file is not open, and nothing that has been written
to is still pinned. -/
theorem exists_created_one : ∃ relCat attrCat s P Q v fv H fvA HA fvR p q pg,
    Session relCat attrCat s P Q v H HA ∧
    Database s [oneRelation, Relation.relcat, Relation.attrcat] P v fv H fvA HA ∧
    IsHeap v [65] fvR (.fresh [65] p q pg) ∧ v.handle [65] = none ∧
    (∀ z ∈ Q, z.wrote = false) ∧ 95 ≤ freeFrames v.numBufs P := by
  obtain ⟨unix, h, hnone⟩ := exists_stored_new
  have hhash : 0 < BufMgr.htsize BUFS := by decide
  obtain ⟨⟨st, relCat, attrCat⟩, s, -, -, P, v, fv, H, fvA, HA, hses, hdb, -, hfiles, hframes, -,
    habsent⟩ := (h.start (fun _ => none) fun _ => ⟨0, hhash⟩).exists trivial
  obtain ⟨hfile, hforeign⟩ := habsent [65] hnone
  have hone : ∀ a ∈ [oneAttr], a.Valid := fun a ha => List.mem_singleton.mp ha ▸ oneAttr_valid
  have hcall : Clean True (RelCatalog.createRel (H.rids.length + H.pages.length + 1)
    .zero .zero [65] 1
      [oneAttr]) s _ :=
    RelCatalog.createRel_spec _ hdb.coh hdb.catalogs (by decide) hforeign (hdb.opened [65])
      RelDesc.sized_zero AttrDesc.sized_zero (by decide) hone
      fun _ => ⟨le_trans (by decide) hframes, le_refl _, le_refl _⟩
  obtain ⟨st, s', hy, P', v', ⟨href, -⟩ | ⟨-, hl, hwrote, ⟨fv', H', fvA', HA', hcat',
    hdecl⟩, hfile'⟩⟩ :=
    hcall.exists trivial
  · -- none of the reasons to refuse it
    rcases href with hn | hn | hn | hn
    · cases hn
    · exact absurd hn (by decide)
    · exact absurd hn (by decide)
    · exact absurd (hdb.lists.mem_names.mpr hn) (by decide)
  rw [hfile] at hfile'
  obtain ⟨-, hh, p, q, pg, fvR, hf', hR⟩ := hfile'
  have hdb' : Database s' [oneRelation, Relation.relcat, Relation.attrcat] P' v' fv' H' fvA' HA' :=
    ⟨hl.coh, hcat', hdb.lists.declare hdecl (by decide), by decide, ?_,
      fun nm => hl.later.pos nm (hdb.opened nm)⟩
  swap
  · intro R hmem
    rcases List.mem_cons.mp hmem with rfl | hmem
    · exact ⟨by decide, by decide, by decide, by decide⟩
    · exact hdb.wf R hmem
  obtain ⟨Q, hses', hQ⟩ := hses.leaves hl hdecl.le hdecl.leA
  have hframes' := hl.freeFrames_le
  refine ⟨relCat, attrCat, s', P', Q, v', fv', H', fvA', HA', fvR, p, q, pg, hses', hdb',
    isHeap_fresh (by decide) hf' hR hh, hh, fun z hz => Bool.eq_false_iff.mpr fun hw => ?_,
    by omega⟩
  -- the session has left nothing that had been written to, and `createRel` has not either
  have hz₀ := (hQ z hz).elim id fun hz => hses.mem_of_wrote (hwrote z hz hw) hw
  exact absurd hz₀ (Multiset.notMem_zero z)

/-- A relation can be added to a new database. -/
theorem exists_stored_one :
    ∃ unix, StoredDatabase unix [oneRelation, Relation.relcat, Relation.attrcat] := by
  obtain ⟨relCat, attrCat, s, P, Q, v, fv, H, fvA, HA, fvR, p, q, pg, hses, hdb, hHR, -, hclean,
    -⟩ := exists_created_one
  have hfiles : ∀ R ∈ [oneRelation, Relation.relcat, Relation.attrcat],
      ∃ fvR HR, IsHeap v R.name fvR HR := by
    intro R hmem
    rcases List.mem_cons.mp hmem with rfl | hmem
    · exact ⟨fvR, _, hHR⟩
    rcases List.mem_cons.mp hmem with rfl | hmem
    · exact ⟨fv, H, hdb.catalogs.relcat⟩
    · rw [List.mem_singleton.mp hmem]
      exact ⟨fvA, HA, hdb.catalogs.attrcat⟩
  obtain ⟨s₃, -, hstored⟩ := hses.stored hdb hfiles hclean
  exact ⟨s₃.unix, hstored⟩

/-! ## The defect -/

theorem not_staysDropped_one : ∃ unix unix', StoredDatabase unix
      [oneRelation, Relation.relcat, Relation.attrcat] ∧ DropSession [65] unix unix' ∧
    ∀ dataFile dataFile' hash hash', ¬StaysDropped [65]
      (Sys.start unix dataFile (fun _ => true) hash) (Sys.start unix' dataFile'
        (fun _ => true) hash') := by
  obtain ⟨unix, h⟩ := exists_stored_one
  obtain ⟨unix', hs⟩ : ∃ unix', DropSession [65] unix unix' := h.exists_drop (by decide) (by decide)
  exact ⟨unix, unix', h, hs, not_staysDropped h (by decide) (by decide) hs⟩

/-- A relation is there again when it has been created in one session and destroyed in the next. -/
theorem dropped_comes_back : ∃ unix unix', StoredDatabase unix
      [oneRelation, Relation.relcat, Relation.attrcat] ∧ DropSession [65] unix unix' ∧
    ∀ dataFile hash, (Sys.start unix' dataFile (fun _ => true) hash).Listed [65] ∧
      ¬StaysDropped [65] (Sys.start unix dataFile (fun _ => true) hash)
        (Sys.start unix' dataFile (fun _ => true) hash) := by
  obtain ⟨unix, h⟩ := exists_stored_one
  obtain ⟨unix', hs⟩ : ∃ unix', DropSession [65] unix unix' := h.exists_drop (by decide) (by decide)
  refine ⟨unix, unix', h, hs, fun dataFile hash => ?_⟩
  have hrel := hs.relTuples h (by decide) (by decide) dataFile hash
  refine ⟨⟨_, hrel, by decide⟩, fun hdropped => ?_⟩
  have hgone := hdropped.rel
  rw [hrel, h.relTuples] at hgone
  exact absurd (congrArg Multiset.card (Option.some.inj hgone)) (by decide)

end Minirel
