import Minirel.Catalog.Shutdown
import Minirel.Tables.Joined

/-!
# From one session to the next

`UT_Quit` writes to disk what no function has left pinned. The tables that the next process finds
are those of the commands, but for the relations that have been loaded; once a relation has been
destroyed, the catalogs may be older. (`UT_Quit` ends in `exit`, whose destructors are not part of
the model: that of the table of open files uses the buffer manager that has been deleted.)

## Main definitions

* `StoredTables`: the tables are on disk.
* `InSession`: the state of a session that can be ended.
* `Survives`: what the next process finds.
* `Lifetime`: sessions one after the other.

## Main results

* `survives_of_run`: what is left of a session.
* `visible_of_lifetime`: sessions that load and destroy nothing are a replay of all their commands.
-/

namespace Minirel

open Comp HeapFile

/-- The tables are on disk. The files `unix` do not belong to the database. -/
def StoredTables (unix u : FileName → Option UnixFile) (db : Tables) : Prop :=
  ∃ v fv H fvA HA, (∀ nm, v.handle nm = none) ∧ v.Clean ∧ ∀ dataFile hash,
    Represents unix (Sys.start u dataFile (fun _ => true) hash) db 0 v fv H fvA HA

/-- The state of a session with the catalogs `relCat` and `attrCat`. Under the condition `D` a page
of a catalog may have been written to by somebody who does not give it back. -/
def InSession (unix : FileName → Option UnixFile) (D : Prop) (relCat attrCat : HeapFile) (s : Sys)
    (db : Tables) (v : View) : Prop :=
  ∃ P Q fv H fvA HA, Represents unix s db P v fv H fvA HA ∧ Session relCat attrCat s P Q v H HA ∧
    (¬D → ∀ z ∈ Q, z.wrote = true → ∀ nm c, v.handle nm = some (z.file, c) → ¬IsCatalog nm)

/-- The file has the tuples `ts`, and as many are counted in its header. -/
def Intact (s : Sys) (nm : FileName) (ts : List Bytes) : Prop :=
  ∃ H, s.heap? nm = some H ∧ H.contents = ts ∧ H.Counted

/-- What the next process finds after a session that has led to the tables `db`. Of the files that
have been left open, and under the condition `D` of the catalogs, it may find less. -/
structure Survives (unix : FileName → Option UnixFile) (D : Prop) (db : Tables)
    (s : Sys) : Prop where
  relcat : ¬D → s.relTuples = some (db.relations.map Relation.desc : Multiset RelDesc)
  attrcat : ¬D → s.attrTuples = some (db.relations.flatMap Relation.attrDescs : Multiset AttrDesc)
  absent : ∀ nm, ¬IsCatalog nm → unix nm = none → db.tuples nm = none → s.contents? nm = none
  intact : ∀ nm ts, ¬IsCatalog nm → db.opened nm = false → db.tuples nm = some ts → Intact s nm ts

/-- Sessions that end through `UT_Quit`, each on the files that the one before it has left. They
leave no file open, and destroy no relation. -/
inductive Lifetime (unix u₀ : FileName → Option UnixFile) (db : Tables) :
    List Command → (FileName → Option UnixFile) → Prop
  | start : Lifetime unix u₀ db [] u₀
  | session {commands later : List Command} {u : FileName → Option UnixFile}
      {dataFile : FileName → Option Bytes} {hash : BufHash} {st : Status}
        {relCat attrCat : HeapFile}
      {s₁ s₂ s₃ : Sys} {e e' : Bool} (hlife : Lifetime unix u₀ db commands u)
      (hopen : Yields openCatalogs (Sys.start u dataFile (fun _ => true) hash) (st, relCat,
      attrCat) e s₁)
      (hrun : TableRun unix (db.replay commands) s₁ later s₂)
        (hdrops : ∀ command ∈ later, ¬command.Drops)
      (hclosed : ∀ nm, ¬IsCatalog nm → s₂.openFiles.find nm = none)
      (hquit : Yields (UT_Quit relCat attrCat) s₂ () e' s₃) :
      Lifetime unix u₀ db (later ++ commands) s₃.unix

section Intact

variable {s : Sys} {P : Multiset Pin} {v : View} {nm : FileName} {fv : FileView} {H : Heap}
  {ts : List Bytes}

theorem IsHeap.intact_iff (h : IsHeap v nm fv H) (hc : Coh s P v) :
    Intact s nm ts ↔ H.contents = ts ∧ H.Counted := by
  obtain ⟨H', hH', hsame⟩ := hc.heap? h.file h.heapAt
  have hcontents : H'.contents = H.contents := by
    rw [Heap.contents_eq, Heap.contents_eq, hsame.rids, hsame.rec?]
  have hcounted : H'.Counted ↔ H.Counted := by
    unfold Heap.Counted
    rw [hsame.hdr, hsame.rids]
  rw [← hcontents, ← hcounted]
  constructor
  · rintro ⟨H'', hH'', hts⟩
    rw [hH'] at hH''
    cases hH''
    exact hts
  · exact fun hts => ⟨H', hH', hts⟩

theorem HasTuples.intact (h : HasTuples v nm (some ts)) (hc : Coh s P v) : Intact s nm ts := by
  obtain ⟨fv, H, hH, -, hcounted, rfl⟩ := h
  exact (hH.intact_iff hc).mpr ⟨rfl, hcounted⟩

end Intact

section Session

variable {unix u : FileName → Option UnixFile} {db : Tables} {D : Prop} {relCat attrCat : HeapFile}
  {s s' : Sys} {v : View} {command : Command} {commands : List Command}
  {r : Status × Output} {e : Bool} {nm : FileName}

theorem InSession.wf (h : InSession unix D relCat attrCat s db v) : db.WF := by
  obtain ⟨P, -, fv, H, fvA, HA, h, -⟩ := h
  exact h.wf

theorem InSession.not_foreign (h : InSession unix D relCat attrCat s db v)
    (hunix : unix nm = none) :
    ¬v.foreign nm := by
  obtain ⟨P, -, fv, H, fvA, HA, h, -⟩ := h
  exact h.not_foreign hunix

theorem InSession.realizes (h : InSession unix D relCat attrCat s db v) : Realizes unix s db := by
  obtain ⟨P, -, fv, H, fvA, HA, h, -⟩ := h
  exact ⟨P, v, fv, H, fvA, HA, h⟩

/-! ## The start -/

theorem View.clean_found (lost : FileName → Prop) (v : View) : (v.found lost).Clean :=
  fun nm fv hf => by
  obtain ⟨fv, -, rfl⟩ := Option.map_eq_some_iff.mp hf
  split <;> rfl

/-- What `dbcreate` leaves on disk. -/
theorem storedTables_dbcreate {dataFile : FileName → Option Bytes} {hash : BufHash} {rd : RelDesc}
    {ad : AttrDesc} (hrel : unix RELCATNAME = none) (hattr : unix ATTRCATNAME = none)
    (hrd : rd.Sized) (had : ad.Sized)
    (hcreate : Yields (dbcreate rd ad) (Sys.start unix dataFile (fun _ => true) hash) .OK false s) :
    StoredTables unix s.unix .initial := by
  obtain ⟨-, v, fv, H, fvA, HA, hdisk, hcat, hlists, habsent, hforeign⟩ :=
    (dbcreate_spec (T := False) hrel hattr hrd had).of_yields hcreate
  refine ⟨v.reloaded, fv.reloaded, H, fvA.reloaded, HA, fun _ => rfl, v.clean_reloaded,
    fun dataFile' hash' => ?_⟩
  have hc := hdisk.start (fun x hx => absurd hx (Multiset.notMem_zero x)) dataFile' hash'
  refine ⟨⟨hc, hcat.reloaded, hlists, by decide, ?_, nofun⟩, Tables.wf_initial,
    Tables.valid_initial,
    hforeign, fun nm hnm => ?_, fun _ _ => rfl, rfl, rfl⟩
  · intro R hR
    rcases List.mem_cons.mp hR with rfl | hR
    · exact Relation.wf_relcat
    · rw [List.mem_singleton.mp hR]
      exact Relation.wf_attrcat
  · show (v.file nm).map _ = none
    rw [habsent nm hnm]
    rfl

/-- A session is started. -/
theorem Represents.start {fv fvA : FileView} {H HA : Heap} {dataFile : FileName → Option Bytes}
    {hash : BufHash} (h : Represents unix (Sys.start u dataFile (fun _ => true) hash) db 0
      v fv H fvA HA)
    (hclosed : ∀ nm, v.handle nm = none) :
    Clean True openCatalogs (Sys.start u dataFile (fun _ => true) hash) fun r s =>
      r.1 = .OK ∧ (∃ v', InSession unix False r.2.1 r.2.2 s db v' ∧ v'.file = v.file) ∧
        96 ≤ s.freeFrames := by
  have hc := h.database.coh
  have hframes : freeFrames v.numBufs 0 = 100 := by
    rw [← hc.numBufs]
    exact freeFrames_zero 100
  have hcat := h.database.catalogs
  refine (openCatalogs_spec hc hcat.relcat hcat.attrcat fun _ => ?_).mono ?_
  · omega
  rintro ⟨st, relCat, attrCat⟩ s ⟨hst, x, y, xA, yA, hr, hrA, hlater, hc'⟩
  dsimp only at hst hr hrA hlater hc' ⊢
  have hacc : ∀ v' L, Accounted v v' L := fun v' L nm f c hh => by
    rw [hclosed] at hh
    cases hh
  have hl : Leaves IsCatalog 4 0 v s (yA ::ₘ xA ::ₘ y ::ₘ x ::ₘ 0) _ :=
    ⟨hc', hlater, fun _ _ => rfl, _, (add_zero _).symm, le_rfl, hacc _ _⟩
  have hnone : ∀ {f : FilePtr} {c : Int}, c = 1 → ∀ z ∈ (0 : Multiset Pin), z.file ≠ f :=
    fun _ z hz => absurd hz (Multiset.notMem_zero z)
  have hcnt : ∀ nm, v.openCnt nm = 0 := fun nm => by
    rw [View.openCnt, hclosed]
  refine ⟨hst, ⟨_, ⟨_, 0, fv, H, fvA, HA, h.same hl rfl (h.database.same hl rfl), ⟨hc',
    ⟨x, y, xA, yA, hr, hrA, (zero_add _).symm⟩, ⟨1, Int.one_pos, ?_, hnone⟩,
    ⟨1, Int.one_pos, ?_, hnone⟩⟩,
    fun _ z hz => absurd hz (Multiset.notMem_zero z)⟩, rfl⟩, ?_⟩
  · rw [View.handle_setHandle_of_ne attrcat_ne_relcat.symm, View.handle_setHandle_self,
      hcnt, zero_add]
  · rw [View.handle_setHandle_self, hcnt, zero_add]
  · rw [hc'.freeFrames_eq]
    have := hl.freeFrames_le
    omega

/-- A session is started on the tables. -/
theorem StoredTables.start (h : StoredTables unix u db) (dataFile : FileName → Option Bytes)
    (hash : BufHash) :
    Clean True openCatalogs (Sys.start u dataFile (fun _ => true) hash) fun r s =>
      r.1 = .OK ∧ (∃ v, InSession unix False r.2.1 r.2.2 s db v) ∧ 96 ≤ s.freeFrames := by
  obtain ⟨v, fv, H, fvA, HA, hclosed, -, h⟩ := h
  exact ((h dataFile hash).start hclosed).mono fun r s hr =>
    ⟨hr.1, hr.2.1.imp fun v' h' => h'.1, hr.2.2⟩

/-! ## A call -/

/-- Who has written to a page of a catalog and keeps it is known before. -/
theorem Session.handle_of_catalog {P Q : Multiset Pin} {v v' : View} {H HA : Heap}
    {S : FileName → Prop} (h : Session relCat attrCat s P Q v H HA) (hlater : Later S v v')
    (hnm : IsCatalog nm) {f : FilePtr} {c : Int} (hh : v'.handle nm = some (f, c)) :
    ∃ c, v.handle nm = some (f, c) := by
  have hback : ∀ {g : FilePtr} {k : Int}, v.handle nm = some (g, k) →
    ∃ c, v.handle nm = some (f, c) := by
    intro g k hk
    obtain ⟨k', -, hk'⟩ := hlater.handle nm g k hk
    rw [hk'] at hh
    cases hh
    exact ⟨k, hk⟩
  rcases hnm with rfl | rfl
  · obtain ⟨k, -, hk, -⟩ := h.rel
    exact hback hk
  · obtain ⟨k, -, hk, -⟩ := h.attr
    exact hback hk

/-- A call leaves a session from which others can go on. -/
theorem Session.inSession {P Q P' : Multiset Pin} {v' : View} {fv' fvA' : FileView}
    {H HA H' HA' : Heap} {D' : Prop} {S : FileName → Prop} {k : Nat} {db' : Tables}
    (hses : Session relCat attrCat s P Q v H HA)
    (hwrote : ¬D → ∀ z ∈ Q, z.wrote = true → ∀ nm c, v.handle nm = some (z.file, c) → ¬IsCatalog nm)
    (hl : LeavesCatalogs D' S k P v H HA s' P' v' H' HA')
    (h' : Represents unix s' db' P' v' fv' H' fvA' HA') :
    InSession unix (D ∨ D') relCat attrCat s' db' v' := by
  obtain ⟨Q', hses', hQ'⟩ := hses.leaves hl.toLeaves hl.rel hl.attr
  refine ⟨P', Q', fv', H', fvA', HA', h', hses', fun hD z hz hw nm c hh hnm => ?_⟩
  obtain ⟨hD, hdrops⟩ := not_or.mp hD
  -- it has been one of the pins before
  have hmem : z ∈ Q := by
    rcases hQ' z hz with hz | hz
    · exact hz
    · rcases hl.wrote hdrops z hz hw with hz | hother
      · exact hses.mem_of_wrote hz hw
      · exact absurd hnm (hother nm c hh)
  obtain ⟨c', hh'⟩ := hses.handle_of_catalog hl.later hnm hh
  exact hwrote hD z hmem hw nm c' hh' hnm

/-- A call in a session. -/
theorem InSession.step (h : InSession unix D relCat attrCat s db v) (hfits : db.Fits unix command)
    (hframes : 8 ≤ s.freeFrames ∨ e = false) (hstep : command.Step s r e s') :
    ∃ v', InSession unix (D ∨ command.Drops) relCat attrCat s' (db.apply command) v' ∧
      ∀ nm, ¬IsCatalog nm → nm ≠ command.target → v'.file nm = v.file nm := by
  obtain ⟨P, Q, fv, H, fvA, HA, h, hses, hwrote⟩ := h
  obtain ⟨-, -, P', v', fv', H', fvA', HA', k, hl, -, h'⟩ := h.step hfits hframes hstep
  exact ⟨v', hses.inSession hwrote hl h', fun nm hnm hne => hl.other nm (not_or.mpr ⟨hnm, hne⟩)⟩

theorem InSession.written (h : InSession unix D relCat attrCat s db v)
    (dataFile : FileName → Option Bytes) :
    InSession unix D relCat attrCat { s with dataFile := dataFile } db v := by
  obtain ⟨P, Q, fv, H, fvA, HA, h, hses, hwrote⟩ := h
  have h' := h.written dataFile
  exact ⟨P, Q, fv, H, fvA, HA, h', { hses with coh := h'.database.coh }, hwrote⟩

theorem InSession.imp (h : InSession unix D relCat attrCat s db v) {D' : Prop} (himp : D → D') :
    InSession unix D' relCat attrCat s db v := by
  obtain ⟨P, Q, fv, H, fvA, HA, h, hses, hwrote⟩ := h
  exact ⟨P, Q, fv, H, fvA, HA, h, hses, fun hD => hwrote fun hd => hD (himp hd)⟩

/-- The calls of a session change the files of their relations only. -/
theorem InSession.run {s₀ : Sys} (h : InSession unix D relCat attrCat s₀ db v)
    (hrun : TableRun unix db s₀ commands s) :
    ∃ v', InSession unix (D ∨ ∃ command ∈ commands, command.Drops) relCat attrCat s
      (db.replay commands) v' ∧
      ∀ nm, ¬IsCatalog nm → (∀ command ∈ commands, command.target ≠ nm) →
      v'.file nm = v.file nm := by
  induction hrun with
  | start => exact ⟨v, h.imp Or.inl, fun nm hnm hne => rfl⟩
  | @step commands s s' command r e hrun hfits hframes hstep ih =>
    obtain ⟨v₁, h₁, hsame₁⟩ := ih
    obtain ⟨v₂, h₂, hsame₂⟩ := h₁.step hfits hframes hstep
    refine ⟨v₂, h₂.imp fun hd => ?_, fun nm hnm hne => ?_⟩
    · rw [List.exists_mem_cons_iff]
      tauto
    · obtain ⟨hne, hnes⟩ := List.forall_mem_cons.mp hne
      exact (hsame₂ nm hnm hne.symm).trans (hsame₁ nm hnm hnes)
  | written dataFile hrun ih =>
    obtain ⟨v', h', hsame⟩ := ih
    exact ⟨v', h'.written dataFile, hsame⟩

/-! ## The end -/

/-- The files of which not all may be on disk. -/
def Unsaved (D : Prop) (db : Tables) (nm : FileName) : Prop :=
  (IsCatalog nm → D) ∧ (¬IsCatalog nm → db.opened nm = true)

/-- The session ends, and another process starts. -/
theorem InSession.quit (h : InSession unix D relCat attrCat s db v) :
    ∃ s', Yields (UT_Quit relCat attrCat) s () false s' ∧ ∀ dataFile hash,
      Coh (Sys.start s'.unix dataFile (fun _ => true) hash) 0 (v.found (Unsaved D db)) := by
  obtain ⟨P, Q, fv, H, fvA, HA, h, hses, hwrote⟩ := h
  have hlost : ∀ z ∈ Q, z.wrote = true → ∀ nm c, v.handle nm = some (z.file, c) →
    Unsaved D db nm := by
    refine fun z hz hw nm c hh => ⟨fun hnm => ?_, fun hnm => ?_⟩
    · by_contra hD
      exact hwrote hD z hz hw nm c hh hnm
    · rw [← h.opened nm hnm, hh]
      rfl
  obtain ⟨s', hy, hdisk⟩ := hses.quit_except h.database.catalogs hlost
  exact ⟨s', hy, hdisk.start⟩

/-- The catalogs that the next process finds. -/
theorem InSession.found_catalogs (h : InSession unix D relCat attrCat s db v) (hD : ¬D) :
    ∃ fv H fvA HA, Catalogs (v.found (Unsaved D db)) fv H fvA HA ∧ Lists H HA db.relations := by
  obtain ⟨P, Q, fv, H, fvA, HA, h, -⟩ := h
  have hcat := h.database.catalogs
  have hsaved : ∀ {nm}, IsCatalog nm → ¬Unsaved D db nm := fun hnm hn => hD (hn.1 hnm)
  exact ⟨fv.reloaded, H, fvA.reloaded, HA, ⟨hcat.relcat.found (hsaved (Or.inl rfl)), hcat.relTuples,
    hcat.attrcat.found (hsaved (Or.inr rfl)), hcat.attrTuples⟩, h.database.lists⟩

/-- Another file that the next process finds. -/
theorem InSession.found_tuples (h : InSession unix D relCat attrCat s db v) (hnm : ¬IsCatalog nm)
    (hopened : db.opened nm = false) : HasTuples (v.found (Unsaved D db)) nm (db.tuples nm) := by
  obtain ⟨P, Q, fv, H, fvA, HA, h, -⟩ := h
  have hsaved : ¬Unsaved D db nm := fun hn => by
    rw [hn.2 hnm] at hopened
    cases hopened
  have hown := h.tuples nm hnm
  cases hts : db.tuples nm with
  | none =>
    rw [hts] at hown
    show (v.found _).file nm = none
    rw [View.file_found hsaved, show v.file nm = none from hown]
    rfl
  | some ts =>
    rw [hts] at hown
    obtain ⟨fvR, HR, hR, hts⟩ := hown
    exact ⟨fvR.reloaded, HR, hR.found hsaved, hts⟩

/-- What the next process finds. -/
theorem InSession.survives (h : InSession unix D relCat attrCat s db v)
    (hc : Coh s' 0 (v.found (Unsaved D db))) : Survives unix D db s' where
  relcat hD := by
    obtain ⟨fv, H, fvA, HA, hcat, hlists⟩ := h.found_catalogs hD
    rw [hcat.relTuples_eq hc, hlists.rel]
  attrcat hD := by
    obtain ⟨fv, H, fvA, HA, hcat, hlists⟩ := h.found_catalogs hD
    rw [hcat.attrTuples_eq hc, hlists.attr]
  absent nm hnm hunix hts := by
    have hopened : db.opened nm = false := by
      refine Bool.eq_false_iff.mpr fun hopen => ?_
      have hsome := h.wf.opened nm hopen
      rw [hts] at hsome
      cases hsome
    have hown := h.found_tuples hnm hopened
    rw [← hts]
    exact hown.contents?_eq hc (h.not_foreign hunix)
  intact nm ts hnm hopened hts := by
    have hown := h.found_tuples hnm hopened
    rw [hts] at hown
    exact hown.intact hc

/-- A session that leaves all files closed, and the catalogs as they are in memory. -/
theorem InSession.stored {u : FileName → Option UnixFile}
    (h : InSession unix D relCat attrCat s db v)
    (hc : ∀ dataFile hash, Coh (Sys.start u dataFile (fun _ => true) hash) 0
      (v.found (Unsaved D db)))
    (hD : ¬D) (hopened : ∀ nm, ¬IsCatalog nm → db.opened nm = false) : StoredTables unix u db := by
  obtain ⟨fv, H, fvA, HA, hcat, hlists⟩ := h.found_catalogs hD
  have htuples := fun nm hnm => h.found_tuples hnm (hopened nm hnm)
  obtain ⟨P, Q, fv₀, H₀, fvA₀, HA₀, h, -⟩ := h
  refine ⟨v.found (Unsaved D db), fv, H, fvA, HA, fun _ => rfl, v.clean_found _,
    fun dataFile hash => ?_⟩
  exact ⟨⟨hc dataFile hash, hcat, hlists, h.database.nodup, h.database.wf, nofun⟩, h.wf,
    h.valid, h.foreign,
    htuples, fun nm hnm => (hopened nm hnm).symm, h.relcat, h.attrcat⟩

end Session

/-! ## Whole sessions -/

section Sessions

variable {unix u u₀ : FileName → Option UnixFile} {db : Tables} {dataFile : FileName → Option Bytes}
  {hash : BufHash} {st : Status} {relCat attrCat : HeapFile} {s₁ s₂ s₃ : Sys}
  {commands : List Command} {e e' : Bool}

/-- A database can be made. -/
theorem exists_storedTables : ∃ u, StoredTables (fun _ => none) u .initial := by
  have hhash : 0 < BufMgr.htsize BUFS := by decide
  have hspec : Clean True (dbcreate .zero .zero)
      (Sys.start (fun _ => none) (fun _ => none) (fun _ => true) fun _ => ⟨0, hhash⟩) _ :=
    dbcreate_spec rfl rfl RelDesc.sized_zero AttrDesc.sized_zero
  obtain ⟨st, s, hcreate, rfl, -⟩ := hspec.exists trivial
  exact ⟨s.unix, storedTables_dbcreate rfl rfl RelDesc.sized_zero AttrDesc.sized_zero hcreate⟩

/-- Any commands that fit can be run on it. -/
theorem StoredTables.exists_session (h : StoredTables unix u db) (hfits : db.FitsAll unix commands)
    (hcost : cost commands ≤ 88) : ∃ dataFile hash relCat attrCat s₁ s₂ s₃,
      Yields openCatalogs (Sys.start u dataFile (fun _ => true) hash) (.OK, relCat,
      attrCat) false s₁ ∧
      TableRun unix db s₁ commands s₂ ∧ Yields (UT_Quit relCat attrCat) s₂ () false s₃ := by
  have hhash : 0 < BufMgr.htsize BUFS := by decide
  obtain ⟨⟨st, relCat, attrCat⟩, s₁, hopen, rfl, ⟨v, hs⟩, hframes⟩ :=
    (h.start (fun _ => none) fun _ => ⟨0, hhash⟩).exists trivial
  obtain ⟨s₂, hrun, -⟩ := hs.realizes.exists_run hfits (by omega)
  obtain ⟨v', hs', -⟩ := hs.run hrun
  obtain ⟨s₃, hquit, -⟩ := hs'.quit
  exact ⟨_, _, relCat, attrCat, s₁, s₂, s₃, hopen, hrun, hquit⟩

/-- After a session that has ended through `UT_Quit`, the next process finds the relations, the
catalogs included, as the commands have left them. It may find less of those that have been loaded,
and of the catalogs if a relation has been destroyed. -/
theorem survives_of_run (h : StoredTables unix u db)
    (hopen : Yields openCatalogs (Sys.start u dataFile (fun _ => true) hash)
      (st, relCat, attrCat) e s₁)
    (hrun : TableRun unix db s₁ commands s₂) (hquit : Yields (UT_Quit relCat attrCat) s₂ () e' s₃)
    (dataFile' : FileName → Option Bytes) (hash' : BufHash) : e' = false ∧
      Survives unix (∃ command ∈ commands, command.Drops) (db.replay commands)
        (Sys.start s₃.unix dataFile' (fun _ => true) hash') := by
  obtain ⟨-, -, ⟨v, hs⟩, -⟩ := (h.start dataFile hash).of_extends trivial (.refl _) hopen
  obtain ⟨v', hs', -⟩ := hs.run hrun
  obtain ⟨s', hy, hc⟩ := hs'.quit
  obtain ⟨-, rfl, rfl⟩ := hquit.unique hy
  exact ⟨rfl, by simpa only [false_or] using hs'.survives (hc dataFile' hash')⟩

/-- The result of a join of two relations that have been loaded is there in the next session. -/
theorem survives_of_run_joined : ∃ u dataFile hash relCat attrCat s₁ s₂ s₃,
    StoredTables (fun _ => none) u .initial ∧
    Yields openCatalogs (Sys.start u dataFile (fun _ => true) hash)
    (.OK, relCat, attrCat) false s₁ ∧
    TableRun (fun _ => none) .initial s₁
      (.join .NLJoin [69] [oneAttr, otherAttr] oneAttr .EQ otherAttr :: twoLoads) s₂ ∧
    Yields (UT_Quit relCat attrCat) s₂ () false s₃ ∧ ∀ dataFile' hash',
      Intact (Sys.start s₃.unix dataFile' (fun _ => true) hash') [69] [[97, 0, 0, 0, 97,
      0, 0, 0]] := by
  obtain ⟨u, h⟩ := exists_storedTables
  have hfits : Tables.initial.FitsAll (fun _ => none)
      (.join .NLJoin [69] [oneAttr, otherAttr] oneAttr .EQ otherAttr :: twoLoads) := by
    obtain ⟨s₀, s, h₀, hrun, -⟩ := exists_twoLoads
    exact ⟨fitsAll_twoLoads, (hrun.realizes h₀.realizes).fitsJoin .NLJoin joinable_twoLoads,
      trivial⟩
  obtain ⟨dataFile, hash, relCat, attrCat, s₁, s₂, s₃, hopen, hrun, hquit⟩ :=
    h.exists_session hfits (by decide)
  refine ⟨u, dataFile, hash, relCat, attrCat, s₁, s₂, s₃, h, hopen, hrun, hquit,
    fun dataFile' hash' => ?_⟩
  obtain ⟨-, hsurvives⟩ := survives_of_run h hopen hrun hquit dataFile' hash'
  exact hsurvives.intact [69] _ (by decide) (by decide) (by decide)

/-- Each session of a lifetime leaves the tables on disk. -/
theorem StoredTables.lifetime (h : StoredTables unix u₀ db)
    (hlife : Lifetime unix u₀ db commands u) :
    StoredTables unix u (db.replay commands) := by
  induction hlife with
  | start => exact h
  | @session commands later u dataFile hash st relCat attrCat s₁ s₂ s₃ e e' hlife hopen hrun
      hdrops hclosed
      hquit ih =>
    obtain ⟨-, -, ⟨v, hs⟩, -⟩ := (ih.start dataFile hash).of_extends trivial (.refl _) hopen
    obtain ⟨v', hs', -⟩ := hs.run hrun
    obtain ⟨s', hy, hc⟩ := hs'.quit
    obtain ⟨-, -, rfl⟩ := hquit.unique hy
    rw [Tables.replay_append]
    refine hs'.stored hc (not_or.mpr ⟨not_false, fun ⟨command, hmem, hn⟩ => hdrops command hmem hn⟩)
      fun nm hnm => ?_
    rw [← hs'.realizes.visible.opened nm hnm, hclosed nm hnm]
    rfl

/-- Sessions that leave no file open and destroy no relation are a replay of all their commands. -/
theorem visible_of_lifetime (h : StoredTables unix u₀ db) (hlife : Lifetime unix u₀ db commands u)
    (dataFile : FileName → Option Bytes) (hash : BufHash) :
    Visible unix (Sys.start u dataFile (fun _ => true) hash) (db.replay commands) := by
  obtain ⟨v, fv, H, fvA, HA, -, -, hdb⟩ := h.lifetime hlife
  exact Realizes.visible ⟨0, v, fv, H, fvA, HA, hdb dataFile hash⟩

/-- Another session. -/
theorem StoredTables.exists_lifetime (h : StoredTables unix u₀ db)
    (hlife : Lifetime unix u₀ db commands u) (later : List Command)
    (hfits : (db.replay commands).FitsAll unix later) (hcost : cost later ≤ 88)
    (hdrops : ∀ command ∈ later, ¬command.Drops)
    (hclosed : ∀ nm, ((db.replay commands).replay later).opened nm = false) :
    ∃ u', Lifetime unix u₀ db (later ++ commands) u' := by
  have hu := h.lifetime hlife
  obtain ⟨dataFile, hash, relCat, attrCat, s₁, s₂, s₃, hopen, hrun, hquit⟩ :=
    hu.exists_session hfits hcost
  obtain ⟨-, -, ⟨v, hs⟩, -⟩ := (hu.start dataFile hash).of_extends trivial (.refl _) hopen
  refine ⟨s₃.unix, hlife.session hopen hrun hdrops (fun nm hnm => ?_) hquit⟩
  have hopened := (hrun.realizes hs.realizes).visible.opened nm hnm
  rw [hclosed] at hopened
  exact Option.not_isSome_iff_eq_none.mp (by rw [hopened]; exact Bool.false_ne_true)

theorem Command.not_drops_createRel {relation : Bytes} {attrCnt : Int} {attrList : List AttrInfo} :
    ∀ command ∈ [Command.createRel relation attrCnt attrList], ¬command.Drops :=
  fun command hmem hn => by
  rw [List.mem_singleton.mp hmem] at hn
  exact hn

/-- Two relations are created, each in a session of its own. -/
theorem visible_of_lifetime_two : ∃ u₀ u, StoredTables (fun _ => none) u₀ .initial ∧
    Lifetime (fun _ => none) u₀ .initial [.createRel [67] 1 [otherAttr],
    .createRel [65] 1 [oneAttr]] u ∧
    ∀ dataFile hash, Visible (fun _ => none) (Sys.start u dataFile (fun _ => true) hash)
      (Tables.initial.replay [.createRel [67] 1 [otherAttr], .createRel [65] 1 [oneAttr]]) := by
  obtain ⟨⟨⟨⟨⟨-, hfits, -⟩, hfits', -⟩, -⟩, -⟩, -⟩ := fitsAll_twoLoads
  obtain ⟨u₀, h⟩ := exists_storedTables
  obtain ⟨u₁, hlife₁⟩ := h.exists_lifetime .start [.createRel [65] 1 [oneAttr]]
    ⟨trivial, hfits, trivial⟩ (by decide) Command.not_drops_createRel fun _ => rfl
  obtain ⟨u₂, hlife₂⟩ := h.exists_lifetime hlife₁ [.createRel [67] 1 [otherAttr]]
    ⟨trivial, hfits', trivial⟩ (by decide) Command.not_drops_createRel fun _ => rfl
  exact ⟨u₀, u₂, h, hlife₂, visible_of_lifetime h hlife₂⟩

end Sessions

end Minirel
