import Minirel.Catalog.Atomic
import Minirel.Catalog.Removal
import Minirel.Tables

/-!
# The tables of a state

A state of the system represents tables: the catalogs list the relations, the heap files have the
tuples in the order of a scan, and a file is open if it has been left open.

## Main definitions

* `HasTuples`: what there is of a file.
* `Represents`: the state represents the tables.

## Main results

* `Represents.createRel`, `Represents.destroyRel`, `Represents.load`: the calls of the catalog do
  what the commands say.
-/

namespace Minirel

open Comp HeapFile

/-- There is no such file, or it is a heap file with these tuples: its header counts them, and new
ones will be behind them. -/
def HasTuples (v : View) (nm : FileName) : Option (List Bytes) → Prop
  | none => v.file nm = none
  | some ts => ∃ fv H, IsHeap v nm fv H ∧ H.Packed ∧ H.Counted ∧ H.contents = ts

/-- The state represents the tables. The Unix files `unix` were there before the session. -/
structure Represents (unix : FileName → Option UnixFile) (s : Sys) (db : Tables) (P : Multiset Pin)
    (v : View) (fv : FileView) (H : Heap) (fvA : FileView) (HA : Heap) : Prop where
  database : Database s db.relations P v fv H fvA HA
  wf : db.WF
  valid : ∀ R ∈ db.relations, ∀ a ∈ R.attrs, a.Valid
  foreign : v.foreign = fun nm => ((unix nm).isSome : Prop)
  tuples : ∀ nm, ¬IsCatalog nm → HasTuples v nm (db.tuples nm)
  opened : ∀ nm, ¬IsCatalog nm → (v.handle nm).isSome = db.opened nm
  relcat : db.relation? RELCATNAME = some .relcat
  attrcat : db.relation? ATTRCATNAME = some .attrcat

/-- The state represents the tables. -/
def Realizes (unix : FileName → Option UnixFile) (s : Sys) (db : Tables) : Prop :=
  ∃ P v fv H fvA HA, Represents unix s db P v fv H fvA HA

/-- The state `s'` represents the tables `db` after a call that has changed no file beside the
catalogs and `target`. Under the condition `T` it has left `n` frames at most with pins; `D` says
that it may have left a page of a catalog pinned that it has written to. -/
def Follows (unix : FileName → Option UnixFile) (T D : Prop) (target : FileName) (n : Nat)
    (P : Multiset Pin) (v : View) (H HA : Heap) (s' : Sys) (db : Tables) : Prop :=
  ∃ P' v' fv' H' fvA' HA' k, LeavesCatalogs D (fun nm => IsCatalog nm ∨ nm = target) k P v H HA s'
    P' v' H' HA' ∧
    (T → freeFrames v.numBufs P ≤ freeFrames v'.numBufs P' + n) ∧
    Represents unix s' db P' v' fv' H' fvA' HA'

section HasTuples

variable {s s' : Sys} {P P' : Multiset Pin} {v v' : View} {nm : FileName} {o : Option (List Bytes)}
  {S : FileName → Prop} {k : Nat} {fv : FileView} {H : Heap}

/-- Files are opened, and this one is not changed. -/
theorem HasTuples.same (h : HasTuples v nm o) (hlater : Later S v v')
    (hfile : v'.file nm = v.file nm) :
    HasTuples v' nm o := by
  cases o with
  | none => exact hfile.trans h
  | some ts =>
    obtain ⟨fv, H, hH, hts⟩ := h
    exact ⟨fv, H, hH.same hlater hfile, hts⟩

theorem HasTuples.isSome (h : HasTuples v nm o) : (v.file nm).isSome = o.isSome := by
  cases o with
  | none => exact congrArg Option.isSome h
  | some ts =>
    obtain ⟨fv, H, hH, -⟩ := h
    rw [hH.file]
    rfl

/-- What a scan of the file would read. -/
theorem HasTuples.contents? {ts : List Bytes} (h : HasTuples v nm (some ts)) (hc : Coh s P v) :
    s.contents? nm = some ts := by
  obtain ⟨fv, H, hH, -, -, rfl⟩ := h
  exact hH.contents? hc

theorem HasTuples.contents?_eq (h : HasTuples v nm o) (hc : Coh s P v) (hforeign : ¬v.foreign nm) :
    s.contents? nm = o := by
  cases o with
  | none =>
    rw [Sys.contents?, Sys.heap?, hc.absent nm h hforeign]
    rfl
  | some ts => exact h.contents? hc

theorem HeapAt.length_contents (h : HeapAt fv H) : H.contents.length = H.rids.length := by
  rw [Heap.contents_eq, List.filterMap_length_eq_length]
  exact fun r hr => Option.isSome_iff_ne_none.mpr (h.mem_rids.mp hr)

/-- A file without records. -/
theorem Heap.packed_of_rids (hH : HeapAt fv H) (h : H.rids = []) : H.Packed ∧ H.contents = [] := by
  refine ⟨Page.packed_of_empty fun j => ?_, by rw [Heap.contents_eq, h]; rfl⟩
  by_contra hne
  have hrec : H.rec? ⟨H.hdr.lastPage, j⟩ ≠ none := by
    rwa [HeapAt.rec?_of_mem hH.last_mem]
  have hmem := hH.mem_rids.mpr hrec
  rw [h] at hmem
  exact List.not_mem_nil hmem

end HasTuples

/-- A call after which the state represents tables. -/
theorem LeavesCatalogs.follows {unix : FileName → Option UnixFile} {T D : Prop}
    {S : FileName → Prop} {target : FileName} {k n : Nat} {P P' : Multiset Pin} {v v' : View}
    {H HA H' HA' : Heap} {s : Sys} {db : Tables} (hl : LeavesCatalogs D S k P v H HA s P' v' H' HA')
    (hS : ∀ nm, S nm → IsCatalog nm ∨ nm = target) (fv fvA : FileView) (hk : k ≤ n)
    (h : Represents unix s db P' v' fv H' fvA HA') :
    Follows unix T D target n P v H HA s db :=
  ⟨P', v', fv, H', fvA, HA', k, hl.mono hS le_rfl,
    fun _ => hl.freeFrames_le.trans (Nat.add_le_add_left hk _), h⟩

namespace Represents

variable {unix : FileName → Option UnixFile} {T : Prop} {s s' : Sys} {db : Tables}
  {P P' : Multiset Pin} {v v' : View} {fv fvA fv' fvA' : FileView} {H HA H' HA' : Heap}
  {relation fileName nm : Bytes} {k : Nat}

theorem ne_nil (h : Represents unix s db P v fv H fvA HA) (hmem : relation ∈ names db.relations) :
    relation ≠ [] := by
  obtain ⟨R, hR, rfl⟩ := List.mem_map.mp hmem
  exact (h.database.wf R hR).ne_nil

theorem not_foreign (h : Represents unix s db P v fv H fvA HA) (hunix : unix nm = none) :
    ¬v.foreign nm := by
  rw [h.foreign]
  dsimp only
  rw [hunix]
  exact Bool.false_ne_true

/-- Only the catalogs have been opened. -/
theorem same (h : Represents unix s db P v fv H fvA HA) (hl : Leaves IsCatalog k P v s' P' v')
    (hfile : v'.file = v.file) (hd : Database s' db.relations P' v' fv' H' fvA' HA') :
    Represents unix s' db P' v' fv' H' fvA' HA' where
  database := hd
  wf := h.wf
  valid := h.valid
  foreign := hl.later.foreign.trans h.foreign
  tuples nm hnm := (h.tuples nm hnm).same hl.later (congrFun hfile nm)
  opened nm hnm := by
    rw [hl.later.other nm hnm]
    exact h.opened nm hnm
  relcat := h.relcat
  attrcat := h.attrcat

/-- Beside the catalogs only one file has been changed. -/
theorem changed (h : Represents unix s db P v fv H fvA HA) (command : Command)
    (hl : Leaves (fun nm => IsCatalog nm ∨ nm = command.target) k P v s' P' v')
    (hd : Database s' (db.apply command).relations P' v' fv' H' fvA' HA')
    (hvalid : ∀ R ∈ (db.apply command).relations, ∀ a ∈ R.attrs, a.Valid)
    (htuples : ¬IsCatalog command.target →
      HasTuples v' command.target ((db.apply command).tuples command.target))
    (hopened : ¬IsCatalog command.target →
      (v'.handle command.target).isSome = (db.apply command).opened command.target) :
    Represents unix s' (db.apply command) P' v' fv' H' fvA' HA' where
  database := hd
  wf := h.wf.apply command
  valid := hvalid
  foreign := hl.later.foreign.trans h.foreign
  tuples nm hnm := by
    by_cases hne : nm = command.target
    · exact hne ▸ htuples (hne ▸ hnm)
    · rw [Tables.tuples_apply_of_ne hne]
      exact (h.tuples nm hnm).same hl.later (hl.other nm fun hn => hn.elim hnm hne)
  opened nm hnm := by
    by_cases hne : nm = command.target
    · exact hne ▸ hopened (hne ▸ hnm)
    · rw [Tables.opened_apply_of_ne hne, hl.later.other nm fun hn => hn.elim hnm hne]
      exact h.opened nm hnm
  relcat := (h.wf.relation?_apply (Or.inl rfl) command).trans h.relcat
  attrcat := (h.wf.relation?_apply (Or.inr rfl) command).trans h.attrcat

/-- `createRel` with the memory and the strings of C, for a relation that is not the name of another
Unix file. -/
theorem createRel (h : Represents unix s db P v fv H fvA HA) (fuel : Nat) {rd : RelDesc}
    {ad : AttrDesc} {attrCnt : Int} {attrList : List AttrInfo} (hname : (0 : UInt8) ∉ relation)
    (hunix : unix relation = none) (hrd : rd.Sized) (had : ad.Sized) (hcnt : IsInt attrCnt)
    (hattrs : ∀ a ∈ attrList, a.Valid ∧ a.relName = relation)
    (hT : T → 4 ≤ freeFrames v.numBufs P ∧ H.rids.length + H.pages.length + 1 ≤ fuel ∧
      attrCnt.toNat ≤ attrList.length) :
    Clean T (RelCatalog.createRel fuel rd ad relation attrCnt attrList) s fun st s' =>
      db.CreateReturns relation attrCnt st ∧
        Follows unix T False relation 1 P v H HA s' (db.createRel relation attrCnt attrList) := by
  have hforeign := h.not_foreign hunix
  refine (h.database.createRel fuel hname hforeign hrd had hcnt hattrs hT).mono ?_
  rintro st s' ⟨P', v', fv', H', fvA', HA', ⟨href, hst, hst', hl, hfile, hd⟩ | ⟨hacc,
    hl, hd, hfile⟩⟩
  · refine ⟨?_, hl.follows (fun _ => Or.inl) fv' fvA' le_rfl ?_⟩
    · unfold Tables.CreateReturns
      rw [if_pos href]
      exact ⟨hst, hst'⟩
    · unfold Tables.createRel
      rw [if_pos href]
      exact h.same hl.toLeaves hfile hd
  have hcatalog : ¬IsCatalog relation := fun hn => hacc (h.wf.refuses hn)
  have happ : db.createRel relation attrCnt attrList =
      { db with
        relations := ⟨relation, attrList.take attrCnt.toNat⟩ :: db.relations
        tuples := Function.update db.tuples relation (some ((db.tuples relation).getD [])) } := by
    unfold Tables.createRel
    rw [if_neg hacc]
  have hown := h.tuples relation hcatalog
  have hopened := h.opened relation hcatalog
  refine ⟨?_, hl.follows (fun _ => id) fv' fvA' le_rfl
    (h.changed (.createRel relation attrCnt attrList) hl.toLeaves ?_ ?_ (fun _ => ?_) fun _ => ?_)⟩
  · unfold Tables.CreateReturns
    rw [if_neg hacc, ← hown.isSome]
    cases hf : v.file relation with
    | none =>
      rw [hf] at hfile
      exact hfile.1
    | some fvR =>
      rw [hf] at hfile
      exact hfile.1
  · show Database s' (db.createRel relation attrCnt attrList).relations P' v' fv' H' fvA' HA'
    rw [happ]
    exact hd
  · show ∀ R ∈ (db.createRel relation attrCnt attrList).relations, _
    rw [happ]
    intro R hR
    rcases List.mem_cons.mp hR with rfl | hR
    · exact fun a ha => (hattrs a (List.mem_of_mem_take ha)).1
    · exact h.valid R hR
  · show HasTuples v' relation ((db.createRel relation attrCnt attrList).tuples relation)
    rw [happ]
    dsimp only
    rw [Function.update_self]
    cases hts : db.tuples relation with
    | none =>
      -- there is a new heap file
      rw [hts] at hown
      rw [show v.file relation = none from hown] at hfile
      obtain ⟨-, -, fvR, HR, hR, hrids, hcounted⟩ := hfile
      obtain ⟨hpacked, hcontents⟩ := Heap.packed_of_rids hR.heapAt hrids
      exact ⟨fvR, HR, hR, hpacked, hcounted, hcontents⟩
    | some ts =>
      have hsome := hown.isSome
      rw [hts] at hown hsome
      obtain ⟨fvR, hfvR⟩ := Option.isSome_iff_exists.mp hsome
      rw [hfvR] at hfile
      exact hown.same hl.later ((hfile.2 hcatalog).trans hfvR.symm)
  · show (v'.handle relation).isSome = (db.createRel relation attrCnt attrList).opened relation
    rw [happ]
    dsimp only
    cases hts : db.tuples relation with
    | none =>
      rw [hts] at hown
      have hnone : v.file relation = none := hown
      rw [hnone] at hfile
      rw [← hopened, hfile.2.1, h.database.coh.handle_eq_none hnone]
    | some ts =>
      -- a file that is not listed has been left open
      have hopen : db.opened relation = true := by
        refine (h.wf.unlisted relation (by rw [hts]; rfl)).resolve_left fun hmem => ?_
        exact hacc (Or.inr (Or.inr (Or.inr hmem)))
      rw [hopen] at hopened
      obtain ⟨⟨f, c⟩, hh⟩ := Option.isSome_iff_exists.mp hopened
      obtain ⟨c', -, hh'⟩ := hl.later.handle relation f c hh
      rw [hh', hopen]
      rfl

/-- `destroyRel`. -/
theorem destroyRel (h : Represents unix s db P v fv H fvA HA) (fuel : Nat) {u : RelCatalog.Unset}
    (hname : IsName relation)
    (hT : T → 5 ≤ freeFrames v.numBufs P ∧ 2 * H.rids.length + H.pages.length + 1 ≤ fuel ∧
      2 * HA.rids.length + HA.pages.length + 1 ≤ fuel) :
    Clean T (RelCatalog.destroyRel fuel u relation) s fun st s' =>
      (IsCatalog relation → st ≠ .OK) ∧ (relation ∈ names db.relations → ¬IsCatalog relation →
        st = if db.opened relation then .FILEOPEN else .OK) ∧
      Follows unix T (¬IsCatalog relation) relation 4 P v H HA s' (db.destroyRel relation) := by
  refine (h.database.destroyRel fuel hname hT).mono ?_
  rintro st s' ⟨P', v', fv', H', fvA', HA', ⟨href, hst, hl, hfile, hd⟩ | ⟨hacc, hl, hd, hfile⟩⟩
  · -- the call has been refused
    have happ : db.destroyRel relation = db := by
      by_cases hmem : relation ∈ names db.relations
      · unfold Tables.destroyRel
        rw [if_pos ((href.resolve_left (h.ne_nil hmem)).resolve_right fun hn => hn hmem)]
      · exact h.wf.destroyRel_of_not_mem hmem
    refine ⟨fun _ => hst, fun hmem hcatalog => ?_,
      hl.follows (fun _ => Or.inl) fv' fvA' (by decide) ?_⟩
    · rcases href with hn | hn | hn
      · exact absurd hn (h.ne_nil hmem)
      · exact absurd hn hcatalog
      · exact absurd hmem hn
    · rw [happ]
      exact h.same hl.toLeaves hfile hd
  have hcatalog : ¬IsCatalog relation := fun hn => hacc (Or.inr hn)
  have hown := h.tuples relation hcatalog
  have hopened := h.opened relation hcatalog
  have happ : db.destroyRel relation =
      { db with
        relations := db.relations.filter fun R => R.name ≠ relation
        tuples := if db.opened relation then db.tuples
          else Function.update db.tuples relation none } := by
    unfold Tables.destroyRel
    rw [if_neg hcatalog]
  refine ⟨fun hn => absurd hn hcatalog, fun hmem _ => ?_, hl.follows (fun _ => id) fv' fvA' le_rfl
    (h.changed (.destroyRel relation) hl.toLeaves ?_ ?_ (fun _ => ?_) fun _ => ?_)⟩
  · rw [hopened] at hfile
    split at hfile
    next hopen => rw [if_pos hopen, hfile.1]
    next hopen =>
      rw [if_neg hopen]
      refine hfile.2 ?_
      rw [hown.isSome]
      exact h.wf.listed relation hmem hcatalog
  · show Database s' (db.destroyRel relation).relations P' v' fv' H' fvA' HA'
    rw [happ]
    exact hd
  · show ∀ R ∈ (db.destroyRel relation).relations, _
    rw [happ]
    exact fun R hR => h.valid R (List.mem_of_mem_filter hR)
  · show HasTuples v' relation ((db.destroyRel relation).tuples relation)
    rw [happ]
    dsimp only
    rw [hopened] at hfile
    split at hfile
    next hopen =>
      rw [if_pos hopen]
      exact hown.same hl.later hfile.2
    next hopen =>
      rw [if_neg hopen, Function.update_self]
      exact hfile.1
  · show (v'.handle relation).isSome = (db.destroyRel relation).opened relation
    rw [happ]
    dsimp only
    rw [hopened] at hfile
    split at hfile
    next hopen =>
      rw [hopen] at hopened
      obtain ⟨⟨f, c⟩, hh⟩ := Option.isSome_iff_exists.mp hopened
      obtain ⟨c', -, hh'⟩ := hl.later.handle relation f c hh
      rw [hh', hopen]
      rfl
    next hopen =>
      rw [hl.coh.handle_eq_none hfile.1, Bool.eq_false_iff.mpr hopen]
      rfl

/-- `UT_Load` of a relation that it accepts. -/
theorem load_accepted {F : Prop} (h : Represents unix s db P v fv H fvA HA) (fuel : Nat)
    {rd junk : RelDesc} {junkAttr : AttrDesc} {R : Relation} {bytes : Bytes} {ts : List Bytes}
    {fvR : FileView} {HR : Heap}
    (hacc : db.accepts relation fileName (s.dataFile fileName) = some (R, bytes))
    (hts : db.tuples relation = some ts) (hHR : IsHeap v relation fvR HR)
    (hheap : HR.Packed ∧ HR.Counted ∧ HR.contents = ts) (hrd : rd.Sized) (hjunk : junk.Sized)
    (hF : F → 7 ≤ freeFrames v.numBufs P ∧ H.rids.length + H.pages.length + 1 ≤ fuel ∧
      2 * HA.rids.length + HA.pages.length + 1 ≤ fuel ∧ bytes.length < fuel) (hT :
      T → F ∧ 1 ≤ R.width) :
    Runs T (UT_Load fuel rd junk junkAttr relation fileName) s fun st e s' => (F → e = false) ∧
      (e = false → st = loadedStatus R.width bytes ∧ ∃ P' v' fvR' HR' o,
        LeavesCatalogs False (fun nm => IsCatalog nm ∨ nm = relation) 6 P v H HA s' P' v' H HA ∧
        Represents unix s' (db.load relation fileName (s.dataFile fileName)) P' v' fv H fvA HA ∧
        IsHeap v' relation fvR' HR' ∧ Loaded R.width bytes o fvR fvR' HR HR') := by
  obtain ⟨hfileName, hcatalog, hR, rfl, hdata⟩ := Tables.accepts_eq_some hacc
  obtain ⟨hpacked, hcounted, rfl⟩ := hheap
  have happ := Tables.load_of_accepts hacc
  refine (h.database.load (F := F) hR hcatalog hHR fuel hfileName hdata hrd hjunk hF hT).mono ?_
  rintro st e s' ⟨hflag, hpost⟩
  refine ⟨hflag, fun he => ?_⟩
  obtain ⟨P', v', fvR', HR', o, -, hl, hfiles, hHR', hopen, hloaded, rfl⟩ := hpost he
  have hcat := h.database.catalogs.of_other hcatalog hl.later hfiles
  have hd : Database s' db.relations P' v' fv H fvA HA := ⟨hl.coh, hcat, h.database.lists,
    h.database.nodup, h.database.wf, fun nm => hl.later.pos nm (h.database.opened nm)⟩
  refine ⟨?_, P', v', fvR', HR', o, hl, ?_, hHR', hloaded⟩
  · have hrows := hloaded.rows
    unfold loadedStatus Relation.width
    split at hrows
    next hfits => rw [if_pos hfits, hrows.1, Option.getD_none]
    next hfits => rw [if_neg hfits, hrows.1, Option.getD_some]
  refine h.changed (.load R.name fileName (s.dataFile fileName)) hl.toLeaves ?_ ?_
    (fun _ => ?_) fun _ => ?_
  · show Database s' (db.load R.name fileName (s.dataFile fileName)).relations P' v' fv H fvA HA
    rw [happ]
    exact hd
  · show ∀ R' ∈ (db.load R.name fileName (s.dataFile fileName)).relations, _
    rw [happ]
    exact h.valid
  · show HasTuples v' R.name ((db.load R.name fileName (s.dataFile fileName)).tuples R.name)
    rw [happ]
    dsimp only
    rw [Tables.tuples_append_self, hts]
    exact ⟨fvR', HR', hHR', (hloaded.grows.ordered hpacked).1, hloaded.counted hcounted,
      hloaded.contents hpacked⟩
  · show (v'.handle R.name).isSome = (db.load R.name fileName (s.dataFile fileName)).opened R.name
    rw [happ]
    dsimp only
    rw [Function.update_self]
    exact hopen

/-- `UT_Load`. With tuples of no length it does not return. -/
theorem load {F : Prop} (h : Represents unix s db P v fv H fvA HA) (fuel : Nat) {rd junk : RelDesc}
    {junkAttr : AttrDesc} (hname : IsName relation) (hrd : rd.Sized) (hjunk : junk.Sized)
    (hF : F → 7 ≤ freeFrames v.numBufs P ∧ H.rids.length + H.pages.length + 1 ≤ fuel ∧
      2 * HA.rids.length + HA.pages.length + 1 ≤ fuel ∧
      ∀ bytes, s.dataFile fileName = some bytes → bytes.length < fuel)
    (hT : T → F ∧ ∀ R bytes, db.accepts relation fileName (s.dataFile fileName) = some (R, bytes) →
      1 ≤ R.width) :
    Runs T (UT_Load fuel rd junk junkAttr relation fileName) s fun st e s' => (F → e = false) ∧
      (e = false → db.LoadReturns relation fileName (s.dataFile fileName) st ∧
        Follows unix F False relation 6 P v H HA s' (db.load relation fileName
          (s.dataFile fileName))) := by
  cases hacc : db.accepts relation fileName (s.dataFile fileName) with
  | none =>
    have href := Tables.accepts_eq_none hacc
    have hcall : Clean F (UT_Load fuel rd junk junkAttr relation fileName) s _ :=
      h.database.load_refused fuel hname hrd (Or.inr href) fun hf => by
        obtain ⟨h₁, h₂, -⟩ := hF hf
        exact ⟨by omega, h₂⟩
    refine Runs.mono ⟨hcall.1, fun ht => hcall.2 (hT ht).1⟩ ?_
    rintro st e s' ⟨hflag, hpost⟩
    refine ⟨hflag, fun he => ?_⟩
    obtain ⟨hst, P', v', hread⟩ := hpost he
    have happ : db.load relation fileName (s.dataFile fileName) = db := by
      unfold Tables.load
      rw [hacc]
    refine ⟨Tables.loadReturns_of_none hacc hst,
      hread.leavesCatalogs.follows (fun _ => Or.inl) fv fvA (by decide) ?_⟩
    rw [happ]
    exact h.same hread.leaves hread.file (h.database.same hread.leaves hread.file)
  | some p =>
    obtain ⟨R, bytes⟩ := p
    obtain ⟨-, hcatalog, hR, rfl, hdata⟩ := Tables.accepts_eq_some hacc
    obtain ⟨ts, hts⟩ :=
      Option.isSome_iff_exists.mp (h.wf.listed R.name (List.mem_map_of_mem hR) hcatalog)
    have hown := h.tuples R.name hcatalog
    rw [hts] at hown
    obtain ⟨fvR, HR, hHR, hheap⟩ := hown
    refine (h.load_accepted (F := F) fuel hacc hts hHR hheap hrd hjunk (fun hf => ?_)
      fun ht => ⟨(hT ht).1, (hT ht).2 R bytes hacc⟩).mono ?_
    · obtain ⟨h₁, h₂, h₃, h₄⟩ := hF hf
      exact ⟨h₁, h₂, h₃, h₄ bytes hdata⟩
    rintro st e s' ⟨hflag, hpost⟩
    refine ⟨hflag, fun he => ?_⟩
    obtain ⟨hst, P', v', fvR', HR', o, hl, h', -⟩ := hpost he
    exact ⟨Tables.loadReturns_of_some hacc hst, hl.follows (fun _ => id) fv fvA le_rfl h'⟩

end Represents

end Minirel
