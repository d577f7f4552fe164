import Minirel.Catalog.Load
import Minirel.Join.Methods

/-!
# Relations as their users see them

The catalogs list relations, and the heap file of a relation has its tuples, in the order in which a
scan finds them. `UT_Load` leaves the heap file open. A file that is open is not removed by
`destroyRel`, and a relation that is created later under its name has the old tuples.

## Main definitions

* `Tables`: the relations, the tuples of each heap file, and which files have been left open.
* `Tables.apply`: what a command changes.
* `Tables.replay`: what a list of commands leads to.

## Main results

* `Tables.WF.apply`: the relations that are listed are those with tuples, but for files left open.
* `Tables.tuples_apply_of_ne`: a command changes the tuples of one relation only.
* `WF.opened_replay`: the tuples of a file that has been left open stay its first ones.
-/

namespace Minirel

instance (relation : Bytes) (attrCnt : Int) (known : Prop) [Decidable known] :
    Decidable (RefusesSchema relation attrCnt known) :=
  inferInstanceAs (Decidable (_ ∨ _ ∨ _ ∨ _))

instance (nm : FileName) : Decidable (IsCatalog nm) := inferInstanceAs (Decidable (_ ∨ _))

/-! ## The tables -/

/-- What the users of a database see of it. -/
structure Tables where
  /-- The relations that the catalogs list, the latest first. -/
  relations : List Relation
  /-- The tuples of the heap files, those of the catalogs excepted. -/
  tuples : FileName → Option (List Bytes)
  /-- The heap files that have been left open. -/
  opened : FileName → Bool

/-- The calls that print what there is. -/
inductive Query
  | print (relation : Bytes)
  | help (relation : Bytes)

/-- The relation that is asked for. -/
def Query.relation : Query → Bytes
  | .print relation => if relation = [] then RELCATNAME else relation
  | .help relation => if relation = [] then RELCATNAME else relation

/-- The tuples are printed, and not the attributes. -/
def Query.prints : Query → Prop
  | .print _ => True
  | .help relation => relation = []

/-- The calls of the parser that change or read the tables. -/
inductive Command
  | createRel (relation : Bytes) (attrCnt : Int) (attrList : List AttrInfo)
  | destroyRel (relation : Bytes)
  /-- `data` is what there is in the file that is loaded. -/
  | load (relation fileName : Bytes) (data : Option Bytes)
  | join (method : JoinType) (result : FileName) (projNames : List AttrInfo) (attr1 : AttrInfo)
    (op : Operator) (attr2 : AttrInfo)
  /-- `formatFloat` is the text of a `float`. -/
  | ask (formatFloat : Bytes → Bytes) (query : Query)

/-- The heap file that a command may write. A query writes none; no file has an empty name. -/
def Command.target : Command → FileName
  | .createRel relation _ _ => relation
  | .destroyRel relation => relation
  | .load relation _ _ => relation
  | .join _ result _ _ _ _ => result
  | .ask _ _ => []

/-- The command may take a relation out of the catalogs. -/
def Command.Drops : Command → Prop
  | .destroyRel relation => ¬IsCatalog relation
  | _ => False

/-- Length of a tuple, as `UT_Load` reckons it. -/
def Relation.width (R : Relation) : Int := toInt (sumLen R.attrs)

/-- What `UT_Load` inserts. -/
def loadedTuples (width : Int) (data : Bytes) : List Bytes :=
  if width ≤ 1000 then fileTuples width.toNat data else []

/-- What `UT_Load` returns when it has inserted tuples. -/
def loadedStatus (width : Int) (data : Bytes) : Status :=
  if width ≤ 1000 ∨ (data.length : Int) < width then .OK else InsertFileScan.insertStatus width

/-- `QU_Join` compares the records with this method. -/
def JoinType.Compares (method : JoinType) (op : Operator) : Prop :=
  method = .NLJoin ∨ (method = .HashJoin ∧ op ≠ .EQ)

instance (method : JoinType) (op : Operator) : Decidable (method.Compares op) :=
  inferInstanceAs (Decidable (_ ∨ _))

namespace Tables

/-- The relation of a name. -/
def relation? (db : Tables) (nm : FileName) : Option Relation :=
  db.relations.find? fun R => R.name = nm

/-- The descriptor of an attribute. -/
def desc (db : Tables) (a : AttrInfo) : Option AttrDesc :=
  if a.attrName = [] then none else
    (db.relation? a.relName).bind fun R => R.attrDescs.find? fun d => d.attrName = a.attrName

/-- The relation and the data of a load that is not refused. -/
def accepts (db : Tables) (relation fileName : Bytes) (data : Option Bytes) :
    Option (Relation × Bytes) :=
  if fileName = [] ∨ IsCatalog relation then none else
    (db.relation? relation).bind fun R => data.map fun bytes => (R, bytes)

/-- The records of a join. There are none if an attribute is not in the catalog, if the types
differ, or if the method does not compare. -/
def joinRows (db : Tables) (method : JoinType) (projNames : List AttrInfo) (attr1 : AttrInfo)
    (op : Operator) (attr2 : AttrInfo) : List Bytes :=
  if attr1.attrType ≠ attr2.attrType ∨ attr1.attrLen ≠ attr2.attrLen ∨
    ¬method.Compares op then [] else
    match projNames.mapM db.desc, db.desc attr1, db.desc attr2 with
    | some ds, some d₁, some d₂ =>
      relationalJoin ((Datatype.ofCode d₂.attrType).getD .STRING) op d₁ d₂ ds
        ((db.tuples attr1.relName).getD []) ((db.tuples attr2.relName).getD [])
    | _, _, _ => []

/-- The tuples of a heap file, with `rows` behind them. -/
def append (db : Tables) (nm : FileName) (rows : List Bytes) : Tables :=
  { db with tuples := Function.update db.tuples nm ((db.tuples nm).map (· ++ rows)) }

/-- `RelCatalog::createRel`. -/
def createRel (db : Tables) (relation : Bytes) (attrCnt : Int)
    (attrList : List AttrInfo) : Tables :=
  if RefusesSchema relation attrCnt (relation ∈ names db.relations) then db else
    { db with
      relations := ⟨relation, attrList.take attrCnt.toNat⟩ :: db.relations
      tuples := Function.update db.tuples relation (some ((db.tuples relation).getD [])) }

/-- `RelCatalog::destroyRel`. -/
def destroyRel (db : Tables) (relation : Bytes) : Tables :=
  if IsCatalog relation then db else
    { db with
      relations := db.relations.filter fun R => R.name ≠ relation
      tuples := if db.opened relation then db.tuples else Function.update db.tuples relation none }

/-- `UT_Load`. -/
def load (db : Tables) (relation fileName : Bytes) (data : Option Bytes) : Tables :=
  match db.accepts relation fileName data with
  | some (R, bytes) =>
    { db.append relation (loadedTuples R.width bytes) with
      opened := Function.update db.opened relation true }
  | none => db

/-- What `RelCatalog::createRel` may return. -/
def CreateReturns (db : Tables) (relation : Bytes) (attrCnt : Int) (st : Status) : Prop :=
  if RefusesSchema relation attrCnt (relation ∈ names db.relations) then st ≠ .OK ∧ st ≠ .FILEEXISTS
  else st = if (db.tuples relation).isSome then .FILEEXISTS else .OK

/-- What `UT_Load` may return. -/
def LoadReturns (db : Tables) (relation fileName : Bytes) (data : Option Bytes)
    (st : Status) : Prop :=
  match db.accepts relation fileName data with
  | some (R, bytes) => st = loadedStatus R.width bytes
  | none => st ≠ .OK

/-- What a command changes. -/
def apply (db : Tables) : Command → Tables
  | .createRel relation attrCnt attrList => db.createRel relation attrCnt attrList
  | .destroyRel relation => db.destroyRel relation
  | .load relation fileName data => db.load relation fileName data
  | .join method result projNames attr1 op attr2 =>
    db.append result (db.joinRows method projNames attr1 op attr2)
  | .ask _ _ => db

/-- The tables after a list of commands, the latest of which comes first. -/
def replay (db : Tables) (commands : List Command) : Tables :=
  commands.foldr (fun command db => db.apply command) db

/-- The tables of a new session. -/
def initial : Tables := ⟨Minirel.relations [], fun _ => none, fun _ => false⟩

@[simp]
theorem replay_nil (db : Tables) : db.replay [] = db := rfl

@[simp]
theorem replay_cons (db : Tables) (command : Command) (commands : List Command) :
    db.replay (command :: commands) = (db.replay commands).apply command := rfl

theorem replay_append (db : Tables) (later commands : List Command) :
    db.replay (later ++ commands) = (db.replay commands).replay later := List.foldr_append ..

/-! ## What the commands keep -/

/-- The relations that are listed have tuples, and only files that have been left open have tuples
otherwise. The catalogs are listed. -/
structure WF (db : Tables) : Prop where
  listed : ∀ nm ∈ names db.relations, ¬IsCatalog nm → (db.tuples nm).isSome
  unlisted : ∀ nm, (db.tuples nm).isSome → nm ∈ names db.relations ∨ db.opened nm = true
  opened : ∀ nm, db.opened nm = true → (db.tuples nm).isSome
  catalogs : ∀ nm, IsCatalog nm → nm ∈ names db.relations ∧ db.tuples nm = none

section Apply

variable {db : Tables} {nm relation fileName : FileName} {attrCnt : Int} {attrList : List AttrInfo}
  {data : Option Bytes} {rows : List Bytes} {command : Command} {commands : List Command}

theorem tuples_append_self : (db.append nm rows).tuples nm = (db.tuples nm).map (· ++ rows) :=
  Function.update_self ..

theorem tuples_append_of_ne (h : nm ≠ relation) :
    (db.append relation rows).tuples nm = db.tuples nm :=
  Function.update_of_ne h ..

@[simp]
theorem isSome_tuples_append :
    ((db.append relation rows).tuples nm).isSome = (db.tuples nm).isSome := by
  by_cases h : nm = relation
  · subst h
    rw [tuples_append_self, Option.isSome_map]
  · rw [tuples_append_of_ne h]

@[simp]
theorem append_nil : db.append nm [] = db := by
  have h : Function.update db.tuples nm ((db.tuples nm).map (· ++ [])) = db.tuples := by
    simp
  unfold append
  rw [h]

theorem mem_names_filter :
    nm ∈ names (db.relations.filter fun R => R.name ≠ relation) ↔
      nm ∈ names db.relations ∧ nm ≠ relation := by
  unfold names
  simp only [List.mem_map, List.mem_filter, decide_eq_true_eq]
  constructor
  · rintro ⟨R, ⟨hR, hne⟩, rfl⟩
    exact ⟨⟨R, hR, rfl⟩, hne⟩
  · rintro ⟨⟨R, hR, rfl⟩, hne⟩
    exact ⟨R, ⟨hR, hne⟩, rfl⟩

/-- A catalog is known. -/
theorem WF.refuses (h : db.WF) (hcatalog : IsCatalog relation) :
    RefusesSchema relation attrCnt (relation ∈ names db.relations) :=
  Or.inr (Or.inr (Or.inr (h.catalogs relation hcatalog).1))

theorem WF.append (h : db.WF) (relation : FileName) (rows : List Bytes) :
    (db.append relation rows).WF where
  listed nm hnm hcatalog := by
    rw [isSome_tuples_append]
    exact h.listed nm hnm hcatalog
  unlisted nm hsome := by
    rw [isSome_tuples_append] at hsome
    exact h.unlisted nm hsome
  opened nm hopened := by
    rw [isSome_tuples_append]
    exact h.opened nm hopened
  catalogs nm hnm := by
    obtain ⟨hmem, hnone⟩ := h.catalogs nm hnm
    refine ⟨hmem, Option.not_isSome_iff_eq_none.mp ?_⟩
    rw [isSome_tuples_append, hnone]
    exact Bool.false_ne_true

theorem isSome_update {f : FileName → Option (List Bytes)} {ts : List Bytes} :
    (Function.update f relation (some ts) nm).isSome = true ↔ nm = relation ∨
    (f nm).isSome = true := by
  by_cases h : nm = relation
  · simp [h]
  · rw [Function.update_of_ne h, or_iff_right h]

theorem WF.createRel (h : db.WF) : (db.createRel relation attrCnt attrList).WF := by
  unfold Tables.createRel
  split
  next => exact h
  next hacc =>
    refine ⟨fun nm hnm hn => ?_, fun nm hsome => ?_, fun nm hopened => ?_, fun nm hnm => ?_⟩
    · rw [isSome_update]
      exact (List.mem_cons.mp hnm).imp_right fun hnm => h.listed nm hnm hn
    · rcases isSome_update.mp hsome with rfl | hsome
      · exact Or.inl (List.mem_cons_self ..)
      · exact (h.unlisted nm hsome).imp_left (List.mem_cons_of_mem _)
    · exact isSome_update.mpr (Or.inr (h.opened nm hopened))
    · -- the relation is not a catalog
      have hne : nm ≠ relation := fun hn => hacc (h.refuses (hn ▸ hnm))
      dsimp only
      rw [Function.update_of_ne hne]
      exact (h.catalogs nm hnm).imp_left (List.mem_cons_of_mem _)

/-- A relation that is not listed has only a file that has been left open. -/
theorem WF.destroyRel_of_not_mem (h : db.WF) (hmem : relation ∉ names db.relations) :
    db.destroyRel relation = db := by
  unfold Tables.destroyRel
  rw [filter_name_of_not_mem hmem]
  split
  next => rfl
  next =>
    by_cases hopen : db.opened relation = true
    · rw [if_pos hopen]
    · have hnone : db.tuples relation = none := by
        rw [← Option.not_isSome_iff_eq_none]
        exact fun hsome => (h.unlisted relation hsome).elim hmem hopen
      rw [if_neg hopen, ← hnone, Function.update_eq_self]

theorem WF.destroyRel (h : db.WF) : (db.destroyRel relation).WF := by
  unfold Tables.destroyRel
  split
  next => exact h
  next hcatalog =>
    have hkept : ∀ nm, nm ≠ relation →
        (if db.opened relation then db.tuples else Function.update db.tuples relation none) nm =
          db.tuples nm := by
      intro nm hne
      split
      · rfl
      · rw [Function.update_of_ne hne]
    refine ⟨fun nm hnm hn => ?_, fun nm hsome => ?_, fun nm hopened => ?_, fun nm hnm => ?_⟩
    · obtain ⟨hnm, hne⟩ := mem_names_filter.mp hnm
      dsimp only
      rw [hkept nm hne]
      exact h.listed nm hnm hn
    · by_cases hne : nm = relation
      · subst hne
        dsimp only at hsome ⊢
        by_cases hopen : db.opened nm = true
        · exact Or.inr hopen
        · rw [if_neg hopen, Function.update_self] at hsome
          exact absurd hsome Bool.false_ne_true
      · dsimp only at hsome
        rw [hkept nm hne] at hsome
        exact (h.unlisted nm hsome).imp_left fun hnm => mem_names_filter.mpr ⟨hnm, hne⟩
    · dsimp only
      by_cases hne : nm = relation
      · rw [if_pos (hne ▸ hopened)]
        exact h.opened nm hopened
      · rw [hkept nm hne]
        exact h.opened nm hopened
    · have hne : nm ≠ relation := fun hn => hcatalog (hn ▸ hnm)
      dsimp only
      rw [hkept nm hne]
      exact (h.catalogs nm hnm).imp_left fun hmem => mem_names_filter.mpr ⟨hmem, hne⟩

theorem relation?_eq_some {R : Relation} (h : db.relation? nm = some R) :
    R ∈ db.relations ∧ R.name = nm :=
  ⟨List.mem_of_find?_eq_some h, by simpa using List.find?_some h⟩

/-- A relation that can be loaded is listed and is not a catalog. -/
theorem accepts_eq_some {R : Relation} {bytes : Bytes}
    (h : db.accepts relation fileName data = some (R, bytes)) : fileName ≠ [] ∧
    ¬IsCatalog relation ∧
      R ∈ db.relations ∧ R.name = relation ∧ data = some bytes := by
  unfold accepts at h
  split at h
  next => cases h
  next hn =>
    obtain ⟨hfile, hcatalog⟩ := not_or.mp hn
    obtain ⟨R', hR', h⟩ := Option.bind_eq_some_iff.mp h
    obtain ⟨bytes', rfl, h⟩ := Option.map_eq_some_iff.mp h
    cases h
    obtain ⟨hR, hname⟩ := relation?_eq_some hR'
    exact ⟨hfile, hcatalog, hR, hname, rfl⟩

theorem mem_names_iff : nm ∈ names db.relations ↔ db.relation? nm ≠ none := by
  unfold names Tables.relation?
  rw [Ne, List.find?_eq_none]
  simp

/-- A load that is not refused. -/
theorem load_of_accepts {R : Relation} {bytes : Bytes}
    (hacc : db.accepts relation fileName data = some (R, bytes)) : db.load relation fileName data =
      { db.append relation (loadedTuples R.width bytes) with
        opened := Function.update db.opened relation true } := by
  unfold Tables.load
  rw [hacc]

theorem loadReturns_of_some {R : Relation} {bytes : Bytes} {st : Status}
    (hacc : db.accepts relation fileName data = some (R, bytes))
    (h : st = loadedStatus R.width bytes) :
    db.LoadReturns relation fileName data st := by
  unfold LoadReturns
  rwa [hacc]

theorem loadReturns_of_none {st : Status} (hacc : db.accepts relation fileName data = none)
    (h : st ≠ .OK) :
    db.LoadReturns relation fileName data st := by
  unfold LoadReturns
  rwa [hacc]

theorem accepts_eq_none (h : db.accepts relation fileName data = none) :
    fileName = [] ∨ IsCatalog relation ∨ data = none ∨ relation ∉ names db.relations := by
  unfold accepts at h
  split at h
  next hn => exact hn.imp_right Or.inl
  next =>
    right; right
    cases data with
    | none => exact Or.inl rfl
    | some bytes =>
      refine Or.inr fun hmem => mem_names_iff.mp hmem ?_
      cases hR : db.relation? relation with
      | none => rfl
      | some R =>
        rw [hR] at h
        cases h

theorem WF.load (h : db.WF) : (db.load relation fileName data).WF := by
  unfold Tables.load
  split
  next R bytes hacc =>
    obtain ⟨-, hcatalog, hR, hname, -⟩ := accepts_eq_some hacc
    have happ := h.append relation (loadedTuples R.width bytes)
    refine ⟨happ.listed, fun nm hsome => ?_, fun nm hopened => ?_, happ.catalogs⟩
    · refine (happ.unlisted nm hsome).imp_right fun hopened => ?_
      dsimp only
      by_cases hne : nm = relation
      · rw [hne, Function.update_self]
      · rw [Function.update_of_ne hne]
        exact hopened
    · by_cases hne : nm = relation
      · refine happ.listed nm ?_ (hne ▸ hcatalog)
        rw [hne, ← hname]
        exact List.mem_map_of_mem hR
      · dsimp only at hopened
        rw [Function.update_of_ne hne] at hopened
        exact happ.opened nm hopened
  next => exact h

/-- Each command keeps the tables well-formed. -/
theorem WF.apply (h : db.WF) (command : Command) : (db.apply command).WF := by
  cases command with
  | createRel relation attrCnt attrList => exact h.createRel
  | destroyRel relation => exact h.destroyRel
  | load relation fileName data => exact h.load
  | join method result projNames attr1 op attr2 => exact h.append ..
  | ask formatFloat query => exact h

theorem WF.replay (h : db.WF) (commands : List Command) : (db.replay commands).WF := by
  induction commands with
  | nil => exact h
  | cons command commands ih => exact ih.apply command

/-! ## What a command leaves alone -/

/-- A command changes the tuples of one relation only. -/
theorem tuples_apply_of_ne (h : nm ≠ command.target) :
    (db.apply command).tuples nm = db.tuples nm := by
  cases command with
  | createRel relation attrCnt attrList =>
    simp only [Tables.apply, Tables.createRel]
    split
    · rfl
    · exact Function.update_of_ne h ..
  | destroyRel relation =>
    simp only [Tables.apply, Tables.destroyRel]
    split
    · rfl
    · dsimp only
      split
      · rfl
      · exact Function.update_of_ne h ..
  | load relation fileName data =>
    simp only [Tables.apply, Tables.load]
    split
    · exact tuples_append_of_ne h
    · rfl
  | join method result projNames attr1 op attr2 => exact tuples_append_of_ne h
  | ask formatFloat query => rfl

/-- A command leaves no other file open. -/
theorem opened_apply_of_ne (h : nm ≠ command.target) :
    (db.apply command).opened nm = db.opened nm := by
  cases command with
  | createRel relation attrCnt attrList =>
    simp only [Tables.apply, Tables.createRel]
    split <;> rfl
  | destroyRel relation =>
    simp only [Tables.apply, Tables.destroyRel]
    split <;> rfl
  | load relation fileName data =>
    simp only [Tables.apply, Tables.load]
    split
    · exact Function.update_of_ne h ..
    · rfl
  | join method result projNames attr1 op attr2 => rfl
  | ask formatFloat query => rfl

/-- The entries of the other relations stay. -/
theorem filter_relations_apply (h : nm ≠ command.target) :
    ((db.apply command).relations.filter fun R => R.name = nm) =
      db.relations.filter fun R => R.name = nm := by
  cases command with
  | createRel relation attrCnt attrList =>
    simp only [Tables.apply, Tables.createRel]
    split
    · rfl
    · have hne : nm ≠ relation := h
      exact List.filter_cons_of_neg (by simpa using hne.symm)
  | destroyRel relation =>
    simp only [Tables.apply, Tables.destroyRel]
    split
    · rfl
    · rw [List.filter_filter]
      refine List.filter_congr fun R _ => ?_
      have hne : nm ≠ relation := h
      by_cases hR : R.name = nm
      · simp [hR, hne]
      · simp [hR]
  | load relation fileName data =>
    simp only [Tables.apply, Tables.load]
    split <;> rfl
  | join method result projNames attr1 op attr2 => rfl
  | ask formatFloat query => rfl

/-- A file that has been left open stays so, and what it has are still its first tuples. -/
theorem WF.opened_apply (h : db.WF) (hopen : db.opened nm = true) (command : Command) :
    (db.apply command).opened nm = true ∧
      ∃ rows, (db.apply command).tuples nm = (db.tuples nm).map (· ++ rows) := by
  have hsame : (db.tuples nm).map (· ++ []) = db.tuples nm := by simp
  by_cases hne : nm = command.target
  · cases command with
    | createRel relation attrCnt attrList =>
      obtain rfl : nm = relation := hne
      simp only [Tables.apply, Tables.createRel]
      split
      · exact ⟨hopen, [], hsame.symm⟩
      · -- the relation has its tuples again
        obtain ⟨ts, hts⟩ := Option.isSome_iff_exists.mp (h.opened nm hopen)
        refine ⟨hopen, [], ?_⟩
        dsimp only
        rw [Function.update_self, hts]
        simp
    | destroyRel relation =>
      obtain rfl : nm = relation := hne
      simp only [Tables.apply, Tables.destroyRel]
      split
      · exact ⟨hopen, [], hsame.symm⟩
      · refine ⟨hopen, [], ?_⟩
        rw [hsame]
    | load relation fileName data =>
      obtain rfl : nm = relation := hne
      simp only [Tables.apply, Tables.load]
      split
      · exact ⟨Function.update_self .., _, tuples_append_self⟩
      · exact ⟨hopen, [], hsame.symm⟩
    | join method result projNames attr1 op attr2 =>
      obtain rfl : nm = result := hne
      exact ⟨hopen, _, tuples_append_self⟩
    | ask formatFloat query => exact ⟨hopen, [], hsame.symm⟩
  · rw [opened_apply_of_ne hne, tuples_apply_of_ne hne]
    exact ⟨hopen, [], hsame.symm⟩

theorem WF.opened_replay (h : db.WF) (hopen : db.opened nm = true) (commands : List Command) :
    (db.replay commands).opened nm = true ∧
      ∃ rows, (db.replay commands).tuples nm = (db.tuples nm).map (· ++ rows) := by
  induction commands with
  | nil => exact ⟨hopen, [], by simp⟩
  | cons command commands ih =>
    obtain ⟨hopen', rows, hrows⟩ := ih
    obtain ⟨hopen'', rows', hrows'⟩ := (h.replay commands).opened_apply hopen' command
    refine ⟨hopen'', rows ++ rows', ?_⟩
    rw [replay_cons, hrows', hrows, Option.map_map]
    congr 1
    funext ts
    exact List.append_assoc ts rows rows'

end Apply

/-! ## What a relation depends on -/

/-- The tables tell the same of a relation. -/
structure AgreeOn (nm : FileName) (db db' : Tables) : Prop where
  relations : (db.relations.filter fun R => R.name = nm) = db'.relations.filter fun R => R.name = nm
  tuples : db.tuples nm = db'.tuples nm
  opened : db.opened nm = db'.opened nm

section AgreeOn

variable {db db' : Tables} {nm relation : FileName} {a : AttrInfo} {method : JoinType}
  {projNames : List AttrInfo} {attr1 attr2 : AttrInfo} {op : Operator} {command : Command}

theorem AgreeOn.refl (nm : FileName) (db : Tables) : AgreeOn nm db db := ⟨rfl, rfl, rfl⟩

theorem AgreeOn.trans {db'' : Tables} (h : AgreeOn nm db db') (h' : AgreeOn nm db' db'') :
    AgreeOn nm db db'' :=
  ⟨h.relations.trans h'.relations, h.tuples.trans h'.tuples, h.opened.trans h'.opened⟩

/-- A command does not touch the other relations. -/
theorem agreeOn_apply_of_ne (db : Tables) (h : nm ≠ command.target) :
    AgreeOn nm (db.apply command) db :=
  ⟨filter_relations_apply h, tuples_apply_of_ne h, opened_apply_of_ne h⟩

theorem AgreeOn.relation? (h : AgreeOn nm db db') : db.relation? nm = db'.relation? nm := by
  unfold Tables.relation?
  rw [← List.head?_filter, ← List.head?_filter, h.relations]

theorem AgreeOn.accepts (h : AgreeOn nm db db') (fileName : Bytes) (data : Option Bytes) :
    db.accepts nm fileName data = db'.accepts nm fileName data := by
  unfold Tables.accepts
  rw [h.relation?]

/-- No command touches the entries of a catalog. -/
theorem WF.relation?_apply (h : db.WF) (hcatalog : IsCatalog nm) (command : Command) :
    (db.apply command).relation? nm = db.relation? nm := by
  by_cases hne : nm = command.target
  · cases command with
    | createRel relation attrCnt attrList =>
      obtain rfl : nm = relation := hne
      simp only [Tables.apply, Tables.createRel, if_pos (h.refuses hcatalog)]
    | destroyRel relation =>
      obtain rfl : nm = relation := hne
      simp only [Tables.apply, Tables.destroyRel, if_pos hcatalog]
    | load relation fileName data =>
      simp only [Tables.apply, Tables.load]
      split <;> rfl
    | join method result projNames attr1 op attr2 => rfl
    | ask formatFloat query => rfl
  · exact (agreeOn_apply_of_ne db hne).relation?

theorem AgreeOn.mem_names (h : AgreeOn nm db db') : nm ∈ names db.relations ↔
    nm ∈ names db'.relations := by
  rw [mem_names_iff, mem_names_iff, h.relation?]

theorem AgreeOn.desc (h : AgreeOn a.relName db db') : db.desc a = db'.desc a := by
  unfold Tables.desc
  rw [h.relation?]

/-- The records of a join depend on the relations that the join reads. -/
theorem joinRows_congr (hattr1 : AgreeOn attr1.relName db db')
    (hattr2 : AgreeOn attr2.relName db db') (hproj : ∀ a ∈ projNames, AgreeOn a.relName db db') :
    db.joinRows method projNames attr1 op attr2 = db'.joinRows method projNames attr1 op attr2 := by
  have hds : projNames.mapM db.desc = projNames.mapM db'.desc := by
    induction projNames with
    | nil => rfl
    | cons a projNames ih =>
      rw [List.mapM_cons, List.mapM_cons, (hproj a (List.mem_cons_self ..)).desc,
        ih fun b hb => hproj b (List.mem_cons_of_mem _ hb)]
  unfold joinRows
  rw [hds, hattr1.desc, hattr2.desc, hattr1.tuples, hattr2.tuples]

end AgreeOn

end Tables

/-- The relations that a command reads, beside the one that it writes. -/
def Command.sources : Command → List FileName
  | .join _ _ projNames attr1 _ attr2 => (projNames ++ [attr1, attr2]).map AttrInfo.relName
  | _ => []

namespace Tables

section Closed

variable {db db' : Tables} {nm : FileName} {command : Command} {commands : List Command}

/-- What a command makes of a relation depends on the relations that it names. -/
theorem AgreeOn.apply (h : AgreeOn command.target db db')
    (hsources : ∀ nm ∈ command.sources, AgreeOn nm db db') :
    AgreeOn command.target (db.apply command) (db'.apply command) := by
  cases command with
  | createRel relation attrCnt attrList =>
    replace h : AgreeOn relation db db' := h
    have hiff : RefusesSchema relation attrCnt (relation ∈ names db.relations) ↔
        RefusesSchema relation attrCnt (relation ∈ names db'.relations) := by
      unfold RefusesSchema
      rw [h.mem_names]
    simp only [Tables.apply, Tables.createRel, Command.target]
    by_cases hacc : RefusesSchema relation attrCnt (relation ∈ names db.relations)
    · rw [if_pos hacc, if_pos (hiff.mp hacc)]
      exact h
    · rw [if_neg hacc, if_neg fun hn => hacc (hiff.mpr hn)]
      refine ⟨?_, ?_, h.opened⟩
      · dsimp only
        rw [List.filter_cons, List.filter_cons, h.relations]
      · dsimp only
        rw [Function.update_self, Function.update_self, h.tuples]
  | destroyRel relation =>
    replace h : AgreeOn relation db db' := h
    simp only [Tables.apply, Tables.destroyRel, Command.target]
    split
    · exact h
    · refine ⟨?_, ?_, h.opened⟩
      · dsimp only
        rw [List.filter_comm, h.relations, List.filter_comm]
      · dsimp only
        rw [h.opened]
        split
        · exact h.tuples
        · rw [Function.update_self, Function.update_self]
  | load relation fileName data =>
    replace h : AgreeOn relation db db' := h
    simp only [Tables.apply, Tables.load, Command.target]
    rw [h.accepts]
    split
    · refine ⟨h.relations, ?_, ?_⟩
      · exact tuples_append_self.trans ((congrArg _ h.tuples).trans tuples_append_self.symm)
      · dsimp only
        rw [Function.update_self, Function.update_self]
    · exact h
  | join method result projNames attr1 op attr2 =>
    replace h : AgreeOn result db db' := h
    have hmem : ∀ a ∈ projNames ++ [attr1, attr2], AgreeOn a.relName db db' := fun a ha =>
      hsources a.relName (List.mem_map_of_mem ha)
    have hrows : db.joinRows method projNames attr1 op attr2 = db'.joinRows method projNames
      attr1 op attr2 :=
      joinRows_congr (hmem attr1 (by simp)) (hmem attr2 (by simp))
        fun a ha => hmem a (List.mem_append_left _ ha)
    simp only [Tables.apply, Command.target]
    rw [hrows]
    exact ⟨h.relations,
      tuples_append_self.trans ((congrArg _ h.tuples).trans tuples_append_self.symm), h.opened⟩
  | ask formatFloat query => exact h

/-- If no command writes a relation of `S` from one that is not in `S`, the relations of `S` are the
same without the commands that write others. -/
theorem agreeOn_replay_filter (db : Tables) (S : FileName → Prop) [DecidablePred S]
    (hclosed : ∀ command ∈ commands, S command.target → ∀ nm ∈ command.sources, S nm) (hnm : S nm) :
    AgreeOn nm (db.replay commands)
    (db.replay (commands.filter fun command => S command.target)) := by
  induction commands generalizing nm with
  | nil => exact .refl nm db
  | cons command commands ih =>
    have ih' : ∀ {nm}, S nm → AgreeOn nm (db.replay commands)
        (db.replay (commands.filter fun command => S command.target)) := fun hnm =>
      ih (fun command hmem => hclosed command (List.mem_cons_of_mem _ hmem)) hnm
    rw [replay_cons, List.filter_cons]
    by_cases htarget : S command.target
    · rw [if_pos (decide_eq_true htarget), replay_cons]
      by_cases hne : nm = command.target
      · subst hne
        exact (ih' hnm).apply fun nm hmem => ih'
          (hclosed command (List.mem_cons_self ..) htarget nm hmem)
      · refine (agreeOn_apply_of_ne _ hne).trans ((ih' hnm).trans ?_)
        obtain ⟨h₁, h₂, h₃⟩ := agreeOn_apply_of_ne (db.replay (commands.filter fun command =>
          S command.target)) hne
        exact ⟨h₁.symm, h₂.symm, h₃.symm⟩
    · -- the relation is another one
      have hne : nm ≠ command.target := fun hn => htarget (hn ▸ hnm)
      rw [if_neg (by simpa using htarget)]
      exact (agreeOn_apply_of_ne _ hne).trans (ih' hnm)

/-- Commands for other relations leave a relation alone. -/
theorem agreeOn_replay_of_ne (db : Tables) (h : ∀ command ∈ commands, command.target ≠ nm) :
    AgreeOn nm (db.replay commands) db := by
  induction commands with
  | nil => exact .refl nm db
  | cons command commands ih =>
    have hrest := ih fun command hmem => h command (List.mem_cons_of_mem _ hmem)
    exact (agreeOn_apply_of_ne _ (h command (List.mem_cons_self ..)).symm).trans hrest

end Closed

end Tables

end Minirel
