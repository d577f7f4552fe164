import Minirel.Print.Relations
import Minirel.Tables.Joins

/-!
# Queries

`UT_Print` and `help` print what the tables say, and leave them as they are. The columns of a
relation come in the order in which `attrcat` has its attributes.

## Main definitions

* `Relation.Printable`: a line of `UT_Print` tells nothing but its tuple.
* `Tables.Scanned`: what a scan of a relation may return.
* `Tables.Answers`: what a query may return and print.

## Main results

* `Represents.ask`: the queries answer by the tables.
-/

namespace Minirel

open Comp HeapFile

/-- The call of a query. -/
def Query.run (formatFloat : Bytes → Bytes) (fuel : Nat) (locals : PrintLocals) :
    Query → M (Status × Bytes)
  | .print relation => UT_Print formatFloat fuel locals relation
  | .help relation => RelCatalog.help formatFloat fuel locals relation

section Query

variable {formatFloat : Bytes → Bytes} {fuel : Nat} {locals : PrintLocals} {query : Query}

theorem Query.relation_ne_nil : query.relation ≠ [] := by
  have hne : ∀ relation : Bytes, (if relation = [] then RELCATNAME else relation) ≠ [] :=
    fun relation => by
    by_cases hnil : relation = []
    · rw [if_pos hnil]
      decide
    · rwa [if_neg hnil]
  cases query with
  | print relation => exact hne relation
  | help relation => exact hne relation

/-- Without a name the relations are printed. -/
theorem Query.run_of_prints (h : query.prints) :
    query.run formatFloat fuel locals = UT_Print formatFloat fuel locals query.relation := by
  cases query with
  | print relation =>
    by_cases hnil : relation = []
    · rw [hnil]
      rfl
    · unfold Query.relation
      dsimp only
      rw [if_neg hnil]
      rfl
  | help relation =>
    obtain rfl : relation = [] := h
    rfl

theorem Query.run_of_not_prints (h : ¬query.prints) :
    query.run formatFloat fuel locals = RelCatalog.help formatFloat fuel locals query.relation := by
  cases query with
  | print relation => exact absurd trivial h
  | help relation =>
    unfold Query.relation
    dsimp only
    rw [if_neg (show relation ≠ [] from h)]
    rfl

theorem Query.run_mono {m n : Nat} (hle : m ≤ n) (locals : PrintLocals) (query : Query) :
    Extends (query.run formatFloat m locals) (query.run formatFloat n locals) := by
  cases query with
  | print relation => exact UT_Print_mono hle locals relation
  | help relation => exact help_mono hle locals relation

end Query

/-- The types are those of the enumeration, and `printf` reads nothing behind a tuple. -/
structure Relation.Printable (R : Relation) (ts : List Bytes) : Prop where
  types : ∀ d ∈ R.attrDescs, ∃ type : Datatype, d.attrType = type.code
  within : ∀ t ∈ ts, ∀ d ∈ R.attrDescs, d.Prints d.width t

namespace Tables

/-- A scan of the relation may return these tuples. Those of a catalog come in any order. -/
def Scanned (db : Tables) (nm : FileName) (ts : List Bytes) : Prop :=
  if nm = RELCATNAME then (ts.map RelDesc.decode).Perm (db.relations.map Relation.desc)
  else if nm = ATTRCATNAME then (ts.map AttrDesc.decode).Perm
    (db.relations.flatMap Relation.attrDescs)
  else db.tuples nm = some ts

/-- What a query returns and prints. -/
def Answers (db : Tables) (formatFloat : Bytes → Bytes) (query : Query)
    (r : Status × Bytes) : Prop :=
  (query.relation ∉ names db.relations → r = (.RELNOTFOUND, [])) ∧
    ∀ R, db.relation? query.relation = some R → ∃ ds : List AttrDesc, ds.Perm R.attrDescs ∧
      (query.prints → ∃ ts, db.Scanned R.name ts ∧ r = (.OK, report formatFloat R.name ds ts)) ∧
      (¬query.prints → r = (.OK, helpText R.name R.attrs.length ds))

/-- The name is a string of C, and the tuples that are printed can be. -/
def FitsQuery (db : Tables) (query : Query) : Prop :=
  IsName query.relation ∧ (query.prints → ∀ R ts, db.relation? query.relation = some R →
    db.tuples query.relation = some ts → R.Printable ts)

end Tables

/-! ## Relations that can be printed -/

/-- In tuples of `n` bytes the attribute can be printed: a number has its size, and a string is as
long as its column is wide. -/
def AttrDesc.Legible (n : Int) (d : AttrDesc) : Prop :=
  (d.attrType = 0 ∨ d.attrType = 1 ∨ d.attrType = 2) ∧ 0 ≤ d.attrOffset ∧
  d.attrOffset + d.attrLen ≤ n ∧
    if d.attrType = 0 then 0 ≤ d.attrLen ∧ d.width ≤ d.attrLen else d.attrLen = 4

instance (n : Int) (d : AttrDesc) : Decidable (d.Legible n) :=
  inferInstanceAs (Decidable (_ ∧ _ ∧ _ ∧ _))

theorem AttrDesc.Legible.prints {n : Int} {d : AttrDesc} {t : Bytes} (h : d.Legible n)
    (hlen : (t.length : Int) = n) : d.Prints d.width t := by
  obtain ⟨htype, h0, hend, hsize⟩ := h
  by_cases hstring : d.attrType = 0
  · -- a string
    rw [if_pos hstring] at hsize
    refine ⟨h0, by omega, fun hn => ?_, fun _ _ => Or.inl (by omega)⟩
    rw [hstring] at hn
    exact absurd hn (by decide)
  · rw [if_neg hstring] at hsize
    refine ⟨h0, by omega, fun _ => by omega, fun h₁ h₂ => ?_⟩
    exact absurd (htype.resolve_left hstring) (not_or.mpr ⟨h₁, h₂⟩)

theorem AttrDesc.Legible.type {n : Int} {d : AttrDesc} (h : d.Legible n) :
    ∃ type : Datatype, d.attrType = type.code := by
  rcases h.1 with htype | htype | htype
  · exact ⟨.STRING, htype⟩
  · exact ⟨.INTEGER, htype⟩
  · exact ⟨.FLOAT, htype⟩

theorem Relation.printable_of_legible {R : Relation} {n : Int} {ts : List Bytes}
    (h : ∀ d ∈ R.attrDescs, d.Legible n) (hlen : ∀ t ∈ ts, (t.length : Int) = n) :
    R.Printable ts where
  types d hd := (h d hd).type
  within t ht d hd := (h d hd).prints (hlen t ht)

theorem Heap.Tuples.length_contents {H : Heap} {n : Nat} (h : H.Tuples n) {t : Bytes}
    (ht : t ∈ H.contents) :
    (t.length : Int) = n := by
  obtain ⟨rid, hrid⟩ := Heap.exists_of_mem_contents ht
  rw [(h rid t hrid).1]

namespace Represents

variable {unix : FileName → Option UnixFile} {T : Prop} {s : Sys} {db : Tables}
  {P : Multiset Pin} {v : View} {fv fvA : FileView} {H HA : Heap} {R : Relation} {query : Query}
  {formatFloat : Bytes → Bytes}

/-- The heap file of a relation that is listed. A catalog can always be printed. -/
theorem exists_heap (h : Represents unix s db P v fv H fvA HA) (hR : db.relation? R.name = some R) :
    ∃ fvR HR, IsHeap v R.name fvR HR ∧ db.Scanned R.name HR.contents ∧
      ((∀ ts, db.tuples R.name = some ts → R.Printable ts) → R.Printable HR.contents) := by
  by_cases hrel : R.name = RELCATNAME
  · rw [hrel] at hR ⊢
    obtain rfl : R = .relcat := Option.some.inj (hR.symm.trans h.relcat)
    refine ⟨fv, H, h.database.catalogs.relcat, ?_, fun _ => ?_⟩
    · unfold Tables.Scanned
      rw [if_pos rfl]
      exact Multiset.coe_eq_coe.mp h.database.lists.rel
    · exact Relation.printable_of_legible (by decide) fun t ht =>
        h.database.catalogs.relTuples.length_contents ht
  by_cases hattr : R.name = ATTRCATNAME
  · rw [hattr] at hR ⊢
    obtain rfl : R = .attrcat := Option.some.inj (hR.symm.trans h.attrcat)
    refine ⟨fvA, HA, h.database.catalogs.attrcat, ?_, fun _ => ?_⟩
    · unfold Tables.Scanned
      rw [if_neg attrcat_ne_relcat, if_pos rfl]
      exact Multiset.coe_eq_coe.mp h.database.lists.attr
    · exact Relation.printable_of_legible (by decide) fun t ht =>
        h.database.catalogs.attrTuples.length_contents ht
  -- another relation
  have hcatalog : ¬IsCatalog R.name := not_or.mpr ⟨hrel, hattr⟩
  have hmem : R.name ∈ names db.relations := List.mem_map_of_mem (Tables.relation?_eq_some hR).1
  obtain ⟨ts, hts⟩ := Option.isSome_iff_exists.mp (h.wf.listed R.name hmem hcatalog)
  have hown := h.tuples R.name hcatalog
  rw [hts] at hown
  obtain ⟨fvR, HR, hHR, -, -, rfl⟩ := hown
  refine ⟨fvR, HR, hHR, ?_, fun hprintable => hprintable _ hts⟩
  unfold Tables.Scanned
  rw [if_neg hrel, if_neg hattr]
  exact hts

/-- The queries answer by the tables. -/
theorem ask (h : Represents unix s db P v fv H fvA HA) (query : Query)
    (hfits : db.FitsQuery query) :
    ∃ N, ∀ fuel (locals : PrintLocals), locals.Sized →
      Clean (8 ≤ freeFrames v.numBufs P ∧ N ≤ fuel) (query.run formatFloat fuel locals)
        s fun r s' =>
        db.Answers formatFloat query r ∧
          Follows unix (8 ≤ freeFrames v.numBufs P ∧ N ≤ fuel) False [] 4 P v H HA s' db := by
  obtain ⟨hname, hprintable⟩ := hfits
  have hdb := h.database
  -- the catalogs are read, and nothing is changed
  have hsame : ∀ {T : Prop} {k : Nat} {s' : Sys} {P' : Multiset Pin} {v' : View},
      HasRead IsCatalog k P v s' P' v' → k ≤ 4 → Follows unix T False [] 4 P v H HA s' db :=
      fun hread hk =>
    hread.leavesCatalogs.follows (fun _ => Or.inl) fv fvA hk (h.same hread.leaves hread.file
      (hdb.same hread.leaves hread.file))
  let N := H.rids.length + H.pages.length + 1 + (2 * HA.rids.length + HA.pages.length + 1)
  rcases hrel : db.relation? query.relation with _ | R
  · -- there is no such relation
    have hmem : query.relation ∉ names db.relations := fun hn => Tables.mem_names_iff.mp hn hrel
    refine ⟨N, fun fuel locals hlocals => ?_⟩
    have hT : 8 ≤ freeFrames v.numBufs P ∧ N ≤ fuel →
        2 ≤ freeFrames v.numBufs P ∧ H.rids.length + H.pages.length + 1 ≤ fuel := fun ht => by omega
    have hanswers : db.Answers formatFloat query (.RELNOTFOUND, []) :=
      ⟨fun _ => rfl, fun R hR => by rw [hrel] at hR; cases hR⟩
    by_cases hprints : query.prints
    · rw [Query.run_of_prints hprints]
      refine (hdb.print_missing hmem fuel hname Query.relation_ne_nil hlocals hT).mono ?_
      rintro r s' ⟨rfl, P', v', hread⟩
      exact ⟨hanswers, hsame hread (by decide)⟩
    · rw [Query.run_of_not_prints hprints]
      refine (hdb.help_missing hmem fuel hname Query.relation_ne_nil hlocals hT).mono ?_
      rintro r s' ⟨rfl, P', v', hread⟩
      exact ⟨hanswers, hsame hread (by decide)⟩
  · obtain ⟨hR, hRname⟩ := Tables.relation?_eq_some hrel
    have hmem : query.relation ∈ names db.relations := hRname ▸ List.mem_map_of_mem hR
    obtain ⟨fvR, HR, hHR, hscan, htuples⟩ := h.exists_heap (hRname.symm ▸ hrel)
    refine ⟨N + (HR.rids.length + HR.pages.length + 1), fun fuel locals hlocals => ?_⟩
    by_cases hprints : query.prints
    · have hR' := htuples fun ts hts => hprintable hprints R ts hrel (hRname ▸ hts)
      rw [Query.run_of_prints hprints, ← hRname]
      refine (hdb.print h.attrTuples hR hHR fuel hlocals hR'.types hR'.within fun ht => ?_).mono ?_
      · exact ⟨by omega, by omega, by omega, by omega⟩
      rintro r s' ⟨⟨ds, hperm, rfl⟩, P', v', hread⟩
      refine ⟨⟨fun hn => absurd hmem hn, fun R' hR'' => ?_⟩, hsame hread le_rfl⟩
      obtain rfl : R = R' := Option.some.inj (hrel.symm.trans hR'')
      exact ⟨ds, hperm, fun _ => ⟨HR.contents, hscan, rfl⟩, fun hn => absurd hprints hn⟩
    · rw [Query.run_of_not_prints hprints, ← hRname]
      refine (hdb.help h.attrTuples hR fuel hlocals fun ht => ?_).mono ?_
      · exact ⟨by omega, by omega, by omega⟩
      rintro r s' ⟨⟨ds, hperm, rfl⟩, P', v', hread⟩
      refine ⟨⟨fun hn => absurd hmem hn, fun R' hR'' => ?_⟩, hsame hread le_rfl⟩
      obtain rfl : R = R' := Option.some.inj (hrel.symm.trans hR'')
      exact ⟨ds, hperm, fun hn => absurd hn hprints, fun _ => rfl⟩

end Represents

end Minirel
