import Minirel.Tables.Stored

/-!
# Relations that have been loaded

`UT_Load` returns without deleting its object on the heap file, so that the frame with the header of
the file is never marked as dirty. When the database is opened the next time, the header counts the
tuples that there were before the load, whatever there is in the pages.

## Main definitions

* `Intact`: the file has these tuples, and its header counts them.

## Main results

* `intact_of_load_iff`: only a load without a tuple leaves the file intact.
-/

namespace Minirel

open Comp HeapFile

section Intact

variable {s : Sys} {P : Multiset Pin} {v : View} {nm : FileName} {fv : FileView} {H : Heap}
  {ts : List Bytes} {width : Int} {bytes : Bytes}

theorem Heap.length_contents_le (H : Heap) : H.contents.length ≤ H.rids.length := by
  rw [Heap.contents_eq]
  exact List.length_filterMap_le ..

/-- What is loaded from a data file without a whole tuple. -/
theorem loadedTuples_eq_nil_iff (hwidth : 1 ≤ width ∧ width ≤ 1000) :
    loadedTuples width bytes = [] ↔ (bytes.length : Int) < width := by
  unfold loadedTuples
  rw [if_pos hwidth.2, ← List.length_eq_zero_iff, length_fileTuples, Nat.div_eq_zero_iff]
  omega

/-- A header that has been kept on disk does not count more tuples. -/
theorem Coh.eq_nil_of_intact {H₀ : Heap} {fv₀ : FileView} {rows : List Bytes} {blk : Block}
    (hc : Coh s P v) (hf : v.file nm = some fv) (hfirst : fv.alloc fv.first)
    (hcur : fv.cur fv.first = some blk) (hblk : blk.asFileHdr = H₀.hdr) (hH₀ : HeapAt fv₀ H₀)
    (hcounted : H₀.Counted) (hintact : Intact s nm (H₀.contents ++ rows)) : rows = [] := by
  obtain ⟨H, hH, hcontents, hcounted'⟩ := hintact
  have hhdr : H.hdr = H₀.hdr := (hc.hdr_of_heap? hf hfirst hcur hH).trans hblk
  have hle := H.length_contents_le
  unfold Heap.Counted at hcounted hcounted'
  rw [hhdr, hcounted] at hcounted'
  rw [hcontents, List.length_append, hH₀.length_contents] at hle
  exact List.length_eq_zero_iff.mp (by omega)

end Intact

section Load

variable {unix u : FileName → Option UnixFile} {db : Tables} {D : Prop} {relCat attrCat : HeapFile}
  {s s' s₁ s₂ s₃ : Sys} {v v₀ : View} {nm : FileName} {fileName : Bytes} {data : Option Bytes}
  {fvR : FileView} {HR : Heap} {R : Relation} {bytes : Bytes} {ts : List Bytes} {st : Status}
  {r : Status × Output} {e e' : Bool} {dataFile : FileName → Option Bytes} {hash : BufHash}
  {before after : List Command}

/-- Of a file that has been left open the next process finds what has been kept on disk. -/
theorem View.found_opened {fv : FileView} (hnm : ¬IsCatalog nm) (hopened : db.opened nm = true)
    (hf : v.file nm = some fv) : (v.found (Unsaved D db)).file nm = some fv.surviving := by
  have hlost : Unsaved D db nm := ⟨fun hn => absurd hn hnm, fun _ => hopened⟩
  rw [View.file_found_lost hlost, hf, Option.map_some]

theorem InSession.isHeap (h : InSession unix D relCat attrCat s db v) (hHR : IsHeap v₀ nm fvR HR)
    (hfile : v.file nm = v₀.file nm) : IsHeap v nm fvR HR := by
  obtain ⟨P, Q, fv, H, fvA, HA, h, -⟩ := h
  exact ⟨hHR.name, hfile.trans hHR.file, hHR.heapAt, hHR.sized, h.database.opened nm⟩

/-- A load in a session. -/
theorem InSession.load (h : InSession unix D relCat attrCat s db v)
    (hacc : db.accepts nm fileName data = some (R, bytes)) (hts : db.tuples nm = some HR.contents)
    (hHR : IsHeap v nm fvR HR) (hheap : HR.Packed ∧ HR.Counted)
    (hframes : 8 ≤ s.freeFrames ∨ e = false)
    (hstep : (Command.load nm fileName data).Step s r e s') : ∃ v' fvR' HR' o,
      InSession unix D relCat attrCat s' (db.load nm fileName data) v' ∧ IsHeap v' nm fvR' HR' ∧
      Loaded R.width bytes o fvR fvR' HR HR' := by
  obtain ⟨P, Q, fv, H, fvA, HA, h, hses, hwrote⟩ := h
  obtain ⟨hfinds, fuel, locals, hlocals, hy⟩ := hstep
  obtain rfl : s.dataFile fileName = data := hfinds
  obtain ⟨st, e₁, s₁, e₂, hload, hpure, rfl⟩ := Yields.of_bind hy
  obtain ⟨-, rfl, rfl⟩ := hpure.unique (.pure _ _)
  rw [Bool.or_false] at hframes
  let N := (H.rids.length + H.pages.length + 1) + (2 * HA.rids.length + HA.pages.length + 1) +
    bytes.length + 1
  have hfree := h.database.coh.freeFrames_eq
  have hcall : Runs False (UT_Load (max fuel N) locals.rd locals.junk locals.junkAttr nm
    fileName) s _ :=
    h.load_accepted (F := 8 ≤ s.freeFrames) (max fuel N) hacc hts hHR ⟨hheap.1, hheap.2,
    rfl⟩ hlocals.rd
      hlocals.junk (fun hf => ⟨by omega, by omega, by omega, by omega⟩) False.elim
  obtain ⟨hflag, hpost⟩ := hcall.1 st e₁ s₁
    (UT_Load_mono (le_max_left fuel N) _ _ _ _ _ s st e₁ s₁ hload)
  obtain ⟨-, P', v', fvR', HR', o, hl, h', hHR', hloaded⟩ := hpost (hframes.elim hflag id)
  exact ⟨v', fvR', HR', o, (hses.inSession hwrote hl h').imp (or_false D).mp, hHR', hloaded⟩

/-- In a session a relation is loaded, and there is no other command for it. The next process finds
the tuples that there were and those that have been loaded, and a header that counts them, only if
there was no whole tuple to load. -/
theorem intact_of_load_iff (h : StoredTables unix u db) (hts : db.tuples nm = some ts)
    (hopen : Yields openCatalogs (Sys.start u dataFile (fun _ => true) hash)
      (st, relCat, attrCat) e s₁)
    (hrun : TableRun unix db s₁ (after ++ .load nm fileName data :: before) s₂)
    (hothers : ∀ command ∈ after ++ before, command.target ≠ nm)
    (hacc : db.accepts nm fileName data = some (R, bytes)) (hwidth : 1 ≤ R.width ∧ R.width ≤ 1000)
    (hquit : Yields (UT_Quit relCat attrCat) s₂ () e' s₃) (dataFile' : FileName → Option Bytes)
    (hash' : BufHash) :
    Intact (Sys.start s₃.unix dataFile' (fun _ => true) hash') nm
      (ts ++ loadedTuples R.width bytes) ↔
      (bytes.length : Int) < R.width := by
  obtain ⟨v₀, fv, H, fvA, HA, hclosed, hclean, hdb⟩ := h
  have h₀ := hdb dataFile hash
  obtain ⟨-, hcatalog, -⟩ := Tables.accepts_eq_some hacc
  have hwf := h₀.wf.replay before
  obtain ⟨hafter, hbefore⟩ := List.forall_mem_append.mp hothers
  have hagree := Tables.agreeOn_replay_of_ne db hbefore
  -- the file before the load
  have hown := h₀.tuples nm hcatalog
  rw [hts] at hown
  obtain ⟨fvR, HR, hHR, hpacked, hcounted, rfl⟩ := hown
  rw [← hagree.tuples] at hts
  rw [← hagree.accepts] at hacc
  obtain ⟨t₃, hload, hlater⟩ := hrun.of_append
  obtain ⟨t₁, t₂, r, e₁, hearlier, hframes, hstep, hwritten⟩ := hload.of_cons
  obtain ⟨-, -, ⟨v₁, hs₁, hfile₁⟩, -⟩ := (h₀.start hclosed).of_extends trivial (.refl _) hopen
  obtain ⟨v₂, hs₂, hsame₂⟩ := hs₁.run hearlier
  have hHR₂ : IsHeap v₂ nm fvR HR :=
    hs₂.isHeap hHR ((hsame₂ nm hcatalog hbefore).trans (congrFun hfile₁ nm))
  -- the load, and what is found afterwards
  obtain ⟨v₃, fvR', HR', o, hs₃, hHR₃, hloaded⟩ :=
    hs₂.load hacc hts hHR₂ ⟨hpacked, hcounted⟩ hframes hstep
  obtain ⟨v₄, hs₄, hsame₄⟩ := hs₃.run hwritten
  obtain ⟨v₅, hs₅, hsame₅⟩ := hs₄.run hlater
  obtain ⟨s', hy, hc⟩ := hs₅.quit
  obtain ⟨-, -, rfl⟩ := hquit.unique hy
  have hc := hc dataFile' hash'
  have hopened : ((db.replay before).load nm fileName data).opened nm = true := by
    rw [Tables.load_of_accepts hacc]
    exact Function.update_self ..
  have hfound := fun D => View.found_opened (D := D) hcatalog
    (hwf.load.opened_replay hopened after).1
    ((hsame₅ nm hcatalog hafter).trans ((hsame₄ nm hcatalog nofun).trans hHR₃.file))
  have hkept : fvR.kept = fvR.cur := hclean nm fvR hHR.file
  rw [← loadedTuples_eq_nil_iff hwidth]
  constructor
  · intro hintact
    obtain ⟨blk, hcur, hblk⟩ := hHR.heapAt.exists_hdr
    refine hc.eq_nil_of_intact (hfound _) ?_ ?_ hblk hHR.heapAt hcounted hintact
    · show fvR'.alloc fvR'.first
      rw [hHR₃.heapAt.first]
      exact hHR₃.heapAt.hdr_alloc
    · show fvR'.kept fvR'.first = some blk
      rw [hHR₃.heapAt.first, hloaded.grows.le.1, hloaded.grows.hdrKept, hkept, hcur]
  · intro hnil
    -- nothing has been written
    obtain ⟨rfl, rfl⟩ := hloaded.unchanged ((loadedTuples_eq_nil_iff hwidth).mp hnil)
    rw [FileView.surviving_eq_self hkept] at hfound
    have hHR' : ∀ D, IsHeap (v₅.found (Unsaved D _)) nm fvR' HR' := fun D =>
      ⟨hHR.name, hfound D, hHR.heapAt, hHR.sized, nofun⟩
    rw [hnil, List.append_nil]
    exact ((hHR' _).intact_iff hc).mpr ⟨rfl, hcounted⟩

/-- A relation is created in one session and loaded in the next one. -/
theorem intact_of_load_iff_one : ∃ u dataFile hash relCat attrCat s₁ s₂ s₃,
    StoredTables (fun _ => none) u (Tables.initial.replay [.createRel [65] 1 [oneAttr]]) ∧
    Yields openCatalogs (Sys.start u dataFile (fun _ => true) hash)
    (.OK, relCat, attrCat) false s₁ ∧
    TableRun (fun _ => none) (Tables.initial.replay [.createRel [65] 1 [oneAttr]]) s₁
      [.load [65] [70] (some [97, 0, 0, 0])] s₂ ∧
    Yields (UT_Quit relCat attrCat) s₂ () false s₃ ∧ ∀ dataFile' hash',
      ¬Intact (Sys.start s₃.unix dataFile' (fun _ => true) hash') [65] [[97, 0, 0, 0]] := by
  obtain ⟨⟨-, hcreate, -⟩, hload, hhalts⟩ := fitsAll_oneLoad
  obtain ⟨u₀, h₀⟩ := exists_storedTables
  obtain ⟨u, hlife⟩ := h₀.exists_lifetime .start [.createRel [65] 1 [oneAttr]] ⟨trivial,
    hcreate, trivial⟩
    (by decide) Command.not_drops_createRel fun _ => rfl
  have h := h₀.lifetime hlife
  have hfits : (Tables.initial.replay [.createRel [65] 1 [oneAttr]]).FitsAll (fun _ => none)
      [.load [65] [70] (some [97, 0, 0, 0])] := ⟨trivial, hload, hhalts⟩
  obtain ⟨dataFile, hash, relCat, attrCat, s₁, s₂, s₃, hopen, hrun, hquit⟩ :=
    h.exists_session hfits (by decide)
  refine ⟨u, dataFile, hash, relCat, attrCat, s₁, s₂, s₃, h, hopen, hrun, hquit,
    fun dataFile' hash' hintact => ?_⟩
  have hacc : (Tables.initial.replay [.createRel [65] 1 [oneAttr]]).accepts [65] [70]
    (some [97, 0, 0, 0]) =
      some (⟨[65], [oneAttr]⟩, [97, 0, 0, 0]) := rfl
  have hrun' : TableRun (fun _ => none) _ s₁ ([] ++ .load [65] [70]
    (some [97, 0, 0, 0]) :: []) s₂ := hrun
  have hlt := (intact_of_load_iff h rfl hopen hrun' nofun hacc (by decide) hquit dataFile'
    hash').mp hintact
  exact absurd hlt (by decide)

end Load

end Minirel
