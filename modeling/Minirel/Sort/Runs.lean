import Minirel.Sort.Key

/-!
# The runs of a sorted file

Each run has a scan of its own, which holds a pin on the header page of the run file and one on a
data page. The scans do not write, so that all pages stay as they are; what changes is where the
scans are, and which frames are pinned.

## Main definitions

* `SortedFile.RunInfo`, `SortedFile.OnRun`: what is known of a run.
* `SortedFile.Peek`: the record that a run has in memory, and those behind it.

## Main results

* `SortedFile.fetch_spec`: `fetch` puts the next record of a run in memory.
* `SortedFile.startScans_spec`: `startScans` opens the scans in front of all records.
-/

namespace Minirel

open Comp HeapFile

/-- The records that remain for a scan. -/
def Heap.recordsAfter (H : Heap) (p : Int) (k : Nat) : List Bytes :=
  (H.ridsAfter p k).filterMap H.rec?

/-- Two more pins take two frames at most. -/
theorem freeFrames_pair {N n : Nat} {x : Pin} {R : Multiset Pin} (h : n + 1 ≤ freeFrames N R) :
    n ≤ freeFrames N (x ::ₘ R) := by
  have := freeFrames_cons N x R
  omega

namespace SortedFile

/-- What is known of a run. -/
structure RunInfo where
  /-- The run file. -/
  heap : Heap
  /-- The pins of its scan. -/
  pins : Multiset Pin
  /-- The records that `next` has not returned. -/
  left : List Item
  /-- The record in memory, if there is one, and those behind it; it is what would be left if the
  run was marked now and the mark was gone to. -/
  here : List Item
  /-- What is left once the mark is gone to. -/
  back : Option (List Item)

/-- A run whose scan is on page `pageNo`, with the cursor `cur`, has the first of the records `l`
in memory, which has been given the RID `rid`, or is marked as ended. -/
inductive Peek (H : Heap) (pageNo : Int) (cur rid : RID) : List Item → Prop
  | ended (hrid : rid.pageNo < 0) : Peek H pageNo cur rid []
  | head (j : Nat) (x : Item) (t : List Item) (hpage : 0 ≤ pageNo) (hcur : cur = ⟨pageNo, j⟩)
      (hrid : rid = ⟨pageNo, j⟩) (hb : H.rec? ⟨pageNo, j⟩ = some x.bytes) (hne : x.bytes ≠ [])
      (ht : t.map Item.bytes = H.recordsAfter pageNo (j + 1)) : Peek H pageNo cur rid (x :: t)

/-- The pointer `r` is to the record `b` of the page. -/
structure Points (H : Heap) (h : HeapFileScan) (r : RecPtr) (b : Bytes) : Prop where
  page : r.page = h.curPage
  length : r.record.length = b.length
  data_nonneg : 0 ≤ r.record.data
  data_le : r.record.data + r.record.length ≤ 1004
  bytes : (H.page h.curPageNo).bytes? r.record.data r.record.length = some b

/-- The scan holds the pin `x` on the header page and the pin `y` on its data page. -/
structure HasPins (h : HeapFile) (H : Heap) (x y : Pin) : Prop where
  header : HasHeader h H x
  page : HasPage h H y
  wrote : y.wrote = false

/-- What is known of the run `r`. -/
structure OnRun (v : View) (r : RUN) (d : RunInfo) : Prop where
  file : ∃ fv c, v.file r.name = some fv ∧ HeapAt fv d.heap ∧
    v.handle r.name = some (r.inFile.filePtr, c)
  sized : d.heap.Sized
  filter : r.inFile.filter = none
  clean : r.inFile.curDirtyFlag = false
  pins : ∃ x y, d.pins = y ::ₘ x ::ₘ 0 ∧ HasPins r.inFile.toHeapFile d.heap x y
  fetched : r.valid = true → d.left = d.here
  /-- Without a record in memory the scan is in front of the records that are left. -/
  unfetched : r.valid = false → ∃ k : Nat, r.inFile.curRec.slotNo = k - 1 ∧
    d.left.map Item.bytes = d.heap.recordsAfter r.inFile.curPageNo k
  here : Peek d.heap r.inFile.curPageNo r.inFile.curRec r.rid d.here
  record : ∀ x t, d.here = x :: t → Points d.heap r.inFile r.record x.bytes
  back : ∀ l, d.back = some l → r.inFile.markedPageNo ∈ d.heap.pages ∧
    Peek d.heap r.inFile.markedPageNo r.inFile.markedRec r.mark l

/-- What calls that only move the scan of a run leave as it is. -/
def RunInfo.kept (d : RunInfo) : Heap × List Item × Option (List Item) := (d.heap, d.left, d.back)

/-- What does not change until the run is marked. -/
def RunInfo.frame (d : RunInfo) : Heap × Option (List Item) := (d.heap, d.back)

theorem RunInfo.map_heap {ds ds' : List RunInfo} (h : ds'.map frame = ds.map frame) :
    ds'.map heap = ds.map heap := by
  have hfst := congrArg (List.map Prod.fst) h
  rw [List.map_map, List.map_map] at hfst
  exact hfst

theorem RunInfo.map_back {ds ds' : List RunInfo} (h : ds'.map frame = ds.map frame) :
    ds'.map back = ds.map back := by
  have hsnd := congrArg (List.map Prod.snd) h
  rw [List.map_map, List.map_map] at hsnd
  exact hsnd

/-- What is left of a run can be read off the next record that is to be fetched. -/
theorem Peek.pageNo_iff {H : Heap} {p : Int} {cur rid : RID} {l : List Item}
    (h : Peek H p cur rid l) : rid.pageNo < 0 ↔ l = [] := by
  cases h with
  | ended hrid => simp [hrid]
  | head j x t hpage hcur hrid hb hne ht =>
    rw [hrid]
    simp [hpage]

namespace OnRun

variable {T : Prop} {s : Sys} {P R : Multiset Pin} {v v' : View} {r : RUN} {d : RunInfo}

/-- The pins are on pages of the run file. -/
theorem file_of_mem_pins {z : Pin} (h : OnRun v r d) (hz : z ∈ d.pins) :
    z.file = r.inFile.filePtr := by
  obtain ⟨x, y, hpins, hp⟩ := h.pins
  rw [hpins, Multiset.mem_cons, Multiset.mem_cons] at hz
  rcases hz with rfl | rfl | hz
  · exact hp.page.file
  · exact hp.header.file
  · exact absurd hz (Multiset.notMem_zero z)

/-- The scan holds its pins, whatever the others hold. -/
theorem holds (h : OnRun v r d) (hc : Coh s (d.pins + R) v) :
    ∃ x y, d.pins = y ::ₘ x ::ₘ 0 ∧ HasPins r.inFile.toHeapFile d.heap x y ∧
      HeapFileScan.Holds s R v r.inFile d.heap x := by
  obtain ⟨x, y, hpins, hp⟩ := h.pins
  refine ⟨x, y, hpins, hp, y, ?_, hp.page, fun ht => ?_⟩
  · rw [hpins, Multiset.cons_add, Multiset.cons_add, zero_add] at hc
    exact hc
  · rw [hp.wrote] at ht
    cases ht

/-- The data page of the run. -/
theorem deref (h : OnRun v r d) (hc : Coh s (d.pins + R) v) :
    ∃ blk, Yields (derefPage r.inFile.curPage) s blk false s ∧
      blk.asPage = d.heap.page r.inFile.curPageNo := by
  obtain ⟨x, y, -, -, hd⟩ := h.holds hc
  obtain ⟨fv, c, hf, hH, hh⟩ := h.file
  rw [← View.setFile_self hf] at hd
  exact hd.deref hh hH

/-- Reading from the record in memory. -/
theorem read {x : Item} {t : List Item} {offset length : Int} (h : OnRun v r d)
    (hc : Coh s (d.pins + R) v) (hx : d.here = x :: t) (ho : 0 ≤ offset) (hl : 0 ≤ length)
    (hol : offset + length ≤ x.bytes.length) :
    Yields (r.record.read offset length) s (sortField offset length x.bytes) false s := by
  obtain ⟨blk, hy, hblk⟩ := h.deref hc
  obtain ⟨hpage, hlen, hnonneg, hle, hbytes⟩ := h.record x t hx
  unfold RecPtr.read
  rw [hpage]
  refine hy.bind (d := false) ?_
  rw [hblk, Page.bytes?_slice hbytes hnonneg hle ho hl (by omega)]
  rfl

/-- If the other pins are on other files, there is a frame for the next page of the run: the one of
the page that it leaves. -/
theorem freeFrames_pos (h : OnRun v r d) (hc : Coh s (d.pins + R) v)
    (hR : ∀ z ∈ R, z.file ≠ r.inFile.filePtr) {x y : Pin} (hpins : d.pins = y ::ₘ x ::ₘ 0)
    (hp : HasPins r.inFile.toHeapFile d.heap x y) : 0 < freeFrames v.numBufs (x ::ₘ R) := by
  rw [hpins, Multiset.cons_add, Multiset.cons_add, zero_add] at hc
  obtain ⟨fv, c, hf, hH, hh⟩ := h.file
  refine hc.freeFrames_pos fun z hz hzy => ?_
  rcases Multiset.mem_cons.mp hz with rfl | hz
  · -- the header page is not a data page
    rw [hp.header.pageNo, hp.page.pageNo]
    rintro he
    exact hH.hdr_not_mem (he ▸ hp.page.mem)
  · exact absurd (hzy.trans hp.page.file) (hR z hz)

/-- `fetch` puts the next record of a run in memory, or marks the run as ended. -/
theorem fetch_spec (fuel : Nat) (h : OnRun v r d) (hc : Coh s (d.pins + R) v)
    (hT : T → (∀ z ∈ R, z.file ≠ r.inFile.filePtr) ∧
      d.heap.rids.length + d.heap.pages.length + 1 ≤ fuel) :
    Clean T (fetch fuel r) s fun q s' => q.1 = .OK ∧ q.2.valid = true ∧ q.2.name = r.name ∧
      ∃ d', OnRun v q.2 d' ∧ Coh s' (d'.pins + R) v ∧ d'.kept = d.kept := by
  unfold fetch
  cases hvalid : r.valid with
  | true =>
    rw [if_pos rfl, clean_pure]
    exact ⟨rfl, hvalid, rfl, d, h, hc, rfl⟩
  | false =>
    rw [if_neg (by decide)]
    obtain ⟨x, y, hpins, hp, hd⟩ := h.holds hc
    obtain ⟨fv, c, hf, hH, hh⟩ := h.file
    obtain ⟨k, hk, hleft⟩ := h.unfetched hvalid
    have hd' := hd
    rw [← View.setFile_self hf] at hd'
    refine (HeapFileScan.scanNext_all fuel hd' hh hH h.sized h.filter hk fun ht => ?_).bind ?_
    · have := Heap.length_ridsAfter_le (k := k) hd.mem
      have := (hT ht).2
      exact ⟨h.freeFrames_pos hc (hT ht).1 hpins hp, by omega⟩
    rintro ⟨st, rid, h'⟩ s₁ ⟨fv', k', hfor, hm, hfilter, hh', hH', hd₁, hk', htook⟩
    -- nothing is lost, since the page is not dirty
    obtain rfl : fv' = fv := hfor.eq_of_not fun p hp => by
      rw [h.clean] at hp
      cases hp.1
    have hget : ∀ j b, h'.curRec.slotNo = (j : Nat) → d.heap.rec? ⟨h'.curPageNo, j⟩ = some b →
        b ≠ [] → _ := fun j b => HeapFileScan.getRecord_spec hd₁ hh' hH'
    rw [View.setFile_self hf] at hd₁
    have hmem := hd₁.mem
    obtain ⟨z, hc₁, hz, hw⟩ := hd₁
    have hclean : h'.curDirtyFlag = false := by
      obtain ⟨_, _, dirty, _, rfl, hdirty⟩ := hm
      rw [h.clean] at hdirty
      exact Bool.eq_false_iff.mpr fun ht => nomatch (hdirty ht).1
    have hwrote : z.wrote = false := Bool.eq_false_iff.mpr fun ht => by
      rw [hclean] at hw
      cases hw ht
    have hmarks : h'.markedPageNo = r.inFile.markedPageNo ∧
        h'.markedRec = r.inFile.markedRec := by
      obtain ⟨_, _, _, _, rfl, -⟩ := hm
      exact ⟨rfl, rfl⟩
    have hback : ∀ l, d.back = some l → h'.markedPageNo ∈ d.heap.pages ∧
        Peek d.heap h'.markedPageNo h'.markedRec r.mark l := by
      rw [hmarks.1, hmarks.2]
      exact h.back
    dsimp only at hfilter hh' hk' htook hc₁ hz hmem ⊢
    cases htook with
    | record j b hjk hcur hb hne hL =>
      rw [if_neg (by decide), if_neg fun hn => hn rfl]
      obtain ⟨rec, hy, hlen, hnonneg, hle, hbytes⟩ := hget j b (by rw [hcur]) hb hne
      rw [clean_bind_of_yields hy]
      dsimp only
      rw [if_neg fun hn => hn rfl, clean_pure]
      -- the cursor is on the record
      obtain rfl : k' = j + 1 := by
        rw [hcur] at hk'
        dsimp only at hk'
        omega
      have hsplit : d.left.map Item.bytes = b :: d.heap.recordsAfter h'.curPageNo (j + 1) := by
        rw [hleft]
        unfold Heap.recordsAfter
        rw [hL, List.filterMap_cons, hb]
      obtain ⟨x', t, hx, hbx, ht⟩ := List.map_eq_cons_iff.mp hsplit
      have hpage : 0 ≤ h'.curPageNo := by
        have := hc₁.pos_of_alloc hf (hH.alloc _ hmem)
        omega
      refine ⟨rfl, rfl, rfl, ⟨d.heap, z ::ₘ x ::ₘ 0, d.left, d.left, d.back⟩, ?_, ?_, rfl⟩
      · exact {
          file := ⟨fv', c, hf, hH, hh'⟩
          sized := h.sized
          filter := hfilter
          clean := hclean
          pins := ⟨x, z, rfl, hm.hasHeader hp.header, hz, hwrote⟩
          fetched := fun _ => rfl
          unfetched := nofun
          here := by
            show Peek d.heap h'.curPageNo h'.curRec ⟨h'.curPageNo, j⟩ d.left
            rw [hx, hcur]
            exact .head j x' t hpage rfl rfl (hbx ▸ hb) (hbx ▸ hne) ht
          record := fun x'' t' hx'' => by
            dsimp only at hx''
            rw [hx] at hx''
            cases hx''
            rw [hbx]
            exact ⟨rfl, hlen, hnonneg, hle, hbytes⟩
          back := hback }
      · rw [Multiset.cons_add, Multiset.cons_add, zero_add]
        exact hc₁
    | eof rid hL =>
      rw [if_pos rfl, clean_pure]
      have hnil : d.left = [] := by
        unfold Heap.recordsAfter at hleft
        rw [hL] at hleft
        exact List.map_eq_nil_iff.mp hleft
      refine ⟨rfl, rfl, rfl, ⟨d.heap, z ::ₘ x ::ₘ 0, d.left, d.left, d.back⟩, ?_, ?_, rfl⟩
      · exact {
          file := ⟨fv', c, hf, hH, hh'⟩
          sized := h.sized
          filter := hfilter
          clean := hclean
          pins := ⟨x, z, rfl, hm.hasHeader hp.header, hz, hwrote⟩
          fetched := fun _ => rfl
          unfetched := nofun
          here := by
            dsimp only
            rw [hnil]
            exact .ended (by show (-1 : Int) < 0; decide)
          record := fun x'' t' hx'' => by
            dsimp only at hx''
            rw [hnil] at hx''
            cases hx''
          back := hback }
      · rw [Multiset.cons_add, Multiset.cons_add, zero_add]
        exact hc₁

/-- When the record in memory has been returned, it has to be fetched anew. -/
theorem consume {x : Item} {t : List Item} (h : OnRun v r d) (hx : d.here = x :: t) :
    OnRun v { r with valid := false } { d with left := t } where
  file := h.file
  sized := h.sized
  filter := h.filter
  clean := h.clean
  pins := h.pins
  fetched := nofun
  unfetched _ := by
    have hpeek := h.here
    rw [hx] at hpeek
    cases hpeek with
    | head j x t hpage hcur hrid hb hne ht =>
      refine ⟨j + 1, ?_, ht⟩
      show r.inFile.curRec.slotNo = _
      rw [hcur]
      dsimp only
      omega
  here := h.here
  record := h.record
  back := h.back

end OnRun

/-! ## Opening the scans -/

/-- Files have been opened between the two views, and nothing else has happened. -/
structure Opened (v v' : View) : Prop where
  file : v'.file = v.file
  numBufs : v'.numBufs = v.numBufs
  handle : ∀ nm f c, v.handle nm = some (f, c) → ∃ c', v'.handle nm = some (f, c')
  pos : ∀ nm, (∀ f c, v.handle nm = some (f, c) → 0 < c) →
    ∀ f c, v'.handle nm = some (f, c) → 0 < c

/-- The heap file `H` can be opened. -/
def RunFile (v : View) (nm : FileName) (H : Heap) : Prop :=
  nm ≠ [] ∧ (∃ fv, v.file nm = some fv ∧ HeapAt fv H) ∧ H.Sized ∧
    ∀ f c, v.handle nm = some (f, c) → 0 < c

/-- The run `run` is kept in the heap file `e.1`, and its records are `e.2`. -/
def RunOf (v : View) (run : RUN) (e : Heap × List Item) : Prop :=
  RunFile v run.name e.1 ∧ e.2.map Item.bytes = e.1.recordsAfter e.1.hdr.firstPage 0

namespace Opened

variable {v v' v'' : View} {nm : FileName} {f : FilePtr} {r : RUN} {d : RunInfo} {H : Heap}

theorem refl (v : View) : Opened v v := ⟨rfl, rfl, fun _ _ c hh => ⟨c, hh⟩, fun _ h => h⟩

theorem trans (h : Opened v v') (h' : Opened v' v'') : Opened v v'' where
  file := h'.file.trans h.file
  numBufs := h'.numBufs.trans h.numBufs
  handle nm f c hh := by
    obtain ⟨c', hh'⟩ := h.handle nm f c hh
    exact h'.handle nm f c' hh'
  pos nm hpos := h'.pos nm (h.pos nm hpos)

/-- Opening a file once more. -/
theorem setHandle (hpos : ∀ g c, v.handle nm = some (g, c) → 0 < c)
    (hsame : ∀ g c, v.handle nm = some (g, c) → f = g) :
    Opened v (v.setHandle nm (some (f, v.openCnt nm + 1))) where
  file := rfl
  numBufs := rfl
  handle nm' g c hh := by
    by_cases hnm : nm' = nm
    · subst hnm
      rw [View.handle_setHandle_self, hsame g c hh]
      exact ⟨_, rfl⟩
    · exact ⟨c, (View.handle_setHandle_of_ne hnm).trans hh⟩
  pos nm' hpos' g c hh := by
    by_cases hnm : nm' = nm
    · subst hnm
      rw [View.handle_setHandle_self] at hh
      cases hh
      unfold View.openCnt
      split
      next e he =>
        have := hpos _ _ he
        omega
      next => decide
    · rw [View.handle_setHandle_of_ne hnm] at hh
      exact hpos' g c hh

theorem runFile (h : Opened v v') (hr : RunFile v nm H) : RunFile v' nm H := by
  obtain ⟨hnm, hf, hsized, hpos⟩ := hr
  exact ⟨hnm, h.file ▸ hf, hsized, h.pos nm hpos⟩

theorem runOf {e : Heap × List Item} (h : Opened v v') (hr : RunOf v r e) : RunOf v' r e :=
  ⟨h.runFile hr.1, hr.2⟩

/-- What is known of a run stays so while other files are opened. -/
theorem onRun (h : Opened v v') (hr : OnRun v r d) : OnRun v' r d := by
  obtain ⟨fv, c, hf, hH, hh⟩ := hr.file
  obtain ⟨c', hh'⟩ := h.handle _ _ _ hh
  exact { hr with file := ⟨fv, c', h.file ▸ hf, hH, hh'⟩ }

end Opened

/-- The pins of some runs. -/
def pinsOf (ds : List RunInfo) : Multiset Pin := (ds.map RunInfo.pins).sum

@[simp] theorem pinsOf_nil : pinsOf [] = 0 := rfl

@[simp]
theorem pinsOf_cons (d : RunInfo) (ds : List RunInfo) : pinsOf (d :: ds) = d.pins + pinsOf ds := by
  unfold pinsOf
  rw [List.map_cons, List.sum_cons]

@[simp]
theorem pinsOf_append (ds es : List RunInfo) : pinsOf (ds ++ es) = pinsOf ds + pinsOf es := by
  unfold pinsOf
  rw [List.map_append, List.sum_append]

theorem mem_pinsOf {z : Pin} {ds : List RunInfo} (hz : z ∈ pinsOf ds) : ∃ d ∈ ds, z ∈ d.pins := by
  induction ds with
  | nil => exact absurd hz (Multiset.notMem_zero z)
  | cons d ds ih =>
    rw [pinsOf_cons, Multiset.mem_add] at hz
    rcases hz with hz | hz
    · exact ⟨d, List.mem_cons_self, hz⟩
    · obtain ⟨e, he, hze⟩ := ih hz
      exact ⟨e, List.mem_cons_of_mem d he, hze⟩

/-- The pins of one run are among those of all runs. -/
theorem exists_pinsOf {ds : List RunInfo} {d : RunInfo} (hd : d ∈ ds) (P : Multiset Pin) :
    ∃ R, pinsOf ds + P = d.pins + R := by
  obtain ⟨pre, post, rfl⟩ := List.append_of_mem hd
  refine ⟨pinsOf pre + pinsOf post + P, ?_⟩
  rw [pinsOf_append, pinsOf_cons, add_left_comm, add_assoc]

/-- The run with a number. -/
theorem exists_run {v : View} {runs : List RUN} {ds : List RunInfo} {i : Nat} {d : RunInfo}
    (h : List.Forall₂ (OnRun v) runs ds) (hi : ds[i]? = some d) :
    ∃ r, runs[i]? = some r ∧ OnRun v r d := by
  obtain ⟨hlt, rfl⟩ := List.getElem?_eq_some_iff.mp hi
  have hlt' : i < runs.length := h.length_eq ▸ hlt
  exact ⟨runs[i], List.getElem?_eq_getElem hlt', h.get hlt' hlt⟩

/-- No two runs have the same file, and no other object has a page of a run file pinned. -/
structure Private (v : View) (P : Multiset Pin) (names : List FileName) : Prop where
  nodup : names.Nodup
  others : ∀ z ∈ P, ∀ nm ∈ names, ∀ c, v.handle nm ≠ some (z.file, c)

/-- For all runs but the first, the pins of the first one are pins of another object. -/
theorem Private.tail {s : Sys} {P Q : Multiset Pin} {v : View} {run : RUN} {nm : FileName}
    {names : List FileName} {d : RunInfo} (hp : Private v P (nm :: names)) (hc : Coh s Q v)
    (hrun : OnRun v run d) (hnm : run.name = nm) : Private v (d.pins + P) names where
  nodup := (List.nodup_cons.mp hp.nodup).2
  others z hz nm' hnm' c hh := by
    rcases Multiset.mem_add.mp hz with hz | hz
    · obtain ⟨-, c', -, -, hh'⟩ := hrun.file
      rw [hrun.file_of_mem_pins hz] at hh
      have hname := hc.name_unique hh' hh
      exact (List.nodup_cons.mp hp.nodup).1 (hnm ▸ hname ▸ hnm')
    · exact hp.others z hz nm' (List.mem_cons_of_mem _ hnm') c hh

/-- The pins of the other runs, and of other objects, are on other files. -/
theorem Private.file_ne {s : Sys} {P Q : Multiset Pin} {v : View} {done runs : List RUN} {run : RUN}
    {ds₀ ds : List RunInfo} {d : RunInfo}
    (hp : Private v P ((done ++ run :: runs).map RUN.name)) (hc : Coh s Q v)
    (hdone : List.Forall₂ (OnRun v) done ds₀) (hruns : List.Forall₂ (OnRun v) runs ds)
    (hrun : OnRun v run d) : ∀ z ∈ pinsOf (ds₀ ++ ds) + P, z.file ≠ run.inFile.filePtr := by
  obtain ⟨-, c, -, -, hh⟩ := hrun.file
  intro z hz he
  rcases Multiset.mem_add.mp hz with hz | hz
  · obtain ⟨e, hemem, hze⟩ := mem_pinsOf hz
    obtain ⟨i, hi, rfl⟩ := List.mem_iff_getElem.mp hemem
    obtain ⟨r, hr, hrune⟩ := exists_run (List.rel_append hdone hruns) (List.getElem?_eq_getElem hi)
    obtain ⟨-, c', -, -, hh'⟩ := hrune.file
    -- a run with the same file has the same name
    rw [← hrune.file_of_mem_pins hze, he] at hh'
    have hname := hc.name_unique hh' hh
    have hnd := hp.nodup
    rw [List.map_append, List.map_cons, List.nodup_middle,
      List.nodup_cons, ← List.map_append] at hnd
    exact hnd.1 (hname ▸ List.mem_map_of_mem (List.mem_of_getElem? hr))
  · refine hp.others z hz run.name (List.mem_map_of_mem ?_) c (he ▸ hh)
    exact List.mem_append_right _ List.mem_cons_self

/-- What is known of a run that has been started: all records are left, and none is in memory. -/
def RunInfo.started (e : Heap × List Item) (x y : Pin) : RunInfo :=
  ⟨e.1, y ::ₘ x ::ₘ 0, e.2, [], none⟩

/-- The loop of `startScans` opens a scan in front of the records of each run. -/
theorem startRuns_spec {T : Prop} {s : Sys} {P : Multiset Pin} {v : View} {runs : List RUN}
    {es : List (Heap × List Item)} (hc : Coh s P v)
    (hes : List.Forall₂ (RunOf v) runs es)
    (hT : T → 2 * runs.length ≤ freeFrames v.numBufs P) :
    Clean T (startRuns runs) s fun q s' => q.1 = .OK ∧
      q.2.map RUN.name = runs.map RUN.name ∧ ∃ v' ds, Opened v v' ∧ List.Forall₂ (OnRun v') q.2 ds ∧
      Coh s' (pinsOf ds + P) v' ∧
        List.Forall₂ (fun (e : Heap × List Item) d => ∃ x y, d = RunInfo.started e x y) es ds := by
  induction runs generalizing s P v es with
  | nil =>
    cases hes
    unfold startRuns
    rw [clean_pure]
    refine ⟨rfl, rfl, v, [], Opened.refl v, .nil, ?_, .nil⟩
    rw [pinsOf_nil, zero_add]
    exact hc
  | cons run runs ih =>
    cases hes with
    | @cons _ e _ es he hes =>
    obtain ⟨⟨hnm, ⟨fv, hf, hH⟩, hsized, hpos⟩, hleft⟩ := he
    rw [List.length_cons] at hT
    unfold startRuns
    refine (HeapFileScan.new_spec hc hnm hf hH hpos fun ht => by have := hT ht; omega).bind ?_
    rintro ⟨st, h⟩ s₁ ⟨hst, x, -, hn⟩
    dsimp only at hst hn ⊢
    subst hst
    rw [if_neg fun hn => hn rfl]
    have hstart : h.startScan 0 0 .STRING none .EQ = (.OK, { h with filter := none }) := rfl
    rw [hstart]
    dsimp only
    rw [if_neg fun hn => hn rfl]
    obtain ⟨y, hc₁, hy, hw⟩ := hn.coh
    have hopen : Opened v (v.setHandle run.name (some (h.filePtr, v.openCnt run.name + 1))) :=
      Opened.setHandle hpos hn.same
    rw [View.setFile_self (show (v.setHandle _ _).file run.name = some fv from hf)] at hc₁
    -- the other runs are opened after it
    refine (ih hc₁ (hes.imp fun _ _ => hopen.runOf) fun ht => ?_).bind ?_
    · have := hT ht
      exact freeFrames_pair (freeFrames_pair (by
        show 2 * _ + 1 + 1 ≤ freeFrames v.numBufs P
        omega))
    rintro ⟨st, runs'⟩ s₂ ⟨hst, hnames, v', ds, hopen', hruns, hc₂, hds⟩
    rw [clean_pure]
    refine ⟨hst, congrArg (run.name :: ·) hnames, v', RunInfo.started e x y :: ds,
      hopen.trans hopen', ?_, ?_,
      .cons ⟨x, y, rfl⟩ hds⟩
    · refine .cons (hopen'.onRun ?_) hruns
      exact {
        file := ⟨fv, _, hf, hH, View.handle_setHandle_self⟩
        sized := hsized
        filter := rfl
        clean := hn.clean
        pins := ⟨x, y, rfl, hn.header, ⟨hy.file, hy.pageNo, hy.curPage, hy.mem⟩,
          Bool.eq_false_iff.mpr fun ht => by
          have := hw ht
          rw [hn.clean] at this
          cases this⟩
        fetched := fun ht => Bool.noConfusion ht
        unfetched := fun _ => ⟨0, hn.slot, by
          show e.2.map Item.bytes = e.1.recordsAfter h.curPageNo 0
          rw [hn.curPageNo]
          exact hleft⟩
        here := .ended (by show (-1 : Int) < 0; decide)
        record := fun i t ht => absurd ht.symm (List.cons_ne_nil i t)
        back := fun l hl => absurd hl.symm (Option.some_ne_none l) }
    · rw [pinsOf_cons]
      show Coh s₂ ((y ::ₘ x ::ₘ 0) + pinsOf ds + P) v'
      rw [add_comm (y ::ₘ x ::ₘ 0), add_assoc, Multiset.cons_add, Multiset.cons_add, zero_add]
      exact hc₂

/-- What can be read off the runs that have been started. -/
theorem map_started {β : Type} {es : List (Heap × List Item)} {ds : List RunInfo} {g : RunInfo → β}
    {k : Heap × List Item → β} (hg : ∀ e x y, g (RunInfo.started e x y) = k e)
    (h : List.Forall₂ (fun (e : Heap × List Item) d => ∃ x y, d = RunInfo.started e x y) es ds) :
    ds.map g = es.map k := by
  induction h with
  | nil => rfl
  | cons he _ ih =>
    obtain ⟨x, y, rfl⟩ := he
    rw [List.map_cons, List.map_cons, hg, ih]

/-- The file `f` has the runs `Hs`, whose records have the sort attribute, and no other object has a
page of a run file pinned. -/
structure StoredRuns (s : Sys) (P : Multiset Pin) (v : View) (f : SortedFile) (Hs : List Heap) :
    Prop where
  coh : Coh s P v
  files : List.Forall₂ (fun (run : RUN) (H : Heap) => run.name ≠ [] ∧
    (∃ fv, v.file run.name = some fv ∧ HeapAt fv H) ∧
    ∀ g c, v.handle run.name = some (g, c) → 0 < c ∧ ∀ z ∈ P, z.file ≠ g) f.runs Hs
  names : (f.runs.map RUN.name).Nodup
  attr : Attribute f.offset f.length (Hs.map Heap.contents).flatten

namespace StoredRuns

variable {s : Sys} {P : Multiset Pin} {v : View} {f : SortedFile} {Hs : List Heap}

/-- No record is empty. -/
theorem sized (h : StoredRuns s P v f Hs) {H : Heap} {fv : FileView} (hmem : H ∈ Hs)
    (hH : HeapAt fv H) : H.Sized := by
  rintro rid b hb rfl
  have hlen := h.attr.reach [] (List.mem_flatten.mpr ⟨H.contents, List.mem_map_of_mem hmem, by
    unfold Heap.contents
    exact List.mem_map.mpr ⟨(rid, []), (Heap.mem_records hH).mpr hb, rfl⟩⟩)
  have := h.attr.offset_nonneg
  have := h.attr.length_pos
  rw [List.length_nil] at hlen
  omega

/-- The runs with their records. -/
theorem runOf (h : StoredRuns s P v f Hs) : List.Forall₂ (RunOf v) f.runs
    (Hs.mapIdx fun i H => (H, tag i H.contents)) := by
  refine List.forall₂_iff_get.mpr ⟨?_, fun i hi hi' => ?_⟩
  · rw [List.length_mapIdx, h.files.length_eq]
  · have hlt : i < Hs.length := h.files.length_eq ▸ hi
    obtain ⟨hnm, ⟨fv, hf, hH⟩, hpos⟩ := h.files.get hi hlt
    have hrecs : (tag i Hs[i].contents).map Item.bytes =
        Hs[i].recordsAfter Hs[i].hdr.firstPage 0 := by
      have hH' : HeapAt fv Hs[i] := hH
      rw [map_bytes_tag, Heap.contents_eq, hH'.rids_eq]
      rfl
    rw [List.get_eq_getElem, List.get_eq_getElem, List.getElem_mapIdx]
    exact ⟨⟨hnm, ⟨fv, hf, hH⟩, h.sized (List.getElem_mem hlt) hH, fun g c hh => (hpos g c hh).1⟩,
      hrecs⟩

theorem map_snd (Hs : List Heap) : (Hs.mapIdx fun i H => (H, tag i H.contents)).map Prod.snd =
    tagAll (Hs.map Heap.contents) := by
  unfold tagAll
  apply List.ext_getElem
  · simp
  · intro i h₁ h₂
    simp

theorem map_fst (Hs : List Heap) :
    (Hs.mapIdx fun i H => (H, tag i H.contents)).map Prod.fst = Hs := by
  apply List.ext_getElem
  · simp
  · intro i h₁ h₂
    simp

end StoredRuns

/-- `startScans` opens the scans, if there are frames for them. -/
theorem startScans_spec {T : Prop} {s : Sys} {P : Multiset Pin} {v : View} {f : SortedFile}
    {Hs : List Heap} (h : StoredRuns s P v f Hs)
    (hT : T → 2 * f.runs.length ≤ freeFrames v.numBufs P) :
    Clean T (startScans f) s fun q s' => q.1 = .OK ∧ ∃ v' runs' ds, q.2 = { f with runs := runs' } ∧
      List.Forall₂ (OnRun v') runs' ds ∧ Coh s' (pinsOf ds + P) v' ∧
      Private v' P (runs'.map RUN.name) ∧ ds.map RunInfo.left = tagAll (Hs.map Heap.contents) ∧
      ds.map RunInfo.heap = Hs ∧ ∀ d ∈ ds, d.here = [] := by
  unfold startScans
  refine (startRuns_spec h.coh h.runOf hT).bind ?_
  rintro ⟨st, runs'⟩ s' ⟨hst, hnames, v', ds, hopen, hruns, hc, hds⟩
  dsimp only at hst hnames hruns
  rw [clean_pure]
  refine ⟨hst, v', runs', ds, rfl, hruns, hc, ⟨hnames ▸ h.names, ?_⟩,
    (map_started (fun _ _ _ => rfl) hds).trans (StoredRuns.map_snd Hs),
    (map_started (fun _ _ _ => rfl) hds).trans (StoredRuns.map_fst Hs), ?_⟩
  · -- a file that another object has a page of was open before
    intro z hz nm hnm c hh
    obtain ⟨nm', c', fv, hh', -, -⟩ := h.coh.cached _ _ _ (h.coh.pins z hz)
    obtain ⟨c'', hh''⟩ := hopen.handle _ _ _ hh'
    obtain rfl := hc.name_unique hh'' hh
    rw [hnames] at hnm
    obtain ⟨run, hrun, rfl⟩ := List.mem_map.mp hnm
    obtain ⟨i, hi, rfl⟩ := List.mem_iff_getElem.mp hrun
    obtain ⟨-, -, hpos⟩ := h.files.get hi (h.files.length_eq ▸ hi)
    exact (hpos _ _ hh').2 z hz rfl
  · intro d hd
    obtain ⟨i, hi, rfl⟩ := List.mem_iff_getElem.mp hd
    obtain ⟨x, y, hxy⟩ := hds.get (hds.length_eq ▸ hi) hi
    rw [List.get_eq_getElem, List.get_eq_getElem] at hxy
    rw [hxy]
    rfl

end SortedFile

end Minirel
