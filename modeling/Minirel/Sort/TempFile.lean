import Minirel.Partition
import Minirel.HeapFile.Sweep

/-!
# The temporary files of sorting and partitioning

`SortedFile::generateRun` and the constructor of `Partition` construct an `InsertFileScan` on a file
that does not exist, which the comment in `generateRun` takes to create the file. `openFile` does
not create files: the constructor of `HeapFile` leaves the data members of the object unset, and
the one of `InsertFileScan` goes on to use them.

## Main definitions

* `SortedFile.Generated`: the runs that the constructor of `SortedFile` is to leave behind.
* `Partition.Partitioned`: the files that the constructor of `Partition` is to leave behind.

## Main results

* `SortedFile.new_generated_iff`: a file can be sorted if and only if it has no records.
* `Partition.not_partitioned`: no file can be partitioned.
-/

namespace Minirel

open Comp HeapFile

/-- The constructor of `InsertFileScan` on a file that does not exist uses pointers that have not
been set. -/
theorem InsertFileScan.new_absent {s : Sys} {P : Multiset Pin} {v : View} {nm : FileName}
    (hc : Coh s P v) (hnm : nm ≠ []) (hf : v.file nm = none) (hforeign : ¬v.foreign nm) :
    Runs False (InsertFileScan.new nm) s fun _ _ _ => False := by
  obtain ⟨f, s', hy, -, -⟩ := hc.openFile_absent hnm hf hforeign
  have hnew : Yields (HeapFile.new nm) s (.UNIXERR, uninit) false s' := by
    unfold HeapFile.new
    exact hy.bind (d := false) (Yields.pure _ _)
  unfold InsertFileScan.new
  rw [runs_bind_of_yields hnew]
  -- the header page is a wild pointer
  exact Runs.bind_of_false (Runs.failure id)

namespace SortedFile

/-! ## Runs -/

/-- Two records in the order of the sort attribute. -/
def InOrder (offset length : Int) (type : Datatype) (a b : Bytes) : Prop :=
  ∃ c ≤ 0, reccmp ((a.drop offset.toNat).take length.toNat)
  ((b.drop offset.toNat).take length.toNat)
    length length type = some c

/-- The runs of a source file with the records `l`: there are as many as needed, each of them is a
heap file of at most `maxItems` records in order, and together they have the records of the
source. -/
def Generated (s : Sys) (f : SortedFile) (l : List Bytes) : Prop :=
  (f.runs.length : Int) = (l.length + f.maxItems - 1) / f.maxItems ∧
  ∃ Hs : List Heap,
    List.Forall₂ (fun run H => s.heap? run.name = some H ∧ H.Chained ∧
      (H.records.length : Int) ≤ f.maxItems ∧
      (H.records.map Prod.snd).Pairwise (InOrder f.offset f.length f.type)) f.runs Hs ∧
    ((Hs.flatMap Heap.records).map Prod.snd).Perm l

variable {s : Sys} {R : Multiset Pin} {v : View} {nm : FileName} {c : Int} {fv : FileView}
  {H : Heap} {h : HeapFileScan} {x : Pin} {k : Nat}

/-- While records are collected the scan keeps its page. If there is a record, one is collected. -/
theorem fillBuffer_spec (fuel n : Nat) (offset length : Int)
    (hd : HeapFileScan.Holds s R (v.setFile nm (some fv)) h H x)
    (hh : v.handle nm = some (h.filePtr, c)) (hH : HeapAt fv H) (hsized : H.Sized)
    (hfilter : h.filter = none) (hk : h.curRec.slotNo = k - 1) :
    Clean False (fillBuffer fuel offset length n h) s fun r s' => r.1 = .OK ∧
      (n ≠ 0 → H.ridsAfter h.curPageNo k ≠ [] → r.2.1 ≠ []) ∧
      ∃ fv', HeapFileScan.Holds s' R (v.setFile nm (some fv')) r.2.2 H x := by
  induction n generalizing s fv h k with
  | zero =>
    unfold fillBuffer
    rw [clean_pure]
    exact ⟨rfl, fun hn => absurd rfl hn, fv, hd⟩
  | succ n ih =>
    unfold fillBuffer
    refine (HeapFileScan.scanNext_all fuel hd hh hH hsized hfilter hk fun hf => hf.elim).bind ?_
    rintro ⟨st, rid, h'⟩ s' ⟨fv', k', -, -, hfilter', hh', hH', hd', hk', htook⟩
    dsimp only at hfilter' hh' hd' hk' htook ⊢
    cases htook with
    | record j b _ hcur hb hne hL =>
      rw [if_neg (by decide), if_neg fun hn => hn rfl]
      obtain ⟨rec, hy, -, -, -, -⟩ := HeapFileScan.getRecord_spec hd' hh' hH' (by rw [hcur]) hb hne
      rw [clean_bind_of_yields hy]
      dsimp only
      rw [if_neg fun hn => hn rfl]
      -- reading the field changes nothing
      obtain ⟨blk, hy', -⟩ := hd'.deref hh' hH'
      unfold RecPtr.read
      rw [bind_assoc, clean_bind_of_yields hy']
      refine Clean.ofOption_bind (fun hf => hf.elim) fun field _ => ?_
      refine (ih hd' hh' hH' hfilter' hk').bind ?_
      rintro ⟨st, items, h''⟩ s'' ⟨hst, -, hd''⟩
      rw [clean_pure]
      exact ⟨hst, fun _ _ => List.cons_ne_nil _ _, hd''⟩
    | eof rid hL =>
      rw [if_pos rfl, clean_pure]
      exact ⟨rfl, fun _ hne => absurd hL hne, fv', hd'⟩

/-- No run is written: its file is created and destroyed again, and then it does not exist. -/
theorem generateRun_absent {P : Multiset Pin} (qsort : Qsort) (f : SortedFile)
    (buffer : List SORTREC) (hc : Coh s P v)
    (hf : v.file (runName f.fileName (f.runs.length + 1)) = none)
    (hforeign : ¬v.foreign (runName f.fileName (f.runs.length + 1))) :
    Runs False (generateRun qsort f buffer) s fun _ _ _ => False := by
  have hnm : runName f.fileName (f.runs.length + 1) ≠ [] := by
    unfold runName
    simp
  unfold generateRun
  obtain ⟨s₁, hy₁, hc₁⟩ := hc.createFile hnm hf hforeign
  rw [runs_bind_of_yields hy₁, if_neg fun hn => hn rfl]
  have hh : v.handle (runName f.fileName (f.runs.length + 1)) = none := hc.handle_eq_none hf
  obtain ⟨s₂, hy₂, hc₂⟩ := hc₁.destroyFile hnm View.file_setFile_self hh
  rw [runs_bind_of_yields hy₂, if_neg fun hn => hn rfl]
  exact (InsertFileScan.new_absent hc₂ hnm View.file_setFile_self hforeign).bind_of_false

/-- With a record in the source file a run is to be written. -/
theorem sortFile_of_records {P : Multiset Pin} (qsort : Qsort) (fuel : Nat) (f : SortedFile)
    (hc : Coh s P v) (hnm : f.fileName ≠ []) (hf : v.file f.fileName = some fv) (hH : HeapAt fv H)
    (hsized : H.Sized) (hpos : ∀ g c, v.handle f.fileName = some (g, c) → 0 < c)
    (hruns : f.runs = []) (hitems : 2 ≤ f.maxItems)
    (habsent : v.file (runName f.fileName 1) = none) (hforeign : ¬v.foreign (runName f.fileName 1))
    (hne : H.rids ≠ []) : Clean False (sortFile qsort fuel f) s fun _ _ => False := by
  unfold sortFile
  refine (HeapFileScan.new_spec hc hnm hf hH hpos fun hf => hf.elim).bind ?_
  rintro ⟨st, h⟩ s₁ ⟨hst, x, -, hn⟩
  dsimp only at hst hn ⊢
  subst hst
  rw [if_neg fun hn => hn rfl]
  refine Clean.bind_of_false ?_
  cases fuel with
  | zero => exact Clean.failure id
  | succ fuel =>
    unfold sortLoop
    refine (fillBuffer_spec (h := { h with filter := none }) (k := 0) (fuel + 1) _ _ _ hn.coh
      View.handle_setHandle_self hH hsized rfl hn.slot).bind ?_
    rintro ⟨st, buffer, h'⟩ s₂ ⟨hst, hbuf, fv', y, hc₂, -⟩
    dsimp only at hst hbuf hc₂ ⊢
    have hL : H.ridsAfter h.curPageNo 0 ≠ [] := by
      rw [hn.ridsAfter hH]
      exact hne
    rw [hst, if_neg fun hn => hn rfl, if_neg (hbuf (by omega) hL)]
    have hother : runName f.fileName 1 ≠ f.fileName := by
      intro he
      rw [he, hf] at habsent
      cases habsent
    have hone : f.runs.length + 1 = 1 := by rw [hruns]; rfl
    exact Runs.bind_of_false (generateRun_absent qsort f buffer hc₂
      (by rw [hone]; exact (View.file_setFile_of_ne hother).trans habsent)
      (by rw [hone]; exact hforeign))

/-- At the end of the source file nothing is collected, and the scan stays where it is. -/
theorem fillBuffer_end {T : Prop} (fuel n : Nat) (offset length : Int)
    (hd : HeapFileScan.Holds s R (v.setFile nm (some fv)) h H x)
    (hh : v.handle nm = some (h.filePtr, c)) (hH : HeapAt fv H) (hx : HasHeader h.toHeapFile H x)
    (hk : h.curRec.slotNo = k - 1) (hend : H.ridsAfter h.curPageNo k = [])
    (hT : T → 0 < freeFrames v.numBufs (x ::ₘ R) ∧ H.pages.length + 1 ≤ fuel) :
    Clean T (fillBuffer fuel offset length (n + 1) h) s fun r s' => r.1 = .OK ∧ r.2.1 = [] ∧
      ∃ fv', HeapFileScan.Holds s' R (v.setFile nm (some fv')) r.2.2 H x ∧
        r.2.2.filePtr = h.filePtr ∧ HasHeader r.2.2.toHeapFile H x := by
  unfold fillBuffer
  refine (HeapFileScan.scanNext_end fuel hd hh hH hk hend hT).bind ?_
  rintro ⟨st, rid, h'⟩ s' ⟨hst, fv', -, hm, hd', -, -⟩
  dsimp only at hst hm hd' ⊢
  rw [hst, if_pos rfl, clean_pure]
  exact ⟨rfl, rfl, fv', hd', hm.filePtr, hm.hasHeader hx⟩

/-- Without records the loop ends at once, and there are no runs to scan. -/
theorem sortFile_of_empty {P : Multiset Pin} (qsort : Qsort) (fuel : Nat) (f : SortedFile)
    (hc : Coh s P v) (hnm : f.fileName ≠ []) (hf : v.file f.fileName = some fv) (hH : HeapAt fv H)
    (hpos : ∀ g c, v.handle f.fileName = some (g, c) → 0 < c) (hruns : f.runs = [])
    (hitems : 2 ≤ f.maxItems) (hfree : 2 ≤ freeFrames v.numBufs P)
    (hfuel : H.pages.length + 1 ≤ fuel) (hrids : H.rids = []) :
    Clean True (sortFile qsort fuel f) s fun r _ => r = (.OK, f) := by
  unfold sortFile
  refine (HeapFileScan.new_spec hc hnm hf hH hpos fun _ => hfree).bind ?_
  rintro ⟨st, h⟩ s₁ ⟨hst, x, hfree', hn⟩
  dsimp only at hst hn ⊢
  subst hst
  rw [if_neg fun hn => hn rfl]
  have hL : H.ridsAfter h.curPageNo 0 = [] := by
    rw [hn.ridsAfter hH]
    exact hrids
  obtain ⟨m, hm⟩ : ∃ m, f.maxItems.toNat = m + 1 := ⟨f.maxItems.toNat - 1, by omega⟩
  obtain ⟨fuel, rfl⟩ : ∃ n, fuel = n + 1 := ⟨fuel - 1, by omega⟩
  have hfill := fillBuffer_end (h := { h with filter := none }) (k := 0) (T := True) (fuel + 1) m
    f.offset f.length hn.coh View.handle_setHandle_self hH hn.header hn.slot hL
    fun ht => ⟨hfree' ht, hfuel⟩
  rw [← hm] at hfill
  have hloop : Clean True (sortLoop qsort (fuel + 1) (fuel + 1) { h with filter := none } f) s₁
      fun r s' => r.1 = .OK ∧ r.2.2 = f ∧ ∃ fv', HeapFileScan.Holds s' P
        ((v.setHandle f.fileName (some (h.filePtr, v.openCnt f.fileName + 1))).setFile f.fileName
          (some fv')) r.2.1 H x ∧ r.2.1.filePtr = h.filePtr ∧ HasHeader r.2.1.toHeapFile H x := by
    unfold sortLoop
    refine hfill.bind ?_
    rintro ⟨st, items, h'⟩ s' ⟨hst, hitems, hrest⟩
    dsimp only at hst hitems ⊢
    rw [hst, hitems, if_neg fun hn => hn rfl, if_pos rfl, clean_pure]
    exact ⟨rfl, rfl, hrest⟩
  refine hloop.bind ?_
  rintro ⟨st, h', f'⟩ s' ⟨hst, hf', fv', ⟨y, hc', hyp, hw⟩, hfp, hx⟩
  dsimp only at hst hf' hc' hyp hw hfp ⊢
  rw [hst, hf', if_neg fun hn => hn rfl]
  -- the scan is the only object on the file, or the file stays open
  have hcnt : 0 < v.openCnt f.fileName + 1 := by
    unfold View.openCnt
    split
    next d hd =>
      have := hpos d.1 d.2 hd
      omega
    next => decide
  obtain ⟨s'', fv'', hy, -, -⟩ := delete_scan hc' (by rw [hfp]; exact View.handle_setHandle_self)
    View.file_setFile_self hx hyp hw hcnt fun hone => by rw [hfp]; exact hn.file_ne hc hpos hone
  rw [clean_bind_of_yields hy]
  unfold startScans
  rw [hruns]
  unfold startRuns
  rw [clean_pure_bind, clean_pure]
  show (Status.OK, { f with runs := [] }) = (Status.OK, f)
  rw [← hruns]

/-- The constructor of `SortedFile` does what it is to do if and only if the source file has no
records: with one it constructs an object on a file that does not exist. -/
theorem new_generated_iff {s : Sys} {P : Multiset Pin} {v : View} {fileName : FileName}
    {fv : FileView} {H : Heap} (qsort : Qsort) (fuel : Nat) {offset length maxItems : Int}
    {type : Datatype} (hc : Coh s P v) (hnm : fileName ≠ []) (hf : v.file fileName = some fv)
    (hH : HeapAt fv H) (hpos : ∀ f c, v.handle fileName = some (f, c) → 0 < c)
    (hoffset : 0 ≤ offset) (hlength : 1 ≤ length) (hword : type ≠ .STRING → length = 4)
    (hitems : 2 ≤ maxItems)
    (hsized : ∀ rid b, H.rec? rid = some b → offset + length ≤ b.length ∧ b.length ≤ 1000)
    (habsent : ∀ k, v.file (runName fileName k) = none ∧ ¬v.foreign (runName fileName k))
    (hfree : 2 ≤ s.freeFrames) (hfuel : H.pages.length + 1 ≤ fuel) :
    (∃ f s', Yields (new qsort fuel fileName offset length type maxItems) s (.OK, f) false s' ∧
      Generated s' f (H.records.map Prod.snd)) ↔ H.records = [] := by
  have hS : H.Sized := by
    rintro rid b hb rfl
    have := (hsized rid [] hb).1
    rw [List.length_nil] at this
    omega
  have hnil : H.records = [] ↔ H.rids = [] := by
    rw [← Heap.map_records hH, List.map_eq_nil_iff]
  have hnew : new qsort fuel fileName offset length type maxItems =
      sortFile qsort fuel ⟨[], fileName, type, offset, length, maxItems⟩ := by
    unfold new
    rw [if_neg (by omega), if_neg, if_neg (by omega)]
    rintro (⟨rfl, hl⟩ | ⟨rfl, hl⟩)
    · exact hl (hword nofun)
    · exact hl (hword nofun)
  rw [hnew]
  constructor
  · rintro ⟨f, s', hy, -⟩
    by_contra hne
    exact (sortFile_of_records qsort fuel ⟨[], fileName, type, offset, length,
      maxItems⟩ hc hnm hf hH
      hS hpos rfl hitems (habsent 1).1 (habsent 1).2 fun hrids => hne (hnil.mpr hrids)).of_yields hy
  · intro hrec
    obtain ⟨r, s', hy, rfl⟩ := (sortFile_of_empty qsort fuel
      ⟨[], fileName, type, offset, length, maxItems⟩ hc hnm hf hH hpos rfl hitems
      (hc.freeFrames_eq ▸ hfree) hfuel (hnil.mp hrec)).exists trivial
    rw [hrec]
    refine ⟨_, s', hy, ?_, [], List.Forall₂.nil, List.Perm.refl _⟩
    show (0 : Int) = (0 + maxItems - 1) / maxItems
    rw [zero_add, Int.ediv_eq_zero_of_lt (by omega) (by omega)]

/-- A new heap file, which has no records, is sorted. -/
theorem new_generated_iff_empty : ∃ s f s',
    Yields (new (fun _ l => l) 2 [82] 0 3 .STRING 2) s (.OK, f) false s' ∧ Generated s' f [] := by
  have hnm : ([82] : FileName) ≠ [] := List.cons_ne_nil 82 []
  have hmake := createHeapFile_spec (T := True) (Coh.blank 3) hnm rfl id fun _ => by decide
  obtain ⟨st, s₀, -, -, p, q, pg, fv, hc, hH⟩ := hmake.exists trivial
  have hrec : (Heap.fresh [82] p q pg).records = [] := by
    unfold Heap.records
    rw [Heap.rids_fresh]
    rfl
  have habsent : ∀ k, ((View.blank 3).setFile [82] (some fv)).file (runName [82] k) = none ∧
      ¬((View.blank 3).setFile [82] (some fv)).foreign (runName [82] k) := by
    intro k
    refine ⟨View.file_setFile_of_ne fun he => ?_, id⟩
    -- the names differ in length
    have := congrArg List.length he
    unfold runName at this
    simp at this
  have hfree : 2 ≤ s₀.freeFrames := by
    rw [hc.freeFrames_eq]
    show 2 ≤ freeFrames 4 0
    decide
  obtain ⟨f, s', hy, hgen⟩ := (new_generated_iff (fun _ l => l) 2 hc hnm View.file_setFile_self hH
    nofun (Int.le_refl 0) (show (1 : Int) ≤ 3 by decide) nofun (Int.le_refl 2)
    (fun rid b hb => by rw [Heap.rec?_fresh] at hb; cases hb) habsent hfree
    (Nat.le_refl 2)).mpr hrec
  rw [hrec] at hgen
  exact ⟨s₀, f, s', hy, hgen⟩

/-- A file with one record cannot be sorted. -/
theorem not_generated_oneRecord : ∃ s v fv H, Coh s 0 v ∧ v.file [82] = some fv ∧ HeapAt fv H ∧
    H.records = [(⟨2, 0⟩, [1, 2, 3])] ∧ s.freeFrames = 4 ∧
    (∀ k, v.file (runName [82] k) = none ∧ ¬v.foreign (runName [82] k)) ∧
    ∀ qsort fuel f s', ¬(Yields (new qsort fuel [82] 0 3 .STRING 2) s (.OK, f) false s' ∧
      Generated s' f (H.records.map Prod.snd)) := by
  obtain ⟨s, v, fv, H, hc, hf, hh, hH, hsized, hrec, hfree, hothers⟩ := exists_oneRecord
  have hname : ∀ k, runName [82] k ≠ [82] := by
    intro k he
    have := congrArg List.length he
    unfold runName at this
    simp at this
  refine ⟨s, v, fv, H, hc, hf, hH, hrec, hfree, fun k => hothers _ (hname k), ?_⟩
  rintro qsort fuel f s' ⟨hy, -⟩
  have hne : H.rids ≠ [] := by
    rw [← Heap.map_records hH, hrec]
    exact nofun
  have hlost := sortFile_of_records qsort fuel ⟨[], [82], .STRING, 0, 3, 2⟩ hc nofun hf hH hsized
    (fun f c he => by rw [hh] at he; cases he) rfl (Int.le_refl 2) (hothers _ (hname 1)).1
    (hothers _ (hname 1)).2 hne
  exact hlost.of_yields hy

end SortedFile

/-! ## Partitions -/

namespace Partition

/-- The partitions of a source file with the records `l`: the constructor has returned `OK`, each
file is a heap file, and it has the records with its hash value, in the order of the source. -/
def Partitioned (s : Sys) (part : Partition) (base : FileName) (P : Int)
    (hashfcn : Bytes → Int → Int) (l : List Bytes) : Prop :=
  part.partName = (List.range P.toNat).map (fileName base) ∧
  ∀ p < P.toNat, ∃ H, s.heap? (fileName base p) = some H ∧ H.Chained ∧
    H.records.map Prod.snd = l.filter fun b => hashfcn b P = p

/-- The constructor does not return: the first partition file does not exist, and is not created. -/
theorem new_absent {s : Sys} {Q : Multiset Pin} {v : View} {base : FileName} (hc : Coh s Q v)
    (fuel : Nat) (rel : HeapFileScan) {P : Int} (hP : 1 ≤ P) (hashfcn : Bytes → Int → Int)
    (hf : v.file (fileName base 0) = none) (hforeign : ¬v.foreign (fileName base 0)) :
    Runs False (new fuel rel base P hashfcn) s fun _ _ _ => False := by
  obtain ⟨n, hn⟩ : ∃ n, P.toNat = n + 1 := ⟨P.toNat - 1, by omega⟩
  have hnm : fileName base 0 ≠ [] := by
    unfold fileName
    simp
  unfold new
  rw [if_neg (by omega), hn, List.range_succ_eq_map, List.map_cons]
  refine Runs.bind_of_false ?_
  unfold openParts
  exact (InsertFileScan.new_absent hc hnm hf hforeign).bind_of_false

/-- No file can be partitioned. -/
theorem not_partitioned {s : Sys} {Q : Multiset Pin} {v : View} {base : FileName}
    (hc : Coh s Q v) (fuel : Nat) (rel : HeapFileScan) {P : Int} (hP : 1 ≤ P)
    (hashfcn : Bytes → Int → Int) (l : List Bytes)
    (habsent : ∀ p < P.toNat, v.file (fileName base p) = none ∧ ¬v.foreign (fileName base p)) :
    ¬∃ part rel' s', Yields (new fuel rel base P hashfcn) s (.OK, part, rel') false s' ∧
      Partitioned s' part base P hashfcn l := by
  rintro ⟨part, rel', s', hy, -⟩
  obtain ⟨hf, hforeign⟩ := habsent 0 (by omega)
  exact (new_absent hc fuel rel hP hashfcn hf hforeign).1 _ _ _ hy

/-- A fresh scan of a file with one record. -/
theorem exists_scan : ∃ s s' Q v H rel, s.heap? [82] = some H ∧ H.Chained ∧
    H.records = [(⟨2, 0⟩, [1, 2, 3])] ∧ Yields (HeapFileScan.new [82]) s (.OK, rel) false s' ∧
    Coh s' Q v ∧ ∀ p, v.file (fileName [82] p) = none ∧ ¬v.foreign (fileName [82] p) := by
  obtain ⟨s, v, fv, H, hc, hf, hh, hH, -, hrec, hfree, hothers⟩ := exists_oneRecord
  have hname : ∀ p, fileName [82] p ≠ [82] := by
    intro p he
    have := congrArg List.length he
    unfold fileName at this
    simp at this
  have hspec := HeapFileScan.new_spec (T := True) hc (show ([82] : FileName) ≠ [] from nofun) hf hH
    (fun f c he => by rw [hh] at he; cases he) fun _ => by rw [← hc.freeFrames_eq, hfree]; decide
  obtain ⟨⟨st, rel⟩, s', hy, hst, x, -, hn⟩ := hspec.exists trivial
  dsimp only at hst
  subst hst
  obtain ⟨P, hc', -⟩ := hn.coh
  obtain ⟨H', hH', hsame⟩ := hc.heap? hf hH
  refine ⟨s, s', _, _, H', rel, hH', (hsame.heapAt hH).chained, hsame.records.trans hrec, hy, hc',
    fun p => ?_⟩
  refine ⟨?_, (hothers _ (hname p)).2⟩
  exact (View.file_setFile_of_ne (hname p)).trans (hothers _ (hname p)).1

/-- With two partitions. -/
theorem not_partitioned_two : ∃ s s' rel, Yields (HeapFileScan.new [82]) s (.OK, rel) false s' ∧
    ∀ fuel, ¬∃ part rel' s'', Yields (new fuel rel [82] 2 (fun b P => b.length % P)) s'
      (.OK, part, rel') false s'' ∧
        Partitioned s'' part [82] 2 (fun b P => b.length % P) [[1, 2, 3]] := by
  obtain ⟨s, s', Q, v, H, rel, -, -, -, hy, hc, habsent⟩ := exists_scan
  exact ⟨s, s', rel, hy, fun fuel => not_partitioned hc fuel rel (by decide) _ _
    fun p _ => habsent p⟩

/-- With one partition, for all records. -/
theorem not_partitioned_oneRecord : ∃ s s' H rel, s.heap? [82] = some H ∧ H.Chained ∧
    H.records = [(⟨2, 0⟩, [1, 2, 3])] ∧ Yields (HeapFileScan.new [82]) s (.OK, rel) false s' ∧
    ∀ fuel part rel' s'', ¬(Yields (new fuel rel [82] 1 (fun _ _ => 0)) s' (.OK, part, rel') false
      s'' ∧ Partitioned s'' part [82] 1 (fun _ _ => 0) (H.records.map Prod.snd)) := by
  obtain ⟨s, s', Q, v, H, rel, hH, hchain, hrec, hy, hc, habsent⟩ := exists_scan
  refine ⟨s, s', H, rel, hH, hchain, hrec, hy, ?_⟩
  rintro fuel part rel' s'' ⟨hy', -⟩
  exact (new_absent hc fuel rel (by decide) _ (habsent 0).1 (habsent 0).2).1 _ _ _ hy'

end Partition

end Minirel
