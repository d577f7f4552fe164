import Minirel.Sort.Merge

/-!
# Marks in the sorted stream

`setMark` keeps for each run where its scan is and the RID of the record in memory, and `gotoMark`
goes back there and takes every run to have a record in memory. This is right once `next` has
returned a record: the run it came from then counts as peeked again, and `next` returns the record
once more. Before the first call no run has a record in memory, and the RID that is kept is the one
that marks a run as ended.

## Main definitions

* `SortedFile.replays`: go to the mark again and again, with calls of `next` in between.

## Main results

* `SortedFile.gotoMark_spec`: what is left after `gotoMark`.
* `SortedFile.replay_iff`: the calls after `gotoMark` return what they are to return if and only if
  `next` had been called before `setMark`, or there are no runs.
-/

namespace Minirel

open Comp HeapFile Merge

namespace SortedFile

variable {T : Prop} {s : Sys} {P R : Multiset Pin} {v : View} {r : RUN} {d : RunInfo}

/-- A run with a mark. -/
theorem OnRun.setMark (h : OnRun v r d) :
    OnRun v { r with inFile := r.inFile.markScan, mark := r.rid }
    { d with back := some d.here } where
  file := h.file
  sized := h.sized
  filter := h.filter
  clean := h.clean
  pins := by
    obtain ⟨x, y, hpins, hx, hy, hw⟩ := h.pins
    exact ⟨x, y, hpins, ⟨hx.file, hx.pageNo, hx.headerPageNo, hx.headerPage, hx.dirty⟩,
      ⟨hy.file, hy.pageNo, hy.curPage, hy.mem⟩, hw⟩
  fetched := h.fetched
  unfetched := h.unfetched
  here := h.here
  record x t hx := by
    obtain ⟨hpage, hlen, hnonneg, hle, hbytes⟩ := h.record x t hx
    exact ⟨hpage, hlen, hnonneg, hle, hbytes⟩
  back l hl := by
    obtain ⟨x, y, -, hp⟩ := h.pins
    cases hl
    exact ⟨hp.page.mem, h.here⟩

/-- `setMark` marks each run where it is. -/
theorem setMark_spec {f : SortedFile} {ds : List RunInfo} (h : OnRuns s P v f.runs ds) :
    OnRuns s P v (setMark f).runs (ds.map fun d => { d with back := some d.here }) where
  all := by
    unfold setMark
    rw [List.forall₂_map_left_iff, List.forall₂_map_right_iff]
    exact h.all.imp fun _ _ hr => hr.setMark
  coh := by
    unfold pinsOf
    rw [List.map_map]
    exact h.coh

/-- `resetScan` goes to the mark of a run. -/
theorem OnRun.resetScan {l : List Item} (h : OnRun v r d) (hc : Coh s (d.pins + R) v)
    (hl : d.back = some l) (hT : T → ∀ z ∈ R, z.file ≠ r.inFile.filePtr) :
    Clean T r.inFile.resetScan s fun q s' => q.1 = .OK ∧ ∃ pg x y,
      q.2 = r.inFile.moved pg r.inFile.markedPageNo false r.inFile.markedRec ∧
      HasPins q.2.toHeapFile d.heap x y ∧ Coh s' ((y ::ₘ x ::ₘ 0) + R) v := by
  obtain ⟨x, y, hpins, hp, hd⟩ := h.holds hc
  obtain ⟨fv, c, hf, hH, hh⟩ := h.file
  obtain ⟨hmark, -⟩ := h.back l hl
  rw [← View.setFile_self hf] at hd
  refine (HeapFileScan.resetScan_spec hd hh hH hmark fun ht =>
    h.freeFrames_pos hc (hT ht) hpins hp).mono ?_
  rintro ⟨st, h'⟩ s' ⟨hst, fv', pg, dirty, hfor, hmoved, hdirty, z, hc', hz, hw⟩
  -- nothing is lost, since the page is not dirty
  obtain rfl : fv' = fv := hfor.eq_of_not fun p hp => by
    rw [h.clean] at hp
    cases hp.1
  have hclean : dirty = false := Bool.eq_false_iff.mpr fun ht => by
    have := hdirty ht
    rw [h.clean] at this
    cases this
  subst hclean
  dsimp only at hst hmoved hz hw ⊢
  subst hmoved
  rw [View.setFile_self hf] at hc'
  refine ⟨hst, pg, x, z, rfl, ⟨?_, hz, Bool.eq_false_iff.mpr fun ht => nomatch hw ht⟩, ?_⟩
  · exact ⟨hp.header.file, hp.header.pageNo, hp.header.headerPageNo, hp.header.headerPage,
      hp.header.dirty⟩
  · rw [Multiset.cons_add, Multiset.cons_add, zero_add]
    exact hc'

/-- A run that has gone to its mark. -/
theorem OnRun.atMark {l : List Item} {pg : PagePtr} {x y : Pin} {rec : RecPtr} (h : OnRun v r d)
    (hl : d.back = some l)
    (hp : HasPins (r.inFile.moved pg r.inFile.markedPageNo false r.inFile.markedRec).toHeapFile
      d.heap x y)
    (hrec : ∀ i t, l = i :: t → Points d.heap
      (r.inFile.moved pg r.inFile.markedPageNo false r.inFile.markedRec) rec i.bytes) :
    OnRun v { r with
        inFile := r.inFile.moved pg r.inFile.markedPageNo false r.inFile.markedRec
        rid := r.mark, record := rec, valid := true }
      { d with pins := y ::ₘ x ::ₘ 0, left := l, here := l } where
  file := h.file
  sized := h.sized
  filter := h.filter
  clean := rfl
  pins := ⟨x, y, rfl, hp⟩
  fetched _ := rfl
  unfetched := nofun
  here := (h.back l hl).2
  record := hrec
  back := h.back

/-- The loop of `gotoMark`. -/
theorem resetRuns_spec {runs : List RUN} {ds : List RunInfo} {ls : List (List Item)}
    (h : OnRuns s P v runs ds) (hback : ds.map RunInfo.back = ls.map some)
    (hT : T → Private v P (runs.map RUN.name)) :
    Clean T (resetRuns runs) s fun q s' => q.1 = .OK ∧ q.2.map RUN.name = runs.map RUN.name ∧
      ∃ ds', OnRuns s' P v q.2 ds' ∧ ds'.map RunInfo.frame = ds.map RunInfo.frame ∧
        ds'.map RunInfo.left = ls ∧ ds'.map RunInfo.here = ls := by
  obtain ⟨hall, hc⟩ := h
  induction runs generalizing s P ds ls with
  | nil =>
    cases hall
    obtain rfl : ls = [] := List.map_eq_nil_iff.mp hback.symm
    unfold resetRuns
    rw [clean_pure]
    exact ⟨rfl, rfl, [], ⟨.nil, hc⟩, rfl, rfl, rfl⟩
  | cons run runs ih =>
    cases hall with
    | @cons _ d _ ds hrun hruns =>
    rw [List.map_cons] at hback
    obtain ⟨l, ls, rfl, hl, hbacks⟩ := List.map_eq_cons_iff.mp hback.symm
    rw [pinsOf_cons, add_assoc] at hc
    unfold resetRuns
    refine (hrun.resetScan hc hl.symm fun ht => ?_).bind ?_
    · -- the other runs use other files
      have hpriv : Private v P (([] ++ run :: runs).map RUN.name) := hT ht
      exact hpriv.file_ne hc .nil hruns hrun
    rintro ⟨st, h'⟩ s₁ ⟨hst, pg, x, y, hmoved, hp, hc₁⟩
    dsimp only at hst hmoved hp ⊢
    subst hst hmoved
    rw [if_neg fun hn => hn rfl]
    -- what the rest of the loop does, once the run is at its mark
    have hrest : ∀ rec : RecPtr, (∀ i t, l = i :: t → Points d.heap
          (run.inFile.moved pg run.inFile.markedPageNo false run.inFile.markedRec) rec i.bytes) →
        Clean T (do
          let r ← resetRuns runs
          return (r.1, { run with
            inFile := run.inFile.moved pg run.inFile.markedPageNo false run.inFile.markedRec
            rid := run.mark, record := rec, valid := true } :: r.2)) s₁
          fun q s' => q.1 = .OK ∧ q.2.map RUN.name = (run :: runs).map RUN.name ∧
            ∃ ds', OnRuns s' P v q.2 ds' ∧
              ds'.map RunInfo.frame = (d :: ds).map RunInfo.frame ∧
              ds'.map RunInfo.left = l :: ls ∧ ds'.map RunInfo.here = l :: ls := by
      intro rec hrec
      have hrun' := hrun.atMark hl.symm hp hrec
      have hc₂ : Coh s₁ (pinsOf ds + ((y ::ₘ x ::ₘ 0) + P)) v := by
        rw [add_left_comm]
        exact hc₁
      refine (ih hbacks.symm (fun ht => ?_) hruns hc₂).bind ?_
      · exact (hT ht).tail hc₂ hrun' rfl
      rintro ⟨st, runs'⟩ s₂ ⟨hst, hnames, ds', ⟨hall, hc₃⟩, hframe, hleft, hhere⟩
      rw [clean_pure]
      dsimp only at hst hnames hall ⊢
      refine ⟨hst, congrArg (run.name :: ·) hnames, _ :: ds', ⟨.cons hrun' hall, ?_⟩,
        congrArg (d.frame :: ·) hframe, congrArg (l :: ·) hleft, congrArg (l :: ·) hhere⟩
      rw [pinsOf_cons, add_assoc, add_left_comm]
      exact hc₃
    obtain ⟨hmem, hpeek⟩ := hrun.back l hl.symm
    cases hpeek with
    | ended hrid =>
      -- the run is marked as ended
      rw [if_neg (not_le.mpr hrid)]
      exact hrest run.record fun i t hl => absurd hl.symm (List.cons_ne_nil i t)
    | head j i t hpage hcur hrid hb hne ht =>
      rw [if_pos (by rw [hrid]; exact hpage)]
      -- the record is fetched anew
      obtain ⟨fv, c, hf, hH, hh⟩ := hrun.file
      have hd : HeapFileScan.Holds s₁ (pinsOf ds + P) (v.setFile run.name (some fv))
          (run.inFile.moved pg run.inFile.markedPageNo false run.inFile.markedRec) d.heap x := by
        rw [View.setFile_self hf]
        refine ⟨y, ?_, hp.page, fun ht => ?_⟩
        · rw [Multiset.cons_add, Multiset.cons_add, zero_add] at hc₁
          exact hc₁
        · rw [hp.wrote] at ht
          cases ht
      have hslot : (run.inFile.moved pg run.inFile.markedPageNo false
          run.inFile.markedRec).curRec.slotNo = (j : Nat) := by
        show run.inFile.markedRec.slotNo = _
        rw [hcur]
      obtain ⟨rec, hy, hlen, hnonneg, hle, hbytes⟩ :=
        HeapFileScan.getRecord_spec hd hh hH hslot hb hne
      rw [clean_bind_of_yields hy]
      dsimp only
      rw [if_neg fun hn => hn rfl]
      refine hrest ⟨pg, rec⟩ fun i' t' hit => ?_
      cases hit
      exact ⟨rfl, hlen, hnonneg, hle, hbytes⟩

/-- `gotoMark` takes every run back to where it was marked. -/
theorem gotoMark_spec {f : SortedFile} {ds : List RunInfo} {ls : List (List Item)}
    (h : OnRuns s P v f.runs ds) (hback : ds.map RunInfo.back = ls.map some)
    (hT : T → Private v P (f.runs.map RUN.name)) :
    Clean T (gotoMark f) s fun q s' => q.1 = .OK ∧ ∃ runs' ds', q.2 = { f with runs := runs' } ∧
      runs'.map RUN.name = f.runs.map RUN.name ∧ OnRuns s' P v runs' ds' ∧
      ds'.map RunInfo.frame = ds.map RunInfo.frame ∧ ds'.map RunInfo.left = ls ∧
      ds'.map RunInfo.here = ls := by
  unfold gotoMark
  refine (resetRuns_spec h hback hT).bind ?_
  rintro ⟨st, runs'⟩ s' ⟨hst, hnames, ds', h', hframe, hleft, hhere⟩
  rw [clean_pure]
  exact ⟨hst, runs', ds', rfl, hnames, h', hframe, hleft, hhere⟩

/-! ## Going to the mark again and again -/

/-- Go to the mark and call `next`, as often as each of the numbers says. -/
def replays (fuel : Nat) :
    List Nat → SortedFile → M (List (Status × List (Status × Option Bytes)) × SortedFile)
  | [], f => return ([], f)
  | k :: ks, f => do
    let (status, f) ← gotoMark f
    let (l, f) ← pull fuel k f
    let (ls, f) ← replays fuel ks f
    return ((status, l) :: ls, f)

/-- `m` calls of `next`, `setMark`, `n` more calls of `next`, and `replays`. -/
def replay (fuel m n : Nat) (ks : List Nat) (f : SortedFile) :
    M (List (Status × List (Status × Option Bytes))) := do
  let (_, f) ← pull fuel m f
  let (_, f) ← pull fuel n (setMark f)
  let (ls, _) ← replays fuel ks f
  return ls

variable {recs : List Bytes} {f : SortedFile} {ds : List RunInfo}

/-- Each time the calls of `next` return what is left at the mark. -/
theorem replays_spec (fuel : Nat) (ks : List Nat) {ls : List (List Item)} {out : List Item}
    (h : OnRuns s P v f.runs ds) (hback : ds.map RunInfo.back = ls.map some)
    (hready : Ready f ls out) (hT : T → Enough v P fuel (f.runs.map RUN.name)
      (ds.map RunInfo.heap)) :
    Clean T (replays fuel ks f) s fun q _ => q.1 = ks.map fun k =>
      (.OK, answers (out.map Item.bytes) k) := by
  induction ks generalizing s f ds with
  | nil =>
    unfold replays
    rw [clean_pure]
    rfl
  | cons k ks ih =>
    unfold replays
    refine (gotoMark_spec h hback fun ht => (hT ht).1).bind ?_
    rintro ⟨st, f₁⟩ s₁ ⟨hst, runs₁, ds₁, rfl, hnames₁, h₁, hframe₁, hleft₁, -⟩
    dsimp only at hst ⊢
    refine (pull_spec fuel k (f := { f with runs := runs₁ }) h₁ (by rw [hleft₁]; exact hready)
      fun ht => RunInfo.map_heap hframe₁ ▸ hnames₁ ▸ hT ht).bind ?_
    rintro ⟨l, f₂⟩ s₂ ⟨hl, runs₂, ds₂, rfl, hnames₂, h₂, hframe₂, -⟩
    dsimp only at hl ⊢
    -- the calls have left the mark as it was
    have hframe := hframe₂.trans hframe₁
    refine (ih (f := { f with runs := runs₂ }) h₂ ((RunInfo.map_back hframe).trans hback) hready
      fun ht => RunInfo.map_heap hframe ▸ (hnames₂.trans hnames₁) ▸ hT ht).bind ?_
    rintro ⟨ls', f₃⟩ s₃ hls
    rw [clean_pure]
    dsimp only at hls
    rw [hst, hl, hls, List.map_cons]

/-- What is returned after the mark, when no record is in memory at first. -/
theorem replay_spec (fuel m n : Nat) (ks : List Nat) {out : List Item} (h : OnRuns s P v f.runs ds)
    (hready : Ready f (ds.map RunInfo.left) out) (hhere : ∀ d ∈ ds, d.here = [])
    (hm : m ≤ out.length)
    (hT : T → Enough v P fuel (f.runs.map RUN.name) (ds.map RunInfo.heap)) :
    Clean T (replay fuel m n ks f) s fun q _ => q = ks.map fun k =>
      (.OK, answers (if m = 0 then [] else (out.map Item.bytes).drop (m - 1)) k) := by
  unfold replay
  refine (pull_spec fuel m h hready hT).bind ?_
  rintro ⟨l, f₁⟩ s₁ ⟨-, runs₁, ds₁, rfl, hnames₁, h₁, hframe₁, hready₁, hzero, hback⟩
  dsimp only
  -- what is in memory now is what will be left at the mark
  obtain ⟨out', hready', hout'⟩ : ∃ out', Ready f (ds₁.map RunInfo.here) out' ∧
      out'.map Item.bytes = if m = 0 then [] else (out.map Item.bytes).drop (m - 1) := by
    by_cases hm0 : m = 0
    · -- the runs count as ended
      have hnil : ∀ l ∈ ds₁.map RunInfo.here, l = [] := by
        rw [hzero hm0]
        intro l hl
        obtain ⟨d, hd, rfl⟩ := List.mem_map.mp hl
        exact hhere d hd
      rw [if_pos hm0]
      refine ⟨[], ⟨⟨hready.1.1, hready.1.2.1, fun l hl x hx => ?_⟩, ?_⟩, rfl⟩
      · rw [hnil l hl] at hx
        cases hx
      · have hnone : ∀ a b : Item, False → False →
            (greater f.offset f.length f.type a b).isSome := fun _ _ ha => ha.elim
        obtain ⟨out', hmerges⟩ := exists_merges hnone (ds₁.map RunInfo.here) fun l hl a ha => by
          rw [hnil l hl] at ha
          cases ha
        have hperm := hmerges.perm
        rw [List.flatten_eq_nil_iff.mpr hnil] at hperm
        rwa [hperm.eq_nil] at hmerges
    · rw [if_neg hm0]
      exact ⟨_, hback (Nat.pos_of_ne_zero hm0) hm, List.map_drop⟩
  have h₂ := setMark_spec (f := { f with runs := runs₁ }) h₁
  have hheap₂ : (ds₁.map fun d => { d with back := some d.here }).map RunInfo.heap =
      ds.map RunInfo.heap := by
    rw [List.map_map]
    exact RunInfo.map_heap hframe₁
  have hleft₂ : (ds₁.map fun d => { d with back := some d.here }).map RunInfo.left =
      ds₁.map RunInfo.left := by
    rw [List.map_map]
    rfl
  have hback₂ : (ds₁.map fun d => { d with back := some d.here }).map RunInfo.back =
      (ds₁.map RunInfo.here).map some := by
    rw [List.map_map, List.map_map]
    rfl
  have hnames₂ : (setMark { f with runs := runs₁ }).runs.map RUN.name = f.runs.map RUN.name := by
    unfold setMark
    rw [List.map_map]
    exact hnames₁
  refine (pull_spec fuel n (f := setMark { f with runs := runs₁ }) h₂
    (by rw [hleft₂]; exact hready₁)
    fun ht => by rw [hheap₂, hnames₂]; exact hT ht).bind ?_
  rintro ⟨l', f₃⟩ s₃ ⟨-, runs₃, ds₃, rfl, hnames₃, h₃, hframe₃, -⟩
  dsimp only
  refine (replays_spec fuel ks (f := { f with runs := runs₃ }) h₃
    ((RunInfo.map_back hframe₃).trans hback₂) hready' fun ht => ?_).bind ?_
  · rw [RunInfo.map_heap hframe₃, hheap₂]
    rw [hnames₂] at hnames₃
    exact hnames₃ ▸ hT ht
  rintro ⟨ls, f₄⟩ s₄ hls
  rw [clean_pure]
  dsimp only at hls
  rw [hls, hout']

/-- The calls after `gotoMark` return what they are to return: the record in front of the mark, if
there is one, and the records behind it. -/
def Replays (fuel m : Nat) (out : List Bytes) (f : SortedFile) (s : Sys) : Prop :=
  ∀ n ks, ∃ s', Yields (replay fuel m n ks f) s
    (ks.map fun k => (.OK, answers (out.drop (m - 1)) k)) false s'

/-- If `next` has been called before `setMark` the stream goes on from the mark after each
`gotoMark`. Without a call of `next`, and with a run, it has ended. -/
theorem replay_iff {s₁ : Sys} {f₁ : SortedFile} {Hs : List Heap} (fuel : Nat)
    (h : StoredRuns s P v f Hs) (hne : ∀ H ∈ Hs, H.contents ≠ [])
    (hdef : ∀ a ∈ (Hs.map Heap.contents).flatten, ∀ b ∈ (Hs.map Heap.contents).flatten,
      (reccmp (sortField f.offset f.length a) (sortField f.offset f.length b) f.length f.length
        f.type).isSome)
    (hfuel : ∀ H ∈ Hs, H.rids.length + H.pages.length + 1 ≤ fuel)
    (hstart : Yields (startScans f) s (.OK, f₁) false s₁) :
    ∃ out, out.Perm (Hs.map Heap.contents).flatten ∧
      (∀ n, ∃ f₂ s₂, Yields (pull fuel n f₁) s₁ (answers out n, f₂) false s₂) ∧
      ∀ m ≤ out.length, (Replays fuel m out f₁ s₁ ↔ 1 ≤ m ∨ f.runs = []) := by
  have hspec : Clean False (startScans f) s _ := startScans_spec h fun hf => hf.elim
  obtain ⟨-, v', runs, ds, hf₁, hruns, hc, hpriv, hleft, hheap, hhere⟩ := hspec.of_yields hstart
  dsimp only at hf₁
  subst hf₁
  obtain ⟨out, hready⟩ := exists_ready h.reaches hdef
  have hperm : (out.map Item.bytes).Perm (Hs.map Heap.contents).flatten := by
    have := hready.2.perm.map Item.bytes
    rwa [List.map_flatten, map_tagAll] at this
  rw [← hleft] at hready
  have henough : True → Enough v' P fuel (runs.map RUN.name) (ds.map RunInfo.heap) := fun _ => by
    rw [hheap]
    exact ⟨hpriv, hfuel⟩
  refine ⟨out.map Item.bytes, hperm, fun n => ?_, fun m hm => ?_⟩
  · have hpull := pull_spec fuel n (f := { f with runs }) ⟨hruns, hc⟩ hready henough
    obtain ⟨⟨l, f₂⟩, s₂, hy, hl, -⟩ := hpull.exists trivial
    dsimp only at hl
    rw [hl] at hy
    exact ⟨f₂, s₂, hy⟩
  · -- what the calls after the mark return, in either case
    have hreplay : ∀ n ks, ∃ s', Yields (replay fuel m n ks { f with runs }) s₁ (ks.map fun k =>
        (.OK, answers (if m = 0 then [] else (out.map Item.bytes).drop (m - 1)) k)) false s' := by
      intro n ks
      rw [List.length_map] at hm
      have hspec := replay_spec fuel m n ks (f := { f with runs }) ⟨hruns,
        hc⟩ hready hhere hm henough
      obtain ⟨r, s', hy, rfl⟩ := hspec.exists trivial
      exact ⟨s', hy⟩
    by_cases hm0 : m = 0
    · subst hm0
      constructor
      · intro hr
        by_contra hcon
        -- there is a run, and it has a record
        obtain ⟨run, hrun⟩ := List.exists_mem_of_ne_nil f.runs fun he => hcon (Or.inr he)
        obtain ⟨i, hi, rfl⟩ := List.mem_iff_getElem.mp hrun
        have hlt : i < Hs.length := h.files.length_eq ▸ hi
        obtain ⟨b, hb⟩ := List.exists_mem_of_ne_nil _ (hne Hs[i] (List.getElem_mem hlt))
        have hmem : b ∈ out.map Item.bytes := hperm.mem_iff.mpr (List.mem_flatten.mpr
          ⟨Hs[i].contents, List.mem_map_of_mem (List.getElem_mem hlt), hb⟩)
        obtain ⟨c, out', hout⟩ := List.exists_cons_of_ne_nil (List.ne_nil_of_mem hmem)
        -- the first call after the mark
        obtain ⟨s', hy⟩ := hr 0 [1]
        obtain ⟨s'', hy'⟩ := hreplay 0 [1]
        obtain ⟨heq, -⟩ := hy.unique hy'
        rw [hout, if_pos rfl] at heq
        simp [answers] at heq
      · rintro (hm | hruns)
        · exact absurd hm (Nat.not_succ_le_zero 0)
        · -- there is nothing to return
          have hHs : Hs = [] := by
            have := h.files
            rw [hruns] at this
            exact List.forall₂_nil_left_iff.mp this
          rw [hHs] at hperm
          intro n ks
          obtain ⟨s', hy⟩ := hreplay n ks
          rw [if_pos rfl] at hy
          rw [hperm.eq_nil]
          exact ⟨s', hy⟩
    · rw [if_neg hm0] at hreplay
      exact ⟨fun _ => Or.inl (Nat.pos_of_ne_zero hm0), fun _ n ks => hreplay n ks⟩

/-- A run with one record. -/
theorem exists_oneRun : ∃ s v, ∃ f f₁ : SortedFile, ∃ s₁ H, StoredRuns s 0 v f [H] ∧
    f.runs.map RUN.name = [[82]] ∧ f.offset = 0 ∧ f.length = 3 ∧ f.type = .STRING ∧
    H.contents = [[1, 2, 3]] ∧
    Yields (startScans f) s (.OK, f₁) false s₁ := by
  obtain ⟨s, v, fv, H, hc, hf, hh, hH, -, hrec, hfree, -⟩ := exists_oneRecord
  have hcont : H.contents = [[1, 2, 3]] := by
    unfold Heap.contents
    rw [hrec]
    rfl
  have hstored : StoredRuns s 0 v ⟨[RUN.new [82]], [1], .STRING, 0, 3, 2⟩ [H] := by
    refine ⟨hc, .cons ⟨nofun, ⟨fv, hf, hH⟩, fun g c he => ?_⟩ .nil, by decide, ?_⟩
    · rw [show v.handle (RUN.new [82]).name = none from hh] at he
      cases he
    · rw [List.map_singleton, hcont]
      exact ⟨by decide, by decide, by decide⟩
  have hstart : Clean True (startScans _) s _ := startScans_spec hstored fun _ => by
    rw [← hc.freeFrames_eq, hfree]
    decide
  obtain ⟨⟨st, f₁⟩, s₁, hy, hst, -⟩ := hstart.exists trivial
  dsimp only at hst
  subst hst
  exact ⟨s, v, _, f₁, s₁, H, hstored, rfl, rfl, rfl, rfl, hcont, hy⟩

/-- With this run, `gotoMark` goes back to the record if and only if it was read before the mark. -/
theorem replay_iff_oneRun : ∃ f f₁ : SortedFile, ∃ s₁ fuel out, f.runs.map RUN.name = [[82]] ∧
    out.Perm [[1, 2, 3]] ∧
    (∀ n, ∃ f₂ s₂, Yields (pull fuel n f₁) s₁ (answers out n, f₂) false s₂) ∧
    ∀ m ≤ out.length, (Replays fuel m out f₁ s₁ ↔ 1 ≤ m ∨ f.runs = []) := by
  obtain ⟨s, v, f, f₁, s₁, H, hstored, hnames, hoffset, hlength, htype, hcont, hstart⟩ :=
    exists_oneRun
  have hflat : ([H].map Heap.contents).flatten = [[1, 2, 3]] := by
    rw [List.map_singleton, hcont]
    rfl
  obtain ⟨out, hperm, hpull, hreplay⟩ := replay_iff (H.rids.length + H.pages.length + 1) hstored
    (fun K hK => by
      rw [List.mem_singleton.mp hK, hcont]
      nofun)
    (fun a ha b hb => by
      rw [hflat] at ha hb
      rw [List.mem_singleton.mp ha, List.mem_singleton.mp hb, hoffset, hlength, htype]
      decide)
    (fun K hK => by rw [List.mem_singleton.mp hK]) hstart
  rw [hflat] at hperm
  exact ⟨f, f₁, s₁, _, out, hnames, hperm, hpull, hreplay⟩

/-- The mark is set before the first call of `next`, which would return the record: after `gotoMark`
it returns the end of the file. -/
theorem not_replays_oneRun : ∃ f f₁ : SortedFile, ∃ s₁ fuel, f.runs.map RUN.name = [[82]] ∧
    (∃ f₂ s₂, Yields (pull fuel 1 f₁) s₁ ([(.OK, some [1, 2, 3])], f₂) false s₂) ∧
    (∃ s₂, Yields (replay fuel 0 0 [1] f₁) s₁ [(.OK, [(.FILEEOF, none)])] false s₂) ∧
    ¬Replays fuel 0 [[1, 2, 3]] f₁ s₁ := by
  obtain ⟨s, v, f, f₁, s₁, H, hstored, hnames, hoffset, hlength, htype, hcont, hstart⟩ :=
    exists_oneRun
  have hspec : Clean False (startScans f) s _ := startScans_spec hstored fun hf => hf.elim
  obtain ⟨-, v', runs, ds, hf₁, hruns, hc, hpriv, hleft, hheap, hhere⟩ := hspec.of_yields hstart
  dsimp only at hf₁
  subst hf₁
  -- the only way to merge one record
  have htag : tagAll ([H].map Heap.contents) = [[⟨0, 0, [1, 2, 3]⟩]] := by
    rw [List.map_singleton, hcont]
    rfl
  have hready : Ready f (ds.map RunInfo.left) [⟨0, 0, [1, 2, 3]⟩] := by
    rw [hleft]
    refine ⟨hstored.reaches, ?_⟩
    rw [htag]
    exact .cons rfl rfl (.nil rfl)
  have henough : True → Enough v' 0 (H.rids.length + H.pages.length + 1) (runs.map RUN.name)
      (ds.map RunInfo.heap) := fun _ => by
    rw [hheap]
    exact ⟨hpriv, fun K hK => by rw [List.mem_singleton.mp hK]⟩
  have hpull : Clean True (pull (H.rids.length + H.pages.length + 1) 1 { f with runs }) s₁ _ :=
    pull_spec _ 1 (f := { f with runs }) ⟨hruns, hc⟩ hready henough
  obtain ⟨⟨l, f₂⟩, s₂, hy, hl, -⟩ := hpull.exists trivial
  dsimp only at hl
  rw [hl] at hy
  have hreplay : Clean True (replay (H.rids.length + H.pages.length + 1) 0 0 [1] { f with runs })
      s₁ _ :=
    replay_spec _ 0 0 [1] (f := { f with runs }) ⟨hruns, hc⟩ hready hhere (Nat.zero_le _) henough
  obtain ⟨r, s₃, hy', rfl⟩ := hreplay.exists trivial
  refine ⟨f, _, s₁, _, hnames, ⟨f₂, s₂, hy⟩, ⟨s₃, hy'⟩, fun hr => ?_⟩
  obtain ⟨s₄, hy''⟩ := hr 0 [1]
  obtain ⟨heq, -⟩ := hy''.unique hy'
  cases heq

end SortedFile

end Minirel
