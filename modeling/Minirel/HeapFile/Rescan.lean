import Minirel.HeapFile.Stream

/-!
# Scanning again, and going back to a mark

What repeated calls of `scanNext` return is read off the list of RIDs that are left. `resetScan`
restores the list there was at the mark. `endScan` does not quite start the scan over: the next call
goes through the branch of `scanNext` for a scan without a data page, which takes a first page
without records for the end of the file.

## Main definitions

* `outcomes`: what calls of `scanNext` return if the RIDs of a list are left.
* `Replies`: the answers of `matchRec`, for any filter in the memory of the client.
* `Reads`: a scan in progress on a file that does not change.

## Main results

* `rescan_iff`: when a second scan with the same object returns what the first one did.
* `markReset_spec`: what a scan returns after `resetScan`.
-/

namespace Minirel

open Comp HeapFile

/-! ## Repeated calls -/

/-- Call `scanNext` `n` times. -/
def scanCalls (fuel : Nat) : Nat → HeapFileScan → M (List (Status × RID) × HeapFileScan)
  | 0, h => return ([], h)
  | n + 1, h => do
    let (status, rid, h) ← h.scanNext fuel
    let (l, h) ← scanCalls fuel n h
    return ((status, rid) :: l, h)

/-- What `n` calls return if the RIDs of a list are left. -/
def outcomes : List RID → Nat → List (Status × RID)
  | _, 0 => []
  | [], n + 1 => (.FILEEOF, NULLRID) :: outcomes [] n
  | rid :: L, n + 1 => (.OK, rid) :: outcomes L n

/-- Nothing is left. -/
theorem outcomes_nil (n : Nat) : outcomes [] n = List.replicate n (.FILEEOF, NULLRID) := by
  induction n with
  | zero => rfl
  | succ n ih =>
    rw [outcomes, ih]
    rfl

/-- More calls go on where the earlier ones have stopped. -/
theorem outcomes_add (L : List RID) (m n : Nat) :
    outcomes L (m + n) = outcomes L m ++ outcomes (L.drop m) n := by
  induction m generalizing L with
  | zero =>
    rw [Nat.zero_add, List.drop_zero]
    rfl
  | succ m ih =>
    rw [Nat.succ_add]
    cases L with
    | nil =>
      have := ih []
      rw [List.drop_nil] at this
      simp only [outcomes, List.drop_nil, this, List.cons_append]
    | cons rid L => simp only [outcomes, List.drop_succ_cons, ih L, List.cons_append]

namespace HeapFileScan

variable {T : Prop} {s : Sys} {P R : Multiset Pin} {v : View} {nm : FileName} {c : Int}
  {M : Page → PageRecord → Bytes → Bool → Prop} {sat : RID → Bool} {fv : FileView} {H : Heap}
  {h : HeapFileScan} {x : Pin} {rid : RID} {st : Status} {L : List RID}

/-! ## The answers to a client -/

/-- `matchRec` gives the answer, in any state. -/
def Replies (h : HeapFileScan) (page : Page) (rec : PageRecord) (_ : Bytes) (a : Bool) : Prop :=
  ∃ s, Yields (h.matchRec page rec) s a false s

/-- A filter in the memory of the client is not part of the state. -/
theorem matchRec_client (hf : ∀ f, h.filter = some f → ∃ b, f = .client b) (page : Page)
    (rec : PageRecord) : IsPure (h.matchRec page rec) := by
  unfold matchRec
  cases hfilter : h.filter with
  | none => exact .pure true
  | some f =>
    obtain ⟨b, rfl⟩ := hf f hfilter
    have hchar (s : Sys) : s.charAt (.client b) = (b[·]?) := rfl
    simp only [hchar]
    split
    · exact .pure false
    · cases h.type with
      | INTEGER =>
        exact .get_bind (.ofOption_bind fun _ => .ofOption_bind fun _ => .pure _)
      | FLOAT =>
        exact .get_bind (.ofOption_bind fun _ => .ofOption_bind fun _ => .pure _)
      | STRING => exact .get_bind (.ofOption_bind fun _ => .pure _)

/-- A filter that `startScan` has been given by a client gets the same reply in every state. -/
theorem answers_client (hf : ∀ f, h.filter = some f → ∃ b, f = .client b)
    (hT : T → ∀ b, h.filter = some (.client b) → Compares h.offset h.length h.type b) :
    Answers T R v nm h h.Replies := by
  intro s P fv page rec b hc hR hne hlen hd hdn hbytes
  refine ⟨fun a e s' hy => ?_, fun ht => ?_⟩
  · obtain ⟨rfl, rfl⟩ := (h.matchRec_reads page rec s).1 a e s' hy
    exact ⟨rfl, rfl, s', hy⟩
  · cases hfilter : h.filter with
    | none =>
      exact (answers_all T R v nm hfilter s P fv page rec b hc hR hne hlen hd hdn hbytes).2 ht
    | some f =>
      obtain ⟨g, rfl⟩ := hf f hfilter
      exact (answers_filter hfilter (hT ht g hfilter) (fun _ _ _ _ _ _ _ => rfl) s P fv
        page rec b hc
        hR hne hlen hd hdn hbytes).2 ht

/-- A record gets one reply. -/
theorem Judged.unique (hf : ∀ f, h.filter = some f → ∃ b, f = .client b) {q : RID} {a a' : Bool}
    (ha : Judged H h.Replies q a) (ha' : Judged H h.Replies q a') : a = a' := by
  obtain ⟨b, rec, -, -, hget, s₁, hy⟩ := ha
  obtain ⟨b', rec', -, -, hget', s₂, hy'⟩ := ha'
  obtain rfl : rec = rec' := by
    rw [hget] at hget'
    cases hget'
    rfl
  exact (matchRec_client hf _ rec).unique hy hy'

/-! ## Scans of a file that does not change -/

/-- A scan in progress that is going to return the RIDs `L`, those left of the file that `sat`
picks. The file does not change, so that the answer depends on the RID only. -/
structure Reads (T : Prop) (R : Multiset Pin) (v : View) (nm : FileName) (c : Int)
    (M : Page → PageRecord → Bytes → Bool → Prop) (sat : RID → Bool) (s : Sys) (h : HeapFileScan)
    (fv : FileView) (H : Heap) (x : Pin) (L : List RID) : Prop where
  holds : Holds s R (v.setFile nm (some fv)) h H x
  handle : v.handle nm = some (h.filePtr, c)
  heapAt : HeapAt fv H
  header : HasHeader h.toHeapFile H x
  sized : H.Sized
  answers : Answers T R v nm h M
  judge : ∀ q a, Judged H M q a → a = sat q
  clean : h.curDirtyFlag = false
  left : ∃ k : Nat, h.curRec.slotNo = k - 1 ∧ L = (H.ridsAfter h.curPageNo k).filter sat

/-- How a call of `scanNext` ends if the RIDs of the list were left, and what it returns. -/
inductive Stops (h : HeapFileScan) (H : Heap) : List RID → Status → RID → Prop
  | record {rid : RID} {b : Bytes} {L : List RID} (hr : OnRecord h H rid b) :
      Stops h H (rid :: L) .OK rid
  | eof : Stops h H [] .FILEEOF NULLRID

/-- The outcome of one call, and what is left for the next ones. -/
theorem Stops.outcomes_succ (hn : Stops h H L st rid) (n : Nat) :
    outcomes L (n + 1) = (st, rid) :: outcomes L.tail n := by
  cases hn with
  | record _ => rfl
  | eof => rfl

/-- The scan has stopped at the record that the last of some calls has returned. -/
def Rests (h : HeapFileScan) (H : Heap) (o : Option (Status × RID)) : Prop :=
  ∀ rid, o = some (.OK, rid) → ∃ b, OnRecord h H rid b

theorem Stops.rests (hn : Stops h H L st rid) : Rests h H (some (st, rid)) := by
  intro r hr
  cases hn with
  | record h =>
    cases hr
    exact ⟨_, h⟩
  | eof => cases hr

/-- Where a call has stopped among the RIDs that were left. -/
theorem Reads.of_visited {l : List RID} {k : Nat} (hd : Holds s R (v.setFile nm (some fv)) h H x)
    (hh : v.handle nm = some (h.filePtr, c)) (hH : HeapAt fv H) (hx : HasHeader h.toHeapFile H x)
    (hsized : H.Sized) (hans : Answers T R v nm h M) (hjudge : ∀ q a, Judged H M q a → a = sat q)
    (hclean : h.curDirtyFlag = false) (hv : Visited H M l st rid h k) :
    Stops h H (l.filter sat) st rid ∧
      Reads T R v nm c M sat s h fv H x (l.filter sat).tail := by
  obtain ⟨hk, pre, hpre, hcase⟩ := hv
  have hreads : ∀ L, L = (H.ridsAfter h.curPageNo k).filter sat →
      Reads T R v nm c M sat s h fv H x L := fun L hL =>
    ⟨hd, hh, hH, hx, hsized, hans, hjudge, hclean, k, hk, hL⟩
  -- the records that were passed over are not picked
  have hnil : pre.filter sat = [] := List.filter_eq_nil_iff.mpr fun q hq hs => by
    rw [← hjudge q false (hpre q hq)] at hs
    cases hs
  rcases hcase with ⟨rfl, hcur, hpg, hj, rfl⟩ | ⟨rfl, rfl, rfl, hend⟩ | ⟨-, -, -, hb, -⟩
  · obtain ⟨b, -, hb, -⟩ := id hj
    rw [List.filter_append, hnil, List.nil_append,
      List.filter_cons_of_pos (hjudge rid true hj).symm]
    exact ⟨.record ⟨hcur, hpg, hb⟩, hreads _ rfl⟩
  · rw [hnil]
    refine ⟨.eof, hreads _ ?_⟩
    rw [hend]
    rfl
  · exact absurd rfl (hsized _ _ hb)

/-- `scanNext` takes the first RID off the list. -/
theorem Reads.next (fuel : Nat) (hs : Reads T R v nm c M sat s h fv H x L)
    (hT : T → 0 < freeFrames v.numBufs (x ::ₘ R) ∧ H.rids.length + H.pages.length + 1 ≤ fuel) :
    Clean T (scanNext fuel h) s fun r s' => Moves h r.2.2 ∧ Stops r.2.2 H L r.1 r.2.1 ∧
      Reads T R v nm c M sat s' r.2.2 fv H x L.tail := by
  obtain ⟨k, hk, hl⟩ := hs.left
  have hmem := hs.holds.mem
  have hlt := Heap.length_after_lt hmem
  have hle : (H.ridsAfter h.curPageNo k).length ≤ H.rids.length := Heap.length_ridsAfter_le hmem
  refine Runs.mono (scanNext_spec fuel hs.holds hs.handle hs.heapAt hs.answers hk fun ht => ?_) ?_
  · have := (hT ht).2
    omega
  rintro ⟨st, rid, h'⟩ e s' ⟨fv', hfor, hm, ⟨rfl, -, hfull, -⟩ | ⟨rfl, hd, k', hv⟩⟩
  · exact ⟨fun ht => absurd hfull (Nat.ne_of_gt (hT ht).1), nofun⟩
  obtain rfl : fv' = fv := hfor.eq_of_not fun p hp => by
    rw [hs.clean] at hp
    cases hp.1
  dsimp only at hm hd hv ⊢
  refine ⟨fun _ => rfl, fun _ => ⟨hm, ?_⟩⟩
  rw [hl]
  exact Reads.of_visited hd (by rw [hm.filePtr]; exact hs.handle) hs.heapAt (hm.hasHeader hs.header)
    hs.sized (hs.answers.moves hm) hs.judge (hm.clean_of hs.clean) hv

/-- `n` calls take the first `n` RIDs off the list. -/
theorem Reads.calls (fuel n : Nat) {o : Option (Status × RID)}
    (hs : Reads T R v nm c M sat s h fv H x L) (ho : Rests h H o)
    (hT : T → 0 < freeFrames v.numBufs (x ::ₘ R) ∧ H.rids.length + H.pages.length + 1 ≤ fuel) :
    Clean T (scanCalls fuel n h) s fun r s' => r.1 = outcomes L n ∧ Moves h r.2 ∧
      Rests r.2 H (r.1.getLast?.or o) ∧ Reads T R v nm c M sat s' r.2 fv H x (L.drop n) := by
  induction n generalizing s h L o with
  | zero =>
    unfold scanCalls
    rw [clean_pure]
    exact ⟨rfl, .refl h, ho, hs⟩
  | succ n ih =>
    unfold scanCalls
    refine (hs.next fuel hT).bind ?_
    rintro ⟨st, rid, h₁⟩ s₁ ⟨hm, hstop, hs₁⟩
    dsimp only at hm hstop hs₁ ⊢
    refine (ih hs₁ hstop.rests).bind ?_
    rintro ⟨l, h₂⟩ s₂ ⟨hl, hm', hrest, hs₂⟩
    rw [clean_pure]
    dsimp only at hl hrest ⊢
    refine ⟨?_, hm.trans hm', ?_, ?_⟩
    · rw [hstop.outcomes_succ n, hl]
    · -- the last of the calls is the last of the later ones, if there are any
      rw [List.getLast?_cons]
      cases hlast : l.getLast? with
      | none =>
        rw [hlast] at hrest
        exact hrest
      | some p =>
        rw [hlast] at hrest
        exact hrest
    · rwa [List.drop_tail] at hs₂

/-- Calls of a scan that has passed the end of the file. -/
theorem scanCalls_eof (fuel n : Nat) (hneg : h.curPageNo < 0) :
    Yields (scanCalls fuel n h) s (List.replicate n (.FILEEOF, NULLRID), h) false s := by
  induction n with
  | zero => rfl
  | succ n ih =>
    unfold scanCalls
    refine Yields.bind (d := false) (t := s) (e := false) (a := (.FILEEOF, NULLRID, h)) ?_ ?_
    · unfold scanNext
      rw [if_pos hneg]
      rfl
    · exact Yields.bind (d := false) ih rfl

/-- The calls after `endScan`. They are given all the records again, unless the first page has
none. -/
theorem rescan_calls (fuel : Nat) (n : Nat) (hc : Coh s (x ::ₘ R) (v.setFile nm (some fv)))
    (hh : v.handle nm = some (h.filePtr, c)) (hH : HeapAt fv H) (hx : HasHeader h.toHeapFile H x)
    (hsized : H.Sized) (hans : Answers T R v nm h M) (hjudge : ∀ q a, Judged H M q a → a = sat q)
    (hnull : h.curPage = .null) (hpage : h.curPageNo = 0) (hclean : h.curDirtyFlag = false)
    (hT : T → 0 < freeFrames v.numBufs (x ::ₘ R) ∧ H.rids.length + H.pages.length + 2 ≤ fuel) :
    Clean T (scanCalls fuel n h) s fun r _ => r.1 =
      outcomes (if H.ridsFrom 0 H.hdr.firstPage = [] then [] else H.rids.filter sat) n := by
  cases n with
  | zero =>
    unfold scanCalls
    rw [clean_pure]
    rfl
  | succ n =>
    unfold scanCalls scanNext
    rw [if_neg (by omega), if_pos hnull]
    have hfirst : Clean T (scanFirst fuel h) s fun r s' =>
        (r.1 = .FILEEOF ∧ r.2.1 = NULLRID ∧ r.2.2.curPageNo = -1 ∧
          H.ridsFrom 0 H.hdr.firstPage = []) ∨
        (H.ridsFrom 0 H.hdr.firstPage ≠ [] ∧ Stops r.2.2 H (H.rids.filter sat) r.1 r.2.1 ∧
          Reads T R v nm c M sat s' r.2.2 fv H x (H.rids.filter sat).tail) := by
      refine Runs.mono (scanFirst_spec fuel hc hh hH hx hnull hans fun ht => (hT ht).2) ?_
      rintro ⟨st, rid, h'⟩ e s' ⟨hm, hcase⟩
      dsimp only at hm hcase ⊢
      rcases hcase with ⟨⟨rfl, -, hfull⟩ | ⟨rfl, hst, hrid, hno, hnil⟩, -, -⟩ | ⟨rfl,
        hne, hd, k, hv⟩
      · exact ⟨fun ht => absurd hfull (Nat.ne_of_gt (hT ht).1), fun he => by cases he⟩
      · exact ⟨fun _ => rfl, fun _ => Or.inl ⟨hst, hrid, hno, hnil⟩⟩
      · refine ⟨fun _ => rfl, fun _ => Or.inr ⟨hne, ?_⟩⟩
        exact Reads.of_visited hd (by rw [hm.filePtr]; exact hh) hH (hm.hasHeader hx) hsized
          (hans.moves hm) hjudge (hm.clean_of hclean) hv
    refine hfirst.bind ?_
    rintro ⟨st, rid, h'⟩ s' (⟨rfl, rfl, hno, hnil⟩ | ⟨hne, hstop, hs'⟩)
    · -- the first page is taken for the end of the file, and the later calls stay there
      dsimp only at hno ⊢
      have hy : Yields (scanCalls fuel n h') s'
        (List.replicate n (.FILEEOF, NULLRID), h') false s' := scanCalls_eof fuel n (by omega)
      rw [clean_bind_of_yields hy, clean_pure, if_pos hnil, outcomes_nil]
      rfl
    · dsimp only at hstop hs' ⊢
      refine (hs'.calls fuel n hstop.rests
        fun ht => ⟨(hT ht).1, by have := (hT ht).2; omega⟩).bind ?_
      rintro ⟨l, h₂⟩ s₂ ⟨hl, -⟩
      rw [clean_pure, if_neg hne, hstop.outcomes_succ n]
      dsimp only at hl ⊢
      rw [hl]

/-- A new scan is in front of all records. -/
theorem new_reads (hc : Coh s P v) (hH : IsHeap v nm fv H) (hT : T → 2 ≤ freeFrames v.numBufs P) :
    Clean T (HeapFileScan.new nm) s fun r s' => r.2.filter = none ∧
      ∃ x : Pin, x.wrote = false ∧ ∀ (M : Page → PageRecord → Bytes → Bool → Prop)
        (sat : RID → Bool)
        (h' : HeapFileScan), h'.toHeapFile = r.2.toHeapFile →
        (∀ w, Answers T P w nm h' M) → (∀ q a, Judged H M q a → a = sat q) →
        ∃ w : View, w.numBufs = v.numBufs ∧
          Reads T P w nm (v.openCnt nm + 1) M sat s' h' fv H x (H.rids.filter sat) := by
  refine (new_holds hc hH hT).mono ?_
  rintro ⟨st, h⟩ s₁ ⟨-, hfilter, x, hx, -, hnew⟩
  refine ⟨hfilter, x, hx, fun M sat h' hh' hans hjudge =>
    ⟨v.setHandle nm (some (h.filePtr, v.openCnt nm + 1)), rfl, ?_⟩⟩
  obtain ⟨hd, hfp, hhdr, hpg, hslot, hclean⟩ := hnew h' hh'
  refine ⟨hd, by rw [hfp]; exact View.handle_setHandle_self, hH.heapAt, hhdr, hH.sized, hans _,
    hjudge, hclean, 0, hslot, ?_⟩
  rw [hpg, hH.heapAt.rids_eq]

end HeapFileScan

/-! ## Scanning again -/

/-- A scan of a file, with `n` calls of `scanNext`. -/
def firstScan (nm : FileName) (offset length : Int) (type : Datatype) (filter : Option Bytes)
    (op : Operator) (fuel n : Nat) : M (List (Status × RID)) := do
  let (_, h) ← HeapFileScan.new nm
  let (_, h) := h.startScan offset length type (filter.map .client) op
  let (l, _) ← scanCalls fuel n h
  return l

/-- The same with an object whose scan has been ended after `m` calls. -/
def rescan (nm : FileName) (offset length : Int) (type : Datatype) (filter : Option Bytes)
    (op : Operator) (fuel m n : Nat) : M (List (Status × RID)) := do
  let (_, h) ← HeapFileScan.new nm
  let (_, h) := h.startScan offset length type (filter.map .client) op
  let (_, h) ← scanCalls fuel m h
  let (_, h) ← h.endScan
  let (l, _) ← scanCalls fuel n h
  return l

section Rescan

variable {s : Sys} {P : Multiset Pin} {v : View} {nm : FileName} {fv : FileView} {H : Heap}
  {offset length : Int} {type : Datatype} {filter : Option Bytes} (op : Operator)

/-- The scan with its filter. -/
theorem startScan_reads {T : Prop} (hc : Coh s P v) (hH : IsHeap v nm fv H)
    (hcmp : ∀ f, filter = some f → Compares offset length type f)
    (hT : T → 2 ≤ freeFrames v.numBufs P) :
    Clean T (HeapFileScan.new nm) s fun r s' => ∃ (x : Pin) (w : View), x.wrote = false ∧
      w.numBufs = v.numBufs ∧
      HeapFileScan.Reads T P w nm (v.openCnt nm + 1)
        (fun _ _ b a => a = satisfies offset length type filter op b)
        (fun q => (H.rec? q).any (satisfies offset length type filter op)) s'
        (r.2.startScan offset length type (filter.map .client) op).2 fv H x
        (H.rids.filter fun q => (H.rec? q).any (satisfies offset length type filter op)) := by
  refine (HeapFileScan.new_reads hc hH hT).mono ?_
  rintro ⟨st, h⟩ s₁ ⟨-, x, hx, hnew⟩
  have hans (w : View) : HeapFileScan.Answers T P w nm
      (h.startScan offset length type (filter.map .client) op).2
      fun _ _ b a => a = satisfies offset length type filter op b := by
    cases filter with
    | none => exact HeapFileScan.answers_all T P w nm rfl
    | some f =>
      obtain ⟨h₁, h₂, h₃, h₄, h₅⟩ := hcmp f rfl
      have hstart : h.startScan offset length type (Option.map CharPtr.client (some f)) op = _ :=
        HeapFileScan.startScan_some h₁ h₂ h₃
      rw [hstart]
      exact HeapFileScan.answers_filter rfl ⟨h₁, h₂, h₃, h₄, h₅⟩ fun _ _ _ _ _ _ _ => rfl
  obtain ⟨w, hw, hs⟩ := hnew _ (fun q => (H.rec? q).any (satisfies offset length type filter op)) _
    (HeapFileScan.startScan_toHeapFile h offset length type (filter.map .client) op) hans
    fun q a ⟨b, _, hb, _, _, ha⟩ => by
      rw [ha, hb]
      rfl
  exact ⟨x, w, hx, hw, hs⟩

/-- The first page has no records. -/
theorem ridsFrom_first_eq_nil (hH : HeapAt fv H) :
    H.ridsFrom 0 H.hdr.firstPage = [] ↔ ∀ j, H.rec? ⟨H.hdr.firstPage, j⟩ = none := by
  rw [List.eq_nil_iff_forall_not_mem]
  constructor
  · intro h j
    by_contra hne
    obtain ⟨b, hb⟩ := Option.ne_none_iff_exists'.mp hne
    exact h _ ((hH.mem_ridsFrom hH.first_mem).mpr ⟨rfl, Clients.slotNo_nonneg hb, hne⟩)
  · rintro h ⟨p, j⟩ hr
    obtain ⟨rfl, -, hne⟩ := (hH.mem_ridsFrom hH.first_mem).mp hr
    exact hne (h j)

/-- What the calls of a first scan return. -/
theorem firstScan_spec {T : Prop} (hc : Coh s P v) (hH : IsHeap v nm fv H)
    (hcmp : ∀ f, filter = some f → Compares offset length type f) {fuel : Nat}
    (hT : T → 2 ≤ freeFrames v.numBufs P ∧ H.rids.length + H.pages.length + 1 ≤ fuel) (n : Nat) :
    Clean T (firstScan nm offset length type filter op fuel n) s fun l _ => l =
      outcomes (H.rids.filter fun q => (H.rec? q).any
        (satisfies offset length type filter op)) n := by
  unfold firstScan
  refine (startScan_reads op hc hH hcmp fun ht => (hT ht).1).bind ?_
  rintro ⟨st, h⟩ s₁ ⟨x, w, -, hw, hs⟩
  dsimp only at hs ⊢
  refine (hs.calls (o := none) fuel n nofun fun ht => ?_).bind ?_
  · have := freeFrames_cons w.numBufs x P
    have := (hT ht).1
    exact ⟨by rw [hw] at *; omega, (hT ht).2⟩
  · rintro ⟨l, h'⟩ s₂ ⟨hl, -⟩
    exact clean_pure.mpr hl

/-- What the calls return after `endScan`. -/
theorem rescan_spec {T : Prop} (hc : Coh s P v) (hH : IsHeap v nm fv H)
    (hcmp : ∀ f, filter = some f → Compares offset length type f) {fuel : Nat}
    (hT : T → 2 ≤ freeFrames v.numBufs P ∧ H.rids.length + H.pages.length + 2 ≤ fuel) (m n : Nat) :
    Clean T (rescan nm offset length type filter op fuel m n) s fun l _ => l =
      outcomes (if H.ridsFrom 0 H.hdr.firstPage = [] then [] else
        H.rids.filter fun q => (H.rec? q).any (satisfies offset length type filter op)) n := by
  unfold rescan
  refine (startScan_reads op hc hH hcmp fun ht => (hT ht).1).bind ?_
  rintro ⟨st, h⟩ s₁ ⟨x, w, -, hw, hs⟩
  dsimp only at hs ⊢
  have hfree (ht : T) : 0 < freeFrames w.numBufs (x ::ₘ P) := by
    have := freeFrames_cons w.numBufs x P
    have := (hT ht).1
    rw [hw] at *
    omega
  refine (hs.calls (o := none) fuel m nofun fun ht =>
    ⟨hfree ht, by have := (hT ht).2; omega⟩).bind ?_
  rintro ⟨l, h₁⟩ s₂ ⟨-, -, -, hs₁⟩
  -- `endScan` gives the data page back
  obtain ⟨y, hc₁, hp, hw₁⟩ := hs₁.holds
  obtain ⟨s₃, fv₁, hy, hc₂, hfor⟩ :=
    hp.unpin hc₁ hs₁.handle View.file_setFile_self h₁.curDirtyFlag hw₁
  obtain rfl : fv₁ = fv := hfor.eq_of_not fun p hq => by
    rw [hs₁.clean] at hq
    cases hq.1
  rw [View.setFile_setFile] at hc₂
  have hend := yields_endScan hp hy
  dsimp only at hend ⊢
  rw [clean_bind_of_yields hend]
  dsimp only
  refine (HeapFileScan.rescan_calls
    (h := { h₁ with curPage := .null, curPageNo := 0, curDirtyFlag := false }) fuel n hc₂
    hs₁.handle hs₁.heapAt ?_ hs₁.sized hs₁.answers hs₁.judge rfl rfl rfl
    fun ht => ⟨hfree ht, (hT ht).2⟩).bind ?_
  · exact ⟨hs₁.header.file, hs₁.header.pageNo, hs₁.header.headerPageNo, hs₁.header.headerPage,
      hs₁.header.dirty⟩
  · rintro ⟨l', h₂⟩ s₄ hl'
    exact clean_pure.mpr hl'

variable {op}

/-- The second scan with an object returns what the first one would, after any number of calls,
exactly if the first page has a record or no record satisfies the predicate. -/
theorem rescan_iff (hc : Coh s P v) (hH : IsHeap v nm fv H)
    (hcmp : ∀ f, filter = some f → Compares offset length type f) {fuel : Nat}
    (hfree : 2 ≤ s.freeFrames) (hfuel : H.rids.length + H.pages.length + 2 ≤ fuel) :
    (∀ m n, ∃ l s₁ s₂, Yields (firstScan nm offset length type filter op fuel n) s l false s₁ ∧
      Yields (rescan nm offset length type filter op fuel m n) s l false s₂) ↔
      (∃ j b, H.rec? ⟨H.hdr.firstPage, j⟩ = some b) ∨
        ∀ rid b, H.rec? rid = some b → satisfies offset length type filter op b = false := by
  rw [hc.freeFrames_eq] at hfree
  have hfirst := firstScan_spec (T := True) op hc hH hcmp fun _ =>
    ⟨hfree, (by omega : H.rids.length + H.pages.length + 1 ≤ fuel)⟩
  have hagain := rescan_spec (T := True) op hc hH hcmp fun _ => ⟨hfree, hfuel⟩
  set L := H.rids.filter fun q => (H.rec? q).any (satisfies offset length type filter op) with hL
  constructor
  · intro h
    by_cases hnil : H.ridsFrom 0 H.hdr.firstPage = []
    · -- the second scan finds nothing, so that the first one must not
      refine Or.inr fun rid b hb => ?_
      by_contra hsat
      rw [Bool.not_eq_false] at hsat
      obtain ⟨l, s₁, s₂, hy₁, hy₂⟩ := h 0 1
      have h₁ := (hfirst 1).of_yields hy₁
      have h₂ := (hagain 0 1).of_yields hy₂
      rw [h₁, if_pos hnil] at h₂
      have hmem : rid ∈ L := by
        rw [hL, List.mem_filter, hb]
        exact ⟨hH.heapAt.mem_rids.mpr (by rw [hb]; nofun), hsat⟩
      cases hLc : L with
      | nil =>
        rw [hLc] at hmem
        cases hmem
      | cons q L' =>
        rw [hLc] at h₂
        cases h₂
    · refine Or.inl ?_
      rw [ridsFrom_first_eq_nil hH.heapAt] at hnil
      push Not at hnil
      obtain ⟨j, hj⟩ := hnil
      exact ⟨j, Option.ne_none_iff_exists'.mp hj⟩
  · intro h m n
    obtain ⟨l, s₁, hy₁, rfl⟩ := (hfirst n).exists trivial
    obtain ⟨l', s₂, hy₂, hl'⟩ := (hagain m n).exists trivial
    refine ⟨_, s₁, s₂, hy₁, ?_⟩
    have heq : (if H.ridsFrom 0 H.hdr.firstPage = [] then [] else L) = L := by
      rw [ite_eq_right_iff]
      intro hnil
      rcases h with ⟨j, b, hb⟩ | hnone
      · rw [(ridsFrom_first_eq_nil hH.heapAt).mp hnil j] at hb
        cases hb
      · rw [hL, eq_comm, List.filter_eq_nil_iff]
        intro q hq hsat
        obtain ⟨b, hb⟩ := Option.ne_none_iff_exists'.mp (hH.heapAt.mem_rids.mp hq)
        rw [hb, Option.any_some, hnone q b hb] at hsat
        cases hsat
    rw [heq] at hl'
    rwa [hl'] at hy₂

end Rescan

/-- A file with one record, which both scans pass over. -/
theorem rescan_iff_oneRecord : ∃ s fuel, ∀ m n, ∃ l s₁ s₂,
    Yields (firstScan [82] 0 3 .STRING (some [1, 2, 4]) .EQ fuel n) s l false s₁ ∧
    Yields (rescan [82] 0 3 .STRING (some [1, 2, 4]) .EQ fuel m n) s l false s₂ := by
  obtain ⟨s, v, fv, H, hc, hf, hh, hH, hsized, hrec, hfree, -⟩ := exists_oneRecord
  have hheap : IsHeap v [82] fv H := ⟨nofun, hf, hH, hsized, fun f c he => by
    rw [hh] at he
    cases he⟩
  refine ⟨s, H.rids.length + H.pages.length + 2, (rescan_iff hc hheap ?_ ?_ le_rfl).mpr (Or.inr ?_)⟩
  · intro f hf
    cases hf
    exact ⟨by decide, by decide, nofun, by decide, Or.inl (by decide)⟩
  · rw [hfree]
    decide
  · intro rid b hb
    have hmem := (Heap.mem_records hH).mpr hb
    rw [hrec] at hmem
    cases List.mem_singleton.mp hmem
    decide

/-- A file whose first page has lost its only record, with a record on the second page. -/
def emptyFirstPage : M (List Status) := do
  let st₀ ← createHeapFile [82]
  let (st₁, h) ← InsertFileScan.new [82]
  let (st₂, _, h) ← InsertFileScan.insertRecord h ⟨List.replicate 600 7, 600⟩
  let (st₃, _, h) ← InsertFileScan.insertRecord h ⟨List.replicate 600 7, 600⟩
  InsertFileScan.delete h
  let (st₄, q) ← HeapFileScan.new [82]
  let (st₅, _, q) ← HeapFileScan.scanNext 2 q
  let (st₆, q) ← HeapFileScan.deleteRecord q
  HeapFileScan.delete q
  return [st₀, st₁, st₂, st₃, st₄, st₅, st₆]

/-- The first scan returns the record, the second one does not. -/
theorem rescan_misses_record : ∃ s s₁ s₂,
    Yields emptyFirstPage (Sys.blank 4) (List.replicate 7 .OK) false s ∧
    Yields (firstScan [82] 0 1 .STRING none .EQ 4 1) s [(.OK, ⟨3, 0⟩)] false s₁ ∧
    Yields (rescan [82] 0 1 .STRING none .EQ 4 0 1) s [(.FILEEOF, NULLRID)] false s₂ := by
  obtain ⟨r, e, s, hy, hv⟩ := exists_of_eval (s := Sys.blank 4) (x := emptyFirstPage)
    (g := fun r e s => (r, e,
      decide (eval (firstScan [82] 0 1 .STRING none .EQ 4 1) s (fun l e _ => (l, e)) =
        some ([(.OK, ⟨3, 0⟩)], false)),
      decide (eval (rescan [82] 0 1 .STRING none .EQ 4 0 1) s (fun l e _ => (l, e)) =
        some ([(.FILEEOF, NULLRID)], false))))
    (v := (List.replicate 7 .OK, false, true, true)) (by decide +kernel)
  simp only [Prod.mk.injEq, decide_eq_true_eq] at hv
  obtain ⟨rfl, rfl, hfirst, hagain⟩ := hv
  obtain ⟨_, _, s₁, hy₁, h₁⟩ := exists_of_eval hfirst
  obtain ⟨_, _, s₂, hy₂, h₂⟩ := exists_of_eval hagain
  cases h₁
  cases h₂
  exact ⟨s, s₁, s₂, hy, hy₁, hy₂⟩

/-! ## Going back to a mark -/

/-- A scan that sets a mark after `m` calls of `scanNext`, and goes back to it after `n` more. It
returns what the calls before the mark have returned, the status of `resetScan` and the object. -/
def markReset (nm : FileName) (offset length : Int) (type : Datatype) (filter : Option Bytes)
    (op : Operator) (fuel m n : Nat) : M (List (Status × RID) × Status × HeapFileScan) := do
  let (_, h) ← HeapFileScan.new nm
  let (_, h) := h.startScan offset length type (filter.map .client) op
  let (l, h) ← scanCalls fuel m h
  let (_, h) ← scanCalls fuel n h.markScan
  let (status, h) ← h.resetScan
  return (l, status, h)

/-- The object has a pin on its header page and one on its data page, in addition to the pins there
were, and no other one. -/
def PinsOnePage (s s' : Sys) (h : HeapFile) : Prop :=
  ∃ i j, h.headerPage = .frame i ∧ h.curPage = .frame j ∧ i ≠ j ∧
    (s'.buf.bufTable j).valid = true ∧ (s'.buf.bufTable j).file = h.filePtr ∧
    (s'.buf.bufTable j).pageNo = h.curPageNo ∧
    ∀ n < s'.buf.numBufs, (s'.buf.bufTable n).pinCnt =
      (s.buf.bufTable n).pinCnt + (if i = n then 1 else 0) + (if j = n then 1 else 0)

namespace HeapFileScan

variable {T : Prop} {s s' : Sys} {P : Multiset Pin} {v w : View} {nm : FileName} {c : Int}
  {M : Page → PageRecord → Bytes → Bool → Prop} {sat : RID → Bool} {fv : FileView} {H : Heap}
  {h : HeapFileScan} {x : Pin} {rid : RID} {L : List RID}

/-- A scan in progress has its two pages pinned. -/
theorem Reads.pinsOnePage (hs : Reads T P w nm c M sat s' h fv H x L) (hc : Coh s P v)
    (hw : w.numBufs = v.numBufs) : PinsOnePage s s' h.toHeapFile := by
  obtain ⟨y, hc', hp, -⟩ := hs.holds
  have hx := hs.header
  have hpin (z : Pin) (hz : z ∈ y ::ₘ x ::ₘ P) :=
    hc'.sound.consistent.entry _ _ _ (hc'.pins z hz)
  obtain ⟨-, -, -, hxp⟩ := hpin x (Multiset.mem_cons_of_mem (Multiset.mem_cons_self x P))
  obtain ⟨-, hyv, hyf, hyp⟩ := hpin y (Multiset.mem_cons_self y _)
  refine ⟨x.frame, y.frame, hx.headerPage, hp.curPage, fun he => ?_, hyv, hyf.trans hp.file,
    hyp.trans hp.pageNo, fun n hn => ?_⟩
  · -- the header page is not a data page
    rw [he, hyp, hp.pageNo, hx.pageNo] at hxp
    exact hs.heapAt.hdr_not_mem (hxp ▸ hp.mem)
  · have hn' : n < s.buf.numBufs := by
      rw [hc.numBufs, ← hw]
      rw [hc'.numBufs] at hn
      exact hn
    rw [hc'.counts n hn, hc.counts n hn', Multiset.countP_cons, Multiset.countP_cons]

/-- `getRecord` at the record that the last call has returned. -/
theorem Reads.getRecord (hs : Reads T P w nm c M sat s h fv H x L)
    (hr : Rests h H (some (.OK, rid))) :
    ∃ b rec, H.rec? rid = some b ∧ Yields (getRecord h) s (.OK, rec) false s ∧
      Yields (currentBytes h) s b false s := by
  obtain ⟨b, hrec⟩ := hr rid rfl
  obtain ⟨j, hrid, hj⟩ := hrec.slot
  have hb := hrec.record
  rw [hrid] at hb
  obtain ⟨rec, hy, -⟩ := getRecord_spec hs.holds hs.handle hs.heapAt hj hb (hs.sized _ _ hb)
  exact ⟨b, rec, hrec.record, hy,
    currentBytes_spec hs.holds hs.handle hs.heapAt hj hb (hs.sized _ _ hb)⟩

/-- `resetScan` goes back to where the scan was at the mark. -/
theorem Reads.reset {h₀ : HeapFileScan} {s₀ : Sys} {L₀ : List RID}
    (hs : Reads T P w nm c M sat s h fv H x L) (hs₀ : Reads T P w nm c M sat s₀ h₀ fv H x L₀)
    (hm : Moves h₀.markScan h) (hT : T → 0 < freeFrames w.numBufs (x ::ₘ P)) :
    Clean T (resetScan h) s fun q s' => q.1 = .OK ∧ q.2.curPageNo = h₀.curPageNo ∧
      q.2.curRec = h₀.curRec ∧ Reads T P w nm c M sat s' q.2 fv H x L₀ := by
  have hpg : h.markedPageNo = h₀.curPageNo := by
    obtain ⟨_, _, _, _, rfl, -⟩ := hm
    rfl
  have hrec : h.markedRec = h₀.curRec := by
    obtain ⟨_, _, _, _, rfl, -⟩ := hm
    rfl
  refine (resetScan_spec hs.holds hs.handle hs.heapAt (hpg ▸ hs₀.holds.mem) hT).mono ?_
  rintro ⟨st, q⟩ s' ⟨hst, fv', pg, d, hfor, hq, hd, hholds⟩
  obtain rfl : fv' = fv := hfor.eq_of_not fun p hp => by
    rw [hs.clean] at hp
    cases hp.1
  dsimp only at hst hq hholds ⊢
  have hmoves : Moves h q := by
    refine ⟨pg, _, d, _, hq, fun ht => ?_⟩
    rw [hs.clean] at hd
    cases hd ht
  obtain ⟨k, hk, hL⟩ := hs₀.left
  have hcur : q.curPageNo = h₀.curPageNo := by
    rw [hq]
    exact hpg
  have hcrec : q.curRec = h₀.curRec := by
    rw [hq]
    exact hrec
  refine ⟨hst, hcur, hcrec, hholds, by rw [hmoves.filePtr]; exact hs.handle, hs.heapAt,
    hmoves.hasHeader hs.header, hs.sized, hs.answers.moves hmoves, hs.judge,
    hmoves.clean_of hs.clean,
    k, ?_, ?_⟩
  · rw [hcrec, hk]
  · rw [hcur, hL]

/-- The filter of a scan that has been started is the one of the client, and it can be compared if
`startScan` has accepted it. -/
theorem startScan_filter {offset length : Int} {type : Datatype} {filter : Option Bytes}
    {op : Operator} (hnone : h.filter = none) {f : CharPtr}
    (hf : (h.startScan offset length type (filter.map .client) op).2.filter = some f) :
    ∃ b, filter = some b ∧ f = .client b ∧
      h.startScan offset length type (filter.map .client) op =
        (.OK, { h with offset, length, type, filter := some (.client b), op }) := by
  cases filter with
  | none => cases hf
  | some b =>
    by_cases hok : (h.startScan offset length type (some (.client b)) op).1 = .OK
    · obtain ⟨h₁, h₂, h₃⟩ := startScan_ok hok
      have hstart : h.startScan offset length type (Option.map CharPtr.client (some b)) op = _ :=
        startScan_some h₁ h₂ h₃
      rw [hstart] at hf
      cases hf
      exact ⟨b, rfl, rfl, hstart⟩
    · -- a filter that is refused is not set
      have hsame : (h.startScan offset length type (some (.client b)) op).2 = h := by
        unfold startScan at hok ⊢
        rw [if_neg (show ¬(some (CharPtr.client b)).isNone = true from Bool.false_ne_true)] at hok ⊢
        split
        · rfl
        next hc =>
          rw [if_neg hc] at hok
          exact absurd rfl hok
      have hf' : (h.startScan offset length type (some (.client b)) op).2.filter = some f := hf
      rw [hsame, hnone] at hf'
      cases hf'

end HeapFileScan

/-- What lets a scan run to its end: two frames to spare, enough fuel, and a filter that can be
compared with the records, unless `startScan` refuses it. -/
structure CanScan (s : Sys) (H : Heap) (offset length : Int) (type : Datatype)
    (filter : Option Bytes) (op : Operator) (fuel : Nat) : Prop where
  frames : 2 ≤ s.freeFrames
  fuel : H.rids.length + H.pages.length + 1 ≤ fuel
  compares : ∀ b, filter = some b → ∀ h : HeapFileScan,
    (h.startScan offset length type (some (.client b)) op).1 = .OK → Compares offset length type b

/-- Going back to a mark: `resetScan` succeeds, `getRecord` finds the record that was current at the
mark, the scan has one data page pinned, and the calls that follow return what the calls after the
mark would have returned. -/
theorem markReset_spec {s : Sys} {P : Multiset Pin} {v : View} {nm : FileName} {fv : FileView}
    {H : Heap} (hc : Coh s P v) (hH : IsHeap v nm fv H) (offset length : Int) (type : Datatype)
    (filter : Option Bytes) (op : Operator) (fuel m n : Nat) :
    Clean (CanScan s H offset length type filter op fuel)
      (markReset nm offset length type filter op fuel m n) s fun r s' =>
        r.2.1 = .OK ∧
        (∀ rid, r.1.getLast? = some (.OK, rid) → ∃ b rec, H.rec? rid = some b ∧
          Yields r.2.2.getRecord s' (.OK, rec) false s' ∧ Yields r.2.2.currentBytes s' b false s') ∧
        PinsOnePage s s' r.2.2.toHeapFile ∧
        ∀ k, Clean (CanScan s H offset length type filter op fuel)
          (firstScan nm offset length type filter op fuel (m + k)) s fun l _ =>
            Clean (CanScan s H offset length type filter op fuel) (scanCalls fuel k r.2.2) s'
              fun q _ => l = r.1 ++ q.1 := by
  classical
  generalize hT : CanScan s H offset length type filter op fuel = T
  have hT (ht : T) : CanScan s H offset length type filter op fuel := hT.symm ▸ ht
  have hfree (ht : T) : 2 ≤ freeFrames v.numBufs P := hc.freeFrames_eq ▸ (hT ht).frames
  unfold markReset
  refine (HeapFileScan.new_reads hc hH hfree).yields.bind ?_
  rintro ⟨st, h₀⟩ s₁ ⟨hnew, hnone, x, -, hreads⟩
  dsimp only at hnone hreads ⊢
  -- the replies to the filter, and what the scan is going to return
  set h := (h₀.startScan offset length type (filter.map .client) op).2 with hh
  have hclient (f : CharPtr) (hf : h.filter = some f) : ∃ b, f = .client b := by
    obtain ⟨b, -, hb, -⟩ := HeapFileScan.startScan_filter hnone hf
    exact ⟨b, hb⟩
  have hans (w : View) : HeapFileScan.Answers T P w nm h h.Replies := by
    refine HeapFileScan.answers_client hclient fun ht b hb => ?_
    obtain ⟨b', rfl, hbb, hstart⟩ := HeapFileScan.startScan_filter hnone hb
    cases hbb
    have hcmp := (hT ht).compares b rfl h₀ (congrArg Prod.fst hstart)
    rw [hh, hstart]
    exact hcmp
  obtain ⟨w, hw, hs⟩ :=
    hreads h.Replies (fun q => decide (HeapFileScan.Judged H h.Replies q true)) h
    (HeapFileScan.startScan_toHeapFile h₀ offset length type (filter.map .client) op) hans
    fun q a ha => by
      cases a with
      | true => exact (decide_eq_true ha).symm
      | false =>
        refine (decide_eq_false fun ht => ?_).symm
        cases HeapFileScan.Judged.unique hclient ha ht
  set L := H.rids.filter fun q => decide (HeapFileScan.Judged H h.Replies q true)
  have hfuel (ht : T) : 0 < freeFrames w.numBufs (x ::ₘ P) ∧
      H.rids.length + H.pages.length + 1 ≤ fuel := by
    have := freeFrames_cons w.numBufs x P
    have := hfree ht
    refine ⟨?_, (hT ht).fuel⟩
    rw [hw] at *
    omega
  refine (hs.calls (o := none) fuel m nofun hfuel).bind ?_
  rintro ⟨l, h₁⟩ s₂ ⟨hl, -, hrest, hs₁⟩
  dsimp only at hl hrest hs₁ ⊢
  rw [Option.or_none] at hrest
  -- the calls after the mark
  have hs₁' : HeapFileScan.Reads T P w nm (v.openCnt nm + 1) h.Replies
      (fun q => decide (HeapFileScan.Judged H h.Replies q true)) s₂ h₁.markScan fv H x (L.drop m) :=
    ⟨hs₁.holds, hs₁.handle, hs₁.heapAt,
      ⟨hs₁.header.file, hs₁.header.pageNo, hs₁.header.headerPageNo, hs₁.header.headerPage,
        hs₁.header.dirty⟩, hs₁.sized, hs₁.answers, hs₁.judge, hs₁.clean, hs₁.left⟩
  refine (hs₁'.calls (o := none) fuel n nofun hfuel).bind ?_
  rintro ⟨l₂, h₂⟩ s₃ ⟨-, hm₂, -, hs₂⟩
  dsimp only at hm₂ hs₂ ⊢
  refine (hs₂.reset hs₁ hm₂ fun ht => (hfuel ht).1).bind ?_
  rintro ⟨st, h₃⟩ s₄ ⟨hst, hpg, hrec, hs₃⟩
  rw [clean_pure]
  dsimp only at hst hpg hrec hs₃ ⊢
  refine ⟨hst, fun rid hrid => hs₃.getRecord fun r hr => ?_, hs₃.pinsOnePage hc hw, fun k => ?_⟩
  · -- the cursor is back at the record
    cases hr
    obtain ⟨b, hb⟩ := hrest rid hrid
    exact ⟨b, by rw [hrec, hb.cur], by rw [hpg, hb.page], hb.record⟩
  · unfold firstScan
    rw [clean_bind_of_yields hnew]
    dsimp only
    refine (hs.calls (o := none) fuel (m + k) nofun hfuel).bind ?_
    rintro ⟨l', h'⟩ s₅ ⟨hl', -⟩
    rw [clean_pure]
    refine (hs₃.calls (o := none) fuel k nofun hfuel).mono ?_
    rintro ⟨l₃, h₄⟩ s₆ ⟨hl₃, -⟩
    dsimp only at hl' hl₃ ⊢
    rw [hl', hl, hl₃, outcomes_add]

/-- A mark at the only record of a file. -/
theorem markReset_spec_oneRecord : ∃ s fuel r s',
    Yields (markReset [82] 0 3 .STRING (some [1, 2, 3]) .EQ fuel 1 1) s r false s' ∧ r.2.1 = .OK ∧
    PinsOnePage s s' r.2.2.toHeapFile := by
  obtain ⟨s, v, fv, H, hc, hf, hh, hH, hsized, -, hfree, -⟩ := exists_oneRecord
  have hheap : IsHeap v [82] fv H := ⟨nofun, hf, hH, hsized, fun f c he => by
    rw [hh] at he
    cases he⟩
  have hscan : CanScan s H 0 3 .STRING (some [1, 2, 3]) .EQ
    (H.rids.length + H.pages.length + 1) := by
    refine ⟨by rw [hfree]; decide, le_rfl, fun b hb _ _ => ?_⟩
    cases hb
    exact ⟨by decide, by decide, nofun, by decide, Or.inl (by decide)⟩
  obtain ⟨r, s', hy, hst, -, hpins, -⟩ := (markReset_spec hc hheap 0 3 .STRING (some [1, 2, 3]) .EQ
    (H.rids.length + H.pages.length + 1) 1 1).exists hscan
  exact ⟨s, _, r, s', hy, hst, hpins⟩

end Minirel
