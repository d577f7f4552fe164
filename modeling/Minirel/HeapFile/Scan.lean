import Minirel.HeapFile.Objects
import Minirel.HeapFile.Cursor

/-!
# Scanning records

`HeapFileScan::scanNext` moves the cursor along the records that remain until one satisfies the
predicate of the scan. What remains is a list read off the pages, so that a call is described by
the way it splits this list.

## Main definitions

* `Answers`: what is known of `matchRec`.
* `Judged`: what this says of a record of the file.
* `Holds`: the scan has its data page pinned.
* `Visited`: how a call splits the list of the RIDs that remained.
* `Scanned`: how a call of `scanNext` ends.

## Main results

* `scanNext_spec`, `scanNext_lost`: one call of `scanNext`, whatever it returns.
* `getRecord_spec`, `deleteRecord_spec`: what may be done with the record it has come to.
-/

namespace Minirel

open Comp

namespace HeapFileScan

open HeapFile

/-- `startScan` leaves the pages of the object alone. -/
theorem startScan_toHeapFile (h : HeapFileScan) (offset length : Int) (type : Datatype)
    (filter : Option CharPtr) (op : Operator) :
    (startScan h offset length type filter op).2.toHeapFile = h.toHeapFile := by
  unfold startScan
  split
  · rfl
  · split <;> rfl

/-- A scan without a data page, that has been opened nevertheless, gets nowhere. -/
theorem not_scanNext_of_wild {fuel : Nat} {h : HeapFileScan} {r : Status × RID × HeapFileScan}
    {s s' : Sys} {e : Bool} (hwild : h.curPage = .wild) (hpos : 0 ≤ h.curPageNo) :
    ¬Yields (h.scanNext fuel) s r e s' := by
  intro hy
  unfold scanNext at hy
  rw [if_neg (not_lt.mpr hpos), if_neg (by rw [hwild]; exact PagePtr.noConfusion)] at hy
  cases fuel with
  | zero => cases hy
  | succ fuel =>
    unfold scanLoop advance at hy
    rw [hwild] at hy
    cases hy

/-- The scan at another position. -/
def moved (h : HeapFileScan) (pg : PagePtr) (no : Int) (d : Bool) (r : RID) : HeapFileScan :=
  { h with curPage := pg, curPageNo := no, curDirtyFlag := d, curRec := r }

/-- The scans differ in their position only, and a page that the scan has moved to is not dirty. -/
def Moves (h h' : HeapFileScan) : Prop :=
  ∃ pg no d r, h' = h.moved pg no d r ∧ (d = true → h.curDirtyFlag = true ∧ no = h.curPageNo)

theorem Moves.refl (h : HeapFileScan) : Moves h h := ⟨_, _, _, _, rfl, fun hd => ⟨hd, rfl⟩⟩

theorem Moves.trans {h h' h'' : HeapFileScan} (hm : Moves h h') (hm' : Moves h' h'') :
    Moves h h'' := by
  obtain ⟨_, _, _, _, rfl, hd⟩ := hm
  obtain ⟨pg, no, d, r, rfl, hd'⟩ := hm'
  refine ⟨pg, no, d, r, rfl, fun ht => ?_⟩
  obtain ⟨h₁, h₂⟩ := hd' ht
  obtain ⟨h₃, h₄⟩ := hd h₁
  exact ⟨h₃, h₂.trans h₄⟩

/-- The cursor moves within the page. -/
theorem Moves.setRec (h : HeapFileScan) (r : RID) : Moves h { h with curRec := r } :=
  ⟨_, _, _, _, rfl, fun hd => ⟨hd, rfl⟩⟩

/-- The scan moves to a page that it has just read, or is going to read. -/
theorem Moves.clean (h : HeapFileScan) (pg : PagePtr) (no : Int) (r : RID) :
    Moves h { h with curPage := pg, curPageNo := no, curDirtyFlag := false, curRec := r } :=
  ⟨_, _, _, _, rfl, nofun⟩

/-- What the scan may lose on disk does not grow as it moves. -/
theorem Moves.forgets {h h' : HeapFileScan} {fv fv' : FileView} (hm : Moves h h')
    (hfor : FileView.Forgets (fun p => h'.curDirtyFlag = true ∧ p = h'.curPageNo) fv fv') :
    FileView.Forgets (fun p => h.curDirtyFlag = true ∧ p = h.curPageNo) fv fv' := by
  obtain ⟨_, _, _, _, rfl, hd⟩ := hm
  refine hfor.mono fun p hp => ?_
  obtain ⟨h₁, h₂⟩ := hd hp.1
  exact ⟨h₁, hp.2.trans h₂⟩

theorem Moves.filePtr {h h' : HeapFileScan} (hm : Moves h h') : h'.filePtr = h.filePtr := by
  obtain ⟨_, _, _, _, rfl, -⟩ := hm
  rfl

theorem Moves.hasHeader {h h' : HeapFileScan} {H : Heap} {x : Pin} (hm : Moves h h')
    (hx : HasHeader h.toHeapFile H x) : HasHeader h'.toHeapFile H x := by
  obtain ⟨_, _, _, _, rfl, -⟩ := hm
  exact ⟨hx.file, hx.pageNo, hx.headerPageNo, hx.headerPage, hx.dirty⟩

/-- What is known of the answers of `matchRec`, as long as the pins `R` are held and only the file
`nm` changes: it answers `a` for a record of a page with the bytes `b` only if `M` says so. It
terminates if `T` holds. -/
def Answers (T : Prop) (R : Multiset Pin) (v : View) (nm : FileName) (h : HeapFileScan)
    (M : Page → PageRecord → Bytes → Bool → Prop) : Prop :=
  ∀ (s : Sys) (P : Multiset Pin) (fv : FileView) (page : Page) (rec : PageRecord) (b : Bytes),
    Coh s P (v.setFile nm (some fv)) → R ≤ P → b ≠ [] →
    rec.length = b.length → 0 ≤ rec.data → rec.data + rec.length ≤ 1004 →
    page.bytes? rec.data rec.length = some b →
    Runs T (h.matchRec page rec) s fun a e s' => e = false ∧ s' = s ∧ M page rec b a

theorem Answers.moves {T : Prop} {R : Multiset Pin} {v : View} {nm : FileName}
    {h h' : HeapFileScan} {M : Page → PageRecord → Bytes → Bool → Prop}
    (hM : Answers T R v nm h M) (hm : Moves h h') : Answers T R v nm h' M := by
  obtain ⟨_, _, _, _, rfl, -⟩ := hm
  exact hM

/-- The answer `a` is what is expected for the record `q` of the file. -/
def Judged (H : Heap) (M : Page → PageRecord → Bytes → Bool → Prop) (q : RID) (a : Bool) : Prop :=
  ∃ b rec, H.rec? q = some b ∧ b ≠ [] ∧
    (H.page q.pageNo).getRecord q = some (.OK, rec) ∧
    M (H.page q.pageNo) rec b a

/-- The scan holds a pin on its data page. If it has written to the page it is going to say so. -/
def Holds (s : Sys) (R : Multiset Pin) (v : View) (h : HeapFileScan) (H : Heap) (x : Pin) : Prop :=
  ∃ y, Coh s (y ::ₘ x ::ₘ R) v ∧ HasPage h.toHeapFile H y ∧ (y.wrote = true → h.curDirtyFlag = true)

/-- A call that had the list `L` before it passed over the records `pre`, none of which satisfied
the predicate. It stopped at one that does, at the end of the file, or at an empty record, and left
the scan before slot `k`. -/
def Visited (H : Heap) (M : Page → PageRecord → Bytes → Bool → Prop) (L : List RID) (st : Status)
    (rid : RID) (h : HeapFileScan) (k : Nat) : Prop :=
  h.curRec.slotNo = k - 1 ∧ ∃ pre, (∀ q ∈ pre, Judged H M q false) ∧
    ((st = .OK ∧ h.curRec = rid ∧ rid.pageNo = h.curPageNo ∧ Judged H M rid true ∧
        L = pre ++ rid :: H.ridsAfter h.curPageNo k) ∨
      (st = .FILEEOF ∧ rid = NULLRID ∧ L = pre ∧ H.ridsAfter h.curPageNo k = []) ∨
      (st = .INVALIDSLOTNO ∧ rid = NULLRID ∧ h.curRec.pageNo = h.curPageNo ∧
        H.rec? h.curRec = some [] ∧ L = pre ++ h.curRec :: H.ridsAfter h.curPageNo k))

/-- A record that was passed over. -/
theorem Visited.cons {H : Heap} {M : Page → PageRecord → Bytes → Bool → Prop} {L : List RID}
    {st : Status} {q rid : RID} {h : HeapFileScan} {k : Nat} (hv : Visited H M L st rid h k)
    (hq : Judged H M q false) : Visited H M (q :: L) st rid h k := by
  obtain ⟨hk, pre, hpre, hcase⟩ := hv
  refine ⟨hk, q :: pre, fun r hr => ?_, ?_⟩
  · rcases List.mem_cons.mp hr with rfl | hr
    · exact hq
    · exact hpre r hr
  · rcases hcase with ⟨h₁, h₂, h₃, h₄, rfl⟩ | ⟨h₁, h₂, rfl, h₃⟩ | ⟨h₁, h₂, h₃, h₄, rfl⟩
    · exact Or.inl ⟨h₁, h₂, h₃, h₄, rfl⟩
    · exact Or.inr (Or.inl ⟨h₁, h₂, rfl, h₃⟩)
    · exact Or.inr (Or.inr ⟨h₁, h₂, h₃, h₄, rfl⟩)

variable {T : Prop} {s : Sys} {R : Multiset Pin} {v : View} {nm : FileName} {c : Int}
  {fv : FileView} {H : Heap} {h : HeapFileScan} {x : Pin} {k : Nat}
  {M : Page → PageRecord → Bytes → Bool → Prop}

/-- Reading the data page. -/
theorem Holds.deref (hd : Holds s R (v.setFile nm (some fv)) h H x)
    (hh : v.handle nm = some (h.filePtr, c)) (hH : HeapAt fv H) :
    ∃ blk, Yields (derefPage h.curPage) s blk false s ∧ blk.asPage = H.page h.curPageNo := by
  obtain ⟨y, hc, hy, -⟩ := hd
  exact hy.deref hc (Multiset.mem_cons_self _ _) hh View.file_setFile_self hH

theorem Holds.mem (hd : Holds s R v h H x) : h.curPageNo ∈ H.pages := by
  obtain ⟨y, -, hy, -⟩ := hd
  exact hy.mem

/-- Moving the cursor within the page. -/
theorem Holds.setRec (hd : Holds s R v h H x) (r : RID) :
    Holds s R v { h with curRec := r } H x := by
  obtain ⟨y, hc, hy, hw⟩ := hd
  exact ⟨y, hc, ⟨hy.file, hy.pageNo, hy.curPage, hy.mem⟩, hw⟩

/-! ## Moving on to another page -/

/-- `seekPage` goes to the first record behind the page of the scan, or to the end of the file. Of
what is on disk only the page that the scan leaves may be lost. -/
theorem seekPage_spec (fuel : Nat) (hd : Holds s R (v.setFile nm (some fv)) h H x)
    (hh : v.handle nm = some (h.filePtr, c)) (hH : HeapAt fv H)
    (hfuel : T → (H.after h.curPageNo).length < fuel) :
    Runs T (seekPage fuel h) s fun r e s' => ∃ fv',
      FileView.Forgets (fun p => h.curDirtyFlag = true ∧ p = h.curPageNo) fv fv' ∧
      Moves h r.2 ∧
      ((e = true ∧ r.1 = .BUFFEREXCEEDED ∧ freeFrames v.numBufs (x ::ₘ R) = 0 ∧
      r.2.curPage = .null ∧
          Coh s' (x ::ₘ R) (v.setFile nm (some fv'))) ∨
        (e = false ∧ Holds s' R (v.setFile nm (some fv')) r.2 H x ∧
          ((r.1 = .OK ∧ ∃ j : Nat, r.2.curRec = ⟨r.2.curPageNo, j⟩ ∧
              H.rest h.curPageNo = ⟨r.2.curPageNo, j⟩ :: H.ridsAfter r.2.curPageNo (j + 1) ∧
              (H.after r.2.curPageNo).length < (H.after h.curPageNo).length) ∨
            (r.1 = .FILEEOF ∧ r.2.curRec = h.curRec ∧ H.rest h.curPageNo = [] ∧
              H.after r.2.curPageNo = [] ∧
              (r.2.curPageNo = h.curPageNo ∨ H.ridsFrom 0 r.2.curPageNo = []))))) := by
  induction fuel generalizing s fv h with
  | zero => exact Runs.failure fun ht => absurd (hfuel ht) (Nat.not_lt_zero _)
  | succ fuel ih =>
    obtain ⟨blk, hy, hblk⟩ := hd.deref hh hH
    have hmem := hd.mem
    unfold seekPage
    rw [runs_bind_of_yields hy, hblk]
    dsimp only
    have hlink := hH.linked_after hmem
    by_cases hend : (H.page h.curPageNo).nextPage = -1
    · -- this is the last page
      have hafter : H.after h.curPageNo = [] := hlink.eq_nil_iff.mpr hend
      rw [if_pos hend, runs_pure]
      refine ⟨fv, FileView.Forgets.refl fv, Moves.refl h, Or.inr ⟨rfl, hd, Or.inr ⟨rfl, rfl, ?_,
        hafter, Or.inl rfl⟩⟩⟩
      unfold Heap.rest
      rw [hafter, List.flatMap_nil]
    · obtain ⟨l, hafter, -⟩ := hlink.exists_cons hend
      set q := (H.page h.curPageNo).nextPage with hq
      have hqmem : q ∈ H.pages := HeapAt.mem_of_after hmem (hafter ▸ List.mem_cons_self)
      have hqafter : H.after q = l := hH.after_next hmem hafter
      have hlen : (H.after q).length < (H.after h.curPageNo).length := by
        rw [hqafter, hafter, List.length_cons]
        exact Nat.lt_succ_self _
      have hrest : H.rest h.curPageNo = H.ridsAfter q 0 := hH.rest_next hmem hafter
      obtain ⟨y, hc, hyp, hw⟩ := hd
      obtain ⟨s₁, fv₁, hy₁, hc₁, hfor⟩ := hyp.unpin hc hh View.file_setFile_self h.curDirtyFlag hw
      rw [View.setFile_setFile] at hc₁
      have hH₁ := hfor.heapAt hH
      rw [if_neg hend, runs_bind_of_yields hy₁, if_neg (by decide)]
      refine (hc₁.readPage hh View.file_setFile_self (hH₁.alloc q hqmem) _).bind ?_
      rintro ⟨st, curPage⟩ e s₂ (⟨rfl, hr, hno, hc₂⟩ | ⟨rfl, n, hr, -, hc₂⟩)
      · -- no frame for the next page
        cases hr
        rw [if_pos (by decide), runs_pure]
        exact ⟨fv₁, hfor, Moves.clean h _ _ _,
          Or.inl ⟨rfl, rfl, hc₁.freeFrames_eq_zero hno.2, rfl, hc₂⟩⟩
      · cases hr
        rw [if_neg fun hn => hn rfl]
        set h₂ : HeapFileScan :=
          { h with curPage := .frame n, curPageNo := q, curDirtyFlag := false } with hh₂
        have hd₂ : Holds s₂ R (v.setFile nm (some fv₁)) h₂ H x :=
          ⟨_, hc₂, ⟨rfl, rfl, rfl, hqmem⟩, nofun⟩
        obtain ⟨blk₂, hy₂, hblk₂⟩ := hd₂.deref (c := c) hh hH₁
        have hy₂' : Yields (derefPage (.frame n)) s₂ blk₂ false s₂ := hy₂
        rw [runs_bind_of_yields hy₂', hblk₂]
        rcases Page.firstRecord_spec (hH.wf q hqmem) with ⟨hnone, hfst⟩ | ⟨j, hj, hlow, hfst⟩
        · -- the page has no records
          have hnil : H.ridsFrom 0 q = [] := Heap.ridsFrom_eq_nil fun j _ => hnone j
          rw [show (H.page h₂.curPageNo).firstRecord = some (.NORECORDS, NULLRID) from hfst,
            runs_ofOption_some_bind]
          dsimp only
          rw [if_neg (by decide)]
          refine Runs.mono (ih (h := h₂) hd₂ hh hH₁ fun ht => ?_) ?_
          · have := hfuel ht
            show (H.after q).length < fuel
            omega
          rintro ⟨st', h'⟩ e' s' ⟨fv', hfor', hm', hcase⟩
          have hrest₂ : H.rest h₂.curPageNo = H.rest h.curPageNo := by
            rw [hrest]
            show H.rest q = H.ridsFrom 0 q ++ H.rest q
            rw [hnil, List.nil_append]
          refine ⟨fv', hfor.trans (hfor'.mono fun p hp => nomatch hp.1),
            (Moves.clean h _ _ _).trans hm', ?_⟩
          rcases hcase with ⟨rfl, hfull⟩ | ⟨rfl, hd', hcase⟩
          · exact Or.inl ⟨rfl, hfull⟩
          · refine Or.inr ⟨rfl, hd', ?_⟩
            rcases hcase with ⟨hok, j, hj, hl, hlt⟩ | ⟨heof, hcr, hl, hend', hor⟩
            · exact Or.inl ⟨hok, j, hj, hrest₂ ▸ hl, lt_trans hlt hlen⟩
            · refine Or.inr ⟨heof, hcr, hrest₂ ▸ hl, hend', Or.inr ?_⟩
              rcases hor with hsame | hnil'
              · dsimp only at hsame
                rw [hsame]
                exact hnil
              · exact hnil'
        · rw [hH.curPage q hqmem] at hfst
          rw [show (H.page h₂.curPageNo).firstRecord = some (.OK, ⟨q, j⟩) from hfst,
            runs_ofOption_some_bind]
          dsimp only
          rw [if_pos rfl, runs_pure]
          refine ⟨fv₁, hfor, Moves.clean h _ _ _, Or.inr ⟨rfl, hd₂.setRec _,
            Or.inl ⟨rfl, j, rfl, ?_,
            hlen⟩⟩⟩
          rw [hrest]
          show H.ridsFrom 0 q ++ H.rest q = _ :: (H.ridsFrom (j + 1) q ++ H.rest q)
          rw [Heap.ridsFrom_eq_cons (hH.wf q hqmem) (Nat.zero_le j) hj fun i _ hi => hlow i hi,
            List.cons_append]

/-! ## Moving on to another record -/

/-- `advance` goes to the first of the records that remain. -/
theorem advance_spec (fuel : Nat) (hd : Holds s R (v.setFile nm (some fv)) h H x)
    (hh : v.handle nm = some (h.filePtr, c)) (hH : HeapAt fv H) (hk : h.curRec.slotNo = k - 1)
    (hfuel : T → (H.after h.curPageNo).length < fuel) :
    Runs T (advance fuel h) s fun r e s' => ∃ fv',
      FileView.Forgets (fun p => h.curDirtyFlag = true ∧ p = h.curPageNo) fv fv' ∧
      Moves h r.2 ∧
      ((e = true ∧ r.1 = .BUFFEREXCEEDED ∧ freeFrames v.numBufs (x ::ₘ R) = 0 ∧
      r.2.curPage = .null ∧
          Coh s' (x ::ₘ R) (v.setFile nm (some fv'))) ∨
        (e = false ∧ Holds s' R (v.setFile nm (some fv')) r.2 H x ∧
          ((r.1 = .OK ∧ ∃ j : Nat, r.2.curRec = ⟨r.2.curPageNo, j⟩ ∧
              H.ridsAfter h.curPageNo k = ⟨r.2.curPageNo, j⟩ :: H.ridsAfter r.2.curPageNo (j + 1) ∧
              (H.after r.2.curPageNo).length ≤ (H.after h.curPageNo).length) ∨
            (r.1 = .FILEEOF ∧ r.2.curRec = h.curRec ∧ H.ridsAfter h.curPageNo k = [] ∧
              H.ridsAfter r.2.curPageNo k = [])))) := by
  obtain ⟨blk, hy, hblk⟩ := hd.deref hh hH
  have hmem := hd.mem
  unfold advance
  rw [runs_bind_of_yields hy, hblk]
  rcases Page.nextRecord_spec (hH.wf _ hmem) k hk with ⟨hnone, hnext⟩ | ⟨j, hkj, hj, hlow, hnext⟩
  · -- no record is left on the page
    have hnil : H.ridsFrom k h.curPageNo = [] := Heap.ridsFrom_eq_nil hnone
    have hrest : H.ridsAfter h.curPageNo k = H.rest h.curPageNo := by
      unfold Heap.ridsAfter
      rw [hnil, List.nil_append]
    rw [hnext, runs_ofOption_some_bind]
    dsimp only
    rw [if_neg (by decide), hrest]
    refine Runs.mono (seekPage_spec fuel hd hh hH hfuel) ?_
    rintro ⟨st, h'⟩ e s' ⟨fv', hfor, hm, hcase⟩
    refine ⟨fv', hfor, hm, hcase.imp_right fun ⟨he, hd', hcase⟩ => ⟨he, hd', ?_⟩⟩
    refine hcase.imp (fun ⟨hok, j, hj, hl, hlt⟩ => ⟨hok, j, hj, hl, hlt.le⟩) ?_
    rintro ⟨heof, hcr, hl, hend, hor⟩
    refine ⟨heof, hcr, hl, ?_⟩
    unfold Heap.ridsAfter Heap.rest
    rw [hend, List.flatMap_nil, List.append_nil]
    rcases hor with hsame | hnil'
    · rw [hsame, hnil]
    · exact Heap.ridsFrom_eq_nil_of_le (Nat.zero_le k) hnil'
  · rw [hH.curPage _ hmem] at hnext
    rw [hnext, runs_ofOption_some_bind]
    dsimp only
    rw [if_pos rfl, runs_pure]
    refine ⟨fv, FileView.Forgets.refl fv, Moves.setRec h _,
      Or.inr ⟨rfl, hd.setRec _, Or.inl ⟨rfl, j, rfl, ?_, le_rfl⟩⟩⟩
    unfold Heap.ridsAfter
    rw [Heap.ridsFrom_eq_cons (hH.wf _ hmem) hkj hj hlow, List.cons_append]

/-- How a call of `scanNext` ends that had the list `L` before it. If it runs out of frames the
scan has lost its data page. -/
def Scanned (R : Multiset Pin) (v : View) (nm : FileName) (fv : FileView) (h : HeapFileScan)
    (H : Heap) (x : Pin) (M : Page → PageRecord → Bytes → Bool → Prop) (L : List RID)
    (r : Status × RID × HeapFileScan) (e : Bool) (s' : Sys) : Prop :=
  ∃ fv', FileView.Forgets (fun p => h.curDirtyFlag = true ∧ p = h.curPageNo) fv fv' ∧
    Moves h r.2.2 ∧
    ((e = true ∧ r.1 = .BUFFEREXCEEDED ∧ freeFrames v.numBufs (x ::ₘ R) = 0 ∧
        r.2.2.curPage = .null ∧ Coh s' (x ::ₘ R) (v.setFile nm (some fv'))) ∨
      (e = false ∧ Holds s' R (v.setFile nm (some fv')) r.2.2 H x ∧
        ∃ k, Visited H M L r.1 r.2.1 r.2.2 k))

/-- What `scanNext` does with the record it has come to. -/
theorem match_spec (fuel : Nat) {j : Nat} (hd : Holds s R (v.setFile nm (some fv)) h H x)
    (hh : v.handle nm = some (h.filePtr, c)) (hH : HeapAt fv H)
    (hM : Answers T R v nm h M) (hrec : h.curRec = ⟨h.curPageNo, j⟩) (hj : H.rec? h.curRec ≠ none)
    (hloop : Judged H M h.curRec false →
      Runs T (scanLoop fuel h) s
        (Scanned R v nm fv h H x M (H.ridsAfter h.curPageNo (j + 1)))) :
    ∃ blk, Yields (derefPage h.curPage) s blk false s ∧
      Runs T (do
        let (status, rec) ← ofOption (blk.asPage.getRecord h.curRec)
        if status ≠ .OK then return (status, NULLRID, h) else
        let found ← h.matchRec blk.asPage rec
        if found then return (.OK, h.curRec, h) else scanLoop fuel h) s
        (Scanned R v nm fv h H x M (h.curRec :: H.ridsAfter h.curPageNo (j + 1))) := by
  obtain ⟨blk, hy, hblk⟩ := hd.deref hh hH
  have hmem := hd.mem
  refine ⟨blk, hy, ?_⟩
  rw [hblk]
  obtain ⟨b, hb⟩ := Option.ne_none_iff_exists'.mp hj
  have hslot : h.curRec.slotNo = ((j + 1 : Nat) : Int) - 1 := by
    rw [hrec]
    push_cast
    omega
  have hpg : (H.page h.curPageNo).rec? j = some b := by
    rw [← HeapAt.rec?_of_mem hmem, ← hrec]
    exact hb
  by_cases hne : b = []
  · -- an empty record is refused by `getRecord`
    subst hne
    rw [hrec, Page.getRecord_invalid (hH.wf _ hmem) (Or.inr hpg), runs_ofOption_some_bind]
    dsimp only
    rw [if_pos (by decide), runs_pure, ← hrec]
    exact ⟨fv, FileView.Forgets.refl fv, Moves.refl h, Or.inr ⟨rfl, hd, j + 1, hslot, [], nofun,
      Or.inr (Or.inr ⟨rfl, rfl, by rw [hrec], hb, rfl⟩)⟩⟩
  · obtain ⟨r, hget, hlen, h₁, h₂, hbytes⟩ := Page.getRecord_spec (hH.wf _ hmem) hpg hne h.curPageNo
    rw [hrec, hget, runs_ofOption_some_bind, ← hrec]
    dsimp only
    rw [if_neg (by decide)]
    obtain ⟨y, hc, hyp, hw⟩ := hd
    have hd : Holds s R (v.setFile nm (some fv)) h H x := ⟨y, hc, hyp, hw⟩
    have hR : R ≤ y ::ₘ x ::ₘ R := (Multiset.le_cons_self R x).trans (Multiset.le_cons_self _ y)
    refine (hM s _ fv _ r b hc hR hne hlen h₁ h₂ hbytes).bind ?_
    rintro a e s' ⟨rfl, rfl, hMa⟩
    have hjudged : Judged H M h.curRec a := by
      refine ⟨b, r, hb, hne, ?_, ?_⟩
      · rw [hrec]
        exact hget
      · rw [hrec]
        exact hMa
    cases a with
    | true =>
      rw [if_pos rfl, runs_pure]
      exact ⟨fv, FileView.Forgets.refl fv, Moves.refl h, Or.inr ⟨rfl, hd, j + 1, hslot, [], nofun,
        Or.inl ⟨rfl, rfl, by rw [hrec], hjudged, rfl⟩⟩⟩
    | false =>
      rw [if_neg (by decide)]
      refine Runs.mono (hloop hjudged) ?_
      rintro r' e' s' ⟨fv', hfor, hm, hcase⟩
      refine ⟨fv', hfor, hm, ?_⟩
      rw [Bool.false_or]
      exact hcase.imp_right fun ⟨he, hd', k', hv⟩ => ⟨he, hd', k', hv.cons hjudged⟩

/-- `scanLoop` visits the records that remain, up to one that satisfies the predicate. -/
theorem scanLoop_spec (fuel : Nat) (hd : Holds s R (v.setFile nm (some fv)) h H x)
    (hh : v.handle nm = some (h.filePtr, c)) (hH : HeapAt fv H) (hM : Answers T R v nm h M)
    (hk : h.curRec.slotNo = k - 1)
    (hfuel : T → (H.ridsAfter h.curPageNo k).length + (H.after h.curPageNo).length + 2 ≤ fuel) :
    Runs T (scanLoop fuel h) s
      (Scanned R v nm fv h H x M (H.ridsAfter h.curPageNo k)) := by
  induction fuel generalizing s fv h k with
  | zero => exact Runs.failure fun ht => absurd (hfuel ht) (by omega)
  | succ fuel ih =>
    unfold scanLoop
    refine (advance_spec fuel hd hh hH hk fun ht => ?_).bind ?_
    · have := hfuel ht
      omega
    rintro ⟨st, h'⟩ e s₁ ⟨fv₁, hfor, hm, hcase⟩
    rcases hcase with ⟨rfl, hst, hfull⟩ | ⟨rfl, hd₁, hcase⟩
    · -- out of frames
      dsimp only at hst ⊢
      subst hst
      rw [if_pos (by decide), runs_pure]
      exact ⟨fv₁, hfor, hm, Or.inl ⟨rfl, rfl, hfull⟩⟩
    · rcases hcase with ⟨hst, j, hj, hl, hlen⟩ | ⟨hst, hcr, hl, hend⟩
      · dsimp only at hst hj hl hlen ⊢
        subst hst
        rw [if_neg fun hn => hn rfl]
        have hh₁ : v.handle nm = some (h'.filePtr, c) := by
          rw [hm.filePtr]
          exact hh
        have hH₁ := hfor.heapAt hH
        have hlive : H.rec? h'.curRec ≠ none := by
          refine hH.rec?_of_mem_ridsAfter hd.mem (k := k) ?_
          rw [hl, hj]
          exact List.mem_cons_self
        have hslot : h'.curRec.slotNo = ((j + 1 : Nat) : Int) - 1 := by
          rw [hj]
          push_cast
          omega
        obtain ⟨blk, hy, hrun⟩ := match_spec fuel hd₁ hh₁ hH₁ (hM.moves hm) hj hlive
          fun _ => ih hd₁ hh₁ hH₁ (hM.moves hm) hslot fun ht => by
            have := hfuel ht
            rw [hl, List.length_cons] at this
            dsimp only at this ⊢
            omega
        rw [runs_bind_of_yields hy]
        refine Runs.mono hrun ?_
        rintro r e' s' ⟨fv', hfor', hm', hcase⟩
        rw [Bool.false_or, hl, ← hj]
        exact ⟨fv', hfor.trans (hm.forgets hfor'), hm.trans hm', hcase⟩
      · dsimp only at hst hcr hl hend ⊢
        subst hst
        rw [if_pos (by decide), runs_pure, hl]
        refine ⟨fv₁, hfor, hm, Or.inr ⟨rfl, hd₁, k, ?_, [], nofun,
          Or.inr (Or.inl ⟨rfl, rfl, rfl, hend⟩)⟩⟩
        rw [hcr]
        exact hk

/-- A scan without a data page starts over at the first page, which it gives back if it has no
records; the pages behind it are not looked at then. -/
theorem scanFirst_spec (fuel : Nat) (hc : Coh s (x ::ₘ R) (v.setFile nm (some fv)))
    (hh : v.handle nm = some (h.filePtr, c)) (hH : HeapAt fv H)
    (hx : HasHeader h.toHeapFile H x) (hnull : h.curPage = .null) (hM : Answers T R v nm h M)
    (hfuel : T → H.rids.length + H.pages.length + 2 ≤ fuel) :
    Runs T (scanFirst fuel h) s fun r e s' => Moves h r.2.2 ∧
      (((e = true ∧ r.1 = .BUFFEREXCEEDED ∧ freeFrames v.numBufs (x ::ₘ R) = 0 ∨
            e = false ∧ r.1 = .FILEEOF ∧ r.2.1 = NULLRID ∧ r.2.2.curPageNo = -1 ∧
              H.ridsFrom 0 H.hdr.firstPage = []) ∧
          r.2.2.curPage = .null ∧ Coh s' (x ::ₘ R) (v.setFile nm (some fv))) ∨
        (e = false ∧ H.ridsFrom 0 H.hdr.firstPage ≠ [] ∧
          Holds s' R (v.setFile nm (some fv)) r.2.2 H x ∧
          ∃ k, Visited H M H.rids r.1 r.2.1 r.2.2 k)) := by
  obtain ⟨blk, hy, hblk⟩ := hx.deref hc (Multiset.mem_cons_self _ _) hh View.file_setFile_self hH
  obtain ⟨uf, -, hst, -⟩ := hc.stored nm fv View.file_setFile_self
  set q := H.hdr.firstPage with hq
  have hqmem : q ∈ H.pages := hH.first_mem
  have hpos : 1 ≤ q := (hst.range (hH.alloc q hqmem)).1
  unfold scanFirst
  rw [runs_bind_of_yields hy, hblk]
  dsimp only
  rw [if_neg (by omega)]
  refine (hc.readPage hh View.file_setFile_self (hH.alloc q hqmem) _).bind ?_
  rintro ⟨st, curPage⟩ e s₁ (⟨rfl, hr, hno, hc₁⟩ | ⟨rfl, n, hr, -, hc₁⟩)
  · cases hr
    rw [if_pos (show Status.BUFFEREXCEEDED ≠ .OK by decide), runs_pure]
    exact ⟨Moves.clean h _ _ _,
      Or.inl ⟨Or.inl ⟨rfl, rfl, hc.freeFrames_eq_zero hno.2⟩, hnull, hc₁⟩⟩
  · cases hr
    rw [if_neg fun hn => hn rfl]
    set h₁ : HeapFileScan := { h with
      curPage := .frame n, curPageNo := q, curDirtyFlag := false, curRec := NULLRID } with hh₁
    have hd₁ : Holds s₁ R (v.setFile nm (some fv)) h₁ H x :=
      ⟨_, hc₁, ⟨rfl, rfl, rfl, hqmem⟩, nofun⟩
    obtain ⟨blk₁, hy₁, hblk₁⟩ := hd₁.deref (c := c) hh hH
    have hy₁' : Yields (derefPage (.frame n)) s₁ blk₁ false s₁ := hy₁
    rw [runs_bind_of_yields hy₁']
    rcases Page.firstRecord_spec (hH.wf q hqmem) with ⟨hnone, hfst⟩ | ⟨j, hj, hlow, hfst⟩
    · -- the first page has no records
      have hnil : H.ridsFrom 0 q = [] := Heap.ridsFrom_eq_nil fun j _ => hnone j
      rw [hblk₁, show (H.page h₁.curPageNo).firstRecord = some (.NORECORDS, NULLRID) from hfst,
        runs_ofOption_some_bind]
      dsimp only
      rw [if_pos rfl]
      obtain ⟨y, hc', hyp, hw⟩ := hd₁
      obtain ⟨s₂, fv₂, hy₂, hc₂, hfor⟩ := hyp.unpin (c := c) hc' hh View.file_setFile_self false hw
      have hfv : fv₂ = fv := hfor.eq_of_not fun p hp => nomatch hp.1
      rw [View.setFile_setFile, hfv] at hc₂
      have hy₂' : Yields (BufMgr.unPinPage h.filePtr q false) s₁ .OK false s₂ := hy₂
      rw [runs_bind_of_yields hy₂', if_neg fun hn => hn rfl, runs_pure]
      exact ⟨Moves.clean h _ _ _, Or.inl ⟨Or.inr ⟨rfl, rfl, rfl, rfl, hnil⟩, rfl, hc₂⟩⟩
    · rw [hH.curPage q hqmem] at hfst
      have hlive : H.rec? ⟨q, j⟩ ≠ none := by
        rw [HeapAt.rec?_of_mem hqmem]
        exact hj
      have hcons := Heap.ridsFrom_eq_cons (hH.wf q hqmem) (Nat.zero_le j) hj fun i _ hi => hlow i hi
      have hL : H.rids = ⟨q, j⟩ :: H.ridsAfter q (j + 1) := by
        rw [hH.rids_eq]
        unfold Heap.ridsAfter
        rw [hcons, List.cons_append]
      set h₂ : HeapFileScan := { h₁ with curRec := ⟨q, j⟩ } with hh₂
      have hd₂ : Holds s₁ R (v.setFile nm (some fv)) h₂ H x := hd₁.setRec ⟨q, j⟩
      obtain ⟨blk₂, hy₂, hrun⟩ := match_spec (c := c) (M := M) (T := T) (j := j) fuel hd₂ hh hH
        (hM.moves (Moves.clean h _ _ _)) rfl hlive fun _ =>
          scanLoop_spec fuel hd₂ hh hH (hM.moves (Moves.clean h _ _ _))
            (by
              show (j : Int) = ((j + 1 : Nat) : Int) - 1
              omega)
            fun ht => by
              have := hfuel ht
              rw [hL, List.length_cons] at this
              have hle := Heap.length_after_lt hqmem
              show (H.ridsAfter q (j + 1)).length + (H.after q).length + 2 ≤ fuel
              omega
      obtain ⟨rfl, -, -⟩ := Yields.unique hy₁' hy₂
      rw [show blk₂.asPage.firstRecord = some (.OK, ⟨q, j⟩) from by rw [hblk₁]; exact hfst,
        runs_ofOption_some_bind]
      dsimp only
      rw [if_neg (by decide)]
      refine Runs.mono hrun ?_
      rintro r e s' ⟨fv', hfor, hm, hcase⟩
      have hfv : fv' = fv := hfor.eq_of_not fun p hp => nomatch hp.1
      rw [hfv] at hcase
      refine ⟨(Moves.clean h _ _ _).trans hm, ?_⟩
      rw [hL]
      rcases hcase with ⟨he, hst, hfull, hn, hc₂⟩ | ⟨he, hcase⟩
      · exact Or.inl ⟨Or.inl ⟨he, hst, hfull⟩, hn, hc₂⟩
      · exact Or.inr ⟨he, by rw [hcons]; exact nofun, hcase⟩

/-- `scanNext` on a scan that has its data page. -/
theorem scanNext_spec (fuel : Nat) (hd : Holds s R (v.setFile nm (some fv)) h H x)
    (hh : v.handle nm = some (h.filePtr, c)) (hH : HeapAt fv H) (hM : Answers T R v nm h M)
    (hk : h.curRec.slotNo = k - 1)
    (hfuel : T → (H.ridsAfter h.curPageNo k).length + (H.after h.curPageNo).length + 2 ≤ fuel) :
    Runs T (scanNext fuel h) s
      (Scanned R v nm fv h H x M (H.ridsAfter h.curPageNo k)) := by
  obtain ⟨y, hc, hyp, hw⟩ := hd
  obtain ⟨uf, -, hst, -⟩ := hc.stored nm fv View.file_setFile_self
  have hpos : 1 ≤ h.curPageNo := (hst.range (hH.alloc _ hyp.mem)).1
  unfold scanNext
  rw [if_neg (by omega), if_neg (by rw [hyp.curPage]; exact nofun)]
  exact scanLoop_spec fuel ⟨y, hc, hyp, hw⟩ hh hH hM hk hfuel

/-- `scanNext` on a scan that has lost its data page. -/
theorem scanNext_lost (fuel : Nat) (hc : Coh s (x ::ₘ R) (v.setFile nm (some fv)))
    (hh : v.handle nm = some (h.filePtr, c)) (hH : HeapAt fv H)
    (hx : HasHeader h.toHeapFile H x) (hnull : h.curPage = .null) (hM : Answers T R v nm h M)
    (hfuel : T → H.rids.length + H.pages.length + 2 ≤ fuel) :
    Runs T (scanNext fuel h) s fun r e s' => Moves h r.2.2 ∧
      ((r.2.2.curPage = .null ∧ Coh s' (x ::ₘ R) (v.setFile nm (some fv)) ∧
          (e = true ∧ r.1 = .BUFFEREXCEEDED ∧ freeFrames v.numBufs (x ::ₘ R) = 0 ∨
            e = false ∧ r.1 = .FILEEOF)) ∨
        (e = false ∧ Holds s' R (v.setFile nm (some fv)) r.2.2 H x ∧
          ∃ k, Visited H M H.rids r.1 r.2.1 r.2.2 k)) := by
  unfold scanNext
  by_cases hneg : h.curPageNo < 0
  · rw [if_pos hneg, runs_pure]
    exact ⟨Moves.refl h, Or.inl ⟨hnull, hc, Or.inr ⟨rfl, rfl⟩⟩⟩
  · rw [if_neg hneg, if_pos hnull]
    refine Runs.mono (scanFirst_spec fuel hc hh hH hx hnull hM hfuel) ?_
    rintro r e s' ⟨hm, hcase⟩
    refine ⟨hm, hcase.imp ?_ fun ⟨he, _, hdone⟩ => ⟨he, hdone⟩⟩
    rintro ⟨hst, hn, hc'⟩
    exact ⟨hn, hc', hst.imp_right fun ⟨he, hst, _⟩ => ⟨he, hst⟩⟩

/-! ## The current record -/

/-- `HeapFileScan::getRecord` finds the record under the cursor. -/
theorem getRecord_spec {j : Nat} {b : Bytes} (hd : Holds s R (v.setFile nm (some fv)) h H x)
    (hh : v.handle nm = some (h.filePtr, c)) (hH : HeapAt fv H) (hj : h.curRec.slotNo = j)
    (hb : H.rec? ⟨h.curPageNo, j⟩ = some b) (hne : b ≠ []) :
    ∃ rec, Yields (getRecord h) s (.OK, rec) false s ∧ rec.length = b.length ∧ 0 ≤ rec.data ∧
      rec.data + rec.length ≤ 1004 ∧
      (H.page h.curPageNo).bytes? rec.data rec.length = some b := by
  obtain ⟨blk, hy, hblk⟩ := hd.deref hh hH
  rw [HeapAt.rec?_of_mem hd.mem] at hb
  obtain ⟨rec, hget, hlen, h₁, h₂, hbytes⟩ :=
    Page.getRecord_spec (hH.wf _ hd.mem) hb hne h.curRec.pageNo
  refine ⟨rec, ?_, hlen, h₁, h₂, hbytes⟩
  unfold getRecord
  refine hy.bind (d := false) ?_
  have hcur : h.curRec = ⟨h.curRec.pageNo, j⟩ := by rw [← hj]
  rw [hblk, hcur, hget]
  rfl

/-- `resetScan` goes back to the marked page and slot. Of what is on disk only the page that the
scan leaves may be lost. -/
theorem resetScan_spec (hd : Holds s R (v.setFile nm (some fv)) h H x)
    (hh : v.handle nm = some (h.filePtr, c)) (hH : HeapAt fv H) (hmark : h.markedPageNo ∈ H.pages)
    (hT : T → 0 < freeFrames v.numBufs (x ::ₘ R)) :
    Clean T (resetScan h) s fun q s' => q.1 = .OK ∧ ∃ fv' pg d,
      FileView.Forgets (fun p => h.curDirtyFlag = true ∧ p = h.curPageNo) fv fv' ∧
      q.2 = h.moved pg h.markedPageNo d h.markedRec ∧ (d = true → h.curDirtyFlag = true) ∧
      Holds s' R (v.setFile nm (some fv')) q.2 H x := by
  obtain ⟨y, hc, hy, hw⟩ := hd
  unfold resetScan
  by_cases hpage : h.markedPageNo = h.curPageNo
  · -- the marked page is the one that the scan is on
    rw [if_neg (not_not_intro hpage), clean_pure]
    refine ⟨rfl, fv, h.curPage, h.curDirtyFlag, .refl fv, ?_, id, y, hc, ?_, hw⟩
    · unfold moved
      rw [hpage]
    · exact ⟨hy.file, hy.pageNo, hy.curPage, hy.mem⟩
  · rw [if_pos hpage, if_pos (by rw [hy.curPage]; exact nofun)]
    obtain ⟨s₁, fv₁, hy₁, hc₁, hfor⟩ := hy.unpin hc hh View.file_setFile_self h.curDirtyFlag hw
    rw [View.setFile_setFile] at hc₁
    rw [clean_bind_of_yields hy₁, if_neg fun hn => hn rfl]
    unfold resetPage
    refine (clean_readPage hc₁ hh View.file_setFile_self ((hfor.heapAt hH).alloc _ hmark)
      hT _).bind ?_
    rintro ⟨st, pg⟩ s₂ ⟨n, hr, hc₂⟩
    cases hr
    dsimp only
    rw [if_neg fun hn => hn rfl, clean_pure]
    exact ⟨rfl, fv₁, .frame n, false, hfor, rfl, nofun, _, hc₂, ⟨rfl, rfl, rfl, hmark⟩, nofun⟩

/-- `deleteRecord` with the cursor on a record removes the record, and counts it off. -/
theorem deleteRecord_spec {j : Nat} {b : Bytes} (hd : Holds s R (v.setFile nm (some fv)) h H x)
    (hh : v.handle nm = some (h.filePtr, c)) (hH : HeapAt fv H) (hx : HasHeader h.toHeapFile H x)
    (hj : h.curRec.slotNo = j) (hb : H.rec? ⟨h.curPageNo, j⟩ = some b) (hne : b ≠ []) :
    ∃ s' fv' H', let h' : HeapFileScan := { h with curDirtyFlag := true, hdrDirtyFlag := true }
      let x' : Pin := { x with wrote := true }
      Yields (deleteRecord h) s (.OK, h') false s' ∧
      Holds s' R (v.setFile nm (some fv')) h' H' x' ∧ HeapAt fv' H' ∧
      HasHeader h'.toHeapFile H' x' ∧
      fv'.first = fv.first ∧ fv'.alloc = fv.alloc ∧ fv'.kept = fv.kept ∧
      H'.hdrNo = H.hdrNo ∧ H'.pages = H.pages ∧
      H'.hdr = { H.hdr with recCnt := H.hdr.recCnt - 1 } ∧
      H'.rec? = Function.update H.rec? ⟨h.curPageNo, j⟩ none := by
  obtain ⟨blk, hy, hblk⟩ := hd.deref hh hH
  have hmem := hd.mem
  obtain ⟨y, hc, hyp, -⟩ := hd
  have hpg := hb
  rw [HeapAt.rec?_of_mem hmem] at hpg
  obtain ⟨p', hdel, hwf', hrec', hcur', hnext'⟩ :=
    Page.deleteRecord_spec (hH.wf _ hmem) hpg hne h.curRec.pageNo
  obtain ⟨s₁, hy₁, hc₁⟩ := hyp.assign hc hh View.file_setFile_self p'
  rw [View.setFile_setFile, Multiset.cons_swap] at hc₁
  have hhdr : (fv.assign h.curPageNo (.page p')).hdr? H.hdrNo = some H.hdr := by
    have hne' : H.hdrNo ≠ h.curPageNo := fun he => hH.hdr_not_mem (he ▸ hmem)
    rw [FileView.hdr?_assign_of_ne hne']
    exact hH.hdr
  obtain ⟨s₂, hy₂, hc₂⟩ := hx.modify hc₁ hh View.file_setFile_self hhdr
    fun hdr => { hdr with recCnt := hdr.recCnt - 1 }
  rw [View.setFile_setFile, Multiset.cons_swap] at hc₂
  refine ⟨s₂, _, (H.setPage h.curPageNo p').setRecCnt (H.hdr.recCnt - 1), ?_,
    ⟨{ y with wrote := true }, hc₂, ⟨hyp.file, hyp.pageNo, hyp.curPage, hmem⟩, fun _ => rfl⟩,
    (hH.setPage hmem hwf' hcur' hnext').setRecCnt _, ?_, rfl, rfl, rfl, rfl, rfl, rfl, ?_⟩
  · unfold deleteRecord
    refine hy.bind (d := false) ?_
    have hcur : h.curRec = ⟨h.curRec.pageNo, j⟩ := by rw [← hj]
    rw [hblk, hcur, hdel]
    exact Yields.bind (e := false) (d := false) rfl (hy₁.bind (hy₂.bind (Yields.pure _ _)))
  · exact ⟨hx.file, hx.pageNo, hx.headerPageNo, hx.headerPage, fun _ => rfl⟩
  · rw [Heap.rec?_setRecCnt]
    exact Heap.rec?_setPage hmem hrec'

/-- `deleteRecord` with the cursor on a slot without a record changes no record, and counts one off
all the same. -/
theorem deleteRecord_invalid {j : Nat} (hd : Holds s R (v.setFile nm (some fv)) h H x)
    (hh : v.handle nm = some (h.filePtr, c)) (hH : HeapAt fv H) (hx : HasHeader h.toHeapFile H x)
    (hj : h.curRec.slotNo = j)
    (hb : H.rec? ⟨h.curPageNo, j⟩ = none ∨ H.rec? ⟨h.curPageNo, j⟩ = some []) :
    ∃ s' fv', let h' : HeapFileScan := { h with curDirtyFlag := true, hdrDirtyFlag := true }
      let x' : Pin := { x with wrote := true }
      let H' := (H.setPage h.curPageNo (H.page h.curPageNo)).setRecCnt (H.hdr.recCnt - 1)
      Yields (deleteRecord h) s (.INVALIDSLOTNO, h') false s' ∧
      Holds s' R (v.setFile nm (some fv')) h' H' x' ∧ HeapAt fv' H' ∧
      HasHeader h'.toHeapFile H' x' ∧
      fv'.first = fv.first ∧ fv'.alloc = fv.alloc ∧ fv'.kept = fv.kept := by
  obtain ⟨blk, hy, hblk⟩ := hd.deref hh hH
  have hmem := hd.mem
  obtain ⟨y, hc, hyp, -⟩ := hd
  rw [HeapAt.rec?_of_mem hmem] at hb
  obtain ⟨s₁, hy₁, hc₁⟩ := hyp.assign hc hh View.file_setFile_self (H.page h.curPageNo)
  rw [View.setFile_setFile, Multiset.cons_swap] at hc₁
  have hhdr : (fv.assign h.curPageNo (.page (H.page h.curPageNo))).hdr? H.hdrNo = some H.hdr := by
    have hne : H.hdrNo ≠ h.curPageNo := fun he => hH.hdr_not_mem (he ▸ hmem)
    rw [FileView.hdr?_assign_of_ne hne]
    exact hH.hdr
  obtain ⟨s₂, hy₂, hc₂⟩ := hx.modify hc₁ hh View.file_setFile_self hhdr
    fun hdr => { hdr with recCnt := hdr.recCnt - 1 }
  rw [View.setFile_setFile, Multiset.cons_swap] at hc₂
  refine ⟨s₂, _, ?_, ⟨{ y with wrote := true }, hc₂, ⟨hyp.file, hyp.pageNo, hyp.curPage, hmem⟩,
    fun _ => rfl⟩, (hH.setPage hmem (hH.wf _ hmem) rfl rfl).setRecCnt _, ?_, rfl, rfl, rfl⟩
  · unfold deleteRecord
    refine hy.bind (d := false) ?_
    have hcur : h.curRec = ⟨h.curRec.pageNo, j⟩ := by rw [← hj]
    rw [hblk, hcur, Page.deleteRecord_invalid (hH.wf _ hmem) hb]
    exact Yields.bind (e := false) (d := false) rfl (hy₁.bind (hy₂.bind (Yields.pure _ _)))
  · exact ⟨hx.file, hx.pageNo, hx.headerPageNo, hx.headerPage, fun _ => rfl⟩

/-! ## The answers of `matchRec` -/

/-- `matchRec` reads only. -/
theorem matchRec_reads (h : HeapFileScan) (page : Page) (rec : PageRecord) (s : Sys) :
    Runs False (h.matchRec page rec) s fun _ e s' => e = false ∧ s' = s := by
  unfold matchRec
  split
  · rw [runs_pure]
    exact ⟨rfl, rfl⟩
  · refine Runs.ite (fun _ => runs_pure.mpr ⟨rfl, rfl⟩) fun _ => ?_
    rw [runs_get_bind]
    split
    · refine Runs.ofOption_bind (fun hf => hf.elim) fun a _ => ?_
      refine Runs.ofOption_bind (fun hf => hf.elim) fun b _ => ?_
      exact runs_pure.mpr ⟨rfl, rfl⟩
    · refine Runs.ofOption_bind (fun hf => hf.elim) fun a _ => ?_
      refine Runs.ofOption_bind (fun hf => hf.elim) fun b _ => ?_
      exact runs_pure.mpr ⟨rfl, rfl⟩
    · exact Runs.ofOption_bind (fun hf => hf.elim) fun a _ => runs_pure.mpr ⟨rfl, rfl⟩

/-- Nothing need be known of the answers. -/
theorem answers_any (R : Multiset Pin) (v : View) (nm : FileName) (h : HeapFileScan) :
    Answers False R v nm h fun _ _ _ _ => True :=
  fun s _ _ page rec _ _ _ _ _ _ _ _ =>
    (h.matchRec_reads page rec s).mono fun _ _ _ ⟨he, hs⟩ => ⟨he, hs, trivial⟩

/-- Without a filter every record satisfies the predicate. -/
theorem answers_all (T : Prop) (R : Multiset Pin) (v : View) (nm : FileName)
    (hfilter : h.filter = none) : Answers T R v nm h fun _ _ _ a => a = true := by
  intro s P fv page rec b _ _ _ _ _ _ _
  unfold matchRec
  rw [hfilter, runs_pure]
  exact ⟨rfl, rfl, rfl⟩

end HeapFileScan

end Minirel
