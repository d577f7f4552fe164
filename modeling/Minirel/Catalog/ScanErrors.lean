import Minirel.Catalog.Fuel
import Minirel.Catalog.Removal
import Minirel.HeapFile.Reliable
import Minirel.HeapFile.Faults

/-!
# A lookup whose scan fails

`AttrCatalog::getInfo` scans `attrcat` until a tuple has the name of the attribute. If `scanNext`
fails on the way, the status of the scan is overwritten by that of `endScan`, which is `OK`: the
caller is told that the attribute has been found, and its record holds whatever tuple was looked at
last.

## Main definitions

* `FindsAttr`: a lookup that returns `OK` has found the tuple, and the errors of its scan are
  returned.

## Main results

* `AttrCatalog.findsAttr_iff`: a lookup is right exactly if no `scanNext` fails.
-/

namespace Minirel

open Comp HeapFile

/-! ## A file that is opened -/

section New

variable {s s' : Sys} {P : Multiset Pin} {v : View} {nm : FileName} {fv : FileView} {H : Heap}
  {h : HeapFile} {e : Bool}

/-- The first data page is known once the header page has been read, also if it cannot be read
itself. -/
theorem curPageNo_of_new (hc : Coh s.good P v) (hH : IsHeap v nm fv H)
    (hy : Yields (HeapFile.new nm) s (.OK, h) e s') : h.curPageNo = H.hdr.firstPage := by
  unfold HeapFile.new at hy
  obtain ⟨⟨st, f⟩, e₁, s₁, _, hy₁, k₁, -⟩ := hy.of_bind
  dsimp only at k₁
  by_cases hst : st = .OK
  swap
  · rw [if_pos hst] at k₁
    exact absurd (congrArg Prod.fst (yields_pure.mp k₁).1) hst
  subst hst
  rw [if_neg fun hn => hn rfl] at k₁
  obtain ⟨-, hg₁⟩ := DB.openFile_reliable nm s _ _ _ hy₁ (Or.inl rfl)
  obtain ⟨f', t₁, ho, -, hc₁, -⟩ := hc.openFile hH.name hH.file hH.opened
  obtain ⟨hf, -, ht₁⟩ := ho.unique hg₁
  cases hf
  subst ht₁
  have hh : (v.setHandle nm (some (f, v.openCnt nm + 1))).handle nm = some (f, v.openCnt nm + 1) :=
    View.handle_setHandle_self
  obtain ⟨⟨st, hdrNo⟩, e₂, s₂, _, hy₂, k₂, -⟩ := k₁.of_bind
  dsimp only at k₂
  by_cases hst : st = .OK
  swap
  · rw [if_pos hst] at k₂
    cases k₂
  subst hst
  rw [if_neg fun hn => hn rfl] at k₂
  obtain ⟨-, hg₂⟩ := File.getFirstPage_reliable f s₁ _ _ _ hy₂ (Or.inl rfl)
  obtain ⟨uf, huf, hst, -⟩ := hc₁.stored nm fv hH.file
  obtain ⟨hno, -, hs₂⟩ :=
    (File.yields_getFirstPage hc₁.io (hc₁.opened nm f _ hh).obj huf hst).unique hg₂
  rw [hH.heapAt.first] at hno
  cases hno
  -- the pointer to the header page is followed, so that the page has been read
  obtain ⟨⟨st, page⟩, e₃, s₃, _, hy₃, k₃, -⟩ := k₂.of_bind
  obtain ⟨blk, e₄, s₄, _, hy₄, k₄, -⟩ := k₃.of_bind
  have hpage : page ≠ .wild := by
    rintro rfl
    cases hy₄
  obtain ⟨rfl, hg₃⟩ := BufMgr.readPage_reliable f H.hdrNo .wild s₂ _ _ _ hy₃ (Or.inr hpage)
  rw [hs₂] at hg₃
  obtain ⟨n, hn, hc₃⟩ := (clean_readPage (T := False) hc₁ hh hH.file hH.heapAt.hdr_alloc False.elim
    .wild).of_yields hg₃
  cases hn
  obtain ⟨blk', hcur, hblk⟩ := hH.heapAt.exists_hdr
  have hd := hc₃.derefPage (x := ⟨f, H.hdrNo, n, false⟩)
    (Multiset.mem_cons_self _ _) hh hH.file hcur
  have hg₄ : Reliable Sys.good (fun _ => True) (derefPage (.frame n)) := derefPage_reliable _
  obtain ⟨rfl, -⟩ := hd.unique (hg₄ s₃ _ _ _ hy₄ trivial).2
  obtain ⟨⟨st, page⟩, e₅, s₅, _, -, k₅, -⟩ := k₄.of_bind
  obtain ⟨hr, -⟩ := yields_pure.mp k₅
  rw [← (Prod.mk.inj hr).2, hblk]

end New

namespace AttrCatalog

/-! ## The scan of a lookup -/

section Scan

variable {relation attrName : Bytes} {record : AttrDesc} {s s' : Sys}
  {P R : Multiset Pin} {v : View} {fv : FileView} {H : Heap}

/-- The loop ends at once if the scan has failed. -/
theorem getLoop_of_ne {fuel : Nat} {st : Status} {h : HeapFileScan} {e : Bool}
    {r : Option Status × Status × HeapFileScan × AttrDesc} (hst : st ≠ .OK)
    (hy : Yields (getLoop attrName fuel st h record) s r e s') : r = (none, st, h, record) := by
  cases fuel with
  | zero => cases hy
  | succ fuel =>
    unfold getLoop at hy
    rw [if_pos hst] at hy
    exact (yields_pure.mp hy).1.symm

/-- A loop that ends without an error has met no fault. -/
theorem getLoop_reliable (fuel : Nat) (st : Status) (h : HeapFileScan) (record : AttrDesc) :
    Reliable Sys.good (fun r => r.1 = none ∧ r.2.1.Fine) (getLoop attrName fuel st h record) := by
  induction fuel generalizing st h record with
  | zero => exact .failure
  | succ fuel ih =>
    unfold getLoop
    refine .ite (fun _ => .pure _) fun _ => ?_
    refine .bind_of_true (HeapFileScan.getRecord_reliable h) fun q => .ite
      (fun _ => .pure _) fun _ => ?_
    refine .bind_of_true (.bind_of_true (derefPage_reliable _) fun _ => .ofOption _) fun b => ?_
    refine .bind_of_true (.ofOption _) fun mem => .bind_of_true (.ofOption _) fun name => ?_
    refine .ite (fun _ => .pure _) fun _ => ?_
    refine .bind (HeapFileScan.scanNext_reliable fuel h) (fun _ _ => ih _ _ _) fun q hbad => ?_
    intro s r e s' hy hr
    obtain rfl := getLoop_of_ne (Status.ne_OK_of_not_fine hbad) hy
    exact hbad hr.2

/-- The scan of a lookup with a larger bound. -/
theorem scanFor_mono {m n : Nat} (hle : m ≤ n) (relation attrName : Bytes) (record : AttrDesc) :
    Extends (scanFor m relation attrName record) (scanFor n relation attrName record) := by
  refine .bind_right _ fun r => .ite (.refl _) (.ite (.refl _) ?_)
  exact .bind (HeapFileScan.scanNext_mono hle _) fun r => getLoop_mono hle attrName _ _ _

/-! ### The pins of the scan -/

/-- The loop leaves the scan with its pins, whatever `scanNext` returns. -/
theorem getLoop_owns (fuel : Nat) {st : Status} {h : HeapFileScan} (ho : Owns s R h.toHeapFile)
    (hsole : st = .OK → ∀ p, s.buf.Sole h.filePtr p) :
    Runs False (getLoop attrName fuel st h record) s fun r _ s' =>
    Owns s' R r.2.2.1.toHeapFile := by
  induction fuel generalizing s st h record with
  | zero => exact Runs.failure id
  | succ fuel ih =>
    unfold getLoop HeapFileScan.getRecord copyRecord
    split
    next => exact runs_pure.mpr ho
    next heq =>
      rw [bind_assoc]
      refine (runs_derefPage _ s).bind ?_
      rintro blk e s₁ ⟨rfl, -⟩
      refine Runs.ofOption_bind (fun hf => hf.elim) ?_
      rintro ⟨got, rec⟩ -
      dsimp only
      split
      next => exact runs_pure.mpr ho
      next =>
        rw [bind_assoc]
        refine (runs_derefPage _ s₁).bind ?_
        rintro blk e s₂ ⟨rfl, -⟩
        refine Runs.ofOption_bind (fun hf => hf.elim) fun b _ => ?_
        refine Runs.ofOption_bind (fun hf => hf.elim) fun mem _ => ?_
        refine Runs.ofOption_bind (fun hf => hf.elim) fun name _ => ?_
        split
        next => exact runs_pure.mpr ho
        next =>
          refine (HeapFileScan.scanNext_owns fuel ho (hsole (not_not.mp heq))).bind ?_
          rintro ⟨st', rid, h'⟩ e₃ s₃ ⟨ho', hsole'⟩
          exact ih ho' hsole'

/-- A lookup that has not come to the end of the file has a scan to end. -/
theorem scanFor_owns (fuel : Nat) (hP : Pinned s.buf P) (hsole : ∀ f p, s.buf.Sole f p) :
    Runs False (scanFor fuel relation attrName record) s fun r _ s' =>
      r.1 = none → r.2.1 ≠ .FILEEOF → Owns s' P r.2.2.1.toHeapFile := by
  unfold scanFor HeapFileScan.new
  rw [bind_assoc]
  refine (new_owns_of_read hP fun f _ _ _ => hsole f).bind ?_
  rintro ⟨st, h⟩ e₁ s₁ ⟨-, hok⟩
  rw [pure_bind]
  dsimp only at hok ⊢
  split
  next => exact runs_pure.mpr nofun
  next hst =>
    have hok := hok (not_not.mp hst)
    split
    next => exact runs_pure.mpr nofun
    next =>
      by_cases hwild : h.curPage = .wild
      · -- nothing is read without a data page
        refine ⟨fun r e s' hy hnone hne => ?_, fun hf => hf.elim⟩
        obtain ⟨⟨st', rid, q⟩, _, s₂, _, hnext, hloop, -⟩ := hy.of_bind
        by_cases hpos : 0 ≤ h.curPageNo
        · refine absurd hnext (HeapFileScan.not_scanNext_of_wild ?_ ?_) <;>
            rw [HeapFileScan.startScan_toHeapFile]
          · exact hwild
          · exact hpos
        · unfold HeapFileScan.scanNext at hnext
          rw [HeapFileScan.startScan_toHeapFile, if_pos (not_le.mp hpos)] at hnext
          obtain ⟨heq, -⟩ := yields_pure.mp hnext
          cases heq
          rw [getLoop_of_ne Status.noConfusion hloop] at hne
          exact absurd rfl hne
      · obtain ⟨ho, -, hsole₁⟩ := hok hwild
        refine (HeapFileScan.scanNext_owns (R := P) fuel ?_ ?_).bind ?_
        · rw [HeapFileScan.startScan_toHeapFile]
          exact ho
        · rw [HeapFileScan.startScan_toHeapFile]
          exact hsole₁
        rintro ⟨st', rid, q⟩ e₂ s₂ ⟨ho₂, hsole₂⟩
        exact (getLoop_owns fuel ho₂ hsole₂).mono fun _ _ _ ho₃ _ _ => ho₃

/-! ### Statuses that are returned early -/

theorem openFile_ne_attrNotFound (nm : FileName) :
    Avoids (fun r => r.1 = .ATTRNOTFOUND) (DB.openFile nm) := by
  have hopen (f : FilePtr) : Avoids (· = .ATTRNOTFOUND) (File.open f) := by
    unfold File.open
    refine .bind fun fo => .ite (fun _ => .bind fun _ => .bind fun _ => .ite (fun _ => ?_) fun _ =>
      ?_) fun _ => ?_
    · exact .bind fun _ => .pure Status.noConfusion
    · exact .pure Status.noConfusion
    · exact .bind fun _ => .pure Status.noConfusion
  unfold DB.openFile
  refine .ite (fun _ => .pure Status.noConfusion) fun _ => .bind fun s => ?_
  cases s.openFiles.find nm with
  | some f => exact .bind_of (hopen f) fun _ hst => .pure hst
  | none =>
    refine .bind fun f => .bind_of (hopen f) fun st hst => .ite
      (fun _ => .bind fun _ => .pure hst) fun _ => ?_
    refine .bind fun s => .bind fun _ => .pure ?_
    dsimp only
    split <;> exact Status.noConfusion

theorem new_ne_attrNotFound (nm : FileName) :
    Avoids (fun r => r.1 = .ATTRNOTFOUND) (HeapFileScan.new nm) := by
  have hnew : Avoids (fun r => r.1 = .ATTRNOTFOUND) (HeapFile.new nm) := by
    unfold HeapFile.new
    refine .bind_of (openFile_ne_attrNotFound nm) fun r hst => .ite (fun _ => .pure hst) fun _ => ?_
    refine .bind fun q => .ite (fun _ => .failure) fun _ => .bind fun _ => .bind fun _ =>
      .bind fun _ => ?_
    exact .pure Status.noConfusion
  exact .bind_of hnew fun r hst => .pure hst

/-- A status that is returned early is an error, and not the one of a complete scan. -/
theorem scanFor_early (fuel : Nat) : Avoids (fun r => r.1 = some .OK ∨ r.1 = some .ATTRNOTFOUND)
    (scanFor fuel relation attrName record) := by
  have hearly {st st' : Status} {q : HeapFileScan} {d : AttrDesc} (hok : st ≠ .OK)
      (hst : st ≠ .ATTRNOTFOUND) : ¬((some st, st', q, d).1 = some .OK ∨
        (some st, st', q, d).1 = some .ATTRNOTFOUND) := by
    rintro (h | h)
    · exact hok (Option.some.inj h)
    · exact hst (Option.some.inj h)
  unfold scanFor
  refine .bind_of (new_ne_attrNotFound _) fun r hst => .ite
    (fun hok => .pure (hearly hok hst)) fun _ => ?_
  have hstart : ∀ q : HeapFileScan,
      (q.startScan 0 (cSize relation) .STRING (some (cStr relation)) .EQ).1 ≠ .ATTRNOTFOUND := by
    intro q
    unfold HeapFileScan.startScan
    split
    · exact Status.noConfusion
    · split <;> exact Status.noConfusion
  dsimp only
  refine .ite (fun hok => .pure (hearly hok (hstart _))) fun _ => .bind fun q => ?_
  -- the loop returns early if `getRecord` fails
  suffices hloop : ∀ st h d, Avoids (fun r => r.1 = some .OK ∨ r.1 = some .ATTRNOTFOUND)
    (getLoop attrName fuel st h d) from hloop _ _ _
  have hget (h : HeapFileScan) : Avoids (fun r => r.1 = .ATTRNOTFOUND) h.getRecord := by
    refine .bind fun blk => .ofOption fun q hq => ?_
    unfold Page.getRecord at hq
    dsimp only at hq
    split at hq
    · obtain ⟨sl, -, hq⟩ := Option.bind_eq_some_iff.mp hq
      split at hq <;> cases hq <;> exact Status.noConfusion
    · cases hq
      exact Status.noConfusion
  induction fuel with
  | zero => exact fun _ _ _ => .failure
  | succ fuel ih =>
    intro st h d
    unfold getLoop
    refine .ite (fun _ => .pure ?_) fun _ => ?_
    · rintro (h | h) <;> cases h
    refine .bind_of (hget h) fun q hst => .ite (fun hok => .pure (hearly hok hst)) fun _ => ?_
    refine .bind fun b => .bind fun mem => .bind fun name => .ite (fun _ => .pure ?_) fun _ => ?_
    · rintro (h | h) <;> cases h
    exact .bind fun _ => ih _ _ _

/-- A lookup whose scan ends without an error has met no fault. -/
theorem scanFor_transfers (fuel : Nat) (hc : Coh s.good P v) (hH : IsHeap v ATTRCATNAME fv H) :
    Transfers Sys.good (fun r => r.1 = none ∧ r.2.1.Fine) (scanFor fuel relation attrName record)
      (scanFor fuel relation attrName record) s s.good := by
  unfold scanFor
  refine (HeapFileScan.new_reliable ATTRCATNAME s).bind (fun q s₁ _ => ?_) ?_
  · suffices hrest : Reliable Sys.good (fun r : Option Status × Status × HeapFileScan × AttrDesc =>
        r.1 = none ∧ r.2.1.Fine) _ from hrest s₁
    dsimp only
    refine .ite (fun _ => .pure _) fun _ => .ite (fun _ => .pure _) fun _ => ?_
    refine .bind (HeapFileScan.scanNext_reliable _ _)
      (fun _ _ => getLoop_reliable _ _ _ _) fun q hbad => ?_
    intro s₂ r e s' hy hr
    obtain rfl := getLoop_of_ne (Status.ne_OK_of_not_fine hbad) hy
    exact hbad hr.2
  · rintro ⟨st, q⟩ e₁ s₁ hy₁ hbad r e₂ s' hy hr
    dsimp only at hy hbad
    by_cases hst : st = .OK
    swap
    · rw [if_pos hst] at hy
      obtain ⟨rfl, -⟩ := yields_pure.mp hy
      cases hr.1
    subst hst
    rw [if_neg fun hn => hn rfl] at hy
    split at hy
    · obtain ⟨rfl, -⟩ := yields_pure.mp hy
      cases hr.1
    -- the data page has not been read
    have hwild : q.curPage = .wild := not_not.mp fun hne => hbad ⟨Or.inl rfl, hne⟩
    obtain ⟨⟨st, h⟩, _, _, _, hnew, hpure, -⟩ := hy₁.of_bind
    obtain ⟨heq, -⟩ := yields_pure.mp hpure
    cases heq
    have hno : h.curPageNo = H.hdr.firstPage := curPageNo_of_new hc hH hnew
    obtain ⟨uf, -, hst, -⟩ := hc.stored _ fv hH.file
    have hpos := (hst.range (hH.heapAt.alloc _ hH.heapAt.first_mem)).1
    obtain ⟨l, _, s₂, _, hnext, -⟩ := hy.of_bind
    refine HeapFileScan.not_scanNext_of_wild ?_ ?_ hnext
    · rw [HeapFileScan.startScan_toHeapFile]
      exact hwild
    · rw [HeapFileScan.startScan_toHeapFile]
      show 0 ≤ h.curPageNo
      omega

end Scan

end AttrCatalog

/-! ## The claim of a lookup -/

/-- What a lookup returns is right for the result `r` of its scan: with `OK` the scan has ended with
a match, and the record is a tuple with the names; with `ATTRNOTFOUND` it has come to the end of the
file, and there is no such tuple; any other status is the error of the scan, or the one that it met
early. -/
structure Found (H : Heap) (relation attrName : Bytes)
    (r : Option Status × Status × HeapFileScan × AttrDesc) (st : Status) (d : AttrDesc) : Prop where
  ok : st = .OK → r.1 = none ∧ r.2.1 = .OK ∧
    ∃ b ∈ H.contents, hasNames relation attrName b = true ∧ d = AttrDesc.ofBytes b
  notFound : st = .ATTRNOTFOUND → r.1 = none ∧ r.2.1 = .FILEEOF ∧
    ∀ b ∈ H.contents, hasNames relation attrName b = false
  error : st ≠ .OK → st ≠ .ATTRNOTFOUND → st = r.1.getD r.2.1

/-- With enough rounds a lookup returns, and what it returns is right. -/
def FindsAttr (s : Sys) (H : Heap) (relation attrName : Bytes) (record : AttrDesc) : Prop :=
  ∃ N, ∀ fuel, N ≤ fuel → ∃ r e₁ s₁ st d e s',
    Yields (AttrCatalog.scanFor fuel relation attrName record) s r e₁ s₁ ∧
    Yields (AttrCatalog.getInfo fuel relation attrName record) s (st, d) e s' ∧
    Found H relation attrName r st d

namespace AttrCatalog

section FindsAttr

variable {relation attrName : Bytes} {record : AttrDesc} {s s' s₁ : Sys}
  {P : Multiset Pin} {v : View} {fv : FileView} {H : Heap}
  {r : Option Status × Status × HeapFileScan × AttrDesc} {e e₁ : Bool} {b : Bytes} {st : Status}
  {d : AttrDesc} {fuel : Nat}

/-- The descriptor has the names of the tuple. -/
theorem hasName_of_ofBytes_eq {b' : Bytes} (htuples : H.Tuples 76) (hb : b ∈ H.contents)
    (hb' : b' ∈ H.contents) (heq : AttrDesc.ofBytes b = AttrDesc.ofBytes b')
    (hname : hasName relation b' = true) : cstr b = relation := by
  obtain ⟨rid, hrid⟩ := Heap.exists_of_mem_contents hb
  obtain ⟨rid', hrid'⟩ := Heap.exists_of_mem_contents hb'
  have htake : b.take MAXNAME = b'.take MAXNAME := congrArg AttrDesc.relName heq
  rw [← cstr_take (htuples rid b hrid).2.nul, htake, cstr_take (htuples rid' b' hrid').2.nul]
  exact of_decide_eq_true hname

/-- The size of the name has been accepted if the scan has begun. -/
theorem cSize_of_scanFor (hy : Yields (scanFor fuel relation attrName record) s r e s')
    (hnone : r.1 = none) : 1 ≤ cSize relation := by
  by_contra! hneg
  unfold scanFor at hy
  obtain ⟨⟨st, q⟩, _, s₁, _, -, k₁, -⟩ := hy.of_bind
  dsimp only at k₁
  rw [startScan_refused hneg] at k₁
  split at k₁
  · obtain ⟨rfl, -⟩ := yields_pure.mp k₁
    cases hnone
  · obtain ⟨rfl, -⟩ := yields_pure.mp k₁
    cases hnone

/-- A scan that has not come to the end of the file is ended, and its status is lost. -/
theorem yields_merge {st : Status} {q q' : HeapFileScan} {d : AttrDesc} (hst : st ≠ .FILEEOF)
    (hend : Yields q.endScan s (.OK, q') false s') :
    Yields (merge (none, st, q, d)) s (.OK, d) false s' := by
  unfold merge
  dsimp only
  rw [if_pos hst]
  exact hend.bind (d := false) (Yields.pure _ _)

/-- A lookup whose scan ends without an error does what it does without faults. -/
theorem getInfo_of_fine (hc : Coh s.good P v) (hH : IsHeap v ATTRCATNAME fv H)
    (htuples : H.AttrTuples) (hne : relation ≠ []) (hne' : attrName ≠ []) (hrec : record.Sized)
    (hy : Yields (scanFor fuel relation attrName record) s r e s') (hnone : r.1 = none)
    (hfine : r.2.1.Fine) :
    ∃ st d s'', Yields (getInfo fuel relation attrName record) s (st, d) false s'' ∧
      (r.2.1 = .OK → st = .OK) ∧ (r.2.1 = .FILEEOF → st = .ATTRNOTFOUND) ∧
      match H.contents.find? (candidate relation attrName) with
      | some b => st = .OK ∧ d = AttrDesc.ofBytes b
      | none => st = .ATTRNOTFOUND := by
  have hspec := getInfo_filter (T := False) fuel hc hH htuples (cSize_of_scanFor hy hnone)
    hne hne' hrec
    False.elim
  obtain ⟨rfl, hgood⟩ := scanFor_transfers fuel hc hH r e s' hy ⟨hnone, hfine⟩
  have howns := (scanFor_owns (s := s) fuel hc.pinned fun f p => hc.sound.sole f p).1 r
    false s' hy hnone
  rw [getInfo_eq fuel hne hne'] at hspec ⊢
  obtain ⟨early, st, q, d⟩ := r
  dsimp only at hnone hfine howns ⊢
  subst hnone
  -- what the two runs do with the result of the scan
  obtain ⟨st', s'', hm, hmgood, hok, heof⟩ : ∃ st' s'', Yields (merge (none, st, q, d)) s' (st',
    d) false s'' ∧
      Yields (merge (none, st, q, d)) s'.good (st', d) false s''.good ∧ (st = .OK → st' = .OK) ∧
        (st = .FILEEOF → st' = .ATTRNOTFOUND) := by
    rcases hfine with rfl | rfl
    · obtain ⟨q', s'', hend⟩ := HeapFileScan.exists_endScan (howns Status.noConfusion)
      have hrel : Reliable Sys.good (fun _ => True) q.endScan := HeapFileScan.endScan_reliable q
      exact ⟨.OK, s'', yields_merge Status.noConfusion hend,
        yields_merge Status.noConfusion (hrel s' _ _ _ hend trivial).2, fun _ => rfl,
        Status.noConfusion⟩
    · exact ⟨.ATTRNOTFOUND, s', Yields.pure _ _, Yields.pure _ _, Status.noConfusion, fun _ => rfl⟩
  refine ⟨st', d, s'', hy.bind hm, hok, heof, ?_⟩
  have hfound := hspec.of_yields (hgood.bind hmgood)
  cases hfind : H.contents.find? (candidate relation attrName) with
  | none =>
    rw [hfind] at hfound
    exact hfound.1
  | some b =>
    rw [hfind] at hfound
    exact Prod.mk.inj hfound.1

/-- A tuple with the names is a candidate. -/
theorem candidate_of_hasNames (htuples : H.Tuples 76) (hb : b ∈ H.contents)
    (hnames : hasNames relation attrName b = true) : candidate relation attrName b = true := by
  obtain ⟨hname, hattr⟩ := (Bool.and_eq_true _ _).mp hnames
  unfold candidate
  rw [htuples.passes_eq (htuples.isName_of_mem hb hname) hb, hname]
  exact hattr

/-- A lookup that is right has a scan without errors, whose first candidate has the name of the
relation. -/
theorem fine_of_found (hf : Found H relation attrName r st d) (hc : Coh s.good P v)
    (hH : IsHeap v ATTRCATNAME fv H) (htuples : H.AttrTuples) (hne : relation ≠ [])
    (hne' : attrName ≠ []) (hrec : record.Sized)
    (hy : Yields (scanFor fuel relation attrName record) s r e₁ s₁)
    (hget : Yields (getInfo fuel relation attrName record) s (st, d) e s') (hnone : r.1 = none) :
    r.2.1 = .FILEEOF ∨ r.2.1 = .OK ∧
      ∀ b, H.contents.find? (candidate relation attrName) = some b → cstr b = relation := by
  by_cases hr : r.2.1.Fine
  · obtain ⟨st', d', s'', hget', -, -, hfound⟩ :=
      getInfo_of_fine hc hH htuples hne hne' hrec hy hnone hr
    obtain ⟨heq, -⟩ := hget'.unique hget
    obtain ⟨rfl, rfl⟩ := Prod.mk.inj heq
    rcases hr with hr | hr
    · refine Or.inr ⟨hr, fun b hb => ?_⟩
      rw [hb] at hfound
      obtain ⟨hst, hd⟩ := hfound
      obtain ⟨-, -, b', hb', hnames, hd'⟩ := hf.ok hst
      exact hasName_of_ofBytes_eq htuples.tuples (List.mem_of_find?_eq_some hb) hb'
        (hd.symm.trans hd')
        ((Bool.and_eq_true _ _).mp hnames).1
    · exact Or.inl hr
  · -- the status of a scan that fails is overwritten with `OK`
    exfalso
    have howns := (scanFor_owns (s := s) fuel hc.pinned fun f p => hc.sound.sole f p).1 r
      e₁ s₁ hy hnone
      fun heof => hr (Or.inr heof)
    obtain ⟨q', s₂, hend⟩ := HeapFileScan.exists_endScan howns
    have hm := yields_merge (d := r.2.2.2) (fun heof => hr (Or.inr heof)) hend
    rw [getInfo_eq fuel hne hne'] at hget
    rw [← hnone] at hm
    obtain ⟨heq, -⟩ := (hy.bind hm).unique hget
    exact hr (Or.inl (hf.ok (Prod.mk.inj heq).1).2.1)

/-- A status that is returned early is the status of the lookup. -/
theorem exists_found_of_early {st : Status} (hne : relation ≠ []) (hne' : attrName ≠ [])
    (hy : Yields (scanFor fuel relation attrName record) s r e₁ s₁) (hearly : r.1 = some st) :
    ∃ st d e s', Yields (getInfo fuel relation attrName record) s (st, d) e s' ∧
      Found H relation attrName r st d := by
  have hm : Yields (merge r) s₁ (st, r.2.2.2) false s₁ := by
    unfold merge
    rw [hearly]
    exact Yields.pure _ _
  have hget := hy.bind hm
  rw [← getInfo_eq fuel hne hne'] at hget
  obtain ⟨hok, hnotFound⟩ := not_or.mp (scanFor_early fuel s r e₁ s₁ hy)
  rw [hearly] at hok hnotFound
  refine ⟨st, r.2.2.2, _, s₁, hget, fun hst => ?_, fun hst => ?_, fun _ _ => ?_⟩
  · exact absurd (congrArg some hst) hok
  · exact absurd (congrArg some hst) hnotFound
  · rw [hearly]
    rfl

/-- A scan without errors, whose first candidate has the name of the relation, makes a lookup
right. -/
theorem exists_found (hc : Coh s.good P v) (hH : IsHeap v ATTRCATNAME fv H) (htuples : H.AttrTuples)
    (hne : relation ≠ []) (hne' : attrName ≠ []) (hrec : record.Sized)
    (hy : Yields (scanFor fuel relation attrName record) s r e₁ s₁) (hnone : r.1 = none)
    (hcond : r.2.1 = .FILEEOF ∨ r.2.1 = .OK ∧
      ∀ b, H.contents.find? (candidate relation attrName) = some b → cstr b = relation) :
    ∃ st d e s', Yields (getInfo fuel relation attrName record) s (st, d) e s' ∧
      Found H relation attrName r st d := by
  have hr : r.2.1.Fine := hcond.symm.imp_left And.left
  obtain ⟨st, d, s'', hget, hok, heof, hfound⟩ :=
    getInfo_of_fine hc hH htuples hne hne' hrec hy hnone hr
  refine ⟨st, d, false, s'', hget, fun hst => ?_, fun hst => ?_, fun hne₁ hne₂ => ?_⟩
  · -- the first candidate has been found
    rcases hcond with hr | ⟨hr, hname⟩
    · cases hst.symm.trans (heof hr)
    refine ⟨hnone, hr, ?_⟩
    cases hfind : H.contents.find? (candidate relation attrName) with
    | none =>
      rw [hfind] at hfound
      cases hst.symm.trans hfound
    | some b =>
      rw [hfind] at hfound
      have hcand : candidate relation attrName b = true := List.find?_some hfind
      refine ⟨b, List.mem_of_find?_eq_some hfind, ?_, hfound.2⟩
      exact (Bool.and_eq_true _ _).mpr ⟨decide_eq_true (hname b hfind),
        ((Bool.and_eq_true _ _).mp hcand).2⟩
  · -- there has been no candidate
    rcases hr with hr | hr
    · cases hst.symm.trans (hok hr)
    refine ⟨hnone, hr, fun b hb => Bool.eq_false_iff.mpr fun hnames => ?_⟩
    cases hfind : H.contents.find? (candidate relation attrName) with
    | none =>
      exact List.find?_eq_none.mp hfind b hb (candidate_of_hasNames htuples.tuples hb hnames)
    | some b' =>
      rw [hfind] at hfound
      cases hst.symm.trans hfound.1
  · rcases hr with hr | hr
    · exact absurd (hok hr) hne₁
    · exact absurd (heof hr) hne₂

/-- For every content of `attrcat`, all names and whatever calls fail: a lookup is right exactly if
the constructor and `startScan` fail, or the scan ends at the end of the file, or it ends with a
match, and the first candidate has the name of the relation. -/
theorem findsAttr_iff (hc : Coh s.good P v) (hH : IsHeap v ATTRCATNAME fv H)
    (htuples : H.AttrTuples) (hne : relation ≠ []) (hne' : attrName ≠ []) (hrec : record.Sized) :
    FindsAttr s H relation attrName record ↔ ∃ N, ∀ fuel, N ≤ fuel → ∃ r e s',
      Yields (scanFor fuel relation attrName record) s r e s' ∧
      (r.1 = none → r.2.1 = .FILEEOF ∨ r.2.1 = .OK ∧
        ∀ b, H.contents.find? (candidate relation attrName) = some b → cstr b = relation) := by
  constructor
  · rintro ⟨N, h⟩
    refine ⟨N, fun fuel hN => ?_⟩
    obtain ⟨r, e₁, s₁, st, d, e, s', hy, hget, hf⟩ := h fuel hN
    exact ⟨r, e₁, s₁, hy, fine_of_found hf hc hH htuples hne hne' hrec hy hget⟩
  · rintro ⟨N, h⟩
    refine ⟨N, fun fuel hN => ?_⟩
    obtain ⟨r, e₁, s₁, hy, hcond⟩ := h fuel hN
    cases hearly : r.1 with
    | some st =>
      obtain ⟨st, d, e, s', hget, hf⟩ := exists_found_of_early hne hne' hy hearly
      exact ⟨r, e₁, s₁, st, d, e, s', hy, hget, hf⟩
    | none =>
      obtain ⟨st, d, e, s', hget, hf⟩ :=
        exists_found hc hH htuples hne hne' hrec hy hearly (hcond hearly)
      exact ⟨r, e₁, s₁, st, d, e, s', hy, hget, hf⟩

end FindsAttr

end AttrCatalog

/-- Of a relation that has been created, the attribute is found, and one that it does not have is
not: the scan ends with a match, or at the end of the file. -/
theorem findsAttr_iff_created : ∃ s₀ s HA, NewSession (fun _ => none) s₀ ∧
    (CatalogCall.createRel [65] 1 [oneAttr]).Step s₀ .OK false s ∧
    FindsAttr s HA [65] [66] AttrDesc.zero ∧ (∃ b ∈ HA.contents, hasNames [65] [66] b = true) ∧
    FindsAttr s HA [65] [67] AttrDesc.zero := by
  obtain ⟨s₀, s, P, v, fvA, HA, H, h₀, hstep, hc, hH, htuples, hframes, hlists⟩ := exists_attrcat
  have hgood : s.good = s := by
    unfold Sys.good
    rw [← hc.io]
  rw [hc.freeFrames_eq] at hframes
  have hfinds : ∀ c : UInt8, FindsAttr s HA [65] [c] AttrDesc.zero := by
    intro c
    refine (AttrCatalog.findsAttr_iff (hgood.symm ▸ hc) hH htuples (List.cons_ne_nil 65 [])
      (List.cons_ne_nil c []) AttrDesc.sized_zero).mpr ⟨2 * HA.rids.length +
      HA.pages.length + 1, ?_⟩
    intro fuel hN
    have hspec : Clean True (AttrCatalog.scanFor fuel [65] [c] AttrDesc.zero) s _ :=
      AttrCatalog.scanFor_spec fuel hc hH htuples (by decide) AttrDesc.sized_zero fun _ =>
      ⟨by omega, hN⟩
    obtain ⟨r, s', hy, h, x, l, -, -, -, -, hr⟩ := hspec.exists trivial
    refine ⟨r, false, s', hy, fun _ => ?_⟩
    rw [htuples.tuples.find?_names ⟨by decide, by decide⟩] at hr
    cases hfind : HA.contents.find? (hasNames [65] [c]) with
    | none =>
      rw [hfind] at hr
      obtain ⟨d, -, rfl⟩ := hr
      exact Or.inl rfl
    | some b =>
      rw [hfind] at hr
      subst hr
      refine Or.inr ⟨rfl, fun b' hb' => ?_⟩
      -- what passes the filter has the name
      have hcand : AttrCatalog.candidate [65] [c] b' = true := List.find?_some hb'
      have hpass := (Bool.and_eq_true _ _).mp hcand
      exact of_decide_eq_true (htuples.tuples.hasName_of_passes ⟨by decide, by decide⟩
        (List.mem_of_find?_eq_some hb') hpass.1)
  exact ⟨s₀, s, HA, h₀, hstep, hfinds 66, hlists.exists_hasNames hH.heapAt htuples, hfinds 67⟩

section Fault

/-- Add tuples to `attrcat`. -/
def addAttrs : List AttrDesc → M (List Status)
  | [] => return []
  | d :: ds => do
    let st ← AttrCatalog.addInfo d
    let sts ← addAttrs ds
    return st :: sts

theorem addAttrs_spec {s : Sys} {P : Multiset Pin} {v : View} {fv : FileView} {H : Heap}
    (ds : List AttrDesc) (hds : ∀ d ∈ ds, d.Sized ∧ 0 ∈ d.relName ∧ 0 ∈ d.attrName) (hc : Coh s P v)
    (hH : IsHeap v ATTRCATNAME fv H) (htuples : H.AttrTuples) :
    Clean False (addAttrs ds) s fun _ s' => ∃ v' fv' H',
      Coh s' P v' ∧ IsHeap v' ATTRCATNAME fv' H' ∧ H'.AttrTuples := by
  induction ds generalizing s v fv H with
  | nil => exact clean_pure.mpr ⟨v, fv, H, hc, hH, htuples⟩
  | cons d ds ih =>
    obtain ⟨hsized, hrel, hattr⟩ := hds d (List.mem_cons_self ..)
    have hdrop : (d.bytes.drop MAXNAME).take MAXNAME = d.attrName := by
      unfold AttrDesc.bytes
      rw [List.append_assoc, List.append_assoc, List.append_assoc, List.drop_left' hsized.relName,
        List.take_left' hsized.attrName]
    unfold addAttrs
    rw [AttrCatalog.addInfo_eq]
    refine (addTuple_rows hc hH htuples.tuples (by decide) (AttrDesc.length_bytes hsized)
      (AttrDesc.named_bytes hsized hrel) False.elim).bind ?_
    rintro st s₁ ⟨-, fv₁, H₁, hc₁, hH₁, htuples₁, -, hrows⟩
    have hattr₁ : H₁.AttrTuples := by
      refine ⟨htuples₁, fun rid b hb => ?_⟩
      have hmem := (Heap.mem_rows hH₁.heapAt).mpr ⟨rid, hb⟩
      rw [hrows] at hmem
      rcases Multiset.mem_cons.mp hmem with rfl | hmem
      · rw [hdrop]
        exact hattr
      · obtain ⟨rid', hrid'⟩ := (Heap.mem_rows hH.heapAt).mp hmem
        exact htuples.nul rid' b hrid'
    refine (ih (fun d' hd' => hds d' (List.mem_cons_of_mem d hd')) hc₁ hH₁ hattr₁).bind ?_
    exact fun sts s₂ h => clean_pure.mpr h

/-- The attribute number `i` of the relation `[65]`. -/
def attrOfA (i : Nat) : AttrDesc :=
  ⟨65 :: List.replicate 31 0, UInt8.ofNat (66 + i) :: List.replicate 31 0, 4 * i, 1, 4⟩

/-- Two pages of `attrcat`: the second one has the attribute `[78]`. -/
def twoPagesOfA : M (Status × List Status) := do
  let st ← createHeapFile ATTRCATNAME
  let sts ← addAttrs ((List.range 13).map attrOfA)
  return (st, sts)

/-- From the fifth Unix call on, all fail. -/
def Sys.failing (s : Sys) : Sys := { s with io := fun n => n < 4 }

/-- Look up the last attribute while the second page cannot be read. -/
def lookUpFailing : M (Option Status × Status) := do
  let _ ← twoPagesOfA
  modify Sys.failing
  let r ← AttrCatalog.scanFor 20 [65] [78] AttrDesc.zero
  return (r.1, r.2.1)

/-- The second page cannot be read, and the lookup returns `OK` with the last tuple of the first
page. -/
theorem not_findsAttr_failing : ∃ s P v fv H r, Yields twoPagesOfA (Sys.blank 3) r false s ∧
    Coh s.failing.good P v ∧ IsHeap v ATTRCATNAME fv H ∧ H.AttrTuples ∧
    ¬FindsAttr s.failing H [65] [78] AttrDesc.zero := by
  obtain ⟨r, e, s', hy, hv⟩ := exists_of_eval (s := Sys.blank 3) (x := lookUpFailing)
    (g := fun r e _ => (r, e)) (v := ((none, .UNIXERR), false)) (by decide +kernel)
  obtain ⟨r₁, e₁, s, _, hy₁, k₁, rfl⟩ := hy.of_bind
  obtain ⟨⟨⟩, e₂, s₂, _, hy₂, k₂, rfl⟩ := k₁.of_bind
  obtain ⟨-, rfl, rfl⟩ :=
    (show Yields (modify Sys.failing) s ⟨⟩ false s.failing from rfl).unique hy₂
  obtain ⟨q, e₃, s₃, _, hscan, k₃, rfl⟩ := k₂.of_bind
  obtain ⟨rfl, rfl, -⟩ := yields_pure.mp k₃
  simp only [Prod.mk.injEq, Bool.or_eq_false_iff] at hv
  obtain ⟨⟨hnone, hst⟩, rfl, -, rfl, -⟩ := hv
  -- the file before the fault
  have hspec : Clean False twoPagesOfA (Sys.blank 3) fun _ s' => ∃ v fv H,
      Coh s' 0 v ∧ IsHeap v ATTRCATNAME fv H ∧ H.AttrTuples := by
    unfold twoPagesOfA
    refine (createHeapFile_spec (Coh.blank 3)
      (show ATTRCATNAME ≠ [] by decide) rfl id False.elim).bind ?_
    rintro st s₀ ⟨-, p, p', pg, fv, hc, hheap⟩
    have hH := isHeap_fresh (v := (View.blank 3).setFile ATTRCATNAME (some fv))
      (by decide) View.file_setFile_self hheap rfl
    refine (addAttrs_spec _ ?_ hc hH ⟨?_, ?_⟩).bind fun sts s₁ h => clean_pure.mpr h
    · intro d hd
      obtain ⟨i, -, rfl⟩ := List.mem_map.mp hd
      exact ⟨⟨rfl, rfl⟩, by simp [attrOfA], by simp [attrOfA]⟩
    · intro rid b hb
      rw [Heap.rec?_fresh] at hb
      cases hb
    · intro rid b hb
      rw [Heap.rec?_fresh] at hb
      cases hb
  obtain ⟨v, fv, H, hc, hH, htuples⟩ := hspec.of_yields hy₁
  have hgood : s.failing.good = s := by
    unfold Sys.failing Sys.good
    rw [← hc.io]
  have hc' : Coh s.failing.good 0 v := hgood.symm ▸ hc
  refine ⟨s, 0, v, fv, H, r₁, hy₁, hc', hH, htuples, ?_⟩
  rintro ⟨N, hN⟩
  obtain ⟨n, hn, hle⟩ : ∃ n, N ≤ n ∧ 20 ≤ n := ⟨N + 20, Nat.le_add_right N 20, Nat.le_add_left 20 N⟩
  obtain ⟨r, e, s₁, st, d, e', s₂, hyn, hget, hf⟩ := hN n hn
  obtain ⟨rfl, -⟩ := (AttrCatalog.scanFor_mono hle [65] [78] AttrDesc.zero _ _ _ _ hscan).unique hyn
  rcases AttrCatalog.fine_of_found hf hc' hH htuples (List.cons_ne_nil 65 [])
    (List.cons_ne_nil 78 [])
    AttrDesc.sized_zero hyn hget hnone with h | ⟨h, -⟩
  · cases hst.symm.trans h
  · cases hst.symm.trans h

end Fault

end Minirel
