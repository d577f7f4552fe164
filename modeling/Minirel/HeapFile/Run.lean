import Minirel.HeapFile.Create
import Minirel.HeapFile.Insert
import Minirel.HeapFile.Scan
import Minirel.HeapFile.Contents
import Mathlib.Data.Multiset.ZeroCons
import Mathlib.Data.Multiset.MapFold
import Mathlib.Algebra.BigOperators.Group.Multiset.Defs

/-!
# Programs with several objects on one heap file

A program constructs `InsertFileScan` and `HeapFileScan` objects on a heap file, calls them in any
order, and destroys them. Whatever the calls return, the file stays a heap file, as long as no
object links a page behind another page than the last one.

## Main definitions

* `Clients`, `Call`, `Step`, `Run`: the objects, the calls, and the runs of a program.
* `Inv`: what holds in every state of a run.
* `Effect`: what a call does to the file.

* `Safe`: the calls that keep the file a heap file.

## Main results

* `Inv.step`: a safe call keeps the invariant.
-/

namespace Minirel

open Comp

/-! ## Programs -/

/-- A program: the state of the process and the objects that it has constructed. With a scan goes
the RID that its last call has returned, if that was a call of `scanNext` that returned `OK`. -/
structure Clients where
  /-- The state of the process. -/
  sys : Sys
  /-- The objects that insert records. -/
  inserts : Multiset InsertFileScan
  /-- The objects that scan records. -/
  scans : Multiset (HeapFileScan × Option RID)

/-- The calls of a program, with their arguments and what they return. -/
inductive Call
  | openInsert
  | insert (h : InsertFileScan) (rec : Record) (st : Status) (rid : RID)
  | closeInsert
  | openScan
  | startScan
  | scanNext (st : Status) (rid : RID)
  | delete (h : HeapFileScan) (just : Option RID) (st : Status)
  | closeScan

namespace Clients

/-- One call of a program on the file `nm`, and whether it exceeded the buffer pool. -/
inductive Step (nm : FileName) : Clients → Call → Bool → Clients → Prop
  | openInsert {s s' I S h} (hy : Yields (InsertFileScan.new nm) s (.OK, h) false s') :
      Step nm ⟨s, I, S⟩ .openInsert false ⟨s', h ::ₘ I, S⟩
  | insert {s s' I S h h' rec st rid e}
      (hy : Yields (InsertFileScan.insertRecord h rec) s (st, rid, h') e s') :
      Step nm ⟨s, h ::ₘ I, S⟩ (.insert h rec st rid) e ⟨s', h' ::ₘ I, S⟩
  | closeInsert {s s' I S h e} (hy : Yields (InsertFileScan.delete h) s () e s') :
      Step nm ⟨s, h ::ₘ I, S⟩ .closeInsert e ⟨s', I, S⟩
  | openScan {s s' I S h} (hy : Yields (HeapFileScan.new nm) s (.OK, h) false s') :
      Step nm ⟨s, I, S⟩ .openScan false ⟨s', I, (h, none) ::ₘ S⟩
  | startScan {s I S h o offset length type filter op} :
      Step nm ⟨s, I, (h, o) ::ₘ S⟩ .startScan false
        ⟨s, I, ((HeapFileScan.startScan h offset length type filter op).2, o) ::ₘ S⟩
  | scanNext {s s' I S h h' o fuel st rid e}
      (hy : Yields (HeapFileScan.scanNext fuel h) s (st, rid, h') e s') :
      Step nm ⟨s, I, (h, o) ::ₘ S⟩ (.scanNext st rid) e
        ⟨s', I, (h', if st = .OK then some rid else none) ::ₘ S⟩
  | delete {s s' I S h h' o st e} (hy : Yields (HeapFileScan.deleteRecord h) s (st, h') e s') :
      Step nm ⟨s, I, (h, o) ::ₘ S⟩ (.delete h o st) e ⟨s', I, (h', none) ::ₘ S⟩
  | closeScan {s s' I S h o e} (hy : Yields (HeapFileScan.delete h) s () e s') :
      Step nm ⟨s, I, (h, o) ::ₘ S⟩ .closeScan e ⟨s', I, S⟩

/-- The runs from `w₀` in which every call obeys `G`, with the calls made so far. -/
inductive Run (nm : FileName) (G : Clients → Call → Bool → Prop) (w₀ : Clients) :
    List Call → Clients → Prop
  | start : Run nm G w₀ [] w₀
  | step {cs w c e w'} (hrun : Run nm G w₀ cs w) (hG : G w c e) (hstep : Step nm w c e w') :
      Run nm G w₀ (cs ++ [c]) w'

end Clients

/-! ## What the objects hold -/

open HeapFile

/-- An `InsertFileScan` holds its header page and a data page. -/
def InsertHolds (f : FilePtr) (H : Heap) (h : InsertFileScan) (P : Multiset Pin) : Prop :=
  h.filePtr = f ∧ ∃ x y, P = y ::ₘ x ::ₘ 0 ∧ HasHeader h H x ∧ HasPage h H y

/-- A `HeapFileScan` holds its header page, and a data page unless it has lost it. Its cursor is
before a slot of the data page, and on the record that has just been returned. -/
def ScanHolds (f : FilePtr) (H : Heap) (q : HeapFileScan × Option RID) (P : Multiset Pin) : Prop :=
  q.1.filePtr = f ∧
  (∀ rid, q.2 = some rid → q.1.curRec = rid ∧ rid.pageNo = q.1.curPageNo ∧ 0 ≤ rid.slotNo) ∧
  ∃ x, HasHeader q.1.toHeapFile H x ∧
    (P = x ::ₘ 0 ∧ q.1.curPage = .null ∨
      ∃ y, P = y ::ₘ x ::ₘ 0 ∧ HasPage q.1.toHeapFile H y ∧
        (y.wrote = true → q.1.curDirtyFlag = true) ∧ ∃ k : Nat, q.1.curRec.slotNo = k - 1)

theorem InsertHolds.mono {f : FilePtr} {H H' : Heap} {h : InsertFileScan} {P : Multiset Pin}
    (hi : InsertHolds f H h P) (hle : H.Le H') : InsertHolds f H' h P := by
  obtain ⟨hf, x, y, hP, hx, hy⟩ := hi
  exact ⟨hf, x, y, hP, hx.mono hle, hy.mono hle⟩

theorem ScanHolds.mono {f : FilePtr} {H H' : Heap} {q : HeapFileScan × Option RID}
    {P : Multiset Pin} (hq : ScanHolds f H q P) (hle : H.Le H') : ScanHolds f H' q P := by
  obtain ⟨hf, hj, x, hx, hcase⟩ := hq
  exact ⟨hf, hj, x, hx.mono hle,
    hcase.imp_right fun ⟨y, hP, hy, hw⟩ => ⟨y, hP, hy.mono hle, hw⟩⟩

/-- The view of a process that has the file `nm` open as `f`, `n` times. -/
def View.shared (v : View) (nm : FileName) (fv : FileView) (f : FilePtr) (n : Nat) : View :=
  (v.setFile nm (some fv)).setHandle nm (if n = 0 then none else some (f, (n : Int)))

namespace View

variable {v : View} {nm : FileName} {fv fv' : FileView} {f g : FilePtr} {n : Nat}

@[simp] theorem file_shared : (v.shared nm fv f n).file nm = some fv := file_setFile_self

@[simp]
theorem handle_shared : (v.shared nm fv f n).handle nm = if n = 0 then none
    else some (f, (n : Int)) :=
  handle_setHandle_self

theorem handle_shared_succ :
    (v.shared nm fv f (n + 1)).handle nm = some (f, ((n + 1 : Nat) : Int)) := by
  rw [handle_shared, if_neg (Nat.succ_ne_zero n)]

@[simp]
theorem openCnt_shared : (v.shared nm fv f n).openCnt nm = n := by
  unfold openCnt
  rw [handle_shared]
  by_cases hn : n = 0
  · rw [if_pos hn, hn]
    rfl
  · rw [if_neg hn]

theorem setFile_shared : (v.shared nm fv f n).setFile nm (some fv') = v.shared nm fv' f n := by
  show ((v.setFile nm (some fv)).setFile nm (some fv')).setHandle nm _ = _
  rw [setFile_setFile]
  rfl

theorem setFile_shared_self : (v.shared nm fv f n).setFile nm (some fv) = v.shared nm fv f n :=
  setFile_shared

/-- The file is opened once more. -/
theorem open_shared :
    (v.shared nm fv f n).setHandle nm (some (g, (n : Int) + 1)) = v.shared nm fv g (n + 1) := by
  unfold shared
  rw [setHandle_setHandle, if_neg (Nat.succ_ne_zero n)]
  push_cast
  rfl

/-- The file is closed once. -/
theorem close_shared :
    (v.shared nm fv f (n + 1)).setHandle nm (closed f ((n + 1 : Nat) : Int)) =
      v.shared nm fv f n := by
  unfold shared closed
  rw [setHandle_setHandle]
  congr 1
  by_cases hn : n = 0
  · subst hn
    rfl
  · rw [if_neg (by omega), if_neg hn]
    congr 2
    omega

end View

/-! ## The invariant -/

/-- The file is a heap file with the pages `H`, and the objects hold their pages. Apart from these
the process has the pins `R`, and the files of the view `v`. -/
structure Clients.Inv (nm : FileName) (R : Multiset Pin) (v : View) (w : Clients) (fv : FileView)
    (H : Heap) : Prop where
  name : nm ≠ []
  heapAt : HeapAt fv H
  /-- The pins that the process has apart from those of the objects are on other files. -/
  others : ∀ z ∈ R, ∃ nm' c, nm' ≠ nm ∧ v.handle nm' = some (z.file, c)
  holds : ∃ f I S, Multiset.Rel (InsertHolds f H) w.inserts I ∧
    Multiset.Rel (ScanHolds f H) w.scans S ∧
    Coh w.sys (I.sum + (S.sum + R))
      (v.shared nm fv f (Multiset.card w.inserts + Multiset.card w.scans))

namespace Clients

variable {nm : FileName} {R : Multiset Pin} {v : View} {s s' : Sys} {I : Multiset InsertFileScan}
  {S : Multiset (HeapFileScan × Option RID)} {fv : FileView} {H : Heap} {e : Bool}

/-- The pins of the other clients are on other files. -/
theorem Inv.file_ne {w : Clients} (hinv : Inv nm R v w fv H) {P : Multiset Pin} {f : FilePtr}
    {n : Nat} (hc : Coh s P (v.shared nm fv f (n + 1))) : ∀ z ∈ R, z.file ≠ f := by
  rintro z hz rfl
  obtain ⟨nm', c, hne, hh⟩ := hinv.others z hz
  refine hne (hc.name_unique (c := c) ?_ View.handle_shared_succ)
  exact (View.handle_setHandle_of_ne hne).trans hh

/-- The open file is opened with a positive count. -/
theorem pos_of_shared {f g : FilePtr} {n : Nat} {c : Int}
    (h : (v.shared nm fv f n).handle nm = some (g, c)) : 0 < c := by
  rw [View.handle_shared] at h
  by_cases hn : n = 0
  · rw [if_pos hn] at h
    cases h
  · rw [if_neg hn] at h
    cases h
    omega

/-- What is read off the state is the heap file of the invariant. -/
theorem Inv.heap? {w : Clients} (hinv : Inv nm R v w fv H) :
    ∃ H', w.sys.heap? nm = some H' ∧ H.Same H' := by
  obtain ⟨f, I, S, -, -, hc⟩ := hinv.holds
  exact hc.heap? View.file_shared hinv.heapAt

/-! ## The calls -/

/-! The pins of an object among those of all objects, and the object among all objects. -/

theorem pins_insert (x y : Pin) (P Q : Multiset (Multiset Pin)) :
    ((y ::ₘ x ::ₘ 0) ::ₘ P).sum + (Q.sum + R) = y ::ₘ x ::ₘ (P.sum + (Q.sum + R)) := by
  simp only [Multiset.sum_cons, Multiset.cons_add, zero_add]

theorem pins_scan (x y : Pin) (P Q : Multiset (Multiset Pin)) :
    P.sum + (((y ::ₘ x ::ₘ 0) ::ₘ Q).sum + R) = y ::ₘ x ::ₘ (P.sum + (Q.sum + R)) := by
  simp only [Multiset.sum_cons, Multiset.cons_add, zero_add, Multiset.add_cons]

theorem pins_lost (x : Pin) (P Q : Multiset (Multiset Pin)) :
    P.sum + (((x ::ₘ 0) ::ₘ Q).sum + R) = x ::ₘ (P.sum + (Q.sum + R)) := by
  simp only [Multiset.sum_cons, Multiset.cons_add, zero_add, Multiset.add_cons]

theorem card_insert (h : InsertFileScan) :
    Multiset.card (h ::ₘ I) + Multiset.card S = Multiset.card I + Multiset.card S + 1 := by
  rw [Multiset.card_cons]
  omega

theorem card_scan (q : HeapFileScan × Option RID) :
    Multiset.card I + Multiset.card (q ::ₘ S) = Multiset.card I + Multiset.card S + 1 := by
  rw [Multiset.card_cons]
  omega

/-- Where the objects say that the file is, it is; if there are no objects it may be anywhere. -/
theorem rel_of_same {f g : FilePtr} {P Q : Multiset (Multiset Pin)}
    (hI : Multiset.Rel (InsertHolds f H) I P) (hS : Multiset.Rel (ScanHolds f H) S Q)
    (hsame : ∀ f' c', (v.shared nm fv f (Multiset.card I + Multiset.card S)).handle nm =
      some (f', c') → g = f') :
    Multiset.Rel (InsertHolds g H) I P ∧ Multiset.Rel (ScanHolds g H) S Q := by
  by_cases hn : Multiset.card I + Multiset.card S = 0
  · have hI0 : I = 0 := Multiset.card_eq_zero.mp (by omega)
    have hS0 : S = 0 := Multiset.card_eq_zero.mp (by omega)
    subst hI0 hS0
    rw [Multiset.rel_zero_left] at hI hS ⊢
    exact ⟨hI, Multiset.rel_zero_left.mpr hS⟩
  · obtain rfl : g = f := by
      refine hsame f (Multiset.card I + Multiset.card S : Nat) ?_
      rw [View.handle_shared, if_neg hn]
    exact ⟨hI, hS⟩

/-- The constructor of `InsertFileScan`. The object is on the last page. -/
theorem Inv.openInsert {h : InsertFileScan} (hinv : Inv nm R v ⟨s, I, S⟩ fv H)
    (hy : Yields (InsertFileScan.new nm) s (.OK, h) false s') :
    Inv nm R v ⟨s', h ::ₘ I, S⟩ fv H ∧ h.curPageNo = H.hdr.lastPage := by
  obtain ⟨f, P, Q, hI, hS, hc⟩ := hinv.holds
  obtain ⟨g, n, m, hr, hsame, hc'⟩ := (new_insert (T := False) hc hinv.name View.file_shared
    hinv.heapAt (fun _ _ => pos_of_shared) fun hf => hf.elim).of_yields hy
  cases hr
  obtain ⟨hI', hS'⟩ := rel_of_same hI hS hsame
  rw [View.openCnt_shared, View.open_shared] at hc'
  have hx : HasHeader (opened g H n m) H ⟨g, H.hdrNo, n, false⟩ := ⟨rfl, rfl, rfl, rfl, nofun⟩
  refine ⟨⟨hinv.name, hinv.heapAt, hinv.others, g,
    (⟨g, H.hdr.lastPage, m, false⟩ ::ₘ ⟨g, H.hdrNo, n, false⟩ ::ₘ 0) ::ₘ P, Q,
    Multiset.Rel.cons ⟨rfl, _, _, rfl, ⟨rfl, rfl, rfl, rfl, nofun⟩,
      ⟨rfl, rfl, rfl, hinv.heapAt.last_mem⟩⟩ hI', hS', ?_⟩, rfl⟩
  dsimp only at hc' ⊢
  rw [pins_insert, card_insert]
  exact hc'

/-- The constructor of `HeapFileScan`. -/
theorem Inv.openScan {h : HeapFileScan} (hinv : Inv nm R v ⟨s, I, S⟩ fv H)
    (hy : Yields (HeapFileScan.new nm) s (.OK, h) false s') :
    Inv nm R v ⟨s', I, (h, none) ::ₘ S⟩ fv H := by
  obtain ⟨f, P, Q, hI, hS, hc⟩ := hinv.holds
  obtain ⟨-, g, n, m, hr, hsame, hc'⟩ := (new_scan (T := False) hc hinv.name View.file_shared
    hinv.heapAt (fun _ _ => pos_of_shared) fun hf => hf.elim).of_yields hy
  dsimp only at hr
  obtain ⟨hI', hS'⟩ := rel_of_same hI hS hsame
  rw [View.openCnt_shared, View.open_shared] at hc'
  have hq : ScanHolds g H (h, none)
      (⟨g, H.hdr.firstPage, m, false⟩ ::ₘ ⟨g, H.hdrNo, n, false⟩ ::ₘ 0) := by
    refine ⟨by rw [hr]; rfl, nofun, ⟨g, H.hdrNo, n, false⟩, ?_, Or.inr
      ⟨⟨g, H.hdr.firstPage, m, false⟩, rfl, ?_, nofun, 0, by rw [hr]; rfl⟩⟩
    · rw [hr]
      exact ⟨rfl, rfl, rfl, rfl, nofun⟩
    · rw [hr]
      exact ⟨rfl, rfl, rfl, hinv.heapAt.first_mem⟩
  refine ⟨hinv.name, hinv.heapAt, hinv.others, g, P, _ ::ₘ Q, hI', Multiset.Rel.cons hq hS', ?_⟩
  dsimp only at hc' ⊢
  rw [pins_scan, card_scan]
  exact hc'

/-- `insertRecord`, if a record that does not fit is not inserted on another page than the last
one. -/
theorem Inv.insert {h h' : InsertFileScan} {rec : Record} {st : Status} {rid : RID}
    (hinv : Inv nm R v ⟨s, h ::ₘ I, S⟩ fv H)
    (hy : Yields (InsertFileScan.insertRecord h rec) s (st, rid, h') e s')
    (hrec : 0 ≤ rec.length → rec.length ≤ DATASIZE → rec.Readable ∧
      (rec.length + 4 ≤ (H.page h.curPageNo).freeSpace ∨ h.curPageNo = H.hdr.lastPage)) :
    ∃ fv' H', Inv nm R v ⟨s', h' ::ₘ I, S⟩ fv' H' ∧ Added st rid rec.bytes H H' ∧
      (h.curPageNo = H.hdr.lastPage → h'.curPageNo = H'.hdr.lastPage) ∧
      (e = false → 0 ≤ rec.length → rec.length ≤ 1000 → st = .OK) := by
  obtain ⟨f, P₁, Q, hI₁, hS, hc⟩ := hinv.holds
  obtain ⟨P₀, P, ⟨rfl, x, y, rfl, hx, hyp⟩, hI, rfl⟩ := Multiset.rel_cons_left.mp hI₁
  dsimp only at hc hS
  rw [pins_insert, card_insert] at hc
  have hh : (v.shared nm fv h.filePtr (Multiset.card I + Multiset.card S + 1)).handle nm =
      some (h.filePtr, _) := View.handle_shared_succ
  obtain ⟨x', y', fv', H', hc', hg, hadd, -, hok⟩ :=
    (insertRecord_spec (T := False) hc hh View.file_shared hinv.heapAt hx hyp hrec).1 _ e s' hy
  rw [View.setFile_shared] at hc'
  refine ⟨fv', H', ⟨hinv.name, hg.heapAt, hinv.others, h.filePtr, (y' ::ₘ x' ::ₘ 0) ::ₘ P, Q,
    Multiset.Rel.cons ⟨hg.filePtr, x', y', rfl, hg.header, hg.page⟩
      (hI.mono fun _ _ _ _ hi => hi.mono hg.le), hS.mono fun _ _ _ _ hq => hq.mono hg.le, ?_⟩,
    hadd, hg.atLast, fun he h₀ h₁ => ?_⟩
  swap
  · exact (hok he h₀ (h₁.trans (by decide))).trans (if_pos h₁)
  dsimp only
  rw [pins_insert, card_insert]
  exact hc'

/-- The destructor of `InsertFileScan`. -/
theorem Inv.closeInsert {h : InsertFileScan} (hinv : Inv nm R v ⟨s, h ::ₘ I, S⟩ fv H)
    (hy : Yields (InsertFileScan.delete h) s () e s') : ∃ fv', Inv nm R v ⟨s', I, S⟩ fv' H := by
  obtain ⟨f, P₁, Q, hI₁, hS, hc⟩ := hinv.holds
  obtain ⟨P₀, P, ⟨rfl, x, y, rfl, hx, hyp⟩, hI, rfl⟩ := Multiset.rel_cons_left.mp hI₁
  dsimp only at hc hS
  rw [pins_insert, card_insert] at hc
  have hh : (v.shared nm fv h.filePtr (Multiset.card I + Multiset.card S + 1)).handle nm =
      some (h.filePtr, _) := View.handle_shared_succ
  -- if this is the only object, the pins that are left are on other files
  have hlast : ((Multiset.card I + Multiset.card S + 1 : Nat) : Int) = 1 →
      ∀ z ∈ P.sum + (Q.sum + R), z.file ≠ h.filePtr := by
    intro hn
    have hI0 : I = 0 := Multiset.card_eq_zero.mp (by omega)
    have hS0 : S = 0 := Multiset.card_eq_zero.mp (by omega)
    subst hI0 hS0
    rw [Multiset.rel_zero_left] at hI hS
    subst hI hS
    rw [Multiset.sum_zero, zero_add, zero_add]
    exact hinv.file_ne hc
  obtain ⟨s'', fv', hy', hc', hfor⟩ := delete_insert hc hh View.file_shared hx hyp
    (by omega) hlast
  obtain ⟨-, -, rfl⟩ := hy.unique hy'
  rw [View.setFile_shared, View.close_shared] at hc'
  exact ⟨fv', hinv.name, hfor.heapAt hinv.heapAt, hinv.others, h.filePtr, P, Q, hI, hS, hc'⟩

/-- A record is in a slot. -/
theorem slotNo_nonneg {rid : RID} {b : Bytes} (hb : H.rec? rid = some b) : 0 ≤ rid.slotNo := by
  unfold Heap.rec? at hb
  split at hb
  next hc => exact hc.2
  next => cases hb

/-- Where a scan is after it has visited records. -/
theorem scanHolds_of_visited {h h' : HeapFileScan} {x y : Pin}
    {M : Page → PageRecord → Bytes → Bool → Prop} {L : List RID} {st : Status} {rid : RID} {k : Nat}
    (hm : HeapFileScan.Moves h h') (hx : HasHeader h.toHeapFile H x)
    (hyp : HasPage h'.toHeapFile H y) (hw : y.wrote = true → h'.curDirtyFlag = true)
    (hv : HeapFileScan.Visited H M L st rid h' k) :
    ScanHolds h.filePtr H (h', if st = .OK then some rid else none) (y ::ₘ x ::ₘ 0) := by
  obtain ⟨hk, pre, -, hcase⟩ := hv
  refine ⟨hm.filePtr, fun r hr => ?_, x, hm.hasHeader hx, Or.inr ⟨y, rfl, hyp, hw, k, hk⟩⟩
  split at hr
  next hst =>
    cases hr
    rcases hcase with ⟨-, hcur, hpg, ⟨b, -, hb, -⟩, -⟩ | ⟨hst', -⟩ | ⟨hst', -⟩
    · exact ⟨hcur, hpg, slotNo_nonneg hb⟩
    · rw [hst] at hst'
      cases hst'
    · rw [hst] at hst'
      cases hst'
  next => cases hr

/-- A scan that has lost its data page. -/
theorem scanHolds_of_lost {h h' : HeapFileScan} {x : Pin} {st : Status} {rid : RID}
    (hm : HeapFileScan.Moves h h') (hx : HasHeader h.toHeapFile H x) (hnull : h'.curPage = .null)
    (hst : st ≠ .OK) :
    ScanHolds h.filePtr H (h', if st = .OK then some rid else none) (x ::ₘ 0) := by
  refine ⟨hm.filePtr, fun r hr => ?_, x, hm.hasHeader hx, Or.inl ⟨rfl, hnull⟩⟩
  rw [if_neg hst] at hr
  cases hr

/-- `scanNext` does not change the file. -/
theorem Inv.scanNext {h h' : HeapFileScan} {o : Option RID} {fuel : Nat} {st : Status} {rid : RID}
    (hinv : Inv nm R v ⟨s, I, (h, o) ::ₘ S⟩ fv H)
    (hy : Yields (HeapFileScan.scanNext fuel h) s (st, rid, h') e s') :
    ∃ fv', Inv nm R v ⟨s', I, (h', if st = .OK then some rid else none) ::ₘ S⟩ fv' H := by
  obtain ⟨f, P, Q₁, hI, hS₁, hc⟩ := hinv.holds
  obtain ⟨Q₀, Q, ⟨rfl, -, x, hx, hcase⟩, hS, rfl⟩ := Multiset.rel_cons_left.mp hS₁
  dsimp only at hc hI
  have hH := hinv.heapAt
  have hh : (v.shared nm fv h.filePtr (Multiset.card I + Multiset.card S + 1)).handle nm =
      some (h.filePtr, _) := View.handle_shared_succ
  -- how the parts are put together again
  have build : ∀ (fv' : FileView) (Q₀ : Multiset Pin), HeapAt fv' H →
      ScanHolds h.filePtr H (h', if st = .OK then some rid else none) Q₀ →
      Coh s' (P.sum + ((Q₀ ::ₘ Q).sum + R))
        (v.shared nm fv' h.filePtr (Multiset.card I + Multiset.card S + 1)) →
      Inv nm R v ⟨s', I, (h', if st = .OK then some rid else none) ::ₘ S⟩ fv' H := by
    intro fv' Q₀ hH' hq hc'
    refine ⟨hinv.name, hH', hinv.others, h.filePtr, P, Q₀ ::ₘ Q, hI, Multiset.Rel.cons hq hS, ?_⟩
    dsimp only
    rw [card_scan]
    exact hc'
  rcases hcase with ⟨rfl, hnull⟩ | ⟨y, rfl, hyp, hw, k, hk⟩
  · rw [pins_lost, card_scan, ← View.setFile_shared_self] at hc
    obtain ⟨hm, hcase⟩ := (HeapFileScan.scanNext_lost fuel hc hh hH hx hnull
      (HeapFileScan.answers_any _ _ _ _) fun hf => hf.elim).1 _ e s' hy
    refine ⟨fv, ?_⟩
    rcases hcase with ⟨hn, hc', hst⟩ | ⟨-, ⟨y, hc', hyp, hw⟩, k, hv⟩
    · refine build fv (x ::ₘ 0) hH (scanHolds_of_lost hm hx hn ?_) ?_
      · rcases hst with ⟨-, hst, -⟩ | ⟨-, hst⟩
        · rw [show st = .BUFFEREXCEEDED from hst]
          decide
        · rw [show st = .FILEEOF from hst]
          decide
      · rw [pins_lost, ← View.setFile_shared_self]
        exact hc'
    · refine build fv (y ::ₘ x ::ₘ 0) hH (scanHolds_of_visited hm hx hyp hw hv) ?_
      rw [pins_scan, ← View.setFile_shared_self]
      exact hc'
  · rw [pins_scan, card_scan, ← View.setFile_shared_self] at hc
    obtain ⟨fv', hfor, hm, hcase⟩ := (HeapFileScan.scanNext_spec fuel ⟨y, hc, hyp, hw⟩ hh hH
      (HeapFileScan.answers_any _ _ _ _) hk fun hf => hf.elim).1 _ e s' hy
    refine ⟨fv', ?_⟩
    rcases hcase with ⟨-, hst, -, hn, hc'⟩ | ⟨-, ⟨y', hc', hyp', hw'⟩, k', hv⟩
    · rw [View.setFile_shared] at hc'
      refine build fv' (x ::ₘ 0) (hfor.heapAt hH) (scanHolds_of_lost hm hx hn ?_) ?_
      · rw [show st = .BUFFEREXCEEDED from hst]
        decide
      · rw [pins_lost]
        exact hc'
    · rw [View.setFile_shared] at hc'
      refine build fv' (y' ::ₘ x ::ₘ 0) (hfor.heapAt hH) (scanHolds_of_visited hm hx hyp' hw' hv) ?_
      rw [pins_scan]
      exact hc'

/-- What `deleteRecord` does to the records. Under a RID that is not in use, or that has an empty
record, nothing is deleted. -/
def Deleted (st : Status) (rid : RID) (H H' : Heap) : Prop :=
  H'.hdr = { H.hdr with recCnt := H.hdr.recCnt - 1 } ∧
  ((st = .OK ∧ ∃ b, H.rec? rid = some b ∧ b ≠ [] ∧ H'.rec? = Function.update H.rec? rid none) ∨
    (st = .INVALIDSLOTNO ∧ (H.rec? rid = none ∨ H.rec? rid = some []) ∧ H'.rec? = H.rec?))

/-- `deleteRecord` of a record that has been returned. -/
theorem Inv.delete {h h' : HeapFileScan} {o : Option RID} {st : Status}
    (hinv : Inv nm R v ⟨s, I, (h, o) ::ₘ S⟩ fv H)
    (hy : Yields (HeapFileScan.deleteRecord h) s (st, h') e s') (hpos : 0 ≤ h.curRec.slotNo) :
    ∃ fv' H', Inv nm R v ⟨s', I, (h', none) ::ₘ S⟩ fv' H' ∧
      Deleted st ⟨h.curPageNo, h.curRec.slotNo⟩ H H' := by
  obtain ⟨f, P, Q₁, hI, hS₁, hc⟩ := hinv.holds
  obtain ⟨Q₀, Q, ⟨rfl, -, x, hx, hcase⟩, hS, rfl⟩ := Multiset.rel_cons_left.mp hS₁
  dsimp only at hc hI
  have hH := hinv.heapAt
  have hh : (v.shared nm fv h.filePtr (Multiset.card I + Multiset.card S + 1)).handle nm =
      some (h.filePtr, _) := View.handle_shared_succ
  rcases hcase with ⟨-, hnull⟩ | ⟨y, rfl, hyp, hw, k, hk⟩
  · -- the call would follow a null pointer
    unfold HeapFileScan.deleteRecord at hy
    obtain ⟨_, _, _, _, hd, -, -⟩ := hy.of_bind
    rw [hnull] at hd
    cases hd
  rw [pins_scan, card_scan, ← View.setFile_shared_self] at hc
  obtain ⟨j, hj⟩ : ∃ j : Nat, h.curRec.slotNo = j := ⟨_, (Int.toNat_of_nonneg hpos).symm⟩
  -- how the parts are put together again
  have build : ∀ (s₁ : Sys) (fv' : FileView) (H' : Heap),
      let h₁ : HeapFileScan := { h with curDirtyFlag := true, hdrDirtyFlag := true }
      let x' : Pin := { x with wrote := true }
      HeapAt fv' H' → H.Le H' → HasHeader h₁.toHeapFile H' x' →
      HeapFileScan.Holds s₁ (P.sum + (Q.sum + R)) ((v.shared nm fv h.filePtr
        (Multiset.card I + Multiset.card S + 1)).setFile nm (some fv')) h₁ H' x' →
      Inv nm R v ⟨s₁, I, (h₁, none) ::ₘ S⟩ fv' H' := by
    rintro s₁ fv' H' h₁ x' hH' hle hx' ⟨y', hc', hyp', hw'⟩
    rw [View.setFile_shared] at hc'
    have hq : ScanHolds h.filePtr H' (h₁, none) (y' ::ₘ x' ::ₘ 0) :=
      ⟨rfl, nofun, x', hx', Or.inr ⟨y', rfl, hyp', hw', k, hk⟩⟩
    refine ⟨hinv.name, hH', hinv.others, h.filePtr, P, _ ::ₘ Q,
      hI.mono fun _ _ _ _ hi => hi.mono hle,
      Multiset.Rel.cons hq (hS.mono fun _ _ _ _ hq => hq.mono hle), ?_⟩
    dsimp only
    rw [pins_scan, card_scan]
    exact hc'
  by_cases hlive : H.rec? ⟨h.curPageNo, j⟩ = none ∨ H.rec? ⟨h.curPageNo, j⟩ = some []
  · obtain ⟨s₁, fv', hy', hd', hH', hx', -⟩ :=
      HeapFileScan.deleteRecord_invalid (c := ((Multiset.card I + Multiset.card S + 1 : Nat) : Int))
        ⟨y, hc, hyp, hw⟩ hh hH hx hj hlive
    obtain ⟨hr, -, rfl⟩ := hy'.unique hy
    cases hr
    refine ⟨fv', _, build _ _ _ hH' ⟨rfl, fun _ hp => hp⟩ hx' hd', rfl,
      Or.inr ⟨rfl, hj ▸ hlive, ?_⟩⟩
    -- the page has been assigned to itself
    rw [Heap.rec?_setRecCnt, Heap.setPage, Function.update_eq_self]
  · obtain ⟨hn, hn'⟩ := not_or.mp hlive
    obtain ⟨b, hb⟩ := Option.ne_none_iff_exists'.mp hn
    have hne : b ≠ [] := fun he => hn' (he ▸ hb)
    obtain ⟨s₁, fv', H', hy', hd', hH', hx', -, -, -, hno, hpg, hhdr, hrec⟩ :=
      HeapFileScan.deleteRecord_spec (c := ((Multiset.card I + Multiset.card S + 1 : Nat) : Int))
        ⟨y, hc, hyp, hw⟩ hh hH hx hj hb hne
    obtain ⟨hr, -, rfl⟩ := hy'.unique hy
    cases hr
    refine ⟨fv', H', build _ _ _ hH' ⟨hno, fun _ hp => hpg ▸ hp⟩ hx' hd', hhdr, Or.inl ⟨rfl, b, ?_,
      hne, ?_⟩⟩
    · rw [hj]
      exact hb
    · rw [hj]
      exact hrec

/-- `startScan` does not touch the file. -/
theorem Inv.startScan {h : HeapFileScan} {o : Option RID} {offset length : Int} {type : Datatype}
    {filter : Option CharPtr} {op : Operator} (hinv : Inv nm R v ⟨s, I, (h, o) ::ₘ S⟩ fv H) :
    Inv nm R v ⟨s, I, ((h.startScan offset length type filter op).2, o) ::ₘ S⟩ fv H := by
  obtain ⟨f, P, Q₁, hI, hS₁, hc⟩ := hinv.holds
  obtain ⟨Q₀, Q, hq, hS, rfl⟩ := Multiset.rel_cons_left.mp hS₁
  have hsame : (h.startScan offset length type filter op).2.toHeapFile = h.toHeapFile := by
    unfold HeapFileScan.startScan
    split
    · rfl
    · split <;> rfl
  refine ⟨hinv.name, hinv.heapAt, hinv.others, f, P, Q₀ ::ₘ Q, hI, Multiset.Rel.cons ?_ hS, ?_⟩
  · unfold ScanHolds at hq ⊢
    dsimp only at hq ⊢
    rw [hsame]
    exact hq
  · dsimp only at hc ⊢
    rw [card_scan] at hc ⊢
    exact hc

/-- The destructor of `HeapFileScan`. -/
theorem Inv.closeScan {h : HeapFileScan} {o : Option RID}
    (hinv : Inv nm R v ⟨s, I, (h, o) ::ₘ S⟩ fv H)
    (hy : Yields (HeapFileScan.delete h) s () e s') : ∃ fv', Inv nm R v ⟨s', I, S⟩ fv' H := by
  obtain ⟨f, P, Q₁, hI, hS₁, hc⟩ := hinv.holds
  obtain ⟨Q₀, Q, ⟨rfl, -, x, hx, hcase⟩, hS, rfl⟩ := Multiset.rel_cons_left.mp hS₁
  dsimp only at hc hI
  have hh : (v.shared nm fv h.filePtr (Multiset.card I + Multiset.card S + 1)).handle nm =
      some (h.filePtr, _) := View.handle_shared_succ
  -- if this is the only object, the pins that are left are on other files
  have hlast : ∀ {T : Multiset Pin}, Coh s T
      (v.shared nm fv h.filePtr (Multiset.card I + Multiset.card S + 1)) →
      ((Multiset.card I + Multiset.card S + 1 : Nat) : Int) = 1 →
      ∀ z ∈ P.sum + (Q.sum + R), z.file ≠ h.filePtr := by
    intro T hcT hn
    have hI0 : I = 0 := Multiset.card_eq_zero.mp (by omega)
    have hS0 : S = 0 := Multiset.card_eq_zero.mp (by omega)
    subst hI0 hS0
    rw [Multiset.rel_zero_left] at hI hS
    subst hI hS
    rw [Multiset.sum_zero, zero_add, zero_add]
    exact hinv.file_ne hcT
  rcases hcase with ⟨rfl, hnull⟩ | ⟨y, rfl, hyp, hw, -⟩
  · rw [pins_lost, card_scan] at hc
    obtain ⟨s'', fv', hy', hc', hfor⟩ := delete_scan_null hc hh View.file_shared hx hnull
      (by omega) (hlast hc)
    obtain ⟨-, -, rfl⟩ := hy.unique hy'
    rw [View.setFile_shared, View.close_shared] at hc'
    exact ⟨fv', hinv.name, hfor.heapAt hinv.heapAt, hinv.others, h.filePtr, P, Q, hI, hS, hc'⟩
  · rw [pins_scan, card_scan] at hc
    obtain ⟨s'', fv', hy', hc', hfor⟩ := delete_scan hc hh View.file_shared hx hyp hw
      (by omega) (hlast hc)
    obtain ⟨-, -, rfl⟩ := hy.unique hy'
    rw [View.setFile_shared, View.close_shared] at hc'
    exact ⟨fv', hinv.name, hfor.heapAt hinv.heapAt, hinv.others, h.filePtr, P, Q, hI, hS, hc'⟩

/-! ## Runs -/

/-- A call is safe if no page would be linked behind another page than the last one, and if the
slot number of the cursor of a deletion is not negative. -/
def Safe (nm : FileName) (w : Clients) : Call → Prop
  | .insert h rec _ _ => 0 ≤ rec.length → rec.length ≤ DATASIZE → rec.Readable ∧
      ∀ H, w.sys.heap? nm = some H →
        rec.length + 4 ≤ (H.page h.curPageNo).freeSpace ∨ h.curPageNo = H.hdr.lastPage
  | .delete h _ _ => 0 ≤ h.curRec.slotNo
  | _ => True

/-- What a call does to the file. -/
def Effect (H H' : Heap) : Call → Prop
  | .insert _ rec st rid => Added st rid rec.bytes H H'
  | .delete h _ st => Deleted st ⟨h.curPageNo, h.curRec.slotNo⟩ H H'
  | _ => H' = H

/-- Every object that inserts records is on the last page. -/
def OnLast (w : Clients) (H : Heap) : Prop := ∀ h ∈ w.inserts, h.curPageNo = H.hdr.lastPage

/-- What an insertion has to know of the page of the object. -/
theorem Inv.room {w : Clients} (hinv : Inv nm R v w fv H) {h : InsertFileScan} {rec : Record}
    (hmem : h ∈ w.inserts)
    (hroom : ∀ H', w.sys.heap? nm = some H' →
      rec.length + 4 ≤ (H'.page h.curPageNo).freeSpace ∨ h.curPageNo = H'.hdr.lastPage) :
    rec.length + 4 ≤ (H.page h.curPageNo).freeSpace ∨ h.curPageNo = H.hdr.lastPage := by
  obtain ⟨H', hH', hsame⟩ := hinv.heap?
  obtain ⟨f, P, Q, hI, -, -⟩ := hinv.holds
  obtain ⟨I, hI'⟩ := Multiset.exists_cons_of_mem hmem
  rw [hI'] at hI
  obtain ⟨P₀, -, ⟨-, x, y, -, -, hyp⟩, -, -⟩ := Multiset.rel_cons_left.mp hI
  have := hroom H' hH'
  rw [hsame.hdr, hsame.page _ hyp.mem] at this
  exact this

/-- The record that has just been returned is the one under the cursor. -/
theorem Inv.just {h : HeapFileScan} {rid : RID}
    (hinv : Inv nm R v ⟨s, I, (h, some rid) ::ₘ S⟩ fv H) :
    (⟨h.curPageNo, h.curRec.slotNo⟩ : RID) = rid ∧ 0 ≤ h.curRec.slotNo := by
  obtain ⟨f, P, Q, -, hS, -⟩ := hinv.holds
  obtain ⟨Q₀, -, ⟨-, hj, -⟩, -, -⟩ := Multiset.rel_cons_left.mp hS
  obtain ⟨hcur, hpg, hpos⟩ := hj rid rfl
  dsimp only at hcur hpg
  rw [hcur, ← hpg]
  exact ⟨rfl, hpos⟩

/-- A safe call keeps the file a heap file. An object that inserts records stays on the last page
if it is the only one. -/
theorem Inv.step {w w' : Clients} {c : Call} (hinv : Inv nm R v w fv H) (hstep : Step nm w c e w')
    (hsafe : Safe nm w c) :
    ∃ fv' H', Inv nm R v w' fv' H' ∧ Effect H H' c ∧
      (Multiset.card w.inserts ≤ 1 → OnLast w H → OnLast w' H') := by
  cases hstep with
  | openInsert hy =>
    obtain ⟨hinv', hlast⟩ := hinv.openInsert hy
    refine ⟨fv, H, hinv', rfl, fun _ hon h hh => ?_⟩
    rcases Multiset.mem_cons.mp hh with rfl | hh
    · exact hlast
    · exact hon h hh
  | @insert s s' I S h h' rec st rid e hy =>
    obtain ⟨fv', H', hinv', hadd, hlast, -⟩ := hinv.insert hy fun h₀ h₁ =>
      ⟨(hsafe h₀ h₁).1, hinv.room (Multiset.mem_cons_self h I) (hsafe h₀ h₁).2⟩
    refine ⟨fv', H', hinv', hadd, fun hcard hon g hg => ?_⟩
    have hI : I = 0 := by
      rw [← Multiset.card_eq_zero]
      dsimp only at hcard
      rw [Multiset.card_cons] at hcard
      omega
    rw [hI] at hg
    rw [Multiset.mem_singleton.mp hg]
    exact hlast (hon h (Multiset.mem_cons_self h I))
  | closeInsert hy =>
    obtain ⟨fv', hinv'⟩ := hinv.closeInsert hy
    exact ⟨fv', H, hinv', rfl, fun _ hon h hh => hon h (Multiset.mem_cons_of_mem hh)⟩
  | openScan hy => exact ⟨fv, H, hinv.openScan hy, rfl, fun _ hon => hon⟩
  | startScan => exact ⟨fv, H, hinv.startScan, rfl, fun _ hon => hon⟩
  | scanNext hy =>
    obtain ⟨fv', hinv'⟩ := hinv.scanNext hy
    exact ⟨fv', H, hinv', rfl, fun _ hon => hon⟩
  | delete hy =>
    obtain ⟨fv', H', hinv', hdel⟩ := hinv.delete hy hsafe
    refine ⟨fv', H', hinv', hdel, fun _ hon h hh => ?_⟩
    rw [hdel.1]
    exact hon h hh
  | closeScan hy =>
    obtain ⟨fv', hinv'⟩ := hinv.closeScan hy
    exact ⟨fv', H, hinv', rfl, fun _ hon => hon⟩

/-- The invariant holds before any object has been constructed. -/
theorem Inv.start {P : Multiset Pin} (hnm : nm ≠ []) (hc : Coh s P v) (hf : v.file nm = some fv)
    (hH : HeapAt fv H) (hh : v.handle nm = none) : Inv nm P v ⟨s, 0, 0⟩ fv H := by
  refine ⟨hnm, hH, fun z hz => ?_, 0, 0, 0, Multiset.Rel.zero, Multiset.Rel.zero, ?_⟩
  · obtain ⟨nm', c, fv', h₁, -, -⟩ := hc.cached _ _ _ (hc.pins z hz)
    refine ⟨nm', c, ?_, h₁⟩
    rintro rfl
    rw [hh] at h₁
    cases h₁
  · have hv : v.shared nm fv 0 0 = v := by
      unfold View.shared
      rw [if_pos rfl, View.setFile_self hf, View.setHandle_self hh]
    show Coh s (0 + (0 + P)) (v.shared nm fv 0 0)
    rw [hv, zero_add, zero_add]
    exact hc

end Clients

end Minirel
