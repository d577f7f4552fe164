import Minirel.HeapFile.Stream

/-!
# The lengths that `insertRecord` accepts

A record fits on an empty page if there is room for it and for its slot. `insertRecord` compares the
length with the size of the data part of a page, where the slot has no room any more, and it accepts
a record without bytes, which takes a slot that `getRecord` does not accept.

## Main definitions

* `Decides`: `insertRecord` stores a record that fits on an empty page, and refuses any other one.

## Main results

* `decides_iff`: the lengths for which it does.
-/

namespace Minirel

open Comp HeapFile

/-- A record of the length fits on an empty page, along with its slot. -/
def FitsEmpty (length : Int) : Prop := 1 ≤ length ∧ length + SLOTSIZE ≤ DATASIZE

instance (length : Int) : Decidable (FitsEmpty length) := inferInstanceAs (Decidable (_ ∧ _))

/-- The record is stored: `getRecord` returns it under the RID, and so does a scan of the file. -/
def Accepts (nm : FileName) (h : InsertFileScan) (rec : Record) (s : Sys) : Prop :=
  ∃ rid h' s', Yields (InsertFileScan.insertRecord h rec) s (.OK, rid, h') false s' ∧
    Clean (2 ≤ s'.freeFrames) (fetch nm rid) s' (fun r _ => r = (.OK, rec.bytes)) ∧
    ∃ N, ∀ fuel, Clean (2 ≤ s'.freeFrames ∧ N ≤ fuel) (fullScan nm fuel) s' fun r _ =>
      r.1 = .FILEEOF ∧ (rid, rec.bytes) ∈ r.2

/-- The length is refused, and the chain, the header and the size of the file stay as they are. -/
def Refuses (nm : FileName) (h : InsertFileScan) (rec : Record) (s : Sys) : Prop :=
  ∃ rid h' s', Yields (InsertFileScan.insertRecord h rec) s (.INVALIDRECLEN, rid, h') false s' ∧
    s'.heap? nm = s.heap? nm ∧ (s'.unix nm).map UnixFile.size = (s.unix nm).map UnixFile.size

/-- Exactly the records that fit on an empty page are stored. -/
def Decides (nm : FileName) (h : InsertFileScan) (rec : Record) (s : Sys) : Prop :=
  if FitsEmpty rec.length then Accepts nm h rec s else Refuses nm h rec s

/-- The object has its header page pinned, and the last page of the file. -/
structure AtEnd (s : Sys) (R : Multiset Pin) (v : View) (nm : FileName) (fv : FileView) (H : Heap)
    (h : InsertFileScan) : Prop where
  heap : IsHeap v nm fv H
  last : h.curPageNo = H.hdr.lastPage
  holds : ∃ x y c, Coh s (y ::ₘ x ::ₘ R) v ∧ v.handle nm = some (h.filePtr, c) ∧
    HasHeader h H x ∧ HasPage h H y

section Lengths

variable {T : Prop} {s : Sys} {P R : Multiset Pin} {v : View} {nm : FileName} {fv : FileView}
  {H : Heap} {h : InsertFileScan} {rec : Record}

/-- An object that has just been constructed is on the last page. -/
theorem new_atEnd (hc : Coh s P v) (hH : IsHeap v nm fv H) (hT : T → 2 ≤ freeFrames v.numBufs P) :
    Clean T (InsertFileScan.new nm) s fun r s' => r.1 = .OK ∧
      ∃ v', v'.numBufs = v.numBufs ∧ AtEnd s' P v' nm fv H r.2 := by
  refine (new_insert hc hH.name hH.file hH.heapAt hH.opened hT).mono ?_
  rintro ⟨st, h⟩ s' ⟨f, n, m, hr, -, hc'⟩
  cases hr
  refine ⟨rfl, v.setHandle nm (some (f, v.openCnt nm + 1)), rfl, ?_, rfl,
    ⟨f, H.hdrNo, n, false⟩, ⟨f, H.hdr.lastPage, m, false⟩, v.openCnt nm + 1, hc',
    View.handle_setHandle_self, ⟨rfl, rfl, rfl, rfl, nofun⟩, ⟨rfl, rfl, rfl, hH.heapAt.last_mem⟩⟩
  refine ⟨hH.name, hH.file, hH.heapAt, hH.sized, fun f' c' hf' => ?_⟩
  rw [View.handle_setHandle_self] at hf'
  cases hf'
  have := hH.openCnt_nonneg
  omega

/-- What the status is, and what becomes of the file if the record is accepted. -/
theorem AtEnd.insert (hs : AtEnd s R v nm fv H h) (hfree : ¬s.buf.Full) (hread : rec.Readable)
    (h₀ : 0 ≤ rec.length) (h₁ : rec.length ≤ DATASIZE) :
    ∃ rid h' s' fv' H' R', Yields (InsertFileScan.insertRecord h rec) s
        (if rec.length ≤ 1000 then .OK else .NOSPACE, rid, h') false s' ∧
      Coh s' R' (v.setFile nm (some fv')) ∧ HeapAt fv' H' ∧
      (rec.length ≤ 1000 → H'.rec? = Function.update H.rec? rid (some rec.bytes)) := by
  obtain ⟨x, y, c, hc, hh, hx, hy⟩ := hs.holds
  have hspec := insertRecord_spec (T := True) hc hh hs.heap.file hs.heap.heapAt hx hy
    fun (_ : 0 ≤ rec.length) _ => ⟨hread, Or.inr hs.last⟩
  obtain ⟨⟨st, rid, h'⟩, e, s', hyield⟩ := hspec.2 trivial
  obtain ⟨x', y', fv', H', hc', hg, hadd, hfull, hst⟩ := hspec.1 _ e s' hyield
  -- there is a frame for a page that has to be added
  obtain rfl : e = false := by
    cases e with
    | false => rfl
    | true => exact absurd (hfull rfl) hfree
  have hst := hst rfl h₀ h₁
  dsimp only at hst hadd
  subst hst
  refine ⟨rid, h', s', fv', H', _, hyield, hc', hg.heapAt, fun hle => ?_⟩
  rcases hadd with ⟨-, -, hrec, -⟩ | ⟨hne, -⟩
  · exact hrec
  · exact absurd (if_pos hle) hne

/-- A record that fits on an empty page is stored. -/
theorem AtEnd.accepts (hs : AtEnd s R v nm fv H h) (hfree : ¬s.buf.Full) (hread : rec.Readable)
    (hfit : FitsEmpty rec.length) : Accepts nm h rec s := by
  obtain ⟨hpos, hle⟩ := hfit
  unfold SLOTSIZE DATASIZE at hle
  obtain ⟨rid, h', s', fv', H', R', hy, hc', hH', hrec⟩ :=
    hs.insert hfree hread (by omega) (by unfold DATASIZE; omega)
  have hlen : rec.length ≤ 1000 := by omega
  rw [if_pos hlen] at hy
  have hrec := hrec hlen
  have hne : rec.bytes ≠ [] := Record.bytes_ne_nil hread hpos
  have hb : H'.rec? rid = some rec.bytes := by
    rw [hrec, Function.update_self]
  refine ⟨rid, h', s', hy, ?_, H'.rids.length + H'.pages.length + 1, fun fuel => ?_⟩
  · exact fetch_spec hc' hs.heap.name View.file_setFile_self hH' hs.heap.opened
      (fun ht => hc'.freeFrames_eq ▸ ht) hb hne
  · refine (fullScan_spec fuel hc' hs.heap.name View.file_setFile_self hH'
      (hs.heap.sized.insert hne hrec) hs.heap.opened
      fun ht => ⟨hc'.freeFrames_eq ▸ ht.1, ht.2⟩).mono ?_
    rintro r s'' rfl
    exact ⟨rfl, (Heap.mem_records hH').mpr hb⟩

/-- A length out of the range of the first test is refused. -/
theorem refuses_of_range (hlen : rec.length < 0 ∨ rec.length > DATASIZE) : Refuses nm h rec s := by
  refine ⟨NULLRID, h, s, ?_, rfl, rfl⟩
  unfold InsertFileScan.insertRecord
  rw [if_pos hlen]
  rfl

/-- `insertRecord` accepts what fits and refuses the rest exactly if the length is neither `0` nor
one of the four that the data part of a page has room for, but not with a slot. -/
theorem decides_iff (hs : AtEnd s R v nm fv H h) (hfree : ¬s.buf.Full)
    (hread : rec.length ≤ rec.data.length) :
    Decides nm h rec s ↔ rec.length ≠ 0 ∧ ¬(1001 ≤ rec.length ∧ rec.length ≤ 1004) := by
  unfold Decides
  by_cases hfit : FitsEmpty rec.length
  · rw [if_pos hfit]
    refine iff_of_true (hs.accepts hfree ⟨by have := hfit.1; omega, hread⟩ hfit) ?_
    obtain ⟨h₁, h₂⟩ := hfit
    unfold SLOTSIZE DATASIZE at h₂
    omega
  rw [if_neg hfit]
  unfold FitsEmpty SLOTSIZE DATASIZE at hfit
  by_cases hlen : rec.length < 0 ∨ rec.length > DATASIZE
  · refine iff_of_true (refuses_of_range hlen) ?_
    unfold DATASIZE at hlen
    omega
  -- the test is passed, and the record is inserted or does not go on the new page either
  unfold DATASIZE at hlen
  refine iff_of_false ?_ (by omega)
  rintro ⟨rid, h', s', hy, -⟩
  obtain ⟨_, _, _, _, _, _, hy', -⟩ :=
    hs.insert hfree ⟨by omega, hread⟩ (by omega) (by unfold DATASIZE; omega)
  have hst := congrArg Prod.fst (hy'.unique hy).1
  dsimp only at hst
  split at hst <;> cases hst

/-- A record of three bytes is stored on a file with one record. -/
theorem decides_iff_three : ∃ s h, Decides [82] h ⟨[4, 5, 6], 3⟩ s := by
  obtain ⟨s, v, fv, H, hc, hf, hh, hH, hsized, -, hfree, -⟩ := exists_oneRecord
  have hheap : IsHeap v [82] fv H := ⟨nofun, hf, hH, hsized, fun f c he => by
    rw [hh] at he
    cases he⟩
  rw [hc.freeFrames_eq] at hfree
  have hnew : Clean True (InsertFileScan.new [82]) s _ := new_atEnd hc hheap fun _ => by
    rw [hfree]
    decide
  obtain ⟨⟨st, h⟩, s', -, -, v', hv', hs⟩ := hnew.exists trivial
  refine ⟨s', h, (decides_iff hs (fun hfull => ?_) (by decide)).mpr (by decide)⟩
  -- two of the four frames are left
  obtain ⟨x, y, c, hc', -⟩ := hs.holds
  have h₀ := hc'.freeFrames_eq_zero hfull
  have h₁ := freeFrames_cons v'.numBufs y (x ::ₘ 0)
  have h₂ := freeFrames_cons v'.numBufs x 0
  rw [hv'] at h₀ h₁ h₂
  omega

/-- Make a heap file and insert a record without bytes. -/
def insertEmpty : M (List Status) := do
  let st ← createHeapFile [82]
  let (st₁, h) ← InsertFileScan.new [82]
  let (st₂, _, _) ← InsertFileScan.insertRecord h ⟨[], 0⟩
  return [st, st₁, st₂]

/-- A record without bytes is stored. -/
theorem not_decides_empty : ∃ s₀ s₁ h, Yields (createHeapFile [82]) (Sys.blank 3) .OK false s₀ ∧
    Yields (InsertFileScan.new [82]) s₀ (.OK, h) false s₁ ∧ ¬Decides [82] h ⟨[], 0⟩ s₁ := by
  obtain ⟨r, e, s, hy, hv⟩ := exists_of_eval (s := Sys.blank 3)
    (x := insertEmpty)
    (g := fun r e _ => (r, e)) (v := ([.OK, .OK, .OK], false)) (by decide +kernel)
  obtain ⟨st, e₀, s₀, _, hy₀, k₀, rfl⟩ := hy.of_bind
  obtain ⟨⟨st₁, h⟩, e₁, s₁, _, hy₁, k₁, rfl⟩ := k₀.of_bind
  obtain ⟨⟨st₂, rid, h'⟩, e₂, s₂, _, hy₂, k₂, rfl⟩ := k₁.of_bind
  obtain ⟨rfl, rfl, -⟩ := yields_pure.mp k₂
  simp only [Prod.mk.injEq, List.cons.injEq, and_true, Bool.or_eq_false_iff] at hv
  obtain ⟨⟨rfl, rfl, rfl⟩, rfl, rfl, rfl, -⟩ := hv
  refine ⟨s₀, s₁, h, hy₀, hy₁, ?_⟩
  unfold Decides
  rw [if_neg (by decide)]
  rintro ⟨rid', h'', s', hy', -⟩
  have hst := congrArg Prod.fst (hy₂.unique hy').1
  cases hst

end Lengths

end Minirel
