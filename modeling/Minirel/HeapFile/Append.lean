import Minirel.HeapFile.Stream

/-!
# Appending records

What a client of an `InsertFileScan` works with, as long as nobody else changes the file: the object
is on the last page, and each record that `insertRecord` accepts is one more record of the file.

## Main definitions

* `Appends`: an object on the last page of its file.
* `Heap.Grows`: what does not change when records are added.

## Main results

* `new_appends`, `Appends.insert`, `Appends.close`: one call each.
-/

namespace Minirel

open Comp HeapFile

/-! ## Files that grow -/

/-- Records have been added to the file: its chain has all the pages that it had, and nothing has
been written back to the header page. -/
structure Heap.Grows (fv fv' : FileView) (H H' : Heap) : Prop where
  le : H.Le H'
  hdrKept : fv'.kept H.hdrNo = fv.kept H.hdrNo
  /-- What has been added is behind all that there was, if no slot was free below it. -/
  ordered : H.Packed → H'.Packed ∧ H.rids <+: H'.rids

namespace Heap.Grows

variable {fv fv₁ fv₂ : FileView} {H H₁ H₂ : Heap}

theorem refl (fv : FileView) (H : Heap) : Heap.Grows fv fv H H :=
  ⟨Heap.Le.refl H, rfl, fun hpacked => ⟨hpacked, List.prefix_refl _⟩⟩

theorem trans (h : Heap.Grows fv fv₁ H H₁) (h' : Heap.Grows fv₁ fv₂ H₁ H₂) :
    Heap.Grows fv fv₂ H H₂ := by
  refine ⟨h.le.trans h'.le, ?_, fun hpacked => ?_⟩
  · rw [← h.hdrKept, ← h.le.1]
    exact h'.hdrKept
  · obtain ⟨hpacked₁, hrids₁⟩ := h.ordered hpacked
    obtain ⟨hpacked₂, hrids₂⟩ := h'.ordered hpacked₁
    exact ⟨hpacked₂, hrids₁.trans hrids₂⟩

end Heap.Grows

/-- A record that has been inserted is one more row. -/
theorem HeapFile.Added.rows {fv fv' : FileView} {H H' : Heap} {rid : RID} {b : Bytes}
    (h : Added .OK rid b H H') (hH : HeapAt fv H) (hH' : HeapAt fv' H') :
    H'.rows = b ::ₘ H.rows := by
  obtain ⟨-, hnone, hrec, -⟩ | ⟨hne, -⟩ := h
  · exact Heap.rows_insert hH hH' hnone hrec
  · exact absurd rfl hne

section Contents

variable {fv fv' : FileView} {H H' : Heap} {rid : RID} {b : Bytes} {st : Status}

/-- A record with the last RID is the last of the file. -/
theorem HeapFile.Added.contents_ok (h : Added .OK rid b H H') (hH : HeapAt fv H)
    (hH' : HeapAt fv' H') (hpre : H.rids <+: H'.rids) : H'.contents = H.contents ++ [b] := by
  obtain ⟨-, hnone, hrec, -⟩ | ⟨hne, -⟩ := h
  swap
  · exact absurd rfl hne
  have hold : rid ∉ H.rids := fun hmem => hH.mem_rids.mp hmem hnone
  obtain ⟨l, hl⟩ := hpre
  obtain rfl : l = [rid] := by
    have hlen := hH.length_rids_insert hH' hnone hrec
    rw [← hl, List.length_append, Nat.add_left_cancel_iff] at hlen
    obtain ⟨r, rfl⟩ := List.length_eq_one_iff.mp hlen
    have hmem : rid ∈ H'.rids := hH'.mem_rids.mpr (by simp [hrec])
    rw [← hl, List.mem_append, List.mem_singleton] at hmem
    rw [hmem.resolve_left hold]
  rw [Heap.contents_eq, Heap.contents_eq, ← hl, List.filterMap_append, hrec]
  congr 1
  · refine List.filterMap_congr fun r hr => Function.update_of_ne ?_ _ _
    rintro rfl
    exact hold hr
  · simp

/-- A record that has been refused leaves the file as it was. -/
theorem HeapFile.Added.contents_refused (h : Added st rid b H H') (hst : st ≠ .OK)
    (hH : HeapAt fv H) (hH' : HeapAt fv' H') (hpre : H.rids <+: H'.rids) :
    H'.contents = H.contents := by
  obtain ⟨hok, -⟩ | ⟨-, hrec, -⟩ := h
  · exact absurd hok hst
  have hperm : H'.rids.Perm H.rids := by
    rw [List.perm_ext_iff_of_nodup hH'.nodup_rids hH.nodup_rids]
    intro r
    rw [hH'.mem_rids, hH.mem_rids, hrec]
  rw [Heap.contents_eq, Heap.contents_eq, hrec, hpre.eq_of_length hperm.length_eq.symm]

/-- The records of the file `nm`, in the order of a scan. -/
def Sys.contents? (s : Sys) (nm : FileName) : Option (List Bytes) := (s.heap? nm).map Heap.contents

/-- They are those of the heap file that the client sees. -/
theorem IsHeap.contents? {s : Sys} {P : Multiset Pin} {v : View} {nm : FileName}
    (h : IsHeap v nm fv H) (hc : Coh s P v) : s.contents? nm = some H.contents := by
  obtain ⟨H', hH', hsame⟩ := hc.heap? h.file h.heapAt
  have hcontents : H'.contents = H.contents := by
    rw [Heap.contents_eq, Heap.contents_eq, hsame.rids, hsame.rec?]
  rw [Sys.contents?, hH', Option.map_some, hcontents]

end Contents

/-! ## Objects on the last page -/

namespace InsertFileScan

/-- An object on the last page of the file, with the pin `x` on the header page and `y` on that
page; the pins `R` are those of others. -/
structure Appends (R : Multiset Pin) (v : View) (nm : FileName) (c : Int) (s : Sys)
    (h : InsertFileScan) (fv : FileView) (H : Heap) (x y : Pin) : Prop where
  coh : Coh s (y ::ₘ x ::ₘ R) (v.setFile nm (some fv))
  handle : v.handle nm = some (h.filePtr, c)
  heapAt : HeapAt fv H
  header : HasHeader h H x
  page : HasPage h H y
  last : h.curPageNo = H.hdr.lastPage

/-- The status of an insertion if no call of the buffer manager fails. -/
def insertStatus (length : Int) : Status :=
  if length < 0 ∨ length > DATASIZE then .INVALIDRECLEN
  else if length ≤ 1000 then .OK else .NOSPACE

theorem insertStatus_of_le {length : Int} (h₀ : 0 ≤ length) (h₁ : length ≤ 1000) :
    insertStatus length = .OK := by
  unfold insertStatus DATASIZE
  rw [if_neg (by omega), if_pos h₁]

section Appends

variable {T : Prop} {s : Sys} {P R : Multiset Pin} {v : View} {nm : FileName} {c : Int}
  {fv : FileView} {H : Heap} {h : InsertFileScan} {x y : Pin} {rec : Record}

/-- Two pins take two frames at most. -/
theorem freeFrames_cons_cons (N : Nat) (x y : Pin) (P : Multiset Pin) :
    freeFrames N P ≤ freeFrames N (y ::ₘ x ::ₘ P) + 2 := by
  have h₁ := freeFrames_cons N x P
  have h₂ := freeFrames_cons N y (x ::ₘ P)
  omega

/-- The constructor reads the last page. -/
theorem new_appends (hc : Coh s P v) (hH : IsHeap v nm fv H) (hT : T → 2 ≤ freeFrames v.numBufs P) :
    Clean T (InsertFileScan.new nm) s fun r s' => r.1 = .OK ∧ ∃ x y,
      (∀ f c, v.handle nm = some (f, c) → r.2.filePtr = f) ∧
      Appends P (v.setHandle nm (some (r.2.filePtr, v.openCnt nm + 1))) nm
        (v.openCnt nm + 1) s' r.2 fv H
        x y := by
  refine (new_insert hc hH.name hH.file hH.heapAt hH.opened hT).mono ?_
  rintro ⟨st, h⟩ s' ⟨f, n, m, hr, hsame, hc'⟩
  cases hr
  have hf : (v.setHandle nm (some (f, v.openCnt nm + 1))).file nm = some fv := hH.file
  refine ⟨rfl, ⟨f, H.hdrNo, n, false⟩, ⟨f, H.hdr.lastPage, m, false⟩, hsame, ?_,
    View.handle_setHandle_self, hH.heapAt, ⟨rfl, rfl, rfl, rfl, nofun⟩,
    ⟨rfl, rfl, rfl, hH.heapAt.last_mem⟩, rfl⟩
  show Coh s' _ ((v.setHandle nm (some (f, v.openCnt nm + 1))).setFile nm (some fv))
  rw [View.setFile_self hf]
  exact hc'

/-- `insertRecord` adds the record, unless its length is refused. -/
theorem Appends.insert (hs : Appends R v nm c s h fv H x y)
    (hread : 0 ≤ rec.length → rec.length ≤ DATASIZE → rec.Readable)
    (hT : T → 0 < freeFrames v.numBufs (y ::ₘ x ::ₘ R)) :
    Clean T (InsertFileScan.insertRecord h rec) s fun r s' => r.1 = insertStatus rec.length ∧
      ∃ x' y' fv' H', Appends R v nm c s' r.2.2 fv' H' x' y' ∧ Heap.Grows fv fv' H H' ∧
        Added r.1 r.2.1 rec.bytes H H' := by
  by_cases hrange : rec.length < 0 ∨ rec.length > DATASIZE
  · unfold InsertFileScan.insertRecord insertStatus
    rw [if_pos hrange, if_pos hrange, clean_pure]
    exact ⟨rfl, x, y, fv, H, hs, .refl fv H, Or.inr ⟨nofun, rfl, rfl⟩⟩
  have hspec := insertRecord_spec (T := T) hs.coh hs.handle View.file_setFile_self
    hs.heapAt hs.header
    hs.page fun h₀ h₁ => ⟨hread h₀ h₁, Or.inr hs.last⟩
  refine Runs.mono hspec ?_
  rintro ⟨st, rid, h'⟩ e s' ⟨x', y', fv', H', hc', hg, hadd, hfull, hst⟩
  refine ⟨fun ht => ?_, fun he => ⟨?_, x', y', fv', H', ?_, ⟨hg.le, ?_, hg.ordered hs.last⟩, hadd⟩⟩
  · rw [← Bool.not_eq_true]
    intro he
    exact absurd (hs.coh.freeFrames_eq_zero (hfull he)) (Nat.ne_of_gt (hT ht))
  · rw [insertStatus, if_neg hrange]
    exact hst he (by omega) (by omega)
  · rw [View.setFile_setFile] at hc'
    have hhandle := hs.handle
    rw [← hg.filePtr] at hhandle
    exact ⟨hc', hhandle, hg.heapAt, hg.header, hg.page, hg.atLast hs.last⟩
  · -- the header page is not a data page
    refine hg.kept _ hs.heapAt.hdr_alloc fun he => ?_
    exact hs.heapAt.hdr_not_mem (he ▸ hs.page.mem)

/-- The destructor closes the file. -/
theorem Appends.close (hs : Appends R v nm c s h fv H x y) (hpos : 0 < c)
    (hlast : c = 1 → ∀ z ∈ R, z.file ≠ h.filePtr) :
    ∃ s' fv', Yields (InsertFileScan.delete h) s () false s' ∧ HeapAt fv' H ∧
      Coh s' R ((v.setFile nm (some fv')).setHandle nm (closed h.filePtr c)) := by
  obtain ⟨s', fv', hy, hc, hfor⟩ :=
    delete_insert hs.coh hs.handle View.file_setFile_self hs.header hs.page
    hpos hlast
  rw [View.setFile_setFile] at hc
  exact ⟨s', fv', hy, hfor.heapAt hs.heapAt, hc⟩

end Appends

end InsertFileScan

end Minirel
