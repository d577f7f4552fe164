import Minirel.HeapFile.Objects
import Minirel.HeapFile.Order

/-!
# Inserting records

`InsertFileScan::insertRecord` puts a record on the page it has pinned, or on a page that it links
to the end of the chain if the record does not fit. The file stays well formed as long as a page
is only linked behind the last one.

## Main results

* `insertCurrent_fits`: a record that fits on the current page.
* `overflow_link`: a new page at the end of the chain.
* `insertRecord_spec`: what a call of `insertRecord` does, whatever it returns.
-/

namespace Minirel

open Comp

namespace HeapFile

/-- How an insertion changes the object and the file. -/
structure Grown (h h' : HeapFile) (x' y' : Pin) (fv fv' : FileView) (H H' : Heap) : Prop where
  heapAt : HeapAt fv' H'
  /-- No page leaves the chain. -/
  le : H.Le H'
  filePtr : h'.filePtr = h.filePtr
  header : HasHeader h' H' x'
  page : HasPage h' H' y'
  /-- No page is disposed of. -/
  alloc : ∀ {p}, fv.alloc p → fv'.alloc p
  /-- Only the page that the object had pinned may have been given back. -/
  kept : ∀ p, fv.alloc p → p ≠ h.curPageNo → fv'.kept p = fv.kept p
  /-- An object on the last page stays on the last page. -/
  atLast : h.curPageNo = H.hdr.lastPage → h'.curPageNo = H'.hdr.lastPage
  /-- An object on the last page adds behind all records, if no slot is free below them. -/
  ordered : h.curPageNo = H.hdr.lastPage → H.Packed → H'.Packed ∧ H.rids <+: H'.rids

/-- What becomes of the records: with status `OK` there is one more under the returned RID, which
was not in use, and with any other status they are the same. -/
def Added (st : Status) (rid : RID) (b : Bytes) (H H' : Heap) : Prop :=
  (st = .OK ∧ H.rec? rid = none ∧ H'.rec? = Function.update H.rec? rid (some b) ∧
    H'.hdr.recCnt = H.hdr.recCnt + 1) ∨
  (st ≠ .OK ∧ H'.rec? = H.rec? ∧ H'.hdr.recCnt = H.hdr.recCnt)

variable {T : Prop} {s : Sys} {R : Multiset Pin} {v : View} {nm : FileName} {c : Int}
  {fv : FileView} {H : Heap} {h : HeapFile} {x y : Pin} {rec : Record}

/-- The exact record count survives an insertion. -/
theorem Added.counted {fv' : FileView} {H' : Heap} {st : Status} {rid : RID} {b : Bytes}
    (h : Added st rid b H H') (hH : HeapAt fv H) (hH' : HeapAt fv' H') (hcnt : H.Counted) :
    H'.Counted := by
  unfold Heap.Counted at hcnt ⊢
  rcases h with ⟨-, hnone, hrec, hn⟩ | ⟨-, hrec, hn⟩
  · rw [hn, hcnt, hH.length_rids_insert hH' hnone hrec]
    omega
  · -- the same records, hence as many
    have hperm : H'.rids.Perm H.rids := by
      rw [List.perm_ext_iff_of_nodup hH'.nodup_rids hH.nodup_rids]
      intro r
      rw [hH'.mem_rids, hH.mem_rids, hrec]
    rw [hn, hcnt, hperm.length_eq]

/-! ## A record that fits -/

/-- A record that fits on the current page: the updates of the page and of the header. -/
theorem insertCurrent_fits (hc : Coh s (y ::ₘ x ::ₘ R) v)
    (hh : v.handle nm = some (h.filePtr, c)) (hf : v.file nm = some fv) (hH : HeapAt fv H)
    (hx : HasHeader h H x) (hy : HasPage h H y) (hrec : rec.Readable)
    (hfit : rec.length + 4 ≤ (H.page h.curPageNo).freeSpace) :
    ∃ rid p' s₁ s₂ fv' H',
      (H.page h.curPageNo).insertRecord rec = some (.OK, rid, p') ∧
      Yields (assignPage h.curPage (.page p')) s () false s₁ ∧
      Yields (h.modifyHeader fun hdr => { hdr with recCnt := hdr.recCnt + 1 }) s₁ () false s₂ ∧
      Coh s₂ ({ y with wrote := true } ::ₘ { x with wrote := true } ::ₘ R)
        (v.setFile nm (some fv')) ∧
      Grown h { h with curDirtyFlag := true, hdrDirtyFlag := true } { x with wrote := true }
        { y with wrote := true } fv fv' H H' ∧
      Added .OK rid rec.bytes H H' := by
  have hne : H.hdrNo ≠ h.curPageNo := fun he => hH.hdr_not_mem (he ▸ hy.mem)
  rcases Page.insertRecord_spec (hH.wf _ hy.mem) hrec with
    ⟨hno, -⟩ | ⟨-, j, p', hins, hwf', hfree, hlow, hrec', hcur', hnext'⟩
  · omega
  rw [hH.curPage _ hy.mem] at hins
  obtain ⟨s₁, hy₁, hc₁⟩ := hy.assign hc hh hf p'
  have hhdr : (fv.assign h.curPageNo (.page p')).hdr? H.hdrNo = some H.hdr := by
    rw [FileView.hdr?_assign_of_ne hne]
    exact hH.hdr
  rw [Multiset.cons_swap] at hc₁
  obtain ⟨s₂, hy₂, hc₂⟩ := hx.modify hc₁ hh View.file_setFile_self hhdr
    fun hdr => { hdr with recCnt := hdr.recCnt + 1 }
  rw [View.setFile_setFile, Multiset.cons_swap] at hc₂
  have hset := Heap.rec?_setPage hy.mem hrec'
  have hle : H.Le ((H.setPage h.curPageNo p').setRecCnt (H.hdr.recCnt + 1)) :=
    (Heap.le_setPage H h.curPageNo p').trans (Heap.le_setRecCnt _ _)
  refine ⟨⟨h.curPageNo, j⟩, p', s₁, s₂, _, (H.setPage h.curPageNo p').setRecCnt _, hins, hy₁, hy₂,
    hc₂, ⟨(hH.setPage hy.mem hwf' hcur' hnext').setRecCnt _, hle, rfl, ?_, ?_, id,
    fun _ _ _ => rfl, id, fun hlast hpacked => ?_⟩, Or.inl ⟨rfl, ?_, ?_, rfl⟩⟩
  · exact ⟨hx.file, hx.pageNo, hx.headerPageNo, hx.headerPage, fun _ => rfl⟩
  · exact ⟨hy.file, hy.pageNo, hy.curPage, hy.mem⟩
  · obtain ⟨hpacked', hrids⟩ := Heap.rids_setPage_insert hH hlast hpacked hfree hlow hrec' hwf'
    rw [Heap.packed_setRecCnt, Heap.rids_setRecCnt, hrids]
    exact ⟨hpacked', List.prefix_append _ _⟩
  · rw [HeapAt.rec?_of_mem hy.mem]
    exact hfree
  · rw [Heap.rec?_setRecCnt]
    exact hset

/-! ## A record that does not fit -/

/-- The page that `insertRecord` has allocated is initialized and linked behind the last page,
which the object gives back. -/
theorem overflow_link {q : Int} {n : Nat}
    (hc : Coh s (⟨h.filePtr, q, n, false⟩ ::ₘ y ::ₘ x ::ₘ R) (v.setFile nm (some (fv.allocate q))))
    (hq : ¬fv.alloc q) (hq₁ : 1 ≤ q) (hpos : 1 ≤ H.hdrNo)
    (hh : v.handle nm = some (h.filePtr, c)) (hH : HeapAt fv H)
    (hx : HasHeader h H x) (hy : HasPage h H y) (hlast : h.curPageNo = H.hdr.lastPage) :
    ∃ s₁ s₂ blk s₃ s₄ fv', let pg := ((s.buf.bufPool n).asPage.init q).setNextPage (-1)
      Yields (assignPage (.frame n) (.page pg)) s () false s₁ ∧
      Yields (h.modifyHeader fun hdr => { hdr with lastPage := q, pageCnt := hdr.pageCnt + 1 })
        s₁ () false s₂ ∧
      Yields (derefPage h.curPage) s₂ blk false s₂ ∧
      Yields (assignPage h.curPage (.page (blk.asPage.setNextPage q))) s₂ () false s₃ ∧
      Yields (BufMgr.unPinPage h.filePtr h.curPageNo true) s₃ .OK false s₄ ∧
      Coh s₄ (⟨h.filePtr, q, n, true⟩ ::ₘ { x with wrote := true } ::ₘ R)
        (v.setFile nm (some fv')) ∧
      Grown h { h with hdrDirtyFlag := true, curPage := .frame n, curPageNo := q }
        { x with wrote := true } ⟨h.filePtr, q, n, true⟩ fv fv' H (H.append q pg) := by
  set pg := ((s.buf.bufPool n).asPage.init q).setNextPage (-1) with hpg
  set L := h.curPageNo with hL
  have hH₁ := hH.allocate hq hpos
  -- the three pages that are written are different
  have hqh : q ≠ H.hdrNo := fun he => hq (he ▸ hH.hdr_alloc)
  have hqp : q ∉ H.pages := fun hm => hq (hH.alloc q hm)
  have hqL : q ≠ L := fun he => hqp (he ▸ hy.mem)
  have hLh : L ≠ H.hdrNo := fun he => hH.hdr_not_mem (he ▸ hy.mem)
  -- the new page
  obtain ⟨s₁, hy₁, hc₁⟩ := hc.assignPage hh View.file_setFile_self (.page pg)
  rw [View.setFile_setFile] at hc₁
  set fv₂ := (fv.allocate q).assign q (.page pg) with hfv₂
  -- the header
  have hhdr : fv₂.hdr? H.hdrNo = some H.hdr := by
    rw [FileView.hdr?_assign_of_ne hqh.symm]
    exact hH₁.hdr
  have hc₁' : Coh s₁ (x ::ₘ ⟨h.filePtr, q, n, true⟩ ::ₘ y ::ₘ R) (v.setFile nm (some fv₂)) := by
    rw [Multiset.cons_swap x, Multiset.cons_swap x]
    exact hc₁
  obtain ⟨s₂, hy₂, hc₂⟩ := hx.modify hc₁' hh View.file_setFile_self hhdr
    fun hdr => { hdr with lastPage := q, pageCnt := hdr.pageCnt + 1 }
  rw [View.setFile_setFile] at hc₂
  set fv₃ := fv₂.assign H.hdrNo
    (.fileHdr { H.hdr with lastPage := q, pageCnt := H.hdr.pageCnt + 1 }) with hfv₃
  set x' : Pin := { x with wrote := true } with hx'
  set z' : Pin := ⟨h.filePtr, q, n, true⟩ with hz'
  -- the page that was the last one
  have hcurL : fv₃.cur L = fv.cur L := by
    rw [FileView.cur_assign_of_ne hLh, FileView.cur_assign_of_ne hqL.symm,
      FileView.cur_allocate_of_ne hqL.symm]
  obtain ⟨blk, hblk, hpage⟩ := hH.exists_page hy.mem
  have hc₂' : Coh s₂ (y ::ₘ x' ::ₘ z' ::ₘ R) (v.setFile nm (some fv₃)) := by
    rw [Multiset.cons_swap y, Multiset.cons_swap y]
    exact hc₂
  have hd : Yields (derefPage h.curPage) s₂ blk false s₂ := by
    rw [hy.curPage]
    refine hc₂'.derefPage (Multiset.mem_cons_self _ _) (hy.file ▸ hh) View.file_setFile_self ?_
    rw [hy.pageNo]
    exact hcurL.trans hblk
  obtain ⟨s₃, hy₃, hc₃⟩ := hy.assign hc₂' hh View.file_setFile_self (blk.asPage.setNextPage q)
  rw [View.setFile_setFile] at hc₃
  set fv₄ := fv₃.assign L (.page (blk.asPage.setNextPage q)) with hfv₄
  -- the object gives it back
  have hyw : HasPage h H { y with wrote := true } := ⟨hy.file, hy.pageNo, hy.curPage, hy.mem⟩
  obtain ⟨s₄, fv₅, hy₄, hc₄, hfor⟩ := hyw.unpin hc₃ hh View.file_setFile_self true fun _ => rfl
  rw [View.setFile_setFile, Multiset.cons_swap] at hc₄
  have hheap : HeapAt fv₄ (H.append q pg) := by
    refine hH₁.append (Or.inl rfl) hqp hqh (by omega) (Page.wf_setNextPage (Page.wf_init _ _) _)
      rfl rfl rfl rfl ?_ ?_ ?_ fun p hp₁ hp₂ hp₃ => ?_
    · rw [FileView.hdr?_assign_of_ne hLh.symm, FileView.hdr?_assign_self]
      rfl
    · rw [FileView.page?_assign_of_ne hqL, FileView.page?_assign_of_ne hqh,
        FileView.page?_assign_self]
      rfl
    · rw [← hlast, FileView.page?_assign_self, ← hpage]
      rfl
    · rw [← hlast] at hp₃
      rw [FileView.page?_assign_of_ne hp₃, FileView.page?_assign_of_ne hp₁,
        FileView.page?_assign_of_ne hp₂]
  refine ⟨s₁, s₂, blk, s₃, s₄, fv₅, hy₁, hy₂, hd, hy₃, hy₄, hc₄, hfor.heapAt hheap,
    Heap.le_append H q pg, rfl, ?_, ?_, fun hp => ?_, fun p hp hpL => ?_, fun _ => rfl,
    fun _ _ => ?_⟩
  · exact ⟨hx.file, hx.pageNo, hx.headerPageNo, hx.headerPage, fun _ => rfl⟩
  · exact ⟨rfl, rfl, rfl, List.mem_append_right _ (List.mem_singleton_self q)⟩
  · rw [hfor.alloc]
    exact Or.inr hp
  · have hpq : p ≠ q := by
      rintro rfl
      exact hq hp
    rw [hfor.kept p fun hk => hpL hk.2]
    exact Function.update_of_ne hpq _ _
  · have hempty : ∀ j, pg.rec? j = none := fun j => Page.rec?_init (s.buf.bufPool n).asPage q j
    obtain ⟨hpacked', hrids⟩ := Heap.rids_append hqp hempty
    rw [hrids]
    exact ⟨hpacked', List.prefix_refl _⟩

/-! ## What a call does -/

theorem Grown.refl (hH : HeapAt fv H) (hx : HasHeader h H x) (hy : HasPage h H y) :
    Grown h h x y fv fv H H :=
  ⟨hH, Heap.Le.refl H, rfl, hx, hy, id, fun _ _ _ => rfl, id,
    fun _ hpacked => ⟨hpacked, List.prefix_refl _⟩⟩

/-- `InsertFileScan::insertRecord`, whatever it returns. The record count of the header follows
the records. -/
theorem insertRecord_spec (hc : Coh s (y ::ₘ x ::ₘ R) v) (hh : v.handle nm = some (h.filePtr, c))
    (hf : v.file nm = some fv) (hH : HeapAt fv H) (hx : HasHeader h H x) (hy : HasPage h H y)
    (hrec : 0 ≤ rec.length → rec.length ≤ DATASIZE → rec.Readable ∧
      (rec.length + 4 ≤ (H.page h.curPageNo).freeSpace ∨ h.curPageNo = H.hdr.lastPage)) :
    Runs T (InsertFileScan.insertRecord h rec) s fun r e s' => ∃ x' y' fv' H',
      Coh s' (y' ::ₘ x' ::ₘ R) (v.setFile nm (some fv')) ∧
      Grown h r.2.2 x' y' fv fv' H H' ∧ Added r.1 r.2.1 rec.bytes H H' ∧
      (e = true → s.buf.Full) ∧ (e = false → 0 ≤ rec.length → rec.length ≤ DATASIZE →
        r.1 = if rec.length ≤ 1000 then .OK else .NOSPACE) := by
  have hself : v.setFile nm (some fv) = v := View.setFile_self hf
  unfold InsertFileScan.insertRecord
  refine Runs.ite (fun hlen => ?_) fun hlen => ?_
  · -- the length is refused
    rw [runs_pure]
    refine ⟨x, y, fv, H, hself.symm ▸ hc, Grown.refl hH hx hy, Or.inr ⟨nofun, rfl, rfl⟩, nofun,
      fun _ h₀ h₁ => ?_⟩
    omega
  obtain ⟨h₀, h₁⟩ := not_or.mp hlen
  obtain ⟨hread, hroom⟩ := hrec (by omega) (by omega)
  rw [if_neg (by rw [hy.curPage]; nofun)]
  unfold InsertFileScan.insertCurrent
  obtain ⟨blk, hd, hblk⟩ := hy.deref hc (Multiset.mem_cons_self _ _) hh hf hH
  rw [runs_bind_of_yields hd, hblk]
  by_cases hfit : rec.length + 4 ≤ (H.page h.curPageNo).freeSpace
  · -- the record goes on the current page
    obtain ⟨rid, p', s₁, s₂, fv', H', hins, hy₁, hy₂, hc', hg, ha⟩ :=
      insertCurrent_fits hc hh hf hH hx hy hread hfit
    rw [hins, runs_ofOption_some_bind]
    dsimp only
    rw [if_pos rfl, runs_bind_of_yields hy₁, runs_bind_of_yields hy₂, runs_pure]
    refine ⟨_, _, fv', H', hc', hg, ha, nofun, fun _ _ _ => (if_pos ?_).symm⟩
    have hwf := hH.wf _ hy.mem
    have := hwf.space
    have := hwf.freePtr_nonneg
    omega
  · -- the record needs another page
    rcases Page.insertRecord_spec (hH.wf _ hy.mem) hread with ⟨-, hno⟩ | ⟨hfit', -⟩
    swap
    · exact absurd hfit' hfit
    have hlast := hroom.resolve_left hfit
    obtain ⟨uf, -, hst, -⟩ := hc.stored nm fv hf
    have hpos : 1 ≤ H.hdrNo := (hst.range hH.hdr_alloc).1
    rw [hno, runs_ofOption_some_bind]
    dsimp only
    rw [if_neg (by decide)]
    unfold InsertFileScan.insertOverflow
    refine (hc.allocPage hh hf .wild).bind ?_
    rintro ⟨st, q, newPage⟩ e s₁
      ⟨q', hq, hq₁, (⟨rfl, hr, hfull, hc₁⟩ | ⟨rfl, n, hr, -, hc₁⟩)⟩
    · -- no frame for it, but it has been taken from the file
      cases hr
      dsimp only
      rw [if_pos (by decide), runs_pure]
      refine ⟨x, y, fv.allocate q, H, hc₁, ⟨hH.allocate hq hpos, Heap.Le.refl H, rfl, hx, hy,
        Or.inr, fun p hp _ => ?_, id, fun _ hpacked => ⟨hpacked, List.prefix_refl _⟩⟩,
        Or.inr ⟨nofun, rfl, rfl⟩, fun _ => hfull, nofun⟩
      refine Function.update_of_ne ?_ _ _
      rintro rfl
      exact hq hp
    · cases hr
      dsimp only
      rw [if_neg (by decide)]
      have hd₁ : Yields (derefPage (.frame n)) s₁ (s₁.buf.bufPool n) false s₁ := rfl
      obtain ⟨s₂, s₃, blk', s₄, s₅, fv', hy₁, hy₂, hy₃, hy₄, hy₅, hc₅, hg⟩ :=
        overflow_link hc₁ hq hq₁ hpos hh hH hx hy hlast
      rw [runs_bind_of_yields hd₁, runs_bind_of_yields hy₁, runs_bind_of_yields hy₂]
      rw [runs_bind_of_yields hy₃, runs_bind_of_yields hy₄, runs_bind_of_yields hy₅,
        if_neg (by decide)]
      set pg := ((s₁.buf.bufPool n).asPage.init q).setNextPage (-1) with hpg
      set h₂ : HeapFile := { h with hdrDirtyFlag := true, curPage := .frame n, curPageNo := q }
        with hh₂
      have hpage : (H.append q pg).page h₂.curPageNo = pg := Heap.page_append_self H q pg
      have hqp : q ∉ H.pages := fun hm => hq (hH.alloc q hm)
      have hrec₀ : (H.append q pg).rec? = H.rec? := by
        refine Heap.rec?_append hqp fun j => ?_
        exact Page.rec?_init (s₁.buf.bufPool n).asPage q j
      obtain ⟨blk₂, hd₂, hblk₂⟩ := hg.page.deref hc₅ (Multiset.mem_cons_self _ _) hh
        View.file_setFile_self hg.heapAt
      have hd₂' : Yields (derefPage (.frame n)) s₅ blk₂ false s₅ := hd₂
      rw [runs_bind_of_yields hd₂', hblk₂]
      by_cases hlen' : rec.length ≤ 1000
      · -- a new page has room for it
        have hfit₂ : rec.length + 4 ≤ ((H.append q pg).page h₂.curPageNo).freeSpace := by
          rw [hpage]
          show rec.length + 4 ≤ DATASIZE
          unfold DATASIZE
          omega
        obtain ⟨rid, p', s₆, s₇, fv'', H', hins, hy₆, hy₇, hc', hg', ha⟩ :=
          insertCurrent_fits (h := h₂) hc₅ hh View.file_setFile_self hg.heapAt hg.header
            hg.page hread
            hfit₂
        rw [View.setFile_setFile] at hc'
        rw [hins, runs_ofOption_some_bind]
        dsimp only
        have hy₆' : Yields (assignPage (.frame n) (.page p')) s₅ () false s₆ := hy₆
        rw [if_pos rfl, runs_bind_of_yields hy₆', runs_bind_of_yields hy₇, runs_pure]
        refine ⟨_, _, fv'', H', hc', ⟨hg'.heapAt, hg.le.trans hg'.le, rfl, hg'.header, hg'.page,
          fun hp => hg'.alloc (hg.alloc hp), fun p hp hpL => ?_, fun _ => hg'.atLast rfl,
          fun _ hpacked => ?_⟩, ?_, nofun, fun _ _ _ => (if_pos hlen').symm⟩
        · have hpq : p ≠ q := by
            rintro rfl
            exact hq hp
          have hp' : fv'.alloc p := hg.alloc hp
          rw [hg'.kept p hp' hpq, hg.kept p hp hpL]
        · obtain ⟨hpacked₁, hrids₁⟩ := hg.ordered hlast hpacked
          obtain ⟨hpacked₂, hrids₂⟩ := hg'.ordered rfl hpacked₁
          exact ⟨hpacked₂, hrids₁.trans hrids₂⟩
        · rcases ha with ⟨-, hnone, hrec', hcnt⟩ | ⟨hne, -⟩
          · rw [hrec₀] at hnone hrec'
            exact Or.inl ⟨rfl, hnone, hrec', hcnt⟩
          · exact absurd rfl hne
      · rcases Page.insertRecord_spec (hg.heapAt.wf _ hg.page.mem) hread with
          ⟨-, hno₂⟩ | ⟨hfit₂, -⟩
        · rw [hno₂, runs_ofOption_some_bind]
          dsimp only
          rw [if_neg (by decide), runs_pure]
          exact ⟨_, _, fv', _, hc₅, hg, Or.inr ⟨nofun, hrec₀, rfl⟩, nofun,
            fun _ _ _ => (if_neg hlen').symm⟩
        · rw [hpage] at hfit₂
          have hfit₂ : rec.length + 4 ≤ DATASIZE := hfit₂
          unfold DATASIZE at hfit₂
          omega

end HeapFile

end Minirel
