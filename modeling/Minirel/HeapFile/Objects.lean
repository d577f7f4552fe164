import Minirel.HeapFile.Heap
import Minirel.HeapFile

/-!
# The objects of heap files

What a `HeapFile` object and the objects derived from it hold: a pin on the header page and, most
of the time, a pin on a data page. Their constructors take the pins and their destructors give
them back.
-/

namespace Minirel

open Comp

/-- The views agree, but for what is kept on disk of the pages in `S`. -/
structure FileView.Forgets (S : Int → Prop) (fv fv' : FileView) : Prop where
  first : fv'.first = fv.first
  alloc : fv'.alloc = fv.alloc
  cur : fv'.cur = fv.cur
  kept : ∀ p, ¬S p → fv'.kept p = fv.kept p

namespace FileView.Forgets

variable {S S' : Int → Prop} {fv fv₁ fv₂ : FileView}

theorem refl (fv : FileView) : Forgets S fv fv := ⟨rfl, rfl, rfl, fun _ _ => rfl⟩

theorem mono (h : Forgets S fv fv₁) (hS : ∀ p, S p → S' p) : Forgets S' fv fv₁ :=
  ⟨h.first, h.alloc, h.cur, fun p hp => h.kept p fun hs => hp (hS p hs)⟩

theorem trans (h : Forgets S fv fv₁) (h' : Forgets S fv₁ fv₂) : Forgets S fv fv₂ :=
  ⟨h'.first.trans h.first, h'.alloc.trans h.alloc, h'.cur.trans h.cur,
    fun p hp => (h'.kept p hp).trans (h.kept p hp)⟩

theorem heapAt (h : Forgets S fv fv₁) {H : Heap} (hH : HeapAt fv H) : HeapAt fv₁ H :=
  hH.congr h.first h.alloc h.cur

/-- If nothing is forgotten the views are the same. -/
theorem eq_of_not (h : Forgets S fv fv₁) (hS : ∀ p, ¬S p) : fv₁ = fv := by
  obtain ⟨f₁, a₁, c₁, k₁⟩ := fv₁
  obtain ⟨hf, ha, hc, hk⟩ := h
  obtain rfl : f₁ = fv.first := hf
  obtain rfl : a₁ = fv.alloc := ha
  obtain rfl : c₁ = fv.cur := hc
  obtain rfl : k₁ = fv.kept := funext fun p => hk p (hS p)
  rfl

theorem unpin (fv : FileView) (p : Int) (dirty : Bool) :
    Forgets (fun q => dirty = true ∧ q = p) fv (if dirty then fv.forget p else fv) := by
  cases dirty with
  | true =>
    refine ⟨rfl, rfl, rfl, fun q hq => Function.update_of_ne ?_ _ _⟩
    rintro rfl
    exact hq ⟨rfl, rfl⟩
  | false => exact refl fv

end FileView.Forgets

namespace HeapFile

/-- The object holds the pin `x` on the header page. -/
structure HasHeader (h : HeapFile) (H : Heap) (x : Pin) : Prop where
  file : x.file = h.filePtr
  pageNo : x.pageNo = H.hdrNo
  headerPageNo : h.headerPageNo = H.hdrNo
  headerPage : h.headerPage = .frame x.frame
  dirty : x.wrote = true → h.hdrDirtyFlag = true

/-- The object holds the pin `y` on its data page. -/
structure HasPage (h : HeapFile) (H : Heap) (y : Pin) : Prop where
  file : y.file = h.filePtr
  pageNo : y.pageNo = h.curPageNo
  curPage : h.curPage = .frame y.frame
  mem : h.curPageNo ∈ H.pages

theorem HasHeader.mono {h : HeapFile} {H H' : Heap} {x : Pin} (hx : HasHeader h H x)
    (hle : H.Le H') : HasHeader h H' x :=
  ⟨hx.file, hx.pageNo.trans hle.1.symm, hx.headerPageNo.trans hle.1.symm, hx.headerPage, hx.dirty⟩

theorem HasPage.mono {h : HeapFile} {H H' : Heap} {y : Pin} (hy : HasPage h H y)
    (hle : H.Le H') : HasPage h H' y :=
  ⟨hy.file, hy.pageNo, hy.curPage, hle.2 _ hy.mem⟩

section Pages

variable {s : Sys} {P : Multiset Pin} {v : View} {nm : FileName} {c : Int} {fv : FileView}
  {H : Heap} {h : HeapFile} {x y : Pin}

/-- Reading the header page. -/
theorem HasHeader.deref (hx : HasHeader h H x) (hc : Coh s P v) (hxP : x ∈ P)
    (hh : v.handle nm = some (h.filePtr, c)) (hf : v.file nm = some fv) (hH : HeapAt fv H) :
    ∃ blk, Yields (derefPage h.headerPage) s blk false s ∧ blk.asFileHdr = H.hdr := by
  obtain ⟨blk, hcur, hblk⟩ := hH.exists_hdr
  refine ⟨blk, ?_, hblk⟩
  rw [hx.headerPage]
  exact hc.derefPage hxP (hx.file ▸ hh) hf (hx.pageNo ▸ hcur)

/-- Reading the data page. -/
theorem HasPage.deref (hy : HasPage h H y) (hc : Coh s P v) (hyP : y ∈ P)
    (hh : v.handle nm = some (h.filePtr, c)) (hf : v.file nm = some fv) (hH : HeapAt fv H) :
    ∃ blk, Yields (derefPage h.curPage) s blk false s ∧ blk.asPage = H.page h.curPageNo := by
  obtain ⟨blk, hcur, hblk⟩ := hH.exists_page hy.mem
  refine ⟨blk, ?_, hblk⟩
  rw [hy.curPage]
  exact hc.derefPage hyP (hy.file ▸ hh) hf (hy.pageNo ▸ hcur)

/-- Updating the header page. -/
theorem HasHeader.modify (hx : HasHeader h H x) (hc : Coh s (x ::ₘ P) v)
    (hh : v.handle nm = some (h.filePtr, c)) (hf : v.file nm = some fv)
    {hdr : FileHdrPage} (hhdr : fv.hdr? H.hdrNo = some hdr)
    (g : FileHdrPage → FileHdrPage) :
    ∃ s', Yields (h.modifyHeader g) s () false s' ∧ Coh s' ({ x with wrote := true } ::ₘ P)
      (v.setFile nm (some (fv.assign H.hdrNo (.fileHdr (g hdr))))) := by
  obtain ⟨blk, hcur, hblk⟩ := Option.map_eq_some_iff.mp hhdr
  have hd := hc.derefPage (Multiset.mem_cons_self x P) (hx.file ▸ hh) hf (hx.pageNo ▸ hcur)
  obtain ⟨s', hy, hc'⟩ := hc.assignPage (hx.file ▸ hh) hf
    (.fileHdr (g blk.asFileHdr))
  refine ⟨s', ?_, ?_⟩
  · unfold modifyHeader
    rw [hx.headerPage]
    exact hd.bind (d := false) hy
  · rw [hblk] at hc'
    rw [← hx.pageNo]
    exact hc'

/-- Updating the data page. -/
theorem HasPage.assign (hy : HasPage h H y) (hc : Coh s (y ::ₘ P) v)
    (hh : v.handle nm = some (h.filePtr, c)) (hf : v.file nm = some fv) (pg : Page) :
    ∃ s', Yields (assignPage h.curPage (.page pg)) s () false s' ∧
      Coh s' ({ y with wrote := true } ::ₘ P)
        (v.setFile nm (some (fv.assign h.curPageNo (.page pg)))) := by
  rw [hy.curPage, ← hy.pageNo]
  exact hc.assignPage (hy.file ▸ hh) hf _

/-- Giving back the data page. -/
theorem HasPage.unpin (hy : HasPage h H y) (hc : Coh s (y ::ₘ P) v)
    (hh : v.handle nm = some (h.filePtr, c)) (hf : v.file nm = some fv) (dirty : Bool)
    (hw : y.wrote = true → dirty = true) :
    ∃ s' fv', Yields (BufMgr.unPinPage h.filePtr h.curPageNo dirty) s .OK false s' ∧
      Coh s' P (v.setFile nm (some fv')) ∧
      FileView.Forgets (fun p => dirty = true ∧ p = h.curPageNo) fv fv' := by
  obtain ⟨s', hyl, hc'⟩ := hc.unPinPage (hy.file ▸ hh) hf hw
  rw [hy.file, hy.pageNo] at hyl
  refine ⟨s', _, hyl, hc', ?_⟩
  rw [hy.pageNo]
  exact FileView.Forgets.unpin fv _ dirty

/-- Giving back the header page. -/
theorem HasHeader.unpin (hx : HasHeader h H x) (hc : Coh s (x ::ₘ P) v)
    (hh : v.handle nm = some (h.filePtr, c)) (hf : v.file nm = some fv) :
    ∃ s' fv', Yields (BufMgr.unPinPage h.filePtr h.headerPageNo h.hdrDirtyFlag) s .OK false s' ∧
      Coh s' P (v.setFile nm (some fv')) ∧
      FileView.Forgets (fun p => h.hdrDirtyFlag = true ∧ p = H.hdrNo) fv fv' := by
  obtain ⟨s', hyl, hc'⟩ := hc.unPinPage (hx.file ▸ hh) hf hx.dirty
  rw [hx.file, hx.pageNo] at hyl
  rw [hx.pageNo] at hc'
  refine ⟨s', _, hx.headerPageNo ▸ hyl, hc', FileView.Forgets.unpin fv _ _⟩

end Pages

/-! ## Constructors -/

/-- The object that `HeapFile::HeapFile` makes, with the frames of its two pages. -/
def opened (f : FilePtr) (H : Heap) (n m : Nat) : HeapFile where
  filePtr := f
  headerPage := .frame n
  headerPageNo := H.hdrNo
  hdrDirtyFlag := false
  curPage := .frame m
  curPageNo := H.hdr.firstPage
  curDirtyFlag := false
  curRec := NULLRID

section New

variable {T : Prop} {s : Sys} {P : Multiset Pin} {v : View} {nm : FileName} {c : Int}
  {fv : FileView} {H : Heap} {h : HeapFile} {x y : Pin}

/-- Reading a page, when frames are left or the pool may be full. -/
theorem clean_readPage {f : FilePtr} {p : Int} (hc : Coh s P v) (hh : v.handle nm = some (f, c))
    (hf : v.file nm = some fv) (hp : fv.alloc p) (hT : T → 0 < freeFrames v.numBufs P)
    (page : PagePtr) :
    Clean T (BufMgr.readPage f p page) s fun r s' =>
      ∃ n, r = (.OK, .frame n) ∧ Coh s' (⟨f, p, n, false⟩ ::ₘ P) v := by
  refine Runs.mono (hc.readPage hh hf hp page) ?_
  rintro r e s' (⟨rfl, -, hno, -⟩ | ⟨rfl, n, hr, -, hc'⟩)
  · refine ⟨fun ht => ?_, nofun⟩
    exact absurd (hc.freeFrames_eq_zero hno.2) (Nat.ne_of_gt (hT ht))
  · exact ⟨fun _ => rfl, fun _ => ⟨n, hr, hc'⟩⟩

/-- The constructor of `HeapFile` pins the header page and the first data page. -/
theorem new_spec (hc : Coh s P v) (hnm : nm ≠ []) (hf : v.file nm = some fv) (hH : HeapAt fv H)
    (hpos : ∀ f c, v.handle nm = some (f, c) → 0 < c) (hT : T → 2 ≤ freeFrames v.numBufs P) :
    Clean T (HeapFile.new nm) s fun r s' => ∃ f n m, r = (.OK, opened f H n m) ∧
      (∀ f' c', v.handle nm = some (f', c') → f = f') ∧
      Coh s' (⟨f, H.hdr.firstPage, m, false⟩ ::ₘ ⟨f, H.hdrNo, n, false⟩ ::ₘ P)
        (v.setHandle nm (some (f, v.openCnt nm + 1))) := by
  obtain ⟨f, s₁, hy₁, -, hc₁, hsame⟩ := hc.openFile hnm hf hpos
  have hh : (v.setHandle nm (some (f, v.openCnt nm + 1))).handle nm =
      some (f, v.openCnt nm + 1) := View.handle_setHandle_self
  obtain ⟨uf, huf, hst, -⟩ := hc₁.stored nm fv hf
  have hy₂ := File.yields_getFirstPage hc₁.io (hc₁.opened nm f _ hh).obj huf hst
  unfold HeapFile.new
  rw [clean_bind_of_yields hy₁]
  dsimp only
  rw [if_neg (by decide), clean_bind_of_yields hy₂]
  dsimp only
  rw [if_neg (by decide), hH.first]
  refine (clean_readPage hc₁ hh hf hH.hdr_alloc (fun ht => ?_) .wild).bind ?_
  · have := hT ht
    show 0 < freeFrames v.numBufs P
    omega
  rintro ⟨st, headerPage⟩ s₂ ⟨n, hr, hc₂⟩
  cases hr
  dsimp only
  obtain ⟨blk, hcur, hblk⟩ := hH.exists_hdr
  have hd := hc₂.derefPage (x := ⟨f, H.hdrNo, n, false⟩) (Multiset.mem_cons_self _ _) hh hf hcur
  rw [clean_bind_of_yields hd, hblk]
  refine (clean_readPage hc₂ hh hf (hH.alloc _ hH.first_mem) (fun ht => ?_) .wild).bind ?_
  · have := hT ht
    have := freeFrames_cons v.numBufs ⟨f, H.hdrNo, n, false⟩ P
    show 0 < freeFrames v.numBufs (_ ::ₘ P)
    omega
  rintro ⟨st, curPage⟩ s₃ ⟨m, hr, hc₃⟩
  cases hr
  rw [clean_pure]
  exact ⟨f, n, m, rfl, hsame, hc₃⟩

/-- The constructor of `HeapFileScan`. -/
theorem new_scan (hc : Coh s P v) (hnm : nm ≠ []) (hf : v.file nm = some fv) (hH : HeapAt fv H)
    (hpos : ∀ f c, v.handle nm = some (f, c) → 0 < c) (hT : T → 2 ≤ freeFrames v.numBufs P) :
    Clean T (HeapFileScan.new nm) s fun r s' => r.1 = .OK ∧
      ∃ f n m, r.2.toHeapFile = opened f H n m ∧
      (∀ f' c', v.handle nm = some (f', c') → f = f') ∧
      Coh s' (⟨f, H.hdr.firstPage, m, false⟩ ::ₘ ⟨f, H.hdrNo, n, false⟩ ::ₘ P)
        (v.setHandle nm (some (f, v.openCnt nm + 1))) := by
  unfold HeapFileScan.new
  refine (new_spec hc hnm hf hH hpos hT).bind ?_
  rintro ⟨st, h⟩ s' ⟨f, n, m, hr, hsame, hc'⟩
  cases hr
  rw [clean_pure]
  exact ⟨rfl, f, n, m, rfl, hsame, hc'⟩

/-- The constructor of `InsertFileScan` pins the header page and the last data page. -/
theorem new_insert (hc : Coh s P v) (hnm : nm ≠ []) (hf : v.file nm = some fv) (hH : HeapAt fv H)
    (hpos : ∀ f c, v.handle nm = some (f, c) → 0 < c) (hT : T → 2 ≤ freeFrames v.numBufs P) :
    Clean T (InsertFileScan.new nm) s fun r s' => ∃ f n m,
      r = (.OK, { opened f H n m with curPageNo := H.hdr.lastPage }) ∧
      (∀ f' c', v.handle nm = some (f', c') → f = f') ∧
      Coh s' (⟨f, H.hdr.lastPage, m, false⟩ ::ₘ ⟨f, H.hdrNo, n, false⟩ ::ₘ P)
        (v.setHandle nm (some (f, v.openCnt nm + 1))) := by
  unfold InsertFileScan.new
  refine (new_spec hc hnm hf hH hpos hT).bind ?_
  rintro ⟨st, h⟩ s₁ ⟨f, n, m, hr, hsame, hc₁⟩
  cases hr
  have hh : (v.setHandle nm (some (f, v.openCnt nm + 1))).handle nm =
      some (f, v.openCnt nm + 1) := View.handle_setHandle_self
  obtain ⟨blk, hcur, hblk⟩ := hH.exists_hdr
  have hd := hc₁.derefPage (x := ⟨f, H.hdrNo, n, false⟩)
    (Multiset.mem_cons_of_mem (Multiset.mem_cons_self _ _)) hh hf hcur
  dsimp only
  rw [clean_bind_of_yields (x := derefPage (opened f H n m).headerPage) hd, hblk]
  by_cases hne : H.hdr.firstPage = H.hdr.lastPage
  · rw [if_neg (by rintro ⟨-, hne'⟩; exact hne' hne), clean_pure]
    refine ⟨f, n, m, ?_, hsame, hne ▸ hc₁⟩
    rw [← hne]
    rfl
  · rw [if_pos ⟨nofun, hne⟩]
    have hy : HasPage (opened f H n m) H ⟨f, H.hdr.firstPage, m, false⟩ :=
      ⟨rfl, rfl, rfl, hH.first_mem⟩
    obtain ⟨s₂, fv₂, hy₂, hc₂, hfor⟩ := hy.unpin hc₁ hh hf
      (opened f H n m).curDirtyFlag nofun
    have hfv : fv₂ = fv := hfor.eq_of_not fun p hp => by cases hp.1
    rw [hfv, View.setFile_self (v := v.setHandle nm (some (f, v.openCnt nm + 1))) hf] at hc₂
    rw [clean_bind_of_yields hy₂]
    refine (clean_readPage hc₂ hh hf (hH.alloc _ hH.last_mem) (fun ht => ?_) _).bind ?_
    · have := hT ht
      have := freeFrames_cons v.numBufs ⟨f, H.hdrNo, n, false⟩ P
      show 0 < freeFrames v.numBufs (_ ::ₘ P)
      omega
    rintro ⟨st, curPage⟩ s₃ ⟨k, hr, hc₃⟩
    cases hr
    rw [clean_pure]
    exact ⟨f, n, k, rfl, hsame, hc₃⟩

end New

/-! ## Destructors -/

/-- What a file is open as once it has been closed. -/
def closed (f : FilePtr) (c : Int) : Option (FilePtr × Int) :=
  if c = 1 then none else some (f, c - 1)

section Delete

variable {s : Sys} {P : Multiset Pin} {v : View} {nm : FileName} {c : Int}
  {fv : FileView} {H : Heap} {h : HeapFile} {x y : Pin}

theorem deleteHeader_spec (hc : Coh s (x ::ₘ P) v) (hh : v.handle nm = some (h.filePtr, c))
    (hf : v.file nm = some fv) (hx : HasHeader h H x) (hpos : 0 < c)
    (hlast : c = 1 → ∀ z ∈ P, z.file ≠ h.filePtr) :
    ∃ s' fv', Yields (deleteHeader h) s () false s' ∧
      Coh s' P ((v.setFile nm (some fv')).setHandle nm (closed h.filePtr c)) ∧
      FileView.Forgets (fun p => h.hdrDirtyFlag = true ∧ p = H.hdrNo) fv fv' := by
  obtain ⟨s₁, fv', hy₁, hc₁, hfor⟩ := hx.unpin hc hh hf
  obtain ⟨s₂, hy₂, hc₂⟩ := hc₁.closeFile hh hpos hlast
  exact ⟨s₂, fv', hy₁.bind (hy₂.bind (Yields.pure _ _)), hc₂, hfor⟩

/-- The destructor of `HeapFile` for an object without a data page. -/
theorem delete_null (hc : Coh s (x ::ₘ P) v) (hh : v.handle nm = some (h.filePtr, c))
    (hf : v.file nm = some fv) (hx : HasHeader h H x) (hnull : h.curPage = .null) (hpos : 0 < c)
    (hlast : c = 1 → ∀ z ∈ P, z.file ≠ h.filePtr) :
    ∃ s' fv', Yields (delete h) s () false s' ∧
      Coh s' P ((v.setFile nm (some fv')).setHandle nm (closed h.filePtr c)) ∧
      FileView.Forgets (fun p => h.hdrDirtyFlag = true ∧ p = H.hdrNo) fv fv' := by
  unfold delete
  rw [hnull, if_neg (by decide)]
  exact deleteHeader_spec hc hh hf hx hpos hlast

/-- What the destructors do to an object with a data page: they give back the page, and then the
header. -/
theorem delete_page (dirty : Bool) (h' : HeapFile) (hc : Coh s (y ::ₘ x ::ₘ P) v)
    (hh : v.handle nm = some (h.filePtr, c)) (hf : v.file nm = some fv) (hx : HasHeader h H x)
    (hy : HasPage h H y) (hw : y.wrote = true → dirty = true) (hpos : 0 < c)
    (hlast : c = 1 → ∀ z ∈ P, z.file ≠ h.filePtr)
    (hh' : h'.filePtr = h.filePtr ∧ h'.headerPageNo = h.headerPageNo ∧
      h'.hdrDirtyFlag = h.hdrDirtyFlag) :
    ∃ s₁ s' fv', Yields (BufMgr.unPinPage h.filePtr h.curPageNo dirty) s .OK false s₁ ∧
      Yields (deleteHeader h') s₁ () false s' ∧
      Coh s' P ((v.setFile nm (some fv')).setHandle nm (closed h.filePtr c)) ∧
      FileView.Forgets (fun p => dirty = true ∧ p = h.curPageNo ∨
        h.hdrDirtyFlag = true ∧ p = H.hdrNo) fv fv' := by
  obtain ⟨s₁, fv₁, hy₁, hc₁, hfor₁⟩ := hy.unpin hc hh hf dirty hw
  obtain ⟨s₂, fv₂, hy₂, hc₂, hfor₂⟩ := deleteHeader_spec (h := h) hc₁ hh View.file_setFile_self hx
    hpos hlast
  refine ⟨s₁, s₂, fv₂, hy₁, ?_, ?_, (hfor₁.mono fun p hp => Or.inl hp).trans
    (hfor₂.mono fun p hp => Or.inr hp)⟩
  · unfold deleteHeader at hy₂ ⊢
    rw [hh'.1, hh'.2.1, hh'.2.2]
    exact hy₂
  · rwa [View.setFile_setFile] at hc₂

/-- The destructor of `HeapFile`. -/
theorem delete_spec (hc : Coh s (y ::ₘ x ::ₘ P) v) (hh : v.handle nm = some (h.filePtr, c))
    (hf : v.file nm = some fv) (hx : HasHeader h H x) (hy : HasPage h H y)
    (hw : y.wrote = true → h.curDirtyFlag = true) (hpos : 0 < c)
    (hlast : c = 1 → ∀ z ∈ P, z.file ≠ h.filePtr) :
    ∃ s' fv', Yields (delete h) s () false s' ∧
      Coh s' P ((v.setFile nm (some fv')).setHandle nm (closed h.filePtr c)) ∧
      FileView.Forgets (fun p => h.curDirtyFlag = true ∧ p = h.curPageNo ∨
        h.hdrDirtyFlag = true ∧ p = H.hdrNo) fv fv' := by
  obtain ⟨s₁, s₂, fv', hy₁, hy₂, hc', hfor⟩ :=
    delete_page h.curDirtyFlag h hc hh hf hx hy hw hpos hlast ⟨rfl, rfl, rfl⟩
  refine ⟨s₂, fv', ?_, hc', hfor⟩
  unfold delete
  rw [hy.curPage, if_pos nofun]
  exact hy₁.bind hy₂

/-- `HeapFileScan::endScan` gives back the data page. -/
theorem yields_endScan {h : HeapFileScan} {s' : Sys} (hy : HasPage h.toHeapFile H y)
    (hu : Yields (BufMgr.unPinPage h.filePtr h.curPageNo h.curDirtyFlag) s .OK false s') :
    Yields (HeapFileScan.endScan h) s
      (.OK, { h with curPage := .null, curPageNo := 0, curDirtyFlag := false }) false s' := by
  unfold HeapFileScan.endScan
  rw [hy.curPage, if_pos nofun]
  exact hu.bind (Yields.pure _ _)

/-- The destructor of `HeapFileScan`. -/
theorem delete_scan {h : HeapFileScan} (hc : Coh s (y ::ₘ x ::ₘ P) v)
    (hh : v.handle nm = some (h.filePtr, c)) (hf : v.file nm = some fv)
    (hx : HasHeader h.toHeapFile H x) (hy : HasPage h.toHeapFile H y)
    (hw : y.wrote = true → h.curDirtyFlag = true) (hpos : 0 < c)
    (hlast : c = 1 → ∀ z ∈ P, z.file ≠ h.filePtr) :
    ∃ s' fv', Yields (HeapFileScan.delete h) s () false s' ∧
      Coh s' P ((v.setFile nm (some fv')).setHandle nm (closed h.filePtr c)) ∧
      FileView.Forgets (fun p => h.curDirtyFlag = true ∧ p = h.curPageNo ∨
        h.hdrDirtyFlag = true ∧ p = H.hdrNo) fv fv' := by
  obtain ⟨s₁, s₂, fv', hy₁, hy₂, hc', hfor⟩ := delete_page
    h.curDirtyFlag { h.toHeapFile with curPage := .null, curPageNo := 0, curDirtyFlag := false }
    hc hh hf hx hy hw hpos hlast ⟨rfl, rfl, rfl⟩
  refine ⟨s₂, fv', ?_, hc', hfor⟩
  unfold HeapFileScan.delete
  refine (yields_endScan hy hy₁).bind (d := false) ?_
  unfold delete
  dsimp only
  rw [if_neg fun hn => hn rfl]
  exact hy₂

/-- The destructor of `HeapFileScan` for a scan without a data page. -/
theorem delete_scan_null {h : HeapFileScan} (hc : Coh s (x ::ₘ P) v)
    (hh : v.handle nm = some (h.filePtr, c)) (hf : v.file nm = some fv)
    (hx : HasHeader h.toHeapFile H x) (hnull : h.curPage = .null) (hpos : 0 < c)
    (hlast : c = 1 → ∀ z ∈ P, z.file ≠ h.filePtr) :
    ∃ s' fv', Yields (HeapFileScan.delete h) s () false s' ∧
      Coh s' P ((v.setFile nm (some fv')).setHandle nm (closed h.filePtr c)) ∧
      FileView.Forgets (fun p => h.hdrDirtyFlag = true ∧ p = H.hdrNo) fv fv' := by
  obtain ⟨s', fv', hy, hc', hfor⟩ := delete_null hc hh hf hx hnull hpos hlast
  refine ⟨s', fv', ?_, hc', hfor⟩
  unfold HeapFileScan.delete HeapFileScan.endScan
  rw [hnull, if_neg (by decide)]
  exact (Yields.pure _ _).bind hy

/-- The destructor of `InsertFileScan`. It always reports the data page dirty. -/
theorem delete_insert {h : InsertFileScan} (hc : Coh s (y ::ₘ x ::ₘ P) v)
    (hh : v.handle nm = some (h.filePtr, c)) (hf : v.file nm = some fv)
    (hx : HasHeader h H x) (hy : HasPage h H y) (hpos : 0 < c)
    (hlast : c = 1 → ∀ z ∈ P, z.file ≠ h.filePtr) :
    ∃ s' fv', Yields (InsertFileScan.delete h) s () false s' ∧
      Coh s' P ((v.setFile nm (some fv')).setHandle nm (closed h.filePtr c)) ∧
      FileView.Forgets (fun p => p = h.curPageNo ∨ h.hdrDirtyFlag = true ∧ p = H.hdrNo) fv fv' := by
  obtain ⟨s₁, s₂, fv', hy₁, hy₂, hc', hfor⟩ := delete_page true
    { h with curPage := .null, curPageNo := 0 } hc hh hf hx hy (fun _ => rfl) hpos hlast
    ⟨rfl, rfl, rfl⟩
  refine ⟨s₂, fv', ?_, hc', hfor.mono fun p hp => hp.imp_left And.right⟩
  unfold InsertFileScan.delete
  rw [hy.curPage, if_pos nofun]
  refine hy₁.bind (d := false) ?_
  unfold delete
  rw [if_neg fun hn => hn rfl]
  exact hy₂

end Delete

end HeapFile

end Minirel
