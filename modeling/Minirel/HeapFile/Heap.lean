import Minirel.Store.Session
import Minirel.Page.SlotMap

/-!
# Heap files as maps from RIDs to records

The pages of a well-formed heap file: a header page, and a chain of slotted pages that starts at
`firstPage`, ends at `lastPage` and is `pageCnt` pages long. Read off it are the map from RIDs to
records and the list of RIDs in the order of a scan.

## Main definitions

* `Heap`, `Heap.rec?`, `Heap.rids`: the pages of a heap file and what is on them.
* `HeapAt fv H`: the file `fv` is a well-formed heap file with the pages `H`.
* `Heap.Counted`: the record count in the header is right.
-/

namespace Minirel

open Comp

/-! ## The records of a page -/

namespace Page

/-- The used slots of a page, in order. A page has room for 251 slot entries. -/
def live (p : Page) : List Nat := (List.range 252).filter fun j => (p.rec? j).isSome

theorem lt_of_rec? {p : Page} (hp : p.WF) {j : Nat} (h : p.rec? j ≠ none) : j < 252 := by
  have h₁ := ((rec?_ne_none_iff p j).mp h).1
  have h₂ := hp.slots_le
  omega

theorem mem_live {p : Page} (hp : p.WF) {j : Nat} : j ∈ p.live ↔ p.rec? j ≠ none := by
  unfold live
  rw [List.mem_filter, List.mem_range, Option.isSome_iff_ne_none]
  exact ⟨fun h => h.2, fun h => ⟨lt_of_rec? hp h, h⟩⟩

theorem nodup_live (p : Page) : p.live.Nodup := List.nodup_range.filter _

theorem pairwise_live (p : Page) : p.live.Pairwise (· < ·) := List.pairwise_lt_range.filter _

end Page

/-! ## Heap files -/

/-- The pages of a heap file. -/
structure Heap where
  /-- Number of the header page. -/
  hdrNo : Int
  /-- The header page. -/
  hdr : FileHdrPage
  /-- The data pages, along the chain. -/
  pages : List Int
  /-- Contents of the data pages. -/
  page : Int → Page

namespace Heap

/-- The record stored under a RID. -/
def rec? (H : Heap) (r : RID) : Option Bytes :=
  if r.pageNo ∈ H.pages ∧ 0 ≤ r.slotNo then (H.page r.pageNo).rec? r.slotNo.toNat else none

/-- The RIDs of a page from slot `k` on. -/
def ridsFrom (H : Heap) (k : Nat) (p : Int) : List RID :=
  ((H.page p).live.filter (k ≤ ·)).map fun j : Nat => ⟨p, (j : Int)⟩

/-- The RIDs of all records, in the order of the chain and of the slots. -/
def rids (H : Heap) : List RID := H.pages.flatMap (H.ridsFrom 0)

/-- The record count of the header is the number of records. -/
def Counted (H : Heap) : Prop := H.hdr.recCnt = H.rids.length

/-- No record is empty. -/
def Sized (H : Heap) : Prop := ∀ r b, H.rec? r = some b → b ≠ []

theorem Sized.insert {H H' : Heap} {rid : RID} {b : Bytes} (h : H.Sized) (hb : b ≠ [])
    (hrec : H'.rec? = Function.update H.rec? rid (some b)) : H'.Sized := by
  intro r b' hr
  rw [hrec] at hr
  by_cases hrid : r = rid
  · subst hrid
    rw [Function.update_self] at hr
    cases hr
    exact hb
  · rw [Function.update_of_ne hrid] at hr
    exact h r b' hr

theorem Sized.delete {H H' : Heap} {rid : RID} (h : H.Sized)
    (hrec : H'.rec? = Function.update H.rec? rid none) : H'.Sized := by
  intro r b hr
  rw [hrec] at hr
  by_cases hrid : r = rid
  · subst hrid
    rw [Function.update_self] at hr
    cases hr
  · rw [Function.update_of_ne hrid] at hr
    exact h r b hr

/-- The file is not moved, and its pages stay in the chain. -/
def Le (H H' : Heap) : Prop := H'.hdrNo = H.hdrNo ∧ ∀ p ∈ H.pages, p ∈ H'.pages

theorem Le.refl (H : Heap) : H.Le H := ⟨rfl, fun _ h => h⟩

theorem Le.trans {H₁ H₂ H₃ : Heap} (h : H₁.Le H₂) (h' : H₂.Le H₃) : H₁.Le H₃ :=
  ⟨h'.1.trans h.1, fun p hp => h'.2 p (h.2 p hp)⟩

/-- The file has the same pages. -/
structure SamePages (H H' : Heap) : Prop where
  hdrNo : H'.hdrNo = H.hdrNo
  pages : H'.pages = H.pages

namespace SamePages

variable {H₁ H₂ H₃ : Heap}

theorem refl (H : Heap) : H.SamePages H := ⟨rfl, rfl⟩

theorem trans (h : H₁.SamePages H₂) (h' : H₂.SamePages H₃) : H₁.SamePages H₃ :=
  ⟨h'.hdrNo.trans h.hdrNo, h'.pages.trans h.pages⟩

theorem le (h : H₁.SamePages H₂) : H₁.Le H₂ := ⟨h.hdrNo, fun p hp => by rwa [h.pages]⟩

end SamePages

end Heap

namespace FileView

/-- The content of a page under the layout of a heap file header. -/
def hdr? (fv : FileView) (p : Int) : Option FileHdrPage := (fv.cur p).map Block.asFileHdr

/-- The content of a page under the layout of a data page. -/
def page? (fv : FileView) (p : Int) : Option Page := (fv.cur p).map Block.asPage

end FileView

/-- The file is a well-formed heap file with the given pages. -/
structure HeapAt (fv : FileView) (H : Heap) : Prop where
  first : fv.first = H.hdrNo
  hdr_alloc : fv.alloc H.hdrNo
  hdr : fv.hdr? H.hdrNo = some H.hdr
  linked : Linked (fun p => (H.page p).nextPage) (-1) H.hdr.firstPage H.pages
  last : H.pages.getLast? = some H.hdr.lastPage
  pageCnt : H.hdr.pageCnt = H.pages.length
  hdr_not_mem : H.hdrNo ∉ H.pages
  alloc : ∀ p ∈ H.pages, fv.alloc p
  page : ∀ p ∈ H.pages, fv.page? p = some (H.page p)
  wf : ∀ p ∈ H.pages, (H.page p).WF
  curPage : ∀ p ∈ H.pages, (H.page p).curPage = p

namespace HeapAt

variable {fv fv' : FileView} {H : Heap} {p : Int} {r : RID} {b : Bytes}

theorem nodup (h : HeapAt fv H) : H.pages.Nodup := h.linked.nodup

theorem last_mem (h : HeapAt fv H) : H.hdr.lastPage ∈ H.pages := List.mem_of_getLast? h.last

theorem pages_ne_nil (h : HeapAt fv H) : H.pages ≠ [] := by
  intro hn
  have := h.last
  rw [hn] at this
  cases this

/-- The chain starts at `firstPage`. -/
theorem first_mem (h : HeapAt fv H) : H.hdr.firstPage ∈ H.pages := by
  obtain ⟨l, hl, -⟩ := h.linked.exists_cons fun he => h.pages_ne_nil (h.linked.eq_nil_iff.mpr he)
  rw [hl]
  exact List.mem_cons_self

theorem exists_hdr (h : HeapAt fv H) : ∃ blk, fv.cur H.hdrNo = some blk ∧ blk.asFileHdr = H.hdr :=
  Option.map_eq_some_iff.mp h.hdr

theorem exists_page (h : HeapAt fv H) (hp : p ∈ H.pages) :
    ∃ blk, fv.cur p = some blk ∧ blk.asPage = H.page p := Option.map_eq_some_iff.mp (h.page p hp)

/-- What is kept on disk does not matter. -/
theorem congr (h : HeapAt fv H) (hf : fv'.first = fv.first) (ha : fv'.alloc = fv.alloc)
    (hc : fv'.cur = fv.cur) : HeapAt fv' H where
  first := hf.trans h.first
  hdr_alloc := ha ▸ h.hdr_alloc
  hdr := by
    unfold FileView.hdr?
    rw [hc]
    exact h.hdr
  linked := h.linked
  last := h.last
  pageCnt := h.pageCnt
  hdr_not_mem := h.hdr_not_mem
  alloc := ha ▸ h.alloc
  page := by
    unfold FileView.page?
    rw [hc]
    exact h.page
  wf := h.wf
  curPage := h.curPage

theorem forget (h : HeapAt fv H) : HeapAt (fv.forget p) H := h.congr rfl rfl rfl

/-! ## The RIDs of a heap file -/

theorem rec?_of_mem {j : Nat} (hp : p ∈ H.pages) : H.rec? ⟨p, j⟩ = (H.page p).rec? j := by
  unfold Heap.rec?
  rw [if_pos ⟨hp, Int.natCast_nonneg j⟩, Int.toNat_natCast]

theorem mem_ridsFrom (h : HeapAt fv H) (hp : p ∈ H.pages) {k : Nat} :
    r ∈ H.ridsFrom k p ↔ r.pageNo = p ∧ k ≤ r.slotNo ∧ H.rec? r ≠ none := by
  unfold Heap.ridsFrom
  simp only [List.mem_map, List.mem_filter, Page.mem_live (h.wf p hp), decide_eq_true_eq]
  constructor
  · rintro ⟨j, ⟨hj, hk⟩, rfl⟩
    refine ⟨rfl, show (k : Int) ≤ (j : Int) by omega, ?_⟩
    rwa [rec?_of_mem hp]
  · rintro ⟨rfl, hk, hr⟩
    have h0 : ((r.slotNo.toNat : Nat) : Int) = r.slotNo := Int.toNat_of_nonneg (by omega)
    refine ⟨r.slotNo.toNat, ⟨?_, by omega⟩, by rw [h0]⟩
    rwa [← rec?_of_mem hp, h0]

theorem mem_rids (h : HeapAt fv H) : r ∈ H.rids ↔ H.rec? r ≠ none := by
  unfold Heap.rids
  rw [List.mem_flatMap]
  constructor
  · rintro ⟨p, hp, hr⟩
    exact ((h.mem_ridsFrom hp).mp hr).2.2
  · intro hr
    have hc : r.pageNo ∈ H.pages ∧ 0 ≤ r.slotNo := by
      by_contra hc
      exact hr (if_neg hc)
    exact ⟨r.pageNo, hc.1, (h.mem_ridsFrom hc.1).mpr ⟨rfl, by omega, hr⟩⟩

theorem nodup_ridsFrom (H : Heap) (k : Nat) (p : Int) : (H.ridsFrom k p).Nodup := by
  refine ((H.page p).nodup_live.filter _).map ?_
  intro i j hij
  have := congrArg RID.slotNo hij
  dsimp only at this
  omega

theorem nodup_rids (h : HeapAt fv H) : H.rids.Nodup := by
  unfold Heap.rids
  rw [List.nodup_flatMap]
  refine ⟨fun p _ => nodup_ridsFrom H 0 p, ?_⟩
  refine h.nodup.pairwise_of_forall_ne fun p hp q hq hpq => ?_
  intro r hr hr'
  exact hpq (((h.mem_ridsFrom hp).mp hr).1.symm.trans ((h.mem_ridsFrom hq).mp hr').1)

/-- The number of records of a file with one record more. -/
theorem length_rids_insert {H' : Heap} (h : HeapAt fv H) (h' : HeapAt fv' H')
    (hnone : H.rec? r = none) (hrec : H'.rec? = Function.update H.rec? r (some b)) :
    H'.rids.length = H.rids.length + 1 := by
  have hr : r ∉ H.rids := fun hm => h.mem_rids.mp hm hnone
  have hperm : H'.rids.Perm (r :: H.rids) := by
    rw [List.perm_ext_iff_of_nodup h'.nodup_rids (List.nodup_cons.mpr ⟨hr, h.nodup_rids⟩)]
    intro q
    rw [h'.mem_rids, List.mem_cons, h.mem_rids, hrec]
    by_cases hq : q = r
    · subst hq
      simp
    · rw [Function.update_of_ne hq]
      simp [hq]
  exact hperm.length_eq

/-- The number of records of a file with one record less. -/
theorem length_rids_delete {H' : Heap} (h : HeapAt fv H) (h' : HeapAt fv' H')
    (hsome : H.rec? r = some b) (hrec : H'.rec? = Function.update H.rec? r none) :
    H.rids.length = H'.rids.length + 1 := by
  refine length_rids_insert (r := r) (b := b) h' h ?_ ?_
  · rw [hrec, Function.update_self]
  · rw [hrec, Function.update_idem, ← hsome, Function.update_eq_self]

/-! ## Changes of a heap file -/

end HeapAt

namespace Heap

/-- The file with the record count of the header replaced. -/
def setRecCnt (H : Heap) (n : Int) : Heap := { H with hdr := { H.hdr with recCnt := n } }

/-- The file with a data page replaced. -/
def setPage (H : Heap) (p : Int) (pg : Page) : Heap :=
  { H with page := Function.update H.page p pg }

/-- The file with a page linked to the end of the chain. -/
def append (H : Heap) (q : Int) (pg : Page) : Heap where
  hdrNo := H.hdrNo
  hdr := { H.hdr with lastPage := q, pageCnt := H.hdr.pageCnt + 1 }
  pages := H.pages ++ [q]
  page := Function.update
    (Function.update H.page H.hdr.lastPage ((H.page H.hdr.lastPage).setNextPage q)) q pg

@[simp] theorem rec?_setRecCnt (H : Heap) (n : Int) : (H.setRecCnt n).rec? = H.rec? := rfl

@[simp] theorem rids_setRecCnt (H : Heap) (n : Int) : (H.setRecCnt n).rids = H.rids := rfl

theorem le_setRecCnt (H : Heap) (n : Int) : H.Le (H.setRecCnt n) := ⟨rfl, fun _ h => h⟩

theorem le_setPage (H : Heap) (p : Int) (pg : Page) : H.Le (H.setPage p pg) :=
  ⟨rfl, fun _ h => h⟩

theorem le_append (H : Heap) (q : Int) (pg : Page) : H.Le (H.append q pg) :=
  ⟨rfl, fun _ h => List.mem_append_left _ h⟩

theorem page_setPage_self (H : Heap) (p : Int) (pg : Page) : (H.setPage p pg).page p = pg :=
  Function.update_self _ _ _

theorem page_setPage_of_ne (H : Heap) {p q : Int} (h : q ≠ p) (pg : Page) :
    (H.setPage p pg).page q = H.page q := Function.update_of_ne h _ _

theorem page_append_self (H : Heap) (q : Int) (pg : Page) : (H.append q pg).page q = pg :=
  Function.update_self _ _ _

theorem page_append_of_ne (H : Heap) {p q : Int} (h : p ≠ q) (pg : Page) :
    (H.append q pg).page p =
      if p = H.hdr.lastPage then (H.page H.hdr.lastPage).setNextPage q else H.page p := by
  show Function.update _ _ _ p = _
  rw [Function.update_of_ne h]
  split
  next he => rw [he, Function.update_self]
  next hne => rw [Function.update_of_ne hne]

/-- A change of one slot of a page in the chain. -/
theorem rec?_setPage {H : Heap} {p : Int} {pg : Page} {j : Nat} {o : Option Bytes}
    (hp : p ∈ H.pages) (h : pg.rec? = Function.update (H.page p).rec? j o) :
    (H.setPage p pg).rec? = Function.update H.rec? ⟨p, j⟩ o := by
  funext r
  by_cases hr : r = ⟨p, j⟩
  · subst hr
    rw [Function.update_self, Heap.rec?, if_pos ⟨hp, Int.natCast_nonneg j⟩, page_setPage_self, h,
      Int.toNat_natCast, Function.update_self]
  · rw [Function.update_of_ne hr]
    unfold rec?
    by_cases hpr : r.pageNo = p
    · subst hpr
      rw [page_setPage_self, h]
      show (if r.pageNo ∈ H.pages ∧ 0 ≤ r.slotNo then _ else none) = _
      split
      next hc =>
        rw [Function.update_of_ne]
        rintro rfl
        exact hr (by rw [Int.toNat_of_nonneg hc.2])
      next => rfl
    · rw [page_setPage_of_ne H hpr]
      rfl

/-- Linking a page without records does not change the records. -/
theorem rec?_append {H : Heap} {q : Int} {pg : Page} (hq : q ∉ H.pages)
    (h : ∀ j, pg.rec? j = none) : (H.append q pg).rec? = H.rec? := by
  funext r
  unfold rec?
  by_cases hr : r.pageNo = q
  · rw [hr, page_append_self, h, ite_self, if_neg fun hc => hq hc.1]
  · rw [page_append_of_ne H hr]
    have hmem : r.pageNo ∈ (H.append q pg).pages ↔ r.pageNo ∈ H.pages := by
      show r.pageNo ∈ H.pages ++ [q] ↔ _
      simp [hr]
    simp only [hmem]
    congr 1
    split
    next he => rw [he, Page.rec?_setNextPage]
    next => rfl

end Heap

namespace FileView

variable {fv : FileView} {p q : Int} {blk : Block}

@[simp] theorem first_assign : (fv.assign p blk).first = fv.first := rfl

@[simp] theorem alloc_assign : (fv.assign p blk).alloc = fv.alloc := rfl

@[simp] theorem kept_assign : (fv.assign p blk).kept = fv.kept := rfl

@[simp] theorem cur_assign_self : (fv.assign p blk).cur p = some blk := Function.update_self _ _ _

theorem cur_assign_of_ne (h : q ≠ p) : (fv.assign p blk).cur q = fv.cur q :=
  Function.update_of_ne h _ _

@[simp] theorem hdr?_assign_self : (fv.assign p blk).hdr? p = some blk.asFileHdr := by
  rw [hdr?, cur_assign_self]
  rfl

theorem hdr?_assign_of_ne (h : q ≠ p) : (fv.assign p blk).hdr? q = fv.hdr? q := by
  rw [hdr?, cur_assign_of_ne h]
  rfl

@[simp] theorem page?_assign_self : (fv.assign p blk).page? p = some blk.asPage := by
  rw [page?, cur_assign_self]
  rfl

theorem page?_assign_of_ne (h : q ≠ p) : (fv.assign p blk).page? q = fv.page? q := by
  rw [page?, cur_assign_of_ne h]
  rfl

theorem cur_allocate_of_ne (h : q ≠ p) : (fv.allocate p).cur q = fv.cur q :=
  Function.update_of_ne h _ _

end FileView

namespace HeapAt

variable {fv fv' : FileView} {H : Heap} {p : Int} {r : RID} {b : Bytes}

/-- The record count of the header changes. -/
theorem setRecCnt (h : HeapAt fv H) (n : Int) :
    HeapAt (fv.assign H.hdrNo (.fileHdr { H.hdr with recCnt := n })) (H.setRecCnt n) where
  first := h.first
  hdr_alloc := h.hdr_alloc
  hdr := FileView.hdr?_assign_self
  linked := h.linked
  last := h.last
  pageCnt := h.pageCnt
  hdr_not_mem := h.hdr_not_mem
  alloc := h.alloc
  page p hp := by
    have hne : p ≠ H.hdrNo := fun he => h.hdr_not_mem (he ▸ hp)
    rw [FileView.page?_assign_of_ne hne]
    exact h.page p hp
  wf := h.wf
  curPage := h.curPage

/-- The records of a data page change. -/
theorem setPage {pg : Page} (h : HeapAt fv H) (hp : p ∈ H.pages) (hwf : pg.WF)
    (hcur : pg.curPage = (H.page p).curPage) (hnext : pg.nextPage = (H.page p).nextPage) :
    HeapAt (fv.assign p (.page pg)) (H.setPage p pg) where
  first := h.first
  hdr_alloc := h.hdr_alloc
  hdr := by
    have hne : H.hdrNo ≠ p := fun he => h.hdr_not_mem (he ▸ hp)
    show (fv.assign p (.page pg)).hdr? H.hdrNo = _
    rw [FileView.hdr?_assign_of_ne hne]
    exact h.hdr
  linked := by
    refine h.linked.congr fun q _ => ?_
    by_cases hq : q = p
    · subst hq
      rw [Heap.page_setPage_self, hnext]
    · rw [Heap.page_setPage_of_ne H hq]
  last := h.last
  pageCnt := h.pageCnt
  hdr_not_mem := h.hdr_not_mem
  alloc := h.alloc
  page q hq := by
    by_cases hqp : q = p
    · subst hqp
      rw [Heap.page_setPage_self, FileView.page?_assign_self]
      rfl
    · rw [Heap.page_setPage_of_ne H hqp, FileView.page?_assign_of_ne hqp]
      exact h.page q hq
  wf q hq := by
    by_cases hqp : q = p
    · subst hqp
      rw [Heap.page_setPage_self]
      exact hwf
    · rw [Heap.page_setPage_of_ne H hqp]
      exact h.wf q hq
  curPage q hq := by
    by_cases hqp : q = p
    · subst hqp
      rw [Heap.page_setPage_self, hcur]
      exact h.curPage q hq
    · rw [Heap.page_setPage_of_ne H hqp]
      exact h.curPage q hq

/-- A page is allocated, but not linked into the chain. -/
theorem allocate {q : Int} (h : HeapAt fv H) (hq : ¬fv.alloc q) (hpos : 1 ≤ H.hdrNo) :
    HeapAt (fv.allocate q) H := by
  have hne : ∀ p, fv.alloc p → p ≠ q := by
    rintro p hp rfl
    exact hq hp
  refine ⟨?_, Or.inr h.hdr_alloc, ?_, h.linked, h.last, h.pageCnt, h.hdr_not_mem,
    fun p hp => Or.inr (h.alloc p hp), fun p hp => ?_, h.wf, h.curPage⟩
  · show (if fv.first = -1 then q else fv.first) = H.hdrNo
    rw [h.first, if_neg (by omega)]
  · unfold FileView.hdr?
    rw [FileView.cur_allocate_of_ne (hne _ h.hdr_alloc)]
    exact h.hdr
  · unfold FileView.page?
    rw [FileView.cur_allocate_of_ne (hne _ (h.alloc p hp))]
    exact h.page p hp

/-- A page that has been allocated is linked to the end of the chain. -/
theorem append {q : Int} {pg : Page} (h : HeapAt fv H) (hq : fv.alloc q) (hqp : q ∉ H.pages)
    (hqh : q ≠ H.hdrNo) (hqs : q ≠ -1) (hwf : pg.WF) (hcur : pg.curPage = q)
    (hnext : pg.nextPage = -1) {fv' : FileView} (hfirst : fv'.first = fv.first)
    (halloc : fv'.alloc = fv.alloc)
    (hhdr : fv'.hdr? H.hdrNo = some (H.append q pg).hdr)
    (hnew : fv'.page? q = some pg)
    (hlast : fv'.page? H.hdr.lastPage = some ((H.page H.hdr.lastPage).setNextPage q))
    (hother : ∀ p, p ≠ H.hdrNo → p ≠ q → p ≠ H.hdr.lastPage → fv'.page? p = fv.page? p) :
    HeapAt fv' (H.append q pg) := by
  have hmem : ∀ p, p ∈ (H.append q pg).pages ↔ p ∈ H.pages ∨ p = q := fun p => by
    show p ∈ H.pages ++ [q] ↔ _
    simp
  have hne : ∀ p ∈ H.pages, p ≠ q := by
    rintro p hp rfl
    exact hqp hp
  -- every page of the old chain, as it is now
  have hold : ∀ p ∈ H.pages, (H.append q pg).page p =
      if p = H.hdr.lastPage then (H.page p).setNextPage q else H.page p := by
    intro p hp
    rw [Heap.page_append_of_ne H (hne p hp)]
    split
    next he => rw [he]
    next => rfl
  refine ⟨hfirst.trans h.first, halloc ▸ h.hdr_alloc, hhdr, ?_, ?_, ?_, fun hm => ?_,
    fun p hp => ?_,
    fun p hp => ?_, fun p hp => ?_, fun p hp => ?_⟩
  · obtain ⟨l, hl⟩ : ∃ l, H.pages = l ++ [H.hdr.lastPage] :=
      ⟨H.pages.dropLast, (List.dropLast_append_getLast? _ h.last).symm⟩
    have hlink := h.linked
    rw [hl] at hlink
    have key := hlink.append_new (b := q) (hl ▸ hqp) hqs
    have hpages : (H.append q pg).pages = l ++ [H.hdr.lastPage, q] := by
      show H.pages ++ [q] = _
      rw [hl, List.append_assoc]
      rfl
    rw [hpages]
    refine key.congr fun p hp => ?_
    by_cases hpq : p = q
    · subst hpq
      rw [Heap.page_append_self, if_pos rfl, hnext]
    · rw [Heap.page_append_of_ne H hpq, if_neg hpq]
      split
      next => rw [Page.nextPage_setNextPage]
      next => rfl
  · show (H.pages ++ [q]).getLast? = some q
    simp
  · show H.hdr.pageCnt + 1 = ((H.pages ++ [q]).length : Int)
    rw [h.pageCnt, List.length_append]
    simp
  · exact ((hmem _).mp hm).elim h.hdr_not_mem fun he => hqh he.symm
  · rw [halloc]
    rcases (hmem p).mp hp with hp | rfl
    · exact h.alloc p hp
    · exact hq
  · rcases (hmem p).mp hp with hp | rfl
    · rw [hold p hp]
      split
      next he => rw [he, hlast]
      next hpl =>
        rw [hother p (fun he => h.hdr_not_mem (he ▸ hp)) (hne p hp) hpl]
        exact h.page p hp
    · rw [Heap.page_append_self, hnew]
  · rcases (hmem p).mp hp with hp | rfl
    · rw [hold p hp]
      split
      · exact Page.wf_setNextPage (h.wf p hp) q
      · exact h.wf p hp
    · rw [Heap.page_append_self]
      exact hwf
  · rcases (hmem p).mp hp with hp | rfl
    · rw [hold p hp]
      split
      · exact h.curPage p hp
      · exact h.curPage p hp
    · rw [Heap.page_append_self, hcur]

end HeapAt

end Minirel
