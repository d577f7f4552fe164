import Minirel.HeapFile.Objects

/-!
# Creating heap files

`createHeapFile` makes a Unix file with two pages: a header page and a data page without records.

## Main definitions

* `Heap.fresh`: the pages of a new heap file.

## Main results

* `createHeapFile_spec`: the file is created, and is not open afterwards.
* `createHeapFile_exists`: a file that exists is left alone, but it is left open.
-/

namespace Minirel

open Comp

/-- A heap file without records: a header page and an empty data page. -/
def Heap.fresh (nm : FileName) (p q : Int) (pg : Page) : Heap where
  hdrNo := p
  hdr := ⟨strncpy nm MAXNAMESIZE, q, q, 1, 0⟩
  pages := [q]
  page := fun _ => (pg.init q).setNextPage (-1)

namespace Heap

variable {nm : FileName} {p q : Int} {pg : Page}

theorem rec?_fresh (r : RID) : (fresh nm p q pg).rec? r = none := by
  unfold rec?
  split
  · exact Page.rec?_init pg q _
  · rfl

theorem rids_fresh : (fresh nm p q pg).rids = [] := by
  have hlive : ((fresh nm p q pg).page q).live = [] := by
    unfold Page.live
    rw [List.filter_eq_nil_iff]
    intro j _
    rw [show ((fresh nm p q pg).page q).rec? j = none from Page.rec?_init pg q j]
    decide
  show [q].flatMap _ = []
  simp only [List.flatMap_cons, List.flatMap_nil, List.append_nil, ridsFrom, hlive]
  rfl

theorem counted_fresh : (fresh nm p q pg).Counted := by
  unfold Counted
  rw [rids_fresh]
  rfl

end Heap

variable {T : Prop} {s : Sys} {P : Multiset Pin} {v : View} {nm : FileName} {fv : FileView}

/-- The pages of a new file, as their client writes them. -/
theorem HeapAt.fresh {p q : Int} {pg : Page} (hpq : q ≠ p) (hq : q ≠ -1) (hfirst : fv.first = p)
    (hp : fv.alloc p) (hqa : fv.alloc q)
    (hhdr : fv.hdr? p = some ⟨strncpy nm MAXNAMESIZE, q, q, 1, 0⟩)
    (hpage : fv.page? q = some ((pg.init q).setNextPage (-1))) :
    HeapAt fv (Heap.fresh nm p q pg) where
  first := hfirst
  hdr_alloc := hp
  hdr := hhdr
  linked := ⟨rfl, hq, rfl⟩
  last := rfl
  pageCnt := rfl
  hdr_not_mem hm := hpq (List.mem_singleton.mp hm).symm
  alloc r hr := by
    rw [List.mem_singleton.mp hr]
    exact hqa
  page r hr := by
    rw [List.mem_singleton.mp hr]
    exact hpage
  wf _ _ := Page.wf_setNextPage (Page.wf_init _ _) _
  curPage r hr := (List.mem_singleton.mp hr).symm

/-- `BufMgr::allocPage`, when frames are left or the pool may be full. -/
theorem clean_allocPage {f : FilePtr} {c : Int} (hc : Coh s P v) (hh : v.handle nm = some (f, c))
    (hf : v.file nm = some fv) (hT : T → 0 < freeFrames v.numBufs P) (page : PagePtr) :
    Clean T (BufMgr.allocPage f page) s fun r s' => ∃ p n, ¬fv.alloc p ∧ 1 ≤ p ∧
      r = (.OK, p, .frame n) ∧
      Coh s' (⟨f, p, n, false⟩ ::ₘ P) (v.setFile nm (some (fv.allocate p))) := by
  refine Runs.mono (hc.allocPage hh hf page) ?_
  rintro r e s' ⟨p, hp, hp₁, (⟨rfl, -, hfull, -⟩ | ⟨rfl, n, hr, -, hc'⟩)⟩
  · refine ⟨fun ht => ?_, nofun⟩
    exact absurd (hc.freeFrames_eq_zero hfull) (Nat.ne_of_gt (hT ht))
  · exact ⟨fun _ => rfl, fun _ => ⟨p, n, hp, hp₁, hr, hc'⟩⟩

/-- `createHeapFile` of a file that exists refuses to create it, but has opened it. -/
theorem createHeapFile_exists (hc : Coh s P v) (hnm : nm ≠ []) (hf : v.file nm = some fv)
    (hpos : ∀ f c, v.handle nm = some (f, c) → 0 < c) :
    ∃ f s', Yields (createHeapFile nm) s .FILEEXISTS false s' ∧
      Coh s' P (v.setHandle nm (some (f, v.openCnt nm + 1))) ∧
      (∀ f' c', v.handle nm = some (f', c') → f = f') := by
  obtain ⟨f, s', hy, -, hc', hsame⟩ := hc.openFile hnm hf hpos
  refine ⟨f, s', ?_, hc', hsame⟩
  unfold createHeapFile
  exact hy.bind (Yields.pure _ _)

/-- `createHeapFile` of a file that does not exist. -/
theorem createHeapFile_spec (hc : Coh s P v) (hnm : nm ≠ []) (hf : v.file nm = none)
    (hforeign : ¬v.foreign nm) (hT : T → 2 ≤ freeFrames v.numBufs P) :
    Clean T (createHeapFile nm) s fun st s' => st = .OK ∧ ∃ p q pg fv',
      Coh s' P (v.setFile nm (some fv')) ∧ HeapAt fv' (Heap.fresh nm p q pg) := by
  have hh := hc.handle_eq_none hf
  obtain ⟨g, s₁, hy₁, hc₁, -⟩ := hc.openFile_absent hnm hf hforeign
  obtain ⟨s₂, hy₂, hc₂⟩ := hc₁.createFile hnm hf hforeign
  have hh₂ : (v.setFile nm (some FileView.empty)).handle nm = none := hh
  obtain ⟨f, s₃, hy₃, -, hc₃, -⟩ := hc₂.openFile hnm View.file_setFile_self fun f c he => by
    rw [hh₂] at he
    cases he
  have hcnt : (v.setFile nm (some FileView.empty)).openCnt nm + 1 = 1 := by
    unfold View.openCnt
    rw [hh₂]
    rfl
  rw [hcnt] at hc₃
  set w : View := v.setHandle nm (some (f, 1)) with hw
  have hwf : ∀ o, (v.setFile nm o).setHandle nm (some (f, 1)) = w.setFile nm o := fun o => rfl
  rw [hwf] at hc₃
  have hhw : ∀ o, (w.setFile nm o).handle nm = some (f, 1) := fun o => View.handle_setHandle_self
  unfold createHeapFile
  rw [clean_bind_of_yields hy₁]
  dsimp only
  rw [if_neg (by decide), clean_bind_of_yields hy₂, if_neg (by decide), clean_bind_of_yields hy₃]
  dsimp only
  rw [if_neg (by decide)]
  -- the header page
  refine (clean_allocPage hc₃ (hhw _) View.file_setFile_self (fun ht => ?_) .wild).bind ?_
  · have := hT ht
    show 0 < freeFrames v.numBufs P
    omega
  rintro ⟨st, p, hdrPage⟩ s₄ ⟨p', n, -, hp₁, hr, hc₄⟩
  cases hr
  rw [View.setFile_setFile] at hc₄
  dsimp only
  rw [if_neg fun hn => hn rfl]
  set fv₄ := FileView.empty.allocate p with hfv₄
  have hd₄ : Yields (derefPage (.frame n)) s₄ (s₄.buf.bufPool n) false s₄ := rfl
  obtain ⟨s₅, hy₅, hc₅⟩ := hc₄.assignPage (x := ⟨f, p, n, false⟩) (hhw _) View.file_setFile_self
    (.fileHdr { (s₄.buf.bufPool n).asFileHdr with fileName := strncpy nm MAXNAMESIZE })
  rw [View.setFile_setFile] at hc₅
  rw [clean_bind_of_yields hd₄, clean_bind_of_yields hy₅]
  -- the data page
  refine (clean_allocPage hc₅ (hhw _) View.file_setFile_self (fun ht => ?_) _).bind ?_
  · have := hT ht
    have := freeFrames_cons v.numBufs ⟨f, p, n, true⟩ P
    show 0 < freeFrames v.numBufs (⟨f, p, n, true⟩ ::ₘ P)
    omega
  rintro ⟨st, q, newPage⟩ s₆ ⟨q', m, hq, hq₁, hr, hc₆⟩
  cases hr
  rw [View.setFile_setFile] at hc₆
  dsimp only
  rw [if_neg fun hn => hn rfl]
  set fv₅ := fv₄.assign p (.fileHdr { (s₄.buf.bufPool n).asFileHdr with
    fileName := strncpy nm MAXNAMESIZE }) with hfv₅
  have hqp : q ≠ p := fun he => hq (Or.inl he)
  set fv₆ := fv₅.allocate q with hfv₆
  have hd₆ : Yields (derefPage (.frame m)) s₆ (s₆.buf.bufPool m) false s₆ := rfl
  set pg := (s₆.buf.bufPool m).asPage with hpg
  obtain ⟨s₇, hy₇, hc₇⟩ := hc₆.assignPage (x := ⟨f, q, m, false⟩) (hhw _) View.file_setFile_self
    (.page ((pg.init q).setNextPage (-1)))
  rw [View.setFile_setFile, Multiset.cons_swap] at hc₇
  set fv₇ := fv₆.assign q (.page ((pg.init q).setNextPage (-1))) with hfv₇
  rw [clean_bind_of_yields hd₆, clean_bind_of_yields hy₇]
  -- the header again
  have hcur₇ : fv₇.cur p = some (.fileHdr { (s₄.buf.bufPool n).asFileHdr with
      fileName := strncpy nm MAXNAMESIZE }) := by
    rw [hfv₇, FileView.cur_assign_of_ne hqp.symm, hfv₆, FileView.cur_allocate_of_ne hqp.symm, hfv₅,
      FileView.cur_assign_self]
  have hd₇ := hc₇.derefPage (x := ⟨f, p, n, true⟩) (Multiset.mem_cons_self _ _) (hhw _)
    View.file_setFile_self hcur₇
  have hd₇' : Yields (derefPage (.frame n)) s₇ _ false s₇ := hd₇
  obtain ⟨s₈, hy₈, hc₈⟩ := hc₇.assignPage (x := ⟨f, p, n, true⟩) (hhw _) View.file_setFile_self
    (.fileHdr ⟨strncpy nm MAXNAMESIZE, q, q, 1, 0⟩)
  rw [View.setFile_setFile, Multiset.cons_swap] at hc₈
  set fv₈ := fv₇.assign p (.fileHdr ⟨strncpy nm MAXNAMESIZE, q, q, 1, 0⟩) with hfv₈
  rw [clean_bind_of_yields hd₇']
  have hy₈' : Yields (assignPage (.frame n) (.fileHdr ⟨strncpy nm MAXNAMESIZE, q, q, 1, 0⟩)) s₇ ()
      false s₈ := hy₈
  rw [Block.asFileHdr_fileHdr, clean_bind_of_yields hy₈']
  -- both pages are given back and the file is closed
  obtain ⟨s₉, hy₉, hc₉⟩ := hc₈.unPinPage (x := ⟨f, q, m, true⟩) (hhw _)
    View.file_setFile_self (show true = true → true = true from id)
  rw [View.setFile_setFile] at hc₉
  obtain ⟨s₁₀, hy₁₀, hc₁₀⟩ := hc₉.unPinPage (x := ⟨f, p, n, true⟩) (hhw _)
    View.file_setFile_self (show true = true → true = true from id)
  rw [View.setFile_setFile] at hc₁₀
  have hy₉' : Yields (BufMgr.unPinPage f q true) s₈ .OK false s₉ := hy₉
  have hy₁₀' : Yields (BufMgr.unPinPage f p true) s₉ .OK false s₁₀ := hy₁₀
  rw [clean_bind_of_yields hy₉', if_neg fun hn => hn rfl, clean_bind_of_yields hy₁₀',
    if_neg fun hn => hn rfl]
  -- no page of the new file is pinned by another client
  have hnopin : ∀ x ∈ P, x.file ≠ f := by
    rintro x hx rfl
    obtain ⟨nm', c', fv', h₁, -, -⟩ := hc.cached _ _ _ (hc.pins x hx)
    have hne : nm' ≠ nm := by
      rintro rfl
      rw [hh] at h₁
      cases h₁
    refine hne (hc₁₀.name_unique (c := c') ?_ (hhw _))
    exact (View.handle_setHandle_of_ne hne).trans h₁
  have hf₀ : f ≠ 0 := (hc₁₀.opened nm f 1 (hhw _)).ne_zero
  obtain ⟨st, s₁₁, hy₁₁, hc₁₁, (⟨rfl, -⟩ | ⟨-, x, hx, hxf⟩)⟩ := hc₁₀.flushFile hf₀
  swap
  · exact absurd hxf (hnopin x hx)
  obtain ⟨s₁₂, hy₁₂, hc₁₂⟩ := hc₁₁.closeFile (hhw _) (by decide) fun _ => hnopin
  rw [clean_bind_of_yields hy₁₁, if_neg fun hn => hn rfl]
  have hend : Clean T (DB.closeFile f) s₁₁ fun st s' => st = .OK ∧ s' = s₁₂ :=
    Runs.of_yields hy₁₂ ⟨fun _ => rfl, fun _ => ⟨rfl, rfl⟩⟩
  refine hend.mono ?_
  rintro st s' ⟨rfl, rfl⟩
  refine ⟨rfl, p, q, pg, ?_⟩
  have hc₁₂' : Coh s' P ((w.setHandle nm none).setFile nm (some ((fv₈.forget q).forget p))) := hc₁₂
  rw [hw, View.setHandle_setHandle, View.setHandle_self hh] at hc₁₂'
  refine ⟨(fv₈.forget q).forget p, ?_, ?_⟩
  · exact hc₁₂'
  · refine HeapAt.forget (HeapAt.forget (HeapAt.fresh hqp (by omega) ?_ ?_ (Or.inl rfl) ?_ ?_))
    · show (if (if (-1 : Int) = -1 then p else -1) = -1 then q
        else if (-1 : Int) = -1 then p else -1) = p
      rw [if_pos rfl, if_neg (by omega)]
    · exact Or.inr (Or.inl rfl)
    · rw [hfv₈, FileView.hdr?_assign_self]
      rfl
    · rw [hfv₈, FileView.page?_assign_of_ne hqp, hfv₇, FileView.page?_assign_self]
      rfl

end Minirel
