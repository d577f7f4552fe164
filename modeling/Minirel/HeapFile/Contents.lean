import Minirel.HeapFile.Cursor
import Mathlib.Data.Int.Interval

/-!
# What is in a heap file

The contents of a heap file read off the state of a process: the header page and the pages of the
chain, each from the frame that holds it or from the disk. This is what the results about programs
are stated with; that the file is as its clients see it follows from coherence.

## Main definitions

* `Sys.block?`: the content of a page of a file.
* `Sys.heap?`: the pages of a heap file.
* `Heap.Chained`: the header describes the chain.
* `Heap.Same`: two descriptions of a heap file agree on its pages.

## Main results

* `Coh.heap?`: in a coherent state the file of a client is the one that is read off the state.
-/

namespace Minirel

namespace Sys

/-- The content of a page: that of the frame that holds it, and otherwise what is on disk. -/
def block? (s : Sys) (nm : FileName) (p : Int) : Option Block :=
  match (s.openFiles.find nm).bind fun file => s.buf.hashTable.lookup file p with
  | some n => some (s.buf.bufPool n)
  | none => (s.unix nm).bind fun uf => uf.page? p

/-- A page under the layout of a data page. -/
def page? (s : Sys) (nm : FileName) (p : Int) : Option Page := (s.block? nm p).map Block.asPage

/-- The chain of the data pages from `p` on, if it comes to an end within the given number of
pages. -/
def chain (s : Sys) (nm : FileName) : Nat → Int → Option (List Int)
  | 0, _ => none
  | n + 1, p =>
    if p = -1 then some []
    else (s.page? nm p).bind fun pg => (chain s nm n pg.nextPage).map (p :: ·)

/-- The pages of a heap file. -/
def heap? (s : Sys) (nm : FileName) : Option Heap :=
  (s.unix nm).bind fun uf =>
    (s.block? nm uf.header.firstPage).bind fun hdr =>
      (s.chain nm (uf.size + 1) hdr.asFileHdr.firstPage).map fun pages =>
        ⟨uf.header.firstPage, hdr.asFileHdr, pages, fun p => (s.page? nm p).getD Page.zero⟩

theorem chain_congr {s s' : Sys} {nm : FileName} (hpage : ∀ p, s'.page? nm p = s.page? nm p)
    (n : Nat) (p : Int) : s'.chain nm n p = s.chain nm n p := by
  induction n generalizing p with
  | zero => rfl
  | succ n ih =>
    unfold chain
    rw [hpage]
    simp only [ih]

/-- What is read off the state depends on the blocks of the file only. -/
theorem heap?_congr {s s' : Sys} {nm : FileName} (hunix : s'.unix nm = s.unix nm)
    (hblock : ∀ p, s'.block? nm p = s.block? nm p) : s'.heap? nm = s.heap? nm := by
  have hpage : ∀ p, s'.page? nm p = s.page? nm p := fun p => congrArg _ (hblock p)
  unfold heap?
  rw [hunix]
  simp only [hblock, hpage, chain_congr hpage]

end Sys

namespace Heap

/-- The header describes the chain: it starts at `firstPage`, goes through `pageCnt` different
pages by their `nextPage`, and ends at `lastPage`, whose `nextPage` is `-1`. -/
structure Chained (H : Heap) : Prop where
  linked : Linked (fun p => (H.page p).nextPage) (-1) H.hdr.firstPage H.pages
  nodup : H.pages.Nodup
  pageCnt : H.hdr.pageCnt = H.pages.length
  last : H.pages.getLast? = some H.hdr.lastPage
  last_nextPage : (H.page H.hdr.lastPage).nextPage = -1

/-- The two descriptions agree, but for pages that are not in the chain. -/
structure Same (H H' : Heap) : Prop where
  hdrNo : H'.hdrNo = H.hdrNo
  hdr : H'.hdr = H.hdr
  pages : H'.pages = H.pages
  page : ∀ p ∈ H.pages, H'.page p = H.page p

namespace Same

variable {H H' : Heap}

theorem ridsFrom (h : H.Same H') {p : Int} (hp : p ∈ H.pages) (k : Nat) :
    H'.ridsFrom k p = H.ridsFrom k p := by
  unfold Heap.ridsFrom
  rw [h.page p hp]

theorem rids (h : H.Same H') : H'.rids = H.rids := by
  unfold Heap.rids
  rw [h.pages, List.flatMap_congr fun p hp => h.ridsFrom hp 0]

theorem rec? (h : H.Same H') : H'.rec? = H.rec? := by
  funext r
  unfold Heap.rec?
  rw [h.pages]
  split
  next hr => rw [h.page _ hr.1]
  next => rfl

theorem counted (h : H.Same H') (hc : H.Counted) : H'.Counted := by
  unfold Heap.Counted at hc ⊢
  rw [h.hdr, h.rids]
  exact hc

/-- Both describe the same file. -/
theorem heapAt {fv : FileView} (h : H.Same H') (hH : HeapAt fv H) : HeapAt fv H' where
  first := hH.first.trans h.hdrNo.symm
  hdr_alloc := h.hdrNo ▸ hH.hdr_alloc
  hdr := by
    rw [h.hdrNo, h.hdr]
    exact hH.hdr
  linked := by
    rw [h.hdr, h.pages]
    exact hH.linked.congr fun p hp => by rw [h.page p hp]
  last := by
    rw [h.hdr, h.pages]
    exact hH.last
  pageCnt := by
    rw [h.hdr, h.pages]
    exact hH.pageCnt
  hdr_not_mem := by
    rw [h.hdrNo, h.pages]
    exact hH.hdr_not_mem
  alloc p hp := hH.alloc p (h.pages ▸ hp)
  page p hp := by
    rw [h.page p (h.pages ▸ hp)]
    exact hH.page p (h.pages ▸ hp)
  wf p hp := by
    rw [h.page p (h.pages ▸ hp)]
    exact hH.wf p (h.pages ▸ hp)
  curPage p hp := by
    rw [h.page p (h.pages ▸ hp)]
    exact hH.curPage p (h.pages ▸ hp)

end Same

end Heap

theorem HeapAt.chained {fv : FileView} {H : Heap} (h : HeapAt fv H) : H.Chained where
  linked := h.linked
  nodup := h.nodup
  pageCnt := h.pageCnt
  last := h.last
  last_nextPage := by
    obtain ⟨l, hl⟩ : ∃ l, H.pages = l ++ [H.hdr.lastPage] :=
      ⟨H.pages.dropLast, (List.dropLast_append_getLast? _ h.last).symm⟩
    have hlink := h.linked
    rw [hl] at hlink
    exact hlink.of_append_cons

namespace Coh

variable {s : Sys} {P : Multiset Pin} {v : View} {nm : FileName} {fv : FileView} {H : Heap}
  {p : Int} {blk : Block}

/-- A page is where the client of the file expects it. -/
theorem block? (h : Coh s P v) (hf : v.file nm = some fv) (hp : fv.alloc p)
    (hcur : fv.cur p = some blk) : s.block? nm p = some blk := by
  obtain ⟨uf, huf, hst, hpages⟩ := h.stored nm fv hf
  have hpg := hpages p hp
  have hloc : ((s.openFiles.find nm).bind fun file => s.buf.hashTable.lookup file p) =
      v.loc s.buf nm p := by
    unfold View.loc
    rw [h.openFiles, Option.bind_map]
    rfl
  unfold Sys.block?
  rw [hloc]
  cases hl : v.loc s.buf nm p with
  | some n => exact congrArg some (hpg.in_frame blk n hcur hl).1
  | none =>
    have hrange := hst.range hp
    dsimp only
    rw [huf, Option.bind_some, UnixFile.page?_of_lt (by omega) hrange.2]
    exact congrArg some (hpg.on_disk blk hcur hl)

theorem page? {pg : Page} (h : Coh s P v) (hf : v.file nm = some fv) (hp : fv.alloc p)
    (hpg : fv.page? p = some pg) : s.page? nm p = some pg := by
  obtain ⟨blk, hcur, rfl⟩ := Option.map_eq_some_iff.mp hpg
  unfold Sys.page?
  rw [h.block? hf hp hcur]
  rfl

/-- The chain is found, if the number of pages is large enough. -/
theorem chain (h : Coh s P v) (hf : v.file nm = some fv) {q : Int} {l : List Int} {n : Nat}
    (hl : Linked (fun p => (H.page p).nextPage) (-1) q l)
    (hpages : ∀ p ∈ l, fv.alloc p ∧ fv.page? p = some (H.page p)) (hn : l.length < n) :
    s.chain nm n q = some l := by
  induction l generalizing q n with
  | nil =>
    obtain ⟨n, rfl⟩ : ∃ m, n = m + 1 := ⟨n - 1, by rw [List.length_nil] at hn; omega⟩
    exact if_pos hl
  | cons p l ih =>
    obtain ⟨n, rfl⟩ : ∃ m, n = m + 1 := ⟨n - 1, by rw [List.length_cons] at hn; omega⟩
    obtain ⟨rfl, hp, hl⟩ := hl
    obtain ⟨halloc, hpg⟩ := hpages p List.mem_cons_self
    unfold Sys.chain
    rw [if_neg hp, h.page? hf halloc hpg, Option.bind_some,
      ih hl (fun q hq => hpages q (List.mem_cons_of_mem p hq)) (Nat.lt_of_succ_lt_succ hn)]
    rfl

/-- What a client knows of a heap file is what is read off the state. -/
theorem heap? (h : Coh s P v) (hf : v.file nm = some fv) (hH : HeapAt fv H) :
    ∃ H', s.heap? nm = some H' ∧ H.Same H' := by
  obtain ⟨uf, huf, hst, -⟩ := h.stored nm fv hf
  have hfirst : uf.header.firstPage = H.hdrNo := by
    obtain ⟨free, -, hfst, -⟩ := hst
    rw [← hH.first, hfst]
  obtain ⟨blk, hcur, hblk⟩ := hH.exists_hdr
  -- the pages of the chain are different pages of the file
  have hlen : H.pages.length < uf.size + 1 := by
    have hsub : H.pages.toFinset ⊆ (Finset.Ico (1 : Int) uf.size) := by
      intro p hp
      have hp := hst.range (hH.alloc p (List.mem_toFinset.mp hp))
      exact Finset.mem_Ico.mpr hp
    have hcard := Finset.card_le_card hsub
    rw [List.toFinset_card_of_nodup hH.nodup, Int.card_Ico] at hcard
    omega
  have hchain := h.chain (H := H) hf hH.linked (fun p hp => ⟨hH.alloc p hp, hH.page p hp⟩) hlen
  refine ⟨⟨H.hdrNo, H.hdr, H.pages, fun p => (s.page? nm p).getD Page.zero⟩, ?_, rfl, rfl, rfl,
    fun p hp => ?_⟩
  · unfold Sys.heap?
    rw [huf, Option.bind_some, hfirst, h.block? hf hH.hdr_alloc hcur, Option.bind_some,
      hblk, hchain]
    rfl
  · show (s.page? nm p).getD Page.zero = H.page p
    rw [h.page? hf (hH.alloc p hp) (hH.page p hp)]
    rfl

/-- The header that is read off the state is that of the header page. -/
theorem hdr_of_heap? {H' : Heap} (h : Coh s P v) (hf : v.file nm = some fv)
    (hfirst : fv.alloc fv.first) (hcur : fv.cur fv.first = some blk) (hH' : s.heap? nm = some H') :
    H'.hdr = blk.asFileHdr := by
  obtain ⟨uf, huf, ⟨free, -, hfst, -⟩, -⟩ := h.stored nm fv hf
  unfold Sys.heap? at hH'
  rw [huf, Option.bind_some, ← hfst, h.block? hf hfirst hcur, Option.bind_some] at hH'
  obtain ⟨pages, -, rfl⟩ := Option.map_eq_some_iff.mp hH'
  rfl

end Coh

end Minirel
