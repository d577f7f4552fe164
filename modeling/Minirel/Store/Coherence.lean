import Minirel.Store.Session

/-!
# Coherence of the buffer manager

To clients that keep the discipline of pinning, the buffer manager is a plain store of pages:
whichever frames have been evicted, flushed, disposed of or used again, a page that is read shows
what was last written to it.

## Main definitions

* `PageStore`: a plain store of pages.
* `ClientRun`: the runs of the buffer manager whose clients keep the discipline, along with the
  pins they hold and what a plain store would contain.

## Main results

* `refines_of_clientRun`: in every state of such a run the buffer manager agrees with the store.
-/

namespace Minirel

open Comp

/-- A plain store: the pages of the open files, with the content last written to each. -/
structure PageStore where
  /-- The pages in use. -/
  alloc : FilePtr → Int → Prop
  /-- The content of a page, `none` if nothing has been written to it since it was allocated. -/
  content : FilePtr → Int → Option Block

namespace PageStore

/-- The store with the content of a page replaced. -/
def setContent (A : PageStore) (f : FilePtr) (p : Int) (o : Option Block) : PageStore :=
  { A with content := Function.update A.content f (Function.update (A.content f) p o) }

/-- Write a page. -/
def write (A : PageStore) (f : FilePtr) (p : Int) (blk : Block) : PageStore :=
  A.setContent f p (some blk)

/-- Allocate a page; its content is not specified. -/
def allocate (A : PageStore) (f : FilePtr) (p : Int) : PageStore :=
  { A.setContent f p none with alloc := fun g q => (g = f ∧ q = p) ∨ A.alloc g q }

/-- Dispose of a page. -/
def dispose (A : PageStore) (f : FilePtr) (p : Int) : PageStore :=
  { A.setContent f p none with alloc := fun g q => ¬(g = f ∧ q = p) ∧ A.alloc g q }

theorem content_setContent_self (A : PageStore) (f : FilePtr) (p : Int) (o : Option Block) :
    (A.setContent f p o).content f = Function.update (A.content f) p o :=
  Function.update_self _ _ _

theorem content_setContent_of_ne (A : PageStore) {f g : FilePtr} (p : Int) (o : Option Block)
    (h : g ≠ f) : (A.setContent f p o).content g = A.content g :=
  Function.update_of_ne h _ _

end PageStore

/-- A process whose files are open as `db` opens them and whose pool is new: the table of open
files and the `File` objects match, every open file is well formed on disk, and the store holds
the pages that are not on its free list, with the content they have on disk. -/
structure Initial (s : Sys) (A : PageStore) : Prop where
  io : s.io = fun _ => true
  nextFile : 0 < s.nextFile
  opened : ∀ nm f, s.openFiles.find nm = some f → nm ≠ [] ∧ f ≠ 0 ∧ f < s.nextFile ∧
    ∃ cnt, 0 < cnt ∧ s.files f = some ⟨nm, cnt, true⟩
  stored : ∀ nm f, s.openFiles.find nm = some f → ∃ uf free, s.unix nm = some uf ∧ uf.WF free ∧
    ∀ p, (A.alloc f p ↔ 1 ≤ p ∧ p < uf.size ∧ p ∉ free) ∧
      (A.alloc f p → A.content f p = some (uf.page p.toNat))

/-- The runs from `s₀` of the operations of the buffer manager on files that are open in `s₀`,
with the pins that clients hold and the store as they see it. A client reads allocated pages only,
changes a page while it has it pinned and then reports it dirty, gives back pins that it holds,
and disposes of pages that are not pinned. -/
inductive ClientRun (s₀ : Sys) (A₀ : PageStore) : Sys → Multiset Pin → PageStore → Prop
  | start : ClientRun s₀ A₀ s₀ 0 A₀
  | read {s s' P A nm f p page n e} (hrun : ClientRun s₀ A₀ s P A)
      (hopen : s₀.openFiles.find nm = some f) (hp : A.alloc f p)
      (hy : Yields (BufMgr.readPage f p page) s (.OK, .frame n) e s') :
      ClientRun s₀ A₀ s' (⟨f, p, n, false⟩ ::ₘ P) A
  | readFull {s s' P A nm f p page page' e} (hrun : ClientRun s₀ A₀ s P A)
      (hopen : s₀.openFiles.find nm = some f) (hp : A.alloc f p)
      (hy : Yields (BufMgr.readPage f p page) s (.BUFFEREXCEEDED, page') e s') :
      ClientRun s₀ A₀ s' P A
  | write {s s' P A x blk e} (hrun : ClientRun s₀ A₀ s (x ::ₘ P) A)
      (hy : Yields (assignPage (.frame x.frame) blk) s () e s') :
      ClientRun s₀ A₀ s' ({ x with wrote := true } ::ₘ P) (A.write x.file x.pageNo blk)
  | unpin {s s' P A x dirty st e} (hrun : ClientRun s₀ A₀ s (x ::ₘ P) A)
      (hdirty : x.wrote = true → dirty = true)
      (hy : Yields (BufMgr.unPinPage x.file x.pageNo dirty) s st e s') : ClientRun s₀ A₀ s' P A
  | alloc {s s' P A nm f page p n e} (hrun : ClientRun s₀ A₀ s P A)
      (hopen : s₀.openFiles.find nm = some f)
      (hy : Yields (BufMgr.allocPage f page) s (.OK, p, .frame n) e s') :
      ClientRun s₀ A₀ s' (⟨f, p, n, false⟩ ::ₘ P) (A.allocate f p)
  | allocFull {s s' P A nm f page page' p e} (hrun : ClientRun s₀ A₀ s P A)
      (hopen : s₀.openFiles.find nm = some f)
      (hy : Yields (BufMgr.allocPage f page) s (.BUFFEREXCEEDED, p, page') e s') :
      ClientRun s₀ A₀ s' P (A.allocate f p)
  | flush {s s' P A nm f st e} (hrun : ClientRun s₀ A₀ s P A)
      (hopen : s₀.openFiles.find nm = some f)
      (hy : Yields (BufMgr.flushFile f) s st e s') : ClientRun s₀ A₀ s' P A
  | dispose {s s' P A nm f p e} (hrun : ClientRun s₀ A₀ s P A)
      (hopen : s₀.openFiles.find nm = some f) (hp : A.alloc f p)
      (hpin : ∀ x ∈ P, x.file = f → x.pageNo ≠ p)
      (hy : Yields (BufMgr.disposePage f p) s .OK e s') : ClientRun s₀ A₀ s' P (A.dispose f p)

/-- The buffer manager in state `s` agrees with a plain store. -/
structure RefinesStore (s₀ s : Sys) (P : Multiset Pin) (A : PageStore) : Prop where
  /-- The allocated pages of a file are those that are not on its free list. -/
  allocated : ∀ nm f, s₀.openFiles.find nm = some f → ∃ uf free, s.unix nm = some uf ∧ uf.WF free ∧
    ∀ p, A.alloc f p ↔ 1 ≤ p ∧ p < uf.size ∧ p ∉ free
  /-- A page that can be read shows what was last written to it. -/
  read : ∀ nm f p page r e s', s₀.openFiles.find nm = some f → A.alloc f p →
    Yields (BufMgr.readPage f p page) s (.OK, r) e s' →
    ∃ n, r = .frame n ∧ ∀ blk, A.content f p = some blk → s'.buf.bufPool n = blk
  /-- And so does a page that is pinned, for as long as it is. -/
  pinned : ∀ x ∈ P, ∀ blk, A.content x.file x.pageNo = some blk → s.buf.bufPool x.frame = blk
  /-- A page that is allocated was not allocated before. -/
  fresh : ∀ nm f page p r e s', s₀.openFiles.find nm = some f →
    Yields (BufMgr.allocPage f page) s (.OK, p, r) e s' → ¬A.alloc f p
  /-- When a file has been flushed, the disk holds what was last written to its pages. -/
  flushed : ∀ nm f e s', s₀.openFiles.find nm = some f →
    Yields (BufMgr.flushFile f) s .OK e s' → ∃ uf, s'.unix nm = some uf ∧
      ∀ p blk, A.alloc f p → A.content f p = some blk → uf.page? p = some blk
  /-- Reading fails only if every frame of the pool is pinned. -/
  failed : ∀ nm f p page st r e s', s₀.openFiles.find nm = some f → A.alloc f p →
    Yields (BufMgr.readPage f p page) s (st, r) e s' → st ≠ .OK → st = .BUFFEREXCEEDED ∧ s.buf.Full

/-- The view that the files open in `s₀` and the store `A` amount to. -/
structure Shows (s₀ : Sys) (A : PageStore) (v : View) : Prop where
  handle : ∀ nm, (v.handle nm).map Prod.fst = s₀.openFiles.find nm
  file : ∀ nm f, s₀.openFiles.find nm = some f → ∃ fv, v.file nm = some fv ∧
    fv.alloc = A.alloc f ∧ ∀ p blk, A.alloc f p → A.content f p = some blk → fv.cur p = some blk

namespace Shows

variable {s₀ s : Sys} {P : Multiset Pin} {A : PageStore} {v : View} {nm : FileName} {f : FilePtr}
  {p : Int} {fv fv' : FileView} {o : Option Block}

theorem open_of (h : Shows s₀ A v) (hopen : s₀.openFiles.find nm = some f) :
    ∃ c, v.handle nm = some (f, c) := by
  have := (h.handle nm).trans hopen
  obtain ⟨⟨g, c⟩, hg, he⟩ := Option.map_eq_some_iff.mp this
  exact ⟨c, by rw [hg, ← he]⟩

theorem find_of {c : Int} (h : Shows s₀ A v) (hh : v.handle nm = some (f, c)) :
    s₀.openFiles.find nm = some f := by
  rw [← h.handle, hh]
  rfl

/-- What happens to one file in the view and in the store. -/
theorem setFile {A' : PageStore} {c : Int} (hc : Coh s P v) (h : Shows s₀ A v)
    (hh : v.handle nm = some (f, c)) (halloc : fv'.alloc = A'.alloc f)
    (hcur : ∀ p blk, A'.alloc f p → A'.content f p = some blk → fv'.cur p = some blk)
    (hother : ∀ g, g ≠ f → A'.alloc g = A.alloc g ∧ A'.content g = A.content g) :
    Shows s₀ A' (v.setFile nm (some fv')) := by
  refine ⟨h.handle, fun nm' g hg => ?_⟩
  by_cases hne : nm' = nm
  · subst hne
    obtain ⟨c', hh'⟩ := h.open_of hg
    rw [hh] at hh'
    cases hh'
    exact ⟨fv', View.file_setFile_self, halloc, hcur⟩
  · have hgf : g ≠ f := by
      rintro rfl
      obtain ⟨c', hh'⟩ := h.open_of hg
      exact hne (hc.name_unique hh' hh)
    obtain ⟨fv, h₁, h₂, h₃⟩ := h.file nm' g hg
    rw [(hother g hgf).1, (hother g hgf).2]
    exact ⟨fv, (View.file_setFile_of_ne hne).trans h₁, h₂, h₃⟩

/-- What is known of the pages of a file after one of them has been cleared. -/
theorem cur_clear (hcur : ∀ q blk, A.alloc f q → A.content f q = some blk → fv.cur q = some blk)
    {q : Int} {blk : Block} (hq : q ≠ p → A.alloc f q)
    (hb : (A.setContent f p none).content f q = some blk) :
    Function.update fv.cur p none q = some blk := by
  rw [A.content_setContent_self] at hb
  obtain ⟨hqp, hb⟩ := of_update_none hb
  rw [Function.update_of_ne hqp]
  exact hcur q blk (hq hqp) hb

theorem allocate {c : Int} (hc : Coh s P v) (h : Shows s₀ A v) (hh : v.handle nm = some (f, c))
    (halloc : fv.alloc = A.alloc f)
    (hcur : ∀ q blk, A.alloc f q → A.content f q = some blk → fv.cur q = some blk) :
    Shows s₀ (A.allocate f p) (v.setFile nm (some (fv.allocate p))) := by
  refine h.setFile hc hh ?_ (fun q blk hq hb => ?_) fun g hg => ⟨?_, ?_⟩
  · funext q
    show (q = p ∨ fv.alloc q) = ((f = f ∧ q = p) ∨ A.alloc f q)
    rw [halloc]
    simp
  · exact cur_clear hcur (fun hqp => hq.resolve_left fun h => hqp h.2) hb
  · funext q
    show ((g = f ∧ q = p) ∨ A.alloc g q) = A.alloc g q
    simp [hg]
  · exact A.content_setContent_of_ne _ _ hg

theorem dispose {c : Int} (hc : Coh s P v) (h : Shows s₀ A v) (hh : v.handle nm = some (f, c))
    (halloc : fv.alloc = A.alloc f)
    (hcur : ∀ q blk, A.alloc f q → A.content f q = some blk → fv.cur q = some blk) :
    Shows s₀ (A.dispose f p) (v.setFile nm (some (fv.dispose p))) := by
  refine h.setFile hc hh ?_ (fun q blk hq hb => ?_) fun g hg => ⟨?_, ?_⟩
  · funext q
    show (q ≠ p ∧ fv.alloc q) = (¬(f = f ∧ q = p) ∧ A.alloc f q)
    rw [halloc]
    simp
  · exact cur_clear hcur (fun _ => hq.2) hb
  · funext q
    show (¬(g = f ∧ q = p) ∧ A.alloc g q) = A.alloc g q
    simp [hg]
  · exact A.content_setContent_of_ne _ _ hg

end Shows

variable {s₀ s : Sys} {P : Multiset Pin} {A₀ A : PageStore} {v : View}

/-- The view of the files that are open at the start. -/
theorem Initial.coh {bufs : Nat} {hash : FilePtr × Int → Fin (BufMgr.htsize bufs)}
    (hpos : 0 < bufs) (hnew : s₀.buf = BufMgr.new bufs hash) (h : Initial s₀ A₀) :
    ∃ v, Coh s₀ 0 v ∧ Shows s₀ A₀ v := by
  have hobj : ∀ nm f, s₀.openFiles.find nm = some f →
    ∃ cnt, (s₀.files f).map File.openCnt = some cnt ∧
      0 < cnt ∧ s₀.files f = some ⟨nm, cnt, true⟩ := by
    intro nm f hf
    obtain ⟨-, -, -, cnt, hcnt, hfo⟩ := h.opened nm f hf
    exact ⟨cnt, by rw [hfo]; rfl, hcnt, hfo⟩
  set v : View :=
    { numBufs := bufs
      file := fun nm => (s₀.openFiles.find nm).bind fun f => (s₀.unix nm).map fun uf =>
        ⟨uf.header.firstPage, A₀.alloc f, A₀.content f, fun _ => none⟩
      handle := fun nm => (s₀.openFiles.find nm).bind fun f =>
        (s₀.files f).map fun fo => (f, fo.openCnt)
      foreign := fun _ => True } with hv
  have hhandle : ∀ nm f cnt, s₀.openFiles.find nm = some f → s₀.files f = some ⟨nm, cnt, true⟩ →
      v.handle nm = some (f, cnt) := by
    intro nm f cnt h₁ h₂
    simp only [hv, h₁, h₂, Option.bind_some, Option.map_some]
  have hfile : ∀ nm f uf, s₀.openFiles.find nm = some f → s₀.unix nm = some uf →
      v.file nm = some ⟨uf.header.firstPage, A₀.alloc f, A₀.content f, fun _ => none⟩ := by
    intro nm f uf h₁ h₂
    simp only [hv, h₁, h₂, Option.bind_some, Option.map_some]
  have hopen : ∀ nm f c, v.handle nm = some (f, c) → s₀.openFiles.find nm = some f ∧
      s₀.files f = some ⟨nm, c, true⟩ := by
    intro nm f c hc
    obtain ⟨g, hg, hc⟩ := Option.bind_eq_some_iff.mp hc
    obtain ⟨cnt, -, -, hfo⟩ := hobj nm g hg
    rw [hfo] at hc
    cases hc
    exact ⟨hg, hfo⟩
  have hloc : ∀ nm p, v.loc s₀.buf nm p = none := by
    intro nm p
    unfold View.loc
    rw [hnew]
    cases v.handle nm <;> rfl
  refine ⟨v, ?_, fun nm => ?_, fun nm f hf => ?_⟩
  · refine ⟨?_, ?_, ?_, h.io, fun nm => ?_, fun nm f c hc => ?_, h.nextFile,
      fun _ _ hn => absurd trivial hn, fun nm fv hfv => ?_, fun f p n hl => ?_,
      fun x hx => absurd hx (Multiset.notMem_zero x), ?_⟩
    · rw [hnew]
      exact ⟨BufMgr.Consistent.new _ hash, hpos, Nat.sub_lt hpos Nat.one_pos⟩
    · rw [hnew]
      rfl
    · rw [hnew]
      exact fun _ _ _ => ⟨rfl, rfl⟩
    · cases hf : s₀.openFiles.find nm with
      | none => simp only [hv, hf, Option.bind_none, Option.map_none]
      | some f =>
        obtain ⟨cnt, -, -, hfo⟩ := hobj nm f hf
        rw [hhandle nm f cnt hf hfo]
        rfl
    · obtain ⟨h₁, h₂⟩ := hopen nm f c hc
      obtain ⟨h₃, h₄, h₅, cnt, h₆, h₇⟩ := h.opened nm f h₁
      rw [h₂] at h₇
      cases h₇
      obtain ⟨uf, free, huf, -⟩ := h.stored nm f h₁
      exact ⟨h₄, h₅, le_of_lt h₆, h₃, h₂, _, hfile nm f uf h₁ huf⟩
    · obtain ⟨f, hf, hfv⟩ := Option.bind_eq_some_iff.mp hfv
      obtain ⟨uf, free, huf, hwf, hpages⟩ := h.stored nm f hf
      rw [huf] at hfv
      cases hfv
      refine ⟨uf, huf, ⟨free, hwf, rfl, fun p => (hpages p).1⟩, fun p hp => ?_⟩
      rw [hloc]
      refine ⟨fun blk hb _ => ?_, nofun, nofun⟩
      have hb : A₀.content f p = some blk := hb
      rw [(hpages p).2 hp] at hb
      exact Option.some.inj hb
    · rw [hnew] at hl
      simp [BufMgr.new, BufHashTbl.lookup] at hl
    · rw [hnew]
      exact fun _ _ => rfl
  · cases hf : s₀.openFiles.find nm with
    | none => simp only [hv, hf, Option.bind_none, Option.map_none]
    | some f =>
      obtain ⟨cnt, -, -, hfo⟩ := hobj nm f hf
      rw [hhandle nm f cnt hf hfo]
      rfl
  · obtain ⟨uf, free, huf, -⟩ := h.stored nm f hf
    exact ⟨_, hfile nm f uf hf huf, rfl, fun p blk _ hb => hb⟩

/-- A run of disciplined clients keeps the state coherent with the store they see. -/
theorem coh_of_clientRun {bufs : Nat} {hash : FilePtr × Int → Fin (BufMgr.htsize bufs)}
    (hpos : 0 < bufs) (hnew : s₀.buf = BufMgr.new bufs hash) (h : Initial s₀ A₀)
    (hrun : ClientRun s₀ A₀ s P A) : ∃ v, Coh s P v ∧ Shows s₀ A v := by
  induction hrun with
  | start => exact h.coh hpos hnew
  | @read s s' P A nm f p page n e _ hopen hp hy ih =>
    obtain ⟨v, hc, hs⟩ := ih
    obtain ⟨c, hh⟩ := hs.open_of hopen
    obtain ⟨fv, hf, halloc, -⟩ := hs.file nm f hopen
    rcases (hc.readPage (T := False) hh hf (halloc ▸ hp) page).1 _ e s' hy with
      ⟨-, hr, -⟩ | ⟨-, m, hr, -, hc'⟩
    · cases hr
    · cases hr
      exact ⟨v, hc', hs⟩
  | @readFull s s' P A nm f p page page' e _ hopen hp hy ih =>
    obtain ⟨v, hc, hs⟩ := ih
    obtain ⟨c, hh⟩ := hs.open_of hopen
    obtain ⟨fv, hf, halloc, -⟩ := hs.file nm f hopen
    rcases (hc.readPage (T := False) hh hf (halloc ▸ hp) page).1 _ e s' hy with
      ⟨-, -, -, hc'⟩ | ⟨-, m, hr, -⟩
    · exact ⟨v, hc', hs⟩
    · cases hr
  | @write s s' P A x blk e _ hy ih =>
    obtain ⟨v, hc, hs⟩ := ih
    have hx := hc.pins x (Multiset.mem_cons_self x P)
    obtain ⟨nm, c, fv, hh, hf, hp, -⟩ := hc.exists_loc hx
    obtain ⟨fv', hf', halloc, hcur⟩ := hs.file nm x.file (hs.find_of hh)
    rw [hf] at hf'
    cases hf'
    obtain ⟨s₁, hy₁, hc₁⟩ := hc.assignPage hh hf blk
    obtain ⟨-, -, rfl⟩ := hy₁.unique hy
    refine ⟨_, hc₁, hs.setFile hc hh halloc (fun p b hp' hb => ?_) fun g hg =>
      ⟨rfl, A.content_setContent_of_ne _ _ hg⟩⟩
    have hb : (A.setContent x.file x.pageNo (some blk)).content x.file p = some b := hb
    rw [A.content_setContent_self] at hb
    by_cases hpx : p = x.pageNo
    · subst hpx
      rw [Function.update_self] at hb
      exact (Function.update_self _ _ _).trans hb
    · rw [Function.update_of_ne hpx] at hb
      exact (Function.update_of_ne hpx _ _).trans (hcur p b hp' hb)
  | @unpin s s' P A x dirty st e _ hdirty hy ih =>
    obtain ⟨v, hc, hs⟩ := ih
    have hx := hc.pins x (Multiset.mem_cons_self x P)
    obtain ⟨nm, c, fv, hh, hf, hp, -⟩ := hc.exists_loc hx
    obtain ⟨fv', hf', halloc, hcur⟩ := hs.file nm x.file (hs.find_of hh)
    rw [hf] at hf'
    cases hf'
    obtain ⟨s₁, hy₁, hc₁⟩ := hc.unPinPage hh hf hdirty
    obtain ⟨-, -, rfl⟩ := hy₁.unique hy
    refine ⟨_, hc₁, hs.setFile hc hh ?_ ?_ fun _ _ => ⟨rfl, rfl⟩⟩
    · split <;> exact halloc
    · split <;> exact hcur
  | @alloc s s' P A nm f page p n e _ hopen hy ih =>
    obtain ⟨v, hc, hs⟩ := ih
    obtain ⟨c, hh⟩ := hs.open_of hopen
    obtain ⟨fv, hf, halloc, hcur⟩ := hs.file nm f hopen
    obtain ⟨q, -, -, ⟨-, hr, -⟩ | ⟨-, m, hr, -, hc'⟩⟩ :=
      (hc.allocPage (T := False) hh hf page).1 _ e s' hy
    · cases hr
    · cases hr
      exact ⟨_, hc', hs.allocate hc hh halloc hcur⟩
  | @allocFull s s' P A nm f page page' p e _ hopen hy ih =>
    obtain ⟨v, hc, hs⟩ := ih
    obtain ⟨c, hh⟩ := hs.open_of hopen
    obtain ⟨fv, hf, halloc, hcur⟩ := hs.file nm f hopen
    obtain ⟨q, -, -, ⟨-, hr, -, hc'⟩ | ⟨-, m, hr, -⟩⟩ :=
      (hc.allocPage (T := False) hh hf page).1 _ e s' hy
    · cases hr
      exact ⟨_, hc', hs.allocate hc hh halloc hcur⟩
    · cases hr
  | @flush s s' P A nm f st e _ hopen hy ih =>
    obtain ⟨v, hc, hs⟩ := ih
    obtain ⟨c, hh⟩ := hs.open_of hopen
    obtain ⟨st', s₁, hy₁, hc₁, -⟩ := hc.flushFile (hc.opened nm f c hh).ne_zero
    obtain ⟨-, -, rfl⟩ := hy₁.unique hy
    exact ⟨v, hc₁, hs⟩
  | @dispose s s' P A nm f p e _ hopen hp hpin hy ih =>
    obtain ⟨v, hc, hs⟩ := ih
    obtain ⟨c, hh⟩ := hs.open_of hopen
    obtain ⟨fv, hf, halloc, hcur⟩ := hs.file nm f hopen
    by_cases hpf : p = fv.first
    · subst hpf
      obtain ⟨s₁, hy₁⟩ := hc.disposePage_first hh hf
      cases (hy₁.unique hy).1
    · obtain ⟨s₁, hy₁, hc₁⟩ := hc.disposePage hh hf (halloc ▸ hp) hpf hpin
      obtain ⟨-, -, rfl⟩ := hy₁.unique hy
      exact ⟨_, hc₁, hs.dispose hc hh halloc hcur⟩

/-- A state that is coherent with the store agrees with it. -/
theorem Shows.refines (hc : Coh s P v) (hs : Shows s₀ A v) : RefinesStore s₀ s P A where
  allocated nm f hopen := by
    obtain ⟨fv, hf, halloc, -⟩ := hs.file nm f hopen
    obtain ⟨uf, huf, ⟨free, hwf, -, hall⟩, -⟩ := hc.stored nm fv hf
    exact ⟨uf, free, huf, hwf, fun p => halloc ▸ hall p⟩
  read nm f p page r e s' hopen hp hy := by
    obtain ⟨c, hh⟩ := hs.open_of hopen
    obtain ⟨fv, hf, halloc, hcur⟩ := hs.file nm f hopen
    rcases (hc.readPage (T := False) hh hf (halloc ▸ hp) page).1 _ e s' hy with
      ⟨-, hr, -⟩ | ⟨-, n, hr, -, hc'⟩
    · cases hr
    · cases hr
      refine ⟨n, rfl, fun blk hb => ?_⟩
      exact hc'.content (x := ⟨f, p, n, false⟩) (Multiset.mem_cons_self _ _) hh hf (halloc ▸ hp)
        (hcur p blk hp hb)
  pinned x hx blk hb := by
    obtain ⟨nm, c, fv, hh, hf, hp, -⟩ := hc.exists_loc (hc.pins x hx)
    obtain ⟨fv', hf', halloc, hcur⟩ := hs.file nm x.file (hs.find_of hh)
    rw [hf] at hf'
    cases hf'
    exact hc.content hx hh hf hp (hcur _ blk (halloc ▸ hp) hb)
  fresh nm f page p r e s' hopen hy := by
    obtain ⟨c, hh⟩ := hs.open_of hopen
    obtain ⟨fv, hf, halloc, -⟩ := hs.file nm f hopen
    obtain ⟨q, hq, -, ⟨-, hr, -⟩ | ⟨-, m, hr, -⟩⟩ :=
      (hc.allocPage (T := False) hh hf page).1 _ e s' hy
    · cases hr
    · cases hr
      exact halloc ▸ hq
  flushed nm f e s' hopen hy := by
    obtain ⟨c, hh⟩ := hs.open_of hopen
    obtain ⟨fv, hf, halloc, hcur⟩ := hs.file nm f hopen
    obtain ⟨st, s₁, hy₁, hc₁, hst⟩ := hc.flushFile (hc.opened nm f c hh).ne_zero
    obtain ⟨rfl, -, rfl⟩ := hy₁.unique hy
    obtain ⟨-, hclear⟩ := hst.resolve_right fun h => by cases h.1
    obtain ⟨uf, huf, -, -⟩ := hc₁.stored nm fv hf
    refine ⟨uf, huf, fun p blk hp hb => ?_⟩
    obtain ⟨uf', huf', hpage⟩ := hc₁.on_disk hh hf (halloc ▸ hp) (hclear p) (hcur p blk hp hb)
    rw [huf] at huf'
    cases huf'
    exact hpage
  failed nm f p page st r e s' hopen hp hy hst := by
    obtain ⟨c, hh⟩ := hs.open_of hopen
    obtain ⟨fv, hf, halloc, -⟩ := hs.file nm f hopen
    rcases (hc.readPage (T := False) hh hf (halloc ▸ hp) page).1 _ e s' hy with
      ⟨-, hr, hno, -⟩ | ⟨-, n, hr, -⟩
    · cases hr
      exact ⟨rfl, hno.2⟩
    · cases hr
      exact absurd rfl hst

/-- For every size of the pool and every hash function, in every state of every run whose clients
keep the discipline, the buffer manager agrees with a plain store of pages. -/
theorem refines_of_clientRun {bufs : Nat} {hash : FilePtr × Int → Fin (BufMgr.htsize bufs)}
    (hpos : 0 < bufs) (hnew : s₀.buf = BufMgr.new bufs hash) (h : Initial s₀ A₀)
    (hrun : ClientRun s₀ A₀ s P A) : RefinesStore s₀ s P A := by
  obtain ⟨v, hc, hs⟩ := coh_of_clientRun hpos hnew h hrun
  exact hs.refines hc

/-- A process with one open file, which has two pages in use, and a pool of one frame. -/
def twoPages : Sys where
  unix := fun name => if name = [65] then
    some ⟨3, fun p => if p = 0 then .dbPage ⟨-1, 1, 3⟩ else Block.zero⟩ else none
  dataFile := fun _ => none
  io := fun _ => true
  files := fun file => if file = 1 then some ⟨[65], 1, true⟩ else none
  nextFile := 2
  openFiles := (OpenFileHashTbl.new.insert [65] 1).2
  buf := BufMgr.new 1 fun _ => ⟨0, BufMgr.htsize_one_pos⟩

/-- The pages of `twoPages`. -/
def twoPagesStore : PageStore where
  alloc := fun f p => f = 1 ∧ 1 ≤ p ∧ p < 3
  content := fun _ _ => some Block.zero

theorem find_twoPages (nm : FileName) :
    twoPages.openFiles.find nm = if nm = [65] then some 1 else none := by
  have hnew : OpenFileHashTbl.new.insert? [65] 1 ≠ none := fun h =>
    (ChainTable.insert?_eq_none_iff _ _ _).mp h (ChainTable.find_empty _ _ _)
  obtain ⟨t, ht⟩ := Option.ne_none_iff_exists'.mp hnew
  have hopen : twoPages.openFiles = t := by
    show (OpenFileHashTbl.insert OpenFileHashTbl.new [65] 1).2 = t
    rw [OpenFileHashTbl.insert, ht]
  rw [hopen]
  exact ChainTable.find_insert? ht nm

theorem initial_twoPages : Initial twoPages twoPagesStore where
  io := rfl
  nextFile := by decide
  opened nm f hf := by
    rw [find_twoPages] at hf
    split at hf
    next he =>
      cases hf
      exact ⟨by rw [he]; exact nofun, by decide, by decide, 1, by decide, by rw [he]; rfl⟩
    next => cases hf
  stored nm f hf := by
    rw [find_twoPages] at hf
    split at hf
    next he =>
      cases hf
      subst he
      refine ⟨_, [], rfl, ⟨by decide, rfl, rfl, by simp, Or.inr ⟨by decide, by decide, by simp⟩⟩,
        fun p => ⟨⟨fun h => ⟨h.2.1, h.2.2, by simp⟩, fun h => ⟨rfl, h.1, h.2.1⟩⟩, fun h => ?_⟩⟩
      have hp : p.toNat ≠ 0 := by
        have := h.2.1
        omega
      exact congrArg some (if_neg hp).symm
    next => cases hf

/-- A page is written in the only frame, evicted by the read of the other one, and read again. -/
theorem refines_of_clientRun_evicted : ∃ s,
    ClientRun twoPages twoPagesStore s {⟨1, 1, 0, false⟩}
    (twoPagesStore.write 1 1 (.dbPage ⟨7, 7, 7⟩)) ∧
    RefinesStore twoPages s {⟨1, 1, 0, false⟩} (twoPagesStore.write 1 1 (.dbPage ⟨7, 7, 7⟩)) := by
  obtain ⟨r, e, s, hy, hv⟩ := exists_of_eval (s := twoPages)
    (x := do
      let r₁ ← BufMgr.readPage 1 1 .null
      assignPage (.frame 0) (.dbPage ⟨7, 7, 7⟩)
      let _ ← BufMgr.unPinPage 1 1 true
      let r₂ ← BufMgr.readPage 1 2 .null
      let _ ← BufMgr.unPinPage 1 2 false
      let r₃ ← BufMgr.readPage 1 1 .null
      return (r₁, r₂, r₃))
    (g := fun r _ _ => r)
    (v := ((Status.OK, PagePtr.frame 0), (Status.OK, PagePtr.frame 0),
    (Status.OK, PagePtr.frame 0)))
    (by decide +kernel)
  obtain ⟨r₁, _, s₁, _, hread₁, k₁, -⟩ := hy.of_bind
  obtain ⟨_, _, s₂, _, hwrite, k₂, -⟩ := k₁.of_bind
  obtain ⟨_, _, s₃, _, hunpin₁, k₃, -⟩ := k₂.of_bind
  obtain ⟨r₂, _, s₄, _, hread₂, k₄, -⟩ := k₃.of_bind
  obtain ⟨_, _, s₅, _, hunpin₂, k₅, -⟩ := k₄.of_bind
  obtain ⟨r₃, _, s₆, _, hread₃, k₆, -⟩ := k₅.of_bind
  obtain ⟨rfl, -, -⟩ := yields_pure.mp k₆
  simp only [Prod.mk.injEq] at hv
  obtain ⟨⟨rfl, rfl⟩, ⟨rfl, rfl⟩, rfl, rfl⟩ := hv
  have hopen : twoPages.openFiles.find [65] = some 1 := (find_twoPages [65]).trans (if_pos rfl)
  have hrun₃ : ClientRun twoPages twoPagesStore s₃ 0
    (twoPagesStore.write 1 1 (.dbPage ⟨7, 7, 7⟩)) :=
    .unpin (x := ⟨1, 1, 0, true⟩)
      (.write (x := ⟨1, 1, 0, false⟩) (.read .start hopen ⟨rfl, by
      decide, by decide⟩ hread₁) hwrite)
      (fun _ => rfl) hunpin₁
  have hrun₅ : ClientRun twoPages twoPagesStore s₅ 0
    (twoPagesStore.write 1 1 (.dbPage ⟨7, 7, 7⟩)) :=
    .unpin (x := ⟨1, 2, 0, false⟩)
    (.read hrun₃ hopen ⟨rfl, by decide, by decide⟩ hread₂) nofun hunpin₂
  have hrun : ClientRun twoPages twoPagesStore s₆ {⟨1, 1, 0, false⟩}
      (twoPagesStore.write 1 1 (.dbPage ⟨7, 7, 7⟩)) :=
    .read hrun₅ hopen ⟨rfl, by decide, by decide⟩ hread₃
  exact ⟨s₆, hrun, refines_of_clientRun (by decide) rfl initial_twoPages hrun⟩

end Minirel
