import Minirel.Catalog.Dropped

/-!
# The end of a session, file by file

The destructor of the buffer manager writes back the frames that are marked as dirty. A page that a
client has written to and not given back is not among them; the other files are on disk as they are
in memory.

## Main definitions

* `OnDiskExcept`: what is on disk, except for some files.
* `View.found`: what the next process knows.

## Main results

* `Session.quit_except`: the end of a session.
-/

namespace Minirel

open Comp HeapFile

/-- What is on disk when the buffer manager has been deleted. Of the files `lost` only what has been
kept is known. -/
structure OnDiskExcept (lost : FileName → Prop) (unix : FileName → Option UnixFile)
    (v : View) : Prop where
  absent : ∀ nm, v.file nm = none → ¬v.foreign nm → unix nm = none
  stored : ∀ nm fv, v.file nm = some fv → ∃ uf, unix nm = some uf ∧ Stored uf fv ∧
    ∀ p, fv.alloc p → ∀ blk, fv.kept p = some blk ∨ fv.cur p = some blk ∧ ¬lost nm →
    uf.page p.toNat = blk

open Classical in
/-- The files that the next process finds, as far as they are known. -/
noncomputable def View.found (lost : FileName → Prop) (v : View) : View where
  numBufs := BUFS
  file := fun nm => (v.file nm).map fun fv => if lost nm then fv.surviving else fv.reloaded
  handle := fun _ => none
  foreign := v.foreign

section Found

variable {lost : FileName → Prop} {unix : FileName → Option UnixFile} {v : View} {nm : FileName}
  {fv : FileView} {H : Heap}

theorem View.file_found (h : ¬lost nm) :
    (v.found lost).file nm = (v.file nm).map FileView.reloaded := by
  show (v.file nm).map _ = _
  simp only [if_neg h]

theorem View.file_found_lost (h : lost nm) :
    (v.found lost).file nm = (v.file nm).map FileView.surviving := by
  show (v.file nm).map _ = _
  simp only [if_pos h]

/-- The next process starts. -/
theorem OnDiskExcept.start (h : OnDiskExcept lost unix v) (dataFile : FileName → Option Bytes)
    (hash : BufHash) :
    Coh (Sys.start unix dataFile (fun _ => true) hash) 0 (v.found lost) := by
  refine Coh.start (show 0 < BUFS by decide) rfl rfl
    (fun nm => ChainTable.find_empty _ _ nm) Nat.one_pos
    (fun _ => rfl) (fun nm hnone hforeign => ?_) fun nm fv' hf' => ?_
  · exact h.absent nm (Option.map_eq_none_iff.mp hnone) hforeign
  by_cases hlost : lost nm
  · rw [View.file_found_lost hlost] at hf'
    obtain ⟨fv, hf, rfl⟩ := Option.map_eq_some_iff.mp hf'
    obtain ⟨uf, huf, hst, hpages⟩ := h.stored nm fv hf
    exact ⟨uf, huf, hst, fun p hp blk hblk => hpages p hp blk (Or.inl (hblk.elim id id))⟩
  · rw [View.file_found hlost] at hf'
    obtain ⟨fv, hf, rfl⟩ := Option.map_eq_some_iff.mp hf'
    obtain ⟨uf, huf, hst, hpages⟩ := h.stored nm fv hf
    exact ⟨uf, huf, hst, fun p hp blk hblk => hpages p hp blk (Or.inr ⟨hblk.elim id id, hlost⟩)⟩

/-- A heap file that has not been lost. -/
theorem IsHeap.found (h : IsHeap v nm fv H) (hlost : ¬lost nm) :
    IsHeap (v.found lost) nm fv.reloaded H := by
  refine ⟨h.name, ?_, h.heapAt.reloaded, h.sized, nofun⟩
  rw [View.file_found hlost, h.file]
  rfl

end Found

/-- The end of a session in which pages of the files `lost` have been written to and not been given
back. -/
theorem Session.quit_except {relCat attrCat : HeapFile} {s : Sys} {P Q : Multiset Pin} {v : View}
    {fv fvA : FileView} {H HA : Heap} {lost : FileName → Prop}
    (h : Session relCat attrCat s P Q v H HA) (hcat : Catalogs v fv H fvA HA)
    (hlost : ∀ z ∈ Q, z.wrote = true → ∀ nm c, v.handle nm = some (z.file, c) → lost nm) :
    ∃ s', Yields (UT_Quit relCat attrCat) s () false s' ∧ OnDiskExcept lost s'.unix v := by
  obtain ⟨hc, ⟨x, y, xA, yA, hr, hrA, rfl⟩, ⟨c, hpos, hh, hQ⟩, cA, hposA, hhA, hQA⟩ := h
  have hpins : Q + (yA ::ₘ xA ::ₘ y ::ₘ x ::ₘ 0) = yA ::ₘ xA ::ₘ y ::ₘ x ::ₘ Q := by
    simp only [Multiset.add_cons, add_zero]
  rw [hpins] at hc
  obtain ⟨s₁, hquit, hc₁⟩ := deleteCatalogs_spec hc hr hrA hh hhA hcat.relcat.file hcat.attrcat.file
    ⟨hpos, hposA⟩ hQ hQA
  obtain ⟨s₂, hy, habsent, hstored⟩ := hc₁.delete_pages
  refine ⟨s₂, hquit s₂ hy, habsent, fun nm fv hf => ?_⟩
  obtain ⟨uf, huf, hst, hpages⟩ := hstored nm fv hf
  refine ⟨uf, huf, hst,
    fun p hp blk hblk => hpages p hp blk (hblk.imp_right fun hcur => ⟨hcur.1, ?_⟩)⟩
  -- a file that is still open has been open before
  intro z hz hw d hd
  refine hcur.2 ?_
  have hclosed : ∀ {nm' : FileName} {f : FilePtr} {k : Int}, v.handle nm' = some (f, k) →
      closed f k = some (z.file, d) → lost nm' := fun {nm' f k} hk hd => by
    unfold closed at hd
    split at hd
    next => cases hd
    next =>
      cases hd
      exact hlost z hz hw nm' k hk
  by_cases hattr : nm = ATTRCATNAME
  · rw [hattr, View.handle_setHandle_self] at hd
    exact hattr ▸ hclosed hhA hd
  rw [View.handle_setHandle_of_ne hattr] at hd
  by_cases hrel : nm = RELCATNAME
  · rw [hrel, View.handle_setHandle_self] at hd
    exact hrel ▸ hclosed hh hd
  · rw [View.handle_setHandle_of_ne hrel] at hd
    exact hlost z hz hw nm d hd

end Minirel
