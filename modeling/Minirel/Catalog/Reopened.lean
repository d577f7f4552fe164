import Minirel.Catalog.Load
import Minirel.Catalog.Shutdown

/-!
# A relation after a load and a restart

`UT_Load` returns without deleting its object on the heap file. The frame with the header of the
file is never marked as dirty, so that `UT_Quit` does not write it: the header that the next process
reads is the one before the load.

## Main definitions

* `Reopened`: a full scan returns these records, and the header of the file describes their pages.
* `Loadable`: a session in which a relation can be loaded.

## Main results

* `reopened_iff`: the load has to be one without a tuple.
-/

namespace Minirel

open Comp HeapFile

/-- A full scan of the file returns the records, and the header of the file describes the chain of
their pages. -/
structure Reopened (s : Sys) (nm : FileName) (records : Multiset Bytes) : Prop where
  scan : ∃ N, ∀ fuel, N ≤ fuel → ∃ l s', Yields (fullScan nm fuel) s (.FILEEOF, l) false s' ∧
    (l.map Prod.snd : Multiset Bytes) = records
  header : ∃ H, s.heap? nm = some H ∧ H.Chained ∧ H.hdr.recCnt = records.card

/-- A session on a consistent database, with the heap file `HR` of the relation `R`. The file is not
open, or nothing has been changed in its frames. -/
def Loadable (relCat attrCat : HeapFile) (s : Sys) (R : Relation) (HR : Heap) : Prop :=
  ∃ C P Q v fv H fvA HA fvR, Session relCat attrCat s P Q v H HA ∧ Database s C P v fv H fvA HA ∧
    R ∈ C ∧ ¬IsCatalog R.name ∧ IsHeap v R.name fvR HR ∧
    (v.handle R.name = none ∨ fvR.kept = fvR.cur)

/-- The pages of a file that is not open are on disk. -/
theorem Coh.reload {s : Sys} {P : Multiset Pin} {v : View} {nm : FileName} {fv : FileView}
    (h : Coh s P v) (hf : v.file nm = some fv) (hh : v.handle nm = none) :
    Coh s P (v.setFile nm (some fv.reloaded)) := by
  obtain ⟨uf, huf, hst, hpages⟩ := h.stored nm fv hf
  have hloc : ∀ p, v.loc s.buf nm p = none := fun p => by
    unfold View.loc
    rw [hh, Option.bind_none]
  have key := h.withFile (u := uf) (w := fv.reloaded) hf (hst.of_eq rfl rfl) (fun p hp => ?_)
    fun p n _ hp => hp
  · have hs : s.setUnix nm (some uf) = s := by
      unfold Sys.setUnix
      rw [← huf, Function.update_eq_self]
    rwa [hs] at key
  · have hpage := hpages p hp
    rw [hloc] at hpage ⊢
    exact ⟨hpage.on_disk, nofun, fun c hc => ⟨hpage.on_disk c hc rfl, nofun⟩⟩

/-- All that there is in the file is on disk. -/
theorem Loadable.kept {relCat attrCat : HeapFile} {s : Sys} {R : Relation} {HR : Heap}
    (h : Loadable relCat attrCat s R HR) : ∃ C P Q v fv H fvA HA fvR,
      Session relCat attrCat s P Q v H HA ∧ Database s C P v fv H fvA HA ∧ R ∈ C ∧
      ¬IsCatalog R.name ∧ IsHeap v R.name fvR HR ∧ fvR.kept = fvR.cur := by
  obtain ⟨C, P, Q, v, fv, H, fvA, HA, fvR, hses, hdb, hR, hcatalog, hHR, hclosed | hkept⟩ := h
  · have hc := hdb.coh.reload hHR.file hclosed
    have hl := leaves_setFile hc
    have hcat : Catalogs (v.setFile R.name (some fvR.reloaded)) fv H fvA HA := { hdb.catalogs with
      relcat := hl.isHeap (fun hn => hcatalog (Or.inl hn.symm)) hdb.catalogs.relcat
      attrcat := hl.isHeap (fun hn => hcatalog (Or.inr hn.symm)) hdb.catalogs.attrcat }
    exact ⟨C, P, Q, _, fv, H, fvA, HA, fvR.reloaded, { hses with coh := hc },
      { hdb with coh := hc, catalogs := hcat }, hR, hcatalog,
      ⟨hHR.name, View.file_setFile_self, hHR.heapAt.reloaded, hHR.sized, hHR.opened⟩, rfl⟩
  · exact ⟨C, P, Q, v, fv, H, fvA, HA, fvR, hses, hdb, hR, hcatalog, hHR, hkept⟩

section Restart

variable {s : Sys} {v : View} {nm : FileName} {fv : FileView} {H : Heap}

/-- A process that has just been started on the file. -/
theorem IsHeap.reopened (h : IsHeap v nm fv H) (hc : Coh s 0 v) (hN : v.numBufs = BUFS)
    (hcnt : H.hdr.recCnt = H.rows.card) : Reopened s nm H.rows where
  scan := by
    have hframes : freeFrames v.numBufs 0 = 100 := hN ▸ freeFrames_zero 100
    refine ⟨H.rids.length + H.pages.length + 1, fun fuel hfuel => ?_⟩
    obtain ⟨r, s', hy, rfl⟩ := (fullScan_spec (T := True) fuel hc h.name h.file h.heapAt h.sized
      h.opened fun _ => ⟨by omega, hfuel⟩).exists trivial
    exact ⟨H.records, s', hy, rfl⟩
  header := by
    obtain ⟨H', hH', hsame⟩ := hc.heap? h.file h.heapAt
    exact ⟨H', hH', (hsame.heapAt h.heapAt).chained, hsame.hdr ▸ hcnt⟩

/-- The header page that is found has been kept on disk. -/
theorem Reopened.recCnt_eq {s : Sys} {P : Multiset Pin} {v : View} {records : Multiset Bytes}
    {blk : Block} (h : Reopened s nm records) (hc : Coh s P v) (hf : v.file nm = some fv)
    (hfirst : fv.alloc fv.first) (hcur : fv.cur fv.first = some blk) :
    blk.asFileHdr.recCnt = records.card := by
  obtain ⟨H, hH, -, hcnt⟩ := h.header
  rwa [hc.hdr_of_heap? hf hfirst hcur hH] at hcnt

end Restart

section Load

variable {relCat attrCat : HeapFile} {s s' s'' : Sys} {R : Relation} {HR : Heap} {fuel : Nat}
  {rd junk : RelDesc} {junkAttr : AttrDesc} {fileName data : Bytes} {e e' : Bool}

/-- What the next process finds of the file, whether the load has had a tuple or not: the header
is the one before the load, and the file is the one before the load if there was none. -/
theorem Loadable.restart (h : Loadable relCat attrCat s R HR)
    (hwidth : 1 ≤ sumLen R.attrs ∧ sumLen R.attrs ≤ 1000) (hrd : rd.Sized) (hjunk : junk.Sized)
    (hdata : s.dataFile fileName = some data) (hframes : 8 ≤ s.freeFrames ∨ e = false)
    (hload : Yields (UT_Load fuel rd junk junkAttr R.name fileName) s .OK e s')
    (hquit : Yields (UT_Quit relCat attrCat) s' () e' s'') (dataFile' : FileName → Option Bytes)
    (hash' : BufHash) : ∃ v fv blk,
      Coh (Sys.start s''.unix dataFile' (fun _ => true) hash') 0 v ∧ v.numBufs = BUFS ∧
      v.file R.name = some fv ∧ fv.alloc fv.first ∧ fv.cur fv.first = some blk ∧
      blk.asFileHdr = HR.hdr ∧ ((data.length : Int) < sumLen R.attrs → IsHeap v R.name fv HR) := by
  obtain ⟨C, P, Q, v, fv, H, fvA, HA, fvR, hses, hdb, hR, hcatalog, hHR, hkept⟩ := h.kept
  have hfile : fileName ≠ [] := by
    rintro rfl
    unfold UT_Load at hload
    rw [if_pos (Or.inr (Or.inl rfl))] at hload
    exact Status.noConfusion (hload.unique (.pure _ _)).1
  have hw : toInt (sumLen R.attrs) = sumLen R.attrs := toInt_eq (by omega) (by omega)
  let N := (H.rids.length + H.pages.length + 1) + (2 * HA.rids.length + HA.pages.length + 1) +
    data.length + 1
  have hfree := hdb.coh.freeFrames_eq
  have hcall : Runs False (UT_Load (max fuel N) rd junk junkAttr R.name fileName) s _ :=
    hdb.load (F := 8 ≤ s.freeFrames) hR hcatalog hHR (max fuel N) hfile hdata hrd hjunk
      (fun hf => ⟨by omega, by omega, by omega, by omega⟩) False.elim
  obtain ⟨hflag, hpost⟩ := hcall.1 _ _ _
    (UT_Load_mono (le_max_left fuel N) _ _ _ _ _ s .OK e s' hload)
  obtain ⟨P', v', fvR', HR', o, -, hl, hfiles, hHR', -, hloaded, -⟩ :=
    hpost (hframes.elim hflag id)
  rw [hw] at hloaded
  have hcat := hdb.catalogs.of_other hcatalog hl.later hfiles
  obtain ⟨Q', hses', -⟩ := hses.leaves hl.toLeaves hl.rel hl.attr
  -- of this file, and of whatever is still pinned, only what has been kept is known
  let lost : FileName → Prop := fun nm => nm = R.name ∨ ∃ z ∈ Q', z.wrote = true ∧
    ∃ c, v'.handle nm = some (z.file, c)
  obtain ⟨s₃, hy, hdisk⟩ : ∃ s₃, Yields (UT_Quit relCat attrCat) s' () false s₃ ∧
      OnDiskExcept lost s₃.unix v' :=
    hses'.quit_except hcat fun z hz hw nm c hh => Or.inr ⟨z, hz, hw, c, hh⟩
  obtain ⟨-, -, rfl⟩ := hquit.unique hy
  have hfound : (v'.found lost).file R.name = some fvR'.surviving := by
    rw [View.file_found_lost (Or.inl rfl), hHR'.file, Option.map_some]
  obtain ⟨blk, hcur, hblk⟩ := hHR.heapAt.exists_hdr
  refine ⟨v'.found lost, fvR'.surviving, blk, hdisk.start dataFile' hash', rfl, hfound, ?_, ?_,
    hblk, fun hlt => ?_⟩
  · show fvR'.alloc fvR'.first
    rw [hHR'.heapAt.first]
    exact hHR'.heapAt.hdr_alloc
  · show fvR'.kept fvR'.first = some blk
    rw [hHR'.heapAt.first, hloaded.grows.le.1, hloaded.grows.hdrKept, hkept, hcur]
  · obtain ⟨rfl, rfl⟩ := hloaded.unchanged hlt
    rw [FileView.surviving_eq_self hkept] at hfound ⊢
    exact ⟨hHR.name, hfound, hHR.heapAt, hHR.sized, nofun⟩

/-- The load of the new relation `A` with `data`, and the end of the session. -/
theorem exists_load_quit (data : Bytes) : ∃ relCat attrCat s s' s'' HR fuel,
    Loadable relCat attrCat s oneRelation HR ∧ HR.rows = 0 ∧ HR.hdr.recCnt = 0 ∧
    s.dataFile [70] = some data ∧
    Yields (UT_Load fuel .zero .zero .zero [65] [70]) s .OK false s' ∧
    Yields (UT_Quit relCat attrCat) s' () false s'' := by
  obtain ⟨relCat, attrCat, s, P, Q, v, fv, H, fvA, HA, fvR, p, q, pg, hses, hdb, hHR, hclosed, -,
    hframes⟩ := exists_created_one
  have hc := hdb.coh.withData data
  have hses' : Session relCat attrCat (s.withData data) P Q v H HA := { hses with coh := hc }
  have hdb' : Database (s.withData data) [oneRelation, Relation.relcat, Relation.attrcat] P v fv H
    fvA HA := { hdb with coh := hc }
  have hcall : Runs True (UT_Load ((H.rids.length + H.pages.length + 1) +
      (2 * HA.rids.length + HA.pages.length + 1) + data.length + 1) .zero .zero .zero
      oneRelation.name [70]) (s.withData data) _ :=
    hdb'.load (F := True) List.mem_cons_self (by decide) hHR _ (by decide) rfl RelDesc.sized_zero
      RelDesc.sized_zero (fun _ => ⟨by omega, by omega, by omega, by omega⟩)
      fun _ => ⟨trivial, by decide⟩
  obtain ⟨st, e, s', hy⟩ := hcall.2 trivial
  obtain ⟨hflag, hpost⟩ := hcall.1 st e s' hy
  obtain rfl := hflag trivial
  obtain ⟨P', v', fvR', HR', o, -, hl, hfiles, -, -, hloaded, rfl⟩ := hpost rfl
  have hcat := hdb.catalogs.of_other (by decide) hl.later hfiles
  obtain ⟨Q', hses'', -⟩ := hses'.leaves hl.toLeaves hl.rel hl.attr
  obtain ⟨s'', hquit, -⟩ := hses''.quit hcat
  have hrows := hloaded.rows
  rw [if_pos (Or.inl (by decide))] at hrows
  rw [hrows.1] at hy
  exact ⟨relCat, attrCat, s.withData data, s', s'', _, _, ⟨_, P, Q, v, fv, H, fvA, HA, fvR, hses',
    hdb', List.mem_cons_self, by decide, hHR, Or.inl hclosed⟩, Heap.rows_fresh, rfl, rfl, hy, hquit⟩

/-- If all that has been loaded is found again, it was nothing. -/
theorem Loadable.lt_of_reopened (h : Loadable relCat attrCat s R HR)
    (hcnt : HR.hdr.recCnt ≤ HR.rows.card)
    (hwidth : 1 ≤ sumLen R.attrs ∧ sumLen R.attrs ≤ 1000) (hrd : rd.Sized) (hjunk : junk.Sized)
    (hdata : s.dataFile fileName = some data) (hframes : 8 ≤ s.freeFrames ∨ e = false)
    (hload : Yields (UT_Load fuel rd junk junkAttr R.name fileName) s .OK e s')
    (hquit : Yields (UT_Quit relCat attrCat) s' () e' s'') {dataFile' : FileName → Option Bytes}
    {hash' : BufHash} (hre : Reopened (Sys.start s''.unix dataFile' (fun _ => true) hash') R.name
      (HR.rows + (fileTuples (sumLen R.attrs).toNat data : Multiset Bytes))) :
    (data.length : Int) < sumLen R.attrs ∧ HR.hdr.recCnt = HR.rows.card := by
  obtain ⟨v, fv, blk, hc, -, hf, hfirst, hcur, hblk, -⟩ :=
    h.restart hwidth hrd hjunk hdata hframes hload hquit dataFile' hash'
  have hcount := hre.recCnt_eq hc hf hfirst hcur
  rw [hblk, Multiset.card_add, Multiset.coe_card, length_fileTuples] at hcount
  have hzero : data.length / (sumLen R.attrs).toNat = 0 := by
    generalize data.length / (sumLen R.attrs).toNat = k at hcount
    omega
  rw [hzero, add_zero] at hcount
  refine ⟨?_, hcount⟩
  rcases Nat.div_eq_zero_iff.mp hzero with hw | hlt
  · omega
  · omega

/-- After a load that has returned `OK` and the end of the session, the next process finds the
records that there were and those that have been loaded, and a header that describes them, only if
there was no whole tuple to load and the header has counted the records before. -/
theorem reopened_iff (h : Loadable relCat attrCat s R HR)
    (hcnt : HR.hdr.recCnt ≤ HR.rows.card)
    (hwidth : 1 ≤ sumLen R.attrs ∧ sumLen R.attrs ≤ 1000) (hrd : rd.Sized) (hjunk : junk.Sized)
    (hdata : s.dataFile fileName = some data) (hframes : 8 ≤ s.freeFrames ∨ e = false)
    (hload : Yields (UT_Load fuel rd junk junkAttr R.name fileName) s .OK e s')
    (hquit : Yields (UT_Quit relCat attrCat) s' () e' s'') (dataFile' : FileName → Option Bytes)
    (hash' : BufHash) :
    Reopened (Sys.start s''.unix dataFile' (fun _ => true) hash') R.name
      (HR.rows + (fileTuples (sumLen R.attrs).toNat data : Multiset Bytes)) ↔
      (data.length : Int) < sumLen R.attrs ∧ HR.hdr.recCnt = HR.rows.card := by
  refine ⟨fun hre => h.lt_of_reopened hcnt hwidth hrd hjunk hdata hframes hload hquit hre, ?_⟩
  rintro ⟨hlt, hcount⟩
  obtain ⟨v, fv, blk, hc, hN, -, -, -, -, hheap⟩ :=
    h.restart hwidth hrd hjunk hdata hframes hload hquit dataFile' hash'
  rw [fileTuples_of_lt (by omega), Multiset.coe_nil, add_zero]
  exact (hheap hlt).reopened hc hN hcount

/-- The new relation `A` is loaded from a file that is shorter than a tuple. -/
theorem reopened_iff_half : ∃ relCat attrCat s s' s'' HR fuel,
    Loadable relCat attrCat s oneRelation HR ∧ s.dataFile [70] = some [97, 0, 0] ∧
    Yields (UT_Load fuel .zero .zero .zero [65] [70]) s .OK false s' ∧
    Yields (UT_Quit relCat attrCat) s' () false s'' ∧ ∀ dataFile' hash',
      Reopened (Sys.start s''.unix dataFile' (fun _ => true) hash') [65] 0 := by
  obtain ⟨relCat, attrCat, s, s', s'', HR, fuel, h, hrows, hcnt, hdata, hload, hquit⟩ :=
    exists_load_quit [97, 0, 0]
  refine ⟨relCat, attrCat, s, s', s'', HR, fuel, h, hdata, hload, hquit, fun dataFile' hash' => ?_⟩
  have hle : HR.hdr.recCnt = HR.rows.card := by rw [hrows, hcnt]; rfl
  have hre := (reopened_iff h hle.le (by decide) RelDesc.sized_zero RelDesc.sized_zero hdata
    (Or.inr rfl) hload hquit dataFile' hash').mpr ⟨by decide, hle⟩
  rw [hrows] at hre
  exact hre

/-- The new relation `A` is loaded with one tuple, which is not found again. -/
theorem not_reopened_oneTuple : ∃ relCat attrCat s s' s'' HR fuel,
    Loadable relCat attrCat s oneRelation HR ∧ HR.rows = 0 ∧ HR.hdr.recCnt = 0 ∧
    s.dataFile [70] = some [97, 0, 0, 0] ∧
    Yields (UT_Load fuel .zero .zero .zero [65] [70]) s .OK false s' ∧
    Yields (UT_Quit relCat attrCat) s' () false s'' ∧ ∀ dataFile' hash',
      ¬Reopened (Sys.start s''.unix dataFile' (fun _ => true) hash') [65] {[97, 0, 0, 0]} := by
  obtain ⟨relCat, attrCat, s, s', s'', HR, fuel, h, hrows, hcnt, hdata, hload, hquit⟩ :=
    exists_load_quit [97, 0, 0, 0]
  refine ⟨relCat, attrCat, s, s', s'', HR, fuel, h, hrows, hcnt, hdata, hload, hquit,
    fun dataFile' hash' hre => ?_⟩
  have hle : HR.hdr.recCnt ≤ HR.rows.card := by rw [hrows, hcnt]; rfl
  have hlt := (h.lt_of_reopened hle (by decide) RelDesc.sized_zero RelDesc.sized_zero hdata
    (Or.inr rfl) hload hquit (by rw [hrows]; exact hre)).1
  exact absurd hlt (by decide)

end Load

end Minirel
