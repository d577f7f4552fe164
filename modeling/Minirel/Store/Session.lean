import Minirel.Store.Ops

/-!
# Opening and closing files, and the life of a process

The operations of `db` on the store, the destructor of the buffer manager, and the start of a
process on what another one has left on disk.
-/

namespace Minirel

open Comp

/-- A file that is neither open nor on disk cannot be opened, whether the Unix call fails or not. -/
theorem DB.yields_openFile_absent {s : Sys} {nm : FileName} (hnm : nm ≠ [])
    (hfind : s.openFiles.find nm = none) (hunix : s.unix nm = none) :
    Yields (DB.openFile nm) s (.UNIXERR, s.nextFile) false
      { s with
        io := fun k => s.io (k + 1)
        files := Function.update (Function.update s.files s.nextFile (some ⟨nm, 0, false⟩))
          s.nextFile none
        nextFile := s.nextFile + 1 } := by
  set s₁ : Sys := { s with
    files := Function.update s.files s.nextFile (some ⟨nm, 0, false⟩)
    nextFile := s.nextFile + 1 } with hs₁
  have hnew : Yields (DB.newFile nm) s s.nextFile false s₁ := rfl
  have hcall : Yields unixCall s₁ (s₁.io 0) false { s₁ with io := fun k => s₁.io (k + 1) } := rfl
  have hopen : Yields (File.open s.nextFile) s₁ .UNIXERR false
      { s₁ with io := fun k => s₁.io (k + 1) } := by
    unfold File.open
    refine (yields_fileAt (o := ⟨nm, 0, false⟩) (Function.update_self _ _ _)).bind (d := false) ?_
    rw [if_pos rfl]
    refine (Yields.get s₁).bind (d := false) (hcall.bind (d := false) ?_)
    have hu : s₁.unix nm = none := hunix
    simp only [hu, Option.isSome_none, Bool.false_eq_true, and_false, ↓reduceIte]
    exact Yields.pure _ _
  unfold DB.openFile
  rw [if_neg hnm]
  refine (Yields.get s).bind (d := false) ?_
  simp only [show OpenFileHashTbl.find s.openFiles nm = none from hfind]
  refine hnew.bind (d := false) (hopen.bind (d := false) ?_)
  rw [if_pos (by decide)]
  exact (yields_setFile s.nextFile none _).bind (Yields.pure _ _)

namespace Coh

variable {T : Prop} {s : Sys} {P : Multiset Pin} {v : View} {nm nm' : FileName} {f : FilePtr}
  {c : Int} {p : Int} {n : Nat} {fv : FileView} {x : Pin} {blk : Block}

/-! ## Opening and closing -/

/-- `DB::openFile` of a file that exists. -/
theorem openFile (h : Coh s P v) (hnm : nm ≠ []) (hf : v.file nm = some fv)
    (hpos : ∀ f c, v.handle nm = some (f, c) → 0 < c) :
    ∃ f s', Yields (DB.openFile nm) s (.OK, f) false s' ∧ s'.buf = s.buf ∧
      Coh s' P (v.setHandle nm (some (f, v.openCnt nm + 1))) ∧
      (∀ f' c', v.handle nm = some (f', c') → f = f') := by
  cases hh : v.handle nm with
  | some d =>
    obtain ⟨f, c⟩ := d
    have ho := h.opened nm f c hh
    have hc := hpos f c hh
    have hfind : s.openFiles.find nm = some f := by
      rw [h.openFiles, hh]
      rfl
    have hcnt : v.openCnt nm = c := by
      rw [View.openCnt, hh]
    refine ⟨f, { s with files := Function.update s.files f (some ⟨nm, c + 1, true⟩) },
      ?_, rfl, ?_, ?_⟩
    · have hopen : Yields (File.open f) s .OK false
          { s with files := Function.update s.files f (some ⟨nm, c + 1, true⟩) } := by
        unfold File.open
        refine (yields_fileAt ho.obj).bind (d := false) ?_
        rw [if_neg (show ¬c = 0 by omega)]
        exact (yields_setFile f (some ⟨nm, c + 1, true⟩) s).bind (Yields.pure _ _)
      unfold DB.openFile
      rw [if_neg hnm]
      refine (Yields.get s).bind (d := false) ?_
      have hfind : OpenFileHashTbl.find s.openFiles nm = some f := hfind
      simp only [hfind]
      exact hopen.bind (Yields.pure _ _)
    · rw [hcnt]
      refine h.withHandle _ rfl rfl rfl (le_refl _) (fun nm' f' c' hne hh' => ?_) (fun nm' => ?_)
        (fun f' c' he => ?_) fun p => ?_
      · refine Function.update_of_ne ?_ _ _
        rintro rfl
        exact hne (h.name_unique hh' hh)
      · split
        next he => rw [he, hfind]; rfl
        next => rfl
      · cases he
        exact ⟨ho.ne_zero, ho.lt_next, by omega, ho.name, Function.update_self _ _ _, ho.isSome⟩
      · exact (View.loc_of_handle hh p).symm
    · intro f' c' he
      cases he
      rfl
  | none =>
    obtain ⟨uf, huf, -, -⟩ := h.stored nm fv hf
    have hfind : OpenFileHashTbl.find s.openFiles nm = none := by
      show s.openFiles.find nm = none
      rw [h.openFiles, hh]
      rfl
    have hcnt : v.openCnt nm = 0 := by
      rw [View.openCnt, hh]
    obtain ⟨t, ht⟩ : ∃ t, s.openFiles.insert? nm s.nextFile = some t := by
      cases hi : s.openFiles.insert? nm s.nextFile with
      | some t => exact ⟨t, rfl⟩
      | none => exact absurd hfind ((ChainTable.insert?_eq_none_iff _ _ _).mp hi)
    -- the new object, closed and open
    set s₁ : Sys := { s with
      files := Function.update s.files s.nextFile (some ⟨nm, 0, false⟩)
      nextFile := s.nextFile + 1 } with hs₁
    set s₂ : Sys := { s₁ with
      files := Function.update s₁.files s.nextFile (some ⟨nm, 1, true⟩) } with hs₂
    refine ⟨s.nextFile, { s₂ with openFiles := t }, ?_, rfl, ?_, nofun⟩
    · have hnew : Yields (DB.newFile nm) s s.nextFile false s₁ := rfl
      have hopen : Yields (File.open s.nextFile) s₁ .OK false s₂ := by
        unfold File.open
        refine (yields_fileAt (o := ⟨nm, 0, false⟩) (Function.update_self _ _ _)).bind
          (d := false) ?_
        rw [if_pos rfl]
        refine (Yields.get s₁).bind (d := false) ?_
        refine (yields_unixCall_of_io (s := s₁) h.io).bind (d := false) ?_
        have hu : s₁.unix nm = some uf := huf
        simp only [hu, Option.isSome_some, and_self, ↓reduceIte]
        exact (yields_setFile s.nextFile (some ⟨nm, 1, true⟩) s₁).bind (Yields.pure _ _)
      unfold DB.openFile
      rw [if_neg hnm]
      refine (Yields.get s).bind (d := false) ?_
      simp only [hfind]
      refine hnew.bind (d := false) (hopen.bind (d := false) ?_)
      rw [if_neg (by decide)]
      refine (Yields.get s₂).bind (d := false) ?_
      have hins : OpenFileHashTbl.insert s₂.openFiles nm s.nextFile = (.OK, t) := by
        unfold OpenFileHashTbl.insert
        rw [show s₂.openFiles = s.openFiles from rfl, ht]
      simp only [hins]
      exact (Yields.set s₂ { s₂ with openFiles := t }).bind (Yields.pure _ _)
    · rw [hcnt]
      refine h.withHandle _ rfl rfl rfl (Nat.le_succ _) (fun nm' f' c' hne hh' => ?_)
        (fun nm' => ?_)
        (fun f' c' he => ?_) fun p => ?_
      · have hlt := (h.opened nm' f' c' hh').lt_next
        show Function.update (Function.update s.files _ _) _ _ f' = _
        rw [Function.update_of_ne (Nat.ne_of_lt hlt), Function.update_of_ne (Nat.ne_of_lt hlt)]
      · exact ChainTable.find_insert? ht nm'
      · cases he
        exact ⟨Nat.ne_of_gt h.nextFile, Nat.lt_succ_self _, by omega, hnm,
          Function.update_self _ _ _, fv, hf⟩
      · have hl : v.loc s.buf nm p = none := by
          unfold View.loc
          rw [hh]
          rfl
        rw [hl]
        exact h.lookup_nextFile (le_refl _)

/-- `DB::openFile` of a file that does not exist. -/
theorem openFile_absent (h : Coh s P v) (hnm : nm ≠ []) (hf : v.file nm = none)
    (hforeign : ¬v.foreign nm) :
    ∃ f s', Yields (DB.openFile nm) s (.UNIXERR, f) false s' ∧ Coh s' P v ∧ s'.buf = s.buf := by
  have hh := h.handle_eq_none hf
  have hfind : s.openFiles.find nm = none := by
    rw [h.openFiles, hh]
    rfl
  refine ⟨s.nextFile, _, DB.yields_openFile_absent hnm hfind (h.absent nm hf hforeign), ?_, rfl⟩
  have hio : (fun k => s.io (k + 1)) = s.io := by rw [h.io]
  rw [hio]
  set s₁ : Sys := { s with
    files := Function.update s.files s.nextFile (some ⟨nm, 0, false⟩)
    nextFile := s.nextFile + 1 } with hs₁
  have key := h.withHandle nm (o := none)
    (t := { s₁ with files := Function.update s₁.files s.nextFile none }) rfl rfl rfl
    (Nat.le_succ _) (fun nm' f' c' _ hh' => ?_) (fun nm' => ?_) nofun fun p => ?_
  · rwa [View.setHandle_self hh] at key
  · have hlt := (h.opened nm' f' c' hh').lt_next
    show Function.update (Function.update s.files _ _) _ _ f' = _
    rw [Function.update_of_ne (Nat.ne_of_lt hlt), Function.update_of_ne (Nat.ne_of_lt hlt)]
  · split
    next he => rw [he]; exact hfind
    next => rfl
  · unfold View.loc
    rw [hh]

/-- `DB::closeFile`. The last time a file is closed no page of it may be pinned. -/
theorem closeFile (h : Coh s P v) (hh : v.handle nm = some (f, c)) (hc : 0 < c)
    (hpin : c = 1 → ∀ x ∈ P, x.file ≠ f) :
    ∃ s', Yields (DB.closeFile f) s .OK false s' ∧
      Coh s' P (v.setHandle nm (if c = 1 then none else some (f, c - 1))) := by
  have ho := h.opened nm f c hh
  set s₁ : Sys := { s with files := Function.update s.files f (some ⟨nm, c - 1, true⟩) } with hs₁
  have h₁ : Coh s₁ P (v.setHandle nm (some (f, c - 1))) := by
    refine h.withHandle _ rfl rfl rfl (le_refl _) (fun nm' f' c' hne hh' => ?_) (fun nm' => ?_)
      (fun f' c' he => ?_) fun p => (View.loc_of_handle hh p).symm
    · refine Function.update_of_ne ?_ _ _
      rintro rfl
      exact hne (h.name_unique hh' hh)
    · split
      next he =>
        rw [he]
        show s.openFiles.find nm = _
        rw [h.openFiles, hh]
        rfl
      next => rfl
    · cases he
      exact ⟨ho.ne_zero, ho.lt_next, by omega, ho.name, Function.update_self _ _ _, ho.isSome⟩
  unfold DB.closeFile
  rw [if_neg ho.ne_zero]
  by_cases hc1 : c = 1
  · subst hc1
    obtain ⟨st, s₂, hy₂, h₂, hst⟩ := h₁.flushFile ho.ne_zero
    have hclear : ∀ p, s₂.buf.hashTable.lookup f p = none := by
      rcases hst with ⟨-, hall⟩ | ⟨-, x, hx, hxf⟩
      · exact hall
      · exact absurd hxf (hpin rfl x hx)
    have ho₂ := h₂.opened nm f 0 View.handle_setHandle_self
    obtain ⟨t, ht⟩ : ∃ t, s₂.openFiles.erase? nm = some t := by
      cases he : s₂.openFiles.erase? nm with
      | some t => exact ⟨t, rfl⟩
      | none =>
        have hopen := (h₂.openFiles nm).symm.trans ((ChainTable.erase?_eq_none_iff _ _).mp he)
        rw [View.handle_setHandle_self] at hopen
        cases hopen
    set s₃ : Sys := { s₂ with files := Function.update s₂.files f (some ⟨nm, 0, false⟩) } with hs₃
    refine ⟨{ s₃ with openFiles := t, files := Function.update s₃.files f none }, ?_, ?_⟩
    · have hclose : Yields (File.close f) s .OK false s₃ := by
        unfold File.close
        refine (yields_fileAt ho.obj).bind (d := false) ?_
        rw [if_neg (show ¬(1 : Int) ≤ 0 by decide)]
        refine (yields_setFile f (some ⟨nm, 1 - 1, true⟩) s).bind (d := false) ?_
        rw [if_pos (show (1 : Int) - 1 = 0 by decide)]
        refine hy₂.bind (d := false) ?_
        refine (yields_unixCall_of_io (s := s₂) h₂.io).bind (d := false) ?_
        refine (yields_fileAt ho₂.obj).bind (d := false) ?_
        refine (yields_setFile f (some ⟨nm, 0, false⟩) s₂).bind (d := false) ?_
        exact Yields.pure _ _
      refine hclose.bind (d := false) ?_
      refine (yields_fileAt (o := ⟨nm, 0, false⟩) (Function.update_self _ _ _)).bind
        (d := false) ?_
      rw [if_pos rfl]
      refine (Yields.get s₃).bind (d := false) ?_
      have herase : OpenFileHashTbl.erase s₃.openFiles nm = (.OK, t) := by
        unfold OpenFileHashTbl.erase
        rw [show s₃.openFiles = s₂.openFiles from rfl, ht]
      simp only [herase]
      refine (Yields.set s₃ { s₃ with openFiles := t }).bind (d := false) ?_
      simp only [ne_eq, not_true_eq_false, ↓reduceIte]
      exact (yields_setFile f none _).bind (Yields.pure _ _)
    · rw [if_pos rfl]
      have key := h₂.withHandle nm (o := none)
        (t := { s₃ with openFiles := t, files := Function.update s₃.files f none }) rfl rfl rfl
        (le_refl _) (fun nm' f' c' hne hh' => ?_) (fun nm' => ?_) nofun fun p => ?_
      · rwa [View.setHandle_setHandle] at key
      · have hne' : f' ≠ f := by
          rintro rfl
          exact hne (h₂.name_unique hh' View.handle_setHandle_self)
        show Function.update (Function.update s₂.files _ _) _ _ f' = _
        rw [Function.update_of_ne hne', Function.update_of_ne hne']
      · exact ChainTable.find_erase? ht nm'
      · rw [View.loc_of_handle View.handle_setHandle_self]
        exact (hclear p).symm
  · refine ⟨s₁, ?_, ?_⟩
    · have hclose : Yields (File.close f) s .OK false s₁ := by
        unfold File.close
        refine (yields_fileAt ho.obj).bind (d := false) ?_
        rw [if_neg (show ¬c ≤ 0 by omega)]
        refine (yields_setFile f (some ⟨nm, c - 1, true⟩) s).bind (d := false) ?_
        rw [if_neg (show ¬c - 1 = 0 by omega)]
        exact Yields.pure _ _
      refine hclose.bind (d := false) ?_
      refine (yields_fileAt (o := ⟨nm, c - 1, true⟩) (Function.update_self _ _ _)).bind
        (d := false) ?_
      rw [if_neg (show ¬c - 1 = 0 by omega)]
      exact Yields.pure _ _
    · rw [if_neg hc1]
      exact h₁

/-! ## Creating and destroying files -/

/-- `DB::createFile` of a file that does not exist. -/
theorem createFile (h : Coh s P v) (hnm : nm ≠ []) (hf : v.file nm = none)
    (hforeign : ¬v.foreign nm) :
    ∃ s', Yields (DB.createFile nm) s .OK false s' ∧
      Coh s' P (v.setFile nm (some FileView.empty)) := by
  have hh := h.handle_eq_none hf
  have hfind : OpenFileHashTbl.find s.openFiles nm = none := by
    show s.openFiles.find nm = none
    rw [h.openFiles, hh]
    rfl
  refine ⟨s.setUnix nm (some ⟨1, fun _ => .dbPage ⟨-1, -1, 1⟩⟩), ?_, ?_⟩
  · unfold DB.createFile
    rw [if_neg hnm]
    refine (Yields.get s).bind (d := false) ?_
    rw [hfind, if_neg (by decide)]
    unfold File.create
    refine (Yields.get s).bind (d := false) ?_
    refine (yields_unixCall_of_io h.io).bind (d := false) ?_
    rw [h.absent nm hf hforeign, if_neg (by decide), if_neg (by decide)]
    refine (yields_setUnix nm _ s).bind (d := false) ?_
    refine (yields_unixCall_of_io (s := s.setUnix nm _) h.io).bind (d := false) ?_
    rw [if_neg (by decide)]
    refine (yields_setUnix nm (some ⟨1, fun _ => .dbPage ⟨-1, -1, 1⟩⟩) (s.setUnix nm _)).bind
      (d := false) ?_
    have hs : ∀ uf uf', ({ s.setUnix nm uf with
        unix := Function.update (s.setUnix nm uf).unix nm uf' } : Sys) = s.setUnix nm uf' :=
      fun uf uf' => setUnix_setUnix s nm uf uf'
    rw [hs]
    refine (yields_unixCall_of_io (s := s.setUnix nm _) h.io).bind (d := false) ?_
    rw [if_neg (by decide)]
    exact Yields.pure _ _
  · refine h.withUnix hh nofun fun fv he => ?_
    cases he
    exact ⟨_, rfl, Stored.created, fun p hp => hp.elim⟩

/-- `DB::destroyFile` of a file that is not open. -/
theorem destroyFile (h : Coh s P v) (hnm : nm ≠ []) (hf : v.file nm = some fv)
    (hh : v.handle nm = none) :
    ∃ s', Yields (DB.destroyFile nm) s .OK false s' ∧ Coh s' P (v.setFile nm none) := by
  have hfind : OpenFileHashTbl.find s.openFiles nm = none := by
    show s.openFiles.find nm = none
    rw [h.openFiles, hh]
    rfl
  obtain ⟨uf, huf, -, -⟩ := h.stored nm fv hf
  refine ⟨s.setUnix nm none, ?_, h.withUnix hh (fun _ _ => rfl) nofun⟩
  unfold DB.destroyFile
  rw [if_neg hnm]
  refine (Yields.get s).bind (d := false) ?_
  rw [hfind, if_neg (by decide)]
  unfold File.destroy
  refine (Yields.get s).bind (d := false) ?_
  refine (yields_unixCall_of_io h.io).bind (d := false) ?_
  rw [if_pos ⟨rfl, by rw [huf]; rfl⟩]
  exact (yields_setUnix nm none s).bind (Yields.pure _ _)

/-! ## The end of a process and the start of the next one -/

/-- What is on disk is what the frame holds, if the frame would have to be written back. -/
def Settled (s : Sys) (v : View) (n : Nat) : Prop :=
  (s.buf.bufTable n).valid = true → (s.buf.bufTable n).dirty = true →
    ∀ nm c uf, v.handle nm = some ((s.buf.bufTable n).file, c) → s.unix nm = some uf →
      uf.page (s.buf.bufTable n).pageNo.toNat = s.buf.bufPool n

/-- The loop of the destructor of the buffer manager writes back every dirty frame. -/
theorem writeBackFrames : ∀ (n i : Nat) {s : Sys}, Coh s P v → i + n = s.buf.numBufs →
    (∀ m < i, Settled s v m) →
    ∃ s', Yields (BufMgr.writeBackFrames n i) s () false s' ∧ Coh s' P v ∧
      ∀ m < v.numBufs, Settled s' v m
  | 0, i, s => by
    intro h hi hset
    refine ⟨s, Yields.pure _ _, h, fun m hm => hset m ?_⟩
    rw [← h.numBufs] at hm
    omega
  | n + 1, i, s => by
    intro h hi hset
    have hcons := h.sound.consistent
    have hin : i < s.buf.numBufs := by omega
    by_cases hd : (s.buf.bufTable i).valid = true ∧ (s.buf.bufTable i).dirty = true
    · have hself := (hcons.valid_iff i hin).mp hd.1
      obtain ⟨nm, c, fv, hh, hfv, ha, -⟩ := h.exists_loc hself
      obtain ⟨uf, huf, hst, -⟩ := h.stored nm fv hfv
      have hw := File.yields_writePage (b := s.buf.bufPool i) h.io
        (h.opened nm _ c hh).obj huf hst ha
      have hset₁ : ∀ m < i + 1, Settled (s.setUnix nm (some (uf.write
          (s.buf.bufTable i).pageNo.toNat (s.buf.bufPool i)))) v m := by
        -- frames before `i` hold other pages
        intro m hm hv hdm nm' c' uf' hh' huf'
        have hv : (s.buf.bufTable m).valid = true := hv
        have hdm : (s.buf.bufTable m).dirty = true := hdm
        have hh' : v.handle nm' = some ((s.buf.bufTable m).file, c') := hh'
        have huf' : Function.update s.unix nm _ nm' = some uf' := huf'
        show uf'.page (s.buf.bufTable m).pageNo.toNat = s.buf.bufPool m
        by_cases hmi : m = i
        · subst hmi
          obtain rfl := h.name_unique hh' hh
          rw [Function.update_self] at huf'
          cases huf'
          exact UnixFile.page_write_self
        · have hm : m < i := by omega
          by_cases hne : nm' = nm
          · subst hne
            rw [Function.update_self] at huf'
            cases huf'
            have hfile : (s.buf.bufTable m).file = (s.buf.bufTable i).file :=
              congrArg Prod.fst (Option.some.inj (hh'.symm.trans hh))
            have hpne : (s.buf.bufTable m).pageNo ≠ (s.buf.bufTable i).pageNo := fun he =>
              hmi (hcons.unique m (by omega) i hin hv hd.1 hfile he)
            have hm' := (hcons.valid_iff m (by omega)).mp hv
            obtain ⟨nm₂, c₂, fv₂, hh₂, hfv₂, ha₂, -⟩ := h.exists_loc hm'
            obtain rfl := h.name_unique hh₂ hh'
            rw [hfv] at hfv₂
            cases hfv₂
            obtain ⟨h₁, -⟩ := hst.range ha
            obtain ⟨h₂, h₃⟩ := hst.range ha₂
            rw [UnixFile.page_write_of_ne (by omega) (by omega)]
            exact hset m hm hv hdm nm₂ c' uf hh' huf
          · rw [Function.update_of_ne hne] at huf'
            exact hset m hm hv hdm nm' c' uf' hh' huf'
      obtain ⟨s', hy, h', hset'⟩ := writeBackFrames n (i + 1) (h.written hh huf hself hd.2)
        (by show i + 1 + n = s.buf.numBufs; omega) hset₁
      refine ⟨s', ?_, h', hset'⟩
      unfold BufMgr.writeBackFrames
      refine (Yields.get s).bind (d := false) ?_
      simp only [hd, and_self, ↓reduceIte]
      exact hw.bind (d := false) hy
    · obtain ⟨s', hy, h', hset'⟩ := writeBackFrames n (i + 1) h (by omega)
        fun m hm hv hdm => by
          by_cases hmi : m = i
          · subst hmi
            exact absurd ⟨hv, hdm⟩ hd
          · exact hset m (by omega) hv hdm
      refine ⟨s', ?_, h', hset'⟩
      unfold BufMgr.writeBackFrames
      refine (Yields.get s).bind (d := false) ?_
      simp only [hd, ↓reduceIte]
      exact hy

/-- The destructor of the buffer manager. Of a file that a client has written to and not given back
only what has been kept is known to be on disk. -/
theorem delete_pages (h : Coh s P v) :
    ∃ s', Yields BufMgr.delete s () false s' ∧
      (∀ nm, v.file nm = none → ¬v.foreign nm → s'.unix nm = none) ∧
      ∀ nm fv, v.file nm = some fv → ∃ uf, s'.unix nm = some uf ∧ Stored uf fv ∧
        ∀ p, fv.alloc p → ∀ blk, fv.kept p = some blk ∨
          fv.cur p = some blk ∧ (∀ x ∈ P, x.wrote = true → ∀ c, v.handle nm ≠ some (x.file, c)) →
          uf.page p.toNat = blk := by
  obtain ⟨s', hy, h', hset⟩ := writeBackFrames s.buf.numBufs 0 h (by omega) fun m hm => by omega
  refine ⟨s', (Yields.get s).bind hy, h'.absent, fun nm fv hf => ?_⟩
  obtain ⟨uf, huf, hst, hpages⟩ := h'.stored nm fv hf
  refine ⟨uf, huf, hst, fun p hp blk hblk => ?_⟩
  have hpg := hpages p hp
  rcases hblk with hk | ⟨hc, hw⟩
  · exact (hpg.kept blk hk).1
  · cases hl : v.loc s'.buf nm p with
    | none => exact hpg.on_disk blk hc hl
    | some n =>
      obtain ⟨hpool, hor⟩ := hpg.in_frame blk n hc hl
      obtain ⟨⟨f, c⟩, hh, hl⟩ := Option.bind_eq_some_iff.mp hl
      obtain ⟨hn, hv, rfl, rfl⟩ := h'.sound.consistent.entry _ _ _ hl
      rcases hor with hd | hdisk | ⟨x, hx, rfl, hxw⟩
      · exact (hset _ (h'.numBufs ▸ hn) hv hd nm c uf hh huf).trans hpool
      · exact hdisk
      · -- the pin is on a page of this file
        obtain ⟨-, -, hfile, -⟩ := h'.sound.consistent.entry _ _ _ (h'.pins x hx)
        rw [hfile] at hh
        exact absurd hh (hw x hx hxw c)

/-- The destructor of the buffer manager. -/
theorem delete (h : Coh s P v) :
    ∃ s', Yields BufMgr.delete s () false s' ∧
      (∀ nm, v.file nm = none → ¬v.foreign nm → s'.unix nm = none) ∧
      ∀ nm fv, v.file nm = some fv → ∃ uf, s'.unix nm = some uf ∧ Stored uf fv ∧
        ∀ p, fv.alloc p → ∀ blk, fv.kept p = some blk ∨
          fv.cur p = some blk ∧ (∀ x ∈ P, x.wrote = false) → uf.page p.toNat = blk := by
  obtain ⟨s', hy, habsent, hstored⟩ := h.delete_pages
  refine ⟨s', hy, habsent, fun nm fv hf => ?_⟩
  obtain ⟨uf, huf, hst, hpages⟩ := hstored nm fv hf
  refine ⟨uf, huf, hst,
    fun p hp blk hblk => hpages p hp blk (hblk.imp_right fun hcur => ⟨hcur.1, ?_⟩)⟩
  intro x hx hw
  rw [hcur.2 x hx] at hw
  cases hw

/-- A process that has just started, on files that an earlier one has left. -/
theorem start {hash : FilePtr × Int → Fin (BufMgr.htsize v.numBufs)} (hN : 0 < v.numBufs)
    (hbuf : s.buf = BufMgr.new v.numBufs hash) (hio : s.io = fun _ => true)
    (hopen : ∀ nm, s.openFiles.find nm = none) (hnext : 0 < s.nextFile)
    (hh : ∀ nm, v.handle nm = none)
    (habsent : ∀ nm, v.file nm = none → ¬v.foreign nm → s.unix nm = none)
    (hfile : ∀ nm fv, v.file nm = some fv → ∃ uf, s.unix nm = some uf ∧ Stored uf fv ∧
      ∀ p, fv.alloc p → ∀ blk, fv.kept p = some blk ∨ fv.cur p = some blk →
        uf.page p.toNat = blk) : Coh s 0 v where
  sound := by
    rw [hbuf]
    exact ⟨BufMgr.Consistent.new _ hash, hN, Nat.sub_lt hN Nat.one_pos⟩
  numBufs := by
    rw [hbuf]
    rfl
  idle := by
    rw [hbuf]
    exact fun _ _ _ => ⟨rfl, rfl⟩
  io := hio
  openFiles nm := by
    rw [hopen, hh]
    rfl
  opened nm f c he := by
    rw [hh] at he
    cases he
  nextFile := hnext
  absent := habsent
  stored nm fv hf := by
    obtain ⟨uf, h₁, h₂, h₃⟩ := hfile nm fv hf
    refine ⟨uf, h₁, h₂, fun p hp => ?_⟩
    have hl : v.loc s.buf nm p = none := by
      unfold View.loc
      rw [hh]
      rfl
    rw [hl]
    exact ⟨fun c hc _ => h₃ p hp c (Or.inr hc), nofun, fun c hc => ⟨h₃ p hp c (Or.inl hc), nofun⟩⟩
  cached f p n hl := by
    rw [hbuf] at hl
    simp [BufMgr.new, BufHashTbl.lookup] at hl
  pins x hx := absurd hx (Multiset.notMem_zero x)
  counts n hn := by
    rw [hbuf]
    rfl

end Coh

/-- A process that has just started in an empty directory, with `n + 1` frames. -/
def Sys.blank (n : Nat) : Sys where
  unix _ := none
  dataFile _ := none
  io _ := true
  files _ := none
  nextFile := 1
  openFiles := OpenFileHashTbl.new
  buf := BufMgr.new (n + 1) fun _ => ⟨0, Nat.succ_pos _⟩

/-- The files of a process in an empty directory. -/
def View.blank (n : Nat) : View := ⟨n + 1, fun _ => none, fun _ => none, fun _ => False⟩

theorem Coh.blank (n : Nat) : Coh (Sys.blank n) 0 (View.blank n) :=
  Coh.start (Nat.succ_pos n) rfl rfl (fun nm => ChainTable.find_empty _ _ nm) Nat.one_pos
    (fun _ => rfl) (fun _ _ _ => rfl) nofun

end Minirel
