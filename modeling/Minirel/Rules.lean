import Minirel.DB

/-!
# Rules for the primitive computations

How the small computations that the functions of the storage layers are made of act on the state:
Unix calls, following a `File*` and following a pointer into the pool. `@[simp]` rules compute;
the other ones ask for what makes the computation defined.
-/

namespace Minirel

open Comp

variable {α : Type} {T : Prop} {s : Sys}

theorem yields_unixCall (s : Sys) :
    Yields unixCall s (s.io 0) false { s with io := fun n => s.io (n + 1) } := rfl

theorem yields_setFile (file : FilePtr) (fo : Option File) (s : Sys) :
    Yields (setFile file fo) s () false { s with files := Function.update s.files file fo } := rfl

theorem yields_setUnix (name : FileName) (uf : Option UnixFile) (s : Sys) :
    Yields (setUnix name uf) s () false { s with unix := Function.update s.unix name uf } := rfl

theorem yields_modifyBuf (m : BufMgr → BufMgr) (s : Sys) :
    Yields (modifyBuf m) s () false { s with buf := m s.buf } := rfl

section Runs

variable {Q : α → Bool → Sys → Prop}

@[simp]
theorem runs_unixCall_bind {g : Bool → M α} :
    Runs T (unixCall >>= g) s Q ↔ Runs T (g (s.io 0)) { s with io := fun n => s.io (n + 1) } Q :=
  runs_bind_of_yields (yields_unixCall s)

@[simp]
theorem runs_setFile_bind {file : FilePtr} {fo : Option File} {g : Unit → M α} :
    Runs T (setFile file fo >>= g) s Q ↔
      Runs T (g ()) { s with files := Function.update s.files file fo } Q :=
  runs_bind_of_yields (yields_setFile file fo s)

@[simp]
theorem runs_setUnix_bind {name : FileName} {uf : Option UnixFile} {g : Unit → M α} :
    Runs T (setUnix name uf >>= g) s Q ↔
      Runs T (g ()) { s with unix := Function.update s.unix name uf } Q :=
  runs_bind_of_yields (yields_setUnix name uf s)

@[simp]
theorem runs_modifyBuf_bind {m : BufMgr → BufMgr} {g : Unit → M α} :
    Runs T (modifyBuf m >>= g) s Q ↔ Runs T (g ()) { s with buf := m s.buf } Q :=
  runs_bind_of_yields (yields_modifyBuf m s)

/-- Following a `File*` that does not dangle. -/
theorem yields_fileAt {file : FilePtr} {o : File} (h : s.files file = some o) :
    Yields (fileAt file) s o false s := by
  show Outcome.bind (some ((s, s), false)) (fun p => (ofOption (p.1.files file)).run p.2) = _
  simp only [Outcome.bind]
  rw [h]
  rfl

/-- Following a `File*` that may dangle. -/
theorem Runs.fileAt_bind {file : FilePtr} {g : File → M α} (hT : T → (s.files file).isSome)
    (hg : ∀ fo, s.files file = some fo → Runs T (g fo) s Q) : Runs T (fileAt file >>= g) s Q := by
  cases h : s.files file with
  | some fo => exact (runs_bind_of_yields (yields_fileAt h)).mpr (hg fo h)
  | none =>
    refine ⟨fun a e s' hy => ?_, fun ht => absurd (hT ht) (by simp [h])⟩
    obtain ⟨fo, e₁, s₁, e₂, h₁, -, -⟩ := hy.of_bind
    obtain ⟨s₂, e₃, s₃, e₄, h₂, h₃, -⟩ := h₁.of_bind
    obtain ⟨rfl, -, rfl⟩ := Yields.unique (rfl : Yields get s s false s) h₂
    rw [h] at h₃
    cases h₃

end Runs

/-! ## The file layer does not touch the buffer pool -/

/-- The computation leaves the buffer manager alone and never raises the flag. -/
def KeepsBuf (x : M α) : Prop := ∀ s, Runs False x s fun _ e s' => e = false ∧ s'.buf = s.buf

namespace KeepsBuf

variable {β : Type} {x : M α} {f : α → M β} {a : α}

theorem pure : KeepsBuf (Pure.pure a : M α) := fun _ => runs_pure.mpr ⟨rfl, rfl⟩

theorem bind (hx : KeepsBuf x) (hf : ∀ a, KeepsBuf (f a)) : KeepsBuf (x >>= f) := by
  intro s
  refine (hx s).bind ?_
  rintro a e s' ⟨rfl, h⟩
  refine (hf a s').mono ?_
  rintro b e' s'' ⟨rfl, h'⟩
  exact ⟨rfl, h'.trans h⟩

theorem get_bind {f : Sys → M β} (hf : ∀ s, KeepsBuf (f s)) : KeepsBuf (get >>= f) :=
  fun s => runs_get_bind.mpr (hf s s)

theorem unixCall : KeepsBuf unixCall := fun s => Runs.of_yields (yields_unixCall s) ⟨rfl, rfl⟩

theorem setFile (file : FilePtr) (fo : Option File) : KeepsBuf (setFile file fo) := fun s =>
  Runs.of_yields (yields_setFile file fo s) ⟨rfl, rfl⟩

theorem setUnix (name : FileName) (uf : Option UnixFile) : KeepsBuf (setUnix name uf) := fun s =>
  Runs.of_yields (yields_setUnix name uf s) ⟨rfl, rfl⟩

theorem fileAt (file : FilePtr) : KeepsBuf (fileAt file) := by
  intro s
  rw [← bind_pure (Minirel.fileAt file)]
  exact Runs.fileAt_bind (fun h => h.elim) fun fo _ => runs_pure.mpr ⟨rfl, rfl⟩

theorem ite {c : Prop} [Decidable c] {y : M α} (hx : KeepsBuf x) (hy : KeepsBuf y) :
    KeepsBuf (if c then x else y) := by
  split
  · exact hx
  · exact hy

theorem intread (file : FilePtr) (pageNo : Int) (blk : Block) :
    KeepsBuf (File.intread file pageNo blk) := by
  unfold File.intread
  refine (fileAt file).bind fun fo => unixCall.bind fun ok => get_bind fun s => ?_
  split
  · split <;> exact pure
  · exact pure

theorem intwrite (file : FilePtr) (pageNo : Int) (blk : Block) :
    KeepsBuf (File.intwrite file pageNo blk) := by
  unfold File.intwrite
  refine (fileAt file).bind fun fo => unixCall.bind fun ok => get_bind fun s => ?_
  split
  · split
    · exact (setUnix _ _).bind fun _ => pure
    · exact pure
  · exact pure

theorem readPage (file : FilePtr) (pageNo : Int) (blk : Block) :
    KeepsBuf (File.readPage file pageNo blk) := ite pure (intread _ _ _)

theorem writePage (file : FilePtr) (pageNo : Int) (blk : Block) :
    KeepsBuf (File.writePage file pageNo blk) := ite pure (intwrite _ _ _)

theorem allocatePage (file : FilePtr) : KeepsBuf (File.allocatePage file) := by
  unfold File.allocatePage
  refine (intread _ _ _).bind fun r => ?_
  refine ite pure (ite ?_ ?_)
  · exact (intread _ _ _).bind fun r => ite pure ((intwrite _ _ _).bind fun _ => pure)
  · exact (intwrite _ _ _).bind fun r => ite pure ((intwrite _ _ _).bind fun _ => pure)

theorem disposePage (file : FilePtr) (pageNo : Int) : KeepsBuf (File.disposePage file pageNo) := by
  unfold File.disposePage
  refine ite pure ((intread _ _ _).bind fun r => ite pure (ite pure ?_))
  exact (intread _ _ _).bind fun r => ite pure ((intwrite _ _ _).bind fun r =>
    ite pure (intwrite _ _ _))

end KeepsBuf

end Minirel
