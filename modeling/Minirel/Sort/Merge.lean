import Mathlib.Data.List.Permutation
import Minirel.Sort.Runs

/-!
# Merging the runs

A call of `next` has the next record of each run in memory, takes the first one whose sort attribute
is least, and leaves that run without a record in memory. What is returned, call by call, is the
stable sort of the records of all runs.

## Main definitions

* `SortedFile.OnRuns`: what is known of all runs.
* `SortedFile.pull`: call `next` again and again, and read the records that are returned.

## Main results

* `SortedFile.next_spec`: one call of `next`.
* `SortedFile.pull_spec`: any number of calls.
* `SortedFile.next_merges`: the calls after `startScans` return the records of all runs, merged.
-/

namespace Minirel

open Comp HeapFile Merge

namespace SortedFile

/-- What is known of the runs `runs`. The pins `P` are those of other objects. -/
structure OnRuns (s : Sys) (P : Multiset Pin) (v : View) (runs : List RUN) (ds : List RunInfo) :
    Prop where
  all : List.Forall₂ (OnRun v) runs ds
  coh : Coh s (pinsOf ds + P) v

/-- Replacing an element by one that `f` does not tell from it. -/
theorem map_set_of_eq {α β : Type} {l : List α} {i : Nat} {a b : α} {f : α → β}
    (hi : l[i]? = some a) (hab : f b = f a) : (l.set i b).map f = l.map f := by
  obtain ⟨hlt, rfl⟩ := List.getElem?_eq_some_iff.mp hi
  apply List.ext_getElem
  · simp
  · intro j hj hj'
    by_cases hij : i = j
    · subst hij
      simp [hab]
    · simp [hij]

/-- Replacing a run. -/
theorem onRun_set {v : View} {runs : List RUN} {ds : List RunInfo} {i : Nat} {r : RUN} {d : RunInfo}
    (h : List.Forall₂ (OnRun v) runs ds) (hr : OnRun v r d) :
    List.Forall₂ (OnRun v) (runs.set i r) (ds.set i d) := by
  induction h generalizing i with
  | nil => exact .nil
  | cons hd htl ih =>
    cases i with
    | zero => exact .cons hr htl
    | succ i => exact .cons hd ih

variable {T : Prop} {s : Sys} {P : Multiset Pin} {v : View} {offset length : Int} {type : Datatype}

/-- The records that are left have the sort attribute. -/
def Reaches (offset length : Int) (ls : List (List Item)) : Prop :=
  0 ≤ offset ∧ 1 ≤ length ∧ ∀ l ∈ ls, ∀ x ∈ l, offset + length ≤ x.bytes.length

/-- The loop of `next` brings a record of each run into memory and picks one of them. The runs
`done` have been looked at, and `o` is what has been picked among them. -/
theorem findSmallest_spec (fuel : Nat) {done runs : List RUN} {ds₀ ds : List RunInfo}
    {o : Option (Nat × Item)} (hreach : Reaches offset length ((ds₀ ++ ds).map RunInfo.left))
    (hdone : List.Forall₂ (OnRun v) done ds₀) (hruns : List.Forall₂ (OnRun v) runs ds)
    (hc : Coh s (pinsOf (ds₀ ++ ds) + P) v) (hvalid : ∀ r ∈ done, r.valid = true)
    (ho : ∀ i b, o = some (i, b) → ∃ u, (ds₀.map RunInfo.left)[i]? = some (b :: u))
    (hT : T → Private v P ((done ++ runs).map RUN.name) ∧
      (∀ d ∈ ds, d.heap.rids.length + d.heap.pages.length + 1 ≤ fuel) ∧
      (pick (greater offset length type) done.length o (ds.map RunInfo.left)).isSome) :
    Clean T (findSmallest fuel offset length type done (o.map Prod.fst) runs) s fun q s' =>
      q.1 = .OK ∧ (∀ r ∈ q.2.2, r.valid = true) ∧
      q.2.2.map RUN.name = (done ++ runs).map RUN.name ∧ ∃ ds' o', OnRuns s' P v q.2.2 ds' ∧
        ds'.map RunInfo.kept = (ds₀ ++ ds).map RunInfo.kept ∧
        pick (greater offset length type) done.length o (ds.map RunInfo.left) = some o' ∧
        q.2.1 = o'.map Prod.fst := by
  induction hruns generalizing s done ds₀ o with
  | nil =>
    unfold findSmallest
    rw [List.append_nil] at hc
    rw [clean_pure, List.append_nil, List.append_nil]
    exact ⟨rfl, hvalid, rfl, ds₀, o, ⟨hdone, hc⟩, rfl, rfl, rfl⟩
  | @cons run d runs ds hrun hruns ih =>
    -- the pins of the other runs
    have hpins : ∀ d' : RunInfo, pinsOf (ds₀ ++ d' :: ds) + P = d'.pins +
      (pinsOf (ds₀ ++ ds) + P) := by
      intro d'
      rw [pinsOf_append, pinsOf_cons, add_left_comm, add_assoc, pinsOf_append]
    rw [hpins] at hc
    unfold findSmallest
    refine (hrun.fetch_spec fuel hc fun ht => ?_).bind ?_
    · obtain ⟨hpriv, hfuel, -⟩ := hT ht
      exact ⟨hpriv.file_ne hc hdone hruns hrun, hfuel d List.mem_cons_self⟩
    rintro ⟨st, run'⟩ s₁ ⟨hst, hvalid', hname, d', hrun', hc₁, hkept⟩
    dsimp only at hst hvalid' hname hrun' ⊢
    subst hst
    rw [if_neg fun hn => hn rfl]
    have hleft : d'.left = d.left := congrArg (·.2.1) hkept
    have hlen : done.length = (ds₀.map RunInfo.left).length := by
      rw [List.length_map, hdone.length_eq]
    -- what the rest of the loop does, whatever has been picked now
    have hrest : ∀ o₁ : Option (Nat × Item),
        (∀ i b, o₁ = some (i, b) → ∃ u, (ds₀.map RunInfo.left ++ [d.left])[i]? = some (b :: u)) →
        pick (greater offset length type) (done.length + 1) o₁ (ds.map RunInfo.left) =
          pick (greater offset length type) done.length o ((d :: ds).map RunInfo.left) →
        Clean T (findSmallest fuel offset length type (done ++ [run']) (o₁.map Prod.fst) runs) s₁
          fun q s' => q.1 = .OK ∧ (∀ r ∈ q.2.2, r.valid = true) ∧
            q.2.2.map RUN.name = (done ++ run :: runs).map RUN.name ∧
            ∃ ds' o', OnRuns s' P v q.2.2 ds' ∧
              ds'.map RunInfo.kept = (ds₀ ++ d :: ds).map RunInfo.kept ∧
              pick (greater offset length type) done.length o
                ((d :: ds).map RunInfo.left) = some o' ∧
              q.2.1 = o'.map Prod.fst := by
      intro o₁ ho₁ hpick
      have hsplit : ds₀ ++ [d'] ++ ds = ds₀ ++ d' :: ds := List.append_assoc _ _ _
      have hnames : (done ++ [run'] ++ runs).map RUN.name = (done ++ run :: runs).map RUN.name := by
        rw [List.append_assoc, List.singleton_append, List.map_append, List.map_append,
          List.map_cons,
          List.map_cons, hname]
      have hlen' : (done ++ [run']).length = done.length + 1 := List.length_append
      refine (ih (o := o₁) ?_ (List.rel_append hdone (.cons hrun' .nil)) ?_ ?_ ?_ ?_).mono ?_
      · rw [hsplit, List.map_append, List.map_cons, hleft, ← List.map_cons, ← List.map_append]
        exact hreach
      · rw [hsplit, hpins]
        exact hc₁
      · intro r hr
        rcases List.mem_append.mp hr with hr | hr
        · exact hvalid r hr
        · rw [List.mem_singleton.mp hr]
          exact hvalid'
      · rw [List.map_append, List.map_singleton, hleft]
        exact ho₁
      · intro ht
        obtain ⟨hpriv, hfuel, hsome⟩ := hT ht
        rw [hlen', hpick]
        exact ⟨hnames ▸ hpriv, fun e he => hfuel e (List.mem_cons_of_mem d he), hsome⟩
      · rintro q s' ⟨hst, hval, hnames', ds', o', hall, hkept', hpick', hq⟩
        rw [hlen', hpick] at hpick'
        refine ⟨hst, hval, hnames'.trans hnames, ds', o', hall, hkept'.trans ?_, hpick', hq⟩
        rw [hsplit, List.map_append, List.map_append, List.map_cons, List.map_cons, hkept]
    have hold : ∀ {i : Nat} {b : Item} {u : List Item}, (ds₀.map RunInfo.left)[i]? = some (b :: u) →
        (ds₀.map RunInfo.left ++ [d.left])[i]? = some (b :: u) := fun hi => by
      rw [List.getElem?_append_left (List.getElem?_eq_some_iff.mp hi).1]
      exact hi
    by_cases hend : run'.rid.pageNo < 0
    · -- the run has ended
      rw [if_pos hend]
      have hnil : d.left = [] :=
        hleft.symm.trans ((hrun'.fetched hvalid').trans (hrun'.here.pageNo_iff.mp hend))
      refine hrest o (fun i b he => ?_) ?_
      · obtain ⟨u, hu⟩ := ho i b he
        exact ⟨u, hold hu⟩
      · rw [List.map_cons, hnil]
        cases o <;> rfl
    · rw [if_neg hend]
      obtain ⟨x, t, hx⟩ : ∃ x t, d'.here = x :: t :=
        List.exists_cons_of_ne_nil fun hn => hend (hrun'.here.pageNo_iff.mpr hn)
      have hxl : d.left = x :: t := hleft.symm.trans ((hrun'.fetched hvalid').trans hx)
      have hnew : (ds₀.map RunInfo.left ++ [d.left])[done.length]? = some (x :: t) := by
        rw [hlen, List.getElem?_append_right (Nat.le_refl _), Nat.sub_self, hxl]
        rfl
      cases o with
      | none =>
        refine hrest (some (done.length, x)) (fun i b he => ?_) ?_
        · cases he
          exact ⟨t, hnew⟩
        · rw [List.map_cons, hxl]
          rfl
      | some e =>
        obtain ⟨i, b⟩ := e
        -- the record that has been picked so far, and the record of this run
        obtain ⟨u, hbu⟩ := ho i b rfl
        have hbu' := hbu
        rw [List.getElem?_map] at hbu'
        obtain ⟨e, he, hel⟩ := Option.map_eq_some_iff.mp hbu'
        obtain ⟨best, hbest, hrunb⟩ := exists_run hdone he
        have heh : e.here = b :: u :=
          (hrunb.fetched (hvalid best (List.mem_of_getElem? hbest))).symm.trans hel
        have hemem : e ∈ ds₀ := List.mem_of_getElem? he
        obtain ⟨hnonneg, hpos, hlong⟩ := hreach
        have hblen := hlong e.left (List.mem_map_of_mem (List.mem_append_left _ hemem)) b
          (hel ▸ List.mem_cons_self)
        have hxlen := hlong d.left
          (List.mem_map_of_mem (List.mem_append_right _ List.mem_cons_self)) x
          (hxl ▸ List.mem_cons_self)
        obtain ⟨R, hR⟩ := exists_pinsOf (List.mem_append_left (d' :: ds) hemem) P
        have hcb := hc₁
        rw [← hpins, hR] at hcb
        dsimp only [Option.map_some]
        rw [hbest, clean_ofOption_some_bind,
          clean_bind_of_yields (hrunb.read hcb heh hnonneg (by omega) hblen),
          clean_bind_of_yields (hrun'.read hc₁ hx hnonneg (by omega) hxlen)]
        refine Clean.ofOption_bind (fun ht => ?_) fun c hcc => ?_
        · -- the comparison has a value
          obtain ⟨-, -, hsome⟩ := hT ht
          rw [List.map_cons, hxl] at hsome
          obtain ⟨o', ho'⟩ := Option.isSome_iff_exists.mp hsome
          obtain ⟨g, hg, -⟩ := Option.bind_eq_some_iff.mp ho'
          obtain ⟨c, hc, -⟩ := Option.map_eq_some_iff.mp hg
          rw [hc]
          rfl
        · have hg : greater offset length type b x = some (decide (c > 0)) := by
            unfold greater
            rw [hcc]
            rfl
          have hpick : ∀ o₁ : Nat × Item, (if decide (c > 0) then (done.length, x)
            else (i, b)) = o₁ →
              pick (greater offset length type) (done.length + 1) (some o₁) (ds.map RunInfo.left) =
                pick (greater offset length type) done.length (some (i, b))
                  ((d :: ds).map RunInfo.left) := by
            rintro _ rfl
            rw [List.map_cons, hxl, pick_some_cons, hg, Option.bind_some]
          by_cases hlt : c > 0
          · rw [if_pos hlt]
            refine hrest (some (done.length, x)) (fun i b he => ?_)
              (hpick _ (if_pos (decide_eq_true hlt)))
            cases he
            exact ⟨t, hnew⟩
          · rw [if_neg hlt]
            refine hrest (some (i, b)) (fun i b he => ?_)
              (hpick _ (if_neg fun h => hlt (of_decide_eq_true h)))
            cases he
            exact ⟨u, hold hbu⟩

/-- The records that are left after one has been taken. -/
theorem Reaches.set {ls : List (List Item)} {i : Nat} {x : Item} {t : List Item}
    (h : Reaches offset length ls) (hi : ls[i]? = some (x :: t)) :
    Reaches offset length (ls.set i t) := by
  obtain ⟨hnonneg, hpos, hlong⟩ := h
  refine ⟨hnonneg, hpos, fun l hl y hy => ?_⟩
  rcases List.mem_or_eq_of_mem_set hl with hl | rfl
  · exact hlong l hl y hy
  · exact hlong _ (List.mem_of_getElem? hi) y (List.mem_cons_of_mem x hy)

/-- The lists `ls` are merged to the list `out`, by the comparison of `next`. -/
def Ready (f : SortedFile) (ls : List (List Item)) (out : List Item) : Prop :=
  Reaches f.offset f.length ls ∧ Merges (greater f.offset f.length f.type) ls out

/-- The run files are used by the runs only, and the bound on the number of rounds is large enough
to scan each of them. -/
def Enough (v : View) (P : Multiset Pin) (fuel : Nat) (names : List FileName) (Hs : List Heap) :
    Prop :=
  Private v P names ∧ ∀ H ∈ Hs, H.rids.length + H.pages.length + 1 ≤ fuel

/-- What a call of `next` does when the records `ls` are left, which are to be merged to the list in
the fourth place: its status and the pointer that it returns, what is left then, and what would be
left if the mark was set and gone to. -/
inductive Delivers (f : SortedFile) (ls : List (List Item)) (s' : Sys) :
    List Item → Status → Option RecPtr → List (List Item) → List (List Item) → Prop
  | record (i : Nat) (x : Item) (t out : List Item) (p : RecPtr) (hrest : Ready f (ls.set i t) out)
      (hread : Yields (p.read 0 p.record.length) s' x.bytes false s') :
      Delivers f ls s' (x :: out) .OK (some p) (ls.set i t) ls
  | eof (hs : List (List Item)) : Delivers f ls s' [] .FILEEOF none ls hs

/-- One call of `next`. -/
theorem next_spec (fuel : Nat) {f : SortedFile} {ds : List RunInfo} {out : List Item}
    (h : OnRuns s P v f.runs ds) (hready : Ready f (ds.map RunInfo.left) out)
    (hT : T → Enough v P fuel (f.runs.map RUN.name) (ds.map RunInfo.heap)) :
    Clean T (next fuel f) s fun q s' => ∃ runs' ds', q.2.2 = { f with runs := runs' } ∧
      runs'.map RUN.name = f.runs.map RUN.name ∧ OnRuns s' P v runs' ds' ∧
      ds'.map RunInfo.frame = ds.map RunInfo.frame ∧
      Delivers f (ds.map RunInfo.left) s' out q.1 q.2.1 (ds'.map RunInfo.left)
        (ds'.map RunInfo.here) := by
  obtain ⟨hreach, hmerges⟩ := hready
  unfold next
  by_cases hruns : f.runs = []
  · -- an empty source file has no runs
    rw [if_pos hruns, clean_pure]
    have hds : ds = [] := by
      have := h.all
      rw [hruns] at this
      exact List.forall₂_nil_left_iff.mp this
    subst hds
    have hout : out = [] := List.length_eq_zero_iff.mp hmerges.perm.length_eq
    subst hout
    exact ⟨f.runs, [], rfl, rfl, h, rfl, .eof _⟩
  · rw [if_neg hruns]
    -- what is picked is the first record of the merged list
    have hsome : (pick (greater f.offset f.length f.type) 0 none (ds.map RunInfo.left)).isSome := by
      cases hmerges with
      | nil hp => rw [hp]; rfl
      | cons hp => rw [hp]; rfl
    have hreach' : Reaches f.offset f.length (([] ++ ds).map RunInfo.left) := hreach
    have hloop : Clean T (findSmallest fuel f.offset f.length f.type [] none f.runs) s _ :=
      findSmallest_spec (o := none) fuel hreach' List.Forall₂.nil h.all h.coh
        (fun _ hr => absurd hr List.not_mem_nil) (fun _ _ he => by cases he) fun ht => by
          obtain ⟨hpriv, hfuel⟩ := hT ht
          exact ⟨hpriv, fun d hd => hfuel d.heap (List.mem_map_of_mem hd), hsome⟩
    refine hloop.bind ?_
    rintro ⟨st, smallest, runs'⟩ s' ⟨hst, hvalid, hnames, ds', o, h', hkept, hpick, hsmallest⟩
    dsimp only at hst hvalid hnames h' hsmallest ⊢
    rw [List.nil_append] at hkept hnames
    rw [List.length_nil] at hpick
    subst hst
    rw [if_neg fun hn => hn rfl]
    have hframe : ds'.map RunInfo.frame = ds.map RunInfo.frame := by
      have := congrArg (List.map fun e : Heap × List Item × Option (List Item) => (e.1,
        e.2.2)) hkept
      rw [List.map_map, List.map_map] at this
      exact this
    have hleft : ds'.map RunInfo.left = ds.map RunInfo.left := by
      have := congrArg (List.map fun e : Heap × List Item × Option (List Item) => e.2.1) hkept
      rw [List.map_map, List.map_map] at this
      exact this
    -- every run has its next record in memory
    have hhere : ds'.map RunInfo.here = ds.map RunInfo.left := by
      rw [← hleft]
      refine List.map_congr_left fun d hd => ?_
      obtain ⟨i, hi, rfl⟩ := List.mem_iff_getElem.mp hd
      obtain ⟨r, hr, hrun⟩ := exists_run h'.all (List.getElem?_eq_getElem hi)
      exact (hrun.fetched (hvalid r (List.mem_of_getElem? hr))).symm
    cases hmerges with
    | nil hp =>
      obtain rfl : o = none := Option.some.inj (hpick.symm.trans hp)
      rw [hsmallest]
      dsimp only [Option.map_none]
      rw [clean_pure]
      refine ⟨runs', ds', rfl, hnames, h', hframe, ?_⟩
      rw [hleft]
      exact .eof _
    | @cons _ i x t out hp hi hrest =>
      obtain rfl : o = some (i, x) := Option.some.inj (hpick.symm.trans hp)
      have hi' := hi
      rw [← hleft, List.getElem?_map] at hi'
      obtain ⟨d, hd, hdl⟩ := Option.map_eq_some_iff.mp hi'
      obtain ⟨r, hr, hrun⟩ := exists_run h'.all hd
      have hx : d.here = x :: t :=
        (hrun.fetched (hvalid r (List.mem_of_getElem? hr))).symm.trans hdl
      rw [hsmallest]
      dsimp only [Option.map_some]
      rw [hr, clean_ofOption_some_bind, clean_pure]
      set d' : RunInfo := { d with left := t } with hd'
      have hset : ∀ {β : Type} (g : RunInfo → β), g d' = g d →
          (ds'.set i d').map g = ds'.map g := fun g hg => map_set_of_eq hd hg
      have hnames' : (runs'.set i { r with valid := false }).map RUN.name = runs'.map RUN.name :=
        map_set_of_eq hr rfl
      refine ⟨_, ds'.set i d', rfl, hnames'.trans hnames, ⟨onRun_set h'.all (hrun.consume hx), ?_⟩,
        (hset RunInfo.frame rfl).trans hframe, ?_⟩
      · unfold pinsOf
        rw [hset RunInfo.pins rfl]
        exact h'.coh
      · rw [List.map_set, hset RunInfo.here rfl, hleft, hhere]
        refine .record i x t out r.record ⟨hreach.set hi, hrest⟩ ?_
        -- the record is on the page of the run
        obtain ⟨R, hR⟩ := exists_pinsOf (List.mem_of_getElem? hd) P
        have hc := h'.coh
        rw [hR] at hc
        have hlen := (hrun.record x t hx).length
        have hread : Yields (r.record.read 0 r.record.record.length) s' _ false s' :=
          hrun.read hc hx (Int.le_refl 0) (by omega) (by omega)
        unfold sortField at hread
        rwa [hlen, Int.toNat_zero, List.drop_zero, Int.toNat_natCast, List.take_length,
          ← hlen] at hread

/-! ## Any number of calls -/

/-- Call `next` `n` times, and read the records that are returned. -/
def pull (fuel : Nat) : Nat → SortedFile → M (List (Status × Option Bytes) × SortedFile)
  | 0, f => return ([], f)
  | n + 1, f => do
    let (status, rec, f) ← next fuel f
    match rec with
    | none =>
      let (l, f) ← pull fuel n f
      return ((status, none) :: l, f)
    | some p =>
      let bytes ← p.read 0 p.record.length
      let (l, f) ← pull fuel n f
      return ((status, some bytes) :: l, f)

/-- `n` calls return the records `l` one after the other, and then the end of the file. -/
def answers : List Bytes → Nat → List (Status × Option Bytes)
  | _, 0 => []
  | [], n + 1 => (.FILEEOF, none) :: answers [] n
  | b :: l, n + 1 => (.OK, some b) :: answers l n

/-- `pull` returns the merged records. Afterwards those that have not been returned are left, and
if the last call has returned a record, setting the mark and going to it would bring it back. -/
theorem pull_spec (fuel n : Nat) {f : SortedFile} {ds : List RunInfo} {out : List Item}
    (h : OnRuns s P v f.runs ds) (hready : Ready f (ds.map RunInfo.left) out)
    (hT : T → Enough v P fuel (f.runs.map RUN.name) (ds.map RunInfo.heap)) :
    Clean T (pull fuel n f) s fun q s' => q.1 = answers (out.map Item.bytes) n ∧
      ∃ runs' ds', q.2 = { f with runs := runs' } ∧ runs'.map RUN.name = f.runs.map RUN.name ∧
        OnRuns s' P v runs' ds' ∧ ds'.map RunInfo.frame = ds.map RunInfo.frame ∧
        Ready f (ds'.map RunInfo.left) (out.drop n) ∧
        (n = 0 → ds'.map RunInfo.here = ds.map RunInfo.here) ∧
        (0 < n → n ≤ out.length → Ready f (ds'.map RunInfo.here) (out.drop (n - 1))) := by
  induction n generalizing s f ds out with
  | zero =>
    unfold pull
    rw [clean_pure]
    refine ⟨by unfold answers; rfl, f.runs, ds, rfl, rfl, h, rfl, hready, fun _ => rfl,
      fun hn => ?_⟩
    exact absurd hn (Nat.lt_irrefl 0)
  | succ n ih =>
    unfold pull
    refine (next_spec fuel h hready hT).bind ?_
    rintro ⟨st, rec, f'⟩ s₁ ⟨runs₁, ds₁, rfl, hnames₁, h₁, hframe₁, hdel⟩
    have hheap₁ := RunInfo.map_heap hframe₁
    dsimp only at hdel ⊢
    generalize hls : ds.map RunInfo.left = ls at *
    generalize hls₁ : ds₁.map RunInfo.left = ls₁ at *
    generalize hhs₁ : ds₁.map RunInfo.here = hs₁ at *
    cases hdel with
    | record i x t out p hrest hread =>
      dsimp only
      rw [clean_bind_of_yields hread]
      rw [← hls₁] at hrest
      refine (ih (f := { f with runs := runs₁ }) h₁ hrest fun ht =>
        hheap₁ ▸ hnames₁ ▸ hT ht).bind ?_
      rintro ⟨l, f''⟩ s₂ ⟨hl, runs₂, ds₂, rfl, hnames₂, h₂, hframe₂, hready₂, hzero, hback⟩
      rw [clean_pure]
      dsimp only at hl hready₂ hzero hback ⊢
      rw [List.map_cons, List.drop_succ_cons, List.length_cons, hl]
      refine ⟨rfl, runs₂, ds₂, rfl, hnames₂.trans hnames₁, h₂, hframe₂.trans hframe₁, hready₂,
        fun hn => absurd hn (Nat.succ_ne_zero n), fun _ hn => ?_⟩
      rcases Nat.eq_zero_or_pos n with rfl | hpos
      · -- the record is in memory, and would be returned again
        rw [hzero rfl, hhs₁]
        exact hready
      · obtain ⟨n, rfl⟩ : ∃ k, n = k + 1 := ⟨n - 1, by omega⟩
        exact hback hpos (Nat.le_of_succ_le_succ hn)
    | eof hs =>
      dsimp only
      rw [← hls₁] at hready
      refine (ih (f := { f with runs := runs₁ }) h₁ hready fun ht =>
        hheap₁ ▸ hnames₁ ▸ hT ht).bind ?_
      rintro ⟨l, f''⟩ s₂ ⟨hl, runs₂, ds₂, rfl, hnames₂, h₂, hframe₂, hready₂, -, -⟩
      rw [clean_pure]
      dsimp only at hl hready₂ ⊢
      rw [List.drop_nil] at hready₂ ⊢
      rw [hl]
      exact ⟨rfl, runs₂, ds₂, rfl, hnames₂.trans hnames₁, h₂, hframe₂.trans hframe₁, hready₂,
        fun hn => absurd hn (Nat.succ_ne_zero n), fun _ hn => absurd hn (Nat.not_succ_le_zero n)⟩

/-! ## The calls after `startScans` -/

/-- The records of the runs have the sort attribute. -/
theorem StoredRuns.reaches {f : SortedFile} {Hs : List Heap} (h : StoredRuns s P v f Hs) :
    Reaches f.offset f.length (tagAll (Hs.map Heap.contents)) := by
  refine ⟨h.attr.offset_nonneg, h.attr.length_pos, fun l hl x hx => ?_⟩
  exact h.attr.reach x.bytes (mem_tagAll (List.mem_flatten.mpr ⟨l, hl, hx⟩))

/-- Runs in the order of `reccmp` are in the order of the values of the sort attribute. -/
theorem sorted_tagAll {ls : List (List Bytes)} (hcmp : Comparable offset length type ls.flatten)
    (hsorted : ∀ l ∈ ls, l.Pairwise (InOrder offset length type)) :
    ∀ l ∈ tagAll ls, Sorted (itemKey offset length type) l := by
  intro l hl
  obtain ⟨i, hi, rfl⟩ := List.mem_mapIdx.mp hl
  have hmem : ls[i] ∈ ls := List.getElem_mem hi
  have hrecs : ∀ b ∈ ls[i], b ∈ ls.flatten := fun b hb => List.mem_flatten.mpr ⟨ls[i], hmem, hb⟩
  have hkeys : ls[i].Pairwise fun a b => sortKey offset length type a ≤
    sortKey offset length type b := by
    refine (hsorted _ hmem).imp_of_mem fun {a b} ha hb ⟨c, hle, hc⟩ => ?_
    obtain ⟨c', hc', hlt, heq⟩ := reccmp_spec hcmp (hrecs a ha) (hrecs b hb)
    have hcc : c = c' := Option.some.inj (hc.symm.trans hc')
    subst hcc
    rcases Int.lt_or_eq_of_le hle with hneg | hzero
    · exact (hlt.mp hneg).le
    · exact (heq.mp hzero).le
  rw [← map_bytes_tag i ls[i], List.pairwise_map] at hkeys
  exact hkeys

/-- If two sort attributes always compare, the records of the runs can be merged. -/
theorem exists_ready {f : SortedFile} {ls : List (List Bytes)}
    (hreach : Reaches f.offset f.length (tagAll ls))
    (hdef : ∀ a ∈ ls.flatten, ∀ b ∈ ls.flatten, (reccmp (sortField f.offset f.length a)
      (sortField f.offset f.length b) f.length f.length f.type).isSome) :
    ∃ out, Ready f (tagAll ls) out := by
  have hgt : ∀ a b : Item, a.bytes ∈ ls.flatten → b.bytes ∈ ls.flatten →
      (greater f.offset f.length f.type a b).isSome := by
    intro a b ha hb
    unfold greater
    rw [Option.isSome_map]
    exact hdef _ ha _ hb
  obtain ⟨out, hout⟩ := exists_merges hgt (tagAll ls) fun l hl a ha =>
    mem_tagAll (List.mem_flatten.mpr ⟨l, hl, ha⟩)
  exact ⟨out, hreach, hout⟩

/-- After `startScans` the calls of `next` return every record of every run once, in the order of
the sort attribute, and records that compare equal in the order of the runs and of the positions in
them; the calls after that return the end of the file. -/
theorem next_merges {s₁ : Sys} {f f₁ : SortedFile} {Hs : List Heap} (fuel : Nat)
    (h : StoredRuns s P v f Hs)
    (hcmp : Comparable f.offset f.length f.type (Hs.map Heap.contents).flatten)
    (hsorted : ∀ H ∈ Hs, H.contents.Pairwise (InOrder f.offset f.length f.type))
    (hfuel : ∀ H ∈ Hs, H.rids.length + H.pages.length + 1 ≤ fuel)
    (hstart : Yields (startScans f) s (.OK, f₁) false s₁) :
    ∃ out, Merged f.offset f.length f.type (Hs.map Heap.contents) out ∧
      ∀ n, ∃ f₂ s₂, Yields (pull fuel n f₁) s₁ (answers out n, f₂) false s₂ := by
  refine ⟨_, merged_mergeSort hcmp, fun n => ?_⟩
  have hspec : Clean False (startScans f) s _ := startScans_spec h fun hf => hf.elim
  obtain ⟨-, v', runs, ds, hf₁, hruns, hc, hpriv, hleft, hheap, -⟩ := hspec.of_yields hstart
  dsimp only at hf₁
  subst hf₁
  -- merging the runs sorts their records
  obtain ⟨out, hreach, hmerges⟩ := exists_ready h.reaches fun a ha b hb => by
    obtain ⟨c, hc, -⟩ := reccmp_spec hcmp ha hb
    rw [hc]
    rfl
  have hsort := hmerges.eq_mergeSort (agrees_greater hcmp)
    (sorted_tagAll hcmp fun l hl => by
      obtain ⟨H, hH, rfl⟩ := List.mem_map.mp hl
      exact hsorted H hH)
    fun l hl a ha => mem_tagAll (List.mem_flatten.mpr ⟨l, hl, ha⟩)
  have hready : Ready f (ds.map RunInfo.left) out := by
    rw [hleft]
    exact ⟨hreach, hmerges⟩
  have hpull : Clean True (pull fuel n { f with runs }) s₁ _ :=
    pull_spec fuel n (f := { f with runs }) ⟨hruns, hc⟩ hready fun _ => by
      rw [hheap]
      exact ⟨hpriv, hfuel⟩
  obtain ⟨⟨l, f₂⟩, s₂, hy, hl, -⟩ := hpull.exists trivial
  dsimp only at hl
  rw [hl, hsort] at hy
  exact ⟨f₂, s₂, hy⟩

/-- Make the two files `R` and `S`, each with a record that starts with the same byte. -/
def makeTwoFiles : M (List Status × RID × List Status × RID) := do
  let (sts, rid) ← makeFile [82] ⟨[1, 2], 2⟩
  let (sts', rid') ← makeFile [83] ⟨[1, 3], 2⟩
  return (sts, rid, sts', rid')

theorem exists_twoFiles : ∃ s v fv fv' H H', Coh s 0 v ∧ v.file [82] = some fv ∧ HeapAt fv H ∧
    H.contents = [[1, 2]] ∧ v.file [83] = some fv' ∧ HeapAt fv' H' ∧ H'.contents = [[1, 3]] ∧
    v.handle [82] = none ∧ v.handle [83] = none ∧ freeFrames v.numBufs 0 = 4 := by
  obtain ⟨r, e, s, hy, hv⟩ := exists_of_eval (s := Sys.blank 3) (x := makeTwoFiles)
    (g := fun r e s => (r, e, s.freeFrames))
    (v := (([.OK, .OK, .OK], ⟨2, 0⟩, [.OK, .OK, .OK], ⟨2, 0⟩), false, 4)) (by decide +kernel)
  obtain ⟨⟨sts, rid⟩, e₀, s₀, _, hy₀, k₀, rfl⟩ := hy.of_bind
  obtain ⟨⟨sts', rid'⟩, e₁, s₁, _, hy₁, k₁, rfl⟩ := k₀.of_bind
  obtain ⟨rfl, rfl, rfl⟩ := yields_pure.mp k₁
  simp only [Prod.mk.injEq, Bool.or_eq_false_iff] at hv
  obtain ⟨⟨rfl, rfl, rfl, rfl⟩, ⟨rfl, rfl, -⟩, hfree⟩ := hv
  obtain ⟨v, fv, H, hc, hf, hh, hH, -, hrec, hforeign, hothers⟩ := makeFile_spec (Coh.blank 3)
    (List.cons_ne_nil 82 []) rfl id ⟨by decide, by decide⟩ ⟨by decide, by decide⟩ hy₀
  obtain ⟨v', fv', H', hc', hf', hh', hH', -, hrec', -, hothers'⟩ := makeFile_spec hc
    (List.cons_ne_nil 83 []) (hothers [83] (by decide)).1 (by rw [hforeign]; exact id)
    ⟨by decide, by decide⟩ ⟨by decide, by decide⟩ hy₁
  obtain ⟨hsame, hclosed⟩ := hothers' [82] (by decide)
  rw [hc'.freeFrames_eq] at hfree
  refine ⟨s₁, v', fv, fv', H, H', hc', hsame.trans hf, hH, ?_, hf', hH', ?_, hclosed.trans hh, hh',
    hfree⟩
  · unfold Heap.contents
    rw [hrec]
    rfl
  · unfold Heap.contents
    rw [hrec']
    rfl

/-- The two records are equal in the first byte, so the one of the first run is the first. -/
theorem eq_of_merged {out : List Bytes} (h : Merged 0 1 .STRING [[[1, 2]], [[1, 3]]] out) :
    out = [[1, 2], [1, 3]] := by
  obtain ⟨l, hperm, hbefore, rfl⟩ := h
  have hnot : ¬Before 0 1 .STRING ⟨1, 0, [1, 3]⟩ ⟨0, 0, [1, 2]⟩ := by
    rintro ⟨c, hc, hlt⟩
    obtain rfl : 0 = c := Option.some.inj hc
    rcases hlt with h | ⟨-, h | ⟨h, -⟩⟩
    · cases h
    · cases h
    · cases h
  have hl : l.Perm [⟨0, 0, [1, 2]⟩, ⟨1, 0, [1, 3]⟩] := hperm
  rcases List.perm_pair.mp hl with rfl | rfl
  · rfl
  · exact absurd (List.pairwise_pair.mp hbefore) hnot

/-- The sorted file whose runs are these two files, sorted by the first byte. -/
theorem next_merges_tie : ∃ s f f₁ s₁ fuel, f.runs.map RUN.name = [[82], [83]] ∧
    Yields (startScans f) s (.OK, f₁) false s₁ ∧
    ∀ n, ∃ f₂ s₂, Yields (pull fuel n f₁) s₁ (answers [[1, 2], [1, 3]] n, f₂) false s₂ := by
  obtain ⟨s, v, fv, fv', H, H', hc, hf, hH, hrec, hf', hH', hrec', hh, hh', hfree⟩ :=
    exists_twoFiles
  have hconts : [H, H'].map Heap.contents = [[[1, 2]], [[1, 3]]] := by
    rw [List.map_cons, List.map_cons, hrec, hrec']
    rfl
  have hattr : Attribute 0 1 ([H, H'].map Heap.contents).flatten := by
    rw [hconts]
    exact ⟨by decide, by decide, by decide⟩
  have hstored : StoredRuns s 0 v
      ⟨[RUN.new [82], RUN.new [83]], [1], .STRING, 0, 1, 2⟩ [H, H'] := by
    refine ⟨hc, .cons ⟨nofun, ⟨fv, hf, hH⟩, fun g c he => ?_⟩
      (.cons ⟨nofun, ⟨fv', hf', hH'⟩, fun g c he => ?_⟩ .nil), ?_, hattr⟩
    · rw [show v.handle (RUN.new [82]).name = none from hh] at he
      cases he
    · rw [show v.handle (RUN.new [83]).name = none from hh'] at he
      cases he
    · decide
  have hstart : Clean True (startScans _) s _ := startScans_spec hstored fun _ => by
    rw [hfree]
    exact Nat.le_refl 4
  obtain ⟨⟨st, f₁⟩, s₁, hy, hst, -⟩ := hstart.exists trivial
  dsimp only at hst
  subst hst
  obtain ⟨out, hmerged, hpull⟩ := next_merges
    (max (H.rids.length + H.pages.length + 1) (H'.rids.length + H'.pages.length + 1)) hstored
    { hattr with type_ne := nofun, word := nofun, diff := nofun }
    (fun K hK => by
      rcases List.mem_cons.mp hK with rfl | hK
      · rw [hrec]
        exact List.pairwise_singleton _ _
      · rw [List.mem_singleton.mp hK, hrec']
        exact List.pairwise_singleton _ _)
    (fun K hK => by
      rcases List.mem_cons.mp hK with rfl | hK
      · exact le_max_left _ _
      · rw [List.mem_singleton.mp hK]
        exact le_max_right _ _) hy
  rw [hconts] at hmerged
  obtain rfl := eq_of_merged hmerged
  exact ⟨s, _, f₁, s₁, _, rfl, hy, hpull⟩

end SortedFile

end Minirel
