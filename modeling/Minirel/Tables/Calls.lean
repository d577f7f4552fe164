import Minirel.Catalog.Whole
import Minirel.Join.Fuel
import Minirel.Tables.Queries

/-!
# The calls of a session

Each call takes a state that represents tables to one that represents the tables after the command,
and returns what the tables say.

## Main definitions

* `Command.run`: the call of a command.
* `Tables.Fits`: what a call is given that is defined.
* `Tables.Returns`: what a call may return.

## Main results

* `Represents.run`: what a call does.
* `Represents.step`: the same, for any call that has returned.
-/

namespace Minirel

open Comp HeapFile

/-! ## Calls -/

/-- What a call prints, as far as it is modelled. -/
inductive Output
  | silent
  /-- The number of tuples that a join has made. -/
  | count (resultTupCnt : Int)
  /-- The lines of a query. -/
  | text (out : Bytes)
deriving DecidableEq

/-- What the locals of the functions hold before they are set. -/
structure Locals where
  rd : RelDesc
  ad : AttrDesc
  unset : RelCatalog.Unset
  junk : RelDesc
  junkAttr : AttrDesc
  join : JoinLocals
  print : PrintLocals

/-- The locals have the memory of their types. -/
structure Locals.Sized (locals : Locals) : Prop where
  rd : locals.rd.Sized
  ad : locals.ad.Sized
  junk : locals.junk.Sized
  join : locals.join.Sized
  print : locals.print.Sized

namespace Command

/-- The call of a command. -/
def run (fuel : Nat) (locals : Locals) : Command → M (Status × Output)
  | .createRel relation attrCnt attrList => do
    let status ← RelCatalog.createRel fuel locals.rd locals.ad relation attrCnt attrList
    return (status, .silent)
  | .destroyRel relation => do
    let status ← RelCatalog.destroyRel fuel locals.unset relation
    return (status, .silent)
  | .load relation fileName _ => do
    let status ← UT_Load fuel locals.rd locals.junk locals.junkAttr relation fileName
    return (status, .silent)
  | .join method result projNames attr1 op attr2 => do
    let r ← QU_Join method fuel locals.join result projNames.length projNames attr1 op attr2
    return (r.1, r.2.elim .silent .count)
  | .ask formatFloat query => do
    let r ← query.run formatFloat fuel locals.print
    return (r.1, .text r.2)

/-- The data that are loaded are those of the file. -/
def Finds (s : Sys) : Command → Prop
  | .load _ fileName data => s.dataFile fileName = data
  | _ => True

/-- The call may return `r` in the state `s` and lead to `s'`; `e` says that a call of the buffer
manager has failed. -/
def Step (command : Command) (s : Sys) (r : Status × Output) (e : Bool) (s' : Sys) : Prop :=
  command.Finds s ∧ ∃ fuel locals, locals.Sized ∧ Yields (command.run fuel locals) s r e s'

/-- How many frames a call may leave with pins that nobody releases. -/
def cost : Command → Nat
  | .createRel _ _ _ => 1
  | .destroyRel _ => 4
  | .load _ _ _ => 6
  | .join _ _ _ _ _ _ => 3
  | .ask _ _ => 4

/-- A call with a larger bound. -/
theorem run_mono {m n : Nat} (hle : m ≤ n) (locals : Locals) (command : Command) :
    Extends (command.run m locals) (command.run n locals) := by
  cases command with
  | createRel relation attrCnt attrList =>
    exact .bind (RelCatalog.createRel_mono hle _ _ _ _ _) fun _ => .refl _
  | destroyRel relation => exact .bind (RelCatalog.destroyRel_mono hle _ _) fun _ => .refl _
  | load relation fileName data => exact .bind (UT_Load_mono hle _ _ _ _ _) fun _ => .refl _
  | join method result projNames attr1 op attr2 =>
    exact .bind (QU_Join_mono hle _ _ _ _ _ _ _ _) fun _ => .refl _
  | ask formatFloat query => exact .bind (query.run_mono hle locals.print) fun _ => .refl _

end Command

namespace Tables

/-- The call is one that the tables speak of: its strings and arrays are such as C has them, the
relation that is created is not the name of another Unix file, relations that are compared by nested
loops can be joined, and relations that are printed can be. The functions check none of this. -/
def Fits (unix : FileName → Option UnixFile) (db : Tables) : Command → Prop
  | .createRel relation attrCnt attrList =>
    (CatalogCall.createRel relation attrCnt attrList).Fit unix
  | .destroyRel relation => IsName relation
  | .load relation _ _ => IsName relation
  | .join method result projNames attr1 op attr2 =>
    db.FitsJoin method result projNames attr1 op attr2
  | .ask _ query => db.FitsQuery query

/-- A load of tuples without a length does not return. -/
def Halts (db : Tables) : Command → Prop
  | .load relation fileName data =>
    ∀ R bytes, db.accepts relation fileName data = some (R, bytes) → 1 ≤ R.width
  | _ => True

/-- What a call may return. -/
def Returns (db : Tables) : Command → Status × Output → Prop
  | .createRel relation attrCnt _, r => db.CreateReturns relation attrCnt r.1
  | .destroyRel relation, r => (IsCatalog relation → r.1 ≠ .OK) ∧
    (relation ∈ names db.relations → ¬IsCatalog relation →
      r.1 = if db.opened relation then .FILEOPEN else .OK)
  | .load relation fileName data, r => db.LoadReturns relation fileName data r.1
  | .join method _ projNames attr1 op attr2, r =>
    r.1 = (db.joinResult method projNames attr1 op attr2).1 ∧
      r.2 = (db.joinResult method projNames attr1 op attr2).2.elim .silent .count
  | .ask formatFloat query, r => ∃ out, r.2 = .text out ∧ db.Answers formatFloat query (r.1, out)

end Tables

section Run

variable {unix : FileName → Option UnixFile} {s s' : Sys} {db : Tables}
  {P : Multiset Pin} {v : View} {fv fvA : FileView} {H HA : Heap} {command : Command}
  {r : Status × Output} {e : Bool}

/-- What a function returns, as the reply of a call. -/
theorem runs_reply {α : Type} {F T : Prop} {x : M α} {f : α → Status × Output} {Q : α → Sys → Prop}
    {Q' : Status × Output → Sys → Prop}
    (h : Runs T x s fun a e s' => (F → e = false) ∧ (e = false → Q a s'))
    (himp : ∀ a s', Q a s' → Q' (f a) s') :
    Runs T (do let a ← x; return f a) s fun r e s' => (F → e = false) ∧ (e = false → Q' r s') := by
  refine h.bind fun a e s' hq => ?_
  rw [runs_pure]
  simpa using hq.imp_right fun hpost he => himp a s' (hpost he)

/-- What a call does, in a state that represents tables. -/
theorem Represents.run (h : Represents unix s db P v fv H fvA HA) (hfits : db.Fits unix command)
    (hfinds : command.Finds s) : ∃ N, ∀ fuel locals, locals.Sized →
      Runs ((8 ≤ s.freeFrames ∧ N ≤ fuel) ∧ db.Halts command) (command.run fuel locals) s
        fun r e s' =>
        ((8 ≤ s.freeFrames ∧ N ≤ fuel) → e = false) ∧
        (e = false → db.Returns command r ∧
          Follows unix (8 ≤ s.freeFrames ∧ N ≤ fuel) command.Drops command.target
            command.cost P v H HA s'
            (db.apply command)) := by
  have hfree := h.database.coh.freeFrames_eq
  let N := (H.rids.length + H.pages.length + 1) + (2 * H.rids.length + H.pages.length + 1) +
    (2 * HA.rids.length + HA.pages.length + 1)
  cases command with
  | createRel relation attrCnt attrList =>
    obtain ⟨⟨hname, hunix, hcnt, hattrs⟩, hlen⟩ := hfits
    refine ⟨N, fun fuel locals hlocals => ?_⟩
    have hcall : Clean (8 ≤ s.freeFrames ∧ N ≤ fuel) _ s _ :=
      h.createRel fuel hname hunix hlocals.rd
      hlocals.ad hcnt hattrs fun ht => ⟨by omega, by omega, hlen⟩
    refine runs_reply ⟨hcall.1, fun ht => hcall.2 ht.1⟩ ?_
    exact fun st s' hr => hr
  | destroyRel relation =>
    refine ⟨N, fun fuel locals hlocals => ?_⟩
    have hcall : Clean (8 ≤ s.freeFrames ∧ N ≤ fuel) _ s _ :=
      h.destroyRel fuel (u := locals.unset) hfits
      fun ht => ⟨by omega, by omega, by omega⟩
    refine runs_reply ⟨hcall.1, fun ht => hcall.2 ht.1⟩ ?_
    exact fun st s' hr => ⟨⟨hr.1, hr.2.1⟩, hr.2.2⟩
  | load relation fileName data =>
    obtain rfl : s.dataFile fileName = data := hfinds
    refine ⟨N + ((s.dataFile fileName).getD []).length + 1, fun fuel locals hlocals => ?_⟩
    refine runs_reply (x := UT_Load fuel locals.rd locals.junk locals.junkAttr relation fileName)
      (h.load fuel hfits hlocals.rd hlocals.junk (fun hf => ?_) fun ht => ht) fun st s' hr => hr
    obtain ⟨hframes, hN⟩ := hf
    refine ⟨by omega, by omega, by omega, fun bytes hbytes => ?_⟩
    rw [hbytes, Option.getD_some] at hN
    omega
  | join method result projNames attr1 op attr2 =>
    obtain ⟨N', hN'⟩ := h.join hfits
    refine ⟨N', fun fuel locals hlocals => ?_⟩
    have hcall := hN' fuel locals.join hlocals.join
    rw [← hfree] at hcall
    refine runs_reply ⟨hcall.1, fun ht => hcall.2 ht.1⟩ ?_
    exact fun r s' hr => ⟨hr.1 ▸ ⟨rfl, rfl⟩, hr.2⟩
  | ask formatFloat query =>
    obtain ⟨N', hN'⟩ := h.ask query hfits
    refine ⟨N', fun fuel locals hlocals => ?_⟩
    have hcall := hN' fuel locals.print hlocals.print
    rw [← hfree] at hcall
    refine runs_reply ⟨hcall.1, fun ht => hcall.2 ht.1⟩ ?_
    exact fun r s' hr => ⟨⟨r.2, rfl, hr.1⟩, hr.2⟩

/-- A call that has returned, in a state that represents tables. -/
theorem Represents.step (h : Represents unix s db P v fv H fvA HA) (hfits : db.Fits unix command)
    (hframes : 8 ≤ s.freeFrames ∨ e = false) (hstep : command.Step s r e s') :
    e = false ∧ db.Returns command r ∧
      Follows unix (8 ≤ s.freeFrames) command.Drops command.target command.cost P v H HA s'
        (db.apply command) := by
  obtain ⟨hfinds, fuel, locals, hlocals, hy⟩ := hstep
  obtain ⟨N, hN⟩ := h.run hfits hfinds
  obtain ⟨hflag, hpost⟩ := (hN (max fuel N) locals hlocals).1 r e s'
    (command.run_mono (le_max_left fuel N) locals s r e s' hy)
  have he : e = false := hframes.elim (fun hfree => hflag ⟨hfree, le_max_right fuel N⟩) id
  obtain ⟨hr, P', v', fv', H', fvA', HA', k, hl, hcost, h'⟩ := hpost he
  exact ⟨he, hr, P', v', fv', H', fvA', HA', k, hl, fun hfree => hcost ⟨hfree,
    le_max_right fuel N⟩, h'⟩

/-- A call that has returned. -/
theorem Realizes.step (h : Realizes unix s db) (hfits : db.Fits unix command)
    (hframes : 8 ≤ s.freeFrames ∨ e = false) (hstep : command.Step s r e s') :
    e = false ∧ db.Returns command r ∧
      (8 ≤ s.freeFrames → s.freeFrames ≤ s'.freeFrames + command.cost) ∧
      Realizes unix s' (db.apply command) := by
  obtain ⟨P, v, fv, H, fvA, HA, h⟩ := h
  obtain ⟨he, hr, P', v', fv', H', fvA', HA', -, -, hcost, h'⟩ := h.step hfits hframes hstep
  refine ⟨he, hr, fun hfree => ?_, P', v', fv', H', fvA', HA', h'⟩
  rw [h.database.coh.freeFrames_eq, h'.database.coh.freeFrames_eq]
  exact hcost hfree

/-- A call returns. -/
theorem Realizes.exists_step (h : Realizes unix s db) (hfits : db.Fits unix command)
    (hhalts : db.Halts command) (hframes : 8 ≤ s.freeFrames) (hfinds : command.Finds s) :
    ∃ N, ∀ fuel, N ≤ fuel → ∀ locals, locals.Sized →
      ∃ r s', Yields (command.run fuel locals) s r false s' := by
  obtain ⟨P, v, fv, H, fvA, HA, h⟩ := h
  obtain ⟨N, hN⟩ := h.run hfits hfinds
  refine ⟨N, fun fuel hfuel locals hlocals => ?_⟩
  have hcall := hN fuel locals hlocals
  obtain ⟨r, e, s', hy⟩ := hcall.2 ⟨⟨hframes, hfuel⟩, hhalts⟩
  obtain rfl := (hcall.1 r e s' hy).1 ⟨hframes, hfuel⟩
  exact ⟨r, s', hy⟩

/-- Locals that are zero. -/
def Locals.zero : Locals where
  rd := .zero
  ad := .zero
  unset := ⟨.OK, .OK, .OK, .OK⟩
  junk := .zero
  junkAttr := .zero
  join := ⟨fun _ => .zero, .zero, .zero, fun _ => 0⟩
  print := ⟨.zero, .zero, .zero⟩

theorem Locals.sized_zero : Locals.zero.Sized :=
  ⟨RelDesc.sized_zero, AttrDesc.sized_zero, RelDesc.sized_zero,
    ⟨fun _ => AttrDesc.sized_zero, AttrDesc.sized_zero, AttrDesc.sized_zero⟩,
    ⟨RelDesc.sized_zero, RelDesc.sized_zero⟩⟩

/-- A call that returns leads on. -/
theorem Realizes.exists_next (h : Realizes unix s db) (command : Command)
    (hfits : db.Fits unix command) (hhalts : db.Halts command) (hframes : 8 ≤ s.freeFrames)
    (hfinds : command.Finds s) : ∃ r s', command.Step s r false s' ∧
      db.Returns command r ∧ s.freeFrames ≤ s'.freeFrames + command.cost ∧
      Realizes unix s' (db.apply command) := by
  obtain ⟨N, hN⟩ := h.exists_step hfits hhalts hframes hfinds
  obtain ⟨r, s', hy⟩ := hN N (le_refl N) .zero Locals.sized_zero
  have hstep : command.Step s r false s' := ⟨hfinds, N, .zero, Locals.sized_zero, hy⟩
  obtain ⟨-, hr, hcost, hdb⟩ := h.step hfits (Or.inr rfl) hstep
  exact ⟨r, s', hstep, hr, hcost hframes, hdb⟩

end Run

end Minirel
