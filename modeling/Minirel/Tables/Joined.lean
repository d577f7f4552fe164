import Minirel.Tables.Sessions

/-!
# The joins of a session

`QU_NL_Join` appends the relational join of two relations to the result. The two relations may be
exchanged. The other methods return `OK` and append nothing.

## Main results

* `joined_of_run`: what a join writes, and what it leaves alone.
* `joined_swap`: the join of the relations the other way round.
* `joined_iff`: the methods that compute the join.
-/

namespace Minirel

open Comp HeapFile Relational

section Joined

variable {unix : FileName → Option UnixFile} {s₀ s s' s'' : Sys} {commands : List Command}
  {method : JoinType} {result nm : FileName} {projNames : List AttrInfo} {attr1 attr2 : AttrInfo}
  {op : Operator} {type : Datatype} {ds : List AttrDesc} {d₁ d₂ : AttrDesc}
  {outer inner : List Bytes} {r r' : Status × Output} {e e' : Bool} {db : Tables}

/-- The same relations, the other way round. -/
theorem Tables.Joinable.swap
    (h : db.Joinable result projNames attr1 op attr2 type ds d₁ d₂ outer inner) :
    db.Joinable result projNames attr2 op.mirror attr1 type ds d₂ d₁ inner outer where
  written := h.written
  result_ne := h.result_ne.symm
  distinct := h.distinct.symm
  drawn a ha := (h.drawn a ha).symm
  descs := h.descs
  desc₁ := h.desc₂
  desc₂ := h.desc₁
  regular₁ := h.regular₂
  regular₂ := h.regular₁
  compared := h.compared.swap
  rowWidth := h.rowWidth

/-- An attribute that is found belongs to a relation that is listed. -/
theorem Realizes.of_desc {a : AttrInfo} {d : AttrDesc} (h : Realizes unix s db)
    (hd : db.desc a = some d) :
    IsName a.relName ∧ cstr d.relName = a.relName := by
  unfold Tables.desc at hd
  split at hd
  next => cases hd
  next =>
    obtain ⟨R, hR, hfind⟩ := Option.bind_eq_some_iff.mp hd
    obtain ⟨hmem, hname⟩ := Tables.relation?_eq_some hR
    obtain ⟨P, v, fv, H, fvA, HA, h⟩ := h
    have hwf := h.database.wf R hmem
    rw [hwf.relName (List.mem_of_find?_eq_some hfind), ← hname]
    exact ⟨hwf.isName, cstr_eq_self hwf.nul⟩

/-- What is looked up for a join is found. -/
theorem Tables.Joinable.exists_desc {a : AttrInfo}
    (h : db.Joinable result projNames attr1 op attr2 type ds d₁ d₂ outer inner)
    (ha : a ∈ projNames ++ [attr1, attr2]) : ∃ d, db.desc a = some d := by
  rcases List.mem_append.mp ha with ha | ha
  · have hmem : db.desc a ∈ projNames.map db.desc := List.mem_map_of_mem ha
    rw [h.descs] at hmem
    obtain ⟨d, -, hd⟩ := List.mem_map.mp hmem
    exact ⟨d, hd.symm⟩
  · rcases List.mem_pair.mp ha with rfl | rfl
    · exact ⟨d₁, h.desc₁⟩
    · exact ⟨d₂, h.desc₂⟩

theorem Realizes.fitsJoin (h : Realizes unix s db) (method : JoinType)
    (hj : db.Joinable result projNames attr1 op attr2 type ds d₁ d₂ outer inner) :
    db.Fits unix (.join method result projNames attr1 op attr2) := by
  refine fun _ _ _ => ⟨fun a ha => ?_, fun _ => ⟨type, ds, d₁, d₂, outer, inner, hj⟩⟩
  obtain ⟨d, hd⟩ := hj.exists_desc ha
  exact (h.of_desc hd).1

/-- The outcome of a join of relations that can be joined. -/
theorem Tables.Joinable.joinResult_eq
    (hj : db.Joinable result projNames attr1 op attr2 type ds d₁ d₂ outer inner)
    (htypes : attr1.attrType = attr2.attrType ∧ attr1.attrLen = attr2.attrLen) :
    db.joinResult method projNames attr1 op attr2 =
      (.OK, some (toInt (db.joinRows method projNames attr1 op attr2).length)) := by
  unfold joinResult
  rw [if_neg (by simp [htypes.1, htypes.2])]
  by_cases hmethod : method.Compares op
  · rw [if_neg (not_not.mpr hmethod)]
    have hfind : ((projNames ++ [attr1, attr2]).find? fun a => (db.desc a).isNone) = none := by
      rw [List.find?_eq_none]
      intro a ha
      obtain ⟨d, hd⟩ := hj.exists_desc ha
      rw [hd]
      exact Bool.false_ne_true
    rw [hfind]
  · have hrows : db.joinRows method projNames attr1 op attr2 = [] := by
      unfold joinRows
      rw [if_pos (Or.inr (Or.inr hmethod))]
    rw [if_pos hmethod, hrows]
    rfl

/-- What a join leads to. -/
theorem Realizes.joined (h : Realizes unix s db)
    (hj : db.Joinable result projNames attr1 op attr2 type ds d₁ d₂ outer inner)
    (htypes : attr1.attrType = attr2.attrType ∧ attr1.attrLen = attr2.attrLen)
    (hframes : 8 ≤ s.freeFrames ∨ e = false)
    (hstep : (Command.join method result projNames attr1 op attr2).Step s r e s') : e = false ∧
      r = (.OK, .count (toInt (db.joinRows method projNames attr1 op attr2).length)) ∧
      Realizes unix s' (db.append result (db.joinRows method projNames attr1 op attr2)) := by
  obtain ⟨he, hr, -, hdb⟩ := h.step (h.fitsJoin method hj) hframes hstep
  obtain ⟨hr₁, hr₂⟩ : r.1 = _ ∧ r.2 = _ := hr
  rw [hj.joinResult_eq htypes] at hr₁ hr₂
  exact ⟨he, Prod.ext hr₁ hr₂, hdb⟩

/-! ### The join after two loads -/

/-- The relations that have been loaded can be joined. -/
theorem joinable_twoLoads : (Tables.initial.replay twoLoads).Joinable [69]
    [oneAttr, otherAttr] oneAttr .EQ
    otherAttr .STRING [⟨[65], [66], 0, 0, 4⟩, ⟨[67], [68], 0, 0, 4⟩] ⟨[65], [66], 0, 0, 4⟩
    ⟨[67], [68], 0, 0, 4⟩ [[97, 0, 0, 0]] [[97, 0, 0, 0]] where
  written := rfl
  result_ne := by decide
  distinct := by decide
  drawn := by decide
  descs := rfl
  desc₁ := rfl
  desc₂ := rfl
  regular₁ := ⟨⟨[65], [oneAttr]⟩, rfl, rfl, ⟨by decide, by decide, by decide⟩, by decide⟩
  regular₂ := ⟨⟨[67], [otherAttr]⟩, rfl, rfl, ⟨by decide, by decide, by decide⟩, by decide⟩
  compared := ⟨⟨rfl, rfl, rfl, Datatype.noConfusion, Datatype.noConfusion⟩, by decide,
    Datatype.noConfusion⟩
  rowWidth := by decide

theorem exists_joined (method : JoinType) : ∃ s₀ s r s', NewSession (fun _ => none) s₀ ∧
    TableRun (fun _ => none) .initial s₀ twoLoads s ∧ 81 ≤ s.freeFrames ∧
    (Command.join method [69] [oneAttr, otherAttr] oneAttr .EQ otherAttr).Step s r false s' := by
  obtain ⟨s₀, s, h₀, hrun, hframes⟩ := exists_twoLoads
  have hdb := hrun.realizes h₀.realizes
  obtain ⟨r, s', hstep, -⟩ := hdb.exists_next _ (hdb.fitsJoin method joinable_twoLoads) trivial
    (by omega) trivial
  exact ⟨s₀, s, r, s', h₀, hrun, hframes, hstep⟩

/-! ## Results -/

/-- `QU_NL_Join` returns if there are eight frames, and appends the relational join; it changes
nothing else. -/
theorem joined_of_run (h₀ : NewSession unix s₀) (hrun : TableRun unix .initial s₀ commands s)
    (hj : (Tables.initial.replay commands).Joinable result projNames attr1 op attr2 type ds d₁
      d₂ outer inner)
    (htypes : attr1.attrType = attr2.attrType ∧ attr1.attrLen = attr2.attrLen)
      (hmethod : method.Compares op) :
    (8 ≤ s.freeFrames → ∃ N, ∀ fuel, N ≤ fuel → ∀ locals, locals.Sized → ∃ r s',
      Yields ((Command.join method result projNames attr1 op attr2).run fuel locals) s r false s') ∧
    ∀ r e s', (8 ≤ s.freeFrames ∨ e = false) →
      (Command.join method result projNames attr1 op attr2).Step s r e s' →
      r = (.OK, .count (toInt (relationalJoin type op d₁ d₂ ds outer inner).length)) ∧
        s'.relTuples = s.relTuples ∧ s'.attrTuples = s.attrTuples ∧
        ∀ nm, ¬IsCatalog nm → unix nm = none →
          (s'.openFiles.find nm).isSome = (s.openFiles.find nm).isSome ∧
          s'.contents? nm = if nm = result then
            (s.contents? nm).map (· ++ relationalJoin type op d₁ d₂ ds outer inner)
              else s.contents? nm := by
  have hdb := hrun.realizes h₀.realizes
  refine ⟨fun hframes => hdb.exists_step (hdb.fitsJoin method hj) trivial hframes trivial, ?_⟩
  intro r e s' hframes hstep
  obtain ⟨-, hr, hdb'⟩ := hdb.joined hj htypes hframes hstep
  have hv := hdb.visible
  have hv' := hdb'.visible
  rw [hj.joinRows_eq htypes hmethod] at hr hv'
  refine ⟨hr, hv'.relcat.trans hv.relcat.symm, hv'.attrcat.trans hv.attrcat.symm,
    fun nm hcatalog hunix => ?_⟩
  refine ⟨(hv'.opened nm hcatalog).trans (hv.opened nm hcatalog).symm, ?_⟩
  rw [hv'.contents nm hcatalog hunix, hv.contents nm hcatalog hunix]
  split
  next hn => rw [hn, Tables.tuples_append_self]
  next hn => rw [Tables.tuples_append_of_ne hn]

theorem joined_of_run_twoLoads : ∃ s₀ s r s', NewSession (fun _ => none) s₀ ∧
    TableRun (fun _ => none) .initial s₀ twoLoads s ∧
    (Command.join .NLJoin [69] [oneAttr, otherAttr] oneAttr .EQ otherAttr).Step s r false s' ∧
    r = (.OK, .count 1) ∧ s'.contents? [69] = some [[97, 0, 0, 0, 97, 0, 0, 0]] := by
  obtain ⟨s₀, s, r, s', h₀, hrun, -, hstep⟩ := exists_joined .NLJoin
  obtain ⟨hr, -, -, hcontents⟩ :=
    (joined_of_run h₀ hrun joinable_twoLoads ⟨rfl, rfl⟩ (Or.inl rfl)).2 r false s'
    (Or.inr rfl) hstep
  obtain ⟨-, h69⟩ := hcontents [69] (by decide) rfl
  rw [if_pos rfl, (hrun.realizes h₀.realizes).visible.contents [69] (by decide) rfl] at h69
  exact ⟨s₀, s, r, s', h₀, hrun, hstep, hr.trans (by decide), h69.trans (by decide)⟩

/-- With the relations and the operator exchanged, `QU_NL_Join` appends the same records, maybe in
another order. -/
theorem joined_swap (h₀ : NewSession unix s₀) (hrun : TableRun unix .initial s₀ commands s)
    (hj : (Tables.initial.replay commands).Joinable result projNames attr1 op attr2 type ds d₁
      d₂ outer inner)
    (htypes : attr1.attrType = attr2.attrType ∧ attr1.attrLen = attr2.attrLen)
    (hcatalog : ¬IsCatalog result) (hunix : unix result = none)
    (hframes : 8 ≤ s.freeFrames ∨ e = false ∧ e' = false)
    (hstep : (Command.join .NLJoin result projNames attr1 op attr2).Step s r e s')
    (hstep' : (Command.join .NLJoin result projNames attr2 op.mirror attr1).Step s r' e' s'') :
    r = r' ∧ ∃ ts rows rows', s.contents? result = some ts ∧
    s'.contents? result = some (ts ++ rows) ∧
      s''.contents? result = some (ts ++ rows') ∧ rows.Perm rows' := by
  have hdb := hrun.realizes h₀.realizes
  have htypes' := And.intro htypes.1.symm htypes.2.symm
  obtain ⟨-, hr, hs'⟩ := hdb.joined hj htypes (hframes.imp_right And.left) hstep
  obtain ⟨-, hr', hs''⟩ := hdb.joined hj.swap htypes' (hframes.imp_right And.right) hstep'
  rw [hj.joinRows_eq htypes (Or.inl rfl)] at hr hs'
  rw [hj.swap.joinRows_eq htypes' (Or.inl rfl)] at hr' hs''
  have hperm : (relationalJoin type op d₁ d₂ ds outer inner).Perm
      (relationalJoin type op.mirror d₂ d₁ ds inner outer) := by
    have hc₁ := (hdb.of_desc hj.desc₁).2
    have hc₂ := (hdb.of_desc hj.desc₂).2
    refine relationalJoin_perm_swap (by rw [hc₁, hc₂]; exact hj.distinct) fun d hd => ?_
    have hmem : some d ∈ projNames.map (Tables.desc (Tables.initial.replay commands)) := by
      rw [hj.descs]
      exact List.mem_map_of_mem hd
    obtain ⟨a, ha, hdesc⟩ := List.mem_map.mp hmem
    rw [(hdb.of_desc hdesc).2, hc₁, hc₂]
    exact hj.drawn a ha
  obtain ⟨ts, hts⟩ := Option.isSome_iff_exists.mp hj.written
  refine ⟨?_, ts, _, _, ?_, ?_, ?_, hperm⟩
  · rw [hr, hr', hperm.length_eq]
  · rw [hdb.visible.contents result hcatalog hunix, hts]
  · rw [hs'.visible.contents result hcatalog hunix, Tables.tuples_append_self, hts]
    rfl
  · rw [hs''.visible.contents result hcatalog hunix, Tables.tuples_append_self, hts]
    rfl

theorem joined_swap_twoLoads : ∃ s₀ s r s' r' s'', NewSession (fun _ => none) s₀ ∧
    TableRun (fun _ => none) .initial s₀ twoLoads s ∧
    (Command.join .NLJoin [69] [oneAttr, otherAttr] oneAttr .EQ otherAttr).Step s r false s' ∧
    (Command.join .NLJoin [69] [oneAttr, otherAttr] otherAttr .EQ oneAttr).Step s r' false s'' ∧
    r = r' := by
  obtain ⟨s₀, s, r, s', h₀, hrun, hframes, hstep⟩ := exists_joined .NLJoin
  have hdb := hrun.realizes h₀.realizes
  obtain ⟨r', s'', hstep', -⟩ := hdb.exists_next _ (hdb.fitsJoin .NLJoin joinable_twoLoads.swap)
    trivial (by omega) trivial
  exact ⟨s₀, s, r, s', r', s'', h₀, hrun, hstep, hstep',
    (joined_swap h₀ hrun joinable_twoLoads ⟨rfl, rfl⟩
    (by decide) rfl (Or.inr ⟨rfl, rfl⟩) hstep hstep').1⟩

/-- For attributes of one type and length every method returns `OK`. It appends the relational join
if it compares the records, and nothing otherwise. -/
theorem joined_iff (h₀ : NewSession unix s₀) (hrun : TableRun unix .initial s₀ commands s)
    (hj : (Tables.initial.replay commands).Joinable result projNames attr1 op attr2 type ds d₁
      d₂ outer inner)
    (htypes : attr1.attrType = attr2.attrType ∧ attr1.attrLen = attr2.attrLen)
    (hcatalog : ¬IsCatalog result) (hunix : unix result = none)
    (hframes : 8 ≤ s.freeFrames ∨ e = false)
    (hstep : (Command.join method result projNames attr1 op attr2).Step s r e s') : r.1 = .OK ∧
      (¬(method = .NLJoin ∨ method = .HashJoin ∧ op ≠ .EQ) → r.2 = .count 0 ∧
        s'.contents? result = s.contents? result) ∧
      (s'.contents? result = (s.contents? result).map
        (· ++ relationalJoin type op d₁ d₂ ds outer inner) ↔
        method = .NLJoin ∨ (method = .HashJoin ∧ op ≠ .EQ) ∨
          relationalJoin type op d₁ d₂ ds outer inner = []) := by
  have hdb := hrun.realizes h₀.realizes
  obtain ⟨-, hr, hdb'⟩ := hdb.joined hj htypes hframes hstep
  obtain ⟨ts, hts⟩ := Option.isSome_iff_exists.mp hj.written
  refine ⟨by rw [hr], ?_⟩
  rw [hdb.visible.contents result hcatalog hunix, hdb'.visible.contents result hcatalog hunix,
    Tables.tuples_append_self, hts, Option.map_some, Option.map_some]
  by_cases hmethod : method.Compares op
  · rw [hj.joinRows_eq htypes hmethod]
    exact ⟨fun hn => absurd hmethod hn, iff_of_true rfl (hmethod.imp_right Or.inl)⟩
  · have hrows : (Tables.initial.replay commands).joinRows method projNames attr1 op
      attr2 = [] := by
      unfold Tables.joinRows
      rw [if_pos (Or.inr (Or.inr hmethod))]
    rw [hrows] at hr ⊢
    refine ⟨fun _ => ⟨by rw [hr]; rfl, by rw [List.append_nil]⟩, ?_⟩
    rw [Option.some_inj, List.append_cancel_left_eq, ← or_assoc]
    exact eq_comm.trans (or_iff_right hmethod).symm

/-- The sort-merge join appends nothing, although there is a pair. -/
theorem joined_iff_twoLoads : ∃ s₀ s r s', NewSession (fun _ => none) s₀ ∧
    TableRun (fun _ => none) .initial s₀ twoLoads s ∧
    (Command.join .SMJoin [69] [oneAttr, otherAttr] oneAttr .EQ otherAttr).Step s r false s' ∧
    r.1 = .OK ∧
    s'.contents? [69] ≠ (s.contents? [69]).map (· ++ relationalJoin .STRING .EQ ⟨[65],
    [66], 0, 0, 4⟩
      ⟨[67], [68], 0, 0, 4⟩ [⟨[65], [66], 0, 0, 4⟩, ⟨[67], [68], 0, 0, 4⟩] [[97, 0, 0, 0]] [[97, 0,
      0, 0]]) := by
  obtain ⟨s₀, s, r, s', h₀, hrun, -, hstep⟩ := exists_joined .SMJoin
  obtain ⟨hr, -, hiff⟩ :=
    joined_iff h₀ hrun joinable_twoLoads ⟨rfl, rfl⟩ (by decide) rfl (Or.inr rfl) hstep
  refine ⟨s₀, s, r, s', h₀, hrun, hstep, hr, fun he => ?_⟩
  rcases hiff.mp he with hn | ⟨hn, -⟩ | hn
  · exact JoinType.noConfusion hn
  · exact JoinType.noConfusion hn
  · exact absurd hn (by decide)

end Joined

end Minirel
