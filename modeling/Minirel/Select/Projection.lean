import Minirel.Catalog.Removal
import Minirel.Select

/-!
# The projection list of a selection

The first loop of `QU_Select` begins at whatever value its counter happens to have, and the second
one at the value that the first has left: it never runs, and the record length stays `0`.

## Main definitions

* `AttrInfo.desc`: the descriptor of an attribute in the catalog.
* `Room`, `Reading`: a call of `getInfo` after the other.
* `ResolvesProjection`: the call of `ScanSelect` gets the descriptors and the record length.

## Main results

* `QU_Select_spec`: what is handed over, for every value of the counter.
* `resolvesProjection_iff`: when it is what it should be.
-/

namespace Minirel

open Comp HeapFile HeapFileScan

/-! ## Calls of `getInfo` in a row -/

/-- What the catalog says about an attribute. -/
def AttrInfo.desc (H : Heap) (a : AttrInfo) : Option AttrDesc :=
  if a.relName = [] ∨ a.attrName = [] then none else
    (H.contents.find? (hasNames a.relName a.attrName)).map AttrDesc.ofBytes

/-- There are `n` frames for a scan of `attrcat` and what comes after it. Its header page stays
pinned after each of them, in the same frame. -/
def RoomFor (n : Nat) (v : View) (H : Heap) (P : Multiset Pin) : Prop :=
  n + 1 ≤ freeFrames v.numBufs P ∨ n ≤ freeFrames v.numBufs P ∧
    ∃ z ∈ P, z.pageNo = H.hdrNo ∧ ∃ c, v.handle ATTRCATNAME = some (z.file, c)

/-- There are frames for a scan of `attrcat`. Its header page stays pinned after each of them, in
the same frame. -/
def Room (v : View) (H : Heap) (P : Multiset Pin) : Prop :=
  3 ≤ freeFrames v.numBufs P ∨ 2 ≤ freeFrames v.numBufs P ∧
    ∃ z ∈ P, z.pageNo = H.hdrNo ∧ ∃ c, v.handle ATTRCATNAME = some (z.file, c)

/-- `attrcat` is the file `H`, and if `T` holds there is room for a scan of it. -/
def Reading (T : Prop) (H : Heap) (s : Sys) : Prop :=
  ∃ P v fv, Coh s P v ∧ IsHeap v ATTRCATNAME fv H ∧ (T → Room v H P)

section Reading

variable {T : Prop} {s s' : Sys} {P : Multiset Pin} {v v' : View} {H : Heap} {x z : Pin} {c : Int}
  {attr : AttrInfo} {projNames : List AttrInfo}

/-- A second pin on a page does not take a frame. -/
theorem freeFrames_cons_of_mem (N : Nat) (hz : z ∈ P) (hframe : x.frame = z.frame) :
    freeFrames N (x ::ₘ P) = freeFrames N P := by
  unfold freeFrames
  congr 1
  refine Finset.filter_congr fun n _ => ?_
  by_cases hn : x.frame = n
  · have hpos : P.countP (·.frame = n) ≠ 0 :=
      (Multiset.countP_pos.mpr ⟨z, hz, hframe.symm.trans hn⟩).ne'
    rw [Multiset.countP_cons, if_pos hn]
    exact iff_of_false (Nat.succ_ne_zero _) hpos
  · rw [Multiset.countP_cons, if_neg hn, add_zero]

theorem Reading.of_true (h : Reading True H s) : Reading T H s := by
  obtain ⟨P, v, fv, hc, hH, hroom⟩ := h
  exact ⟨P, v, fv, hc, hH, fun _ => hroom trivial⟩

theorem Room.two_le (h : Room v H P) : 2 ≤ freeFrames v.numBufs P :=
  h.elim (fun h => by omega) And.left

theorem RoomFor.le {n : Nat} (h : RoomFor n v H P) : n ≤ freeFrames v.numBufs P :=
  h.elim (fun h => by omega) And.left

/-- After a scan that has given its data page back. -/
theorem RoomFor.next {n : Nat} (h : RoomFor n v H P)
    (hread : HasRead (· = ATTRCATNAME) 1 P v s' (x ::ₘ P) v') (hpage : x.pageNo = H.hdrNo)
    (hfile : v'.handle ATTRCATNAME = some (x.file, c)) : RoomFor n v' H (x ::ₘ P) := by
  rw [RoomFor, hread.later.numBufs]
  refine Or.inr ⟨?_, x, Multiset.mem_cons_self x P, hpage, c, hfile⟩
  rcases h with h | ⟨h, z, hz, hzpage, d, hzfile⟩
  · have := freeFrames_cons v.numBufs x P
    omega
  · -- the header page is still where it was
    obtain ⟨d', -, hzfile'⟩ := hread.later.handle _ _ _ hzfile
    have hsame : z.file = x.file := congrArg Prod.fst (Option.some.inj (hzfile'.symm.trans hfile))
    have hzpin := hread.coh.pins z (Multiset.mem_cons_of_mem hz)
    rw [hsame, hzpage, ← hpage, hread.coh.pins x (Multiset.mem_cons_self x P)] at hzpin
    rwa [freeFrames_cons_of_mem v.numBufs hz (Option.some.inj hzpin)]

theorem Room.next (h : Room v H P) (hread : HasRead (· = ATTRCATNAME) 1 P v s' (x ::ₘ P) v')
    (hpage : x.pageNo = H.hdrNo) (hfile : v'.handle ATTRCATNAME = some (x.file, c)) :
    Room v' H (x ::ₘ P) :=
  RoomFor.next (n := 2) h hread hpage hfile

/-- The status for an attribute that is not in the catalog. -/
def AttrInfo.refusal (a : AttrInfo) : Status :=
  if a.relName = [] ∨ a.attrName = [] then .BADCATPARM else .ATTRNOTFOUND

theorem AttrInfo.refusal_eq_iff {a : AttrInfo} :
    a.refusal = .ATTRNOTFOUND ↔ a.relName ≠ [] ∧ a.attrName ≠ [] := by
  unfold refusal
  split
  next h => exact iff_of_false nofun (not_and_or.mpr (h.imp not_not.mpr not_not.mpr))
  next h => exact iff_of_true rfl (not_or.mp h)

theorem getInfo_reading (fuel : Nat) {d : AttrDesc} (h : Reading T H s) (htuples : H.AttrTuples)
    (hname : IsName attr.relName) (hd : d.Sized)
    (hT : T → 2 * H.rids.length + H.pages.length + 1 ≤ fuel) :
    Clean T (AttrCatalog.getInfo fuel attr.relName attr.attrName d) s fun r s' =>
      match attr.desc H with
      | some d' => r = (.OK, d') ∧ d'.Sized ∧ Reading T H s'
      | none => r.1 = attr.refusal := by
  obtain ⟨P, v, fv, hc, hH, hroom⟩ := h
  unfold AttrInfo.desc AttrInfo.refusal
  by_cases hempty : attr.relName = [] ∨ attr.attrName = []
  · unfold AttrCatalog.getInfo
    rw [if_pos hempty, if_pos hempty, if_pos hempty, clean_pure]
  rw [if_neg hempty, if_neg hempty]
  obtain ⟨hne, hne'⟩ := not_or.mp hempty
  refine (AttrCatalog.getInfo_spec fuel hc hH htuples hname hne hne' hd fun ht =>
    ⟨(hroom ht).two_le, hT ht⟩).mono fun r s' hr => ?_
  cases hfind : H.contents.find? (hasNames attr.relName attr.attrName) with
  | some b =>
    rw [hfind] at hr
    obtain ⟨hr, x, v', hread, hpage, c, hfile⟩ := hr
    have hb := List.mem_of_find?_eq_some hfind
    obtain ⟨rid, hrid⟩ := (Heap.mem_rows hH.heapAt).mp (Multiset.mem_coe.mpr hb)
    exact ⟨hr, htuples.sized hrid, _, v', fv, hread.coh, hread.isHeap hH,
      fun ht => (hroom ht).next hread hpage hfile⟩
  | none =>
    rw [hfind] at hr
    exact hr.1

/-! ## The loops -/

/-- Looking the attribute up finds its descriptor and keeps `I`, or refuses the attribute and leaves
`J`. -/
def Finds (T : Prop) (I J : Sys → Prop) (fuel : Nat) (H : Heap) (a : AttrInfo) : Prop :=
  ∀ (s : Sys) (d : AttrDesc), I s → d.Sized →
    Clean T (AttrCatalog.getInfo fuel a.relName a.attrName d) s fun r s' =>
      match a.desc H with
      | some d' => r = (.OK, d') ∧ d'.Sized ∧ I s'
      | none => r.1 = a.refusal ∧ J s'

/-- The first loop looks up the attributes from its counter on, up to the first one that is not in
the catalog. -/
theorem resolveLoop_of {I J : Sys → Prop} (fuel n : Nat) {arr : List AttrDesc} (h : I s)
    (hfinds : ∀ a ∈ projNames, Finds T I J fuel H a) (hlen : arr.length = projNames.length)
    (harr : ∀ d ∈ arr, d.Sized) :
    Clean T (resolveLoop fuel projNames.length projNames n arr) s fun r s' =>
      match (projNames.drop n).find? fun a => (a.desc H).isNone with
      | some a => (∃ i arr', r = (some a.refusal, i, arr')) ∧ J s'
      | none => I s' ∧ ∃ i arr', r = (none, i, arr') ∧ (projNames.length : Int) ≤ i ∧
        arr'.map some = (arr.take n).map some ++ (projNames.drop n).map (AttrInfo.desc H) := by
  obtain ⟨k, hk⟩ : ∃ k, projNames.length - n = k := ⟨_, rfl⟩
  induction k generalizing n s arr with
  | zero =>
    -- no round is left
    have hle : projNames.length ≤ n := Nat.sub_eq_zero_iff_le.mp hk
    rw [resolveLoop, if_neg (by omega), clean_pure, List.drop_of_length_le hle,
      List.take_of_length_le (hlen ▸ hle), List.map_nil, List.append_nil]
    exact ⟨h, n, arr, rfl, by omega, rfl⟩
  | succ k ih =>
    have hn : n < projNames.length := by omega
    have hn' : n < arr.length := hlen ▸ hn
    have hstep : (n : Int) + 1 = (n + 1 : Nat) := rfl
    rw [resolveLoop, if_pos (by omega), if_neg (by omega), Int.toNat_natCast,
      List.getElem?_eq_getElem hn, clean_ofOption_some_bind, List.getElem?_eq_getElem hn',
      clean_ofOption_some_bind, List.drop_eq_getElem_cons hn, hstep]
    refine (hfinds _ (List.getElem_mem hn) s _ h (harr _ (List.getElem_mem hn'))).bind ?_
    rintro ⟨st, d⟩ s₁ hr
    cases hdesc : projNames[n].desc H with
    | none =>
      rw [hdesc] at hr
      dsimp only at hr ⊢
      obtain ⟨hst, hJ⟩ := hr
      rw [List.find?_cons_of_pos (by rw [hdesc]; rfl), hst, if_pos, clean_pure]
      · exact ⟨⟨_, _, rfl⟩, hJ⟩
      · unfold AttrInfo.refusal
        split <;> nofun
    | some d' =>
      rw [hdesc] at hr
      obtain ⟨hr, hd', h₁⟩ := hr
      cases hr
      dsimp only
      rw [List.find?_cons_of_neg (by rw [hdesc]; exact Bool.false_ne_true), if_neg fun hn => hn rfl]
      refine (ih (n + 1) h₁ ?_ ?_ (by omega)).mono fun r s' hr => ?_
      · rw [List.length_set, hlen]
      · intro a ha
        rcases List.mem_or_eq_of_mem_set ha with ha | ha
        · exact harr a ha
        · exact ha ▸ hd'
      have htake : (arr.set n d).take (n + 1) = arr.take n ++ [d] := by
        rw [List.take_succ_eq_append_getElem (by rwa [List.length_set]), List.getElem_set_self,
          List.take_set_of_le (le_refl n)]
      rw [htake] at hr
      cases hfind : (projNames.drop (n + 1)).find? fun a => (a.desc H).isNone with
      | some a =>
        rw [hfind] at hr
        exact hr
      | none =>
        rw [hfind] at hr
        obtain ⟨h₂, i, arr', hr, hi, harr'⟩ := hr
        refine ⟨h₂, i, arr', hr, hi, ?_⟩
        rw [harr', List.map_append, List.append_assoc, List.map_cons, List.map_cons, hdesc]
        rfl

theorem resolveLoop_spec (fuel n : Nat) {arr : List AttrDesc} (h : Reading T H s)
    (htuples : H.AttrTuples) (hnames : ∀ a ∈ projNames, IsName a.relName)
    (hlen : arr.length = projNames.length) (harr : ∀ d ∈ arr, d.Sized)
    (hT : T → 2 * H.rids.length + H.pages.length + 1 ≤ fuel) :
    Clean T (resolveLoop fuel projNames.length projNames n arr) s fun r s' =>
      match (projNames.drop n).find? fun a => (a.desc H).isNone with
      | some a => ∃ i arr', r = (some a.refusal, i, arr')
      | none => Reading T H s' ∧ ∃ i arr', r = (none, i, arr') ∧ (projNames.length : Int) ≤ i ∧
        arr'.map some = (arr.take n).map some ++ (projNames.drop n).map (AttrInfo.desc H) := by
  have hfinds : ∀ a ∈ projNames, Finds T (Reading T H) (fun _ => True) fuel H a := by
    intro a ha s d hs hd
    refine (getInfo_reading fuel hs htuples (hnames a ha) hd hT).mono fun r s' hr => ?_
    cases hdesc : a.desc H with
    | some d' =>
      rw [hdesc] at hr
      exact hr
    | none =>
      rw [hdesc] at hr
      exact ⟨hr, trivial⟩
  refine (resolveLoop_of fuel n h hfinds hlen harr).mono fun r s' hr => ?_
  cases hfind : (projNames.drop n).find? fun a => (a.desc H).isNone with
  | some a =>
    rw [hfind] at hr
    exact hr.1
  | none =>
    rw [hfind] at hr
    exact hr

/-- The second loop does not run after the first. -/
theorem lengthLoop_of_le {projCnt i lengthOfAttrs : Int} {arr : List AttrDesc} (h : projCnt ≤ i) :
    lengthLoop projCnt arr i lengthOfAttrs = some lengthOfAttrs := by
  rw [lengthLoop, if_neg (not_lt.mpr h)]

/-! ## `QU_Select` -/

variable {atof : Bytes → Int} {junk : Nat → AttrDesc} {attrDesc d : AttrDesc} {result : FileName}
  {op : Operator} {attrValue : Bytes}

/-- What `QU_Select` hands over to `ScanSelect`, with the counter `n` at first. -/
theorem QU_Select_spec (fuel n : Nat) (h : Reading T H s) (htuples : H.AttrTuples)
    (hnames : ∀ a ∈ projNames, IsName a.relName) (hname : IsName attr.relName)
    (hjunk : ∀ k, (junk k).Sized) (hsized : attrDesc.Sized) (hattr : attr.desc H = some d)
    (hT : T → 2 * H.rids.length + H.pages.length + 1 ≤ fuel) :
    Clean T (QU_Select fuel atof n junk attrDesc result projNames.length projNames (some attr) op
        attrValue) s fun r _ =>
      match (projNames.drop n).find? fun a => (a.desc H).isNone with
      | some a => r = .inl a.refusal
      | none => ∃ args, r = .inr args ∧ args.reclen = 0 ∧ args.projNames.map some =
        (((List.range projNames.length).map junk).take n).map some ++
          (projNames.drop n).map (AttrInfo.desc H) := by
  unfold QU_Select
  rw [if_neg (not_lt.mpr (Int.natCast_nonneg _)), Int.toNat_natCast]
  refine (resolveLoop_spec fuel n h htuples hnames (by rw [List.length_map, List.length_range])
    (fun d hd => ?_) hT).bind ?_
  · obtain ⟨k, -, rfl⟩ := List.mem_map.mp hd
    exact hjunk k
  rintro ⟨early, i, arr⟩ s₁ hr
  cases hfind : (projNames.drop n).find? fun a => (a.desc H).isNone with
  | some a =>
    rw [hfind] at hr
    obtain ⟨_, _, hr⟩ := hr
    cases hr
    dsimp only
    rw [clean_pure]
  | none =>
    rw [hfind] at hr
    obtain ⟨h₁, i, arr, hr, hi, harr⟩ := hr
    cases hr
    dsimp only
    refine (getInfo_reading fuel h₁ htuples hname hsized hT).bind ?_
    rintro ⟨st, d'⟩ s₂ hr
    rw [hattr] at hr
    cases hr.1
    dsimp only
    rw [if_neg fun hn => hn rfl, lengthLoop_of_le hi, clean_ofOption_some_bind, clean_pure]
    exact ⟨_, rfl, rfl, harr⟩

/-- The counter must not be negative: the first loop would read before the array. -/
theorem not_yields_QU_Select {fuel : Nat} {i : Int} {r : Status ⊕ ScanSelectArgs} {e : Bool}
    (hneg : i < 0) : ¬Yields (QU_Select fuel atof i junk attrDesc result projNames.length projNames
      (some attr) op attrValue) s r e s' := by
  intro hy
  unfold QU_Select at hy
  rw [if_neg (not_lt.mpr (Int.natCast_nonneg _))] at hy
  obtain ⟨_, _, _, _, hy, -⟩ := hy.of_bind
  rw [resolveLoop, if_pos (by omega), if_pos hneg] at hy
  cases hy

end Reading

/-- `QU_Select` hands over the descriptors of all attributes and the sum of their lengths, or an
attribute is not in the catalog and it returns `ATTRNOTFOUND`. -/
structure ResolvesProjection (s : Sys) (H : Heap) (projNames : List AttrInfo)
    (select : Nat → M (Status ⊕ ScanSelectArgs)) : Prop where
  found : ∀ ds : List AttrDesc, projNames.map (AttrInfo.desc H) = ds.map some →
    ∃ N, ∀ fuel, N ≤ fuel → ∃ args s',
    Yields (select fuel) s (.inr args) false s' ∧ args.projNames = ds ∧
      args.reclen = (ds.map AttrDesc.attrLen).sum
  missing : (∃ a ∈ projNames, a.desc H = none) → ∃ N, ∀ fuel, N ≤ fuel → ∃ s',
    Yields (select fuel) s (.inl .ATTRNOTFOUND) false s'

section Projection

variable {s : Sys} {P : Multiset Pin} {v : View} {fv : FileView} {H : Heap} {attr : AttrInfo}
  {projNames : List AttrInfo} {atof : Bytes → Int} {junk : Nat → AttrDesc} {attrDesc d : AttrDesc}
  {result : FileName} {op : Operator} {attrValue : Bytes} {i : Int}

theorem exists_descs (h : ∀ a ∈ projNames, a.desc H ≠ none) :
    ∃ ds : List AttrDesc, projNames.map (AttrInfo.desc H) = ds.map some := by
  induction projNames with
  | nil => exact ⟨[], rfl⟩
  | cons a l ih =>
    obtain ⟨d, hd⟩ := Option.ne_none_iff_exists'.mp (h a List.mem_cons_self)
    obtain ⟨ds, hds⟩ := ih fun b hb => h b (List.mem_cons_of_mem a hb)
    exact ⟨d :: ds, by rw [List.map_cons, List.map_cons, hd, hds]⟩

/-- No attribute is missing. -/
theorem find?_desc_of_map {ds : List AttrDesc} (hds : projNames.map (AttrInfo.desc H) = ds.map some)
    (n : Nat) : ((projNames.drop n).find? fun a => (a.desc H).isNone) = none := by
  rw [List.find?_eq_none]
  intro a ha hnone
  have hmem : a.desc H ∈ ds.map some := hds ▸ List.mem_map_of_mem (List.mem_of_mem_drop ha)
  obtain ⟨d, -, hd⟩ := List.mem_map.mp hmem
  rw [← hd] at hnone
  cases hnone

/-- The entries before the counter are those of the allocation. -/
theorem handedOver_iff {ds : List AttrDesc} (hds : projNames.map (AttrInfo.desc H) = ds.map some)
    {n : Nat} : (((List.range projNames.length).map junk).take n).map some ++
        (projNames.drop n).map (AttrInfo.desc H) = ds.map some ↔
      ∀ k : Nat, (k : Int) < n → ∀ d, ds[k]? = some d → junk k = d := by
  have hlen : projNames.length = ds.length := by
    have := congrArg List.length hds
    rwa [List.length_map, List.length_map] at this
  have hdrop : (projNames.drop n).map (AttrInfo.desc H) = (ds.drop n).map some := by
    rw [List.map_drop, hds, List.map_drop]
  have hsplit : ds.map some = (ds.take n).map some ++ (ds.drop n).map some := by
    rw [← List.map_append, List.take_append_drop]
  rw [hdrop, hsplit, List.append_cancel_right_eq,
    (List.map_injective_iff.mpr (Option.some_injective _)).eq_iff]
  constructor
  · intro h k hk d hd
    have hget := congrArg (·[k]?) h
    have hlt : k < ds.length := (List.getElem?_eq_some_iff.mp hd).1
    rw [List.getElem?_take_of_lt (by omega), List.getElem?_take_of_lt (by omega), hd,
      List.getElem?_map, List.getElem?_range (by omega)] at hget
    exact Option.some.inj hget
  · intro h
    refine List.ext_getElem? fun k => ?_
    by_cases hk : k < n
    · rw [List.getElem?_take_of_lt hk, List.getElem?_take_of_lt hk, List.getElem?_map]
      cases hd : ds[k]? with
      | none => rw [List.getElem?_eq_none_iff.mpr (by
          rw [List.length_range, hlen]; exact List.getElem?_eq_none_iff.mp hd)]; rfl
      | some d =>
        have hlt : k < ds.length := (List.getElem?_eq_some_iff.mp hd).1
        rw [List.getElem?_range (by omega), Option.map_some, h k (by omega) d hd]
    · rw [List.getElem?_eq_none, List.getElem?_eq_none]
      · rw [List.length_take]
        omega
      · rw [List.length_take]
        omega

/-- For every content of `attrcat`, every projection list and every value of the counter. -/
theorem resolvesProjection_iff (hc : Coh s P v) (hH : IsHeap v ATTRCATNAME fv H)
    (htuples : H.AttrTuples) (hnames : ∀ a ∈ projNames, IsName a.relName)
    (hname : IsName attr.relName) (hjunk : ∀ k, (junk k).Sized) (hsized : attrDesc.Sized)
    (hattr : attr.desc H = some d) (hframes : 3 ≤ s.freeFrames) :
    ResolvesProjection s H projNames (fun fuel => QU_Select fuel atof i junk attrDesc result
        projNames.length projNames (some attr) op attrValue) ↔
      0 ≤ i ∧ (∀ ds : List AttrDesc, projNames.map (AttrInfo.desc H) = ds.map some →
        (ds.map AttrDesc.attrLen).sum = 0 ∧
        ∀ k : Nat, k < i → ∀ d, ds[k]? = some d → junk k = d) ∧
      ((∃ a ∈ projNames, a.desc H = none) → ∃ a,
        (projNames.drop i.toNat).find? (fun a => (a.desc H).isNone) = some a ∧ a.relName ≠ [] ∧
          a.attrName ≠ []) := by
  have hread : Reading True H s := ⟨P, v, fv, hc, hH, fun _ => Or.inl (hc.freeFrames_eq ▸ hframes)⟩
  by_cases hi : 0 ≤ i
  swap
  · -- the call does not return
    refine iff_of_false (fun h => ?_) fun h => hi h.1
    by_cases hall : ∀ a ∈ projNames, a.desc H ≠ none
    · obtain ⟨ds, hds⟩ := exists_descs hall
      obtain ⟨N, hN⟩ := h.found ds hds
      obtain ⟨args, s', hy, -⟩ := hN N (le_refl N)
      exact not_yields_QU_Select (not_le.mp hi) hy
    · push Not at hall
      obtain ⟨N, hN⟩ := h.missing hall
      obtain ⟨s', hy⟩ := hN N (le_refl N)
      exact not_yields_QU_Select (not_le.mp hi) hy
  obtain ⟨n, rfl⟩ := Int.eq_ofNat_of_zero_le hi
  rw [and_iff_right hi, Int.toNat_natCast]
  have hspec (fuel : Nat) : Clean (2 * H.rids.length + H.pages.length + 1 ≤ fuel)
    (QU_Select fuel atof n
      junk attrDesc result projNames.length projNames (some attr) op attrValue) s _ :=
    QU_Select_spec fuel n (T := 2 * H.rids.length + H.pages.length + 1 ≤ fuel) hread.of_true htuples
      hnames hname hjunk hsized hattr id
  constructor
  · intro h
    refine ⟨fun ds hds => ?_, fun hmissing => ?_⟩
    · obtain ⟨N, hN⟩ := h.found ds hds
      obtain ⟨args, s', hy, hprojs, hreclen⟩ := hN N (le_refl N)
      have hr := (hspec N).of_yields hy
      rw [find?_desc_of_map hds n] at hr
      obtain ⟨args', hr, hzero, hargs⟩ := hr
      cases hr
      rw [hzero] at hreclen
      rw [hprojs] at hargs
      exact ⟨hreclen.symm, (handedOver_iff hds).mp hargs.symm⟩
    · obtain ⟨N, hN⟩ := h.missing hmissing
      obtain ⟨s', hy⟩ := hN N (le_refl N)
      have hr := (hspec N).of_yields hy
      cases hfind : (projNames.drop n).find? fun a => (a.desc H).isNone with
      | none =>
        rw [hfind] at hr
        obtain ⟨_, hr, -⟩ := hr
        cases hr
      | some a =>
        rw [hfind] at hr
        exact ⟨a, rfl, AttrInfo.refusal_eq_iff.mp (Sum.inl.inj hr).symm⟩
  · rintro ⟨hfound, hmissing⟩
    refine ⟨fun ds hds => ⟨2 * H.rids.length + H.pages.length + 1, fun fuel hfuel => ?_⟩, fun hm =>
      ⟨2 * H.rids.length + H.pages.length + 1, fun fuel hfuel => ?_⟩⟩
    · obtain ⟨hsum, hjunks⟩ := hfound ds hds
      obtain ⟨r, s', hy, hr⟩ := (hspec fuel).exists hfuel
      rw [find?_desc_of_map hds n] at hr
      obtain ⟨args, rfl, hzero, hargs⟩ := hr
      rw [(handedOver_iff hds).mpr hjunks] at hargs
      exact ⟨args, s', hy, List.map_injective_iff.mpr (Option.some_injective _) hargs,
        hzero.trans hsum.symm⟩
    · obtain ⟨a, hfind, hnames⟩ := hmissing hm
      obtain ⟨r, s', hy, hr⟩ := (hspec fuel).exists hfuel
      rw [hfind] at hr
      dsimp only at hr
      rw [AttrInfo.refusal_eq_iff.mpr hnames] at hr
      exact ⟨s', hr ▸ hy⟩

end Projection

/-! ### Attributes of a new database -/

section Lists

variable {H HA : Heap} {fvA : FileView} {C : List Relation} {a : AttrInfo} {b : Bytes}
  {d : AttrDesc}

/-- The names that a tuple says. -/
theorem Heap.AttrTuples.hasNames_iff (htuples : HA.AttrTuples) (hHA : HeapAt fvA HA)
    (hb : b ∈ HA.contents) : hasNames a.relName a.attrName b = true ↔
      (AttrDesc.decode b).relName = a.relName ∧ (AttrDesc.decode b).attrName = a.attrName := by
  obtain ⟨rid, hrid⟩ := (Heap.mem_rows hHA).mp (Multiset.mem_coe.mpr hb)
  have hattr : (AttrDesc.decode b).attrName = cstr (b.drop MAXNAME) :=
    cstr_take (htuples.nul rid b hrid)
  rw [AttrDesc.relName_decode (htuples.tuples rid b hrid).2, hattr]
  unfold hasNames hasName
  rw [Bool.and_eq_true, decide_eq_true_iff, decide_eq_true_iff]

/-- An attribute that is declared has a descriptor. -/
theorem Lists.exists_desc (h : Lists H HA C) (hHA : HeapAt fvA HA) (htuples : HA.AttrTuples)
    (hd : d ∈ C.flatMap Relation.attrDescs) (hrel : d.relName = a.relName)
    (hattr : d.attrName = a.attrName) (hne : a.relName ≠ []) (hne' : a.attrName ≠ []) :
    ∃ b ∈ HA.contents, a.desc HA = some (AttrDesc.ofBytes b) := by
  unfold AttrInfo.desc
  rw [if_neg (not_or.mpr ⟨hne, hne'⟩)]
  cases hfind : HA.contents.find? (hasNames a.relName a.attrName) with
  | some b => exact ⟨b, List.mem_of_find?_eq_some hfind, rfl⟩
  | none =>
    have hmem : d ∈ HA.rows.map AttrDesc.decode := by
      rw [h.attr]
      exact Multiset.mem_coe.mpr hd
    obtain ⟨b, hb, rfl⟩ := Multiset.mem_map.mp hmem
    have hb := Multiset.mem_coe.mp hb
    exact absurd ((htuples.hasNames_iff hHA hb).mpr ⟨hrel, hattr⟩)
      (List.find?_eq_none.mp hfind b hb)

end Lists

/-- The attribute `relName` of `relcat`. -/
def relNameAttr : AttrInfo := ⟨RELCATNAME, relNameStr, Datatype.code .STRING, 32⟩

theorem NewSession.relNameAttr {s : Sys} (h : NewSession (fun _ => none) s) :
    ∃ P v fvA HA, Coh s P v ∧
    IsHeap v ATTRCATNAME fvA HA ∧ HA.AttrTuples ∧ 3 ≤ s.freeFrames ∧
    (∃ H, Lists H HA (relations [])) ∧ ∃ b ∈ HA.contents, relNameAttr.desc HA = some
      (AttrDesc.ofBytes b) := by
  obtain ⟨P, v, fvA, HA, hc, hH, htuples, hframes, H, hlists⟩ := h.attrcat
  have hmem : (⟨RELCATNAME, relNameStr, 0, Datatype.code .STRING, 32⟩ : AttrDesc) ∈
      (relations []).flatMap Relation.attrDescs := by decide
  exact ⟨P, v, fvA, HA, hc, hH, htuples, hframes, ⟨H, hlists⟩,
    hlists.exists_desc hH.heapAt htuples hmem rfl rfl (by decide) (by decide)⟩

/-- The attribute `[66]` of `[65]` is not in the catalog of a new database. -/
theorem resolvesProjection_iff_missing : ∃ s HA, NewSession (fun _ => none) s ∧
    ResolvesProjection s HA [⟨[65], [66], 1, 4⟩] fun fuel => QU_Select fuel (fun _ => 0) 0
      (fun _ => AttrDesc.zero) AttrDesc.zero [67] 1 [⟨[65], [66], 1, 4⟩]
        (some relNameAttr) .EQ [] := by
  obtain ⟨s, h₀⟩ : ∃ s, NewSession (fun _ => none) s := exists_newSession rfl rfl
  obtain ⟨P, v, fvA, HA, hc, hH, htuples, hframes, ⟨H, hlists⟩, b, hb, hdesc⟩ := h₀.relNameAttr
  have hmissing : AttrInfo.desc HA ⟨[65], [66], 1, 4⟩ = none := by
    unfold AttrInfo.desc
    rw [if_neg (by decide), Option.map_eq_none_iff, List.find?_eq_none]
    intro b hb hnames
    have hall : ∀ d ∈ (relations []).flatMap Relation.attrDescs, d.relName ≠ [65] := by decide
    exact hall _ (hlists.decode_mem hb)
      ((htuples.hasNames_iff (a := ⟨[65], [66], 1, 4⟩) hH.heapAt hb).mp hnames).1
  refine ⟨s, HA, h₀, (resolvesProjection_iff (i := 0) hc hH htuples ?_ ⟨by decide, by decide⟩
    (fun _ => AttrDesc.sized_zero) AttrDesc.sized_zero hdesc hframes).mpr
    ⟨le_refl 0, fun ds hds => ?_, fun _ => ⟨⟨[65], [66], 1, 4⟩, ?_, List.cons_ne_nil 65 [],
      List.cons_ne_nil 66 []⟩⟩⟩
  · intro a ha
    rw [List.mem_singleton.mp ha]
    exact ⟨by decide, by decide⟩
  · -- the attribute is missing
    rw [List.map_cons, hmissing] at hds
    cases ds <;> cases hds
  · exact List.find?_cons_of_pos (by rw [hmissing]; rfl)

/-- The record length for the attribute `relName` of `relcat` is `0`, whatever the counter is. -/
theorem not_resolvesProjection_relName : ∃ s P v fvA HA, NewSession (fun _ => none) s ∧ Coh s P v ∧
    IsHeap v ATTRCATNAME fvA HA ∧ HA.AttrTuples ∧ ∀ i : Int, ¬ResolvesProjection s HA [relNameAttr]
      fun fuel => QU_Select fuel (fun _ => 0) i (fun _ => AttrDesc.zero) AttrDesc.zero [67] 1
        [relNameAttr] (some relNameAttr) .EQ [] := by
  obtain ⟨s, h₀⟩ : ∃ s, NewSession (fun _ => none) s := exists_newSession rfl rfl
  obtain ⟨P, v, fvA, HA, hc, hH, htuples, hframes, ⟨H, hlists⟩, b, hb, hdesc⟩ := h₀.relNameAttr
  refine ⟨s, P, v, fvA, HA, h₀, hc, hH, htuples, fun i h => ?_⟩
  have hds : [relNameAttr].map (AttrInfo.desc HA) = [AttrDesc.ofBytes b].map some := by
    rw [List.map_singleton, hdesc]
    rfl
  obtain ⟨N, hN⟩ := h.found _ hds
  obtain ⟨args, s', hy, -, hreclen⟩ := hN N (le_refl N)
  have hy : Yields (QU_Select N (fun _ => 0) i (fun _ => AttrDesc.zero) AttrDesc.zero [67]
    [relNameAttr].length [relNameAttr] (some relNameAttr) .EQ []) s (.inr args) false s' := hy
  by_cases hi : 0 ≤ i
  swap
  · exact not_yields_QU_Select (not_le.mp hi) hy
  obtain ⟨n, rfl⟩ := Int.eq_ofNat_of_zero_le hi
  have hread : Reading False HA s := ⟨P, v, fvA, hc, hH, False.elim⟩
  have hname : IsName relNameAttr.relName := ⟨by decide, by decide⟩
  have hr := (QU_Select_spec N n hread htuples (fun a ha => List.mem_singleton.mp ha ▸ hname) hname
    (fun _ => AttrDesc.sized_zero) AttrDesc.sized_zero hdesc False.elim).of_yields hy
  rw [find?_desc_of_map hds n] at hr
  obtain ⟨args', hr, hzero, -⟩ := hr
  cases hr
  rw [hzero] at hreclen
  have hall : ∀ d ∈ (relations []).flatMap Relation.attrDescs, (0 : Int) ≠
    ([d].map AttrDesc.attrLen).sum := by
    decide
  exact hall _ (hlists.decode_mem hb) hreclen

end Minirel
