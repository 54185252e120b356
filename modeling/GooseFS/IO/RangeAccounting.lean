import GooseFS.IO.RangeCoalesce
import GooseFS.Lib.Covering

/-!
# Accounting of a coalescing plan

`total_input_bytes` adds up the inputs one by one, while a byte that several inputs ask
for is fetched once.  The totals of a plan therefore say what was fetched in vain only
where no two ranges that share a fetch overlap (`plan_accounts_iff`).

Which ranges share a fetch is said by `groups`, a walk over the sorted ranges that knows
nothing of fetches and slices; `plan_grouped` connects it to the plan.
-/

namespace GooseFS

open Lib

open List hiding Disjoint

namespace RangeCoalesce

/-! ## Ranges that share a fetch -/

def Input.stop (x : Input) : Nat := x.offset.toNat + x.len.toNat

/-- The sorted ranges `group ++ todo` by the fetch they share, where `group` reaches from
`start` to `stop`.  The next range joins it if it begins at most `gap` bytes behind it, and
if the group is then within the cap or no longer than it was. -/
def groupsFrom (gap cap : Nat) (group : List Input) (start stop : Nat) :
    List Input → List (List Input)
  | [] => [group]
  | x :: todo =>
    if x.offset.toNat ≤ stop + gap ∧ max stop x.stop - start ≤ max cap (stop - start) then
      groupsFrom gap cap (group ++ [x]) start (max stop x.stop) todo
    else group :: groupsFrom gap cap [x] x.offset.toNat x.stop todo

def groups (ranges : List (UInt64 × UInt64)) (gap maxBytes : UInt64) : List (List Input) :=
  match sortedInputs ranges with
  | [] => []
  | x :: todo => groupsFrom gap.toNat (max maxBytes.toNat 1) [x] x.offset.toNat x.stop todo

theorem flatten_groupsFrom {gap cap : Nat} : ∀ {todo group : List Input} {start stop : Nat},
    (groupsFrom gap cap group start stop todo).flatten = group ++ todo := by
  intro todo
  induction todo with
  | nil =>
    intro group start stop
    simp [groupsFrom]
  | cons x todo ih =>
    intro group start stop
    rw [groupsFrom]
    split
    · rw [ih, append_assoc, singleton_append]
    · rw [flatten_cons, ih, singleton_append]

theorem flatten_groups (ranges : List (UInt64 × UInt64)) (gap maxBytes : UInt64) :
    (groups ranges gap maxBytes).flatten = sortedInputs ranges := by
  unfold groups
  split
  case h_1 hnil => rw [hnil, flatten_nil]
  case h_2 x todo hcons => rw [hcons, flatten_groupsFrom, singleton_append]

/-- The inputs of the `k`-th group are assigned to the `k`-th fetch. -/
structure Grouped (gs : List (List Input)) (st : PlanState) : Prop where
  length : st.fetches.length = gs.length
  assigned : ∀ (k : Nat) (g : List Input), gs[k]? = some g →
    ∀ x ∈ g, ∃ off, st.slices[x.index]? = some ⟨some k, off, x.len⟩

section Grouped

variable {gs closed : List (List Input)} {group todo : List Input} {st : PlanState} {x : Input}
  {pre : List MergedFetch} {cur : MergedFetch} {bound : Nat} {gap cap : UInt64}

theorem Grouped.kept (h : Grouped gs st) (hnew : x.index ∉ gs.flatten.map Input.index)
    (s : SliceMap) {k : Nat} {g : List Input} (hg : gs[k]? = some g) {y : Input} (hy : y ∈ g) :
    ∃ off, (st.slices.set x.index s)[y.index]? = some ⟨some k, off, y.len⟩ := by
  obtain ⟨off, hoff⟩ := h.assigned k g hg y hy
  have hmem : y ∈ gs.flatten := mem_flatten_of_mem (mem_of_getElem? hg) hy
  have hne : x.index ≠ y.index := fun heq => hnew (heq ▸ mem_map_of_mem hmem)
  exact ⟨off, by rw [getElem?_set_ne hne, hoff]⟩

theorem Grouped.start (h : Grouped gs st) (hnew : x.index ∉ gs.flatten.map Input.index)
    (hlt : x.index < st.slices.length) : Grouped (gs ++ [[x]]) (startFetch st x) where
  length := by
    rw [startFetch, length_append, length_append, h.length]
    rfl
  assigned k g hg y hy := by
    rcases getElem?_concat_eq_some hg with hg | ⟨rfl, rfl⟩
    · exact h.kept hnew _ hg hy
    · rw [mem_singleton.mp hy, ← h.length]
      exact ⟨0, getElem?_set_self hlt⟩

theorem Grouped.join (h : Grouped (closed ++ [group]) st) (hsplit : st.fetches = pre ++ [cur])
    (hnew : x.index ∉ (closed ++ [group]).flatten.map Input.index)
    (hlt : x.index < st.slices.length) (grown : MergedFetch) (off : UInt64) :
    Grouped (closed ++ [group ++ [x]])
      ⟨pre ++ [grown], st.slices.set x.index ⟨some pre.length, off, x.len⟩⟩ where
  length := by
    have hlen := h.length
    rw [hsplit] at hlen
    simpa using hlen
  assigned k g hg y hy := by
    have hpre : pre.length = closed.length := by
      have hlen := h.length
      rw [hsplit] at hlen
      simpa using hlen
    rcases getElem?_concat_eq_some hg with hg | ⟨rfl, rfl⟩
    · have hold : (closed ++ [group])[k]? = some g := by
        rw [getElem?_append_left (List.getElem?_eq_some_iff.mp hg).1, hg]
      exact h.kept hnew _ hold hy
    · rcases mem_append.mp hy with hy | hy
      · exact h.kept hnew _ getElem?_concat_length hy
      · rw [mem_singleton.mp hy, hpre]
        exact ⟨off, getElem?_set_self hlt⟩

theorem le_saturatingAdd {a b c : UInt64} :
    a ≤ saturatingAdd b c ↔ a.toNat ≤ b.toNat + c.toNat := by
  have ha := a.toNat_lt
  unfold saturatingAdd
  split
  case isTrue h => rw [UInt64.le_iff_toNat_le, UInt64.toNat_add, Nat.mod_eq_of_lt h]
  case isFalse h =>
    have hmax : (UInt64.ofNat (2 ^ 64 - 1)).toNat = 2 ^ 64 - 1 := rfl
    rw [UInt64.le_iff_toNat_le, hmax]
    omega

/-- The test of the merging loop, on numbers that do not wrap. -/
theorem absorb_of_last (hbound : bound < 2 ^ 64) (hsplit : st.fetches = pre ++ [cur])
    (hcur : cur.Inside bound) (hx : x.Inside bound) :
    absorb gap cap st x =
      if x.offset.toNat ≤ cur.offset.toNat + cur.len.toNat + gap.toNat ∧
          max (cur.offset.toNat + cur.len.toNat) x.stop - cur.offset.toNat ≤
            max cap.toNat cur.len.toNat then
        ⟨pre ++ [⟨cur.offset, max (cur.offset + cur.len) (x.offset + x.len) - cur.offset⟩],
          st.slices.set x.index ⟨some pre.length, x.offset - cur.offset, x.len⟩⟩
      else startFetch st x := by
  unfold absorb
  simp only [hsplit, getLast?_concat, dropLast_concat, length_append,
    length_singleton, Nat.add_sub_cancel]
  refine if_congr (and_congr ?_ ?_) rfl rfl
  · rw [le_saturatingAdd, toNat_add_of_le hbound hcur]
  · rw [UInt64.le_iff_toNat_le, candidateLen_toNat hbound hcur hx, toNat_max]
    exact Iff.rfl

theorem foldl_absorb_grouped (hbound : bound < 2 ^ 64) : ∀ {todo : List Input}
    {closed : List (List Input)} {group : List Input} {st : PlanState} {pre : List MergedFetch}
    {cur : MergedFetch}, Grouped (closed ++ [group]) st → st.fetches = pre ++ [cur] →
    cur.Inside bound → (∀ x ∈ todo, x.Inside bound ∧ x.index < st.slices.length) →
    (((closed ++ [group]).flatten ++ todo).map Input.index).Nodup →
    Grouped (closed ++ groupsFrom gap.toNat cap.toNat group cur.offset.toNat
      (cur.offset.toNat + cur.len.toNat) todo) (todo.foldl (absorb gap cap) st) := by
  intro todo
  induction todo with
  | nil => exact fun h _ _ _ _ => h
  | cons x todo ih =>
    intro closed group st pre cur h hsplit hcur htodo hnodup
    obtain ⟨hx, hlt⟩ := htodo x (mem_cons_self ..)
    have hnew : x.index ∉ (closed ++ [group]).flatten.map Input.index := by
      rw [map_append] at hnodup
      exact fun hmem => disjoint_of_nodup_append hnodup hmem (mem_cons_self ..)
    have hrest : ∀ y ∈ todo, y.Inside bound ∧ y.index < (absorb gap cap st x).slices.length := by
      obtain ⟨k, off, hslices⟩ := absorb_slices gap cap st x
      rw [hslices, length_set]
      exact fun y hy => htodo y (mem_cons_of_mem _ hy)
    rw [append_cons] at hnodup
    rw [foldl_cons, groupsFrom, Nat.add_sub_cancel_left]
    rw [absorb_of_last hbound hsplit hcur hx] at hrest ⊢
    split
    case isTrue hjoin =>
      rw [if_pos hjoin] at hrest
      have hlen := candidateLen_toNat hbound hcur hx
      have hstop : cur.offset.toNat + (max (cur.offset + cur.len) (x.offset + x.len) -
          cur.offset).toNat = max (cur.offset.toNat + cur.len.toNat) x.stop := by
        rw [hlen]
        unfold Input.stop
        omega
      have hgrown : MergedFetch.Inside bound
          ⟨cur.offset, max (cur.offset + cur.len) (x.offset + x.len) - cur.offset⟩ := by
        rw [MergedFetch.Inside, hstop]
        exact Nat.max_le.mpr ⟨hcur, hx⟩
      rw [← hstop]
      refine ih (h.join hsplit hnew hlt _ _) rfl hgrown hrest ?_
      simpa using hnodup
    case isFalse hfar =>
      rw [if_neg hfar] at hrest
      rw [append_cons]
      refine ih (h.start hnew hlt) rfl hx hrest ?_
      simpa using hnodup

end Grouped

theorem plan_grouped {ranges : List (UInt64 × UInt64)}
    (hends : ∀ r ∈ ranges, r.1.toNat + r.2.toNat < 2 ^ 64) (gap maxBytes : UInt64) :
    Grouped (groups ranges gap maxBytes)
      ⟨(plan ranges gap maxBytes).fetches, (plan ranges gap maxBytes).slices⟩ := by
  have hsorted : ∀ x ∈ sortedInputs ranges,
      x.Inside (2 ^ 64 - 1) ∧ x.index < (startState ranges).slices.length := by
    intro x hx
    have hend := hends _ (mem_of_getElem? (mem_sortedInputs.mp hx).1)
    refine ⟨Nat.le_sub_one_of_lt hend, ?_⟩
    rw [(start_shape ranges).length]
    exact sortedInputs_index_lt hx
  have hnodup := sortedInputs_nodup ranges
  unfold groups plan
  rcases hcases : sortedInputs ranges with _ | ⟨x, todo⟩
  · exact ⟨rfl, fun k g hg => by cases hg⟩
  · rw [hcases] at hsorted hnodup
    obtain ⟨hx, hlt⟩ := hsorted x (mem_cons_self ..)
    have hfirst : Grouped ([] ++ [[x]]) (startFetch (startState ranges) x) :=
      Grouped.start ⟨rfl, fun k g hg => by cases hg⟩ not_mem_nil hlt
    have hcap : (max maxBytes 1).toNat = max maxBytes.toNat 1 := toNat_max maxBytes 1
    rw [← hcap]
    refine foldl_absorb_grouped (by decide) hfirst rfl hx ?_ hnodup
    intro y hy
    obtain ⟨hin, hylt⟩ := hsorted y (mem_cons_of_mem _ hy)
    exact ⟨hin, by rw [startFetch, length_set]; exact hylt⟩

/-! ## Bytes -/

def Input.bytes (x : Input) : Finset Nat := Finset.Ico x.offset.toNat x.stop

variable (ranges : List (UInt64 × UInt64)) (p : CoalescePlan)

def inputBytes (i : Fin ranges.length) : Finset Nat :=
  Finset.Ico ranges[i.val].1.toNat (ranges[i.val].1.toNat + ranges[i.val].2.toNat)

def MergedFetch.bytes (f : MergedFetch) : Finset Nat :=
  Finset.Ico f.offset.toNat (f.offset.toNat + f.len.toNat)

def fetchOf (i : Fin ranges.length) : Option (Fin p.fetches.length) :=
  (p.slices[i.val]?.bind SliceMap.fetchIndex).bind fun k =>
    if h : k < p.fetches.length then some ⟨k, h⟩ else none

/-- The bytes of a fetch that belong to none of the inputs assigned to it. -/
def unusedBytes (k : Fin p.fetches.length) : Finset Nat :=
  p.fetches[k.val].bytes.filter fun b =>
    ∀ i, fetchOf ranges p i = some k → b ∉ inputBytes ranges i

/-- The totals are what the documentation of the plan says. -/
def Accounts : Prop :=
  p.totalInputBytes ≤ p.totalFetchBytes ∧ p.wastedBytes.toNat = ∑ k, (unusedBytes ranges p k).card

structure NoOverflow : Prop where
  ends : ∀ r ∈ ranges, r.1.toNat + r.2.toNat < 2 ^ 64
  input : (ranges.map fun r => r.2.toNat).sum < 2 ^ 64
  fetch : (p.fetches.map fun f => f.len.toNat).sum < 2 ^ 64

variable {ranges} {p}

theorem sum_toNat {β : Type} (f : β → UInt64) : ∀ {xs : List β},
    (xs.map fun x => (f x).toNat).sum < 2 ^ 64 →
      (xs.map f).sum.toNat = (xs.map fun x => (f x).toNat).sum := by
  intro xs
  induction xs with
  | nil => intro _; rfl
  | cons x xs ih =>
    intro h
    rw [map_cons, sum_cons] at h ⊢
    rw [map_cons, sum_cons, UInt64.toNat_add, ih (by omega), Nat.mod_eq_of_lt h]

theorem card_inputBytes : ∑ i, (inputBytes ranges i).card = (ranges.map fun r => r.2.toNat).sum := by
  rw [← Fin.sum_univ_fun_getElem]
  refine Finset.sum_congr rfl fun i _ => ?_
  rw [inputBytes, Nat.card_Ico, Nat.add_sub_cancel_left]

theorem card_fetchBytes : ∑ k : Fin p.fetches.length, p.fetches[k.val].bytes.card =
      (p.fetches.map fun f => f.len.toNat).sum := by
  rw [← Fin.sum_univ_fun_getElem]
  refine Finset.sum_congr rfl fun k _ => ?_
  rw [MergedFetch.bytes, Nat.card_Ico, Nat.add_sub_cancel_left]

theorem unusedBytes_eq (k : Fin p.fetches.length) : unusedBytes ranges p k =
      leftover (fetchOf ranges p) (inputBytes ranges) (fun k => p.fetches[k.val].bytes) k := by
  ext b
  simp [unusedBytes, leftover, tenants]

theorem wastedBytes_toNat (h : p.totalInputBytes ≤ p.totalFetchBytes) :
    p.wastedBytes.toNat = p.totalFetchBytes.toNat - p.totalInputBytes.toNat := by
  rw [CoalescePlan.wastedBytes, if_pos h, UInt64.toNat_sub_of_le _ _ h]

variable (gap maxBytes : UInt64)

theorem plan_fetchOf (hends : ∀ r ∈ ranges, r.1.toNat + r.2.toNat < 2 ^ 64)
    (i : Fin ranges.length) :
    (fetchOf ranges (plan ranges gap maxBytes) i = none → inputBytes ranges i = ∅) ∧
      ∀ k, fetchOf ranges (plan ranges gap maxBytes) i = some k →
        inputBytes ranges i ⊆ (plan ranges gap maxBytes).fetches[k.val].bytes := by
  have hserves := plan_serves ranges gap maxBytes hends
  have hget : ranges[i.val]? = some ranges[i.val] := getElem?_eq_getElem i.isLt
  by_cases hpos : 0 < ranges[i.val].2
  · obtain ⟨k, off, f, hslice, hfetch, hstart, hend⟩ := hserves.contained i.val _ hget hpos
    obtain ⟨hk, hf⟩ := List.getElem?_eq_some_iff.mp hfetch
    have hof : fetchOf ranges (plan ranges gap maxBytes) i = some ⟨k, hk⟩ := by
      rw [fetchOf, hslice]
      exact dif_pos hk
    rw [hof]
    refine ⟨fun h => (by cases h), fun k' hk' => ?_⟩
    cases hk'
    show inputBytes ranges i ⊆ MergedFetch.bytes _
    rw [hf]
    refine Finset.Ico_subset_Ico ?_ ?_
    · omega
    · omega
  · have hzero : ranges[i.val].2.toNat = 0 := Nat.eq_zero_of_not_pos hpos
    have hempty : inputBytes ranges i = ∅ := by
      rw [inputBytes, hzero, Nat.add_zero, Finset.Ico_self]
    exact ⟨fun _ => hempty, fun k _ => hempty ▸ Finset.empty_subset _⟩

theorem fetchOf_eq_some_iff (hends : ∀ r ∈ ranges, r.1.toNat + r.2.toNat < 2 ^ 64)
    (i : Fin ranges.length) (k : Fin (plan ranges gap maxBytes).fetches.length) :
    fetchOf ranges (plan ranges gap maxBytes) i = some k ↔
      ∃ g, (groups ranges gap maxBytes)[k.val]? = some g ∧
        ∃ x ∈ g, x.index = i.val ∧ x.bytes = inputBytes ranges i := by
  have hgrouped := plan_grouped hends gap maxBytes
  have hassigned : ∀ {k g x}, (groups ranges gap maxBytes)[k]? = some g → x ∈ g → x.index = i.val →
      ∀ k' : Fin (plan ranges gap maxBytes).fetches.length,
        fetchOf ranges (plan ranges gap maxBytes) i = some k' ↔ k = k'.val := by
    intro k g x hg hx hi k'
    obtain ⟨off, hslice⟩ := hgrouped.assigned k g hg x hx
    have hlt : k < (plan ranges gap maxBytes).fetches.length :=
      hgrouped.length ▸ (List.getElem?_eq_some_iff.mp hg).1
    rw [fetchOf, ← hi, show (plan ranges gap maxBytes).slices[x.index]? = _ from hslice]
    simp [hlt, Fin.ext_iff]
  constructor
  · intro hof
    have hpos : 0 < ranges[i.val].2 := by
      by_contra hzero
      have hget : ranges[i.val]? = some ranges[i.val] := getElem?_eq_getElem i.isLt
      have hslice := ((plan_slices_shape ranges gap maxBytes).2 _ _ hget).2 hzero
      rw [fetchOf, hslice] at hof
      cases hof
    have hmem : ⟨i.val, ranges[i.val].1, ranges[i.val].2⟩ ∈ (groups ranges gap maxBytes).flatten := by
      rw [flatten_groups]
      exact mem_sortedInputs.mpr ⟨getElem?_eq_getElem i.isLt, hpos⟩
    obtain ⟨g, hg, hx⟩ := mem_flatten.mp hmem
    obtain ⟨n, hn⟩ := mem_iff_getElem?.mp hg
    obtain rfl := (hassigned hn hx rfl k).mp hof
    exact ⟨g, hn, _, hx, rfl, rfl⟩
  · rintro ⟨g, hg, x, hx, hi, _⟩
    exact (hassigned hg hx hi k).mpr rfl

theorem accounts_iff_fetchOf (h : NoOverflow ranges (plan ranges gap maxBytes)) :
    Accounts ranges (plan ranges gap maxBytes) ↔
      ∀ i j k, i ≠ j → fetchOf ranges (plan ranges gap maxBytes) i = some k →
        fetchOf ranges (plan ranges gap maxBytes) j = some k →
          Disjoint (inputBytes ranges i) (inputBytes ranges j) := by
  have hinput : (plan ranges gap maxBytes).totalInputBytes.toNat =
      ∑ i, (inputBytes ranges i).card := by
    rw [card_inputBytes]
    exact sum_toNat Prod.snd h.input
  have hfetch : (plan ranges gap maxBytes).totalFetchBytes.toNat =
      ∑ k : Fin (plan ranges gap maxBytes).fetches.length,
        (plan ranges gap maxBytes).fetches[k.val].bytes.card := by
    rw [card_fetchBytes]
    exact sum_toNat MergedFetch.len h.fetch
  have hof := plan_fetchOf gap maxBytes h.ends
  have hiff := leftover_iff (fun i => (hof i).1) fun i k => (hof i).2 k
  have haccounts : Accounts ranges (plan ranges gap maxBytes) ↔ _ :=
    and_congr_right fun hle => by rw [wastedBytes_toNat hle]
  rw [haccounts, UInt64.le_iff_toNat_le, hinput, hfetch]
  simp only [unusedBytes_eq]
  rw [hiff]
  constructor
  · intro hdisjoint i j k hne hi hj
    exact hdisjoint k (Finset.mem_coe.mpr (Finset.mem_filter.mpr ⟨Finset.mem_univ i, hi⟩))
      (Finset.mem_coe.mpr (Finset.mem_filter.mpr ⟨Finset.mem_univ j, hj⟩)) hne
  · intro hdisjoint k i hi j hj hne
    exact hdisjoint i j k hne (Finset.mem_filter.mp (Finset.mem_coe.mp hi)).2
      (Finset.mem_filter.mp (Finset.mem_coe.mp hj)).2

/-- The accounting is right exactly if no two ranges that share a fetch overlap. -/
theorem plan_accounts_iff (h : NoOverflow ranges (plan ranges gap maxBytes)) :
    Accounts ranges (plan ranges gap maxBytes) ↔
      ∀ g ∈ groups ranges gap maxBytes, g.Pairwise fun x y => Disjoint x.bytes y.bytes := by
  rw [accounts_iff_fetchOf gap maxBytes h]
  have hof := fetchOf_eq_some_iff gap maxBytes h.ends
  have hinput : ∀ x ∈ (groups ranges gap maxBytes).flatten, ∃ i : Fin ranges.length,
      x.index = i.val ∧ x.bytes = inputBytes ranges i := by
    intro x hx
    rw [flatten_groups] at hx
    obtain ⟨hget, _⟩ := mem_sortedInputs.mp hx
    obtain ⟨hlt, hval⟩ := List.getElem?_eq_some_iff.mp hget
    exact ⟨⟨x.index, hlt⟩, rfl, by rw [inputBytes, hval]; rfl⟩
  constructor
  · intro hdisjoint g hg
    obtain ⟨n, hn⟩ := mem_iff_getElem?.mp hg
    have hlt : n < (plan ranges gap maxBytes).fetches.length :=
      (plan_grouped h.ends gap maxBytes).length ▸ (List.getElem?_eq_some_iff.mp hn).1
    have hnodup : (g.map Input.index).Nodup := by
      have hall := sortedInputs_nodup ranges
      rw [← flatten_groups ranges gap maxBytes] at hall
      exact hall.sublist ((sublist_flatten_of_mem hg).map _)
    refine (pairwise_map.mp hnodup).imp_of_mem fun {x y} hx hy hne => ?_
    obtain ⟨i, hi, hxi⟩ := hinput x (mem_flatten_of_mem hg hx)
    obtain ⟨j, hj, hyj⟩ := hinput y (mem_flatten_of_mem hg hy)
    rw [hxi, hyj]
    refine hdisjoint i j ⟨n, hlt⟩ (fun heq => hne ?_) ((hof i _).mpr ⟨g, hn, x, hx, hi, hxi⟩)
      ((hof j _).mpr ⟨g, hn, y, hy, hj, hyj⟩)
    rw [hi, hj, heq]
  · intro hgroups i j k hne hi hj
    obtain ⟨g, hg, x, hx, hxi, hxbytes⟩ := (hof i k).mp hi
    obtain ⟨g', hg', y, hy, hyj, hybytes⟩ := (hof j k).mp hj
    obtain rfl : g = g' := Option.some.inj (hg.symm.trans hg')
    have hsymm : Std.Symm fun x y : Input => Disjoint x.bytes y.bytes :=
      ⟨fun _ _ h => h.symm⟩
    rw [← hxbytes, ← hybytes]
    refine (hgroups g (mem_of_getElem? hg)).forall hx hy fun heq => hne (Fin.ext ?_)
    rw [← hxi, ← hyj, heq]

theorem plan_accounts_gap : Accounts [(0, 10), (12, 4)] (plan [(0, 10), (12, 4)] 4 64) := by
  have h : NoOverflow [(0, 10), (12, 4)] (plan [(0, 10), (12, 4)] 4 64) :=
    ⟨by simp, by simp, by decide +kernel⟩
  have hgroups : groups [(0, 10), (12, 4)] 4 64 = [[⟨0, 0, 10⟩, ⟨1, 12, 4⟩]] := by decide +kernel
  refine (plan_accounts_iff 4 64 h).mpr ?_
  rw [hgroups]
  decide +kernel

/-- A range asked for twice is fetched once, so the plan reports more input than it fetches.
With a gap behind it the waste is short of the bytes asked for twice. -/
theorem plan_duplicates :
    (plan [(0, 10), (0, 10)] 4 64).totalFetchBytes < (plan [(0, 10), (0, 10)] 4 64).totalInputBytes ∧
      (plan [(0, 2), (0, 2), (10, 1)] 8 64).wastedBytes = 6 ∧
      (∑ k, (unusedBytes [(0, 2), (0, 2), (10, 1)]
        (plan [(0, 2), (0, 2), (10, 1)] 8 64) k).card) = 8 := by
  decide +kernel

end RangeCoalesce

end GooseFS
