import Mathlib.Data.List.Sort
import Mathlib.Data.UInt
import GooseFS.Error
import GooseFS.Lib.ListOrder

/-!
# Range coalescing

The planner that merges nearby `(offset, len)` ranges into fewer fetches and
remembers where each input lies in its fetch.  Offsets and lengths are `u64`, so
sums wrap as they do in the source.
-/

namespace GooseFS

open List UInt64

namespace RangeCoalesce

/-- Where an input range lies inside a merged fetch.  `fetchIndex = none` stands
for the source's `NO_FETCH`. -/
structure SliceMap where
  fetchIndex : Option Nat
  offsetInFetch : UInt64
  len : UInt64
  deriving DecidableEq, Repr

structure MergedFetch where
  offset : UInt64
  len : UInt64
  deriving DecidableEq, Repr

structure CoalescePlan where
  fetches : List MergedFetch
  slices : List SliceMap
  totalInputBytes : UInt64
  totalFetchBytes : UInt64
  deriving DecidableEq, Repr

def CoalescePlan.wastedBytes (p : CoalescePlan) : UInt64 :=
  if p.totalInputBytes ≤ p.totalFetchBytes then p.totalFetchBytes - p.totalInputBytes else 0

structure Input where
  index : Nat
  offset : UInt64
  len : UInt64
  deriving DecidableEq, Repr

def saturatingAdd (a b : UInt64) : UInt64 :=
  if a.toNat + b.toNat < 2 ^ 64 then a + b else ofNat (2 ^ 64 - 1)

def sortedInputs (ranges : List (UInt64 × UInt64)) : List Input :=
  ((ranges.zipIdx.filter fun x => 0 < x.1.2).map fun x => ⟨x.2, x.1.1, x.1.2⟩).insertionSort
    fun a b => a.offset ≤ b.offset

structure PlanState where
  fetches : List MergedFetch
  slices : List SliceMap
  deriving DecidableEq, Repr

def startFetch (st : PlanState) (x : Input) : PlanState :=
  { fetches := st.fetches ++ [⟨x.offset, x.len⟩]
    slices := st.slices.set x.index ⟨some st.fetches.length, 0, x.len⟩ }

/-- One turn of the merging loop.  The first input finds no fetch to join. -/
def absorb (gap maxBytes : UInt64) (st : PlanState) (x : Input) : PlanState :=
  match st.fetches.getLast? with
  | none => startFetch st x
  | some cur =>
    let curEnd := cur.offset + cur.len
    let candidateEnd := max curEnd (x.offset + x.len)
    let candidateLen := candidateEnd - cur.offset
    let withinGap := x.offset ≤ saturatingAdd curEnd gap
    let withinCap := candidateLen ≤ max maxBytes cur.len
    if withinGap ∧ withinCap then
      { fetches := st.fetches.dropLast ++ [⟨cur.offset, candidateLen⟩]
        slices := st.slices.set x.index
          ⟨some (st.fetches.length - 1), x.offset - cur.offset, x.len⟩ }
    else startFetch st x

def emptySlice : SliceMap := ⟨none, 0, 0⟩

def startState (ranges : List (UInt64 × UInt64)) : PlanState :=
  { fetches := [], slices := ranges.map fun _ => emptySlice }

def plan (ranges : List (UInt64 × UInt64)) (gap maxBytes : UInt64) : CoalescePlan :=
  let st := (sortedInputs ranges).foldl (absorb gap (max maxBytes 1)) (startState ranges)
  { fetches := st.fetches, slices := st.slices,
    totalInputBytes := (ranges.map Prod.snd).sum,
    totalFetchBytes := (st.fetches.map MergedFetch.len).sum }

variable {done : List Input} {maxBytes : UInt64} {n : Nat} {ranges : List (UInt64 × UInt64)}
  {st : PlanState} {x : Input}

theorem mem_sortedInputs :
    x ∈ sortedInputs ranges ↔ ranges[x.index]? = some (x.offset, x.len) ∧ 0 < x.len := by
  rw [sortedInputs, mem_insertionSort, mem_map]
  constructor
  · rintro ⟨⟨⟨off, len⟩, i⟩, hmem, rfl⟩
    obtain ⟨hzip, hlen⟩ := mem_filter.mp hmem
    exact ⟨mem_zipIdx_iff_getElem?.mp hzip, of_decide_eq_true hlen⟩
  · rintro ⟨hget, hlen⟩
    exact ⟨((x.offset, x.len), x.index),
      mem_filter.mpr ⟨mem_zipIdx_iff_getElem?.mpr hget, decide_eq_true hlen⟩, rfl⟩

theorem sortedInputs_pairwise (ranges : List (UInt64 × UInt64)) :
    (sortedInputs ranges).Pairwise fun a b => a.offset ≤ b.offset :=
  pairwise_insertionSort (fun a b : Input => a.offset ≤ b.offset) _

theorem sortedInputs_nodup (ranges : List (UInt64 × UInt64)) :
    ((sortedInputs ranges).map Input.index).Nodup := by
  have hperm : ((sortedInputs ranges).map Input.index).Perm
      ((ranges.zipIdx.filter fun x => 0 < x.1.2).map Prod.snd) := by
    have h := (perm_insertionSort (fun a b : Input => a.offset ≤ b.offset)
      ((ranges.zipIdx.filter fun x => 0 < x.1.2).map fun x => ⟨x.2, x.1.1, x.1.2⟩)).map Input.index
    rw [map_map] at h
    exact h
  rw [hperm.nodup_iff]
  have hall : (ranges.zipIdx.map Prod.snd).Nodup := by
    rw [zipIdx_map_snd]
    exact nodup_range'
  exact hall.sublist (filter_sublist.map _)

/-! ## The merging loop -/

theorem absorb_cases (gap maxBytes : UInt64) (st : PlanState) (x : Input) :
    absorb gap maxBytes st x = startFetch st x ∨ ∃ pre cur, st.fetches = pre ++ [cur] ∧
        max (cur.offset + cur.len) (x.offset + x.len) - cur.offset ≤ max maxBytes cur.len ∧
        absorb gap maxBytes st x =
          { fetches := pre ++ [⟨cur.offset,
              max (cur.offset + cur.len) (x.offset + x.len) - cur.offset⟩]
            slices := st.slices.set x.index ⟨some pre.length, x.offset - cur.offset, x.len⟩ } := by
  rw [absorb]
  cases hlast : st.fetches.getLast? with
  | none => exact .inl rfl
  | some cur =>
    simp only
    split
    case isTrue hjoin =>
      have hsplit : st.fetches = st.fetches.dropLast ++ [cur] :=
        (dropLast_append_getLast? cur hlast).symm
      refine .inr ⟨st.fetches.dropLast, cur, hsplit, hjoin.2, ?_⟩
      rw [length_dropLast]
    case isFalse => exact .inl rfl

theorem sortedInputs_index_lt (hx : x ∈ sortedInputs ranges) : x.index < ranges.length :=
  (List.getElem?_eq_some_iff.mp (mem_sortedInputs.mp hx).1).1

theorem absorb_slices (gap maxBytes : UInt64) (st : PlanState) (x : Input) :
    ∃ k off, (absorb gap maxBytes st x).slices = st.slices.set x.index ⟨some k, off, x.len⟩ := by
  rcases absorb_cases gap maxBytes st x with h | ⟨pre, cur, _, _, h⟩
  · exact ⟨_, _, by rw [h]; rfl⟩
  · exact ⟨_, _, by rw [h]⟩

/-- What the merging loop keeps of the inputs it has absorbed holds of them all.  The
next input is new and begins behind them. -/
theorem foldl_absorb_invariant {P : List Input → PlanState → Prop} (gap maxBytes : UInt64)
    (hstart : P [] (startState ranges))
    (hstep : ∀ {done : List Input} {x : Input} {st : PlanState}, x ∈ sortedInputs ranges →
      x.index ∉ done.map Input.index → (∀ y ∈ done, y.offset ≤ x.offset) →
      x.index < st.slices.length → P done st → P (done ++ [x]) (absorb gap maxBytes st x)) :
    P (sortedInputs ranges)
      ((sortedInputs ranges).foldl (absorb gap maxBytes) (startState ranges)) := by
  have hfold : ∀ (todo done : List Input) (st : PlanState), done ++ todo = sortedInputs ranges →
      st.slices.length = ranges.length → P done st →
        P (sortedInputs ranges) (todo.foldl (absorb gap maxBytes) st) := by
    intro todo
    induction todo with
    | nil =>
      intro done st hall _ h
      rw [append_nil] at hall
      exact hall ▸ h
    | cons x todo ih =>
      intro done st hall hlen h
      have hx : x ∈ sortedInputs ranges := hall ▸ mem_append_right _ mem_cons_self
      have hnodup := sortedInputs_nodup ranges
      have hsorted := sortedInputs_pairwise ranges
      rw [← hall, map_append] at hnodup
      rw [← hall] at hsorted
      obtain ⟨k, off, hslices⟩ := absorb_slices gap maxBytes st x
      refine ih (done ++ [x]) _ (by rw [← hall, append_assoc, singleton_append])
        (by rw [hslices, length_set, hlen]) (hstep hx ?_ ?_ ?_ h)
      · exact fun hmem => disjoint_of_nodup_append hnodup hmem mem_cons_self
      · exact fun y hy => (pairwise_append.mp hsorted).2.2 y hy x mem_cons_self
      · rw [hlen]
        exact sortedInputs_index_lt hx
  exact hfold _ [] _ rfl (length_map ..) hstart

/-! ## The slice map -/

/-- Processed inputs have a slice of their own length in some fetch; the places
of all others are still empty. -/
structure Shape (n : Nat) (done : List Input) (st : PlanState) : Prop where
  length : st.slices.length = n
  assigned : ∀ x ∈ done, ∃ k off, st.slices[x.index]? = some ⟨some k, off, x.len⟩
  free : ∀ i < n, i ∉ done.map Input.index → st.slices[i]? = some emptySlice

theorem absorb_shape (gap maxBytes : UInt64) (h : Shape n done st) (hx : x.index < st.slices.length)
    (hnew : x.index ∉ done.map Input.index) : Shape n (done ++ [x]) (absorb gap maxBytes st x) := by
  obtain ⟨k, off, hslices⟩ := absorb_slices gap maxBytes st x
  refine ⟨by rw [hslices, length_set, h.length], fun y hy => ?_, fun i hi hni => ?_⟩
  · rcases mem_append.mp hy with hy | hy
    · obtain ⟨k', off', hk'⟩ := h.assigned y hy
      have hne : x.index ≠ y.index := fun he => hnew (he ▸ mem_map_of_mem hy)
      exact ⟨k', off', by rw [hslices, getElem?_set_ne hne, hk']⟩
    · rw [mem_singleton.mp hy, hslices]
      exact ⟨k, off, getElem?_set_self hx⟩
  · rw [map_append, mem_append, not_or] at hni
    have hne : x.index ≠ i := fun he => hni.2 (he ▸ mem_map_of_mem (mem_singleton_self x))
    rw [hslices, getElem?_set_ne hne]
    exact h.free i hi hni.1

theorem start_shape (ranges : List (UInt64 × UInt64)) :
    Shape ranges.length [] (startState ranges) where
  length := length_map ..
  assigned := by simp
  free := fun i hi _ => by rw [startState, getElem?_map, getElem?_eq_getElem hi]; rfl

/-- Every input has one slice, at its own place: of its own length in a fetch
when it is not empty, and none otherwise. -/
theorem plan_slices_shape (ranges : List (UInt64 × UInt64)) (gap maxBytes : UInt64) :
    (plan ranges gap maxBytes).slices.length = ranges.length ∧
      ∀ (i : Nat) (r : UInt64 × UInt64), ranges[i]? = some r →
        (0 < r.2 → ∃ k off, (plan ranges gap maxBytes).slices[i]? = some ⟨some k, off, r.2⟩) ∧
        (¬ 0 < r.2 → (plan ranges gap maxBytes).slices[i]? = some emptySlice) := by
  have hshape := foldl_absorb_invariant gap (max maxBytes 1) (start_shape ranges)
    fun _ hnew _ hlt h => absorb_shape gap _ h hlt hnew
  refine ⟨hshape.length, fun i r hr => ⟨fun hpos => ?_, fun hzero => ?_⟩⟩
  · exact hshape.assigned ⟨i, r.1, r.2⟩ (mem_sortedInputs.mpr ⟨hr, hpos⟩)
  · refine hshape.free i (List.getElem?_eq_some_iff.mp hr).1 fun hmem => hzero ?_
    obtain ⟨x, hx, hxi⟩ := List.mem_map.mp hmem
    obtain ⟨hget, hpos⟩ := mem_sortedInputs.mp hx
    rw [hxi, hr] at hget
    cases hget
    exact hpos

/-! ## Inputs inside a bound

As long as no input reaches past a bound below `2 ^ 64`, nothing wraps and every
fetch contains the inputs assigned to it. -/

/-- `x` lies in its fetch where its slice says. -/
def Placed (st : PlanState) (x : Input) : Prop :=
  ∃ k off f, st.slices[x.index]? = some ⟨some k, off, x.len⟩ ∧ st.fetches[k]? = some f ∧
    f.offset.toNat + off.toNat = x.offset.toNat ∧ off.toNat + x.len.toNat ≤ f.len.toNat

def MergedFetch.Inside (bound : Nat) (f : MergedFetch) : Prop :=
  f.offset.toNat + f.len.toNat ≤ bound

def Input.Inside (bound : Nat) (x : Input) : Prop := x.offset.toNat + x.len.toNat ≤ bound

theorem toNat_max (a b : UInt64) : (max a b).toNat = max a.toNat b.toNat := by
  have hmax : max a b = if a ≤ b then b else a := rfl
  rw [hmax]
  split
  · exact (Nat.max_eq_right (le_iff_toNat_le.mp ‹_›)).symm
  · have h := le_iff_toNat_le.not.mp ‹_›
    omega

theorem toNat_add_of_le {a b : UInt64} {bound : Nat} (hbound : bound < 2 ^ 64)
    (h : a.toNat + b.toNat ≤ bound) : (a + b).toNat = a.toNat + b.toNat := by
  rw [UInt64.toNat_add, Nat.mod_eq_of_lt (by omega)]

section Bound

variable {bound : Nat} {st : PlanState} {x : Input} (gap maxBytes : UInt64) {cur : MergedFetch}

theorem candidateLen_toNat (hbound : bound < 2 ^ 64) (hcur : cur.Inside bound) (hx : x.Inside bound) :
    (max (cur.offset + cur.len) (x.offset + x.len) - cur.offset).toNat =
      max (cur.offset.toNat + cur.len.toNat) (x.offset.toNat + x.len.toNat) -
        cur.offset.toNat := by
  have hcurEnd := toNat_add_of_le hbound hcur
  have hxEnd := toNat_add_of_le hbound hx
  have hmax : (max (cur.offset + cur.len) (x.offset + x.len)).toNat =
      max (cur.offset.toNat + cur.len.toNat) (x.offset.toNat + x.len.toNat) := by
    rw [toNat_max, hcurEnd, hxEnd]
  have hoff : cur.offset ≤ max (cur.offset + cur.len) (x.offset + x.len) := by
    rw [le_iff_toNat_le, hmax]
    omega
  rw [UInt64.toNat_sub_of_le _ _ hoff, hmax]

/-- `x` has been given its place, and no input placed before has lost its own. -/
structure Absorbed (bound : Nat) (st : PlanState) (x : Input) (st' : PlanState) : Prop where
  inside : ∀ f ∈ st'.fetches, f.Inside bound
  last : ∀ cur ∈ st'.fetches.getLast?, cur.offset ≤ x.offset
  placed : Placed st' x
  keeps : ∀ y, y.index ≠ x.index → Placed st y → Placed st' y

theorem absorbed_startFetch (hfetches : ∀ f ∈ st.fetches, f.Inside bound) (hx : x.Inside bound)
    (hlt : x.index < st.slices.length) : Absorbed bound st x (startFetch st x) where
  inside := by
    intro f hf
    rcases mem_append.mp hf with hf | hf
    · exact hfetches f hf
    · rw [mem_singleton.mp hf]
      exact hx
  last := by
    intro cur hcur
    rw [startFetch, getLast?_concat] at hcur
    cases hcur
    exact UInt64.le_refl _
  placed := by
    refine ⟨st.fetches.length, 0, ⟨x.offset, x.len⟩, getElem?_set_self hlt, ?_, rfl, ?_⟩
    · exact getElem?_concat_length
    · exact Nat.le_of_eq (Nat.zero_add _)
  keeps := by
    rintro y hne ⟨k, off, f, hs, hf, hoff, hlen⟩
    refine ⟨k, off, f, ?_, ?_, hoff, hlen⟩
    · exact (getElem?_set_ne hne.symm).trans hs
    · exact (List.getElem?_append_left (List.getElem?_eq_some_iff.mp hf).1).trans hf

variable (hbound : bound < 2 ^ 64)
include hbound

theorem absorbed_grown {pre : List MergedFetch} (hsplit : st.fetches = pre ++ [cur])
    (hfetches : ∀ f ∈ st.fetches, f.Inside bound) (hx : x.Inside bound)
    (hle : cur.offset ≤ x.offset) (hlt : x.index < st.slices.length) : Absorbed bound st x
      { fetches := pre ++ [⟨cur.offset, max (cur.offset + cur.len) (x.offset + x.len) - cur.offset⟩]
        slices := st.slices.set x.index ⟨some pre.length, x.offset - cur.offset, x.len⟩ } := by
  have hcur : cur.Inside bound := hfetches cur (hsplit ▸ mem_append_right _ (by simp))
  have hlen := candidateLen_toNat hbound hcur hx
  have hcurEnd : cur.offset.toNat + cur.len.toNat ≤ bound := hcur
  have hxEnd : x.offset.toNat + x.len.toNat ≤ bound := hx
  have hoffs := le_iff_toNat_le.mp hle
  refine ⟨?_, ?_, ?_, ?_⟩
  · intro f hf
    rcases mem_append.mp hf with hf | hf
    · exact hfetches f (hsplit ▸ mem_append_left _ hf)
    · rw [mem_singleton.mp hf, MergedFetch.Inside, hlen]
      simp only
      omega
  · intro f hf
    rw [getLast?_concat] at hf
    cases hf
    exact hle
  · refine ⟨pre.length, x.offset - cur.offset, _, getElem?_set_self hlt,
      getElem?_concat_length, ?_, ?_⟩
    · rw [UInt64.toNat_sub_of_le _ _ hle]
      simp only
      omega
    · rw [UInt64.toNat_sub_of_le _ _ hle, hlen]
      omega
  · rintro y hne ⟨k, off, f, hs, hf, hoff, hflen⟩
    have hs' : (st.slices.set x.index ⟨some pre.length, x.offset - cur.offset, x.len⟩)[y.index]? =
        some ⟨some k, off, y.len⟩ := by
      rw [getElem?_set_ne hne.symm, hs]
    rw [hsplit] at hf
    rcases Lib.getElem?_concat_eq_some hf with hf | ⟨rfl, rfl⟩
    · refine ⟨k, off, f, hs', ?_, hoff, hflen⟩
      rw [List.getElem?_append_left (List.getElem?_eq_some_iff.mp hf).1]
      exact hf
    · -- `y` lies in the fetch that grows
      refine ⟨pre.length, off, _, hs', List.getElem?_concat_length, hoff, ?_⟩
      rw [hlen]
      omega

theorem absorb_absorbed (hfetches : ∀ f ∈ st.fetches, f.Inside bound) (hx : x.Inside bound)
    (hlast : ∀ cur ∈ st.fetches.getLast?, cur.offset ≤ x.offset) (hlt : x.index < st.slices.length) :
    Absorbed bound st x (absorb gap maxBytes st x) := by
  rcases absorb_cases gap maxBytes st x with h | ⟨pre, cur, hsplit, _, h⟩
  · rw [h]
    exact absorbed_startFetch hfetches hx hlt
  · have hle : cur.offset ≤ x.offset := hlast cur (by rw [hsplit, getLast?_concat]; rfl)
    rw [h]
    exact absorbed_grown hbound hsplit hfetches hx hle hlt

/-- When every non-empty input ends inside the bound, so does every fetch, and
every non-empty input is found in its fetch. -/
theorem plan_placed {ranges : List (UInt64 × UInt64)}
    (hin : ∀ r ∈ ranges, 0 < r.2 → r.1.toNat + r.2.toNat ≤ bound) :
    (∀ f ∈ (plan ranges gap maxBytes).fetches, f.Inside bound) ∧ ∀ x ∈ sortedInputs ranges,
        Placed ⟨(plan ranges gap maxBytes).fetches, (plan ranges gap maxBytes).slices⟩ x := by
  let P : List Input → PlanState → Prop := fun done st => (∀ f ∈ st.fetches, f.Inside bound) ∧
    (∀ cur ∈ st.fetches.getLast?, ∃ y ∈ done, cur.offset ≤ y.offset) ∧ ∀ y ∈ done, Placed st y
  have hstart : P [] (startState ranges) :=
    ⟨fun f hf => (by cases hf), fun cur hcur => (by cases hcur), fun y hy => (by cases hy)⟩
  have hplaced := foldl_absorb_invariant gap (max maxBytes 1) hstart ?_
  · exact ⟨hplaced.1, hplaced.2.2⟩
  rintro done x st hx hnew hbehind hlt ⟨hfetches, hlast, hdone⟩
  obtain ⟨hget, hpos⟩ := mem_sortedInputs.mp hx
  have habs := absorb_absorbed gap (max maxBytes 1) hbound hfetches
    (hin _ (mem_of_getElem? hget) hpos) (fun cur hcur => ?_) hlt
  · refine ⟨habs.inside, fun cur hcur => ⟨x, by simp, habs.last cur hcur⟩, fun y hy => ?_⟩
    rcases mem_append.mp hy with hy | hy
    · exact habs.keeps y (fun he => hnew (he ▸ mem_map_of_mem hy)) (hdone y hy)
    · rw [mem_singleton.mp hy]
      exact habs.placed
  · obtain ⟨y, hy, hle⟩ := hlast cur hcur
    exact UInt64.le_trans hle (hbehind y hy)

end Bound

/-! ## The plan

Growing a fetch keeps its offset, so the offsets of the fetches are a sublist of
those of the sorted inputs.  A fetch only grows up to the cap or its present
length, so its length goes back to the cap or to the input that opened it. -/

theorem absorb_offsets (gap maxBytes : UInt64) (st : PlanState) (x : Input) :
    ((absorb gap maxBytes st x).fetches.map MergedFetch.offset).Sublist
      (st.fetches.map MergedFetch.offset ++ [x.offset]) := by
  rcases absorb_cases gap maxBytes st x with h | ⟨pre, cur, hsplit, _, h⟩
  · rw [h, startFetch, map_append]
    exact List.Sublist.refl _
  · rw [h, hsplit, map_append, map_append]
    exact sublist_append_left _ _

theorem plan_ascending (ranges : List (UInt64 × UInt64)) (gap maxBytes : UInt64) :
    (plan ranges gap maxBytes).fetches.Pairwise fun f g => f.offset ≤ g.offset := by
  have hsorted : ((sortedInputs ranges).map Input.offset).Pairwise (· ≤ ·) :=
    pairwise_map.mpr (sortedInputs_pairwise ranges)
  have hsub : ((plan ranges gap maxBytes).fetches.map MergedFetch.offset).Sublist
      ((sortedInputs ranges).map Input.offset) := by
    refine foldl_absorb_invariant gap (max maxBytes 1)
      (P := fun done st => (st.fetches.map MergedFetch.offset).Sublist (done.map Input.offset))
      (List.Sublist.refl _) fun {done x st} _ _ _ _ h => ?_
    rw [map_append]
    exact (absorb_offsets gap _ st x).trans (h.append_right _)
  exact pairwise_map.mp (hsorted.sublist hsub)

/-- Every fetch has an input of `done` assigned to it that is as long as the
fetch, unless the cap is. -/
def Capped (maxBytes : UInt64) (done : List Input) (st : PlanState) : Prop :=
  ∀ (k : Nat) (f : MergedFetch), st.fetches[k]? = some f →
    ∃ x ∈ done, ∃ off, st.slices[x.index]? = some ⟨some k, off, x.len⟩ ∧ f.len ≤ max maxBytes x.len

theorem absorb_capped (gap : UInt64) (h : Capped maxBytes done st)
    (hlt : x.index < st.slices.length) (hnew : x.index ∉ done.map Input.index) :
    Capped maxBytes (done ++ [x]) (absorb gap maxBytes st x) := by
  -- an input already assigned keeps its slice
  have hkeep : ∀ {k : Nat} {f : MergedFetch} {s : SliceMap}, st.fetches[k]? = some f →
      ∃ y ∈ done ++ [x], ∃ off, (st.slices.set x.index s)[y.index]? = some ⟨some k, off, y.len⟩ ∧
        f.len ≤ max maxBytes y.len := by
    intro k f s hf
    obtain ⟨y, hy, off, hs, hlen⟩ := h k f hf
    have hne : x.index ≠ y.index := fun he => hnew (he ▸ mem_map_of_mem hy)
    exact ⟨y, mem_append_left _ hy, off, by rw [getElem?_set_ne hne, hs], hlen⟩
  intro k f hf
  rcases absorb_cases gap maxBytes st x with hab | ⟨pre, cur, hsplit, hcap, hab⟩
  · rw [hab, startFetch] at hf ⊢
    rcases Lib.getElem?_concat_eq_some hf with hf | ⟨rfl, rfl⟩
    · exact hkeep hf
    · refine ⟨x, by simp, 0, getElem?_set_self hlt, ?_⟩
      rw [le_iff_toNat_le, toNat_max]
      exact Nat.le_max_right _ _
  · rw [hab] at hf ⊢
    rcases Lib.getElem?_concat_eq_some hf with hf | ⟨rfl, rfl⟩
    · exact hkeep (by rw [hsplit, List.getElem?_append_left (List.getElem?_eq_some_iff.mp hf).1, hf])
    · obtain ⟨y, hy, off, hs, hlen⟩ := hkeep (k := pre.length) (f := cur)
        (by rw [hsplit, List.getElem?_concat_length])
      refine ⟨y, hy, off, hs, ?_⟩
      rw [le_iff_toNat_le, toNat_max] at hcap hlen ⊢
      simp only
      omega

/-- What a plan for `ranges` promises its caller. -/
structure CoalescePlan.Serves (ranges : List (UInt64 × UInt64)) (maxBytes : UInt64)
    (p : CoalescePlan) : Prop where
  ascending : p.fetches.Pairwise fun f g => f.offset ≤ g.offset
  inputOrder : p.slices.length = ranges.length
  contained : ∀ (i : Nat) (r : UInt64 × UInt64), ranges[i]? = some r → 0 < r.2 →
    ∃ k off f, p.slices[i]? = some ⟨some k, off, r.2⟩ ∧ p.fetches[k]? = some f ∧
      f.offset.toNat + off.toNat = r.1.toNat ∧ off.toNat + r.2.toNat ≤ f.len.toNat
  unmapped : ∀ (i : Nat) (r : UInt64 × UInt64), ranges[i]? = some r →
    ∃ s, p.slices[i]? = some s ∧ s.len = r.2 ∧ (s.fetchIndex = none ↔ r.2 = 0)
  capped : ∀ (k : Nat) (f : MergedFetch), p.fetches[k]? = some f →
    ∃ (i : Nat) (r : UInt64 × UInt64) (off : UInt64), ranges[i]? = some r ∧
      p.slices[i]? = some ⟨some k, off, r.2⟩ ∧ f.len ≤ max maxBytes r.2

theorem plan_unmapped (ranges : List (UInt64 × UInt64)) (gap maxBytes : UInt64) {i : Nat}
    {r : UInt64 × UInt64} (hr : ranges[i]? = some r) :
    ∃ s, (plan ranges gap maxBytes).slices[i]? = some s ∧ s.len = r.2 ∧
      (s.fetchIndex = none ↔ r.2 = 0) := by
  obtain ⟨hpos, hzero⟩ := (plan_slices_shape ranges gap maxBytes).2 i r hr
  by_cases hlen : 0 < r.2
  · obtain ⟨k, off, hs⟩ := hpos hlen
    refine ⟨_, hs, rfl, fun h => (by cases h), fun h => ?_⟩
    rw [h] at hlen
    exact absurd hlen (by decide)
  · have hempty : r.2 = 0 := by
      rw [lt_iff_toNat_lt] at hlen
      exact UInt64.toNat_inj.mp (Nat.eq_zero_of_not_pos hlen)
    exact ⟨_, hzero hlen, hempty.symm, fun _ => hempty, fun _ => rfl⟩

theorem plan_capped (ranges : List (UInt64 × UInt64)) (gap maxBytes : UInt64) {k : Nat}
    {f : MergedFetch} (hf : (plan ranges gap maxBytes).fetches[k]? = some f) :
    ∃ (i : Nat) (r : UInt64 × UInt64) (off : UInt64), ranges[i]? = some r ∧
      (plan ranges gap maxBytes).slices[i]? = some ⟨some k, off, r.2⟩ ∧ f.len ≤ max maxBytes r.2 := by
  have hstart : Capped (max maxBytes 1) [] (startState ranges) := fun k f hk => by cases hk
  have hfold := foldl_absorb_invariant gap (max maxBytes 1) hstart
    fun _ hnew _ hlt h => absorb_capped gap h hlt hnew
  obtain ⟨x, hx, off, hs, hlen⟩ := hfold k f hf
  obtain ⟨hget, hpos⟩ := mem_sortedInputs.mp hx
  refine ⟨x.index, _, off, hget, hs, ?_⟩
  -- the cap is at least 1, and so is the length of the input
  rw [lt_iff_toNat_lt] at hpos
  rw [le_iff_toNat_le, toNat_max] at hlen ⊢
  rw [toNat_max] at hlen
  have hone : (1 : UInt64).toNat = 1 := rfl
  have hzero : (0 : UInt64).toNat = 0 := rfl
  simp only
  omega

/-- A plan whose inputs all end at offsets of 64 bits serves them. -/
theorem plan_serves (ranges : List (UInt64 × UInt64)) (gap maxBytes : UInt64)
    (hends : ∀ r ∈ ranges, r.1.toNat + r.2.toNat < 2 ^ 64) :
    (plan ranges gap maxBytes).Serves ranges maxBytes where
  ascending := plan_ascending ranges gap maxBytes
  inputOrder := (plan_slices_shape ranges gap maxBytes).1
  contained := fun i r hr hpos => by
    have hin : ∀ r ∈ ranges, 0 < r.2 → r.1.toNat + r.2.toNat ≤ 2 ^ 64 - 1 :=
      fun r hmem _ => Nat.le_sub_one_of_lt (hends r hmem)
    exact (plan_placed gap maxBytes (by decide) hin).2 ⟨i, r.1, r.2⟩
      (mem_sortedInputs.mpr ⟨hr, hpos⟩)
  unmapped := fun _ _ hr => plan_unmapped ranges gap maxBytes hr
  capped := fun _ _ hf => plan_capped ranges gap maxBytes hf

theorem plan_serves_nested : (plan [(40, 30), (0, 10), (45, 5), (12, 0), (8, 6)] 4 16).Serves
      [(40, 30), (0, 10), (45, 5), (12, 0), (8, 6)] 16 :=
  plan_serves _ 4 16 (by simp)

end RangeCoalesce

end GooseFS
