import Mathlib.Data.Set.Finite.Basic
import Mathlib.Logic.Relation

/-!
# Worklists

Breadth-first traversal with a queue of keys and a list of the keys ever queued.  Each key
is listed once, and what a listing leads to is queued unless it was before.  If the keys
that can be reached are finitely many and can all be listed, the traversal ends after
listing each of them once (`run_complete`).
-/

namespace Lib

open Relation List

variable {κ ι ε : Type} [DecidableEq κ]

/-- `calls` are the keys that were listed, in order; the traversal does not look at them. -/
structure Worklist (κ ι : Type) where
  queue : List κ
  visited : List κ
  out : List ι
  calls : List κ
  deriving DecidableEq

namespace Worklist

def start (k : κ) : Worklist κ ι := ⟨[k], [k], [], []⟩

def meet (child : ι → Option κ) (w : Worklist κ ι) (x : ι) : Worklist κ ι :=
  match child x with
  | none => { w with out := w.out ++ [x] }
  | some k =>
    if k ∈ w.visited then { w with out := w.out ++ [x] }
    else { w with queue := w.queue ++ [k], visited := w.visited ++ [k], out := w.out ++ [x] }

/-- `none` if the fuel runs out. -/
def run (list : κ → Except ε (List ι)) (child : κ → ι → Option κ) :
    Nat → Worklist κ ι → Option (Except ε (Worklist κ ι))
  | 0, _ => none
  | fuel + 1, w =>
    match w.queue with
    | [] => some (.ok w)
    | cur :: queue =>
      match list cur with
      | .error e => some (.error e)
      | .ok items => run list child fuel (items.foldl (meet (child cur))
          { w with queue := queue, calls := w.calls ++ [cur] })

theorem run_mono {list : κ → Except ε (List ι)} {child : κ → ι → Option κ} {fuel more : Nat}
    {w : Worklist κ ι} {r : Except ε (Worklist κ ι)} (h : run list child fuel w = some r)
    (hle : fuel ≤ more) : run list child more w = some r := by
  induction fuel generalizing w more with
  | zero => cases h
  | succ fuel ih =>
    obtain ⟨more, rfl⟩ := Nat.exists_eq_add_of_le' hle
    rw [run] at h
    show run list child (more + fuel + 1) w = some r
    rw [run]
    split
    case h_1 hqueue =>
      rw [hqueue] at h
      exact h
    case h_2 cur queue hqueue =>
      simp only [hqueue] at h
      cases hlist : list cur with
      | error e =>
        rw [hlist] at h
        exact h
      | ok items =>
        rw [hlist] at h
        exact ih h (Nat.le_add_left fuel more)

structure Met (child : ι → Option κ) (items : List ι) (w w' : Worklist κ ι) (more : List κ) :
    Prop where
  queue : w'.queue = w.queue ++ more
  visited : w'.visited = w.visited ++ more
  out : w'.out = w.out ++ items
  calls : w'.calls = w.calls
  nodup : w.visited.Nodup → w'.visited.Nodup
  sound : ∀ k ∈ more, ∃ x ∈ items, child x = some k
  complete : ∀ x ∈ items, ∀ k, child x = some k → k ∈ w'.visited

theorem meet_met (child : ι → Option κ) (w : Worklist κ ι) (x : ι) :
    ∃ more, Met child [x] w (meet child w x) more := by
  cases hx : child x with
  | none =>
    refine ⟨[], ?_⟩
    rw [meet, hx]
    exact ⟨(append_nil _).symm, (append_nil _).symm, rfl, rfl, id,
      fun k hk => (by cases hk), fun y hy k hk => by simp_all⟩
  | some key =>
    by_cases hmem : key ∈ w.visited
    · refine ⟨[], ?_⟩
      simp only [meet, hx, if_pos hmem]
      exact ⟨(append_nil _).symm, (append_nil _).symm, rfl, rfl, id,
        fun k hk => (by cases hk), fun y hy k hk => by simp_all⟩
    · refine ⟨[key], ?_⟩
      simp only [meet, hx, if_neg hmem]
      refine ⟨rfl, rfl, rfl, rfl, fun h => ?_, fun k hk => ⟨x, mem_cons_self .., ?_⟩,
        fun y hy k hk => by simp_all⟩
      · exact h.append (nodup_singleton key) (disjoint_singleton.mpr hmem)
      · rw [hx, mem_singleton.mp hk]

theorem foldl_meet_met (child : ι → Option κ) : ∀ (items : List ι) (w : Worklist κ ι),
    ∃ more, Met child items w (items.foldl (meet child) w) more := by
  intro items
  induction items with
  | nil =>
    intro w
    exact ⟨[], (append_nil _).symm, (append_nil _).symm, (append_nil _).symm, rfl, id,
      fun k hk => (by cases hk), fun x hx => (by cases hx)⟩
  | cons x items ih =>
    intro w
    obtain ⟨m₁, h₁⟩ := meet_met child w x
    obtain ⟨m₂, h₂⟩ := ih (meet child w x)
    refine ⟨m₁ ++ m₂, ?_, ?_, ?_, h₂.calls.trans h₁.calls, fun h => h₂.nodup (h₁.nodup h),
      fun k hk => ?_, fun y hy k hk => ?_⟩
    · rw [foldl_cons, h₂.queue, h₁.queue, append_assoc]
    · rw [foldl_cons, h₂.visited, h₁.visited, append_assoc]
    · rw [foldl_cons, h₂.out, h₁.out, append_assoc, singleton_append]
    · rcases mem_append.mp hk with hk | hk
      · obtain ⟨y, hy, hyk⟩ := h₁.sound k hk
        exact ⟨y, mem_singleton.mp hy ▸ mem_cons_self .., hyk⟩
      · obtain ⟨y, hy, hyk⟩ := h₂.sound k hk
        exact ⟨y, mem_cons_of_mem x hy, hyk⟩
    · rw [foldl_cons]
      rcases mem_cons.mp hy with rfl | hy
      · rw [h₂.visited]
        exact mem_append_left _ (h₁.complete y (mem_cons_self ..) k hk)
      · exact h₂.complete y hy k hk

section Complete

variable (child : κ → ι → Option κ) (items : κ → List ι)

/-- An item of the listing of `k` leads to `k'`. -/
def Leads (k k' : κ) : Prop := ∃ x ∈ items k, child k x = some k'

/-- The keys that are visited are those listed and those queued. -/
structure Inv (k₀ : κ) (w : Worklist κ ι) : Prop where
  split : w.visited = w.calls ++ w.queue
  nodup : w.visited.Nodup
  out : w.out = w.calls.flatMap items
  sound : ∀ k ∈ w.visited, ReflTransGen (Leads child items) k₀ k
  start : k₀ ∈ w.visited
  closed : ∀ k ∈ w.calls, ∀ k', Leads child items k k' → k' ∈ w.visited

variable {child items} {k₀ : κ} {w : Worklist κ ι} {list : κ → Except ε (List ι)}

omit [DecidableEq κ] in
theorem inv_start : Inv child items k₀ (start k₀) :=
  ⟨rfl, nodup_singleton k₀, rfl, fun k hk => mem_singleton.mp hk ▸ .refl,
    mem_singleton_self k₀, fun k hk => (by cases hk)⟩

theorem Inv.next {cur : κ} {queue : List κ} (h : Inv child items k₀ w)
    (hqueue : w.queue = cur :: queue) :
    Inv child items k₀ ((items cur).foldl (meet (child cur))
      { w with queue := queue, calls := w.calls ++ [cur] }) := by
  obtain ⟨more, hmet⟩ := foldl_meet_met (child cur) (items cur)
    { w with queue := queue, calls := w.calls ++ [cur] }
  have hcur : cur ∈ w.visited := by
    rw [h.split, hqueue]
    exact mem_append_right _ (mem_cons_self ..)
  refine ⟨?_, hmet.nodup h.nodup, ?_, fun k hk => ?_, ?_, fun k hk k' hlead => ?_⟩
  · rw [hmet.visited, hmet.calls, hmet.queue, h.split, hqueue]
    simp
  · rw [hmet.out, hmet.calls, h.out, flatMap_append]
    simp
  · rw [hmet.visited] at hk
    rcases mem_append.mp hk with hk | hk
    · exact h.sound k hk
    · exact (h.sound cur hcur).tail (hmet.sound k hk)
  · rw [hmet.visited]
    exact mem_append_left _ h.start
  · rw [hmet.calls] at hk
    rcases mem_append.mp hk with hk | hk
    · rw [hmet.visited]
      exact mem_append_left _ (h.closed k hk k' hlead)
    · obtain ⟨x, hx, hchild⟩ := hlead
      rw [mem_singleton.mp hk] at hx hchild
      exact hmet.complete x hx k' hchild

omit [DecidableEq κ] in
theorem Inv.mem_calls_iff (h : Inv child items k₀ w) (hqueue : w.queue = []) (k : κ) :
    k ∈ w.calls ↔ ReflTransGen (Leads child items) k₀ k := by
  have hsplit : w.visited = w.calls := by rw [h.split, hqueue, append_nil]
  refine ⟨fun hk => h.sound k (hsplit ▸ hk), fun hk => ?_⟩
  induction hk with
  | refl => exact hsplit ▸ h.start
  | tail _ hlead ih => exact hsplit ▸ h.closed _ ih _ hlead

theorem run_of_inv {reached : Finset κ}
    (hreached : ∀ k, ReflTransGen (Leads child items) k₀ k → k ∈ reached)
    (hlist : ∀ k ∈ reached, ReflTransGen (Leads child items) k₀ k → list k = .ok (items k)) :
    ∀ {fuel : Nat} {w : Worklist κ ι}, Inv child items k₀ w → reached.card < fuel + w.calls.length →
      ∃ w', run list child fuel w = some (.ok w') ∧ Inv child items k₀ w' ∧ w'.queue = [] := by
  intro fuel
  induction fuel with
  | zero =>
    intro w h hfuel
    have hnodup : w.calls.Nodup := (h.split ▸ h.nodup).of_append_left
    have hsub : w.calls.toFinset ⊆ reached := fun k hk => by
      refine hreached k (h.sound k ?_)
      rw [h.split]
      exact mem_append_left _ (mem_toFinset.mp hk)
    have hcard := Finset.card_le_card hsub
    rw [toFinset_card_of_nodup hnodup] at hcard
    omega
  | succ fuel ih =>
    intro w h hfuel
    cases hqueue : w.queue with
    | nil => exact ⟨w, by rw [run, hqueue], h, hqueue⟩
    | cons cur queue =>
      have hcur : ReflTransGen (Leads child items) k₀ cur := by
        refine h.sound cur ?_
        rw [h.split, hqueue]
        exact mem_append_right _ (mem_cons_self ..)
      rw [run, hqueue]
      simp only [hlist cur (hreached cur hcur) hcur]
      refine ih (h.next hqueue) ?_
      obtain ⟨more, hmet⟩ := foldl_meet_met (child cur) (items cur)
        { w with queue := queue, calls := w.calls ++ [cur] }
      rw [hmet.calls, length_append, length_singleton]
      omega

theorem run_complete (hfinite : {k | ReflTransGen (Leads child items) k₀ k}.Finite)
    (hlist : ∀ k, ReflTransGen (Leads child items) k₀ k → list k = .ok (items k)) :
    ∃ n, ∀ fuel, n ≤ fuel → ∃ w, run list child fuel (start k₀) = some (.ok w) ∧
      w.calls.Nodup ∧ (∀ k, k ∈ w.calls ↔ ReflTransGen (Leads child items) k₀ k) ∧
      w.out = w.calls.flatMap items := by
  have hreached : ∀ k, ReflTransGen (Leads child items) k₀ k → k ∈ hfinite.toFinset :=
    fun k hk => hfinite.mem_toFinset.mpr hk
  refine ⟨hfinite.toFinset.card + 1, fun fuel hfuel => ?_⟩
  obtain ⟨w, hrun, hinv, hqueue⟩ := run_of_inv hreached (fun k _ hk => hlist k hk) inv_start
    (Nat.lt_of_lt_of_le (Nat.lt_of_succ_le hfuel) (Nat.le_add_right _ _))
  exact ⟨w, hrun, (hinv.split ▸ hinv.nodup).of_append_left, hinv.mem_calls_iff hqueue, hinv.out⟩

end Complete

end Worklist

end Lib
