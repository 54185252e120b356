import Mathlib.Algebra.Order.BigOperators.Group.List
import Mathlib.Algebra.Order.Ring.Int
import Mathlib.Data.List.Perm.Basic

/-!
# Tasks over a shared state

A pool of tasks is a list, and one step replaces the task at one place.  The
assertions of all tasks survive a step when the moving task establishes its own
and does not interfere with the others' (`Asserted.set`).  A relation between any
two tasks survives when the moving task keeps it with the others (`Apart.set`).
-/

namespace Lib

open List

variable {σ τ : Type} {m m' : σ} {ts : List τ} {i : Nat} {t t' u : τ} {A : σ → τ → Prop}
  {f : τ → Int} {R : τ → τ → Prop}

theorem eq_or_other_of_mem_set (h : u ∈ ts.set i t') : u = t' ∨ ∃ j, j ≠ i ∧ ts[j]? = some u := by
  obtain ⟨j, hj⟩ := getElem?_of_mem h
  rw [getElem?_set] at hj
  split at hj
  · split at hj
    · exact Or.inl (Option.some.inj hj).symm
    · cases hj
  · next hne => exact Or.inr ⟨j, Ne.symm hne, hj⟩

theorem mem_set_self (hi : ts[i]? = some t) : t' ∈ ts.set i t' :=
  mem_set (List.getElem?_eq_some_iff.1 hi).1 t'

theorem exists_mem_set {P Q : τ → Prop} (hi : ts[i]? = some t) (h : ∃ u ∈ ts, P u)
    (own : P t → Q t') (others : ∀ u, P u → Q u) : ∃ u ∈ ts.set i t', Q u := by
  obtain ⟨u, hu, hp⟩ := h
  obtain ⟨j, hj⟩ := getElem?_of_mem hu
  by_cases hji : j = i
  · subst hji
    rw [hi] at hj
    cases hj
    exact ⟨t', mem_set_self hi, own hp⟩
  · have hmem : (ts.set i t')[j]? = some u := by rw [getElem?_set_ne (Ne.symm hji), hj]
    exact ⟨u, mem_of_getElem? hmem, others u hp⟩

theorem perm_eraseIdx (hi : ts[i]? = some t) : ts.Perm (t :: ts.eraseIdx i) := by
  obtain ⟨hlt, rfl⟩ := List.getElem?_eq_some_iff.1 hi
  exact (getElem_cons_eraseIdx_perm hlt).symm

theorem set_perm_eraseIdx (hi : ts[i]? = some t) : (ts.set i t').Perm (t' :: ts.eraseIdx i) :=
  set_perm_cons_eraseIdx (List.getElem?_eq_some_iff.1 hi).1 t'

theorem filterMap_set_perm {α : Type} (f : τ → Option α) (hi : ts[i]? = some t) :
    ((ts.set i t').filterMap f ++ (f t).toList).Perm (ts.filterMap f ++ (f t').toList) := by
  have hcons : ∀ (v : τ) (vs : List τ), (v :: vs).filterMap f = (f v).toList ++ vs.filterMap f := by
    intro v vs
    cases hv : f v <;> simp [hv]
  have hset : ((ts.set i t').filterMap f).Perm _ := (set_perm_eraseIdx hi).filterMap f
  have hts := (perm_eraseIdx hi).filterMap f
  rw [hcons] at hset hts
  refine (hset.append_right _).trans (.trans ?_ (hts.append_right _).symm)
  rw [append_assoc, append_assoc]
  exact perm_append_comm.trans (perm_append_comm.append_right _ |>.trans (by rw [append_assoc]))

def Asserted (A : σ → τ → Prop) (m : σ) (ts : List τ) : Prop := ∀ t ∈ ts, A m t

theorem Asserted.get (h : Asserted A m ts) (hi : ts[i]? = some t) : A m t :=
  h t (mem_of_getElem? hi)

theorem Asserted.set (h : Asserted A m ts) (own : A m' t')
    (others : ∀ j u, j ≠ i → ts[j]? = some u → A m u → A m' u) : Asserted A m' (ts.set i t') := by
  intro u hu
  obtain rfl | ⟨j, hne, hj⟩ := eq_or_other_of_mem_set hu
  · exact own
  · exact others j u hne hj (h.get hj)

theorem Asserted.append (h : Asserted A m ts) (others : ∀ u, A m u → A m' u) (new : A m' t') :
    Asserted A m' (ts ++ [t']) := by
  intro u hu
  obtain hu | hu := mem_append.1 hu
  · exact others u (h u hu)
  · exact (mem_singleton.1 hu) ▸ new

def Apart (R : τ → τ → Prop) (ts : List τ) : Prop :=
  ∀ ⦃i j : Nat⦄ ⦃t u : τ⦄, i ≠ j → ts[i]? = some t → ts[j]? = some u → R t u

theorem Apart.set (h : Apart R ts) (own : ∀ j u, j ≠ i → ts[j]? = some u → R t' u ∧ R u t') :
    Apart R (ts.set i t') := by
  intro a b x y hab hx hy
  rw [getElem?_set] at hx hy
  split at hx
  · next ha =>
    subst ha
    rw [if_neg hab] at hy
    split at hx
    · cases hx
      exact (own b y (Ne.symm hab) hy).1
    · cases hx
  · next ha =>
    split at hy
    · next hb =>
      subst hb
      split at hy
      · cases hy
        exact (own a x (Ne.symm ha) hx).2
      · cases hy
    · exact h hab hx hy

theorem Apart.append (h : Apart R ts) (new : ∀ u, R t' u ∧ R u t') : Apart R (ts ++ [t']) := by
  intro a b x y hab hx hy
  by_cases ha : a < ts.length
  · rw [getElem?_append_left ha] at hx
    by_cases hb : b < ts.length
    · rw [getElem?_append_left hb] at hy
      exact h hab hx hy
    · rw [getElem?_append_right (Nat.le_of_not_lt hb)] at hy
      have hy' : y = t' := mem_singleton.1 (mem_of_getElem? hy)
      exact hy' ▸ (new x).2
  · rw [getElem?_append_right (Nat.le_of_not_lt ha)] at hx
    have hx' : x = t' := mem_singleton.1 (mem_of_getElem? hx)
    exact hx' ▸ (new y).1

/-! ## Tallies -/

def tally (f : τ → Int) (ts : List τ) : Int := (ts.map f).sum

theorem tally_append (f : τ → Int) : tally f (ts ++ [t']) = tally f ts + f t' := by
  simp [tally]

theorem tally_perm {us : List τ} (f : τ → Int) (h : ts.Perm us) : tally f ts = tally f us :=
  (h.map f).sum_eq

theorem tally_eraseIdx (f : τ → Int) (hi : ts[i]? = some t) :
    tally f ts = f t + tally f (ts.eraseIdx i) :=
  (tally_perm f (perm_eraseIdx hi)).trans sum_cons

theorem tally_set (f : τ → Int) (hi : ts[i]? = some t) :
    tally f (ts.set i t') = tally f ts - f t + f t' := by
  have hset : tally f (ts.set i t') = f t' + tally f (ts.eraseIdx i) :=
    (tally_perm f (set_perm_eraseIdx hi)).trans sum_cons
  rw [hset, tally_eraseIdx f hi]
  omega

theorem tally_eq_zero (h : ∀ u ∈ ts, f u = 0) : tally f ts = 0 :=
  sum_eq_zero (forall_mem_map.mpr h)

theorem tally_eq_of_other (hi : ts[i]? = some t) (hother : ∀ j u, j ≠ i → ts[j]? = some u → f u = 0) :
    tally f ts = f t := by
  have hrest : tally f (ts.eraseIdx i) = 0 := by
    refine tally_eq_zero fun u hu => ?_
    obtain ⟨j, hne, hj⟩ := mem_eraseIdx_iff_getElem?.mp hu
    exact hother j u hne hj
  rw [tally_eraseIdx f hi, hrest, Int.add_zero]

theorem tally_le_tally {g : τ → Int} (h : ∀ u ∈ ts, f u ≤ g u) : tally f ts ≤ tally g ts :=
  sum_le_sum h

section

variable (hf : ∀ u ∈ ts, 0 ≤ f u)
include hf

theorem tally_nonneg : 0 ≤ tally f ts := sum_nonneg (forall_mem_map.mpr hf)

theorem le_tally (ht : t ∈ ts) : f t ≤ tally f ts :=
  single_le_sum (forall_mem_map.mpr hf) _ (mem_map_of_mem ht)

theorem add_le_tally {j : Nat} (hne : i ≠ j) (hi : ts[i]? = some t) (hj : ts[j]? = some u) :
    f t + f u ≤ tally f ts := by
  have hu : u ∈ ts.eraseIdx i := mem_eraseIdx_iff_getElem?.mpr ⟨j, hne.symm, hj⟩
  have hle := le_tally (fun v hv => hf v (mem_of_mem_eraseIdx hv)) hu
  rw [tally_eraseIdx f hi]
  omega

end

theorem tally_erase [BEq τ] [LawfulBEq τ] (f : τ → Int) (ht : t ∈ ts) :
    tally f (ts.erase t) = tally f ts - f t := by
  have hcons : tally f (t :: ts.erase t) = f t + tally f (ts.erase t) := sum_cons
  rw [tally_perm f (perm_cons_erase ht), hcons]
  omega

end Lib
