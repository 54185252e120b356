import Mathlib.Data.List.Nodup

/-!
# Greedy selection

One pass over a list that keeps each element which is admitted next to those kept
before it.  If an element that was refused or kept is never admitted again
(`Spends`), then the pass does not have to go on from where it stopped: starting
over at the front of the list gives the same selection
(`Spends.greedy_of_find?`).
-/

namespace Lib

open List

variable {α : Type}

/-- What is kept of a list, after `kept`. -/
def greedy (admits : List α → α → Bool) : List α → List α → List α
  | kept, [] => kept
  | kept, x :: xs => greedy admits (if admits kept x then kept ++ [x] else kept) xs

section Greedy

variable {admits : List α → α → Bool} {kept xs ys : List α} {x : α}

theorem greedy_of_admitted (h : admits kept x = true) :
    greedy admits kept (x :: xs) = greedy admits (kept ++ [x]) xs := by
  rw [greedy, if_pos h]

theorem greedy_of_refused (h : admits kept x = false) :
    greedy admits kept (x :: xs) = greedy admits kept xs := by
  rw [greedy, h, if_neg Bool.false_ne_true]

theorem greedy_eq_self (h : ∀ x ∈ xs, admits kept x = false) : greedy admits kept xs = kept := by
  induction xs with
  | nil => rfl
  | cons x xs ih =>
    rw [greedy_of_refused (h x (mem_cons_self ..))]
    exact ih fun y hy => h y (mem_cons_of_mem _ hy)

theorem greedy_append :
    greedy admits kept (xs ++ ys) = greedy admits (greedy admits kept xs) ys := by
  induction xs generalizing kept with
  | nil => rfl
  | cons x xs ih => exact ih

theorem greedy_induction {P : List α → Prop} (hkept : P kept)
    (hstep : ∀ kept x, x ∈ xs → P kept → admits kept x = true → P (kept ++ [x])) :
    P (greedy admits kept xs) := by
  induction xs generalizing kept with
  | nil => exact hkept
  | cons x xs ih =>
    have hrest : ∀ kept y, y ∈ xs → P kept → admits kept y = true → P (kept ++ [y]) :=
      fun kept y hy => hstep kept y (mem_cons_of_mem _ hy)
    cases hx : admits kept x with
    | true =>
      rw [greedy_of_admitted hx]
      exact ih (hstep kept x (mem_cons_self ..) hkept hx) hrest
    | false =>
      rw [greedy_of_refused hx]
      exact ih hkept hrest

theorem prefix_greedy : kept <+: greedy admits kept xs :=
  greedy_induction (prefix_refl kept) fun _ _ _ hpre _ =>
    hpre.trans (prefix_append _ _)

theorem nodup_greedy (hkept : kept.Nodup)
    (hnew : ∀ kept x, admits kept x = true → x ∉ kept) : (greedy admits kept xs).Nodup := by
  refine greedy_induction hkept fun kept x _ hnodup hx => ?_
  rw [← concat_eq_append]
  exact hnodup.concat (hnew kept x hx)

theorem mem_of_mem_greedy (h : x ∈ greedy admits kept xs) : x ∈ kept ∨ x ∈ xs := by
  refine greedy_induction (P := fun l => ∀ y ∈ l, y ∈ kept ∨ y ∈ xs) (fun _ => Or.inl)
    (fun l y hy hl _ z hz => ?_) x h
  rcases mem_append.mp hz with hz | hz
  · exact hl z hz
  · exact Or.inr (mem_singleton.mp hz ▸ hy)

end Greedy

structure Spends (admits : List α → α → Bool) : Prop where
  stays : ∀ {kept x}, admits kept x = false → ∀ y, admits (kept ++ [y]) x = false
  once : ∀ {kept x}, admits kept x = true → admits (kept ++ [x]) x = false

namespace Spends

variable {admits : List α → α → Bool} {kept xs : List α} {x : α}

variable (h : Spends admits)
include h

theorem greedy_of_find? (hfind : xs.find? (admits kept) = some x) :
    greedy admits kept xs = greedy admits (kept ++ [x]) xs := by
  obtain ⟨hx, before, after, rfl, hbefore⟩ := find?_eq_some_iff_append.mp hfind
  have hspent : ∀ y ∈ before, admits kept y = false := fun y hy => by
    simpa using hbefore y hy
  rw [greedy_append, greedy_append, greedy_eq_self hspent,
    greedy_eq_self fun y hy => h.stays (hspent y hy) x, greedy_of_admitted hx,
    greedy_of_refused (h.once hx)]

theorem prefix_greedy_of_find? (hfind : xs.find? (admits kept) = some x) :
    kept ++ [x] <+: greedy admits kept xs :=
  h.greedy_of_find? hfind ▸ prefix_greedy

theorem head?_greedy : (greedy admits [] xs).head? = xs.find? (admits []) := by
  cases hfind : xs.find? (admits []) with
  | none =>
    rw [greedy_eq_self fun y hy => Bool.eq_false_iff.mpr (find?_eq_none.mp hfind y hy)]
    rfl
  | some x =>
    obtain ⟨rest, hrest⟩ := h.prefix_greedy_of_find? hfind
    rw [← hrest]
    rfl

theorem refused_of_mem (hx : x ∈ xs) : admits (greedy admits kept xs) x = false := by
  obtain ⟨before, after, rfl⟩ := append_of_mem hx
  have hkeeps : ∀ kept : List α, admits kept x = false →
      admits (greedy admits kept after) x = false := fun kept hkept =>
    greedy_induction (P := fun l => admits l x = false) hkept fun _ y _ hl _ => h.stays hl y
  rw [greedy_append]
  cases hadmits : admits (greedy admits kept before) x with
  | true =>
    rw [greedy_of_admitted hadmits]
    exact hkeeps _ (h.once hadmits)
  | false =>
    rw [greedy_of_refused hadmits]
    exact hkeeps _ hadmits

end Spends

section First

variable [DecidableEq α] {xs : List α} {x : α}

def isNew (kept : List α) (x : α) : Bool := x ∉ kept

theorem spends_isNew : Spends (isNew (α := α)) where
  stays h y := by
    have hx := of_decide_eq_false h
    exact decide_eq_false fun hnot => hx fun hmem => hnot (mem_append_left _ hmem)
  once _ := decide_eq_false fun hnot => hnot (mem_append_right _ (mem_singleton_self _))

/-- The elements of a list in the order of their first occurrences. -/
def firsts (xs : List α) : List α := greedy isNew [] xs

theorem mem_firsts : x ∈ firsts xs ↔ x ∈ xs := by
  constructor
  · intro h
    exact (mem_of_mem_greedy h).resolve_left not_mem_nil
  · intro h
    exact Decidable.not_not.mp (of_decide_eq_false (spends_isNew.refused_of_mem h))

theorem nodup_firsts : (firsts xs).Nodup :=
  nodup_greedy nodup_nil fun _ _ hx => of_decide_eq_true hx

end First

end Lib
