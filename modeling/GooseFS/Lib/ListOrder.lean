import Mathlib.Data.List.Dedup
import Mathlib.Data.List.Nodup

/-!
# Positions in lists

Filtering a list moves its elements, unless those that are kept come first
(`getElem?_filterMap_of_front`), and they come first exactly if none of them is at
a place past their number (`front_of_lt`).  A stable sort by a key gives the same
list for every order of its input only if the keys differ
(`pairwise_lt_of_mergeSort`).
-/

namespace Lib

open List Option

theorem getElem?_concat_eq_some {α : Type} {l : List α} {a b : α} {i : Nat}
    (h : (l ++ [a])[i]? = some b) : l[i]? = some b ∨ i = l.length ∧ b = a := by
  by_cases hi : i < l.length
  · rw [getElem?_append_left hi] at h
    exact .inl h
  · have hlt := (List.getElem?_eq_some_iff.mp h).1
    rw [length_append, length_singleton] at hlt
    have hlen : i = l.length := by omega
    rw [hlen, getElem?_concat_length] at h
    exact .inr ⟨hlen, (some.inj h).symm⟩

theorem find?_filterMap_of_eq_or {ι α : Type} {f g : ι → Option α} {p : α → Bool} {a : α}
    (ha : p a = true) (h : ∀ i, f i = some a ∨ f i = g i) {l : List ι} :
    (l.filterMap f).find? p = some a ∨ (l.filterMap f).find? p = (l.filterMap g).find? p := by
  induction l with
  | nil => exact .inr rfl
  | cons i l ih =>
    rcases h i with hi | hi
    · rw [filterMap_cons, hi]
      exact .inl (find?_cons_of_pos ha)
    · rw [filterMap_cons, filterMap_cons, ← hi]
      cases f i with
      | none => exact ih
      | some b =>
        simp only [find?_cons]
        cases p b with
        | true => exact .inr rfl
        | false => exact ih

section Front

variable {α β : Type} {f : α → Option β} {a : α} {l : List α}

/-- What `f` keeps comes first. -/
def Front (f : α → Option β) (l : List α) : Prop :=
  ∀ a ∈ l.dropWhile fun a => (f a).isSome, f a = none

theorem front_cons_some {b : β} (ha : f a = some b) : Front f (a :: l) ↔ Front f l := by
  rw [Front, dropWhile_cons, if_pos (by rw [ha]; rfl)]
  rfl

theorem front_cons_none (ha : f a = none) : Front f (a :: l) ↔ ∀ x ∈ l, f x = none := by
  rw [Front, dropWhile_cons, if_neg (by rw [ha]; exact Bool.false_ne_true)]
  refine ⟨fun h x hx => h x (mem_cons_of_mem _ hx), fun h x hx => ?_⟩
  obtain rfl | hx := mem_cons.1 hx
  · exact ha
  · exact h x hx

theorem getElem?_filterMap_of_front : ∀ {l : List α}, Front f l →
    ∀ i : Nat, (l.filterMap f)[i]? = l[i]?.bind f
  | [], _, _ => rfl
  | a :: l, h, i => by
    cases ha : f a with
    | none =>
      have hnone := (front_cons_none ha).1 h
      have hnil : (a :: l).filterMap f = [] := by
        rw [filterMap_eq_nil_iff]
        intro x hx
        obtain rfl | hx := mem_cons.1 hx
        · exact ha
        · exact hnone x hx
      rw [hnil]
      cases hi : (a :: l)[i]? with
      | none => rfl
      | some x =>
        obtain rfl | hx := mem_cons.1 (mem_of_getElem? hi)
        · exact ha.symm
        · exact (hnone x hx).symm
    | some b =>
      rw [filterMap_cons_some ha]
      cases i with
      | zero => exact ha.symm
      | succ i => exact getElem?_filterMap_of_front ((front_cons_some ha).1 h) i

theorem length_filterMap_le {n : Nat} (h : ∀ (i : Nat) b, l[i]?.bind f = some b → i < n) :
    (l.filterMap f).length ≤ n := by
  have hdrop : (l.drop n).filterMap f = [] := by
    rw [filterMap_eq_nil_iff]
    intro x hx
    obtain ⟨j, hj⟩ := getElem?_of_mem hx
    rw [getElem?_drop] at hj
    by_contra hne
    obtain ⟨b, hb⟩ := ne_none_iff_exists'.1 hne
    have := h (n + j) b (by rw [hj]; exact hb)
    omega
  calc (l.filterMap f).length
      = ((l.take n).filterMap f).length := by
        conv_lhs => rw [← take_append_drop n l]
        rw [filterMap_append, hdrop, append_nil]
    _ ≤ (l.take n).length := List.length_filterMap_le f _
    _ ≤ n := length_take_le n l

theorem front_of_lt : ∀ {l : List α},
    (∀ (i : Nat) b, l[i]?.bind f = some b → i < (l.filterMap f).length) → Front f l
  | [], _ => fun _ ha => absurd ha not_mem_nil
  | a :: l, h => by
    cases ha : f a with
    | none =>
      rw [front_cons_none ha]
      -- the kept elements of `l` are one place nearer to the front than they may be
      have hlen : (l.filterMap f).length ≤ (l.filterMap f).length - 1 := by
        refine length_filterMap_le fun i b hb => ?_
        have := h (i + 1) b hb
        rw [filterMap_cons_none ha] at this
        omega
      have hnil : l.filterMap f = [] := eq_nil_of_length_eq_zero (by omega)
      exact filterMap_eq_nil_iff.1 hnil
    | some b =>
      rw [front_cons_some ha]
      refine front_of_lt fun i c hc => ?_
      have := h (i + 1) c hc
      rw [filterMap_cons_some ha, length_cons] at this
      omega

end Front

section Sorting

variable {α β : Type} {a b : α} {l r : List α}

theorem eq_of_perm_of_map_eq {f : α → β} {l' : List α} (hp : l.Perm l') (hmap : l.map f = l'.map f)
    (hnodup : (l'.map f).Nodup) : l = l' := by
  refine ext_getElem? fun i => ?_
  have hi : (l[i]?).map f = (l'[i]?).map f := by
    rw [← getElem?_map, hmap, getElem?_map]
  cases ha : l[i]? with
  | none =>
    rw [ha] at hi
    exact (map_eq_none_iff.1 hi.symm).symm
  | some a =>
    rw [ha, map_some] at hi
    obtain ⟨b, hb, hab⟩ := map_eq_some_iff.1 hi.symm
    have heq : b = a := inj_on_of_nodup_map hnodup (mem_of_getElem? hb)
      (hp.subset (mem_of_getElem? ha)) hab
    rw [hb, heq]

theorem not_sublist_swap : ∀ {l : List α}, l.Nodup → [a, b].Sublist l → ¬ [b, a].Sublist l
  | [], _, h => fun _ => by cases h
  | x :: l, hnodup, h => by
    rw [nodup_cons] at hnodup
    intro h'
    cases h with
    | cons _ h =>
      cases h' with
      | cons _ h' => exact not_sublist_swap hnodup.2 h h'
      | cons_cons _ h' => exact hnodup.1 (h.subset (mem_cons_of_mem _ mem_cons_self))
    | cons_cons _ h =>
      cases h' with
      | cons _ h' => exact hnodup.1 (h'.subset (mem_cons_of_mem _ mem_cons_self))
      | cons_cons _ h' => exact hnodup.1 (h.subset mem_cons_self)

theorem sublist_or_swap (hne : a ≠ b) : ∀ {l : List α}, a ∈ l → b ∈ l →
    [a, b].Sublist l ∨ [b, a].Sublist l
  | [], ha, _ => absurd ha not_mem_nil
  | x :: l, ha, hb => by
    obtain rfl | hal := mem_cons.1 ha
    · obtain rfl | hb := mem_cons.1 hb
      · exact absurd rfl hne
      · exact .inl (.cons_cons _ (singleton_sublist.2 hb))
    · obtain rfl | hb := mem_cons.1 hb
      · exact .inr (.cons_cons _ (singleton_sublist.2 hal))
      · exact (sublist_or_swap hne hal hb).imp (.cons _) (.cons _)

variable {key : α → Int}

def keyLe (key : α → Int) (a b : α) : Bool := key a ≤ key b

theorem keyLe_trans (a b c : α) (hab : keyLe key a b = true) (hbc : keyLe key b c = true) :
    keyLe key a c = true := by
  simp only [keyLe, decide_eq_true_eq] at *
  omega

theorem keyLe_total (a b : α) : (keyLe key a b || keyLe key b a) = true := by
  simp only [keyLe, Bool.or_eq_true, decide_eq_true_eq]
  omega

theorem pairwise_mergeSort_key (l : List α) :
    (l.mergeSort (keyLe key)).Pairwise fun a b => key a ≤ key b := by
  have hsorted : (l.mergeSort (keyLe key)).Pairwise fun a b => keyLe key a b = true :=
    pairwise_mergeSort keyLe_trans keyLe_total l
  exact hsorted.imp fun h => of_decide_eq_true h

theorem pairwise_lt_of_mergeSort (hnodup : l.Nodup) (hsort : r.mergeSort (keyLe key) = l)
    (hreverse : r.reverse.mergeSort (keyLe key) = l) : l.Pairwise fun a b => key a < key b := by
  have hle : l.Pairwise fun a b => key a ≤ key b := hsort ▸ pairwise_mergeSort_key r
  have hperm : r.Perm l := hsort ▸ (mergeSort_perm r _).symm
  rw [pairwise_iff_forall_sublist] at hle ⊢
  intro a b hab
  have hne : a ≠ b := by
    rintro rfl
    exact not_sublist_swap hnodup hab hab
  have hltOrEq := hle hab
  by_contra hlt
  -- of two elements with one key, the second comes first in one of the inputs
  have hba : keyLe key b a = true := decide_eq_true (by omega)
  refine not_sublist_swap hnodup hab ?_
  obtain h | h := sublist_or_swap hne (hperm.symm.subset (hab.subset mem_cons_self))
    (hperm.symm.subset (hab.subset (mem_cons_of_mem _ mem_cons_self)))
  · rw [← hreverse]
    exact pair_sublist_mergeSort keyLe_trans keyLe_total hba (by simpa using h.reverse)
  · rw [← hsort]
    exact pair_sublist_mergeSort keyLe_trans keyLe_total hba h

theorem mergeSort_eq_of_pairwise_lt (hp : r.Perm l) (hlt : l.Pairwise fun a b => key a < key b) :
    r.mergeSort (keyLe key) = l := by
  have hle : l.Pairwise fun a b => key a ≤ key b := hlt.imp fun h => Int.le_of_lt h
  refine Perm.eq_of_pairwise ?_ (pairwise_mergeSort_key r) hle
    ((mergeSort_perm r _).trans hp)
  intro a b ha hb hab hba
  by_contra hne
  rw [pairwise_iff_forall_sublist] at hlt
  obtain h | h := sublist_or_swap hne (hp.subset (mem_mergeSort.1 ha)) hb
  · have := hlt h
    omega
  · have := hlt h
    omega

end Sorting

end Lib
