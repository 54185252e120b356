import Mathlib.Algebra.BigOperators.Fin
import Mathlib.Algebra.Order.BigOperators.Group.Finset

/-!
# Parts of containers

Finitely many parts lie in finitely many containers, each part in the container that
`home` names.  The sizes of the parts can be subtracted from those of the containers to
give what the parts leave over exactly if the parts of each container are disjoint
(`leftover_iff`).
-/

namespace Lib

open Finset

variable {ι κ α : Type} [Fintype ι] [Fintype κ] [DecidableEq ι] [DecidableEq κ] [DecidableEq α]
  {home : ι → Option κ} {part : ι → Finset α} {container : κ → Finset α}

omit [Fintype ι] in
theorem card_biUnion_eq_sum_iff (s : Finset ι) (part : ι → Finset α) :
    (s.biUnion part).card = ∑ i ∈ s, (part i).card ↔ (s : Set ι).PairwiseDisjoint part := by
  refine ⟨?_, card_biUnion⟩
  induction s using Finset.induction_on with
  | empty => intro _; simp
  | insert i s hi ih =>
    intro h
    rw [biUnion_insert, sum_insert hi] at h
    have hunion := card_union_le (part i) (s.biUnion part)
    have hrest : (s.biUnion part).card ≤ ∑ i ∈ s, (part i).card := card_biUnion_le
    have hdisjoint : Disjoint (part i) (s.biUnion part) :=
      card_union_eq_card_add_card.mp (by omega)
    rw [coe_insert]
    refine (ih (by omega)).insert fun j hj _ => ?_
    exact (disjoint_biUnion_right _ _ _).mp hdisjoint j hj

def tenants (home : ι → Option κ) (k : κ) : Finset ι := univ.filter fun i => home i = some k

def leftover (home : ι → Option κ) (part : ι → Finset α) (container : κ → Finset α) (k : κ) :
    Finset α := container k \ (tenants home k).biUnion part

omit [DecidableEq ι] [DecidableEq α] in
theorem sum_card_tenants (hhomeless : ∀ i, home i = none → part i = ∅) :
    ∑ k, ∑ i ∈ tenants home k, (part i).card = ∑ i, (part i).card := by
  simp only [tenants, sum_filter]
  rw [sum_comm]
  refine sum_congr rfl fun i _ => ?_
  cases hi : home i with
  | none => simp [hhomeless i hi]
  | some k => simp

theorem leftover_iff (hhomeless : ∀ i, home i = none → part i = ∅)
    (hinside : ∀ i k, home i = some k → part i ⊆ container k) :
    (∑ i, (part i).card ≤ ∑ k, (container k).card ∧
        ∑ k, (container k).card - ∑ i, (part i).card = ∑ k, (leftover home part container k).card) ↔
      ∀ k, (tenants home k : Set ι).PairwiseDisjoint part := by
  have hfilled : ∑ k, (leftover home part container k).card +
      ∑ k, ((tenants home k).biUnion part).card = ∑ k, (container k).card := by
    rw [← sum_add_distrib]
    refine sum_congr rfl fun k _ => card_sdiff_add_card_eq_card ?_
    refine biUnion_subset.mpr fun i hi => hinside i k ?_
    exact (mem_filter.mp hi).2
  have hle : ∀ k ∈ univ, ((tenants home k).biUnion part).card ≤
      ∑ i ∈ tenants home k, (part i).card := fun k _ => card_biUnion_le
  have htermwise := sum_eq_sum_iff_of_le hle
  simp only [card_biUnion_eq_sum_iff, mem_univ, forall_const] at htermwise
  rw [← htermwise, sum_card_tenants hhomeless]
  omega

end Lib
