import Mathlib.Data.Set.Basic

/-!
# The cyclic ceiling

Keys on a circle that is cut open at one place: going up from `t`, the first key
is the least one at or above `t`, or the least of all if there is none.
`IsCeiling S t k` says this of a set of keys; it determines `k`, and it does not
change when other keys are taken away.  `cyclicCeiling` is the lookup in a sorted
list.
-/

namespace Lib

open List

variable {κ α : Type} [LE κ]

section Keys

variable [LT κ]

/-- `k` is the first of the keys `S` from `t` on. -/
structure IsCeiling (S : Set κ) (t k : κ) : Prop where
  mem : k ∈ S
  first : (t ≤ k ∧ ∀ k' ∈ S, t ≤ k' → k ≤ k') ∨ ((∀ k' ∈ S, k' < t) ∧ ∀ k' ∈ S, k ≤ k')

theorem IsCeiling.anti {S S' : Set κ} {t k : κ} (h : IsCeiling S' t k) (hsub : S ⊆ S')
    (hk : k ∈ S) : IsCeiling S t k where
  mem := hk
  first := by
    rcases h.first with ⟨htk, hleast⟩ | ⟨hbelow, hleast⟩
    · exact .inl ⟨htk, fun k' hk' => hleast k' (hsub hk')⟩
    · exact .inr ⟨fun k' hk' => hbelow k' (hsub hk'), fun k' hk' => hleast k' (hsub hk')⟩

theorem IsCeiling.unique [Std.IsLinearOrder κ] [Std.LawfulOrderLT κ] {S : Set κ} {t k k' : κ}
    (h : IsCeiling S t k) (h' : IsCeiling S t k') : k = k' := by
  have hsplit : ∀ {k₁ k₂ : κ}, t ≤ k₁ → k₁ ∈ S → ¬((∀ q ∈ S, q < t) ∧ ∀ q ∈ S, k₂ ≤ q) :=
    fun htk hk hbelow => Std.not_le.mpr (hbelow.1 _ hk) htk
  rcases h.first with ⟨htk, hleast⟩ | hbelow
  · rcases h'.first with ⟨htk', hleast'⟩ | hbelow'
    · exact Std.le_antisymm (hleast k' h'.mem htk') (hleast' k h.mem htk)
    · exact absurd hbelow' (hsplit htk h.mem)
  · rcases h'.first with ⟨htk', hleast'⟩ | hbelow'
    · exact absurd hbelow (hsplit htk' h'.mem)
    · exact Std.le_antisymm (hbelow.2 k' h'.mem) (hbelow'.2 k h.mem)

end Keys

/-! ## Lookup in a sorted list -/

/-- The entry of the first key from `t` on. -/
def cyclicCeiling [DecidableLE κ] (nodes : List (κ × α)) (t : κ) : Option (κ × α) :=
  (nodes.find? fun node => t ≤ node.1) <|> nodes.head?

def AscendingKeys [LT κ] (nodes : List (κ × α)) : Prop := nodes.Pairwise fun p q => p.1 < q.1

def keySet (nodes : List (κ × α)) : Set κ := {k | k ∈ nodes.map Prod.fst}

theorem cyclicCeiling_ne_none [DecidableLE κ] {nodes : List (κ × α)} {t : κ} (hne : nodes ≠ []) :
    ∃ node, cyclicCeiling nodes t = some node := by
  obtain ⟨node, rest, rfl⟩ := exists_cons_of_ne_nil hne
  unfold cyclicCeiling
  cases (node :: rest).find? fun node => t ≤ node.1 with
  | none => exact ⟨node, rfl⟩
  | some found => exact ⟨found, rfl⟩

theorem AscendingKeys.eq_of_key_eq [LT κ] [Std.LawfulOrderLT κ] : ∀ {nodes : List (κ × α)} {node other : κ × α},
    AscendingKeys nodes → node ∈ nodes → other ∈ nodes → node.1 = other.1 → node = other := by
  intro nodes
  induction nodes with
  | nil => exact fun _ h => (not_mem_nil h).elim
  | cons first rest ih =>
    intro node other hasc hnode hother hkey
    obtain ⟨hfirst, hrest⟩ := pairwise_cons.mp hasc
    rcases mem_cons.mp hnode with rfl | hnode'
    · rcases mem_cons.mp hother with rfl | hother'
      · rfl
      · exact absurd (hkey ▸ hfirst other hother') Std.lt_irrefl
    · rcases mem_cons.mp hother with rfl | hother'
      · exact absurd (hkey ▸ hfirst node hnode') Std.lt_irrefl
      · exact ih hrest hnode' hother' hkey

variable [LT κ] [Std.IsLinearOrder κ] [Std.LawfulOrderLT κ]

theorem le_of_mem_tail {node other : κ × α} {rest : List (κ × α)}
    (hasc : AscendingKeys (node :: rest)) (hmem : other ∈ node :: rest) : node.1 ≤ other.1 := by
  rcases mem_cons.mp hmem with rfl | hmem
  · exact Std.le_refl _
  · exact Std.le_of_lt ((pairwise_cons.mp hasc).1 other hmem)

section Lookup

variable [DecidableLE κ] {nodes : List (κ × α)} {t : κ}

theorem cyclicCeiling_spec (hasc : AscendingKeys nodes) {node : κ × α}
    (h : cyclicCeiling nodes t = some node) :
    node ∈ nodes ∧ IsCeiling (keySet nodes) t node.1 := by
  unfold cyclicCeiling at h
  cases hfind : nodes.find? fun node => t ≤ node.1 with
  | some found =>
    rw [hfind] at h
    obtain rfl : found = node := Option.some.inj h
    obtain ⟨htk, before, after, rfl, hbefore⟩ := find?_eq_some_iff_append.mp hfind
    have hmem : found ∈ before ++ found :: after := by simp
    have hafter : AscendingKeys (found :: after) := (pairwise_append.mp hasc).2.1
    refine ⟨hmem, ⟨mem_map_of_mem hmem, .inl ⟨of_decide_eq_true htk, ?_⟩⟩⟩
    intro k' hk' htk'
    obtain ⟨other, hother, rfl⟩ := mem_map.mp hk'
    rcases mem_append.mp hother with hother | hother
    · have hno := hbefore other hother
      rw [decide_eq_true htk'] at hno
      cases hno
    · exact le_of_mem_tail hafter hother
  | none =>
    rw [hfind] at h
    have hbelow := find?_eq_none.mp hfind
    cases nodes with
    | nil => cases h
    | cons first rest =>
      obtain rfl : first = node := Option.some.inj h
      refine ⟨mem_cons_self .., ⟨mem_map_of_mem (mem_cons_self ..),
        .inr ⟨fun k' hk' => ?_, fun k' hk' => ?_⟩⟩⟩
      · obtain ⟨other, hother, rfl⟩ := mem_map.mp hk'
        exact Std.not_le.mp fun hle => hbelow other hother (decide_eq_true hle)
      · obtain ⟨other, hother, rfl⟩ := mem_map.mp hk'
        exact le_of_mem_tail hasc hother

end Lookup

end Lib
