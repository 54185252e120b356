import Mathlib.Tactic.Common

/-!
# Runs of a labelled transition system

A system is a partial step function: `step s l` is the state after the action
`l`, if `s` allows it.  `Guarded step C s ls s'` is a run from `s` to `s'` all of
whose actions meet the condition `C` in the state they are taken in, and
`Guarded.invariant` is the induction over it: what every guarded step keeps
holds in every state such a run reaches.  `Guarded.entered` finds the step with
which a run came to have a property it ends with.  `replay` executes a list of
actions, so that a concrete run can be evaluated.
-/

namespace Lib

variable {σ ℓ : Type} {step : σ → ℓ → Option σ} {C : σ → ℓ → Prop} {ls : List ℓ} {s s' : σ}
  {D : σ → ℓ → Prop}

inductive Guarded (step : σ → ℓ → Option σ) (C : σ → ℓ → Prop) : σ → List ℓ → σ → Prop where
  | nil (s : σ) : Guarded step C s [] s
  | cons {s s' s'' : σ} {l : ℓ} {ls : List ℓ} : C s l → step s l = some s' →
      Guarded step C s' ls s'' → Guarded step C s (l :: ls) s''

theorem Guarded.invariant {Inv : σ → Prop}
    (hstep : ∀ s l s', Inv s → C s l → step s l = some s' → Inv s') :
    ∀ {s s' : σ} {ls : List ℓ}, Guarded step C s ls s' → Inv s → Inv s'
  | _, _, _, .nil _, h => h
  | s, _, l :: _, .cons hc hs hrun, h => hrun.invariant hstep (hstep s l _ h hc hs)

theorem Guarded.mono (hcd : ∀ s l, C s l → D s l) :
    ∀ {s s' : σ} {ls : List ℓ}, Guarded step C s ls s' → Guarded step D s ls s'
  | s, _, _, .nil _ => .nil s
  | _, _, _, .cons hc hs hrun => .cons (hcd _ _ hc) hs (hrun.mono hcd)

theorem Guarded.mono_of_reached (h : Guarded step C s ls s') : ∀ {D : σ → ℓ → Prop},
      (∀ (pre : List ℓ) (s₁ : σ) (l : ℓ), Guarded step C s pre s₁ → C s₁ l → D s₁ l) →
      Guarded step D s ls s' := by
  induction h with
  | nil s => exact fun _ => .nil s
  | cons hc hs _ ih =>
    intro D hd
    exact .cons (hd [] _ _ (.nil _) hc) hs
      (ih fun pre s₁ l hpre => hd (_ :: pre) s₁ l (.cons hc hs hpre))

theorem Guarded.of_untraced {Traced : σ → Prop}
    (hkeep : ∀ s l s', Traced s → step s l = some s' → Traced s')
    (hleave : ∀ s l s', ¬ D s l → step s l = some s' → Traced s') :
    ∀ {s s' : σ} {ls : List ℓ}, Guarded step C s ls s' → ¬ Traced s' → Guarded step D s ls s'
  | s, _, _, .nil _, _ => .nil s
  | s, _, l :: _, .cons _ hs hrun, hend => by
    refine .cons (Classical.byContradiction fun hd => hend ?_) hs
      (hrun.of_untraced hkeep hleave hend)
    exact hrun.invariant (fun s l s' ht _ hs => hkeep s l s' ht hs) (hleave s l _ hd hs)

theorem Guarded.last_step : ∀ {s s' : σ} {ls : List ℓ} {l : ℓ}, Guarded step C s (ls ++ [l]) s' →
      ∃ s₁, Guarded step C s ls s₁ ∧ C s₁ l ∧ step s₁ l = some s'
  | s, _, [], _, .cons hc hs (.nil _) => ⟨s, .nil s, hc, hs⟩
  | _, _, _ :: _, _, .cons hc hs hrest => by
    obtain ⟨s₁, hrun, hlast⟩ := hrest.last_step
    exact ⟨s₁, .cons hc hs hrun, hlast⟩

/-- The step `l` from `s₁` to `s₂` is where a run from `s` to `s'` last came to have `Q`. -/
structure Entered (step : σ → ℓ → Option σ) (C : σ → ℓ → Prop) (Q : σ → Prop) (s : σ)
    (pre : List ℓ) (s₁ : σ) (l : ℓ) (s₂ : σ) (post : List ℓ) (s' : σ) : Prop where
  before : Guarded step C s pre s₁
  outside : ¬ Q s₁
  moves : step s₁ l = some s₂
  inside : Q s₂
  after : Guarded step (fun s l => C s l ∧ Q s) s₂ post s'

theorem Guarded.entered {Q : σ → Prop} (h : Guarded step C s ls s') :
    Q s' → (Q s ∧ Guarded step (fun s l => C s l ∧ Q s) s ls s') ∨
      ∃ pre s₁ l s₂ post, ls = pre ++ l :: post ∧ Entered step C Q s pre s₁ l s₂ post s' := by
  induction h with
  | nil s => exact fun hend => .inl ⟨hend, .nil s⟩
  | @cons s t s' l ls hc hs hrest ih =>
    intro hend
    obtain ⟨hin, hkeep⟩ | ⟨pre, s₁, l', s₂, post, hls, hentry⟩ := ih hend
    · by_cases hq : Q s
      · exact .inl ⟨hq, .cons ⟨hc, hq⟩ hs hkeep⟩
      · exact .inr ⟨[], s, l, t, ls, rfl, .nil s, hq, hs, hin, hkeep⟩
    · refine .inr ⟨l :: pre, s₁, l', s₂, post, congrArg (l :: ·) hls, ?_⟩
      exact ⟨.cons hc hs hentry.before, hentry.outside, hentry.moves, hentry.inside, hentry.after⟩

theorem Guarded.exists_entered (h : Guarded step C s ls s') (Q : σ → Prop) (hstart : ¬ Q s)
    (hend : Q s') :
    ∃ pre s₁ l s₂ post, ls = pre ++ l :: post ∧ Entered step C Q s pre s₁ l s₂ post s' :=
  (h.entered hend).resolve_left fun hq => hstart hq.1

/-- Take the actions one after another, each where the condition holds. -/
def replay (step : σ → ℓ → Option σ) (C : σ → ℓ → Prop) [∀ s l, Decidable (C s l)] :
    σ → List ℓ → Option σ
  | s, [] => some s
  | s, l :: ls => if C s l then (step s l).bind fun s' => replay step C s' ls else none

theorem Guarded.of_replay [∀ s l, Decidable (C s l)] :
    ∀ {s s' : σ} {ls : List ℓ}, replay step C s ls = some s' → Guarded step C s ls s'
  | s, _, [], h => by
    cases h
    exact .nil s
  | s, s', l :: ls, h => by
    rw [replay] at h
    split at h
    · next hc =>
      obtain ⟨s₁, hs, hrest⟩ := Option.bind_eq_some_iff.1 h
      exact .cons hc hs (of_replay hrest)
    · cases h

theorem Guarded.exists_of_replay [∀ s l, Decidable (C s l)] {s : σ} {ls : List ℓ} {P : σ → Prop}
    [DecidablePred P] (h : ((replay step C s ls).any fun s => P s) = true) :
    ∃ s', Guarded step C s ls s' ∧ P s' := by
  obtain ⟨s', hs', hp⟩ := (Option.any_eq_true _ _).1 h
  exact ⟨s', .of_replay hs', of_decide_eq_true hp⟩

end Lib
