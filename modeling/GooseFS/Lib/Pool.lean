import GooseFS.Lib.Tasks
import GooseFS.Lib.Transition

/-!
# Pools of tasks as transition systems

A pool is a shared state and a list of tasks.  A task starts in one of the states
`start` allows, and `next` is its step: what it does to the shared state and to
itself, for an input that stands for what the environment decides.  `Pool.Holds`
is the usual shape of an invariant (one fact about the shared state, an assertion
of each task, a relation between any two), and `Pool.Holds.run` its induction
rule: a step has to keep the shared fact, to establish the assertion of the task
that moves and not to disturb those of the others.
-/

namespace Lib

structure Pool (σ τ : Type) where
  shared : σ
  tasks : List τ
  deriving DecidableEq

inductive PoolAct (τ ι : Type) where
  | spawn (t : τ)
  | run (i : Nat) (input : ι)

namespace Pool

variable {σ τ ι : Type} {start : τ → Bool} {next : σ → τ → ι → Option (σ × τ)}

def step (start : τ → Bool) (next : σ → τ → ι → Option (σ × τ)) (p : Pool σ τ) :
    PoolAct τ ι → Option (Pool σ τ)
  | .spawn t => if start t then some { p with tasks := p.tasks ++ [t] } else none
  | .run i x =>
    match p.tasks[i]? with
    | none => none
    | some t => (next p.shared t x).map fun out => ⟨out.1, p.tasks.set i out.2⟩

variable {p p' : Pool σ τ} {a : PoolAct τ ι}

theorem step_cases (h : p.step start next a = some p') :
    (∃ t, a = .spawn t ∧ start t = true ∧ p' = ⟨p.shared, p.tasks ++ [t]⟩) ∨
      ∃ i x t m' t', a = .run i x ∧ p.tasks[i]? = some t ∧ next p.shared t x = some (m', t') ∧
        p' = ⟨m', p.tasks.set i t'⟩ := by
  cases a with
  | spawn t =>
    rw [step] at h
    split at h
    · next hstart =>
      cases h
      exact Or.inl ⟨t, rfl, hstart, rfl⟩
    · cases h
  | run i x =>
    rw [step] at h
    split at h
    · cases h
    · next t ht =>
      obtain ⟨out, hout, rfl⟩ := Option.map_eq_some_iff.1 h
      exact Or.inr ⟨i, x, t, out.1, out.2, rfl, ht, hout, rfl⟩

structure Holds (G : σ → Prop) (A : σ → τ → Prop) (R : τ → τ → Prop) (p : Pool σ τ) : Prop where
  shared : G p.shared
  tasks : Asserted A p.shared p.tasks
  apart : Apart R p.tasks

variable {C : Pool σ τ → PoolAct τ ι → Prop} {G : σ → Prop} {A : σ → τ → Prop} {R : τ → τ → Prop}

theorem Holds.init {m : σ} (h : G m) : Holds G A R ⟨m, []⟩ where
  shared := h
  tasks := fun _ ht => (List.not_mem_nil ht).elim
  apart := fun i _ _ _ _ ht => by simp at ht

theorem Holds.spawn {t : τ} (hp : Holds G A R p) (hnew : A p.shared t)
    (hothers : ∀ u, R t u ∧ R u t) : Holds G A R ⟨p.shared, p.tasks ++ [t]⟩ :=
  ⟨hp.shared, hp.tasks.append (fun _ hu => hu) hnew, hp.apart.append hothers⟩

theorem Holds.move {i : Nat} {m' : σ} {t' : τ} (hp : Holds G A R p)
    (hsymm : ∀ t u, R t u → R u t) (hshared : G m') (hown : A m' t')
    (hothers : ∀ j u, j ≠ i → p.tasks[j]? = some u → A m' u ∧ R t' u) :
    Holds G A R ⟨m', p.tasks.set i t'⟩ := by
  refine ⟨hshared, hp.tasks.set hown fun j u hne hj _ => (hothers j u hne hj).1, ?_⟩
  refine hp.apart.set fun j u hne hj => ?_
  have hr := (hothers j u hne hj).2
  exact ⟨hr, hsymm _ _ hr⟩

theorem Holds.run (hsymm : ∀ t u, R t u → R u t)
    (hspawn : ∀ (p : Pool σ τ) (t : τ), Holds G A R p → C p (.spawn t) → start t = true →
      A p.shared t ∧ ∀ u, R t u)
    (hrun : ∀ (p : Pool σ τ) (i : Nat) (x : ι) (t : τ) (m' : σ) (t' : τ), Holds G A R p →
      C p (.run i x) → p.tasks[i]? = some t → next p.shared t x = some (m', t') →
      G m' ∧ A m' t' ∧ ∀ j u, j ≠ i → p.tasks[j]? = some u → A m' u ∧ R t' u)
    {as : List (PoolAct τ ι)} (h : Guarded (step start next) C p as p') (hp : Holds G A R p) :
    Holds G A R p' := by
  refine h.invariant ?_ hp
  intro p a p' hp hc hstep
  obtain ⟨t, rfl, hstart, rfl⟩ | ⟨i, x, t, m', t', rfl, hi, hnext, rfl⟩ := step_cases hstep
  · obtain ⟨hnew, hothers⟩ := hspawn p t hp hc hstart
    exact hp.spawn hnew fun u => ⟨hothers u, hsymm _ _ (hothers u)⟩
  · obtain ⟨hshared, hown, hothers⟩ := hrun p i x t m' t' hp hc hi hnext
    exact hp.move hsymm hshared hown hothers

end Pool

end Lib
