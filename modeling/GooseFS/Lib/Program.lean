import Mathlib.Tactic.Common

/-!
# Programs that keep their state when they fail

`EStateM ε σ` is the semantics of code that updates a state in place and returns
early on an error: what was changed before the error stays changed.  This file
adds the ways such programs are put together that the standard library does not
have: a step given as a function on states (`step`), a call whose error the
caller handles itself (`attempt`), and a program on one field of a larger state
(`zoom`).

`Sat P m Q E` is the contract of a program: from a state in `P` it ends with a
result and a state in `Q`, or with an error and a state in `E`.  The rules follow
the program text: `Sat.bind` for a sequence, one rule for each primitive, and
`Sat.mono` to weaken.
-/

namespace Lib

variable {ε σ τ α β : Type}

def step (f : σ → Except ε α × σ) : EStateM ε σ α := fun s =>
  match f s with
  | (.ok a, s') => .ok a s'
  | (.error e, s') => .error e s'

/-- Run `m` and hand its outcome to the caller. -/
def attempt (m : EStateM ε σ α) : EStateM ε σ (Except ε α) := fun s =>
  match m s with
  | .ok a s' => .ok (.ok a) s'
  | .error e s' => .ok (.error e) s'

/-- Run `m` on the part of the state that `get` reads and `put` replaces. -/
def zoom (get : τ → σ) (put : σ → τ → τ) (m : EStateM ε σ α) : EStateM ε τ α := fun t =>
  match m (get t) with
  | .ok a s => .ok a (put s t)
  | .error e s => .error e (put s t)

theorem get_apply (s : σ) : (MonadState.get : EStateM ε σ σ) s = .ok s s := rfl

theorem modify_apply (g : σ → σ) (s : σ) : (modify g : EStateM ε σ PUnit) s = .ok ⟨⟩ (g s) := rfl

/-- The program ends with a result and a state that pass the test. -/
def succeeds (m : EStateM ε σ α) (s : σ) (p : α → σ → Bool) : Bool :=
  match m s with
  | .ok a s' => p a s'
  | .error _ _ => false

theorem exists_of_succeeds (m : EStateM ε σ α) (s : σ) (p : α → σ → Bool)
    (h : succeeds m s p = true) : ∃ a s', m s = .ok a s' ∧ p a s' = true := by
  unfold succeeds at h
  split at h
  · next a s' hm => exact ⟨a, s', hm, h⟩
  · cases h

def Sat (P : σ → Prop) (m : EStateM ε σ α) (Q : α → σ → Prop) (E : ε → σ → Prop) : Prop :=
  ∀ s, P s → match m s with
    | .ok a s' => Q a s'
    | .error e s' => E e s'

namespace Sat

variable {P : σ → Prop} {Q : α → σ → Prop} {E : ε → σ → Prop} {E' : ε → σ → Prop}
  {Q' : α → σ → Prop} {m : EStateM ε σ α} {s s' : σ} {a : α} {e : ε}

theorem ok (h : Sat P m Q E) (hs : P s) (hm : m s = .ok a s') : Q a s' := by
  have hrun := h s hs
  rw [hm] at hrun
  exact hrun

theorem error (h : Sat P m Q E) (hs : P s) (hm : m s = .error e s') : E e s' := by
  have hrun := h s hs
  rw [hm] at hrun
  exact hrun

theorem mono {P' : σ → Prop} (h : Sat P' m Q' E') (hP : ∀ s, P s → P' s)
    (hQ : ∀ a s, Q' a s → Q a s) (hE : ∀ e s, E' e s → E e s) : Sat P m Q E := by
  intro s hs
  have hrun := h s (hP s hs)
  cases hm : m s with
  | ok a s' =>
    rw [hm] at hrun
    exact hQ a s' hrun
  | error e s' =>
    rw [hm] at hrun
    exact hE e s' hrun

theorem post (h : Sat P m Q' E') (hQ : ∀ a s, Q' a s → Q a s) (hE : ∀ e s, E' e s → E e s) :
    Sat P m Q E :=
  h.mono (fun _ hs => hs) hQ hE

theorem trivial : Sat P m (fun _ _ => True) (fun _ _ => True) := by
  intro s _
  cases m s with
  | ok a s' | error e s' => exact True.intro

theorem and (h : Sat P m Q E) (h' : Sat P m Q' E') :
    Sat P m (fun a s => Q a s ∧ Q' a s) (fun e s => E e s ∧ E' e s) := by
  intro s hs
  have hrun := h s hs
  have hrun' := h' s hs
  cases hm : m s with
  | ok a s' | error e s' =>
    rw [hm] at hrun hrun'
    exact ⟨hrun, hrun'⟩

theorem fixed (h : Sat P m Q E) (hs : P s) : Sat (· = s) m Q E :=
  fun _ heq => heq ▸ h s hs

theorem of_forall (h : ∀ s, P s → Sat (· = s) m Q E) : Sat P m Q E :=
  fun s hs => h s hs s rfl

theorem pure (h : ∀ s, P s → Q a s) : Sat P (Pure.pure a : EStateM ε σ α) Q E := h

theorem throw (h : ∀ s, P s → E e s) : Sat P (MonadExcept.throw e : EStateM ε σ α) Q E := h

theorem bind {m : EStateM ε σ β} {f : β → EStateM ε σ α} {R : β → σ → Prop}
    (hm : Sat P m R E) (hf : ∀ b, Sat (R b) (f b) Q E) : Sat P (m >>= f) Q E := by
  intro s hs
  have hrun := hm s hs
  show match EStateM.bind m f s with | .ok a s' => Q a s' | .error e s' => E e s'
  unfold EStateM.bind
  cases h : m s with
  | ok b s' =>
    rw [h] at hrun
    exact hf b s' hrun
  | error e s' =>
    rw [h] at hrun
    exact hrun

theorem seq {m : EStateM ε σ β} {f : β → EStateM ε σ α} (hm : Sat P m (fun _ => P) E)
    (hf : ∀ b, Sat P (f b) Q E) : Sat P (m >>= f) Q E := hm.bind hf

theorem get {f : σ → EStateM ε σ α} (h : ∀ s, P s → Sat (· = s) (f s) Q E) :
    Sat P (MonadState.get >>= f) Q E := fun s hs => h s hs s rfl

theorem set {Q : PUnit → σ → Prop} (h : ∀ s, P s → Q ⟨⟩ s') :
    Sat P (MonadState.set s' : EStateM ε σ PUnit) Q E := h

theorem modify {g : σ → σ} {Q : PUnit → σ → Prop} (h : ∀ s, P s → Q ⟨⟩ (g s)) :
    Sat P (modify g : EStateM ε σ PUnit) Q E := h

theorem modifyGet {g : σ → α × σ} (h : ∀ s, P s → Q (g s).1 (g s).2) :
    Sat P (MonadState.modifyGet g : EStateM ε σ α) Q E := h

theorem set_bind {f : PUnit → EStateM ε σ α} (h : Sat (· = s') (f ⟨⟩) Q E) :
    Sat P (MonadState.set s' >>= f) Q E := fun _ _ => h s' rfl

theorem modify_bind {g : σ → σ} {f : PUnit → EStateM ε σ α} (h : Sat (· = g s) (f ⟨⟩) Q E) :
    Sat (· = s) (MonadState.modifyGet (fun s => (PUnit.unit, g s)) >>= f) Q E := by
  rintro _ rfl
  exact h _ rfl

theorem modifyGet_bind {g : σ → β × σ} {f : β → EStateM ε σ α}
    (h : Sat (· = (g s).2) (f (g s).1) Q E) : Sat (· = s) (MonadState.modifyGet g >>= f) Q E := by
  rintro _ rfl
  exact h _ rfl

theorem step {f : σ → Except ε α × σ} (hok : ∀ s a, P s → (f s).1 = .ok a → Q a (f s).2)
    (herr : ∀ s e, P s → (f s).1 = .error e → E e (f s).2) : Sat P (Lib.step f) Q E := by
  intro s hs
  unfold Lib.step
  rcases hf : f s with ⟨e | a, s'⟩
  · have := herr s e hs
    rw [hf] at this
    exact this rfl
  · have := hok s a hs
    rw [hf] at this
    exact this rfl

theorem attempt {Q : Except ε α → σ → Prop}
    (h : Sat P m (fun a => Q (.ok a)) (fun e => Q (.error e))) : Sat P (Lib.attempt m) Q E := by
  intro s hs
  have hrun := h s hs
  unfold Lib.attempt
  cases hm : m s with
  | ok a s' | error e s' =>
    rw [hm] at hrun
    exact hrun

theorem attempt_bind {m : EStateM ε σ β} {f : Except ε β → EStateM ε σ α}
    (hok : ∀ b s', m s = .ok b s' → Sat (· = s') (f (.ok b)) Q E)
    (herr : ∀ e s', m s = .error e s' → Sat (· = s') (f (.error e)) Q E) :
    Sat (· = s) (Lib.attempt m >>= f) Q E := by
  rintro _ rfl
  show match EStateM.bind (Lib.attempt m) f _ with | .ok a s' => Q a s' | .error e s' => E e s'
  unfold EStateM.bind Lib.attempt
  cases hm : m _ with
  | ok b s' => exact hok b s' hm s' rfl
  | error e s' => exact herr e s' hm s' rfl

theorem zoom {get : τ → σ} {put : σ → τ → τ} {P : τ → Prop} {Q : α → τ → Prop} {E : ε → τ → Prop}
    (h : ∀ t, P t → Sat (· = get t) m (fun a s => Q a (put s t)) (fun e s => E e (put s t))) :
    Sat P (Lib.zoom get put m) Q E := by
  intro t ht
  have hrun := h t ht (get t) rfl
  unfold Lib.zoom
  cases hm : m (get t) with
  | ok a s' | error e s' =>
    rw [hm] at hrun
    exact hrun

end Sat

section Zoom

variable {get : τ → σ} {put : σ → τ → τ} {m : EStateM ε σ α} {t t' : τ}

theorem zoom_ok {a : α} (h : zoom get put m t = .ok a t') :
    ∃ s, m (get t) = .ok a s ∧ t' = put s t := by
  unfold zoom at h
  cases hm : m (get t) with
  | ok b s =>
    rw [hm] at h
    cases h
    exact ⟨s, rfl, rfl⟩
  | error e s =>
    rw [hm] at h
    cases h

theorem zoom_error {e : ε} (h : zoom get put m t = .error e t') :
    ∃ s, m (get t) = .error e s ∧ t' = put s t := by
  unfold zoom at h
  cases hm : m (get t) with
  | ok b s =>
    rw [hm] at h
    cases h
  | error e s =>
    rw [hm] at h
    cases h
    exact ⟨s, rfl, rfl⟩

end Zoom

end Lib
