import GooseFS.Error
import GooseFS.Lib.Pool

/-!
# Retries of the master client

The calls of `with_retry` on one `MasterClient` and its clones, which share the
authenticated state and the counter of requests in flight.  After a retriable
error a call publishes a new state before it sends again, so whatever other calls
publish meanwhile, it does not send twice on one state (`retries_advance`).  The
counter, by which `MasterClientPool::pick` compares clients, is exact
(`inflight_exact`).
-/

namespace GooseFS

open Lib List

def Error.isRetriable : Error → Bool
  | .grpcError _ code => code = .unavailable ∨ code = .deadlineExceeded ∨ code = .aborted
  | .transportError _ => true
  | .authenticationFailed _ => true
  | _ => false

def maxRpcRetries : Nat := 2

/-- `epoch` is the number of states published after the first one. -/
structure MasterClient where
  epoch : Nat
  inflight : Int
  deriving DecidableEq, Repr

inductive RpcPc (α : Type) where
  /-- The top of the loop over the attempts. -/
  | top
  | reconnect
  | publish
  | load
  | send (epoch : Nat)
  | awaiting
  | returned (r : Except Error α)
  /-- The future of the call was dropped. -/
  | dropped
  deriving DecidableEq

/-- A call.  `sent` are the states it has sent on and `answers` what came back. -/
structure MasterCall (α : Type) where
  opName : String
  attempt : Nat
  lastErr : Option Error
  pc : RpcPc α
  sent : List Nat
  answers : List (Except Error α)
  deriving DecidableEq

inductive RpcInput (α : Type) where
  | go
  | reconnected (failure : Option String)
  | answer (r : Except Error α)
  | cancel

namespace MasterCall

variable {α : Type}

def start (t : MasterCall α) : Bool :=
  t.attempt = 0 ∧ t.lastErr.isNone ∧ t.pc matches .top ∧ t.sent = [] ∧ t.answers.isEmpty

def exhausted (t : MasterCall α) : Error :=
  t.lastErr.getD (.internal s!"{t.opName}: exhausted all retries")

def retry (t : MasterCall α) (e : Error) : MasterCall α :=
  { t with attempt := t.attempt + 1, lastErr := some e, pc := .top }

def answered (t : MasterCall α) (r : Except Error α) : MasterCall α :=
  let t := { t with answers := t.answers ++ [r] }
  match r with
  | .ok _ => { t with pc := .returned r }
  | .error e =>
    if e.isRetriable ∧ t.attempt < maxRpcRetries then t.retry e else { t with pc := .returned r }

/-- One access to the shared client.  The answer comes with the end of the guard. -/
def next (m : MasterClient) (t : MasterCall α) (x : RpcInput α) :
    Option (MasterClient × MasterCall α) :=
  match t.pc, x with
  | .top, .go =>
    some (m, { t with pc :=
      if maxRpcRetries < t.attempt then .returned (.error t.exhausted)
      else if t.attempt = 0 then .load else .reconnect })
  | .reconnect, .reconnected (some e) =>
    some (m, t.retry (.internal s!"master reconnect failed: {e}"))
  | .reconnect, .reconnected none => some (m, { t with pc := .publish })
  | .reconnect, .cancel => some (m, { t with pc := .dropped })
  | .publish, .go => some ({ m with epoch := m.epoch + 1 }, { t with pc := .load })
  | .load, .go => some (m, { t with pc := .send m.epoch })
  | .send epoch, .go =>
    some ({ m with inflight := m.inflight + 1 },
      { t with pc := .awaiting, sent := t.sent ++ [epoch] })
  | .awaiting, .answer r => some ({ m with inflight := m.inflight - 1 }, t.answered r)
  | .awaiting, .cancel =>
    some ({ m with inflight := m.inflight - 1 }, { t with pc := .dropped })
  | _, _ => none

end MasterCall

abbrev MasterCalls (α : Type) := Pool MasterClient (MasterCall α)

namespace MasterCalls

variable {α : Type}

def step : MasterCalls α → PoolAct (MasterCall α) (RpcInput α) → Option (MasterCalls α) :=
  Pool.step MasterCall.start MasterCall.next

def init : MasterCalls α := ⟨⟨0, 0⟩, []⟩

end MasterCalls

namespace MasterCall

variable {α : Type} {m m' : MasterClient} {t t' : MasterCall α} {x : RpcInput α}

theorem start_eq (h : t.start = true) : t = ⟨t.opName, 0, none, .top, [], []⟩ := by
  obtain ⟨op, attempt, lastErr, pc, sent, answers⟩ := t
  simp only [start, decide_eq_true_eq] at h
  obtain ⟨rfl, hlast, hpc, rfl, hanswers⟩ := h
  cases pc <;> simp_all

def isAwaiting (t : MasterCall α) : Bool := t.pc matches .awaiting

def awaits (t : MasterCall α) : Int := if t.isAwaiting then 1 else 0

theorem inflight_of_next (h : next m t x = some (m', t')) :
    m'.inflight - t'.awaits = m.inflight - t.awaits := by
  unfold next at h
  split at h <;> cases h
  all_goals simp only [awaits, isAwaiting, answered, retry, *]
  all_goals grind

def Retried (answers : List (Except Error α)) : Prop :=
  ∀ r ∈ answers, ∃ e, r = .error e ∧ e.isRetriable = true

/-- The call has made no more requests than it had attempts, and is within them. -/
def Within (t : MasterCall α) : Prop := t.sent.length ≤ t.attempt ∧ t.attempt ≤ maxRpcRetries

/-- What a call has sent when it comes to `t.pc`. -/
def Stands (m : MasterClient) (t : MasterCall α) : Prop :=
  match t.pc with
  | .top => t.sent.length ≤ t.attempt
  | .reconnect | .publish => t.Within
  | .load => t.Within ∧ ∀ e ∈ t.sent, e < m.epoch
  | .send epoch => t.Within ∧ epoch ≤ m.epoch ∧ ∀ e ∈ t.sent, e < epoch
  | .awaiting => t.sent.length ≤ t.attempt + 1
  | _ => True

/-- What holds of a call after any number of its steps. -/
structure Advances (m : MasterClient) (t : MasterCall α) : Prop where
  ascending : t.sent.Pairwise (· < ·)
  published : ∀ e ∈ t.sent, e ≤ m.epoch
  stands : t.Stands m
  tries : t.attempt ≤ maxRpcRetries + 1
  count : t.sent.length ≤ maxRpcRetries + 1
  outcome : Retried t.answers ∨ ∃ r pre, t.pc = .returned r ∧ t.answers = pre ++ [r] ∧ Retried pre

theorem Advances.mono (ht : Advances m t) (hepoch : m.epoch ≤ m'.epoch) : Advances m' t := by
  refine { ht with published := fun e he => Nat.le_trans (ht.published e he) hepoch, stands := ?_ }
  have hstands := ht.stands
  unfold Stands at hstands ⊢
  split at hstands
  case h_4 => exact ⟨hstands.1, fun e he => Nat.lt_of_lt_of_le (hstands.2 e he) hepoch⟩
  case h_5 => exact ⟨hstands.1, Nat.le_trans hstands.2.1 hepoch, hstands.2.2⟩
  all_goals exact hstands

theorem epoch_of_next (h : next m t x = some (m', t')) : m.epoch ≤ m'.epoch := by
  unfold next at h
  split at h <;> cases h <;> simp

theorem Advances.answered (ht : Advances m t) (hpc : t.pc = .awaiting) (hretried : Retried t.answers)
    (r : Except Error α) (n : Int) : Advances { m with inflight := n } (t.answered r) := by
  have hreturned : Advances { m with inflight := n }
      { t with pc := .returned r, answers := t.answers ++ [r] } :=
    ⟨ht.ascending, ht.published, trivial, ht.tries, ht.count,
      .inr ⟨r, t.answers, rfl, rfl, hretried⟩⟩
  cases r with
  | ok v => exact hreturned
  | error e =>
    simp only [MasterCall.answered]
    split
    · next hretry =>
      have hstands := ht.stands
      rw [Stands, hpc] at hstands
      refine ⟨ht.ascending, ht.published, hstands, Nat.le_succ_of_le hretry.2, ht.count,
        .inl fun r hr => ?_⟩
      obtain hr | hr := mem_append.1 hr
      · exact hretried r hr
      · exact ⟨e, mem_singleton.1 hr, hretry.1⟩
    · exact hreturned

theorem Advances.next (ht : Advances m t) (h : next m t x = some (m', t')) : Advances m' t' := by
  have hretried : Retried t.answers := by
    obtain hout | ⟨r, pre, hpc, -⟩ := ht.outcome
    · exact hout
    · simp [MasterCall.next, hpc] at h
  have hgoto : ∀ pc : RpcPc α, Stands m { t with pc } → Advances m { t with pc } := fun _ hpc =>
    ⟨ht.ascending, ht.published, hpc, ht.tries, ht.count, .inl hretried⟩
  have hstands := ht.stands
  unfold Stands at hstands
  unfold MasterCall.next at h
  split at h <;> cases h <;> rename_i hpc <;> rw [hpc] at hstands
  · by_cases hlast : maxRpcRetries < t.attempt
    · rw [if_pos hlast]
      exact hgoto _ trivial
    · have hwithin : t.Within := ⟨hstands, Nat.le_of_not_lt hlast⟩
      rw [if_neg hlast]
      split
      · next hfirst =>
        rw [hfirst] at hstands
        have hnone : t.sent = [] := eq_nil_of_length_eq_zero (Nat.le_zero.1 hstands)
        exact hgoto .load ⟨hwithin, by simp [hnone]⟩
      · exact hgoto .reconnect hwithin
  · exact ⟨ht.ascending, ht.published, Nat.le_succ_of_le hstands.1, Nat.succ_le_succ hstands.2,
      ht.count, .inl hretried⟩
  · exact hgoto .publish hstands
  · exact hgoto .dropped trivial
  · have hold : ∀ e ∈ t.sent, e < m.epoch + 1 := fun e he => Nat.lt_succ_of_le (ht.published e he)
    exact ⟨ht.ascending, fun e he => Nat.le_of_lt (hold e he), ⟨hstands, hold⟩, ht.tries,
      ht.count, .inl hretried⟩
  · exact hgoto (.send m.epoch) ⟨hstands.1, Nat.le_refl _, hstands.2⟩
  · obtain ⟨⟨hsent, hattempt⟩, hepoch, hnew⟩ := hstands
    refine ⟨?_, ?_, ?_, ht.tries, ?_, .inl hretried⟩
    · exact pairwise_append.2 ⟨ht.ascending, pairwise_singleton _ _, by simpa using hnew⟩
    · simpa [or_imp, forall_and] using ⟨ht.published, hepoch⟩
    · simpa [Stands] using hsent
    · simpa using Nat.le_trans hsent hattempt
  · exact ht.answered hpc hretried _ _
  · exact ⟨ht.ascending, ht.published, trivial, ht.tries, ht.count, .inl hretried⟩

end MasterCall

namespace MasterCalls

open MasterCall

variable {α : Type} {C : MasterCalls α → PoolAct (MasterCall α) (RpcInput α) → Prop}
  {as : List (PoolAct (MasterCall α) (RpcInput α))} {p p' : MasterCalls α}

theorem inflight_of_step (a : PoolAct (MasterCall α) (RpcInput α))
    (hp : p.shared.inflight = tally awaits p.tasks) (_ : C p a) (hstep : step p a = some p') :
    p'.shared.inflight = tally awaits p'.tasks := by
  obtain ⟨t, rfl, hstart, rfl⟩ | ⟨i, x, t, m', t', rfl, hi, hnext, rfl⟩ := Pool.step_cases hstep
  · rw [tally_append, start_eq hstart, ← hp]
    exact (Int.add_zero _).symm
  · have hmove := inflight_of_next hnext
    show m'.inflight = _
    rw [tally_set _ hi, ← hp]
    omega

/-- In every run the counter is the number of calls that wait for an answer. -/
theorem inflight_exact (h : Guarded step C init as p) : p.shared.inflight = tally awaits p.tasks :=
  h.invariant (fun _ a _ => inflight_of_step a) rfl

/-- A call is answered on the second state while another one waits. -/
def failover : List (PoolAct (MasterCall Nat) (RpcInput Nat)) :=
  [.spawn ⟨"get_status", 0, none, .top, [], []⟩, .spawn ⟨"delete", 0, none, .top, [], []⟩,
    .run 0 .go, .run 0 .go, .run 0 .go, .run 0 (.answer (.error (.transportError "reset"))),
    .run 1 .go, .run 1 .go, .run 1 .go, .run 0 .go, .run 0 (.reconnected none), .run 0 .go,
    .run 0 .go, .run 0 .go, .run 0 (.answer (.ok 7))]

theorem failover_runs : ∃ p, Guarded step (fun _ _ => True) init failover p ∧
    p.shared.inflight = 1 ∧ ∃ t ∈ p.tasks, t.sent = [0, 1] :=
  Guarded.exists_of_replay (by decide +kernel)

theorem inflight_exact_failover : ∃ p : MasterCalls Nat, p.shared.inflight = 1 ∧
    p.shared.inflight = tally awaits p.tasks := by
  obtain ⟨p, hrun, hone, -⟩ := failover_runs
  exact ⟨p, hone, inflight_exact hrun⟩

/-- In every run, the states that a call sends on are published one after the other,
it makes at most three attempts, failed reconnects included, and all its answers but
the one it returns are retriable errors. -/
theorem retries_advance (h : Guarded step C init as p) (t : MasterCall α) (ht : t ∈ p.tasks) :
    t.sent.Pairwise (· < ·) ∧ t.sent.length ≤ maxRpcRetries + 1 ∧ t.attempt ≤ maxRpcRetries + 1 ∧
      (Retried t.answers ∨ ∃ r pre, t.pc = .returned r ∧ t.answers = pre ++ [r] ∧ Retried pre) := by
  have hrun : p.Holds (fun _ => True) Advances fun _ _ => True := by
    refine Pool.Holds.run (fun _ _ _ => trivial) ?_ ?_ h (.init trivial)
    · intro p t _ _ hstart
      rw [start_eq hstart]
      refine ⟨⟨.nil, ?_, Nat.le_refl _, Nat.zero_le _, Nat.zero_le _, Or.inl ?_⟩, fun _ => trivial⟩
      all_goals simp [Retried]
    · intro p i x t m' t' hp _ hi hnext
      refine ⟨trivial, (hp.tasks.get hi).next hnext, fun j u _ hj => ⟨?_, trivial⟩⟩
      exact (hp.tasks.get hj).mono (epoch_of_next hnext)
  have hadv := hrun.tasks t ht
  exact ⟨hadv.ascending, hadv.count, hadv.tries, hadv.outcome⟩

theorem retries_advance_failover : ∃ p : MasterCalls Nat, ∃ t ∈ p.tasks, t.sent = [0, 1] ∧
    t.sent.Pairwise (· < ·) := by
  obtain ⟨p, hrun, -, t, ht, hsent⟩ := failover_runs
  exact ⟨p, t, ht, hsent, (retries_advance hrun t ht).1⟩

end MasterCalls

end GooseFS
