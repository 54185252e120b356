import GooseFS.Client.MasterInquire
import GooseFS.Lib.Pool

/-!
# One discovery poll at a time

`get_primary_rpc_address` as a transition system.  A caller looks at the cached
primary first.  Then it takes the gate: the first caller becomes the leader, polls
and broadcasts the outcome on its watch channel; every caller that finds a channel
in the gate follows it.  A `LeaderGuard` releases the gate when the leader is done
or is cancelled.

A completed guard clears the gate twice, in `complete` and again when it is
dropped.  A leader that takes the gate in between loses it, and a third caller
polls beside it (`two_polls_in_flight`).  The followers are served in every run.
-/

namespace GooseFS

open Lib List

/-! ## Callers -/

structure Watch where
  value : Option (Except String String)
  closed : Bool
  deriving DecidableEq

/-- The fields of `PollingMasterInquireClient` that the callers share.  `gate` and the
callers name a channel by its place in `channels`. -/
structure PollGate where
  cachedPrimary : Option String
  gate : Option Nat
  channels : List Watch
  deriving DecidableEq

inductive Caller where
  /-- The fast path, with a ping of the cached primary. -/
  | cached
  | gate
  | polling (ch : Nat)
  /-- `LeaderGuard::complete` is about to broadcast. -/
  | complete (ch : Nat) (r : Except String String)
  | clear (ch : Nat) (r : Except String String)
  /-- `complete` has returned; the guard itself is dropped. -/
  | drop (ch : Nat) (r : Except String String)
  | led (ch : Nat) (r : Except String String)
  /-- The guard of a cancelled leader. -/
  | dropSend (ch : Nat)
  | dropClear (ch : Nat)
  | dropped (ch : Nat)
  | waiting (ch : Nat)
  | followed (ch : Nat) (r : Except String String)
  | returned (addr : String)
  | cancelled
  /-- `reset_cached_primary`, and its end. -/
  | resetPrimary
  | reset
  deriving DecidableEq

inductive CallerInput where
  | proceed
  | ping (p : Ping)
  /-- The poll is over after `fuel` rounds. -/
  | polled (env : PollEnv) (fuel : Nat)
  | cancel

def cancelledPoll : Except String String :=
  .error "primary master poll cancelled before completion"

namespace PollGate

/-- `watch::channel(None)`, with its receiver in the gate. -/
def openChannel (m : PollGate) : PollGate :=
  { m with gate := some m.channels.length, channels := m.channels ++ [⟨none, false⟩] }

/-- `send`, after which the sender is dropped.  Receivers look for a new value before
they look for the sender. -/
def broadcast (m : PollGate) (ch : Nat) (r : Except String String) : PollGate :=
  { m with channels := m.channels.set ch ⟨some r, true⟩ }

def clearGate (m : PollGate) : PollGate := { m with gate := none }

def found (m : PollGate) : Except String String → PollGate
  | .ok addr => { m with cachedPrimary := some addr }
  | .error _ => m

end PollGate

namespace Caller

/-- The next step of a caller.  A caller is cancelled where it awaits. -/
def next (c : PollingMasterInquireClient) (m : PollGate) :
    Caller → CallerInput → Option (PollGate × Caller)
  | .cached, .ping p =>
    match m.cachedPrimary with
    | none => some (m, .gate)
    | some addr =>
      match pingMetaService addr p with
      | .ok () => some (m, .returned addr)
      | .error _ => some (m, .gate)
  | .cached, .cancel => some (m, .cancelled)
  | .gate, .proceed =>
    match m.gate with
    | some ch => some (m, .waiting ch)
    | none => some (m.openChannel, .polling m.channels.length)
  | .polling ch, .polled env fuel =>
    (c.pollForPrimary env fuel).map fun r => (m.found r, .complete ch r)
  | .polling ch, .cancel => some (m, .dropSend ch)
  | .complete ch r, .proceed => some (m.broadcast ch r, .clear ch r)
  | .clear ch r, .proceed => some (m.clearGate, .drop ch r)
  -- `Drop` finds no sender to use, and clears the gate all the same
  | .drop ch r, .proceed => some (m.clearGate, .led ch r)
  | .dropSend ch, .proceed => some (m.broadcast ch cancelledPoll, .dropClear ch)
  | .dropClear ch, .proceed => some (m.clearGate, .dropped ch)
  | .waiting ch, .proceed =>
    match m.channels[ch]? with
    | some ⟨some r, _⟩ => some (m, .followed ch r)
    | some ⟨none, true⟩ => some (m, .cached)
    | _ => none
  | .waiting _, .cancel => some (m, .cancelled)
  | .resetPrimary, .proceed => some ({ m with cachedPrimary := none }, .reset)
  | _, _ => none

def result : Caller → Option (Except Error String)
  | .led _ r => some (r.mapError .internal)
  | .followed _ r => some (r.mapError .internal)
  | .returned addr => some (.ok addr)
  | _ => none

def leads : Caller → Option Nat
  | .polling ch => some ch
  | .complete ch _ => some ch
  | .clear ch _ => some ch
  | .drop ch _ => some ch
  | .led ch _ => some ch
  | .dropSend ch => some ch
  | .dropClear ch => some ch
  | .dropped ch => some ch
  | _ => none

def outcome : Caller → Option (Except String String)
  | .complete _ r => some r
  | .clear _ r => some r
  | .drop _ r => some r
  | .led _ r => some r
  | .dropSend _ => some cancelledPoll
  | .dropClear _ => some cancelledPoll
  | .dropped _ => some cancelledPoll
  | _ => none

/-- A leader that has broadcast its outcome: it has finished or has been dropped, up to
the release of the gate. -/
def hasLeft : Caller → Bool
  | .clear _ _ => true
  | .drop _ _ => true
  | .led _ _ => true
  | .dropClear _ => true
  | .dropped _ => true
  | _ => false

def isPolling : Caller → Bool
  | .polling _ => true
  | _ => false

def holdsGate : Caller → Option Nat
  | .polling ch => some ch
  | .complete ch _ => some ch
  | .clear ch _ => some ch
  | .dropSend ch => some ch
  | .dropClear ch => some ch
  | _ => none

def isDropping : Caller → Bool
  | .drop _ _ => true
  | _ => false

/-- A leader from the moment it takes the gate to its last release. -/
def isEngaged (t : Caller) : Bool := t.holdsGate.isSome || t.isDropping

end Caller

abbrev Inquiries := Pool PollGate Caller

namespace Inquiries

def start (t : Caller) : Bool := t = .cached ∨ t = .resetPrimary

def step (c : PollingMasterInquireClient) : Inquiries → PoolAct Caller CallerInput →
    Option Inquiries :=
  Pool.step start (Caller.next c)

def init : Inquiries := ⟨⟨none, none, []⟩, []⟩

/-- A follower can take its outcome as soon as its leader has left, and the outcome is
that of its leader. -/
structure FollowersServed (c : PollingMasterInquireClient) (s : Inquiries) : Prop where
  waiting : ∀ ch, .waiting ch ∈ s.tasks → ∃ u ∈ s.tasks, u.leads = some ch ∧
    (u.hasLeft = true → ∃ r, u.outcome = some r ∧
      Caller.next c s.shared (.waiting ch) .proceed = some (s.shared, .followed ch r))
  followed : ∀ ch r, .followed ch r ∈ s.tasks → ∃ u ∈ s.tasks, u.leads = some ch ∧
    u.outcome = some r

def OnePoll (s : Inquiries) : Prop :=
  Apart (fun t u : Caller => ¬ (t.isPolling = true ∧ u.isPolling = true)) s.tasks

/-- A caller takes the gate only while no guard stands between its two releases. -/
def ReleasedOnce (s : Inquiries) : PoolAct Caller CallerInput → Prop
  | .run i _ => s.tasks[i]? = some .gate → ∀ u ∈ s.tasks, u.isDropping = false
  | .spawn _ => True

instance (s : Inquiries) (a : PoolAct Caller CallerInput) : Decidable (s.ReleasedOnce a) := by
  cases a <;> unfold ReleasedOnce <;> infer_instance

end Inquiries

/-! ## Steps of a caller -/

namespace Caller

variable {c : PollingMasterInquireClient} {m m' : PollGate} {t t' : Caller} {x : CallerInput}

/-- The step keeps the gate as it is and what the caller has to do with it. -/
structure KeepsGate (m : PollGate) (t : Caller) (m' : PollGate) (t' : Caller) : Prop where
  gate : m'.gate = m.gate
  holdsGate : t'.holdsGate = t.holdsGate
  isDropping : t'.isDropping = t.isDropping

structure ClearsGate (t : Caller) (m' : PollGate) (t' : Caller) : Prop where
  gate : m'.gate = none
  holdsGate : t'.holdsGate = none
  isEngaged : t.isEngaged = true

/-- A step that neither opens a channel nor sends on one. -/
structure Quiet (m : PollGate) (t : Caller) (m' : PollGate) (t' : Caller) : Prop where
  channels : m'.channels = m.channels
  gate : KeepsGate m t m' t' ∨ ClearsGate t m' t'
  leads : t'.leads = t.leads
  hasLeft : t'.hasLeft = t.hasLeft
  outcome : t.hasLeft = true → t'.outcome = t.outcome
  waiting : ∀ ch, t' = .waiting ch → m.gate = some ch
  followed : ∀ ch r, t' = .followed ch r → ∃ closed, m.channels[ch]? = some ⟨some r, closed⟩

theorem Quiet.of_not_leading (hwaiting : ∀ ch, t' = .waiting ch → m.gate = some ch := by simp)
    (hfollowed : ∀ ch r, t' = .followed ch r →
      ∃ closed, m.channels[ch]? = some ⟨some r, closed⟩ := by simp)
    (hchannels : m'.channels = m.channels := by rfl)
    (hgate : KeepsGate m t m' t' := by exact ⟨rfl, rfl, rfl⟩) (ht : t.leads = none := by rfl)
    (ht' : t'.leads = none := by rfl) (hl : t.hasLeft = false := by rfl)
    (hl' : t'.hasLeft = false := by rfl) : Quiet m t m' t' where
  channels := hchannels
  gate := .inl hgate
  leads := ht'.trans ht.symm
  hasLeft := hl'.trans hl.symm
  outcome := fun h => by rw [hl] at h; cases h
  waiting := hwaiting
  followed := hfollowed

theorem Quiet.of_clearGate (hl : t.hasLeft = true) (hl' : t'.hasLeft = true)
    (hleads : t'.leads = t.leads) (houtcome : t'.outcome = t.outcome)
    (hengaged : t.isEngaged = true) (hgate : t'.holdsGate = none) :
    Quiet m t m.clearGate t' where
  channels := rfl
  gate := .inr ⟨rfl, hgate, hengaged⟩
  leads := hleads
  hasLeft := hl'.trans hl.symm
  outcome := fun _ => houtcome
  waiting := by
    rintro ch rfl
    cases hl'
  followed := by
    rintro ch r rfl
    cases hl'

theorem Quiet.gate_of_gate (h : Quiet m t m' t') {ch : Nat} (hgate : m'.gate = some ch) :
    m.gate = some ch := by
  obtain hkeeps | hclears := h.gate
  · exact hkeeps.gate ▸ hgate
  · rw [hclears.gate] at hgate
    cases hgate

theorem next_cases (h : next c m t x = some (m', t')) :
    (t = .gate ∧ m.gate = none ∧ m' = m.openChannel ∧ t' = .polling m.channels.length) ∨
      (∃ ch r, t.leads = some ch ∧ t.hasLeft = false ∧ m' = m.broadcast ch r ∧
        t'.leads = some ch ∧ t'.hasLeft = true ∧ t'.outcome = some r ∧ KeepsGate m t m' t') ∨
      Quiet m t m' t' := by
  unfold next at h
  split at h
  · refine .inr (.inr ?_)
    split at h
    · cases h
      exact .of_not_leading
    · split at h
      · cases h
        exact .of_not_leading
      · cases h
        exact .of_not_leading
  · cases h
    exact .inr (.inr .of_not_leading)
  · split at h
    · next hgate =>
      cases h
      refine .inr (.inr (.of_not_leading ?_))
      rintro ch' heq
      cases heq
      exact hgate
    · next hgate =>
      cases h
      exact .inl ⟨rfl, hgate, rfl, rfl⟩
  · obtain ⟨r, -, hr⟩ := Option.map_eq_some_iff.1 h
    cases hr
    refine .inr (.inr ⟨?_, .inl ⟨?_, rfl, rfl⟩, rfl, rfl, by simp [hasLeft], by simp, by simp⟩)
    · cases r <;> rfl
    · cases r <;> rfl
  · cases h
    exact .inr (.inr ⟨rfl, .inl ⟨rfl, rfl, rfl⟩, rfl, rfl, by simp [hasLeft], by simp, by simp⟩)
  · cases h
    exact .inr (.inl ⟨_, _, rfl, rfl, rfl, rfl, rfl, rfl, rfl, rfl, rfl⟩)
  · cases h
    exact .inr (.inr (.of_clearGate rfl rfl rfl rfl rfl rfl))
  · cases h
    exact .inr (.inr (.of_clearGate rfl rfl rfl rfl rfl rfl))
  · cases h
    exact .inr (.inl ⟨_, _, rfl, rfl, rfl, rfl, rfl, rfl, rfl, rfl, rfl⟩)
  · cases h
    exact .inr (.inr (.of_clearGate rfl rfl rfl rfl rfl rfl))
  · refine .inr (.inr ?_)
    split at h
    · next closed hch =>
      cases h
      refine .of_not_leading (by simp) ?_
      rintro ch' r' heq
      cases heq
      exact ⟨closed, hch⟩
    · cases h
      exact .of_not_leading
    · cases h
  · cases h
    exact .inr (.inr .of_not_leading)
  · cases h
    exact .inr (.inr .of_not_leading)
  · cases h

structure Accounted (m : PollGate) (t : Caller) : Prop where
  leads : ∀ ch, t.leads = some ch → ∃ w, m.channels[ch]? = some w ∧
    w.value = if t.hasLeft then t.outcome else none
  waiting : ∀ ch, t = .waiting ch → ch < m.channels.length
  followed : ∀ ch r, t = .followed ch r → ∃ closed, m.channels[ch]? = some ⟨some r, closed⟩

theorem Accounted.of_channels (h : t.Accounted m) (hch : m'.channels = m.channels) :
    t.Accounted m' where
  leads := by rw [hch]; exact h.leads
  waiting := by rw [hch]; exact h.waiting
  followed := by rw [hch]; exact h.followed

theorem Accounted.openChannel (h : t.Accounted m) : t.Accounted m.openChannel where
  leads := by
    intro ch hch
    obtain ⟨w, hw, hvalue⟩ := h.leads ch hch
    exact ⟨w, getElem?_append_left (List.getElem?_eq_some_iff.1 hw).1 ▸ hw, hvalue⟩
  waiting := by
    intro ch ht
    have hlt := h.waiting ch ht
    simp only [PollGate.openChannel, length_append]
    omega
  followed := by
    intro ch r ht
    obtain ⟨closed, hw⟩ := h.followed ch r ht
    exact ⟨closed, getElem?_append_left (List.getElem?_eq_some_iff.1 hw).1 ▸ hw⟩

theorem Accounted.broadcast (h : t.Accounted m) {ch : Nat} {w : Watch} {r : Except String String}
    (hne : t.leads ≠ some ch) (hw : m.channels[ch]? = some w) (hvalue : w.value = none) :
    t.Accounted (m.broadcast ch r) where
  leads := by
    intro ch' ht
    have hch : ch ≠ ch' := fun heq => hne (heq ▸ ht)
    obtain ⟨w', hw', hvalue'⟩ := h.leads ch' ht
    refine ⟨w', ?_, hvalue'⟩
    rw [PollGate.broadcast, getElem?_set_ne hch, hw']
  waiting := by
    intro ch' ht
    simp only [PollGate.broadcast, length_set]
    exact h.waiting ch' ht
  followed := by
    intro ch' r' ht
    obtain ⟨closed, hw'⟩ := h.followed ch' r' ht
    have hch : ch ≠ ch' := by
      rintro rfl
      rw [hw] at hw'
      cases hw'
      cases hvalue
    refine ⟨closed, ?_⟩
    rw [PollGate.broadcast, getElem?_set_ne hch, hw']

end Caller

namespace Inquiries

variable {c : PollingMasterInquireClient} {s : Inquiries} {as : List (PoolAct Caller CallerInput)}
  {C : Inquiries → PoolAct Caller CallerInput → Prop} {t : Caller}

def gateInRange (m : PollGate) : Prop := ∀ ch, m.gate = some ch → ch < m.channels.length

def leadApart (t u : Caller) : Prop := ∀ ch, t.leads = some ch → u.leads ≠ some ch

theorem not_leading_of_start (h : start t = true) :
    t.leads = none ∧ t.holdsGate = none ∧ t.isDropping = false := by
  obtain rfl | rfl := of_decide_eq_true h <;> exact ⟨rfl, rfl, rfl⟩

theorem accounted_of_start (h : start t = true) (m : PollGate) : t.Accounted m where
  leads := by
    intro ch ht
    rw [(not_leading_of_start h).1] at ht
    cases ht
  waiting := by
    rintro ch rfl
    cases h
  followed := by
    rintro ch r rfl
    cases h

theorem accounted_run (h : Guarded (step c) C init as s) :
    s.Holds gateInRange (fun m t => t.Accounted m) leadApart := by
  refine Pool.Holds.run ?_ ?_ ?_ h (.init fun ch hgate => by cases hgate)
  · intro t u htu ch hu ht
    exact htu ch ht hu
  · intro p t hp _ hstart
    refine ⟨accounted_of_start hstart _, fun u ch ht => ?_⟩
    rw [(not_leading_of_start hstart).1] at ht
    cases ht
  · intro p i x t m' t' hp _ hi hnext
    obtain ⟨rfl, hgate, rfl, rfl⟩ | ⟨ch, r, hlead, hleft, rfl, hlead', hleft', hout, -⟩ | hq :=
      Caller.next_cases hnext
    · -- the new channel has no leader but the caller
      refine ⟨?_, ⟨?_, by simp, by simp⟩, fun j u _ hj => ⟨(hp.tasks.get hj).openChannel, ?_⟩⟩
      · rintro ch ⟨⟩
        simp [PollGate.openChannel]
      · rintro ch ⟨⟩
        exact ⟨⟨none, false⟩, by simp [PollGate.openChannel], rfl⟩
      · rintro ch ⟨⟩ hu
        obtain ⟨w, hw, -⟩ := (hp.tasks.get hj).leads _ hu
        exact Nat.lt_irrefl _ (List.getElem?_eq_some_iff.1 hw).1
    · obtain ⟨w, hw, hvalue⟩ := (hp.tasks.get hi).leads ch hlead
      rw [hleft] at hvalue
      have hlt := (List.getElem?_eq_some_iff.1 hw).1
      refine ⟨?_, ⟨?_, ?_, ?_⟩, fun j u hne hj => ⟨?_, ?_⟩⟩
      · intro ch' hgate
        simp only [PollGate.broadcast, length_set]
        exact hp.shared ch' hgate
      · intro ch' hch'
        cases hlead'.symm.trans hch'
        refine ⟨⟨some r, true⟩, ?_, by rw [hleft', if_pos rfl, hout]⟩
        rw [PollGate.broadcast, getElem?_set_self hlt]
      · rintro ch' rfl
        cases hleft'
      · rintro ch' r' rfl
        cases hleft'
      · exact (hp.tasks.get hj).broadcast (hp.apart (Ne.symm hne) hi hj ch hlead) hw hvalue
      · intro ch' hch'
        cases hlead'.symm.trans hch'
        exact hp.apart (Ne.symm hne) hi hj ch hlead
    · have hown := hp.tasks.get hi
      refine ⟨?_, ⟨?_, ?_, ?_⟩, fun j u hne hj => ⟨?_, ?_⟩⟩
      · intro ch hgate
        rw [hq.channels]
        exact hp.shared ch (hq.gate_of_gate hgate)
      · intro ch hch
        obtain ⟨w, hw, hvalue⟩ := hown.leads ch (hq.leads ▸ hch)
        refine ⟨w, hq.channels ▸ hw, ?_⟩
        rw [hvalue, hq.hasLeft]
        split
        · next hleft => exact (hq.outcome hleft).symm
        · rfl
      · intro ch ht'
        rw [hq.channels]
        exact hp.shared ch (hq.waiting ch ht')
      · intro ch r ht'
        rw [hq.channels]
        exact hq.followed ch r ht'
      · exact (hp.tasks.get hj).of_channels hq.channels
      · intro ch hch
        exact hp.apart (Ne.symm hne) hi hj ch (hq.leads ▸ hch)

def Led (s : Inquiries) : Prop :=
  ∀ ch < s.shared.channels.length, ∃ u ∈ s.tasks, u.leads = some ch

theorem led_run (h : Guarded (step c) C init as s) : s.Led := by
  refine h.invariant ?_ fun ch hch => (Nat.not_lt_zero _ hch).elim
  intro p a p' hp _ hstep ch hch
  obtain ⟨t, rfl, -, rfl⟩ | ⟨i, x, t, m', t', rfl, hi, hnext, rfl⟩ := Pool.step_cases hstep
  · obtain ⟨u, hu, hlead⟩ := hp ch hch
    exact ⟨u, mem_append_left _ hu, hlead⟩
  obtain ⟨rfl, -, rfl, rfl⟩ | ⟨ch', r, hlead, -, rfl, hlead', -⟩ | hq := Caller.next_cases hnext
  · simp only [PollGate.openChannel, length_append, length_singleton] at hch
    obtain hlt | rfl := Nat.lt_succ_iff_lt_or_eq.1 hch
    · exact exists_mem_set hi (hp ch hlt) (fun ht => by cases ht) fun _ hu => hu
    · exact ⟨_, mem_set_self hi, rfl⟩
  · simp only [PollGate.broadcast, length_set] at hch
    exact exists_mem_set hi (hp ch hch) (fun ht => hlead'.trans (hlead.symm.trans ht))
      fun _ hu => hu
  · rw [hq.channels] at hch
    exact exists_mem_set hi (hp ch hch) (fun ht => hq.leads.trans ht) fun _ hu => hu

theorem followersServed_run (h : Guarded (step c) C init as s) : s.FollowersServed c where
  waiting := by
    intro ch hmem
    have hacc := accounted_run h
    obtain ⟨u, hu, hlead⟩ := led_run h ch ((hacc.tasks _ hmem).waiting ch rfl)
    refine ⟨u, hu, hlead, fun hleft => ?_⟩
    obtain ⟨⟨value, closed⟩, hw, hvalue⟩ := (hacc.tasks u hu).leads ch hlead
    rw [if_pos hleft] at hvalue
    obtain ⟨r, hr⟩ : ∃ r, u.outcome = some r := by
      cases u <;> first | exact ⟨_, rfl⟩ | cases hleft
    refine ⟨r, hr, ?_⟩
    rw [hr] at hvalue
    cases hvalue
    simp only [Caller.next, hw]
  followed := by
    intro ch r hmem
    have hacc := accounted_run h
    obtain ⟨closed, hw⟩ := (hacc.tasks _ hmem).followed ch r rfl
    obtain ⟨u, hu, hlead⟩ := led_run h ch (List.getElem?_eq_some_iff.1 hw).1
    refine ⟨u, hu, hlead, ?_⟩
    obtain ⟨w, hw', hvalue⟩ := (hacc.tasks u hu).leads ch hlead
    rw [hw] at hw'
    cases hw'
    split at hvalue
    · exact hvalue.symm
    · cases hvalue

/-! ## One poll at a time -/

/-- A leader that has not released the gate finds its own channel there. -/
def ownGate (m : PollGate) (t : Caller) : Prop := ∀ ch, t.holdsGate = some ch → m.gate = some ch

def engagedApart (t u : Caller) : Prop := ¬ (t.isEngaged = true ∧ u.isEngaged = true)

theorem not_engaged_of_gate_none {m : PollGate} {u : Caller} (hu : ownGate m u)
    (hgate : m.gate = none) (hdrop : u.isDropping = false) : u.isEngaged = false := by
  cases hh : u.holdsGate with
  | none => simp [Caller.isEngaged, hh, hdrop]
  | some ch =>
    rw [hu ch hh] at hgate
    cases hgate

theorem engaged_run (h : Guarded (step c) ReleasedOnce init as s) :
    s.Holds (fun _ => True) ownGate engagedApart := by
  refine Pool.Holds.run ?_ ?_ ?_ h (.init trivial)
  · exact fun t u htu hut => htu hut.symm
  · intro p t hp _ hstart
    obtain ⟨-, hgate, hdrop⟩ := not_leading_of_start hstart
    refine ⟨fun ch hch => ?_, fun u hu => ?_⟩
    · rw [hgate] at hch
      cases hch
    · have ht := hu.1
      simp [Caller.isEngaged, hgate, hdrop] at ht
  · intro p i x t m' t' hp hc hi hnext
    have keeps (hk : Caller.KeepsGate p.shared t m' t') : True ∧ ownGate m' t' ∧
        ∀ j u, j ≠ i → p.tasks[j]? = some u → ownGate m' u ∧ engagedApart t' u := by
      have hengaged : t'.isEngaged = t.isEngaged := by
        rw [Caller.isEngaged, hk.holdsGate, hk.isDropping, Caller.isEngaged]
      refine ⟨trivial, fun ch hch => ?_, fun j u hne hj => ⟨fun ch hch => ?_, ?_⟩⟩
      · rw [hk.gate]
        exact hp.tasks.get hi ch (hk.holdsGate ▸ hch)
      · rw [hk.gate]
        exact hp.tasks.get hj ch hch
      · rw [engagedApart, hengaged]
        exact hp.apart (Ne.symm hne) hi hj
    obtain ⟨rfl, hgate, rfl, rfl⟩ | ⟨_, _, -, -, -, -, -, -, hk⟩ | hq := Caller.next_cases hnext
    · -- nobody holds the gate, and by the guard nobody is about to clear it
      have hothers : ∀ u ∈ p.tasks, u.isEngaged = false := fun u hu =>
        not_engaged_of_gate_none (hp.tasks u hu) hgate (hc hi u hu)
      refine ⟨trivial, fun ch hch => hch, fun j u _ hj => ⟨fun ch hch => ?_, fun hu => ?_⟩⟩
      · have hfree := hothers u (mem_of_getElem? hj)
        simp [Caller.isEngaged, hch] at hfree
      · rw [hothers u (mem_of_getElem? hj)] at hu
        cases hu.2
    · exact keeps hk
    · obtain hk | hclears := hq.gate
      · exact keeps hk
      · -- the gate is the one of the caller that clears it
        refine ⟨trivial, fun ch hch => ?_, fun j u hne hj => ?_⟩
        · rw [hclears.holdsGate] at hch
          cases hch
        have hfree : u.isEngaged = false := by
          have hapart := hp.apart (Ne.symm hne) hi hj
          simpa [engagedApart, hclears.isEngaged] using hapart
        refine ⟨fun ch hch => ?_, fun hu => ?_⟩
        · simp [Caller.isEngaged, hch] at hfree
        · rw [hfree] at hu
          cases hu.2

/-- In every run a follower gets the outcome of its leader, as soon as the leader has
finished or has been dropped.  If no caller takes the gate between the two releases of
a guard, no two polls are in flight. -/
theorem single_flight (c : PollingMasterInquireClient) (as : List (PoolAct Caller CallerInput))
    (s : Inquiries) (h : Guarded (step c) (fun _ _ => True) init as s) :
    s.FollowersServed c ∧ (Guarded (step c) ReleasedOnce init as s → s.OnePoll) := by
  refine ⟨followersServed_run h, fun hreleased i j t u hne hi hj hpolling => ?_⟩
  refine (engaged_run hreleased).apart hne hi hj ?_
  have hengaged : ∀ v : Caller, v.isPolling = true → v.isEngaged = true := by
    intro v hv
    cases v <;> first | rfl | cases hv
  exact ⟨hengaged t hpolling.1, hengaged u hpolling.2⟩

/-- A master that is not reached; the time of the poll is up after one round. -/
def lonelyMaster : PollingMasterInquireClient := ⟨["m1:9200"], 0, 50, 50⟩

def unreachable : PollEnv := ⟨fun _ _ => .connectFailed "refused", fun _ => 1, fun _ => 0⟩

def pollTimedOut : Error :=
  .internal ("failed to find primary master after 1 attempts across 1 addresses. " ++
    "Last round errors: [m1:9200: connection failed: refused]")

/-- The second caller follows the first, and both get the outcome of its poll. -/
def leaderAndFollower : List (PoolAct Caller CallerInput) :=
  [.spawn .cached, .spawn .cached, .run 0 (.ping .served), .run 0 .proceed,
    .run 1 (.ping .served), .run 1 .proceed, .run 0 (.polled unreachable 2), .run 0 .proceed,
    .run 1 .proceed, .run 0 .proceed, .run 0 .proceed]

theorem single_flight_leaderAndFollower :
    ∃ s, Guarded (step lonelyMaster) ReleasedOnce init leaderAndFollower s ∧
      s.tasks.map Caller.result = List.replicate 2 (some (.error pollTimedOut)) ∧
      s.FollowersServed lonelyMaster ∧ s.OnePoll := by
  obtain ⟨s, hrun, hresult⟩ :
      ∃ s, Guarded (step lonelyMaster) ReleasedOnce init leaderAndFollower s ∧
        s.tasks.map Caller.result = List.replicate 2 (some (.error pollTimedOut)) :=
    Guarded.exists_of_replay (by decide +kernel)
  have hserved := single_flight lonelyMaster leaderAndFollower s (hrun.mono fun _ _ _ => trivial)
  exact ⟨s, hrun, hresult, hserved.1, hserved.2 hrun⟩

/-- The first leader has completed and released the gate once when the second one takes
it.  The guard of the first is dropped then, and the third caller finds no poll. -/
def releasedTwice : List (PoolAct Caller CallerInput) :=
  [.spawn .cached, .spawn .cached, .spawn .cached, .run 0 (.ping .served), .run 0 .proceed,
    .run 0 (.polled unreachable 2), .run 0 .proceed, .run 0 .proceed,
    .run 1 (.ping .served), .run 1 .proceed, .run 0 .proceed,
    .run 2 (.ping .served), .run 2 .proceed]

theorem two_polls_in_flight :
    ∃ s, Guarded (step lonelyMaster) (fun _ _ => True) init releasedTwice s ∧ ¬ s.OnePoll := by
  obtain ⟨s, hrun, h₁, h₂⟩ :
      ∃ s, Guarded (step lonelyMaster) (fun _ _ => True) init releasedTwice s ∧
        s.tasks[1]? = some (.polling 1) ∧ s.tasks[2]? = some (.polling 2) :=
    Guarded.exists_of_replay (by decide +kernel)
  exact ⟨s, hrun, fun hone => hone (by decide) h₁ h₂ ⟨rfl, rfl⟩⟩

end Inquiries

end GooseFS
