import GooseFS.Error
import GooseFS.Lib.Pool

/-!
# Metrics heartbeats

The counters of a process, the heartbeat loops of its contexts and the calls that
shut them down, as one transition system.  A heartbeat reads the counters one after
another, sends what they have grown by since it last read them, and looks at the
`closed` flag after that.  A counter is the list of its increments.

`shutdown` sets the flag, wakes the loop and waits for it to end.  If a beat is in
flight when the flag is set, the loop ends with that beat and what was counted
since its snapshot is not sent (`increment_not_flushed`).  If the loop waits for its
next beat when `shutdown` is called, all increments made before the call are sent
(`final_flush`).
-/

namespace GooseFS

open Lib List Option Function

/-- What a heartbeat sends: the increments of counters, by their names. -/
structure Report where
  heartbeat : Nat
  metrics : List (String × Int)

/-- The handle of a heartbeat task in the hands of `shutdown`. -/
inductive JoinState where
  | parked
  | held
  | taken
  deriving DecidableEq, Repr

/-- What a heartbeat task shares.  `flush` is the one place of its channel, `called` the
number of increments of each counter when `shutdown` was called. -/
structure HeartbeatTask where
  closed : Bool
  flush : Bool
  exited : Bool
  handle : JoinState
  called : Option (String → Nat)

/-- The registry and the reports sent; `resent` are those sent once more, by the
retries of the client.  `incs` are the increments of a counter, the oldest first.
Counters and their increments are integers: the `i64` and `f64` of the source, as
long as no counter leaves the range in which both are exact. -/
structure MetricsState where
  names : List String
  incs : String → List Int
  reports : List Report
  resent : List Report
  heartbeats : List HeartbeatTask

namespace MetricsState

variable (m : MetricsState)

def value (name : String) : Int := (m.incs name).sum

/-- `counter(name).inc(n)`. -/
def inc (name : String) (n : Int) : MetricsState :=
  { m with
    names := if name ∈ m.names then m.names else m.names ++ [name]
    incs := update m.incs name (m.incs name ++ [n]) }

def send (report : Report) : MetricsState := { m with reports := m.reports ++ [report] }

def resend (report : Report) : MetricsState := { m with resent := m.resent ++ [report] }

def setHeartbeat (h : Nat) (x : HeartbeatTask) : MetricsState :=
  { m with heartbeats := m.heartbeats.set h x }

end MetricsState

/-! ## Tasks -/

/-- Where a heartbeat loop is.  A snapshot has to read the counters `todo` and has read
those in `done`.  In `with_retry` of the client, an attempt is out or waits for a
new connection. -/
inductive BeatPc where
  | waiting
  | snapshot (todo done : List String) (metrics : List (String × Int))
  | sending (metrics : List (String × Int)) (attempt : Nat) (connected : Bool)
  | check
  | exited

inductive ShutdownPc where
  /-- `FileSystemContext::close` swaps the flag before it calls `shutdown`. -/
  | swap
  | alreadyClosed
  | store
  | flush
  | join
  | joining
  | returned
  | timedOut
  deriving DecidableEq, Repr

inductive MetricsTask where
  /-- Code that counts. -/
  | program
  | starting
  | heartbeat (h : Nat) (last : String → Option Int) (pc : BeatPc)
  | shutdown (h : Nat) (before : String → Nat) (pc : ShutdownPc)
  /-- `Drop` of a `HeartbeatTask`, and its end. -/
  | drop (h : Nat)
  | dropped

inductive MetricsInput where
  | go
  | inc (name : String) (n : Int)
  | read (name : String)
  /-- An error of the attempt that is retried, or of the reconnect. -/
  | fail
  | timeout

/-- The increment since the last snapshot; the full value at the first. -/
def counterDiff (last : String → Option Int) (name : String) (cur : Int) : Int :=
  match last name with
  | some prev => cur - prev
  | none => cur

namespace MetricsTask

def maxRpcRetries : Nat := 2

def beat (m : MetricsState) (h : Nat) (last : String → Option Int) (x : HeartbeatTask) :
    BeatPc → MetricsInput → Option (MetricsState × MetricsTask)
  -- the flush signal or the next tick
  | .waiting, .go =>
    some (m.setHeartbeat h { x with flush := false }, .heartbeat h last (.snapshot m.names [] []))
  | .snapshot todo done metrics, .read name =>
    if name ∈ m.names ∧ name ∉ done then
      let cur := m.value name
      let diff := counterDiff last name cur
      some (m, .heartbeat h (update last name (some cur))
        (.snapshot todo (done ++ [name])
          (if diff = 0 then metrics else metrics ++ [(name, diff)])))
    else none
  | .snapshot todo done metrics, .go =>
    if ∀ name ∈ todo, name ∈ done then
      if metrics = [] then some (m, .heartbeat h last .check)
      else some (m.send ⟨h, metrics⟩, .heartbeat h last (.sending metrics 0 true))
    else none
  -- the report is accepted or refused: the loop goes on
  | .sending _ _ true, .go => some (m, .heartbeat h last .check)
  -- the same request on the new connection
  | .sending metrics attempt false, .go =>
    some (m.resend ⟨h, metrics⟩, .heartbeat h last (.sending metrics attempt true))
  | .sending metrics attempt _, .fail =>
    if attempt < maxRpcRetries then
      some (m, .heartbeat h last (.sending metrics (attempt + 1) false))
    else some (m, .heartbeat h last .check)
  | .sending _ _ _, .timeout => some (m, .heartbeat h last .check)
  | .check, .go =>
    if x.closed then some (m.setHeartbeat h { x with exited := true }, .heartbeat h last .exited)
    else some (m, .heartbeat h last .waiting)
  | _, _ => none

/-- A step of `FileSystemContext::close` or of `HeartbeatTask::shutdown`. -/
def shut (m : MetricsState) (h : Nat) (before : String → Nat) (x : HeartbeatTask) :
    ShutdownPc → MetricsInput → Option (MetricsState × MetricsTask)
  | .swap, .go =>
    if x.closed then some (m, .shutdown h before .alreadyClosed)
    else some (m.setHeartbeat h { x with closed := true }, .shutdown h before .store)
  | .store, .go =>
    let before := fun name => (m.incs name).length
    some (m.setHeartbeat h { x with closed := true, called := some before },
      .shutdown h before .flush)
  | .flush, .go =>
    -- the receiver is gone with the loop
    if x.exited then some (m, .shutdown h before .join)
    else if x.flush then none
    else some (m.setHeartbeat h { x with flush := true }, .shutdown h before .join)
  | .join, .go =>
    match x.handle with
    | .parked => some (m.setHeartbeat h { x with handle := .held }, .shutdown h before .joining)
    | .held => none
    | .taken => some (m, .shutdown h before .returned)
  | .joining, .go =>
    if x.exited then
      some (m.setHeartbeat h { x with handle := .taken }, .shutdown h before .returned)
    else none
  | .joining, .timeout =>
    some (m.setHeartbeat h { x with handle := .taken }, .shutdown h before .timedOut)
  | _, _ => none

def next (m : MetricsState) : MetricsTask → MetricsInput → Option (MetricsState × MetricsTask)
  | .program, .inc name n => some (m.inc name n, .program)
  | .starting, .go =>
    some ({ m with heartbeats := m.heartbeats ++ [⟨false, false, false, .parked, none⟩] },
      .heartbeat m.heartbeats.length (fun _ => none) .waiting)
  | .heartbeat h last pc, input => (m.heartbeats[h]?).bind fun x => beat m h last x pc input
  | .shutdown h before pc, input => (m.heartbeats[h]?).bind fun x => shut m h before x pc input
  | .drop h, .go =>
    (m.heartbeats[h]?).map fun x =>
      (m.setHeartbeat h { x with closed := true, flush := x.flush || !x.exited }, .dropped)
  | _, _ => none

def start : MetricsTask → Bool
  | .program => true
  | .starting => true
  | .shutdown _ _ .swap => true
  | .shutdown _ _ .store => true
  | .drop _ => true
  | _ => false

end MetricsTask

abbrev MetricsPool := Pool MetricsState MetricsTask

abbrev MetricsAct := PoolAct MetricsTask MetricsInput

namespace MetricsPool

def init : MetricsPool := ⟨⟨[], fun _ => [], [], [], []⟩, []⟩

def step : MetricsPool → MetricsAct → Option MetricsPool :=
  Pool.step MetricsTask.start MetricsTask.next

end MetricsPool

/-! ## What is sent and what was read -/

def deltaOf (metrics : List (String × Int)) (name : String) : Int :=
  ((metrics.filter fun x => x.1 = name).map Prod.snd).sum

/-- What the heartbeats selected by `sel` have sent for a counter. -/
def MetricsState.sentBy (m : MetricsState) (sel : Nat → Bool) (name : String) : Int :=
  ((m.reports.filter fun r => sel r.heartbeat).map fun r => deltaOf r.metrics name).sum

namespace BeatPc

def pending : BeatPc → String → Int
  | .snapshot _ _ metrics, name => deltaOf metrics name
  | _, _ => 0

end BeatPc

namespace MetricsTask

/-- What a selected heartbeat is going to send, less what it has read. -/
def balance (sel : Nat → Bool) (name : String) : MetricsTask → Int
  | .heartbeat h last pc => if sel h then pc.pending name - (last name).getD 0 else 0
  | _ => 0

theorem deltaOf_append (ms ns : List (String × Int)) (name : String) :
    deltaOf (ms ++ ns) name = deltaOf ms name + deltaOf ns name := by
  simp [deltaOf]

theorem deltaOf_read (last : String → Option Int) (metrics : List (String × Int))
    (read name : String) (cur : Int) :
    deltaOf (if counterDiff last read cur = 0 then metrics
        else metrics ++ [(read, counterDiff last read cur)]) name -
      (update last read (some cur) name).getD 0 =
    deltaOf metrics name - (last name).getD 0 := by
  have hdiff : counterDiff last read cur = cur - (last read).getD 0 := by
    unfold counterDiff
    split
    · next prev hprev => rw [hprev, getD_some]
    · next hnone => rw [hnone, getD_none, Int.sub_zero]
  have hsum : deltaOf (if counterDiff last read cur = 0 then metrics
      else metrics ++ [(read, counterDiff last read cur)]) name =
      deltaOf metrics name + if read = name then counterDiff last read cur else 0 := by
    split
    · next hzero => simp [hzero]
    · rw [deltaOf_append]
      congr 1
      by_cases hname : read = name
      · simp [deltaOf, hname]
      · simp [deltaOf, hname]
  rw [hsum]
  by_cases hname : read = name
  · subst hname
    rw [if_pos rfl, update_self, getD_some, hdiff]
    omega
  · rw [if_neg hname, update_of_ne (Ne.symm hname)]
    omega

theorem sentBy_send (m : MetricsState) (report : Report) (sel : Nat → Bool) (name : String) :
    (m.send report).sentBy sel name =
      m.sentBy sel name + if sel report.heartbeat then deltaOf report.metrics name else 0 := by
  cases hsel : sel report.heartbeat <;> simp [MetricsState.sentBy, MetricsState.send, hsel]

variable {m m' : MetricsState} {t t' : MetricsTask} {input : MetricsInput} {h : Nat}
  {x : HeartbeatTask}

theorem beat_balance {last : String → Option Int} {pc : BeatPc}
    (hnext : beat m h last x pc input = some (m', t')) (sel : Nat → Bool) (name : String) :
    m'.sentBy sel name + t'.balance sel name =
      m.sentBy sel name + balance sel name (.heartbeat h last pc) := by
  unfold beat at hnext
  split at hnext
  · cases hnext
    rfl
  · split at hnext
    · cases hnext
      congr 1
      simp only [balance, BeatPc.pending, deltaOf_read]
    · cases hnext
  · split at hnext
    · split at hnext
      · next hmetrics =>
        cases hnext
        rw [hmetrics]
        rfl
      · cases hnext
        rw [sentBy_send]
        simp only [balance, BeatPc.pending]
        split <;> omega
    · cases hnext
  · cases hnext
    rfl
  · cases hnext
    rfl
  · split at hnext <;> cases hnext <;> rfl
  · cases hnext
    rfl
  · split at hnext
    · cases hnext
      rfl
    · cases hnext
      rfl
  · cases hnext

theorem shutdown_of_shut {before : String → Nat} {pc : ShutdownPc}
    (hshut : shut m h before x pc input = some (m', t')) :
    (∃ before' pc', t' = .shutdown h before' pc') ∧ m'.reports = m.reports ∧
      m'.resent = m.resent := by
  unfold shut at hshut
  split at hshut
  · split at hshut <;> cases hshut <;> exact ⟨⟨_, _, rfl⟩, rfl, rfl⟩
  · cases hshut
    exact ⟨⟨_, _, rfl⟩, rfl, rfl⟩
  · split at hshut
    · cases hshut
      exact ⟨⟨_, _, rfl⟩, rfl, rfl⟩
    · split at hshut <;> cases hshut
      exact ⟨⟨_, _, rfl⟩, rfl, rfl⟩
  · split at hshut <;> cases hshut <;> exact ⟨⟨_, _, rfl⟩, rfl, rfl⟩
  · split at hshut <;> cases hshut
    exact ⟨⟨_, _, rfl⟩, rfl, rfl⟩
  · cases hshut
    exact ⟨⟨_, _, rfl⟩, rfl, rfl⟩
  · cases hshut

theorem next_balance (hnext : next m t input = some (m', t')) (sel : Nat → Bool)
    (name : String) :
    m'.sentBy sel name + t'.balance sel name = m.sentBy sel name + t.balance sel name := by
  unfold next at hnext
  split at hnext
  · cases hnext
    rfl
  · cases hnext
    simp [balance, BeatPc.pending, MetricsState.sentBy]
  · obtain ⟨x, -, hbeat⟩ := bind_eq_some_iff.1 hnext
    exact beat_balance hbeat sel name
  · obtain ⟨x, -, hshut⟩ := bind_eq_some_iff.1 hnext
    obtain ⟨⟨before', pc', rfl⟩, hreports, -⟩ := shutdown_of_shut hshut
    rw [MetricsState.sentBy, hreports]
    rfl
  · obtain ⟨x, -, hdrop⟩ := map_eq_some_iff.1 hnext
    cases hdrop
    rfl
  · cases hnext

end MetricsTask

namespace MetricsPool

variable {p : MetricsPool} {as : List MetricsAct} {C : MetricsPool → MetricsAct → Prop}

/-- What the selected heartbeats have sent and are going to send is what they have
read. -/
def Balanced (p : MetricsPool) : Prop :=
  ∀ sel name, p.shared.sentBy sel name + tally (MetricsTask.balance sel name) p.tasks = 0

theorem balanced_run (h : Guarded step C init as p) : p.Balanced := by
  refine h.invariant ?_ fun _ _ => rfl
  intro p a p' hp _ hstep sel name
  obtain ⟨t, rfl, hstart, rfl⟩ | ⟨i, x, t, m', t', rfl, hi, hnext, rfl⟩ := Pool.step_cases hstep
  · have hzero : t.balance sel name = 0 := by
      cases t <;> first | rfl | cases hstart
    rw [tally_append, hzero, Int.add_zero]
    exact hp sel name
  · have hbalance := MetricsTask.next_balance hnext sel name
    have hbefore := hp sel name
    show m'.sentBy sel name + tally (MetricsTask.balance sel name) (p.tasks.set i t') = 0
    rw [tally_set _ hi]
    omega

end MetricsPool

/-! ## The final flush -/

namespace MetricsTask

def heartbeatId : MetricsTask → Option Nat
  | .heartbeat h _ _ => some h
  | _ => none

def isWaiting : MetricsTask → Bool
  | .heartbeat _ _ .waiting => true
  | _ => false

/-- The heartbeat for which `shutdown` is about to be called. -/
def calling : MetricsTask → Option Nat
  | .shutdown h _ .store => some h
  | _ => none

/-- The heartbeat that this call of `shutdown` shuts down, once it is called. -/
def shuts : MetricsTask → Option Nat
  | .shutdown _ _ .swap => none
  | .shutdown _ _ .alreadyClosed => none
  | .shutdown _ _ .store => none
  | .shutdown h _ _ => some h
  | _ => none

end MetricsTask

namespace MetricsPool

/-- `shutdown` is called once for a heartbeat, and while its loop waits for the next
beat. -/
def CalledWhileWaiting (p : MetricsPool) : MetricsAct → Prop
  | .run i _ => ∀ h ∈ (p.tasks[i]?).bind MetricsTask.calling,
      (∀ x ∈ p.shared.heartbeats[h]?, x.called.isNone = true) ∧
      ∀ u ∈ p.tasks, u.heartbeatId = some h → u.isWaiting = true
  | .spawn _ => True

instance (p : MetricsPool) (a : MetricsAct) : Decidable (p.CalledWhileWaiting a) := by
  cases a <;> unfold CalledWhileWaiting <;> infer_instance

/-- What `shutdown` promises when it returns without a timeout: for each counter its first
increments were sent, at least those made before the call. -/
def Flushed (p : MetricsPool) : Prop :=
  ∀ h before, .shutdown h before .returned ∈ p.tasks → ∀ name, ∃ n, before name ≤ n ∧
    n ≤ (p.shared.incs name).length ∧
    p.shared.sentBy (fun h' => h' = h) name = ((p.shared.incs name).take n).sum

end MetricsPool

/-- The baseline of a counter is what its first increments come to, `before` of them at
least. -/
def MetricsState.Covers (m : MetricsState) (last : String → Option Int) (before : Nat)
    (name : String) : Prop :=
  ∃ n, before ≤ n ∧ n ≤ (m.incs name).length ∧ (last name).getD 0 = ((m.incs name).take n).sum

/-- What a beat that began after the call of `shutdown` has read. -/
def BeatPc.Flushes (m : MetricsState) (last : String → Option Int) (before : String → Nat) :
    BeatPc → Prop
  | .waiting => True
  | .snapshot todo done _ => (∀ name, 0 < before name → name ∈ todo) ∧
      ∀ name ∈ done, m.Covers last (before name) name
  | _ => ∀ name, m.Covers last (before name) name

namespace MetricsTask

variable {m m' : MetricsState} {t t' u : MetricsTask} {input : MetricsInput} {before : String → Nat}
  {h : Nat} {last : String → Option Int} {pc : BeatPc} {x y : HeartbeatTask} {i : Nat}
  {name : String}

/-- The assertions of heartbeat loops and of calls of `shutdown`. -/
structure Asserts (m : MetricsState) (t : MetricsTask) : Prop where
  beat : ∀ h last pc, t = .heartbeat h last pc → ∃ x, m.heartbeats[h]? = some x ∧
    (x.exited = true → pc = .exited) ∧ (∀ name, m.Covers last 0 name) ∧
    ∀ before, x.called = some before → pc.Flushes m last before
  call : ∀ h before pc, t = .shutdown h before pc → t.shuts = some h →
    ∃ x, m.heartbeats[h]? = some x ∧ x.called = some before ∧
      (pc = .flush ∨ pc = .join → x.handle = .parked) ∧ (pc = .returned → x.exited = true)

/-! ### Effects of a step -/

theorem inc_extends (m : MetricsState) (name : String) (n : Int) (c : String) :
    m.incs c <+: (m.inc name n).incs c := by
  by_cases hc : c = name
  · subst hc
    simp [MetricsState.inc]
  · simp [MetricsState.inc, update_of_ne hc]

/-- What a step from `t` to `t'` does to the counters and to the heartbeat tasks. -/
structure Effect (m : MetricsState) (t : MetricsTask) (input : MetricsInput) (m' : MetricsState)
    (t' : MetricsTask) : Prop where
  counters : m'.incs = m.incs ∨ ∃ name n, input = .inc name n ∧ m' = m.inc name n
  heartbeats : ∀ h x, m.heartbeats[h]? = some x → ∃ x', m'.heartbeats[h]? = some x' ∧
    (t.heartbeatId ≠ some h → x'.exited = x.exited) ∧
    (t.calling ≠ some h → x'.called = x.called) ∧
    (t.shuts ≠ some h → x'.handle = x.handle) ∧ (x.exited = true → x'.exited = true)
  loop : (m'.heartbeats.length = m.heartbeats.length ∧ t'.heartbeatId = t.heartbeatId) ∨
    (m'.heartbeats.length = m.heartbeats.length + 1 ∧ t.heartbeatId = none ∧
      t'.heartbeatId = some m.heartbeats.length)

theorem Effect.extends (h : Effect m t input m' t') (name : String) :
    m.incs name <+: m'.incs name := by
  obtain heq | ⟨c, n, -, rfl⟩ := h.counters
  · exact heq ▸ prefix_refl _
  · exact inc_extends m c n name

theorem Effect.of_heartbeats
    (hcounters : m'.incs = m.incs ∨ ∃ name n, input = .inc name n ∧ m' = m.inc name n)
    (h : m'.heartbeats = m.heartbeats) (hid : t'.heartbeatId = t.heartbeatId) :
    Effect m t input m' t' where
  counters := hcounters
  heartbeats := fun i x hx => ⟨x, h ▸ hx, fun _ => rfl, fun _ => rfl, fun _ => rfl, id⟩
  loop := .inl ⟨by rw [h], hid⟩

theorem Effect.setHeartbeat (hx : m.heartbeats[h]? = some x) (hid : t'.heartbeatId = t.heartbeatId)
    (hexited : t.heartbeatId ≠ some h → y.exited = x.exited)
    (hcalled : t.calling ≠ some h → y.called = x.called)
    (hhandle : t.shuts ≠ some h → y.handle = x.handle) (hmono : x.exited = true → y.exited = true) :
    Effect m t input (m.setHeartbeat h y) t' where
  counters := .inl rfl
  heartbeats := by
    intro i z hz
    by_cases hi : h = i
    · subst hi
      rw [hx] at hz
      cases hz
      refine ⟨y, ?_, hexited, hcalled, hhandle, hmono⟩
      exact getElem?_set_self (List.getElem?_eq_some_iff.1 hx).1
    · refine ⟨z, ?_, fun _ => rfl, fun _ => rfl, fun _ => rfl, id⟩
      exact (getElem?_set_ne hi).trans hz
  loop := .inl ⟨length_set, hid⟩

theorem effect_of_beat (hx : m.heartbeats[h]? = some x)
    (hbeat : beat m h last x pc input = some (m', t')) :
    Effect m (.heartbeat h last pc) input m' t' := by
  unfold beat at hbeat
  split at hbeat
  · cases hbeat
    exact .setHeartbeat hx rfl (fun _ => rfl) (fun _ => rfl) (fun _ => rfl) id
  · split at hbeat <;> cases hbeat
    exact .of_heartbeats (.inl rfl) rfl rfl
  · split at hbeat
    · split at hbeat <;> cases hbeat <;> exact .of_heartbeats (.inl rfl) rfl rfl
    · cases hbeat
  · cases hbeat
    exact .of_heartbeats (.inl rfl) rfl rfl
  · cases hbeat
    exact .of_heartbeats (.inl rfl) rfl rfl
  · split at hbeat <;> cases hbeat <;> exact .of_heartbeats (.inl rfl) rfl rfl
  · cases hbeat
    exact .of_heartbeats (.inl rfl) rfl rfl
  · split at hbeat <;> cases hbeat
    · exact .setHeartbeat hx rfl (fun hne => (hne rfl).elim) (fun _ => rfl) (fun _ => rfl)
        fun _ => rfl
    · exact .of_heartbeats (.inl rfl) rfl rfl
  · cases hbeat

theorem effect_of_shut {pc : ShutdownPc} (hx : m.heartbeats[h]? = some x)
    (hshut : shut m h before x pc input = some (m', t')) :
    Effect m (.shutdown h before pc) input m' t' := by
  unfold shut at hshut
  split at hshut
  · split at hshut <;> cases hshut
    · exact .of_heartbeats (.inl rfl) rfl rfl
    · exact .setHeartbeat hx rfl (fun _ => rfl) (fun _ => rfl) (fun _ => rfl) id
  · cases hshut
    exact .setHeartbeat hx rfl (fun _ => rfl) (fun hne => (hne rfl).elim) (fun _ => rfl) id
  · split at hshut
    · cases hshut
      exact .of_heartbeats (.inl rfl) rfl rfl
    · split at hshut <;> cases hshut
      exact .setHeartbeat hx rfl (fun _ => rfl) (fun _ => rfl) (fun _ => rfl) id
  · split at hshut <;> cases hshut
    · exact .setHeartbeat hx rfl (fun _ => rfl) (fun _ => rfl) (fun hne => (hne rfl).elim) id
    · exact .of_heartbeats (.inl rfl) rfl rfl
  · split at hshut <;> cases hshut
    exact .setHeartbeat hx rfl (fun _ => rfl) (fun _ => rfl) (fun hne => (hne rfl).elim) id
  · cases hshut
    exact .setHeartbeat hx rfl (fun _ => rfl) (fun _ => rfl) (fun hne => (hne rfl).elim) id
  · cases hshut

theorem effect_of_next (hnext : next m t input = some (m', t')) : Effect m t input m' t' := by
  unfold next at hnext
  split at hnext
  · cases hnext
    exact .of_heartbeats (.inr ⟨_, _, rfl, rfl⟩) rfl rfl
  · cases hnext
    refine ⟨.inl rfl, fun h x hx => ?_, .inr ⟨by simp, rfl, rfl⟩⟩
    refine ⟨x, ?_, fun _ => rfl, fun _ => rfl, fun _ => rfl, id⟩
    exact (getElem?_append_left (List.getElem?_eq_some_iff.1 hx).1).trans hx
  · obtain ⟨x, hx, hbeat⟩ := bind_eq_some_iff.1 hnext
    exact effect_of_beat hx hbeat
  · obtain ⟨x, hx, hshut⟩ := bind_eq_some_iff.1 hnext
    exact effect_of_shut hx hshut
  · obtain ⟨x, hx, hdrop⟩ := map_eq_some_iff.1 hnext
    cases hdrop
    exact .setHeartbeat hx rfl (fun _ => rfl) (fun _ => rfl) (fun _ => rfl) id
  · cases hnext

/-! ### Assertions -/

theorem covers_mono (hincs : ∀ name, m.incs name <+: m'.incs name) {before : Nat}
    (h : m.Covers last before name) : m'.Covers last before name := by
  obtain ⟨n, hbefore, hn, hsum⟩ := h
  refine ⟨n, hbefore, Nat.le_trans hn (hincs name).length_le, ?_⟩
  obtain ⟨rest, hrest⟩ := hincs name
  rw [hsum, ← hrest, take_append_of_le_length hn]

theorem flushes_mono (hincs : ∀ name, m.incs name <+: m'.incs name) (h : pc.Flushes m last before) :
    pc.Flushes m' last before := by
  cases pc with
  | waiting => trivial
  | snapshot todo done metrics => exact ⟨h.1, fun name hname => covers_mono hincs (h.2 name hname)⟩
  | sending metrics attempt connected | check | exited =>
    exact fun name => covers_mono hincs (h name)

theorem Asserts.stable (h : u.Asserts m) (he : Effect m t input m' t')
    (hbeat : ∀ i, t.heartbeatId = some i → u.heartbeatId ≠ some i)
    (hshut : ∀ i, t.shuts = some i → u.shuts ≠ some i)
    (hcall : ∀ i, t.calling = some i → (u.heartbeatId = some i → u.isWaiting = true) ∧
      u.shuts ≠ some i) : u.Asserts m' where
  beat := by
    rintro i last pc rfl
    obtain ⟨x, hx, hexited, hcovers, hflushes⟩ := h.beat i last pc rfl
    obtain ⟨x', hx', hexited', hcalled', -, -⟩ := he.heartbeats i x hx
    refine ⟨x', hx', ?_, fun name => covers_mono he.extends (hcovers name), fun before hbefore => ?_⟩
    · rw [hexited' fun ht => hbeat i ht rfl]
      exact hexited
    · by_cases ht : t.calling = some i
      · have hwaiting := (hcall i ht).1 rfl
        cases pc <;> first | exact trivial | cases hwaiting
      · rw [hcalled' ht] at hbefore
        exact flushes_mono he.extends (hflushes before hbefore)
  call := by
    rintro i before pc rfl hshuts
    obtain ⟨x, hx, hcalled, hparked, hexited⟩ := h.call i before pc rfl hshuts
    obtain ⟨x', hx', -, hcalled', hhandle', hmono⟩ := he.heartbeats i x hx
    refine ⟨x', hx', ?_, fun hpc => ?_, fun hpc => hmono (hexited hpc)⟩
    · rw [hcalled' fun ht => (hcall i ht).2 hshuts]
      exact hcalled
    · rw [hhandle' fun ht => hshut i ht hshuts]
      exact hparked hpc

theorem asserts_of_other (hbeat : t.heartbeatId = none) (hshut : t.shuts = none) : t.Asserts m where
  beat := by
    rintro h last pc rfl
    cases hbeat
  call := by
    rintro h before pc rfl hshuts
    rw [hshut] at hshuts
    cases hshuts

/-- The counters that were incremented are in the registry, and those counted when
`shutdown` was called are still there. -/
structure Counted (m : MetricsState) : Prop where
  names : ∀ name, m.incs name ≠ [] → name ∈ m.names
  called : ∀ x ∈ m.heartbeats, ∀ before, x.called = some before →
    ∀ name, before name ≤ (m.incs name).length
  parked : ∀ x ∈ m.heartbeats, x.called = none → x.handle = .parked

theorem covers_read (m : MetricsState) (last : String → Option Int) (name : String) :
    m.Covers (update last name (some (m.value name))) (m.incs name).length name := by
  refine ⟨(m.incs name).length, Nat.le_refl _, Nat.le_refl _, ?_⟩
  rw [update_self, take_length]
  rfl

theorem covers_update {before : Nat} {read : String} (hbefore : before ≤ (m.incs name).length)
    (h : name ≠ read → m.Covers last before name) :
    m.Covers (update last read (some (m.value read))) before name := by
  by_cases hname : name = read
  · subst hname
    obtain ⟨n, hn, hle, hsum⟩ := covers_read m last name
    exact ⟨n, Nat.le_trans hbefore hn, hle, hsum⟩
  · obtain ⟨n, hn, hle, hsum⟩ := h hname
    refine ⟨n, hn, hle, ?_⟩
    rw [update_of_ne hname]
    exact hsum

theorem Counted.setHeartbeat (h : Counted m)
    (hcalled : ∀ before, y.called = some before → ∀ name, before name ≤ (m.incs name).length)
    (hparked : y.called = none → y.handle = .parked) : Counted (m.setHeartbeat i y) where
  names := h.names
  called := by
    intro z hz
    obtain hz | rfl := mem_or_eq_of_mem_set hz
    · exact h.called z hz
    · exact hcalled
  parked := by
    intro z hz
    obtain hz | rfl := mem_or_eq_of_mem_set hz
    · exact h.parked z hz
    · exact hparked

theorem Counted.keep (h : Counted m) (hx : m.heartbeats[i]? = some x)
    (hcalled : y.called = x.called) (hhandle : y.handle = x.handle) :
    Counted (m.setHeartbeat i y) := by
  have hmem := mem_of_getElem? hx
  refine h.setHeartbeat ?_ ?_
  · rw [hcalled]
    exact h.called x hmem
  · rw [hcalled, hhandle]
    exact h.parked x hmem

theorem Counted.inc (h : Counted m) (name : String) (n : Int) : Counted (m.inc name n) where
  names := by
    intro c hc
    by_cases hname : c = name
    · subst hname
      simp only [MetricsState.inc]
      split
      · assumption
      · exact mem_append_right _ (mem_singleton_self _)
    · have hmem : c ∈ m.names := h.names c (by
        simpa [MetricsState.inc, update_of_ne hname] using hc)
      simp only [MetricsState.inc]
      split
      · exact hmem
      · exact mem_append_left _ hmem
  called := fun x hx before hbefore c => Nat.le_trans (h.called x hx before hbefore c)
    (inc_extends m name n c).length_le
  parked := h.parked

theorem asserts_beat (hx : m.heartbeats[h]? = some x) (hexited : x.exited = true → pc = .exited)
    (hcovers : ∀ name, m.Covers last 0 name)
    (hflushes : ∀ before, x.called = some before → pc.Flushes m last before) :
    (MetricsTask.heartbeat h last pc).Asserts m where
  beat := by
    rintro _ _ _ ⟨⟩
    exact ⟨x, hx, hexited, hcovers, hflushes⟩
  call := by
    rintro _ _ _ ⟨⟩

theorem asserts_of_beat (hm : Counted m) (ha : (MetricsTask.heartbeat h last pc).Asserts m)
    (hx : m.heartbeats[h]? = some x) (hbeat : beat m h last x pc input = some (m', t')) :
    Counted m' ∧ t'.Asserts m' ∧ t'.shuts = none := by
  obtain ⟨x', hx', hexited, hcovers, hflushes⟩ := ha.beat h last pc rfl
  rw [hx] at hx'
  cases hx'
  have hlt := (List.getElem?_eq_some_iff.1 hx).1
  unfold beat at hbeat
  split at hbeat
  · cases hbeat
    refine ⟨hm.keep hx rfl rfl, ?_, rfl⟩
    refine asserts_beat (getElem?_set_self hlt) (fun he => (by cases hexited he)) hcovers ?_
    intro before hbefore
    refine ⟨fun name hname => hm.names name ?_, fun name hname => (by cases hname)⟩
    have hle := hm.called x (mem_of_getElem? hx) before hbefore name
    exact ne_nil_of_length_pos (by omega)
  · split at hbeat
    · cases hbeat
      refine ⟨hm, asserts_beat hx (fun he => (by cases hexited he)) ?_ ?_, rfl⟩
      · exact fun name => covers_update (Nat.zero_le _) fun _ => hcovers name
      · intro before hbefore
        obtain ⟨htodo, hdone⟩ := hflushes before hbefore
        refine ⟨htodo, fun name hname => covers_update ?_ fun hne => ?_⟩
        · exact hm.called x (mem_of_getElem? hx) before hbefore name
        · obtain hmem | hmem := mem_append.1 hname
          · exact hdone name hmem
          · exact (hne (mem_singleton.1 hmem)).elim
    · cases hbeat
  · split at hbeat
    · next hall =>
      -- a counter that is not in the snapshot was not incremented before the call
      have hread : ∀ before, x.called = some before → ∀ name, m.Covers last (before name) name := by
        intro before hbefore name
        obtain ⟨htodo, hdone⟩ := hflushes before hbefore
        by_cases hzero : before name = 0
        · rw [hzero]
          exact hcovers name
        · exact hdone name (hall name (htodo name (Nat.pos_of_ne_zero hzero)))
      split at hbeat
      · cases hbeat
        exact ⟨hm, asserts_beat hx (fun he => (by cases hexited he)) hcovers hread, rfl⟩
      · cases hbeat
        exact ⟨⟨hm.names, hm.called, hm.parked⟩,
          asserts_beat hx (fun he => (by cases hexited he)) hcovers hread, rfl⟩
    · cases hbeat
  · cases hbeat
    exact ⟨hm, asserts_beat hx (fun he => (by cases hexited he)) hcovers hflushes, rfl⟩
  · cases hbeat
    exact ⟨⟨hm.names, hm.called, hm.parked⟩,
      asserts_beat hx (fun he => (by cases hexited he)) hcovers hflushes, rfl⟩
  · split at hbeat <;> cases hbeat <;>
      exact ⟨hm, asserts_beat hx (fun he => (by cases hexited he)) hcovers hflushes, rfl⟩
  · cases hbeat
    exact ⟨hm, asserts_beat hx (fun he => (by cases hexited he)) hcovers hflushes, rfl⟩
  · split at hbeat
    · cases hbeat
      refine ⟨hm.keep hx rfl rfl, ?_, rfl⟩
      exact asserts_beat (getElem?_set_self hlt) (fun _ => rfl) hcovers hflushes
    · cases hbeat
      exact ⟨hm, asserts_beat hx (fun he => (by cases hexited he)) hcovers fun _ _ => trivial,
        rfl⟩
  · cases hbeat

theorem asserts_shut {pc : ShutdownPc} (hx : m.heartbeats[h]? = some x)
    (hcalled : x.called = some before) (hparked : pc = .flush ∨ pc = .join → x.handle = .parked)
    (hexited : pc = .returned → x.exited = true) :
    (MetricsTask.shutdown h before pc).Asserts m where
  beat := by
    rintro _ _ _ ⟨⟩
  call := by
    rintro _ _ _ ⟨⟩ -
    exact ⟨x, hx, hcalled, hparked, hexited⟩

theorem asserts_of_shut {pc : ShutdownPc} (hm : Counted m)
    (ha : (MetricsTask.shutdown h before pc).Asserts m) (hx : m.heartbeats[h]? = some x)
    (hfirst : pc = .store → x.called = none) (hshut : shut m h before x pc input = some (m', t')) :
    Counted m' ∧ t'.Asserts m' ∧
      (t'.shuts = (MetricsTask.shutdown h before pc).shuts ∨ pc = .store ∧ t'.shuts = some h) := by
  have hlt := (List.getElem?_eq_some_iff.1 hx).1
  have hmem := mem_of_getElem? hx
  have hown (hs : (MetricsTask.shutdown h before pc).shuts = some h) :
      x.called = some before ∧ (pc = .flush ∨ pc = .join → x.handle = .parked) := by
    obtain ⟨x', hx', hcalled, hparked, -⟩ := ha.call h before pc rfl hs
    rw [hx] at hx'
    cases hx'
    exact ⟨hcalled, hparked⟩
  unfold shut at hshut
  split at hshut
  · split at hshut
    · cases hshut
      exact ⟨hm, asserts_of_other rfl rfl, .inl rfl⟩
    · cases hshut
      exact ⟨hm.keep hx rfl rfl, asserts_of_other rfl rfl, .inl rfl⟩
  · cases hshut
    have hparked := hm.parked x hmem (hfirst rfl)
    refine ⟨hm.setHeartbeat ?_ fun _ => hparked, ?_, .inr ⟨rfl, rfl⟩⟩
    · rintro _ ⟨⟩ name
      exact Nat.le_refl _
    · exact asserts_shut (getElem?_set_self hlt) rfl (fun _ => hparked) fun hpc => by cases hpc
  · obtain ⟨hcalled, hparked⟩ := hown rfl
    split at hshut
    · cases hshut
      refine ⟨hm, asserts_shut hx hcalled (fun _ => hparked (.inl rfl)) ?_, .inl rfl⟩
      exact fun hpc => by cases hpc
    · split at hshut
      · cases hshut
      · cases hshut
        refine ⟨hm.keep hx rfl rfl, ?_, .inl rfl⟩
        exact asserts_shut (getElem?_set_self hlt) hcalled (fun _ => hparked (.inl rfl))
          fun hpc => by cases hpc
  · obtain ⟨hcalled, hparked⟩ := hown rfl
    rw [hparked (.inr rfl)] at hshut
    cases hshut
    refine ⟨hm.setHeartbeat (hm.called x hmem) fun hnone => ?_, ?_, .inl rfl⟩
    · rw [hcalled] at hnone
      cases hnone
    · exact asserts_shut (getElem?_set_self hlt) hcalled (fun hpc => (by simp at hpc))
        fun hpc => by cases hpc
  · obtain ⟨hcalled, -⟩ := hown rfl
    split at hshut
    · next hdone =>
      cases hshut
      refine ⟨hm.setHeartbeat (hm.called x hmem) fun hnone => ?_, ?_, .inl rfl⟩
      · rw [hcalled] at hnone
        cases hnone
      · exact asserts_shut (getElem?_set_self hlt) hcalled (fun hpc => (by simp at hpc))
          fun _ => hdone
    · cases hshut
  · obtain ⟨hcalled, -⟩ := hown rfl
    cases hshut
    refine ⟨hm.setHeartbeat (hm.called x hmem) fun hnone => ?_, ?_, .inl rfl⟩
    · rw [hcalled] at hnone
      cases hnone
    · exact asserts_shut (getElem?_set_self hlt) hcalled (fun hpc => (by simp at hpc))
        fun hpc => by cases hpc
  · cases hshut

theorem own_of_next (hm : Counted m) (ha : t.Asserts m)
    (hfirst : ∀ h, t.calling = some h → ∀ x, m.heartbeats[h]? = some x → x.called = none)
    (hnext : next m t input = some (m', t')) :
    Counted m' ∧ t'.Asserts m' ∧
      ∀ h, t'.shuts = some h → t.shuts = some h ∨ t.calling = some h := by
  unfold next at hnext
  split at hnext
  · cases hnext
    exact ⟨hm.inc _ _, asserts_of_other rfl rfl, fun _ h => (by cases h)⟩
  · cases hnext
    refine ⟨⟨hm.names, ?_, ?_⟩, ?_, fun _ h => (by cases h)⟩
    · intro x hx before hbefore
      obtain hx | hx := mem_append.1 hx
      · exact hm.called x hx before hbefore
      · cases mem_singleton.1 hx
        cases hbefore
    · intro x hx hnone
      obtain hx | hx := mem_append.1 hx
      · exact hm.parked x hx hnone
      · cases mem_singleton.1 hx
        rfl
    · refine asserts_beat (x := ⟨false, false, false, .parked, none⟩) (by simp)
        (fun he => (by cases he)) (fun name => ⟨0, Nat.le_refl _, Nat.zero_le _, ?_⟩)
        fun _ hbefore => (by cases hbefore)
      rw [take_zero]
      rfl
  · obtain ⟨x, hx, hbeat⟩ := bind_eq_some_iff.1 hnext
    obtain ⟨hm', ha', hshuts⟩ := asserts_of_beat hm ha hx hbeat
    refine ⟨hm', ha', fun h hh => ?_⟩
    rw [hshuts] at hh
    cases hh
  · obtain ⟨x, hx, hshut⟩ := bind_eq_some_iff.1 hnext
    obtain ⟨hm', ha', hshuts⟩ := asserts_of_shut hm ha hx
      (fun hpc => hfirst _ (by rw [hpc]; rfl) x hx) hshut
    refine ⟨hm', ha', fun h hh => ?_⟩
    obtain hsame | ⟨rfl, hnew⟩ := hshuts
    · exact .inl (hsame ▸ hh)
    · rw [hnew] at hh
      exact .inr hh
  · obtain ⟨x, hx, hdrop⟩ := map_eq_some_iff.1 hnext
    cases hdrop
    exact ⟨hm.keep hx rfl rfl, asserts_of_other rfl rfl, fun _ h => (by cases h)⟩
  · cases hnext

theorem exists_of_shuts (hshuts : t.shuts = some h) : ∃ before pc, t = .shutdown h before pc := by
  cases t with
  | shutdown h' before pc => cases pc <;> cases hshuts <;> exact ⟨_, _, rfl⟩
  | program | starting | heartbeat h' last pc | drop h' | dropped => cases hshuts

theorem lt_of_heartbeatId (ha : t.Asserts m) (hid : t.heartbeatId = some h) :
    h < m.heartbeats.length := by
  cases t with
  | heartbeat h' last pc =>
    cases hid
    obtain ⟨x, hx, -⟩ := ha.beat _ _ _ rfl
    exact (List.getElem?_eq_some_iff.1 hx).1
  | shutdown h' before pc | program | starting | drop h' | dropped => cases hid

/-- No two loops of one heartbeat, and no two calls of `shutdown` for it. -/
def TaskApart (t u : MetricsTask) : Prop :=
  (∀ h, t.heartbeatId = some h → u.heartbeatId ≠ some h) ∧ ∀ h, t.shuts = some h → u.shuts ≠ some h

end MetricsTask

namespace MetricsPool

open MetricsTask

variable {p : MetricsPool} {as : List MetricsAct}

theorem asserts_run (h : Guarded step CalledWhileWaiting init as p) :
    p.Holds Counted (fun m t => t.Asserts m) TaskApart := by
  refine Pool.Holds.run ?_ ?_ ?_ h (.init ⟨fun _ h => (h rfl).elim, by simp, by simp⟩)
  · exact fun t u htu => ⟨fun h hu ht => htu.1 h ht hu, fun h hu ht => htu.2 h ht hu⟩
  · intro p t hp _ hstart
    have hother : t.heartbeatId = none ∧ t.shuts = none := by
      cases t with
      | shutdown h before pc => cases pc <;> first | exact ⟨rfl, rfl⟩ | cases hstart
      | heartbeat h last pc => cases hstart
      | program | starting | drop h | dropped => exact ⟨rfl, rfl⟩
    refine ⟨asserts_of_other hother.1 hother.2, fun u => ⟨fun h ht => ?_, fun h ht => ?_⟩⟩
    · rw [hother.1] at ht
      cases ht
    · rw [hother.2] at ht
      cases ht
  · intro p i x t m' t' hp hc hi hnext
    have hguard : ∀ h, t.calling = some h →
        (∀ x, p.shared.heartbeats[h]? = some x → x.called = none) ∧
        ∀ u ∈ p.tasks, u.heartbeatId = some h → u.isWaiting = true := by
      intro h ht
      obtain ⟨hnone, hwaiting⟩ := hc h (by rw [hi]; exact ht)
      exact ⟨fun x hx => isNone_iff_eq_none.1 (hnone x hx), hwaiting⟩
    -- nobody has called `shutdown` for a heartbeat for which it is called now
    have hnotcalled : ∀ u ∈ p.tasks, ∀ h, t.calling = some h → u.shuts ≠ some h := by
      intro u hu h ht hshuts
      obtain ⟨before, pc, rfl⟩ := exists_of_shuts hshuts
      obtain ⟨x, hx, hcalled, -⟩ := (hp.tasks _ hu).call h before pc rfl hshuts
      rw [(hguard h ht).1 x hx] at hcalled
      cases hcalled
    have heffect := effect_of_next hnext
    obtain ⟨hm', ha', hshuts⟩ :=
      own_of_next hp.shared (hp.tasks.get hi) (fun h ht => (hguard h ht).1) hnext
    refine ⟨hm', ha', fun j u hne hj => ?_⟩
    have hu := mem_of_getElem? hj
    have hapart := hp.apart (Ne.symm hne) hi hj
    refine ⟨(hp.tasks u hu).stable heffect hapart.1 hapart.2 fun h ht =>
      ⟨(hguard h ht).2 u hu, hnotcalled u hu h ht⟩, fun h ht' hu' => ?_, fun h ht' => ?_⟩
    · obtain ⟨-, hid⟩ | ⟨-, -, hid⟩ := heffect.loop
      · exact hapart.1 h (hid ▸ ht') hu'
      · cases hid.symm.trans ht'
        exact Nat.lt_irrefl _ (lt_of_heartbeatId (hp.tasks u hu) hu')
    · obtain ht | ht := hshuts h ht'
      · exact hapart.2 h ht
      · exact hnotcalled u hu h ht

def Looped (p : MetricsPool) : Prop :=
  ∀ h < p.shared.heartbeats.length, ∃ u ∈ p.tasks, u.heartbeatId = some h

theorem looped_run {C : MetricsPool → MetricsAct → Prop} (h : Guarded step C init as p) :
    p.Looped := by
  refine h.invariant ?_ fun h hh => (Nat.not_lt_zero _ hh).elim
  intro p a p' hp _ hstep h hh
  obtain ⟨t, rfl, -, rfl⟩ | ⟨i, x, t, m', t', rfl, hi, hnext, rfl⟩ := Pool.step_cases hstep
  · obtain ⟨u, hu, hid⟩ := hp h hh
    exact ⟨u, mem_append_left _ hu, hid⟩
  obtain ⟨hlength, hid⟩ | ⟨hlength, hnone, hid⟩ := (effect_of_next hnext).loop
  · exact exists_mem_set hi (hp h (hlength ▸ hh)) (fun ht => hid.trans ht) fun _ hu => hu
  · obtain hlt | rfl := Nat.lt_succ_iff_lt_or_eq.1 (hlength ▸ hh)
    · refine exists_mem_set hi (hp h hlt) (fun ht => ?_) fun _ hu => hu
      rw [hnone] at ht
      cases ht
    · exact ⟨t', mem_set_self hi, hid⟩

theorem sentBy_eq_baseline (hbalanced : p.Balanced)
    (hapart : Apart TaskApart p.tasks) {h : Nat} {last : String → Option Int}
    {pc : BeatPc} (hmem : .heartbeat h last pc ∈ p.tasks) (name : String)
    (hpending : pc.pending name = 0) :
    p.shared.sentBy (fun h' => h' = h) name = (last name).getD 0 := by
  obtain ⟨i, hi⟩ := getElem?_of_mem hmem
  have htally : tally (balance (fun h' => h' = h) name) p.tasks = 0 - (last name).getD 0 := by
    rw [tally_eq_of_other hi]
    · simp only [balance, decide_true, if_true, hpending]
    · intro j u hne hj
      have hid := (hapart (Ne.symm hne) hi hj).1 h rfl
      cases u with
      | heartbeat h' last' pc' =>
        have hne' : h' ≠ h := fun heq => hid (congrArg some heq)
        simp [balance, hne']
      | program | starting | shutdown h' before pc' | drop h' | dropped => rfl
  have hsum := hbalanced (fun h' => h' = h) name
  omega

/-- In every run in which `shutdown` is called while the loop waits for its next beat, a
call that returns without a timeout has flushed the increments made before it. -/
theorem final_flush (as : List MetricsAct) (p : MetricsPool)
    (h : Guarded step CalledWhileWaiting init as p) : p.Flushed := by
  intro h' before hmem name
  have hp := asserts_run h
  obtain ⟨x, hx, hcalled, -, hexited⟩ := (hp.tasks _ hmem).call h' before _ rfl rfl
  obtain ⟨u, hu, hid⟩ := looped_run h h' (List.getElem?_eq_some_iff.1 hx).1
  obtain ⟨last, pc, rfl⟩ : ∃ last pc, u = .heartbeat h' last pc := by
    cases u with
    | heartbeat i last pc => cases hid; exact ⟨last, pc, rfl⟩
    | program | starting | shutdown i before pc | drop i | dropped => cases hid
  obtain ⟨x', hx', hpc, -, hflushes⟩ := (hp.tasks _ hu).beat h' last pc rfl
  rw [hx] at hx'
  cases hx'
  cases hpc (hexited rfl)
  obtain ⟨n, hn, hle, hsum⟩ := hflushes before hcalled name
  refine ⟨n, hn, hle, ?_⟩
  rw [sentBy_eq_baseline (balanced_run h) hp.apart hu name rfl, hsum]

/-- Two increments are made; the loop is woken by `shutdown` and sends both. -/
def shutdownWhileWaiting : List MetricsAct :=
  [.spawn .program, .spawn .starting, .run 1 .go, .run 0 (.inc "Client.BytesReadLocal" 3),
    .run 0 (.inc "Client.BytesReadLocal" 4), .spawn (.shutdown 0 (fun _ => 0) .store),
    .run 2 .go, .run 2 .go, .run 2 .go, .run 1 .go, .run 1 (.read "Client.BytesReadLocal"),
    .run 1 .go, .run 1 .go, .run 1 .go, .run 2 .go]

theorem final_flush_shutdownWhileWaiting :
    ∃ p, Guarded step CalledWhileWaiting init shutdownWhileWaiting p ∧
      p.shared.reports.map Report.metrics = [[("Client.BytesReadLocal", 7)]] ∧ p.Flushed := by
  obtain ⟨p, hrun, hreports⟩ : ∃ p, Guarded step CalledWhileWaiting init shutdownWhileWaiting p ∧
        p.shared.reports.map Report.metrics = [[("Client.BytesReadLocal", 7)]] :=
    Guarded.exists_of_replay (by decide +kernel)
  exact ⟨p, hrun, hreports, final_flush shutdownWhileWaiting p hrun⟩

/-- A beat has read the counter when it is incremented again and `shutdown` is called.
The loop ends with this beat. -/
def shutdownDuringBeat : List MetricsAct :=
  [.spawn .program, .spawn .starting, .run 1 .go, .run 0 (.inc "Client.BytesReadLocal" 3),
    .run 1 .go, .run 1 (.read "Client.BytesReadLocal"), .run 1 .go,
    .run 0 (.inc "Client.BytesReadLocal" 4), .spawn (.shutdown 0 (fun _ => 0) .store),
    .run 2 .go, .run 2 .go, .run 2 .go, .run 1 .go, .run 1 .go, .run 2 .go]

/-- The heartbeat and the record of a call of `shutdown` that has returned. -/
def returned : MetricsTask → Option (Nat × (String → Nat))
  | .shutdown h before .returned => some (h, before)
  | _ => none

theorem mem_of_returned {i h : Nat} {before : String → Nat}
    (hr : (p.tasks[i]?).bind returned = some (h, before)) :
    .shutdown h before .returned ∈ p.tasks := by
  obtain ⟨t, ht, hr⟩ := bind_eq_some_iff.1 hr
  have heq : t = .shutdown h before .returned := by
    unfold returned at hr
    split at hr
    · cases hr
      rfl
    · cases hr
  exact heq ▸ mem_of_getElem? ht

/-- Two increments were made before the call, and only the first was sent. -/
theorem increment_not_flushed : ∃ p, Guarded step (fun _ _ => True) init shutdownDuringBeat p ∧
      p.shared.incs "Client.BytesReadLocal" = [3, 4] ∧
      p.shared.reports.map Report.metrics = [[("Client.BytesReadLocal", 3)]] ∧ ¬ p.Flushed := by
  obtain ⟨p, hrun, hcall, hincs, hreports, hsent⟩ :
      ∃ p, Guarded step (fun _ _ => True) init shutdownDuringBeat p ∧
        (((p.tasks[2]?).bind returned).any fun x =>
          x.1 = 0 ∧ x.2 "Client.BytesReadLocal" = 2) = true ∧
        p.shared.incs "Client.BytesReadLocal" = [3, 4] ∧
        p.shared.reports.map Report.metrics = [[("Client.BytesReadLocal", 3)]] ∧
        p.shared.sentBy (fun h' => h' = 0) "Client.BytesReadLocal" = 3 :=
    Guarded.exists_of_replay (by decide +kernel)
  refine ⟨p, hrun, hincs, hreports, fun hflushed => ?_⟩
  obtain ⟨⟨h, before⟩, hreturned, hbefore⟩ := (Option.any_eq_true _ _).1 hcall
  obtain ⟨rfl, htwo⟩ := of_decide_eq_true hbefore
  obtain ⟨n, hn, hle, hsum⟩ :=
    hflushed 0 before (mem_of_returned hreturned) "Client.BytesReadLocal"
  rw [hincs] at hle hsum
  have hn2 : n = 2 := Nat.le_antisymm hle (htwo ▸ hn)
  rw [hsent, hn2] at hsum
  exact absurd hsum (by decide)

end MetricsPool

end GooseFS
