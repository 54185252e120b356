import GooseFS.Error

/-!
# Discovery of the primary master

`PollingMasterInquireClient` asks the configured masters, one after another and
round after round, which of them is the primary.  A standby master and a master
that cannot be reached are passed over.  Any other answer, a malformed address
among them, ends the round (`PingError::Fatal`), so a primary that is configured
behind such an address is not asked.
-/

namespace GooseFS

/-- Durations are in milliseconds.  The start of the policy is time 0. -/
structure ExponentialTimeBoundedRetry where
  maxDuration : Nat
  maxSleep : Nat
  attempts : Nat
  currentSleep : Nat
  deriving DecidableEq, Repr

namespace ExponentialTimeBoundedRetry

def new (maxDuration initialSleep maxSleep : Nat) : ExponentialTimeBoundedRetry :=
  ⟨maxDuration, maxSleep, 0, initialSleep⟩

/-- The policy after `should_retry` has allowed an attempt; `none` if it does not. -/
def shouldRetry (r : ExponentialTimeBoundedRetry) (elapsed : Nat) :
    Option ExponentialTimeBoundedRetry :=
  if r.attempts = 0 then
    some { r with attempts := 1 }
  else if r.maxDuration ≤ elapsed then
    none
  else
    let attempts := r.attempts + 1
    some { r with
      attempts := attempts
      currentSleep := if 2 ≤ attempts then min (r.currentSleep * 2) r.maxSleep
        else r.currentSleep }

def nextSleep (r : ExponentialTimeBoundedRetry) (jitter : Nat) : Nat := r.currentSleep + jitter

end ExponentialTimeBoundedRetry

inductive PingError where
  | standby
  | unavailable (message : String)
  | fatal (message : String)
  deriving DecidableEq, Repr

/-- What becomes of a ping.  `text` is the status code as it is written in messages. -/
inductive Ping where
  | invalidEndpoint (e : String)
  | connectFailed (e : String)
  | served
  | status (code : Code) (text message : String)
  deriving DecidableEq, Repr

def pingMetaService (addr : String) : Ping → Except PingError Unit
  | .invalidEndpoint e => .error (.fatal s!"invalid endpoint for {addr}: {e}")
  | .connectFailed e => .error (.unavailable s!"{addr}: connection failed: {e}")
  | .served => .ok ()
  | .status .notFound _ _ => .error .standby
  | .status .unavailable text message => .error (.unavailable s!"{addr}: [{text}] {message}")
  | .status .deadlineExceeded text message =>
    .error (.unavailable s!"{addr}: [{text}] {message}")
  | .status .cancelled text message => .error (.unavailable s!"{addr}: [{text}] {message}")
  | .status _ text message => .error (.fatal s!"{addr}: [{text}] {message}")

namespace Ping

def isPrimary : Ping → Bool
  | .served => true
  | _ => false

/-- The address is malformed, or the status is none of those that are passed over. -/
def isFatal : Ping → Bool
  | .invalidEndpoint _ => true
  | .status code _ _ => code ∉ [Code.notFound, .unavailable, .deadlineExceeded, .cancelled]
  | _ => false

end Ping

/-! ## Rounds -/

/-- One pass over the addresses, with the answer that each would give: the first
primary, or the errors of the round. -/
def pollRound : List (String × Ping) → List String → Except (List String) String
  | [], errors => .error errors
  | (addr, ping) :: rest, errors =>
    match pingMetaService addr ping with
    | .ok () => .ok addr
    | .error .standby => pollRound rest (errors ++ [s!"{addr}: standby"])
    | .error (.unavailable message) => pollRound rest (errors ++ [message])
    -- the addresses behind this one are not asked
    | .error (.fatal message) => .error (errors ++ [message])

structure PollingMasterInquireClient where
  addresses : List String
  maxDuration : Nat
  initialSleep : Nat
  maxSleep : Nat
  deriving DecidableEq, Repr

/-- `ping n i` is what the `i`-th address would answer in round `n`. -/
structure PollEnv where
  ping : Nat → Nat → Ping
  took : Nat → Nat
  jitter : Nat → Nat

structure PollState where
  retry : ExponentialTimeBoundedRetry
  elapsed : Nat
  lastErrors : List String
  deriving DecidableEq, Repr

inductive PollStep where
  | done (result : Except String String)
  | again (s : PollState)
  deriving DecidableEq

namespace PollingMasterInquireClient

variable (c : PollingMasterInquireClient) (env : PollEnv)

def asked (n : Nat) : List (String × Ping) :=
  c.addresses.mapIdx fun i addr => (addr, env.ping n i)

def pollFailed (s : PollState) : String :=
  let attempts := s.retry.attempts
  let count := c.addresses.length
  let errors := "; ".intercalate s.lastErrors
  s!"failed to find primary master after {attempts} attempts across {count} addresses. " ++
    s!"Last round errors: [{errors}]"

/-- Round `n`: the check of the retry policy, one pass over the addresses, the sleep. -/
def pollStep (n : Nat) (s : PollState) : PollStep :=
  match s.retry.shouldRetry s.elapsed with
  | none => .done (.error (c.pollFailed s))
  | some retry =>
    match pollRound (c.asked env n) [] with
    | .ok addr => .done (.ok addr)
    | .error errors =>
      .again ⟨retry, s.elapsed + env.took n + retry.nextSleep (env.jitter n), errors⟩

/-- The poll from round `n` on; `none` if it is not over after `fuel` rounds. -/
def pollFrom : Nat → Nat → PollState → Option (Except String String)
  | 0, _, _ => none
  | fuel + 1, n, s =>
    match c.pollStep env n s with
    | .done result => some result
    | .again s' => pollFrom fuel (n + 1) s'

def pollStart : PollState := ⟨.new c.maxDuration c.initialSleep c.maxSleep, 0, []⟩

def pollForPrimary (fuel : Nat) : Option (Except String String) :=
  c.pollFrom env fuel 0 c.pollStart

/-- The state in which the poll comes to round `n`, if it does. -/
def stateAt : Nat → Option PollState
  | 0 => some c.pollStart
  | n + 1 =>
    (stateAt n).bind fun s =>
      match c.pollStep env n s with
      | .done _ => none
      | .again s' => some s'

/-- The poll comes to round `n` and the retry policy allows it. -/
def Polls (n : Nat) : Prop :=
  ((c.stateAt env n).any fun s => (s.retry.shouldRetry s.elapsed).isSome) = true

instance (n : Nat) : Decidable (c.Polls env n) := inferInstanceAs (Decidable (_ = true))

end PollingMasterInquireClient

variable {ping : Ping}

theorem pingMetaService_primary (h : ping.isPrimary = true) (addr : String) :
    pingMetaService addr ping = .ok () := by
  cases ping <;> first | rfl | cases h

theorem pollRound_passed (hp : ping.isPrimary = false) (hf : ping.isFatal = false) (addr : String)
    (rest : List (String × Ping)) (errors : List String) :
    ∃ errors', pollRound ((addr, ping) :: rest) errors = pollRound rest errors' := by
  cases ping with
  | invalidEndpoint e => cases hf
  | connectFailed e => exact ⟨_, rfl⟩
  | served => cases hp
  | status code text message => cases code <;> first | exact ⟨_, rfl⟩ | cases hf

theorem pollRound_fatal (hf : ping.isFatal = true) (addr : String) (rest : List (String × Ping))
    (errors : List String) :
    ∃ errors', pollRound ((addr, ping) :: rest) errors = .error errors' := by
  cases ping with
  | invalidEndpoint e => exact ⟨_, rfl⟩
  | connectFailed e | served => cases hf
  | status code text message => cases code <;> first | exact ⟨_, rfl⟩ | cases hf

theorem pollRound_ok_iff (xs : List (String × Ping)) (errors : List String) :
    (∃ x ∈ xs, x.2.isPrimary = true ∧ pollRound xs errors = .ok x.1) ↔
      (∃ x ∈ xs, x.2.isPrimary = true) ∧
        ∀ x ∈ xs.takeWhile (fun x => !x.2.isPrimary), x.2.isFatal = false := by
  induction xs generalizing errors with
  | nil => simp
  | cons x rest ih =>
    obtain ⟨addr, ping⟩ := x
    cases hp : ping.isPrimary with
    | true =>
      have hround : pollRound ((addr, ping) :: rest) errors = .ok addr := by
        rw [pollRound, pingMetaService_primary hp]
      have hbefore : ((addr, ping) :: rest).takeWhile (fun x => !x.2.isPrimary) = [] := by
        simp [hp]
      constructor
      · rintro ⟨x, hx, hprimary, -⟩
        refine ⟨⟨x, hx, hprimary⟩, ?_⟩
        simp [hbefore]
      · rintro -
        exact ⟨(addr, ping), List.mem_cons_self, hp, hround⟩
    | false =>
      have hbefore : ((addr, ping) :: rest).takeWhile (fun x => !x.2.isPrimary) =
          (addr, ping) :: rest.takeWhile (fun x => !x.2.isPrimary) := by
        simp [hp]
      rw [hbefore]
      cases hf : ping.isFatal with
      | true =>
        obtain ⟨errors', hround⟩ := pollRound_fatal hf addr rest errors
        constructor
        · rintro ⟨x, -, -, hok⟩
          rw [hround] at hok
          cases hok
        · rintro ⟨-, hnone⟩
          rw [hnone (addr, ping) List.mem_cons_self] at hf
          cases hf
      | false =>
        obtain ⟨errors', hround⟩ := pollRound_passed hp hf addr rest errors
        rw [hround]
        have ih' := ih errors'
        simp only [List.mem_cons, exists_eq_or_imp, hp, hf, forall_eq_or_imp, true_and,
          Bool.false_eq_true, false_and, false_or]
        exact ih'

theorem isPrimary_of_pollRound {xs : List (String × Ping)} {errors : List String} {addr : String}
    (h : pollRound xs errors = .ok addr) : ∃ x ∈ xs, x.2.isPrimary = true ∧ x.1 = addr := by
  induction xs generalizing errors with
  | nil => cases h
  | cons x rest ih =>
    obtain ⟨addr', ping⟩ := x
    cases hp : ping.isPrimary with
    | true =>
      rw [pollRound, pingMetaService_primary hp] at h
      cases h
      exact ⟨_, List.mem_cons_self, hp, rfl⟩
    | false =>
      cases hf : ping.isFatal with
      | true =>
        obtain ⟨errors', hround⟩ := pollRound_fatal hf addr' rest errors
        rw [hround] at h
        cases h
      | false =>
        obtain ⟨errors', hround⟩ := pollRound_passed hp hf addr' rest errors
        rw [hround] at h
        obtain ⟨x, hx, hfound⟩ := ih h
        exact ⟨x, List.mem_cons_of_mem _ hx, hfound⟩

/-! ## Polls -/

namespace PollingMasterInquireClient

variable {c : PollingMasterInquireClient} {env : PollEnv} {n : Nat} {s s' : PollState}

theorem stateAt_succ (h : c.stateAt env (n + 1) = some s') :
    ∃ s, c.stateAt env n = some s ∧ c.pollStep env n s = .again s' := by
  obtain ⟨s, hs, hstep⟩ := Option.bind_eq_some_iff.1 h
  refine ⟨s, hs, ?_⟩
  split at hstep
  · cases hstep
  · next hagain =>
    cases hstep
    exact hagain

theorem stateAt_again (hs : c.stateAt env n = some s) (hstep : c.pollStep env n s = .again s') :
    c.stateAt env (n + 1) = some s' := by
  rw [stateAt, hs, Option.bind_some, hstep]

theorem pollForPrimary_of_stateAt (h : c.stateAt env n = some s) (fuel : Nat) :
    c.pollForPrimary env (n + fuel) = c.pollFrom env fuel n s := by
  induction n generalizing s fuel with
  | zero =>
    cases h
    rw [Nat.zero_add]
    rfl
  | succ n ih =>
    obtain ⟨s₀, hs₀, hstep⟩ := stateAt_succ h
    have hround : c.pollFrom env (fuel + 1) n s₀ = c.pollFrom env fuel (n + 1) s := by
      rw [pollFrom, hstep]
    rw [← hround, ← ih hs₀ (fuel + 1)]
    congr 1
    omega

theorem pollFrom_one {retry : ExponentialTimeBoundedRetry}
    (hretry : s.retry.shouldRetry s.elapsed = some retry) (addr : String) :
    c.pollFrom env 1 n s = some (.ok addr) ↔ pollRound (c.asked env n) [] = .ok addr := by
  rw [pollFrom, pollStep, hretry]
  cases hround : pollRound (c.asked env n) [] with
  | ok found => simp
  | error errors => simp [pollFrom]

/-- A round in which some address would answer as the primary ends the poll with a
primary exactly if no address before the first such one gives a fatal answer. -/
theorem poll_finds_primary_iff (c : PollingMasterInquireClient) (env : PollEnv) (n : Nat)
    (hpolls : c.Polls env n) (hprimary : ∃ x ∈ c.asked env n, x.2.isPrimary = true) :
    (∃ x ∈ c.asked env n, x.2.isPrimary = true ∧ c.pollForPrimary env (n + 1) = some (.ok x.1)) ↔
      ∀ x ∈ (c.asked env n).takeWhile (fun x => !x.2.isPrimary), x.2.isFatal = false := by
  obtain ⟨s, hs, hallowed⟩ := (Option.any_eq_true _ _).1 hpolls
  obtain ⟨retry, hretry⟩ := Option.isSome_iff_exists.1 hallowed
  rw [pollForPrimary_of_stateAt hs 1]
  simp only [pollFrom_one hretry]
  rw [pollRound_ok_iff]
  exact and_iff_right hprimary

/-- The second round of a poll: an unreachable master, a standby and the primary. -/
def failover : PollEnv where
  ping
    | 0, _ => .connectFailed "timed out"
    | _, 0 => .connectFailed "timed out"
    | _, 1 => .status .notFound "not found" "standby"
    | _, _ => .served
  took _ := 5
  jitter _ := 0

def threeMasters : PollingMasterInquireClient := ⟨["m1:9200", "m2:9200", "m3:9200"], 120, 50, 300⟩

theorem poll_finds_primary_second_round :
    ∃ x ∈ threeMasters.asked failover 1, x.2.isPrimary = true ∧
      threeMasters.pollForPrimary failover 2 = some (.ok x.1) :=
  (poll_finds_primary_iff threeMasters failover 1 (by decide) (by decide)).2 (by decide)

/-- The first address is malformed, the second one is the primary in every round. -/
def malformedFirst : PollEnv where
  ping
    | _, 0 => .invalidEndpoint "invalid uri character"
    | _, _ => .served
  took _ := 5
  jitter _ := 0

/-- The primary is never asked, and the poll fails in the end. -/
theorem poll_misses_primary :
    let c : PollingMasterInquireClient := ⟨["m 1:9200", "m2:9200"], 120, 50, 300⟩
    (∀ n, ∃ x ∈ c.asked malformedFirst n, x.2.isPrimary = true) ∧ c.Polls malformedFirst 0 ∧
      c.pollForPrimary malformedFirst 3 = some (.error
        ("failed to find primary master after 2 attempts across 2 addresses. " ++
          "Last round errors: [invalid endpoint for m 1:9200: invalid uri character]")) := by
  refine ⟨fun n => ⟨("m2:9200", .served), ?_, rfl⟩, by decide, by decide +kernel⟩
  exact List.mem_cons_of_mem _ List.mem_cons_self

/-! ## Every poll ends -/

/-- Past the first attempt, on a budget of `budget`, with sleeps of at least `d`. -/
structure Paced (budget d : Nat) (r : ExponentialTimeBoundedRetry) : Prop where
  attempts : 0 < r.attempts
  maxDuration : r.maxDuration = budget
  maxSleep : d ≤ r.maxSleep
  currentSleep : d ≤ r.currentSleep

theorem Paced.again {budget d : Nat} (h : Paced budget d s.retry)
    (hstep : c.pollStep env n s = .again s') :
    Paced budget d s'.retry ∧ s.elapsed < budget ∧ s.elapsed + d ≤ s'.elapsed := by
  obtain ⟨hattempts, rfl, hmax, hsleep⟩ := h
  simp only [pollStep, ExponentialTimeBoundedRetry.shouldRetry, if_neg (Nat.ne_of_gt hattempts),
    if_pos (Nat.succ_le_succ hattempts)] at hstep
  split at hstep
  · cases hstep
  · next retry hretry =>
    split at hretry
    · cases hretry
    · next hlate =>
      cases hretry
      split at hstep
      · cases hstep
      · cases hstep
        have hpace : d ≤ min (s.retry.currentSleep * 2) s.retry.maxSleep := by omega
        refine ⟨⟨Nat.succ_pos _, rfl, hmax, hpace⟩, Nat.lt_of_not_le hlate, ?_⟩
        simp only [ExponentialTimeBoundedRetry.nextSleep]
        omega

theorem exists_done {budget d : Nat} (fuel : Nat) (hs : c.stateAt env n = some s)
    (h : Paced budget d s.retry) (hbudget : budget ≤ s.elapsed + fuel * d) :
    ∃ m ≤ n + fuel, ∃ s' r, c.stateAt env m = some s' ∧ c.pollStep env m s' = .done r := by
  induction fuel generalizing n s with
  | zero =>
    cases hstep : c.pollStep env n s with
    | done r => exact ⟨n, Nat.le_refl n, s, r, hs, hstep⟩
    | again s' =>
      have hlate := (h.again hstep).2.1
      omega
  | succ fuel ih =>
    cases hstep : c.pollStep env n s with
    | done r => exact ⟨n, Nat.le_add_right n _, s, r, hs, hstep⟩
    | again s' =>
      obtain ⟨hpaced, -, helapsed⟩ := h.again hstep
      rw [Nat.succ_mul] at hbudget
      obtain ⟨m, hm, hdone⟩ := ih (stateAt_again hs hstep) hpaced (by omega)
      exact ⟨m, by omega, hdone⟩

/-- How a poll that came to round `n` in the state `s` ends there: with a master that
answers as the primary, or without another round and with the errors of the last one. -/
inductive PollEnds (c : PollingMasterInquireClient) (env : PollEnv) :
    Nat → PollState → Except String String → Prop where
  | found {n : Nat} {s : PollState} {x : String × Ping} : x ∈ c.asked env n →
      x.2.isPrimary = true → PollEnds c env n s (.ok x.1)
  | failed {n : Nat} {s : PollState} : s.retry.shouldRetry s.elapsed = none →
      pollRound (c.asked env n) [] = .error s.lastErrors →
      PollEnds c env (n + 1) s (.error (c.pollFailed s))

theorem pollEnds_of_done {r : Except String String} (hs : c.stateAt env n = some s)
    (hdone : c.pollStep env n s = .done r) : PollEnds c env n s r := by
  unfold pollStep at hdone
  split at hdone
  case h_1 hretry =>
    cases hdone
    cases n with
    | zero =>
      cases hs
      cases hretry
    | succ n =>
      obtain ⟨s₀, -, hstep⟩ := stateAt_succ hs
      refine .failed hretry ?_
      unfold pollStep at hstep
      split at hstep
      · cases hstep
      · split at hstep
        · cases hstep
        · next errors hround =>
          cases hstep
          exact hround
  case h_2 =>
    split at hdone
    · next addr hround =>
      cases hdone
      obtain ⟨x, hx, hprimary, rfl⟩ := isPrimary_of_pollRound hround
      exact .found hx hprimary
    · cases hdone

/-- Whatever the masters answer, a poll is over after the rounds that its time budget
has room for, with a primary or with the errors of its last round. -/
theorem pollForPrimary_ends (c : PollingMasterInquireClient) (env : PollEnv)
    (hinitial : 0 < c.initialSleep) (hmax : 0 < c.maxSleep) :
    ∃ n s r, c.stateAt env n = some s ∧ PollEnds c env n s r ∧
      c.pollForPrimary env (c.maxDuration / min c.initialSleep c.maxSleep + 3) = some r := by
  generalize hfuel : c.maxDuration / min c.initialSleep c.maxSleep = fuel
  have hd : 0 < min c.initialSleep c.maxSleep := Nat.lt_min.2 ⟨hinitial, hmax⟩
  obtain ⟨n, hn, s, r, hs, hdone⟩ : ∃ n ≤ fuel + 2, ∃ s r,
      c.stateAt env n = some s ∧ c.pollStep env n s = .done r := by
    cases hstep : c.pollStep env 0 c.pollStart with
    | done r => exact ⟨0, Nat.zero_le _, _, r, rfl, hstep⟩
    | again s =>
      have hfirst : Paced c.maxDuration (min c.initialSleep c.maxSleep) s.retry := by
        simp only [pollStep, pollStart, ExponentialTimeBoundedRetry.new,
          ExponentialTimeBoundedRetry.shouldRetry, if_true] at hstep
        split at hstep
        · cases hstep
        · cases hstep
          exact ⟨Nat.one_pos, rfl, Nat.min_le_right _ _, Nat.min_le_left _ _⟩
      have hroom := Nat.lt_mul_div_succ c.maxDuration hd
      rw [Nat.mul_comm, hfuel] at hroom
      obtain ⟨m, hm, hdone⟩ := exists_done (fuel + 1) (stateAt_again rfl hstep) hfirst (by omega)
      exact ⟨m, by omega, hdone⟩
  refine ⟨n, s, r, hs, pollEnds_of_done hs hdone, ?_⟩
  obtain ⟨more, hmore⟩ := Nat.exists_eq_add_of_le hn
  have hrounds : fuel + 3 = n + (more + 1) := by omega
  rw [hrounds, pollForPrimary_of_stateAt hs, pollFrom, hdone]

def unreachable : PollEnv := ⟨fun _ _ => .connectFailed "timed out", fun _ => 0, fun _ => 0⟩

/-- No master can be reached, and the poll ends with the errors of its second round. -/
theorem pollForPrimary_ends_unreachable : ∃ n s r,
    threeMasters.stateAt unreachable n = some s ∧ PollEnds threeMasters unreachable n s r ∧
      threeMasters.pollForPrimary unreachable 5 = some r ∧
      r = .error ("failed to find primary master after 2 attempts across 3 addresses. " ++
        "Last round errors: [m1:9200: connection failed: timed out; " ++
        "m2:9200: connection failed: timed out; m3:9200: connection failed: timed out]") := by
  obtain ⟨n, s, r, hs, hends, hr⟩ :=
    pollForPrimary_ends threeMasters unreachable (by decide) (by decide)
  refine ⟨n, s, r, hs, hends, hr, Option.some.inj (hr.symm.trans ?_)⟩
  decide +kernel

end PollingMasterInquireClient

end GooseFS
