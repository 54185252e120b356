import GooseFS.Cache.Traffic

/-!
# Every descriptor is cached or closed

`Conserved` adds up what the shared state and all the tasks hold.  It survives every step,
so that when nothing is going on a descriptor has an entry in a cache, or is closed, or
is lost.  `NoLeak` is the condition of a step that loses no descriptor: the caller of an
`OpenAt` that succeeds still waits for it, and no `Close` is rejected by a full submission
queue.  A run to an idle state keeps every descriptor if and only if all its steps
meet it.
-/

namespace GooseFS

open Lib List

namespace UringState

variable (m : UringState)

theorem entries_eq_count (d : Nat) : m.entries d = (m.cache.map Prod.snd).count d := by
  unfold entries
  induction m.cache with
  | nil => rfl
  | cons e es ih =>
    simp only [tally, map_cons, sum_cons, count_cons, share] at ih ⊢
    rw [ih]
    by_cases hd : e.2 = d
    · simp [hd, Int.add_comm]
    · simp [hd]

/-- The descriptor is in the keeping of one entry of a cache, or it has been closed once. -/
def Accounted (d : Nat) : Prop :=
  ((m.cache.map Prod.snd).count d = 1 ∧ m.log.count (.closed d) = 0) ∨
    ((m.cache.map Prod.snd).count d = 0 ∧ m.log.count (.closed d) = 1)

instance (d : Nat) : Decidable (m.Accounted d) := inferInstanceAs (Decidable (_ ∨ _))

end UringState

def UringOp.isClose : UringOp → Bool
  | .close _ => true
  | _ => false

/-! ## Runs -/

namespace UringTasks

variable {rings : Nat} {p : UringTasks} {as : List UringAct} {C : UringTasks → UringAct → Prop}
  {a : UringAct} {p' : UringTasks}

/-- Each descriptor is in one place, each live request has one caller, and each handle is
counted. -/
structure Conserved (p : UringTasks) : Prop where
  fds : ∀ d, p.shared.held d + tally (fun t => share t.hands.owned d) p.tasks = p.shared.opened d
  live : ∀ r, p.shared.liveAt r = tally (fun t => share t.hands.awaits r) p.tasks
  refs : ∀ d, (p.shared.refs d : Int) =
    p.shared.entries d + tally (fun t => share t.hands.cloned d) p.tasks
  entries : ∀ d, p.shared.entries d ≤ 1
  awaited : Asserted Awaited p.shared p.tasks

namespace Conserved

theorem tally_share_nonneg (f : UringTask → Option Nat) (d : Nat) (ts : List UringTask) :
    0 ≤ tally (fun t => share (f t) d) ts := tally_nonneg fun t _ => share_nonneg (f t) d

variable {t : UringTask}

theorem share_le_tally (f : UringTask → Option Nat) {ts : List UringTask} {d : Nat} (ht : t ∈ ts)
    (hd : f t = some d) : 1 ≤ tally (fun t => share (f t) d) ts := by
  have hle := le_tally (f := fun t => share (f t) d) (fun u _ => share_nonneg (f u) d) ht
  simpa [hd, share_self] using hle

theorem opened_le_one (m : UringState) (d : Nat) : m.opened d ≤ 1 := by
  unfold UringState.opened
  split <;> decide

theorem ready (h : p.Conserved) (ht : t ∈ p.tasks) : Ready p.shared t where
  awaited := by
    intro r op hr hop
    obtain ⟨q, hq, hqop⟩ := h.awaited t ht r op hr hop
    refine ⟨q, hq, hqop, ?_⟩
    have hone := share_le_tally (fun t => t.hands.awaits) ht hr
    have hlive := h.live r
    rw [Handover.liveAt_of_live hq] at hlive
    cases hl : q.live with
    | true => rfl
    | false =>
      rw [hl] at hlive
      simp only [Bool.false_eq_true, if_false] at hlive
      omega
  cloned := by
    intro d hd
    have hone := share_le_tally (fun t => t.hands.cloned) ht hd
    have hrefs := h.refs d
    have hentries := p.shared.entries_nonneg d
    omega
  cached := by
    intro e he
    have hone : 1 ≤ p.shared.entries e.2 := by
      have hle := le_tally (f := fun e' : FdKey × Nat => share (some e'.2) e.2)
        (fun _ _ => share_nonneg _ _) he
      rwa [share_self] at hle
    have hrefs := h.refs e.2
    have hclones := tally_share_nonneg (fun t => t.hands.cloned) e.2 p.tasks
    omega
  owned := by
    intro d hd
    have hone := share_le_tally (fun t => t.hands.owned) ht hd
    have hfds := h.fds d
    have hle := opened_le_one p.shared d
    have hrequests := p.shared.requests_nonneg d
    have hrefs : p.shared.refs d = 0 := by
      unfold UringState.held at hfds
      split at hfds
      · omega
      · omega
    have hcount := h.refs d
    have hclones := tally_share_nonneg (fun t => t.hands.cloned) d p.tasks
    have hentries := p.shared.entries_nonneg d
    exact ⟨hrefs, by omega⟩

theorem spawn (h : p.Conserved) (hstart : t.start = true) :
    Conserved ⟨p.shared, p.tasks ++ [t]⟩ := by
  have hempty : t.hands = .empty ∧ t.awaitedOp = none := by
    cases t with
    | call c =>
      simp only [UringTask.start, decide_eq_true_eq] at hstart
      simp only [UringTask.hands, UringTask.awaitedOp]
      obtain hpc | hpc | hpc := hstart <;> rw [hpc] <;> exact ⟨rfl, rfl⟩
    | _ => exact ⟨rfl, rfl⟩
  have hzero (f : Hands → Option Nat) (hf : f .empty = none) (d : Nat) :
      tally (fun t => share (f t.hands) d) (p.tasks ++ [t]) =
        tally (fun t => share (f t.hands) d) p.tasks := by
    rw [tally_append, hempty.1, hf, share_none]
    omega
  refine ⟨fun d => ?_, fun r => ?_, fun d => ?_, h.entries, ?_⟩
  · rw [hzero Hands.owned rfl]
    exact h.fds d
  · rw [hzero Hands.awaits rfl]
    exact h.live r
  · rw [hzero Hands.cloned rfl]
    exact h.refs d
  · refine h.awaited.append (fun _ hu => hu) fun r op _ hop => ?_
    rw [hempty.2] at hop
    cases hop

theorem move (h : p.Conserved) {i : Nat} {t' : UringTask} {m' : UringState}
    (hi : p.tasks[i]? = some t) (hstep : Handover p.shared t.hands m' t'.hands)
    (hawaited : Awaited m' t') : Conserved ⟨m', p.tasks.set i t'⟩ := by
  refine ⟨fun d => ?_, fun r => ?_, fun d => ?_, hstep.entries h.entries, ?_⟩
  · have := h.fds d
    have := hstep.fds d
    rw [tally_set _ hi]
    dsimp only
    omega
  · have := h.live r
    have := hstep.live r
    rw [tally_set _ hi]
    dsimp only
    omega
  · have := h.refs d
    have := hstep.refs d
    rw [tally_set _ hi]
    dsimp only
    omega
  · refine h.awaited.set hawaited fun j u _ _ hu r op hr hop => ?_
    obtain ⟨q, hq, hqop⟩ := hu r op hr hop
    obtain ⟨q', hq', hop'⟩ := hstep.ops r q hq
    exact ⟨q', hq', hop'.trans hqop⟩

end Conserved

theorem conserved_step (h : p.Conserved) (hstep : step rings p a = some p') : p'.Conserved := by
  obtain ⟨t, rfl, hstart, rfl⟩ | ⟨i, x, t, m', t', rfl, hi, hnext, rfl⟩ := Pool.step_cases hstep
  · exact h.spawn hstart
  · obtain ⟨hhandover, hawaited⟩ :=
      UringTask.handover_next (h.ready (mem_of_getElem? hi)) hnext
    exact h.move hi hhandover hawaited

theorem conserved_init : init.Conserved where
  fds := fun _ => rfl
  live := fun _ => rfl
  refs := fun _ => rfl
  entries := fun _ => Int.zero_le_ofNat 1
  awaited := fun _ ht => (not_mem_nil ht).elim

theorem conserved_run (h : Guarded (step rings) C init as p) : p.Conserved :=
  h.invariant (fun _ _ _ hp _ hstep => conserved_step hp hstep) conserved_init

/-! ## Idle states -/

instance : DecidablePred Idle := fun _ => inferInstanceAs (Decidable (_ ∧ _))

theorem hands_of_idle {t : UringTask} (h : t.idle = true) : t.hands = .empty := by
  cases t with
  | call c =>
    simp only [UringTask.idle, decide_eq_true_eq] at h
    simp only [UringTask.hands, h]
    rfl
  | _ => rfl

theorem carried_of_settled {q : IoRequest} (hcompleted : q.completed = true)
    (hlive : q.live = false) : q.carried = none := by
  unfold IoRequest.completed at hcompleted
  unfold IoRequest.carried
  cases hop : q.op with
  | write fd => simp [hlive]
  | openAt =>
    cases hs : q.stage with
    | completed result =>
      cases result with
      | error e => rfl
      | ok fd => simp [hlive]
    | _ => rfl
  | close fd => cases hs : q.stage <;> simp_all
  | _ => rfl

section

variable (h : p.Conserved) (hidle : p.Idle)
include h hidle

theorem Conserved.idle (d : Nat) :
    p.shared.entries d + p.shared.log.count (.closed d) + p.shared.lost.count d =
      p.shared.opened d := by
  have hhands (f : Hands → Option Nat) (hf : f .empty = none) (n : Nat) :
      tally (fun t => share (f t.hands) n) p.tasks = 0 := by
    refine tally_eq_zero fun t ht => ?_
    rw [hands_of_idle (hidle.1 t ht), hf, share_none]
  have hrequests : tally (fun q => share q.carried d) p.shared.requests = 0 := by
    refine tally_eq_zero fun q hq => ?_
    obtain ⟨r, hr⟩ := getElem?_of_mem hq
    have hlive := h.live r
    rw [hhands Hands.awaits rfl, Handover.liveAt_of_live hr] at hlive
    have hdead : q.live = false := by
      cases hl : q.live with
      | false => rfl
      | true => simp [hl] at hlive
    rw [carried_of_settled (hidle.2 q hq) hdead, share_none]
  have hfds := h.fds d
  have hrefs := h.refs d
  have hle := h.entries d
  rw [hhands Hands.owned rfl] at hfds
  rw [hhands Hands.cloned rfl] at hrefs
  unfold UringState.held at hfds
  rw [hrequests] at hfds
  split at hfds <;> omega

theorem Conserved.accounted_iff {d : Nat} (hd : d < p.shared.nextFd) :
    p.shared.Accounted d ↔ d ∉ p.shared.lost := by
  have hsum := h.idle hidle d
  have hopened : p.shared.opened d = 1 := if_pos hd
  rw [p.shared.entries_eq_count, hopened] at hsum
  unfold UringState.Accounted
  rw [← count_eq_zero]
  omega

theorem Conserved.all_accounted_iff :
    (∀ d < p.shared.nextFd, p.shared.Accounted d) ↔ p.shared.lost = [] := by
  constructor
  · intro hall
    refine eq_nil_iff_forall_not_mem.2 fun d hlost => ?_
    have hd : d < p.shared.nextFd := by
      have hsum := h.idle hidle d
      have hentries := p.shared.entries_nonneg d
      have hcount := count_pos_iff.2 hlost
      unfold UringState.opened at hsum
      split at hsum
      · assumption
      · omega
    exact (h.accounted_iff hidle hd).1 (hall d hd) hlost
  · intro hnil d hd
    exact (h.accounted_iff hidle hd).2 (hnil ▸ not_mem_nil)

end

/-! ## Losses -/

/-- A successful `OpenAt` has a caller that waits for it, and a full submission queue does
not reject a `Close`. -/
def NoLeak (p : UringTasks) : UringAct → Prop
  | .spawn _ => True
  | .run _ x =>
    (∀ r ∈ x.succeeded, ∀ q ∈ p.shared.requests[r]?, q.op = .openAt → q.live = true) ∧
      ∀ r ∈ x.rejected, ∀ q ∈ p.shared.requests[r]?, q.op.isClose = false

instance (p : UringTasks) (a : UringAct) : Decidable (NoLeak p a) := by
  cases a <;> unfold NoLeak <;> infer_instance

theorem noLeak_of_not_isRing {i : Nat} {x : UringInput} (hx : x.isRing = false) :
    NoLeak p (.run i x) := by
  have hnone : x.succeeded = none ∧ x.rejected = none := by
    cases x <;> first | exact ⟨rfl, rfl⟩ | cases hx
  simp [NoLeak, hnone.1, hnone.2]

/-- A step meets the condition and loses nothing, or does not and loses a descriptor. -/
def Loses (p : UringTasks) (a : UringAct) (m' : UringState) : Prop :=
  (NoLeak p a ∧ m'.lost = p.shared.lost) ∨ (¬ NoLeak p a ∧ ∃ d, m'.lost = p.shared.lost ++ [d])

variable {i k r : Nat} {q : IoRequest} {x : UringInput} {m' : UringState}

theorem loses_of_pushes {full : Bool} (hr : p.shared.requests[r]? = some q)
    (hx : x = .receive r full ∨ x = .resubmit r full) (h : p.shared.Pushes k r q full m') :
    Loses p (.run i x) m' := by
  have hguard : NoLeak p (.run i x) ↔ (full = true → q.op.isClose = false) := by
    obtain rfl | rfl := hx <;>
      cases full <;> simp [NoLeak, hr, UringInput.succeeded, UringInput.rejected]
  rw [Loses, hguard]
  cases h with
  | failed full hop =>
    refine .inl ⟨fun _ => ?_, rfl⟩
    cases hqop : q.op with
    | close fd => exact (hop fd hqop).elim
    | _ => rfl
  | lost fd hop =>
    refine .inr ⟨fun h => ?_, fd, rfl⟩
    rw [hop] at h
    cases h rfl
  | _ => exact .inl ⟨fun h => (by cases h), rfl⟩

theorem loses_of_reaps {result : Except Nat Nat} (hr : p.shared.requests[r]? = some q)
    (h : p.shared.Reaps r q result m') : Loses p (.run i (.reap r result)) m' := by
  have hguard : NoLeak p (.run i (.reap r result)) ↔
      ((∃ n, result = .ok n) → q.op = .openAt → q.live = true) := by
    cases result <;> simp [NoLeak, hr, UringInput.succeeded, UringInput.rejected]
  rw [Loses, hguard]
  cases h with
  | closed result answer fd hop =>
    refine .inl ⟨fun _ heq => ?_, rfl⟩
    cases hop.symm.trans heq
  | opened n hop hlive => exact .inl ⟨fun _ _ => hlive, rfl⟩
  | orphaned n hop hlive =>
    refine .inr ⟨fun h => ?_, p.shared.nextFd, rfl⟩
    cases hlive.symm.trans (h ⟨n, rfl⟩ hop)
  | moved result stage transferred hop hfd hopen =>
    refine .inl ⟨?_, rfl⟩
    rintro ⟨n, rfl⟩ heq
    obtain ⟨e, he⟩ := hopen heq
    cases he

theorem loses_step (hstep : step rings p a = some p') : Loses p a p'.shared := by
  obtain ⟨t, rfl, -, rfl⟩ | ⟨i, x, t, m', t', rfl, -, hnext, rfl⟩ := Pool.step_cases hstep
  · exact .inl ⟨trivial, rfl⟩
  cases UringTask.takes_of_next hnext with
  | call hcall =>
    refine .inl ⟨noLeak_of_not_isRing (UringCall.not_isRing_of_next hcall), ?_⟩
    cases UringCall.sends_of_next hcall with
    | closes h => exact h.lost
    | request q hq hrequests hlost hlog => exact hlost
    | gaveUp r q hr hwhy hm' => exact hm' ▸ rfl
  | push hr hqueued hx hpush => exact loses_of_pushes hr hx hpush
  | reap hr hstage hreap => exact loses_of_reaps hr hreap
  | evict key =>
    exact .inl ⟨noLeak_of_not_isRing rfl, (Closes.removeEntry p.shared key).lost⟩

theorem lost_run (h : Guarded (step rings) NoLeak init as p) : p.shared.lost = [] := by
  have hkeep (p : UringTasks) (a : UringAct) (p' : UringTasks) (hnil : p.shared.lost = [])
      (hguard : NoLeak p a) (hstep : step rings p a = some p') : p'.shared.lost = [] := by
    obtain ⟨-, hlost⟩ | ⟨hleak, -⟩ := loses_step hstep
    · exact hlost.trans hnil
    · exact (hleak hguard).elim
  exact h.invariant hkeep rfl

theorem noLeak_run (h : Guarded (step rings) C init as p) (hnil : p.shared.lost = []) :
    Guarded (step rings) NoLeak init as p := by
  have hkeep (p : UringTasks) (a : UringAct) (p' : UringTasks) (hne : p.shared.lost ≠ [])
      (hstep : step rings p a = some p') : p'.shared.lost ≠ [] := by
    obtain ⟨-, hlost⟩ | ⟨-, d, hlost⟩ := loses_step hstep
    · exact hlost ▸ hne
    · simp [hlost]
  have hleave (p : UringTasks) (a : UringAct) (p' : UringTasks) (hleak : ¬ NoLeak p a)
      (hstep : step rings p a = some p') : p'.shared.lost ≠ [] := by
    obtain ⟨hguard, -⟩ | ⟨-, d, hlost⟩ := loses_step hstep
    · exact (hleak hguard).elim
    · simp [hlost]
  exact h.of_untraced hkeep hleave fun hne => hne hnil

/-- When a run ends with nothing going on, every descriptor that was opened is in one entry
of a cache or has been closed once, if and only if no step of the run has lost one. -/
theorem descriptors_accounted_iff (h : Guarded (step rings) (fun _ _ => True) init as p)
    (hidle : p.Idle) :
    (∀ d < p.shared.nextFd, p.shared.Accounted d) ↔ Guarded (step rings) NoLeak init as p := by
  rw [(conserved_run h).all_accounted_iff hidle]
  exact ⟨noLeak_run h, lost_run⟩

/-- A page is read and then replaced, over two rings.  The read of the page is short once. -/
def readThenReplace : List UringAct :=
  [.spawn (.ring 0), .spawn (.ring 1), .spawn (.call (UringCall.get ⟨"cache", 4⟩ false ⟨"1", 0⟩ 4)),
    .run 2 .go, .run 2 .go, .run 2 .go, .run 0 (.receive 0 false), .run 0 (.reap 0 (.ok 0)),
    .run 2 .go, .run 2 .go, .run 2 .go, .run 1 (.receive 1 false), .run 1 (.reap 1 (.ok 0)),
    .run 2 .go, .run 2 .go, .run 2 .go, .run 0 (.receive 2 false), .run 0 (.reap 2 (.ok 3)),
    .run 0 (.resubmit 2 false), .run 0 (.reap 2 (.ok 1)), .run 2 .go, .run 2 .go,
    .spawn (.call (UringCall.put ⟨"cache", 4⟩ false ⟨"1", 0⟩ 4)),
    .run 3 .go, .run 1 (.receive 3 false), .run 1 (.reap 3 (.ok 0)), .run 3 .go,
    .run 3 .go, .run 0 (.receive 4 false), .run 0 (.reap 4 (.ok 4)), .run 3 .go,
    .run 3 .go, .run 1 (.receive 5 false), .run 3 .go, .run 3 .go, .run 1 (.reap 5 (.ok 0))]

theorem descriptors_accounted_readThenReplace :
    ∃ p, Guarded (step 2) (fun _ _ => True) init readThenReplace p ∧ p.Idle ∧
      p.shared.nextFd = 3 ∧ ∀ d < p.shared.nextFd, p.shared.Accounted d := by
  obtain ⟨p, hrun, hidle, hnext⟩ :
      ∃ p, Guarded (step 2) NoLeak init readThenReplace p ∧ p.Idle ∧ p.shared.nextFd = 3 :=
    Guarded.exists_of_replay (by decide +kernel)
  have hall : Guarded (step 2) (fun _ _ => True) init readThenReplace p :=
    hrun.mono fun _ _ _ => trivial
  exact ⟨p, hall, hidle, hnext, (descriptors_accounted_iff hall hidle).2 hrun⟩

/-- The caller of an `OpenAt` has given up when it completes. -/
def abandonedOpen : List UringAct :=
  [.spawn (.ring 0), .spawn (.call (UringCall.put ⟨"cache", 4⟩ false ⟨"1", 0⟩ 4)),
    .run 1 .go, .run 0 (.receive 0 false), .run 1 .timeout, .run 0 (.reap 0 (.ok 0))]

theorem descriptor_lost_abandonedOpen :
    ∃ p, Guarded (step 1) (fun _ _ => True) init abandonedOpen p ∧ p.Idle ∧
      0 < p.shared.nextFd ∧ ¬ p.shared.Accounted 0 :=
  Guarded.exists_of_replay (by decide +kernel)

end UringTasks

end GooseFS
