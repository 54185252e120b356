import GooseFS.Cache.Descriptors

/-!
# No write after a close

The kernel gives the number of a closed descriptor to the next file that is opened.  A
`Write` must therefore reach a submission queue before the `Close` of its descriptor does,
and before a close that does not go through a ring.

A `put` that gives up on its `Write` closes the descriptor at once, and the rings do not know
about it: the `Write` may still be in a channel, or be pushed again after a short transfer.
`WriterWaits` is the condition of a push that this does not happen to: the caller of a `Write`
that is pushed still waits for it.  Such a `Write` has the descriptor in its keeping, and since
descriptors are in one place no `Close` has it.
-/

namespace GooseFS

open Lib List

def FdEvent.closing : FdEvent → Option Nat
  | .pushedWrite _ => none
  | .pushedClose d => some d
  | .closed d => some d

def UringOp.isWrite : UringOp → Bool
  | .write _ => true
  | _ => false

/-- The `Close` of the descriptor has been pushed and is not completed. -/
def IoRequest.Closing (q : IoRequest) (d : Nat) : Prop :=
  q.op = .close d ∧ ∃ k, q.stage = .submitted k

def WritesFirst (log : List FdEvent) : Prop :=
  log.Pairwise fun e e' => ∀ d ∈ e.closing, e' ≠ .pushedWrite d

instance : DecidablePred WritesFirst := fun log =>
  inferInstanceAs (Decidable (log.Pairwise _))

theorem WritesFirst.append {log es : List FdEvent} (h : WritesFirst log)
    (hes : ∀ e ∈ es, ∀ d, e ≠ .pushedWrite d) : WritesFirst (log ++ es) := by
  refine pairwise_append.2 ⟨h, ?_, fun _ _ e' he' d _ => hes e' he' d⟩
  exact pairwise_of_forall_mem_list fun _ _ e' he' d _ => hes e' he' d

theorem WritesFirst.write {log : List FdEvent} (h : WritesFirst log) {d : Nat}
    (hopen : ∀ e ∈ log, d ∉ e.closing) : WritesFirst (log ++ [.pushedWrite d]) := by
  refine pairwise_append.2 ⟨h, pairwise_singleton _ _, fun e he e' he' d' hd' => ?_⟩
  cases mem_singleton.1 he'
  rintro ⟨⟩
  exact hopen e he hd'

/-- A `Close` that has been pushed is completed or going on, and writes come first. -/
structure Ordered (m : UringState) : Prop where
  closes : ∀ d, .pushedClose d ∈ m.log → .closed d ∈ m.log ∨ ∃ q ∈ m.requests, q.Closing d
  first : WritesFirst m.log

namespace Ordered

variable {m m' : UringState} {q q' : IoRequest} {k r d : Nat}

section

variable (h : Ordered m)
include h

theorem grow (ds : List Nat) (hlog : m'.log = m.log ++ ds.map .closed)
    (hgoing : ∀ d, (∃ q ∈ m.requests, q.Closing d) → d ∈ ds ∨ ∃ q ∈ m'.requests, q.Closing d) :
    Ordered m' := by
  have hes : ∀ e ∈ ds.map FdEvent.closed, ∀ d, e ≠ .pushedWrite d := by
    intro e he d heq
    obtain ⟨d', -, rfl⟩ := mem_map.1 he
    cases heq
  refine ⟨fun d hd => ?_, hlog ▸ h.first.append hes⟩
  have hold : .pushedClose d ∈ m.log := by simpa [hlog] using hd
  rw [hlog]
  obtain hclosed | hclosing := h.closes d hold
  · exact .inl (mem_append_left _ hclosed)
  · obtain hmem | hclosing := hgoing d hclosing
    · exact .inl (mem_append_right _ (mem_map_of_mem hmem))
    · exact .inr hclosing

theorem of_closes (hc : Closes m m') : Ordered m' := by
  obtain ⟨ds, hlog⟩ := hc.log
  exact h.grow ds hlog fun d hd => .inr (hc.requests ▸ hd)

theorem of_requests (hlog : m'.log = m.log)
    (hgoing : ∀ d, (∃ q ∈ m.requests, q.Closing d) → ∃ q ∈ m'.requests, q.Closing d) : Ordered m' :=
  h.grow [] (by rw [hlog, map_nil, append_nil]) fun d hd => .inr (hgoing d hd)

theorem setRequest (hr : m.requests[r]? = some q) (hkeep : ∀ d, q.Closing d → q'.Closing d) :
    Ordered (m.setRequest r q') :=
  h.of_requests rfl fun d hd => exists_mem_set hr hd (hkeep d) fun _ hq => hq

theorem of_sends {pc : UringPc} {x : UringInput} (hs : Sends pc x m m') : Ordered m' := by
  cases hs with
  | closes hc => exact h.of_closes hc
  | request q _ hrequests _ hlog =>
    refine h.of_requests hlog fun d hd => ?_
    obtain ⟨q', hq', hclosing⟩ := hd
    exact ⟨q', hrequests ▸ mem_append_left _ hq', hclosing⟩
  | gaveUp r q hr _ hm' =>
    subst hm'
    exact h.setRequest hr fun d hd => hd

end

theorem not_closing_of_queued (hq : q.queued = true) (d : Nat) : ¬ q.Closing d := by
  rintro ⟨-, k, hstage⟩
  rw [IoRequest.queued, hstage] at hq
  cases hq

theorem of_pushes {full : Bool} (h : Ordered m) (hr : m.requests[r]? = some q)
    (hqueued : q.queued = true)
    (hopen : full = false → ∀ d, q.op = .write d → ∀ e ∈ m.log, d ∉ e.closing)
    (hpush : m.Pushes k r q full m') : Ordered m' := by
  have hset (q' : IoRequest) : Ordered (m.setRequest r q') :=
    h.setRequest hr fun d hd => (not_closing_of_queued hqueued d hd).elim
  have hlater (d : Nat) (e : FdEvent) (q' : IoRequest) (he : e ≠ .pushedClose d)
      (hd : .pushedClose d ∈ ((m.setRequest r q').record e).log) :
      .closed d ∈ ((m.setRequest r q').record e).log ∨
        ∃ q ∈ ((m.setRequest r q').record e).requests, q.Closing d := by
    obtain hold | hnew := mem_append.1 hd
    · exact ((hset q').closes d hold).imp_left fun hmem => mem_append_left _ hmem
    · exact (he (mem_singleton.1 hnew).symm).elim
  cases hpush with
  | failed full hop => exact hset q.fail
  | lost fd hop => exact ⟨(hset q.fail).closes, (hset q.fail).first⟩
  | write fd hop =>
    exact ⟨fun d => hlater d _ _ fun heq => (by cases heq), h.first.write (hopen rfl fd hop)⟩
  | close fd hop =>
    refine ⟨fun d hd => ?_, h.first.append fun e he d heq => ?_⟩
    · by_cases hdfd : d = fd
      · subst hdfd
        exact .inr ⟨_, mem_set_self hr, hop, k, rfl⟩
      · exact hlater d _ _ (fun heq => hdfd (by cases heq; rfl)) hd
    · cases mem_singleton.1 he
      cases heq
  | other hop => exact hset _

theorem of_reaps {result : Except Nat Nat} (h : Ordered m) (hr : m.requests[r]? = some q)
    (hreap : m.Reaps r q result m') : Ordered m' := by
  have hset (q' : IoRequest) (hop : ∀ d, q.op ≠ .close d) : Ordered (m.setRequest r q') :=
    h.setRequest hr fun d hd => (hop d hd.1).elim
  cases hreap with
  | closed result answer fd hop =>
    refine h.grow [fd] rfl fun d hd => ?_
    by_cases hdfd : d = fd
    · exact .inl (mem_singleton.2 hdfd)
    · refine .inr (exists_mem_set hr hd (fun hq => ?_) fun _ hq => hq)
      cases hop.symm.trans hq.1
      exact (hdfd rfl).elim
  | opened n hop hlive | orphaned n hop hlive =>
    have hopened := hset { q with stage := .completed (.ok (some m.nextFd)) } (by simp [hop])
    exact ⟨hopened.closes, hopened.first⟩
  | moved result stage transferred hop hfd hopen => exact hset _ hop

end Ordered

/-! ## Runs -/

namespace UringTasks

variable {rings i k r d : Nat} {p p' : UringTasks} {a : UringAct} {as : List UringAct}
  {q : IoRequest}

theorem Conserved.open_of_live_write (hp : p.Conserved) (ho : Ordered p.shared)
    (hr : p.shared.requests[r]? = some q) (hop : q.op = .write d) (hlive : q.live = true) :
    ∀ e ∈ p.shared.log, d ∉ e.closing := by
  have hone : share q.carried d = 1 := by
    rw [IoRequest.carried, hop, hlive]
    exact share_self d
  have hnonneg : ∀ u ∈ p.shared.requests, 0 ≤ share u.carried d := fun u _ => share_nonneg _ d
  have hle : tally (fun q => share q.carried d) p.shared.requests +
      p.shared.log.count (.closed d) ≤ 1 := by
    have hfds := hp.fds d
    have howned := Conserved.tally_share_nonneg (fun t => t.hands.owned) d p.tasks
    have hopened := Conserved.opened_le_one p.shared d
    unfold UringState.held at hfds
    split at hfds <;> omega
  have hclosed : .closed d ∉ p.shared.log := by
    intro hmem
    have hcount := count_pos_iff.2 hmem
    have hself := le_tally (f := fun q => share q.carried d) hnonneg (mem_of_getElem? hr)
    omega
  have hpushed : .pushedClose d ∉ p.shared.log := by
    intro hmem
    obtain hmem | ⟨q', hq', hop', k, hstage⟩ := ho.closes d hmem
    · exact hclosed hmem
    · obtain ⟨j, hj⟩ := getElem?_of_mem hq'
      have hone' : share q'.carried d = 1 := by
        rw [UringTask.carried_close hop' (by rw [IoRequest.completed, hstage])]
        exact share_self d
      have hne : r ≠ j := by
        rintro rfl
        cases hr.symm.trans hj
        cases hop.symm.trans hop'
      have htwo := add_le_tally (f := fun q => share q.carried d) hnonneg hne hr hj
      omega
  intro e he hd
  cases e with
  | pushedWrite d' => cases hd
  | pushedClose d' =>
    cases hd
    exact hpushed he
  | closed d' =>
    cases hd
    exact hclosed he

/-- The caller of a `Write` that is pushed still waits for it. -/
def WriterWaits (p : UringTasks) : UringAct → Prop
  | .spawn _ => True
  | .run _ x =>
    ∀ r ∈ x.pushed, ∀ q ∈ p.shared.requests[r]?, q.op.isWrite = true → q.live = true

instance (p : UringTasks) (a : UringAct) : Decidable (WriterWaits p a) :=
  match a with
  | .spawn _ => isTrue trivial
  | .run _ x => inferInstanceAs (Decidable (∀ r ∈ x.pushed, _))

theorem ordered_step (hp : p.Conserved) (ho : Ordered p.shared) (hguard : WriterWaits p a)
    (hstep : step rings p a = some p') : Ordered p'.shared := by
  obtain ⟨t, rfl, -, rfl⟩ | ⟨i, x, t, m', t', rfl, -, hnext, rfl⟩ := Pool.step_cases hstep
  · exact ho
  cases UringTask.takes_of_next hnext with
  | call hcall => exact ho.of_sends (UringCall.sends_of_next hcall)
  | @push k r q x full m' hr hqueued hx hpush =>
    refine ho.of_pushes hr hqueued (fun hfull d hop => ?_) hpush
    subst hfull
    have hlive : q.live = true := by
      have hwrite : q.op.isWrite = true := by rw [hop]; rfl
      obtain rfl | rfl := hx
      · exact hguard r rfl q hr hwrite
      · exact hguard r rfl q hr hwrite
    exact hp.open_of_live_write ho hr hop hlive
  | reap hr hstage hreap => exact ho.of_reaps hr hreap
  | evict key => exact ho.of_closes (.removeEntry p.shared key)

/-- As long as the caller of every `Write` that is pushed still waits for it, no descriptor is
written after its `Close` is pushed or performed. -/
theorem writes_before_closes (h : Guarded (step rings) WriterWaits init as p) :
    WritesFirst p.shared.log := by
  have hkeep (p : UringTasks) (a : UringAct) (p' : UringTasks)
      (hp : p.Conserved ∧ Ordered p.shared) (hguard : WriterWaits p a)
      (hstep : step rings p a = some p') : p'.Conserved ∧ Ordered p'.shared :=
    ⟨conserved_step hp.1 hstep, ordered_step hp.1 hp.2 hguard hstep⟩
  have hinit : Ordered init.shared := ⟨fun _ hd => (by cases hd), List.Pairwise.nil⟩
  exact (h.invariant hkeep ⟨conserved_init, hinit⟩).2.first

def shortWrite : List UringAct :=
  [.spawn (.ring 0), .spawn (.ring 1), .spawn (.call (UringCall.put ⟨"cache", 4⟩ false ⟨"1", 0⟩ 4)),
    .run 2 .go, .run 0 (.receive 0 false), .run 0 (.reap 0 (.ok 0)), .run 2 .go,
    .run 2 .go, .run 1 (.receive 1 false), .run 1 (.reap 1 (.ok 3)),
    .run 1 (.resubmit 1 false), .run 1 (.reap 1 (.ok 1)), .run 2 .go,
    .run 2 .go, .run 0 (.receive 2 false), .run 0 (.reap 2 (.ok 0))]

theorem writes_before_closes_shortWrite : ∃ p, Guarded (step 2) WriterWaits init shortWrite p ∧
      p.shared.log = [.pushedWrite 0, .pushedWrite 0, .pushedClose 0, .closed 0] ∧
      WritesFirst p.shared.log := by
  obtain ⟨p, hrun, hlog⟩ : ∃ p, Guarded (step 2) WriterWaits init shortWrite p ∧
      p.shared.log = [.pushedWrite 0, .pushedWrite 0, .pushedClose 0, .closed 0] :=
    Guarded.exists_of_replay (by decide +kernel)
  exact ⟨p, hrun, hlog, writes_before_closes hrun⟩

/-- A `put` gives up on a `Write` that is in the channel of one ring, and another ring is
faster with the `Close`. -/
def abandonedWrite : List UringAct :=
  [.spawn (.ring 0), .spawn (.ring 1), .spawn (.call (UringCall.put ⟨"cache", 4⟩ false ⟨"1", 0⟩ 4)),
    .run 2 .go, .run 0 (.receive 0 false), .run 0 (.reap 0 (.ok 0)), .run 2 .go,
    .run 2 .go, .run 2 .timeout, .run 2 .go, .run 0 (.receive 2 false),
    .run 0 (.reap 2 (.ok 0)), .run 1 (.receive 1 false)]

theorem write_after_close_abandonedWrite :
    ∃ p, Guarded (step 2) (fun _ _ => True) init abandonedWrite p ∧
      p.shared.log = [.pushedClose 0, .closed 0, .pushedWrite 0] ∧
      ¬ WritesFirst p.shared.log :=
  Guarded.exists_of_replay (by decide +kernel)

end UringTasks

end GooseFS
