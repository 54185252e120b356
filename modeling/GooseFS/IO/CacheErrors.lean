import GooseFS.IO.CacheSteps

/-!
# Errors of the cache side

Which errors an operation of the cache side can fail with, and when none of them
can fail.  A writer with a UFS stream goes on without the cache after most of
these errors (`Error.isSoft`); with workers that serve every request
(`CacheEnv.Serves`) there is no error at all.
-/

namespace GooseFS

open Lib CacheM List

/-! ## Errors of a stream -/

def Error.ofStream : Error → Bool
  | .blockIoError _ => true
  | .grpcError _ _ => true
  | .internal _ => true
  | _ => false

/-- The errors for which `cache_write_failure_is_fatal` has no rule of their own. -/
def Error.isSoft : Error → Bool
  | .resourceExhausted _ => false
  | .invalidArgument _ => false
  | .authenticationFailed _ => false
  | .permissionDenied _ => false
  | _ => true

variable {asyncThrough : Bool} {e : Error} {w : GrpcBlockWriter}

theorem Error.isSoft_of_ofStream (h : e.ofStream = true) : e.isSoft = true := by
  cases e with
  | blockIoError _ | grpcError _ _ | internal _ => rfl
  | _ => cases h

theorem Error.isSoft_of_ofConnect (h : e.ofConnect = true) : e.isSoft = true := by
  cases e with
  | configError _ | transportError _ | internal _ | grpcError _ _ => rfl
  | _ => cases h

theorem cacheWriteFailureIsFatal_of_isSoft (h : e.isSoft = true) (strategy : WriteStrategy)
    (blockOpened ignore : Bool) : cacheWriteFailureIsFatal e strategy blockOpened ignore =
      ((!strategy.ufsStream && !strategy.needAsyncPersist) ||
        (strategy.needAsyncPersist && blockOpened) || (!blockOpened && !ignore)) := by
  unfold cacheWriteFailureIsFatal
  cases e with
  | resourceExhausted _ | invalidArgument _ | authenticationFailed _ | permissionDenied _ => cases h
  | _ =>
    simp only
    split
    case isTrue hplain => simp [hplain]
    case isFalse hplain =>
      split
      case isTrue hasync => simp [hasync]
      case isFalse hasync =>
        rw [Bool.not_eq_true] at hplain hasync
        rw [hplain, hasync]
        rfl

theorem GrpcBlockWriter.flush_error {reply : FlushReply} (h : (w.flush reply).1 = .error e) :
    e.ofStream = true := by
  cases reply with
  | channelClosed | failed code | ended =>
    cases h
    rfl
  | ack offset => cases h

theorem GrpcBlockWriter.close_error {reply : CloseReply} (h : w.close reply = .error e) :
    e.ofStream = true := by
  cases reply with
  | done => cases h
  | failed code | abnormal =>
    cases h
    rfl

namespace ActiveBlockWriter

variable {a : ActiveBlockWriter} {e : Error} {events : List CacheEvent}

theorem perform_ofStream {op : ReplicaOp} {tasks : Nat → TaskRun} {rs : List ReplicaWriter}
    (hpar : a.parallel = false) (h : a.perform op tasks = (.error e, rs, events)) :
    e.ofStream = true := by
  rcases (h ▸ a.perform_served op tasks).error _ rfl with ⟨hpar', _⟩ | herr
  · rw [hpar] at hpar'
    cases hpar'
  · cases op with
    | write data =>
      obtain ⟨message, rfl⟩ := herr
      rfl
    | flush =>
      obtain ⟨r, _, hflush⟩ := herr
      exact GrpcBlockWriter.flush_error hflush

theorem closeReplicas_ofStream {replies : Nat → CloseReply}
    (h : a.closeReplicas replies = (.error e, events)) : e.ofStream = true := by
  obtain ⟨r, _, hclose⟩ := (closeAll_spec _ _).2.2 e (congrArg Prod.fst h)
  exact GrpcBlockWriter.close_error hclose

end ActiveBlockWriter

theorem replicaWritePlan_le {number durable durableMin retry : Int} {plan : ReplicaWritePlan}
    (h : replicaWritePlan asyncThrough number durable durableMin retry = .ok plan) :
    plan.minNeededReplicas ≤ plan.initialReplicas := by
  unfold replicaWritePlan at h
  simp only at h
  generalize (if asyncThrough = true ∧ max number 1 < max durable 1 then max durable 1
    else max number 1) = initial at h
  cases asyncThrough with
  | true =>
    simp only [if_true, true_and] at h
    split at h
    · cases h
    · cases h
      simp only
      omega
  | false =>
    simp only [Bool.false_eq_true, false_and, if_false, Except.ok.injEq] at h
    subst h
    exact Nat.le_refl _

theorem replicaWritePlan_of_sync (number durable durableMin retry : Int) :
    ∃ plan, replicaWritePlan false number durable durableMin retry = .ok plan ∧
      plan.initialReplicas = (max number 1).toNat := by
  unfold replicaWritePlan
  simp

theorem degradeReplicas_le {initial minNeeded alive : Nat} (hi : 0 < initial)
    (hle : minNeeded ≤ initial) (ha : 0 < alive) (henough : asyncThrough = true → minNeeded ≤ alive) :
    0 < min (degradeReplicas asyncThrough initial minNeeded alive).1 alive ∧
      (degradeReplicas asyncThrough initial minNeeded alive).2 ≤
        min (degradeReplicas asyncThrough initial minNeeded alive).1 alive := by
  unfold degradeReplicas
  split
  · cases asyncThrough with
    | true =>
      have := henough rfl
      simp only [if_true]
      omega
    | false =>
      simp only [Bool.false_eq_true, if_false]
      omega
  · simp only
    omega

/-! ## Opening a block -/

namespace CacheM

variable {setup : WriterSetup} {env : CacheEnv} {blockId : Int64} {initial : Nat}
  {plan : ReplicaWritePlan} {reply : OpenReply}

theorem openReplies_of_served (hopens : ∀ tick, env.openReplica tick = none) :
    ∀ {pool : List WorkerInfo} (opened tick : Nat), (∀ w ∈ pool, w.address ≠ none) →
      openedStreams (openReplies env initial pool opened tick) =
        min (initial - opened) pool.length := by
  intro pool
  induction pool with
  | nil => intro opened tick _; simp [openReplies, openedStreams]
  | cons worker rest ih =>
    intro opened tick haddr
    rw [openReplies]
    by_cases hfull : initial ≤ opened
    · rw [if_pos hfull]
      simp [openedStreams, Nat.sub_eq_zero_of_le hfull]
    · rw [if_neg hfull]
      cases hworker : worker.address with
      | none => exact absurd hworker (haddr worker (mem_cons_self ..))
      | some addr =>
        have hrest := ih (opened + 1) (tick + 1) fun w hw => haddr w (mem_cons_of_mem _ hw)
        simp only [hopens, Option.isNone_none, if_true, openedStreams, countP_cons,
          length_cons] at hrest ⊢
        rw [hrest]
        omega

theorem exists_of_mem_openReplies :
    ∀ {pool : List WorkerInfo} {opened tick : Nat}, reply ∈ openReplies env initial pool opened tick →
      ∃ t, env.openReplica t = reply.2 := by
  intro pool
  induction pool with
  | nil => intro opened tick h; cases h
  | cons worker rest ih =>
    intro opened tick h
    rw [openReplies] at h
    split at h
    · cases h
    · split at h
      · exact ih h
      · rcases mem_cons.mp h with rfl | h
        · exact ⟨tick, rfl⟩
        · exact ih h

theorem exists_of_mem_attemptReplies {useAllWorkers : Bool} {tick : Nat}
    (h : reply ∈ attemptReplies setup env blockId plan useAllWorkers tick) :
    ∃ t, env.openReplica t = reply.2 := by
  unfold attemptReplies at h
  split at h
  · cases h
  · exact exists_of_mem_openReplies h

/-- With one replica per block and workers that answer with the errors of a
connection, a block that cannot be opened is a soft error. -/
theorem openBlock_isSoft {c c' : CacheSide} {e : Error} (hone : plan.initialReplicas = 1)
    (hle : plan.minNeededReplicas ≤ plan.initialReplicas)
    (hconnect : ∀ tick e, env.openReplica tick = some e → e.ofConnect = true)
    (h : openBlock setup env blockId plan c = .error e c') : e.isSoft = true := by
  obtain ⟨_, herr, hfew⟩ := (openBlock_spec blockId plan c).error rfl h
  cases herr with
  | @tooFew addr message hopened =>
    obtain ⟨pool, hpool⟩ : ∃ pool, candidatePool setup env blockId plan true
        (secondTick setup env blockId plan c.ticks) = .ok pool := ⟨_, rfl⟩
    have hcount : (replicaCounts setup plan pool).2 ≤ 1 := by
      unfold replicaCounts degradeReplicas
      rw [hone] at hle ⊢
      split
      · split <;> simp only <;> omega
      · exact hle
    have hzero : openedStreams (secondReplies setup env blockId plan c.ticks) = 0 := by
      rcases hfew pool hpool with h | h
      · exact h
      · omega
    exact absurd rfl (openedStreams_eq_zero hzero _ hopened)
  | unselected h _ => cases h
  | noWorker _ | noAddress _ => rfl
  | refused _ hmem =>
    obtain ⟨t, ht⟩ := exists_of_mem_attemptReplies hmem
    exact Error.isSoft_of_ofConnect (hconnect t e ht)

end CacheM

/-! ## The open block of a run -/

namespace ActiveBlockWriter

variable {a : ActiveBlockWriter} {async lossy : Prop} {events : List CacheEvent} {op : ReplicaOp}
  {rs : List ReplicaWriter} {tasks : Nat → TaskRun}

/-- What holds of an open block.  It is written to all replicas at once only where
`async` holds, and it has the replicas it requires, or none if `lossy` lets
operations have failed before. -/
structure Regular (async lossy : Prop) (a : ActiveBlockWriter) : Prop where
  parallel : a.parallel = true → async
  required : 0 < a.minNeeded
  replicas : (lossy ∧ a.replicas = []) ∨ a.minNeeded ≤ a.replicas.length

theorem Regular.perform_error {e : Error} (ha : a.Regular async lossy)
    (h : a.perform op tasks = (.error e, rs, events)) :
    rs = [] ∨ (op = .flush ∧ rs.length = a.replicas.length) := by
  rcases (h ▸ a.perform_served op tasks).left _ rfl with hnil | ⟨hlen, _, hop | hfew⟩
  · exact .inl hnil
  · exact .inr ⟨hop, hlen⟩
  · refine .inl (length_eq_zero_iff.mp (hlen.trans ?_))
    rcases ha.replicas with ⟨_, hnil⟩ | henough
    · exact congrArg length hnil
    · exact absurd henough (Nat.not_le.mpr hfew)

theorem Regular.perform_ok (ha : a.Regular async lossy)
    (h : a.perform op tasks = (.ok (), rs, events)) :
    Regular async lossy { a with replicas := rs } := by
  obtain ⟨henough, htook⟩ := a.perform_ok h
  refine ⟨ha.parallel, ha.required, ha.replicas.imp (And.imp_right fun hnil => ?_) henough⟩
  refine eq_nil_iff_forall_not_mem.mpr fun r hr => ?_
  obtain ⟨r', hr', _⟩ := htook r hr
  rw [hnil] at hr'
  cases hr'

end ActiveBlockWriter

namespace CacheSide

variable {setup : WriterSetup} {env : CacheEnv} {c c' : CacheSide} {async lossy : Prop}

theorem Step.current {Q : ActiveBlockWriter → Prop} (h : Step setup env c c')
    (hc : ∀ a, c.currentBlockWriter = some a → Q a)
    (hfill : ∀ a n pending, Q a → Q { a with bytesWritten := n, pendingChunk := pending })
    (hperform : ∀ a op tasks rs events, Q a → a.perform op tasks = (.ok (), rs, events) →
      Q { a with replicas := rs })
    (hopens : ∀ blockId plan pool a, setup.plan = .ok plan → pool ≠ [] →
      Fresh setup blockId (replicaCounts setup plan pool).2 a → Q a) :
    ∀ a, c'.currentBlockWriter = some a → Q a := by
  cases h with
  | block hs =>
    cases hs with
    | @fill a n pending hcurrent =>
      intro a' ha'
      cases ha'
      exact hfill a n pending (hc a hcurrent)
    | @perform a op rs events hcurrent hrun =>
      intro a' ha'
      cases ha'
      exact hperform a op _ rs events (hc a hcurrent) hrun
  | discard _ | commit _ _ _ _ => exact fun a' ha' => by cases ha'
  | @opens c' a plan _ hplan hopen =>
    intro a' ha'
    cases ha'
    obtain ⟨_, pool, _, hne, hfresh, _⟩ := (openBlock_spec _ plan c).ok rfl hopen
    exact hopens _ plan pool a hplan hne hfresh

@[simp] theorem tornDown_current (c : CacheSide) (blacklist : Bool) :
    (c.tornDown blacklist).currentBlockWriter = none := by
  unfold tornDown
  cases hcurrent : c.currentBlockWriter with
  | none => exact hcurrent
  | some a => rfl

def Regular (async lossy : Prop) (c : CacheSide) : Prop :=
  ∀ a, c.currentBlockWriter = some a → a.Regular async lossy

theorem regular_of_none (h : c.currentBlockWriter = none) : c.Regular async lossy := by
  intro a ha
  cases h.symm.trans ha

theorem Step.regular (h : Step setup env c c')
    (hasync : setup.strategy.needAsyncPersist = true → async) (hc : c.Regular async lossy) :
    c'.Regular async lossy := by
  refine h.current hc (fun _ _ _ ha => ⟨ha.parallel, ha.required, ha.replicas⟩)
    (fun _ _ _ _ _ ha hperform => ha.perform_ok hperform) ?_
  intro blockId plan pool a hplan hne hfresh
  obtain ⟨hinitial, hmin, _⟩ := replicaWritePlan_pos hplan
  have hpos : 0 < (replicaCounts setup plan pool).2 :=
    (degradeReplicas_pos hinitial hmin (length_pos_iff.mpr hne)).2.1
  exact ⟨fun h => hasync (hfresh.parallel h), hfresh.minNeeded ▸ hpos,
    .inr (hfresh.minNeeded ▸ hfresh.enough)⟩

theorem Refuses.regular {op : ReplicaOp} {e : Error} (h : Refuses env op e c c')
    (hc : c.Regular async True) : c'.Regular async True := by
  cases h with
  | @intro a rs events hcurrent hperform =>
    intro a' ha'
    cases ha'
    have ha := hc a hcurrent
    refine ⟨ha.parallel, ha.required, ?_⟩
    rcases ha.perform_error hperform with hnil | ⟨_, hlen⟩
    · exact .inl ⟨trivial, hnil⟩
    · refine ha.replicas.imp (And.imp_right fun hnil => ?_) fun henough => hlen ▸ henough
      exact length_eq_zero_iff.mp (by rw [hlen, hnil]; rfl)

theorem regular_invariant (setup : WriterSetup) :
    CacheInvariant setup (Regular (setup.strategy.needAsyncPersist = true) True) where
  ticks := fun _ _ h => h
  step := fun _ _ _ hc hs => hs.regular id hc
  refuses := fun _ _ _ _ _ hc h => h.regular hc
  fails := by
    intro env c op e c' hc hs
    cases hs with
    | plan _ _ => exact hc
    | openBlock hnone _ hopen => exact regular_of_none ((openBlock_frame hopen).current.trans hnone)
    | send hrefuses => exact hrefuses.regular hc
    | abandon _ _ | close _ _ | commitLocation _ _ _ _ => exact regular_of_none rfl
  tornDown := fun c blacklist _ => regular_of_none (c.tornDown_current blacklist)

end CacheSide

/-! ## Workers that serve every request -/

def ActiveBlockWriter.Intact (a : ActiveBlockWriter) : Prop :=
  0 < a.minNeeded ∧ a.minNeeded ≤ a.replicas.length

instance (a : ActiveBlockWriter) : Decidable a.Intact :=
  inferInstanceAs (Decidable (_ ∧ _))

structure CacheEnv.Takes (env : CacheEnv) : Prop where
  takes : ∀ tick op r, Survives op (env.tasks tick) r
  closes : ∀ tick k, env.closeReply tick k = .done
  commits : ∀ tick, env.commitLocation tick = none

/-- No request on the cache side fails: there are enough workers for a block, and
they take what they are sent. -/
structure CacheEnv.Serves (setup : WriterSetup) (env : CacheEnv) : Prop extends env.Takes where
  plan : ∃ plan, setup.plan = .ok plan
  pool : ∀ blockId plan tick pool, setup.plan = .ok plan →
    candidatePool setup env blockId plan true tick = .ok pool →
      pool ≠ [] ∧ (∀ w ∈ pool, w.address ≠ none) ∧
        (setup.strategy.needAsyncPersist = true → plan.minNeededReplicas ≤ pool.length)
  opens : ∀ tick, env.openReplica tick = none

namespace CacheSide

variable {setup : WriterSetup} {env : CacheEnv} {c c' : CacheSide} {e : Error} {op : CacheOp}

/-- The open block, if there is one, still has the replicas it requires. -/
def Intact (c : CacheSide) : Prop := ∀ a, c.currentBlockWriter = some a → a.Intact

theorem Intact.regular (hc : c.Intact) : c.Regular True False :=
  fun a ha => ⟨fun _ => trivial, (hc a ha).1, .inr (hc a ha).2⟩

theorem Refuses.not_takes {op : ReplicaOp} (htakes : env.Takes) (hc : c.Regular True False) :
    ¬Refuses env op e c c' := by
  intro h
  cases h with
  | @intro a rs events hcurrent hperform =>
    have henough := (hc a hcurrent).replicas.resolve_left And.left
    have hquorum : a.Quorum op (env.tasks c.ticks) := by
      unfold ActiveBlockWriter.Quorum
      split
      · rw [filter_eq_self.mpr fun r _ => decide_eq_true (htakes.takes c.ticks op r)]
        exact henough
      · exact fun r _ => (htakes.takes c.ticks op r).2
    have hok := ActiveBlockWriter.perform_of_quorum
      (ne_nil_of_length_pos (Nat.lt_of_lt_of_le (hc a hcurrent).required henough)) hquorum
    rw [hperform] at hok
    cases hok

theorem openBlock_serves {plan : ReplicaWritePlan} {blockId : Int64} (hserves : env.Serves setup)
    (hplan : setup.plan = .ok plan) : openBlock setup env blockId plan c ≠ .error e c' := by
  intro h
  obtain ⟨_, _, hfew⟩ := (openBlock_spec blockId plan c).error rfl h
  unfold secondReplies at hfew
  generalize secondTick setup env blockId plan c.ticks = tick at hfew
  obtain ⟨pool, hpool⟩ : ∃ pool, candidatePool setup env blockId plan true tick = .ok pool :=
    ⟨_, rfl⟩
  obtain ⟨hne, haddr, henough⟩ := hserves.pool blockId plan tick pool hplan hpool
  have hcount : openedStreams (attemptReplies setup env blockId plan true tick) =
      min (replicaCounts setup plan pool).1 pool.length := by
    unfold attemptReplies
    rw [hpool]
    exact CacheM.openReplies_of_served hserves.opens 0 (tick + 1) haddr
  have hle := degradeReplicas_le (replicaWritePlan_pos hplan).1 (replicaWritePlan_le hplan)
    (length_pos_iff.mpr hne) henough
  have hfew := hfew pool hpool
  rw [hcount] at hfew
  unfold replicaCounts at hfew
  omega

/-- With workers that serve every request no operation fails; only opening a block
asks more of them than an open block does. -/
theorem Fails.not_serves (htakes : env.Takes) (hserves : op.isOpening = true → env.Serves setup)
    (hc : c.Regular True False) : ¬Fails setup env c op e c' := by
  intro h
  cases h with
  | plan _ hplan =>
    obtain ⟨plan, hplan'⟩ := (hserves rfl).plan
    rw [hplan] at hplan'
    cases hplan'
  | openBlock _ hplan hopen => exact openBlock_serves (hserves rfl) hplan hopen
  | send hrefuses | abandon hrefuses _ => exact hrefuses.not_takes htakes hc
  | @close a events _ hcurrent hclose =>
    have hok : (closeAll (env.closeReply c.ticks) a.replicas).1 = .ok () :=
      closeAll_of_done fun r _ => htakes.closes c.ticks r.ordinal
    rw [show closeAll (env.closeReply c.ticks) a.replicas = (.error e, events) from hclose] at hok
    cases hok
  | commitLocation _ _ _ hcommit =>
    rw [htakes.commits] at hcommit
    cases hcommit

theorem Intact.not_stops (hc : c.Intact) (htakes : env.Takes)
    (hserves : op.isOpening = true → env.Serves setup) : ¬Stops setup env c op e c' := by
  rintro ⟨c₁, hreach, hfails⟩
  exact hfails.not_serves htakes hserves
    (hreach.invariant (fun _ _ hc hs => hs.regular (fun _ => trivial) hc) hc.regular)

theorem Fails.isSoft (hsync : setup.strategy.needAsyncPersist = false)
    (hone : setup.config.fileReplicationNumber ≤ 1)
    (hconnect : ∀ tick e, env.openReplica tick = some e → e.ofConnect = true)
    (hc : c.Regular (setup.strategy.needAsyncPersist = true) True) (h : Fails setup env c op e c') :
    e.isSoft = true ∧ op ≠ .commitLocation := by
  have hseq : ∀ a, c.currentBlockWriter = some a → a.parallel = false := by
    intro a ha
    by_contra hpar
    have hasync := (hc a ha).parallel (Bool.not_eq_false _ ▸ hpar)
    rw [hsync] at hasync
    cases hasync
  have hrefuses : ∀ {op : ReplicaOp} {c' : CacheSide}, Refuses env op e c c' → e.isSoft = true := by
    intro op c' h
    cases h with
    | intro hcurrent hperform =>
      exact Error.isSoft_of_ofStream (ActiveBlockWriter.perform_ofStream (hseq _ hcurrent) hperform)
  have hplan : ∃ plan, setup.plan = .ok plan ∧ plan.initialReplicas = 1 := by
    unfold WriterSetup.plan
    rw [hsync]
    obtain ⟨plan, hplan, hinitial⟩ := replicaWritePlan_of_sync setup.config.fileReplicationNumber
      setup.config.fileReplicationDurable setup.config.fileReplicationDurableMin
      setup.config.fileWriteMaxNodeRetry
    exact ⟨plan, hplan, by rw [hinitial]; omega⟩
  obtain ⟨plan, hplan, hinitial⟩ := hplan
  cases h with
  | plan _ herr =>
    rw [hplan] at herr
    cases herr
  | openBlock _ hplan' hopen =>
    cases hplan.symm.trans hplan'
    exact ⟨CacheM.openBlock_isSoft hinitial (replicaWritePlan_le hplan) hconnect hopen,
      fun h => by cases h⟩
  | send h | abandon h _ => exact ⟨hrefuses h, fun h => by cases h⟩
  | close _ hclose =>
    exact ⟨Error.isSoft_of_ofStream (ActiveBlockWriter.closeReplicas_ofStream hclose),
      fun h => by cases h⟩
  | commitLocation _ _ hasync _ =>
    rw [hsync] at hasync
    cases hasync

end CacheSide

end GooseFS
