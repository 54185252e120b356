import GooseFS.IO.Cleanup

/-!
# Workers that reject a write

A worker can reject a cache write with a status for which
`cache_write_failure_is_fatal` has a rule.  The rules read the variant of the
error, and no path that such a status takes to them makes that variant: an
operation on an open block wraps it in `GrpcError` or loses it, and so does
opening a stream.  `Session.rejection_applies_rule` says when the writer does
what the rule of the status asks for all the same, at every operation of a write
at which a worker can reject it.
-/

namespace GooseFS

open Lib CacheM List

def Code.isCredential : Code → Bool
  | .unauthenticated => true
  | .permissionDenied => true
  | _ => false

def CacheEvent.isMark : CacheEvent → Bool
  | .markFailed _ => true
  | _ => false

def NoMark (events : List CacheEvent) : Prop := ∀ x ∈ events, x.isMark = false

instance (events : List CacheEvent) : Decidable (NoMark events) :=
  inferInstanceAs (Decidable (∀ x ∈ events, _))

theorem noMark_of_ofBlock {events : List CacheEvent} (h : ∀ x ∈ events, x.ofBlock = true) :
    NoMark events := by
  intro x hx
  have hblock := h x hx
  cases x with
  | markFailed addr => cases hblock
  | _ => rfl

namespace CacheSide

section Rejections

variable (setup : WriterSetup) (env : CacheEnv) (code : Code) (c : CacheSide)

/-- A worker rejects the operation `op` with the status `code`.  Of a stream that was
rejected before a chunk or a flush is sent the writer only sees a closed request channel. -/
inductive Rejects : CacheOp → Prop where
  | opening {plan : ReplicaWritePlan} {addr : WorkerNetAddress} {message : String} :
      c.currentBlockWriter = none → setup.plan = .ok plan →
      (addr, some (.grpcError message code)) ∈
        openings setup env (setup.blockId c.committedBlockIds.length) plan c →
      Rejects .openBlock
  | sending {a : ActiveBlockWriter} {r : ReplicaWriter} {data : Bytes} :
      c.currentBlockWriter = some a → r ∈ a.replicas →
      (env.tasks c.ticks r.ordinal).sendAccepted = false → Rejects (.perform (.write data))
  | flushing {a : ActiveBlockWriter} {r : ReplicaWriter} :
      c.currentBlockWriter = some a → r ∈ a.replicas →
      ((env.tasks c.ticks r.ordinal).flushReply = .failed code ∨
        (env.tasks c.ticks r.ordinal).flushReply = .channelClosed) →
      Rejects (.perform .flush)
  | closing {a : ActiveBlockWriter} {r : ReplicaWriter} :
      c.currentBlockWriter = some a → r ∈ a.replicas →
      env.closeReply c.ticks r.ordinal = .failed code → Rejects .close

def OpeningFatal : Prop :=
  (setup.strategy.ufsStream = false ∧ setup.strategy.needAsyncPersist = false) ∨
    (setup.strategy.needAsyncPersist = true ∧ c.blockOpened = true) ∨
    (c.blockOpened = false ∧ setup.config.ignoreBlockStreamUnknownStatus = false)

/-- The second attempt to open a block still finds some worker that takes it. -/
def OpensSome : Prop :=
  ∃ plan addr, setup.plan = .ok plan ∧ (addr, none) ∈
    secondReplies setup env (setup.blockId c.committedBlockIds.length) plan c.ticks

/-- When the rule of the status `code` is applied to an operation that fails. -/
def RuleHolds : CacheOp → Prop
  | .openBlock => code.isCredential = false ∧ (c.OpeningFatal setup ∨ c.OpensSome setup env)
  | _ => setup.strategy.ufsStream = false

end Rejections

variable {setup : WriterSetup} {env : CacheEnv} {code : Code} {c c' : CacheSide} {op : CacheOp}
  {e : Error} {plan : ReplicaWritePlan}

theorem Rejects.current (h : c.Rejects setup env code op) :
    (op = .openBlock ∧ c.currentBlockWriter = none) ∨
      (op.isOpening = false ∧ op ≠ .commitLocation ∧ c.currentBlockWriter ≠ none) := by
  cases h with
  | opening hnone _ _ => exact .inl ⟨rfl, hnone⟩
  | sending hcurrent _ _ | flushing hcurrent _ _
  | closing hcurrent _ _ => exact .inr ⟨rfl, by simp, by simp [hcurrent]⟩

/-! ## Failures on an open block -/

/-- Nothing that fails on an open block marks a worker, the teardown included: a
chunk that is refused has already taken the replicas out of the block. -/
theorem Fails.noMark (h : Fails setup env c op e c') (hop : op.isOpening = false)
    (hc : c.Regular (setup.strategy.needAsyncPersist = true) True) (blacklist : Bool) :
    NoMark ((c'.tornDown blacklist).events.drop c.events.length) := by
  have hlogs : c.Logs (c'.tornDown blacklist) := by
    have hlogs := h.logs hop
    unfold tornDown
    cases hcurrent : c'.currentBlockWriter with
    | none => exact hlogs
    | some a =>
      -- only a refused chunk leaves its block in place
      have hnil : a.replicas = [] := by
        cases h with
        | plan _ _ | openBlock _ _ _ => cases hop
        | send hrefuses =>
          cases hrefuses with
          | intro ha hperform =>
            cases hcurrent
            exact ((hc _ ha).perform_error hperform).resolve_right fun h => by cases h.1
        | abandon _ _ | close _ _ | commitLocation _ _ _ _ => cases hcurrent
      simp only [ActiveBlockWriter.cancelReplicas, hnil, flatMap_nil, map_nil, ite_self, append_nil]
      exact ⟨hlogs.blockOpened, hlogs.events⟩
  obtain ⟨more, hevents, hmore⟩ := hlogs.events
  rw [hevents, drop_left]
  exact noMark_of_ofBlock hmore

theorem Fails.fatal_iff (h : Fails setup env c op e c') (hop : op.isOpening = false)
    (hcommit : op ≠ .commitLocation) (hc : c.Regular (setup.strategy.needAsyncPersist = true) True) (hopened : c.blockOpened = true) :
    cacheWriteFailureIsFatal e setup.strategy c'.blockOpened
      setup.config.ignoreBlockStreamUnknownStatus = true ↔ setup.strategy.ufsStream = false := by
  have hopened' : c'.blockOpened = true := (h.logs hop).blockOpened.trans hopened
  have hsync := GoosefsFileWriter.no_ufsStream_or_sync setup.writeType
  have hsoft : e.isSoft = true → (cacheWriteFailureIsFatal e setup.strategy c'.blockOpened
      setup.config.ignoreBlockStreamUnknownStatus = true ↔ setup.strategy.ufsStream = false) := by
    intro hsoft
    rw [cacheWriteFailureIsFatal_of_isSoft hsoft, hopened']
    rcases hsync with hufs | hsync
    · rw [show setup.strategy.ufsStream = false from hufs]
      cases setup.strategy.needAsyncPersist <;> simp
    · rw [show setup.strategy.needAsyncPersist = false from hsync]
      cases setup.strategy.ufsStream <;> simp
  -- a fan-out reports its own error, but only ASYNC_THROUGH has one
  have hrefuses : ∀ {op : ReplicaOp} {c₁ : CacheSide}, Refuses env op e c c₁ →
      (cacheWriteFailureIsFatal e setup.strategy c'.blockOpened
        setup.config.ignoreBlockStreamUnknownStatus = true ↔ setup.strategy.ufsStream = false) := by
    intro op c₁ h
    cases h with
    | @intro a rs events ha hperform =>
      cases hpar : a.parallel with
      | false =>
        exact hsoft (Error.isSoft_of_ofStream (ActiveBlockWriter.perform_ofStream hpar hperform))
      | true =>
        have hasync := (hc a ha).parallel hpar
        have hufs : setup.strategy.ufsStream = false :=
          hsync.resolve_right (Bool.not_eq_false _ ▸ hasync)
        rcases (hperform ▸ a.perform_served _ _).error _ rfl with ⟨_, message, rfl⟩ | herr
        · simp [cacheWriteFailureIsFatal, hufs]
        · refine hsoft (Error.isSoft_of_ofStream ?_)
          cases op with
          | write data =>
            obtain ⟨message, rfl⟩ := herr
            rfl
          | flush =>
            obtain ⟨r, _, hflush⟩ := herr
            exact GrpcBlockWriter.flush_error hflush
  cases h with
  | plan _ _ | openBlock _ _ _ => cases hop
  | send h | abandon h _ => exact hrefuses h
  | close _ hclose =>
    exact hsoft (Error.isSoft_of_ofStream (ActiveBlockWriter.closeReplicas_ofStream hclose))
  | commitLocation _ _ _ _ => exact absurd rfl hcommit

theorem openBlock_fatal_iff (hplan : setup.plan = .ok plan)
    (hconnect : ∀ tick e, env.openReplica tick = some e → e.ofConnect = true)
    (h : openBlock setup env (setup.blockId c.committedBlockIds.length) plan c =
      .error e c') : cacheWriteFailureIsFatal e setup.strategy c'.blockOpened
        setup.config.ignoreBlockStreamUnknownStatus = true ↔
      c.OpeningFatal setup ∨ c.OpensSome setup env := by
  obtain ⟨⟨_, _, _, _, rfl⟩, herr, _⟩ := (openBlock_spec _ plan c).error rfl h
  have hsoft : e.isSoft = true → (∀ reply ∈ secondReplies setup env
      (setup.blockId c.committedBlockIds.length) plan c.ticks, reply.2 ≠ none) →
      (cacheWriteFailureIsFatal e setup.strategy c.blockOpened
        setup.config.ignoreBlockStreamUnknownStatus = true ↔
      c.OpeningFatal setup ∨ c.OpensSome setup env) := by
    intro hsoft hnone
    have hfew : ¬c.OpensSome setup env := by
      rintro ⟨plan', addr, hplan', hmem⟩
      cases hplan.symm.trans hplan'
      exact hnone _ hmem rfl
    rw [cacheWriteFailureIsFatal_of_isSoft hsoft, or_iff_left hfew]
    simp [OpeningFatal, or_assoc]
  cases herr with
  | tooFew message hmem =>
    exact iff_of_true rfl (.inr ⟨plan, _, hplan, hmem⟩)
  | unselected h _ => cases h
  | noWorker hnone | noAddress hnone => exact hsoft rfl hnone
  | refused hnone hmem =>
    obtain ⟨t, ht⟩ := exists_of_mem_attemptReplies hmem
    exact hsoft (Error.isSoft_of_ofConnect (hconnect t e ht)) hnone

theorem Rejects.marks {c₁ : CacheSide} {more : List CacheEvent} (hplan : setup.plan = .ok plan)
    (h : c.Rejects setup env code .openBlock)
    (htried : Tried c
      (openings setup env (setup.blockId c.committedBlockIds.length) plan c) c₁) :
    ¬NoMark ((c₁.events ++ more).drop c.events.length) := by
  cases h with
  | @opening plan' addr message _ hplan' hmem =>
    cases hplan.symm.trans hplan'
    obtain ⟨n, tried, _, hmarks, rfl⟩ := htried
    intro hno
    rw [append_assoc, drop_left] at hno
    cases hno _ (mem_append_left _ (hmarks addr _ hmem))

end CacheSide

/-! ## Writes -/

/-- What the rule of the status `code` asks for, when the cache part of a write
fails with `e` in an operation that starts in `c`: the write fails, and a rejected
credential marks no worker. -/
def GoosefsFileWriter.AppliesRule (setup : WriterSetup) (env : CallEnv) (data : Bytes)
    (code : Code) (c : CacheSide) (e : Error) (w : GoosefsFileWriter) : Prop :=
  ∃ w', write setup env data w = .error e w' ∧ w'.cancelled = true ∧
    (code.isCredential = true → NoMark (w'.cache.events.drop c.events.length))

namespace Session

open GoosefsFileWriter

open CacheSide

variable {setup : WriterSetup}

/-- At every operation of a write in every run at which a worker rejects the cache
write.  If the operation fails, the rule of the status is applied where
`RuleHolds`; if other workers make up for the rejection, a rejected credential
still marks its worker exactly when a block is being opened. -/
theorem rejection_applies_rule {env₀ env : CallEnv} {w₀ : GoosefsFileWriter} {calls : List Call}
    {s : Session} {data : Bytes} {code : Code} {op : CacheOp} {c : CacheSide}
    (hcreate : GoosefsFileWriter.create setup env₀ = .ok w₀)
    (hrun : Guarded (next setup) (fun _ _ => True) ⟨w₀, []⟩ calls s)
    (hopen : ¬s.writer.Ended) (hcache : s.writer.shouldCache = true) (hrouter : env.router = none)
    (hconnect : ∀ tick e, env.cache.openReplica tick = some e → e.ofConnect = true)
    (hreach : Reaches setup env.cache { s.writer.cache with ticks := 0 } c)
    (hrejects : c.Rejects setup env.cache code op) :
    (∀ e c', Fails setup env.cache c op e c' →
      CacheM.writeToCacheStream setup env.cache data { s.writer.cache with ticks := 0 } =
        .error e c' →
      (s.writer.AppliesRule setup env data code c e ↔ c.RuleHolds setup env.cache code op)) ∧
    (∀ c', Step setup env.cache c c' →
      ((code.isCredential = true → NoMark (c'.events.drop c.events.length)) ↔
        (op = .openBlock → code.isCredential = false))) := by
  obtain ⟨b, u, rfl, _⟩ := GoosefsFileWriter.create_spec hcreate
  have hregular : c.Regular (setup.strategy.needAsyncPersist = true) True := by
    have hinv := regular_invariant setup
    exact hinv.reaches hreach ((hinv.run hrun (regular_of_none rfl)).resolve_left hopen)
  have hmarked : c.Marked false := by
    have hinv := marked_invariant setup false
    have hstart : Marked false (GoosefsFileWriter.fresh setup).cache :=
      ⟨fun h => (by cases h), fun h => absurd rfl h⟩
    exact hinv.reaches hreach ((hinv.run hrun hstart).resolve_left hopen)
  have hcurrent := hrejects.current
  refine ⟨fun e c' hfails hstream => ?_, fun c' hstep => ?_⟩
  · have hne : data ≠ [] := by
      rintro rfl
      cases hstream
    refine (GoosefsFileWriter.write_cancelled_iff
      (P := fun c' => code.isCredential = true → NoMark (c'.events.drop c.events.length))
      hopen hrouter hne hcache hstream).trans ?_
    rcases hcurrent with ⟨rfl, _⟩ | ⟨hop, hcommit, hblock⟩
    · cases hfails with
      | @openBlock c' e plan hnone hplan hfail =>
        rw [openBlock_fatal_iff hplan hconnect hfail]
        have htried := ((CacheM.openBlock_spec _ plan c).error rfl hfail).1
        have hmarks : ¬NoMark ((c'.events ++ []).drop c.events.length) :=
          hrejects.marks hplan htried
        have hnone' : c'.currentBlockWriter = none := by
          obtain ⟨_, _, _, _, rfl⟩ := htried
          exact hnone
        rw [List.append_nil] at hmarks
        simp only [CacheSide.tornDown, hnone', RuleHolds, hmarks, imp_false, Bool.not_eq_true]
        exact and_comm
    · rw [hfails.fatal_iff hop hcommit hregular (hmarked.2 hblock)]
      have hrule : c.RuleHolds setup env.cache code op ↔ setup.strategy.ufsStream = false := by
        cases op with
        | openBlock => cases hop
        | _ => exact Iff.rfl
      rw [hrule]
      exact and_iff_left fun _ => hfails.noMark hop hregular _
  · rcases hcurrent with ⟨rfl, hnone⟩ | ⟨hop, _, hblock⟩
    · cases hstep with
      | block hs =>
        cases hs with
        | fill _ _ ha | perform ha _ => cases hnone.symm.trans ha
      | discard ha | commit _ ha _ _ => cases hnone.symm.trans ha
      | @opens c' a plan _ hplan hok =>
        obtain ⟨c₁, pool, htried, _, _, rfl⟩ := (CacheM.openBlock_spec _ plan c).ok rfl hok
        have hmarks : ¬NoMark ((c₁.events ++
            [CacheEvent.opened (setup.blockId c.committedBlockIds.length) pool.length]).drop
              c.events.length) := hrejects.marks hplan htried
        simp only [hmarks, imp_false, Bool.not_eq_true, forall_const]
    · obtain ⟨_, more, hevents, hmore⟩ := hstep.logs.resolve_right fun h => hblock h.1
      rw [hevents, List.drop_left]
      refine iff_of_true (fun _ => noMark_of_ofBlock hmore) fun h => ?_
      rw [h] at hop
      cases hop

def rejectedOpen (code : Code) : CallEnv :=
  { goodEnv with cache :=
      { goodEnv.cache with openReplica := fun _ => some (.grpcError "rejected" code) } }

def deniedFlush : CallEnv :=
  { goodEnv with cache :=
      { goodEnv.cache with
        tasks := fun _ k => ⟨true, .failed .permissionDenied, false, k, true⟩ } }

theorem rejection_applies_rule_exhausted : ∃ w',
    GoosefsFileWriter.write (smallSetup 1) (rejectedOpen .resourceExhausted) [1]
        (GoosefsFileWriter.fresh (smallSetup 1)) =
      .error (.grpcError "rejected" .resourceExhausted) w' ∧ w'.cancelled = true := by
  let setup := smallSetup 1
  let env := rejectedOpen .resourceExhausted
  let c : CacheSide := { (GoosefsFileWriter.fresh setup).cache with ticks := 0 }
  let plan : ReplicaWritePlan := ⟨2, 2, 2⟩
  let addr : WorkerNetAddress := ⟨some "worker", some 9203⟩
  have hcreate : GoosefsFileWriter.create setup goodEnv = .ok (GoosefsFileWriter.fresh setup) := rfl
  have hplan : setup.plan = .ok plan := rfl
  have hmem : (addr, some (.grpcError "rejected" .resourceExhausted)) ∈
      CacheM.openings setup env.cache (setup.blockId 0) plan c := by decide +kernel
  have hrejects : c.Rejects setup env.cache .resourceExhausted .openBlock := .opening rfl hplan hmem
  obtain ⟨c', hfail, hstream⟩ : ∃ c', CacheM.openBlock setup env.cache (setup.blockId 0) plan c =
        .error (.grpcError "rejected" .resourceExhausted) c' ∧
      CacheM.writeToCacheStream setup env.cache [1] c =
        .error (.grpcError "rejected" .resourceExhausted) c' := ⟨_, rfl, rfl⟩
  have hrule := (rejection_applies_rule hcreate (.nil _) (by decide) rfl rfl
    (fun _ e h => by cases h; rfl) .refl hrejects).1 _ c' (.openBlock rfl hplan hfail) hstream
  obtain ⟨w', hwrite, hcancelled, _⟩ := hrule.mpr ⟨rfl, Or.inl (Or.inl ⟨rfl, rfl⟩)⟩
  exact ⟨w', hwrite, hcancelled⟩

def deniedSession : Session :=
  singleStart.after (write singleSetup deniedFlush [1, 2, 3, 4, 5])
    [1, 2, 3, 4, 5]

def rejectedSession : Session :=
  Session.after ⟨fresh (smallSetup 1), []⟩
    (write (smallSetup 1) (rejectedOpen .unauthenticated) [1]) [1]

/-- A CACHE_THROUGH file whose first block is flushed into PERMISSION_DENIED: the
write is accepted and the writer goes on without the cache.  A first block that is
rejected with UNAUTHENTICATED marks its workers. -/
theorem rejection_is_masked :
    deniedSession.accepted = [1, 2, 3, 4, 5] ∧ deniedSession.writer.shouldCache = false ∧
      ¬NoMark rejectedSession.writer.cache.events := by
  refine ⟨?_, ?_, ?_⟩
  · decide +kernel
  · decide +kernel
  · decide +kernel

end Session

end GooseFS
