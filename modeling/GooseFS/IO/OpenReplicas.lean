import GooseFS.IO.FileWriter

/-!
# Opening the replicas of a block

What `open_replica_writers` asks its candidates and what it does with their
answers.  `openReplies` lists the workers asked, in order, with their answers;
the log, the streams opened and the error of a failed attempt are given by that
list.
-/

namespace GooseFS

open Lib GrpcBlockWriter List

/-- The errors of `WorkerClientPool::acquire` and `WorkerClient::write_block`. -/
def Error.ofConnect : Error → Bool
  | .configError _ => true
  | .transportError _ => true
  | .internal _ => true
  | .grpcError _ _ => true
  | _ => false

/-- What an attempt to open a block writes to the log before one is open. -/
def CacheEvent.isTrying : CacheEvent → Bool
  | .cancelled _ => true
  | .markFailed _ => true
  | .invalidate _ => true
  | .clearFailed => true
  | _ => false

def cancelledStreams (events : List CacheEvent) : List GrpcBlockWriter :=
  events.filterMap fun
    | .cancelled s => some s
    | _ => none

theorem cancelledStreams_map {α : Type} (f : α → GrpcBlockWriter) (xs : List α) :
    cancelledStreams (xs.map fun x => .cancelled (f x)) = xs.map f := by
  rw [cancelledStreams, filterMap_map]
  exact congrFun filterMap_eq_map xs

/-- A worker that was asked for a stream, and the error it answered with. -/
abbrev OpenReply := WorkerNetAddress × Option Error

namespace CacheM

/-- The workers that the loop over the candidates asks, with their answers. -/
def openReplies (env : CacheEnv) (initial : Nat) : List WorkerInfo → Nat → Nat → List OpenReply
  | [], _, _ => []
  | worker :: rest, opened, tick =>
    if initial ≤ opened then []
    else
      match worker.address with
      | none => openReplies env initial rest opened tick
      | some addr => (addr, env.openReplica tick) ::
          openReplies env initial rest
            (if (env.openReplica tick).isNone then opened + 1 else opened) (tick + 1)

def markRefused : OpenReply → List CacheEvent
  | (addr, some _) => [.markFailed addr, .invalidate (rpcEndpoint addr)]
  | (_, none) => []

/-- The cache side after the workers answered `replies`. -/
def answered (c : CacheSide) (replies : List OpenReply) : CacheSide :=
  { c with
    ticks := c.ticks + replies.length
    events := c.events ++ replies.flatMap markRefused }

theorem answered_nil (c : CacheSide) : answered c [] = c := by
  simp [answered]

theorem answered_cons (c : CacheSide) (reply : OpenReply) (replies : List OpenReply) :
    answered c (reply :: replies) = answered (answered c [reply]) replies := by
  simp [answered, Nat.add_comm, Nat.add_left_comm]

def noAddress : Error := .internal "worker has no address"

def openedStreams (replies : List OpenReply) : Nat := replies.countP fun reply => reply.2.isNone

variable {replies : List OpenReply}

theorem openedStreams_eq_zero (h : openedStreams replies = 0) :
    ∀ reply ∈ replies, reply.2 ≠ none := by
  intro reply hmem hnone
  have := countP_eq_zero.mp h reply hmem
  rw [hnone] at this
  exact this rfl

theorem exists_of_openedStreams (h : openedStreams replies ≠ 0) :
    ∃ addr, (addr, none) ∈ replies := by
  obtain ⟨⟨addr, err⟩, hmem, hnone⟩ := countP_pos_iff.mp (Nat.pos_of_ne_zero h)
  obtain rfl : err = none := Option.isNone_iff_eq_none.mp hnone
  exact ⟨addr, hmem⟩

variable {setup : WriterSetup} {env : CacheEnv} {E : Error → CacheSide → Prop} {worker : WorkerInfo}

theorem tryOpenReplica_of_none (h : worker.address = none) (blockId : Int64) (ordinal : Nat) :
    tryOpenReplica env blockId worker ordinal = pure (.error noAddress) := by
  unfold tryOpenReplica
  rw [h]
  rfl

structure OpenedOn (blockId : Int64) (r : ReplicaWriter) (worker : WorkerInfo) : Prop where
  writer : r.writer = openStream blockId
  address : worker.address = some r.netAddress
  workerId : r.workerId = worker.id.getD 0
  workerAddr : r.workerAddr = rpcEndpoint r.netAddress

/-- Replicas on workers of `pool`, in its order, with ordinals from `start` on. -/
def OpenedFrom (blockId : Int64) (pool : List WorkerInfo) (start : Nat)
    (replicas : List ReplicaWriter) : Prop :=
  ∃ workers, workers.Sublist pool ∧ Forall₂ (OpenedOn blockId) replicas workers ∧
    replicas.map ReplicaWriter.ordinal = range' start replicas.length

section OpenedFrom

variable {blockId : Int64} {pool : List WorkerInfo} {worker : WorkerInfo} {start : Nat}
  {replicas : List ReplicaWriter}

theorem openedFrom_nil (blockId : Int64) (pool : List WorkerInfo) (start : Nat) :
    OpenedFrom blockId pool start [] := ⟨[], nil_sublist _, .nil, rfl⟩

theorem OpenedFrom.skip (h : OpenedFrom blockId pool start replicas) (worker : WorkerInfo) :
    OpenedFrom blockId (worker :: pool) start replicas := by
  obtain ⟨workers, hsub, hon, hord⟩ := h
  exact ⟨workers, hsub.cons worker, hon, hord⟩

theorem OpenedFrom.cons {r : ReplicaWriter} (h : OpenedFrom blockId pool (start + 1) replicas)
    (hr : OpenedOn blockId r worker) (hord : r.ordinal = start) :
    OpenedFrom blockId (worker :: pool) start (r :: replicas) := by
  obtain ⟨workers, hsub, hon, hords⟩ := h
  refine ⟨worker :: workers, hsub.cons_cons worker, .cons hr hon, ?_⟩
  rw [map_cons, hords, hord, length_cons, range'_succ]

theorem OpenedFrom.writer (h : OpenedFrom blockId pool start replicas) :
    ∀ r ∈ replicas, r.writer = openStream blockId := by
  obtain ⟨workers, _, hon, _⟩ := h
  exact ((forall₂_and_left ..).mp (hon.imp fun _ _ h => ⟨h.writer, h⟩)).1

theorem OpenedFrom.cancelledStreams (h : OpenedFrom blockId pool start replicas) :
    cancelledStreams (replicas.map fun r => .cancelled r.writer) =
      replicate replicas.length (openStream blockId) := by
  rw [cancelledStreams_map, eq_replicate_iff, length_map]
  refine ⟨rfl, fun s hs => ?_⟩
  obtain ⟨r, hr, rfl⟩ := mem_map.mp hs
  exact h.writer r hr

end OpenedFrom

theorem tryOpenReplica_of_some {addr : WorkerNetAddress} (h : worker.address = some addr)
    (blockId : Int64) (ordinal : Nat) (c : CacheSide) :
    Sat (· = c) (tryOpenReplica env blockId worker ordinal)
      (fun out c' => c' = { c with ticks := c.ticks + 1 } ∧
        match env.openReplica c.ticks with
        | some e => out = .error e
        | none => ∃ r, out = .ok r ∧ OpenedOn blockId r worker ∧ r.ordinal = ordinal) E := by
  unfold tryOpenReplica
  rw [h]
  refine Sat.modifyGet_bind ?_
  cases env.openReplica c.ticks with
  | some e => exact Sat.pure fun _ h => ⟨h, rfl⟩
  | none => exact Sat.pure fun _ hc => ⟨hc, _, rfl, ⟨rfl, h, rfl, rfl⟩, rfl⟩

theorem error_cons {P : Prop} {reply : OpenReply} {e : Error}
    (h : P ∨ e = noAddress ∨ ∃ addr, (addr, some e) ∈ replies) :
    P ∨ e = noAddress ∨ ∃ addr, (addr, some e) ∈ reply :: replies :=
  h.imp_right fun h => h.imp_right fun ⟨addr, h⟩ => ⟨addr, mem_cons_of_mem _ h⟩

variable (blockId : Int64)

/-- The loop over the candidates always returns: it has opened one stream for
each answer without an error, up to the number asked for. -/
theorem openReplicas_spec (initial : Nat) :
    ∀ (pool : List WorkerInfo) (opened : List ReplicaWriter) (err : Option Error) (c : CacheSide),
      Sat (· = c) (openReplicas env blockId initial pool opened err)
        (fun out c' => let replies := openReplies env initial pool opened.length c.ticks
          c' = answered c replies ∧
          (∃ new, out.1 = opened ++ new ∧ OpenedFrom blockId pool opened.length new ∧
            new.length = openedStreams replies ∧
            (opened.length ≤ initial → opened.length + new.length ≤ initial)) ∧
          ∀ e, out.2 = some e → err = some e ∨ e = noAddress ∨ ∃ addr, (addr, some e) ∈ replies)
        E := by
  intro pool
  induction pool with
  | nil =>
    intro opened err c
    exact Sat.pure fun c' h => ⟨h.trans (answered_nil c).symm,
      ⟨[], (append_nil _).symm, openedFrom_nil .., rfl, id⟩, fun e he => .inl he⟩
  | cons worker rest ih =>
    intro opened err c
    rw [openReplicas, openReplies]
    by_cases hfull : initial ≤ opened.length
    · rw [if_pos hfull, if_pos hfull]
      exact Sat.pure fun c' h => ⟨h.trans (answered_nil c).symm,
        ⟨[], (append_nil _).symm, openedFrom_nil .., rfl, id⟩, fun e he => .inl he⟩
    · rw [if_neg hfull, if_neg hfull]
      cases haddr : worker.address with
      | none =>
        have hmark : markFailed worker = pure () := by
          unfold markFailed
          rw [haddr]
        rw [tryOpenReplica_of_none haddr, hmark]
        refine (ih opened (some noAddress) c).post ?_ fun _ _ h => h
        rintro out c' ⟨hc', ⟨new, hnew, hfrom, hcount⟩, herr⟩
        refine ⟨hc', ⟨new, hnew, hfrom.skip worker, hcount⟩, fun e he => .inr ?_⟩
        rcases herr e he with h | h
        · exact .inl (Option.some.inj h).symm
        · exact h
      | some addr =>
        refine Sat.bind (tryOpenReplica_of_some haddr blockId opened.length c) fun out =>
          Sat.of_forall ?_
        rintro _ ⟨rfl, hout⟩
        simp only
        generalize env.openReplica c.ticks = reply at hout ⊢
        cases reply with
        | some e =>
          subst hout
          refine Sat.bind (R := fun _ c' => c' = answered c [(addr, some e)]) ?_ fun _ => ?_
          · unfold markFailed
            rw [haddr]
            exact Sat.modify fun _ h => by rw [h]; rfl
          refine (ih opened (some e) _).post ?_ fun _ _ h => h
          rintro out c' ⟨hc', ⟨new, hnew, hfrom, hcount⟩, herr⟩
          refine ⟨hc'.trans (answered_cons ..).symm, ⟨new, hnew, hfrom.skip worker, hcount⟩,
            fun e' he' => ?_⟩
          rcases error_cons (herr e' he') with h | h
          · exact .inr (.inr ⟨addr, by simp [Option.some.inj h]⟩)
          · exact .inr h
        | none =>
          obtain ⟨r, rfl, hr, hord⟩ := hout
          have hanswered : answered c [(addr, none)] = { c with ticks := c.ticks + 1 } := by
            simp [answered, markRefused]
          refine (ih (opened ++ [r]) err _).mono (fun _ h => h.trans hanswered.symm) ?_
            fun _ _ h => h
          rw [length_append, length_singleton]
          rintro out c' ⟨hc', ⟨new, hnew, hfrom, hlen, hle⟩, herr⟩
          refine ⟨hc'.trans (answered_cons ..).symm, ⟨r :: new, ?_, hfrom.cons hr hord, ?_, ?_⟩,
            fun e' he' => error_cons (herr e' he')⟩
          · rw [hnew, append_assoc, singleton_append]
          · have hticks : (answered c [(addr, none)]).ticks = c.ticks + 1 := rfl
            rw [hticks] at hlen
            simp only [openedStreams, countP_cons, Option.isNone_none, if_true,
              length_cons] at hlen ⊢
            omega
          · intro _
            rw [length_cons]
            have := hle (by omega)
            omega

/-! ## One attempt -/

def candidatePool (setup : WriterSetup) (env : CacheEnv) (blockId : Int64)
    (plan : ReplicaWritePlan) (useAllWorkers : Bool) (tick : Nat) :
    Except Error (List WorkerInfo) :=
  match if useAllWorkers then .ok (env.allWorkers tick) else env.selectWorkers tick with
  | .error e => .error e
  | .ok pool => .ok (if setup.strategy.needAsyncPersist then
      filterNoSpaceWorkers pool (0 < blockSequenceNumber blockId) plan.minNeededReplicas
      else pool)

/-- The numbers of replicas to open and to require of `pool`. -/
def replicaCounts (setup : WriterSetup) (plan : ReplicaWritePlan) (pool : List WorkerInfo) :
    Nat × Nat :=
  degradeReplicas setup.strategy.needAsyncPersist plan.initialReplicas plan.minNeededReplicas
    pool.length

def attemptReplies (setup : WriterSetup) (env : CacheEnv) (blockId : Int64)
    (plan : ReplicaWritePlan) (useAllWorkers : Bool) (tick : Nat) : List OpenReply :=
  match candidatePool setup env blockId plan useAllWorkers tick with
  | .error _ => []
  | .ok pool => openReplies env (replicaCounts setup plan pool).1 pool 0 (tick + 1)

def attempted (setup : WriterSetup) (env : CacheEnv) (blockId : Int64) (plan : ReplicaWritePlan)
    (useAllWorkers : Bool) (c : CacheSide) : CacheSide :=
  answered { c with ticks := c.ticks + 1 }
    (attemptReplies setup env blockId plan useAllWorkers c.ticks)

theorem candidates_spec (plan : ReplicaWritePlan) (useAllWorkers : Bool) (c : CacheSide) :
    Sat (· = c) (candidates setup env blockId plan useAllWorkers)
      (fun pool c' => c' = { c with ticks := c.ticks + 1 } ∧
        candidatePool setup env blockId plan useAllWorkers c.ticks = .ok pool)
      (fun e c' => c' = { c with ticks := c.ticks + 1 } ∧ useAllWorkers = false ∧
        env.selectWorkers c.ticks = .error e) := by
  refine Sat.bind (R := fun pool c' => c' = { c with ticks := c.ticks + 1 } ∧
    (if useAllWorkers then .ok (env.allWorkers c.ticks) else env.selectWorkers c.ticks) = .ok pool)
    ?_ fun pool => ?_
  · refine Sat.modifyGet_bind ?_
    cases useAllWorkers with
    | true => exact Sat.pure fun _ h => ⟨h, rfl⟩
    | false =>
      simp only [Bool.false_eq_true, if_false]
      cases hselect : env.selectWorkers c.ticks with
      | ok pool => exact Sat.pure fun _ h => ⟨h, rfl⟩
      | error e => exact Sat.throw fun _ h => ⟨h, trivial, rfl⟩
  · refine Sat.of_forall ?_
    rintro _ ⟨rfl, hpool⟩
    unfold candidatePool
    rw [hpool]
    split
    · exact Sat.pure fun _ h => ⟨h, rfl⟩
    · exact Sat.pure fun _ h => ⟨h, rfl⟩

structure Fresh (setup : WriterSetup) (id : Int64) (required : Nat) (a : ActiveBlockWriter) :
    Prop where
  blockId : a.blockId = id
  blockSize : a.blockSize = setup.blockSize
  bytesWritten : a.bytesWritten = 0
  pendingChunk : a.pendingChunk = []
  parallel : a.parallel = true → setup.strategy.needAsyncPersist = true
  minNeeded : a.minNeeded = required
  enough : required ≤ a.replicas.length
  nonempty : a.replicas ≠ []
  streams : ∀ r ∈ a.replicas, r.writer = openStream id

/-- The error of a failed attempt: too few streams, or no stream at all. -/
inductive AttemptError (env : CacheEnv) (blockId : Int64) (useAllWorkers : Bool) (tick : Nat)
    (replies : List OpenReply) : Error → Prop where
  | tooFew {addr : WorkerNetAddress} (message : String) : (addr, none) ∈ replies →
      AttemptError env blockId useAllWorkers tick replies (.resourceExhausted message)
  | unselected {e : Error} : useAllWorkers = false → env.selectWorkers tick = .error e →
      AttemptError env blockId useAllWorkers tick replies e
  | noWorker : (∀ reply ∈ replies, reply.2 ≠ none) →
      AttemptError env blockId useAllWorkers tick replies (noWorker blockId)
  | noAddress : (∀ reply ∈ replies, reply.2 ≠ none) →
      AttemptError env blockId useAllWorkers tick replies noAddress
  | refused {addr : WorkerNetAddress} {e : Error} : (∀ reply ∈ replies, reply.2 ≠ none) →
      (addr, some e) ∈ replies → AttemptError env blockId useAllWorkers tick replies e

theorem AttemptError.of_unopened {env : CacheEnv} {blockId : Int64} {useAllWorkers : Bool}
    {tick : Nat} (hnone : ∀ reply ∈ replies, reply.2 ≠ none) {err : Option Error}
    (herr : ∀ e, err = some e → e = CacheM.noAddress ∨ ∃ addr, (addr, some e) ∈ replies) :
    AttemptError env blockId useAllWorkers tick replies (err.getD (CacheM.noWorker blockId)) := by
  cases err with
  | none => exact .noWorker hnone
  | some e =>
    rcases herr e rfl with h | ⟨addr, h⟩
    · exact h ▸ .noAddress hnone
    · exact .refused hnone h

theorem openReplicaWriters_spec (plan : ReplicaWritePlan) (useAllWorkers : Bool) (c : CacheSide) :
    Sat (· = c) (openReplicaWriters setup env blockId plan useAllWorkers)
      (fun a c' => ∃ pool, candidatePool setup env blockId plan useAllWorkers c.ticks = .ok pool ∧
        pool ≠ [] ∧ Fresh setup blockId (replicaCounts setup plan pool).2 a ∧
        (OpenedFrom blockId pool 0 a.replicas ∧
          a.replicas.length ≤ (replicaCounts setup plan pool).1) ∧
        let c₁ := attempted setup env blockId plan useAllWorkers c
        c' = { c₁ with events := c₁.events ++ [.opened blockId pool.length] })
      (fun e c' => let replies := attemptReplies setup env blockId plan useAllWorkers c.ticks
        AttemptError env blockId useAllWorkers c.ticks replies e ∧
        (∀ pool, candidatePool setup env blockId plan useAllWorkers c.ticks = .ok pool →
          openedStreams replies = 0 ∨
            openedStreams replies < (replicaCounts setup plan pool).2) ∧
        ∃ more, (∀ x ∈ more, x = .clearFailed ∨ ∃ s, x = .cancelled s) ∧ cancelledStreams more =
            replicate (openedStreams replies) (openStream blockId) ∧
          let c₁ := attempted setup env blockId plan useAllWorkers c
          c' = { c₁ with events := c₁.events ++ more }) := by
  unfold attempted attemptReplies
  refine Sat.bind ((candidates_spec blockId plan useAllWorkers c).post
    (fun _ _ h => h) ?_) fun pool => Sat.of_forall ?_
  · rintro e _ ⟨rfl, rfl, herr⟩
    have hpool : candidatePool setup env blockId plan false c.ticks = .error e := by
      simp [candidatePool, herr]
    rw [hpool]
    refine ⟨.unselected rfl herr, fun _ h => (by cases h), [], fun _ h => (by cases h), rfl, ?_⟩
    simp only [answered_nil, append_nil]
  rintro _ ⟨rfl, hpool⟩
  rw [hpool]
  simp only
  by_cases hnil : pool = []
  · subst hnil
    refine Sat.modify_bind <| Sat.throw ?_
    rintro _ rfl
    refine ⟨.noWorker (by simp [openReplies]), fun _ _ => .inl rfl, [.clearFailed], by simp, rfl, ?_⟩
    rw [show openReplies env _ [] 0 (c.ticks + 1) = [] from rfl, answered_nil]
  rw [if_neg hnil]
  rcases hcounts : replicaCounts setup plan pool with ⟨initial, minNeeded⟩
  rw [show degradeReplicas _ _ _ pool.length = (initial, minNeeded) from hcounts]
  simp only
  generalize hreplies : openReplies env initial pool 0 (c.ticks + 1) = replies
  refine Sat.bind (openReplicas_spec blockId initial pool [] none { c with ticks := c.ticks + 1 })
    fun out => Sat.of_forall ?_
  obtain ⟨opened, err⟩ := out
  rintro _ ⟨rfl, ⟨_, rfl, hfrom, hlen, hle⟩, herr⟩
  simp only [length_nil, Nat.zero_add, Nat.zero_le, forall_const, hreplies]
    at hfrom hlen hle herr ⊢
  show Sat _ (if opened.length = 0 ∨ opened.length < minNeeded then _ else _) _ _
  split
  case isTrue hfew =>
    refine Sat.bind (R := fun _ c' => ∃ more, (∀ x ∈ more, x = .clearFailed ∨
        ∃ s, x = CacheEvent.cancelled s) ∧ cancelledStreams more =
          replicate (openedStreams replies) (openStream blockId) ∧
        c' = { answered { c with ticks := c.ticks + 1 } replies with
          events := (answered { c with ticks := c.ticks + 1 } replies).events ++ more })
      (Sat.modify ?_) fun _ => ?_
    · rintro _ rfl
      refine ⟨_, fun x hx => .inr ?_, ?_, rfl⟩
      · obtain ⟨r, _, rfl⟩ := mem_map.mp hx
        exact ⟨r.writer, rfl⟩
      · exact hlen ▸ hfrom.cancelledStreams
    have hcount : ∀ pool', Except.ok (ε := Error) pool = .ok pool' → openedStreams replies = 0 ∨
        openedStreams replies < (replicaCounts setup plan pool').2 := by
      intro pool' h
      cases h
      rw [hcounts]
      rwa [hlen] at hfew
    split
    case isTrue hzero =>
      refine Sat.throw fun c' hc' => ⟨?_, hcount, hc'⟩
      exact .of_unopened (openedStreams_eq_zero (hlen ▸ hzero)) fun e he =>
        (herr e he).resolve_left fun h => by cases h
    case isFalse hzero =>
      obtain ⟨addr, haddr⟩ := exists_of_openedStreams (hlen ▸ hzero)
      exact Sat.throw fun c' hc' => ⟨.tooFew _ haddr, hcount, hc'⟩
  case isFalse hcount =>
    push Not at hcount
    refine Sat.modify_bind ?_
    have hfew : opened.length ≤ (replicaCounts setup plan pool).1 := by
      rw [hcounts]
      exact hle
    refine Sat.pure fun c' hc' => ⟨pool, rfl, hnil,
      ⟨rfl, rfl, rfl, rfl, fun hpar => ?_, ?_, ?_, ?_, ?_⟩, ⟨hfrom, hfew⟩, hc'⟩
    · exact (of_decide_eq_true hpar).1
    · rw [hcounts]
    · rw [hcounts]
      exact hcount.2
    · exact fun h => hcount.1 (length_eq_zero_iff.mpr h)
    · exact hfrom.writer

/-! ## Both attempts -/

theorem isTrying_of_mem_markRefused {x : CacheEvent} (h : x ∈ replies.flatMap markRefused) :
    x.isTrying = true := by
  obtain ⟨⟨addr, err⟩, _, hx⟩ := mem_flatMap.mp h
  cases err with
  | none => cases hx
  | some e =>
    rcases mem_cons.mp hx with rfl | hx
    · rfl
    · rw [mem_singleton.mp hx]
      rfl

/-- `c'` is `c` after attempts that met `replies`: no block is open, and every
worker that refused is marked. -/
def Tried (c : CacheSide) (replies : List OpenReply) (c' : CacheSide) : Prop :=
  ∃ n more, (∀ x ∈ more, x.isTrying = true) ∧
    (∀ addr e, (addr, some e) ∈ replies → .markFailed addr ∈ more) ∧
    c' = { c with ticks := n, events := c.events ++ more }

theorem Tried.trans {c c₁ c₂ : CacheSide} {replies' : List OpenReply} (h : Tried c replies c₁)
    (h' : Tried c₁ replies' c₂) : Tried c (replies ++ replies') c₂ := by
  obtain ⟨n, more, htrying, hmarks, rfl⟩ := h
  obtain ⟨n', more', htrying', hmarks', rfl⟩ := h'
  refine ⟨n', more ++ more', fun x hx => ?_, fun addr e he => ?_, by rw [append_assoc]⟩
  · exact (mem_append.mp hx).elim (htrying x) (htrying' x)
  · rcases mem_append.mp he with he | he
    · exact mem_append_left _ (hmarks addr e he)
    · exact mem_append_right _ (hmarks' addr e he)

theorem tried_attempted (plan : ReplicaWritePlan) (useAllWorkers : Bool) (c : CacheSide)
    {more : List CacheEvent} (hmore : ∀ x ∈ more, x.isTrying = true) :
    Tried c (attemptReplies setup env blockId plan useAllWorkers c.ticks)
      { attempted setup env blockId plan useAllWorkers c with
        events := (attempted setup env blockId plan useAllWorkers c).events ++ more } := by
  refine ⟨_, _, fun x hx => ?_, fun addr e he => ?_, by
    simp only [attempted, answered, append_assoc]; rfl⟩
  · exact (mem_append.mp hx).elim isTrying_of_mem_markRefused (hmore x)
  · refine mem_append_left _ (mem_flatMap.mpr ⟨_, he, mem_cons_self ..⟩)

/-- The tick at which the second attempt starts if the first one, at `tick`,
fails. -/
def secondTick (setup : WriterSetup) (env : CacheEnv) (blockId : Int64) (plan : ReplicaWritePlan)
    (tick : Nat) : Nat :=
  tick + 1 + (attemptReplies setup env blockId plan false tick).length

def secondReplies (setup : WriterSetup) (env : CacheEnv) (blockId : Int64)
    (plan : ReplicaWritePlan) (tick : Nat) : List OpenReply :=
  attemptReplies setup env blockId plan true (secondTick setup env blockId plan tick)

def openings (setup : WriterSetup) (env : CacheEnv) (blockId : Int64) (plan : ReplicaWritePlan)
    (c : CacheSide) : List OpenReply :=
  attemptReplies setup env blockId plan false c.ticks ++
    match openReplicaWriters setup env blockId plan false c with
    | .ok _ _ => []
    | .error _ _ => secondReplies setup env blockId plan c.ticks

theorem openBlock_spec (plan : ReplicaWritePlan) (c : CacheSide) :
    Sat (· = c) (openBlock setup env blockId plan)
      (fun a c' => ∃ c₁ pool, Tried c (openings setup env blockId plan c) c₁ ∧ pool ≠ [] ∧
        Fresh setup blockId (replicaCounts setup plan pool).2 a ∧
        c' = { c₁ with events := c₁.events ++ [.opened blockId pool.length] })
      (fun e c' => let second := secondReplies setup env blockId plan c.ticks
        Tried c (openings setup env blockId plan c) c' ∧
        AttemptError env blockId true (secondTick setup env blockId plan c.ticks) second e ∧
        ∀ pool, candidatePool setup env blockId plan true
            (secondTick setup env blockId plan c.ticks) = .ok pool →
          openedStreams second = 0 ∨ openedStreams second < (replicaCounts setup plan pool).2) := by
  have hopened : ∀ (useAllWorkers : Bool) (c : CacheSide),
      Tried c (attemptReplies setup env blockId plan useAllWorkers c.ticks)
        (attempted setup env blockId plan useAllWorkers c) := by
    intro useAllWorkers c
    have h : Tried c (attemptReplies setup env blockId plan useAllWorkers c.ticks)
        { attempted setup env blockId plan useAllWorkers c with
          events := (attempted setup env blockId plan useAllWorkers c).events ++ [] } :=
      tried_attempted blockId plan useAllWorkers c fun _ h => by cases h
    rwa [append_nil] at h
  have htrying : ∀ {more : List CacheEvent},
      (∀ x ∈ more, x = .clearFailed ∨ ∃ s, x = .cancelled s) → ∀ x ∈ more, x.isTrying = true := by
    intro more h x hx
    rcases h x hx with rfl | ⟨s, rfl⟩
    · rfl
    · rfl
  unfold openings
  refine Sat.attempt_bind (fun a c' hrun => ?_) (fun e c' hrun => ?_)
  · obtain ⟨pool, _, hne, hfresh, _, rfl⟩ :=
      (openReplicaWriters_spec blockId plan false c).ok rfl hrun
    refine Sat.pure ?_
    rintro _ rfl
    rw [hrun, append_nil]
    exact ⟨_, pool, hopened false c, hne, hfresh, rfl⟩
  · obtain ⟨_, _, more, hmore, _, rfl⟩ :=
      (openReplicaWriters_spec blockId plan false c).error rfl hrun
    rw [hrun]
    have htried : Tried c (attemptReplies setup env blockId plan false c.ticks)
        { attempted setup env blockId plan false c with
          events := (attempted setup env blockId plan false c).events ++ more } :=
      tried_attempted blockId plan false c (htrying hmore)
    refine (openReplicaWriters_spec blockId plan true _).post ?_ ?_
    · rintro a c'' ⟨pool, _, hne, hfresh, _, hc''⟩
      exact ⟨_, pool, htried.trans (hopened true _), hne, hfresh, hc''⟩
    · rintro e' c'' ⟨herr, hfew, more', hmore', _, rfl⟩
      exact ⟨htried.trans (tried_attempted blockId plan true _ (htrying hmore')), herr, hfew⟩

end CacheM

end GooseFS
