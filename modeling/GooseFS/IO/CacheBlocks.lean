import GooseFS.Lib.ListOrder
import GooseFS.Lib.Slice
import GooseFS.IO.OpenReplicas

/-!
# Blocks in the cache

What the cache side of a file writer has put where.  `Stored` says, between any
two calls, which blocks are closed and what the open one holds: its replicas
agree on the bytes sent, and those together with the pending chunk are the bytes
accepted for it.  Each function of the cache side gets a contract in these terms;
after a failure nothing is promised, except for an explicit flush that keeps
enough replicas (`FlushKeeps`).
-/

namespace GooseFS

open Lib ActiveBlockWriter List

/-- `es'` continues the log `es` without closing a stream. -/
def Extends (es es' : List CacheEvent) : Prop := ∃ more, es' = es ++ more ∧ closedStreams more = []

theorem Extends.refl (es : List CacheEvent) : Extends es es := ⟨[], (append_nil _).symm, rfl⟩

variable {es es' : List CacheEvent}

theorem Extends.append (h : Extends es es') {more : List CacheEvent}
    (hmore : closedStreams more = []) : Extends es (es' ++ more) := by
  obtain ⟨first, rfl, hfirst⟩ := h
  exact ⟨first ++ more, append_assoc .., by rw [closedStreams_append, hfirst, hmore]; rfl⟩

theorem Extends.closedStreams (h : Extends es es') : closedStreams es' = closedStreams es := by
  obtain ⟨more, rfl, hmore⟩ := h
  rw [closedStreams_append, hmore, append_nil]

theorem Extends.mem (h : Extends es es') {e : CacheEvent} (he : e ∈ es) : e ∈ es' := by
  obtain ⟨more, rfl, _⟩ := h
  exact mem_append_left _ he

/-! ## Requests of a block -/

/-- What holds of the requests of an open block, whatever full chunks it is sent. -/
structure Accumulates (chunkSize : Nat) (K : List WriteRequest → Prop) : Prop where
  nil : K []
  full : ∀ reqs data, K reqs → data.length = chunkSize → K (reqs ++ [.chunk data])

def AnyRequests : List WriteRequest → Prop := fun _ => True

theorem AnyRequests.accumulates (chunkSize : Nat) : Accumulates chunkSize AnyRequests :=
  ⟨trivial, fun _ _ _ _ => trivial⟩

/-- The requests after those of an open block once its pending chunk is sent. -/
def drained (reqs : List WriteRequest) (pending : Bytes) : List WriteRequest :=
  if pending = [] then reqs else reqs ++ [.chunk pending]

/-- What is sent to a block until it is closed, with a flush at the end or
without. -/
def EndsBlock (K : List WriteRequest → Prop) (chunkSize : Nat) (flushed : Bool)
    (sent : List WriteRequest) : Prop :=
  ∃ reqs pending, K reqs ∧ pending.length < chunkSize ∧
    sent = drained reqs pending ++ if flushed then [.flush] else []

theorem EndsBlock.flush {K : List WriteRequest → Prop} {chunkSize : Nat} {sent : List WriteRequest}
    (h : EndsBlock K chunkSize false sent) : EndsBlock K chunkSize true (sent ++ [.flush]) := by
  obtain ⟨reqs, pending, hreqs, hshort, rfl⟩ := h
  exact ⟨reqs, pending, hreqs, hshort, by simp⟩

/-! ## The open block -/

/-- The block without what sending to its replicas changes. -/
def ActiveBlockWriter.bare (a : ActiveBlockWriter) : ActiveBlockWriter :=
  { a with replicas := [], pendingChunk := [] }

theorem ActiveBlockWriter.minNeeded_of_bare {a b : ActiveBlockWriter} (h : a.bare = b.bare) :
    a.minNeeded = b.minNeeded := (congrArg minNeeded h :)

theorem ActiveBlockWriter.blockId_of_bare {a b : ActiveBlockWriter} (h : a.bare = b.bare) :
    a.blockId = b.blockId := (congrArg blockId h :)

/-- The replicas of the block have received `sent`, in requests that meet `K`. -/
structure BlockIo.Sent (base : ActiveBlockWriter) (es : List CacheEvent)
    (K : List WriteRequest → Prop) (sent pending : Bytes) (s : BlockIo) : Prop where
  same : s.active.bare = base.bare
  agree : Agree base.blockId base.minNeeded sent s.active.replicas
  requests : ∀ r ∈ s.active.replicas, K r.writer.sent
  pending : s.active.pendingChunk = pending
  log : Extends es s.events

/-- The bytes received and the pending ones are `content`, and the pending ones are
less than a chunk. -/
def BlockIo.Holds (base : ActiveBlockWriter) (es : List CacheEvent) (K : List WriteRequest → Prop)
    (chunkSize : Nat) (content : Bytes) (s : BlockIo) : Prop :=
  ∃ sent pending, sent ++ pending = content ∧ pending.length < chunkSize ∧
    s.Sent base es K sent pending

namespace BlockM

variable {env : CacheEnv} {base : ActiveBlockWriter} {es : List CacheEvent}
  {K K' : List WriteRequest → Prop} {sent pending : Bytes} {chunkSize : Nat}

theorem perform_sat (op : ReplicaOp) (hK : ∀ reqs, K reqs → K' (reqs ++ [op.request])) :
    Sat (BlockIo.Sent base es K sent pending)
      (step fun s =>
        let out := s.active.perform op (env.tasks s.ticks)
        (out.1, { active := { s.active with replicas := out.2.1 }, ticks := s.ticks + 1,
                  events := s.events ++ out.2.2 }))
      (fun _ => BlockIo.Sent base es K' (sent ++ op.payload) pending) (fun _ _ => True) := by
  refine Sat.step ?_ fun _ _ _ _ => trivial
  rintro s ⟨⟩ hs hok
  obtain ⟨henough, happlied, _⟩ := (s.active.perform_served op (env.tasks s.ticks)).ok hok
  rw [minNeeded_of_bare hs.same] at henough
  refine ⟨hs.same, hs.agree.took (henough hs.agree.enough) fun r' hr' => ?_, fun r' hr' => ?_,
    hs.pending, hs.log.append (perform_closedStreams ..)⟩
  · obtain ⟨r, hr, happ⟩ := happlied r' hr'
    exact ⟨r, hr, happ.took⟩
  · obtain ⟨r, hr, happ⟩ := happlied r' hr'
    rw [happ.sent]
    exact hK _ (hs.requests r hr)

theorem writeChunk_sat {data : Bytes} (hK : ∀ reqs, K reqs → K' (reqs ++ [.chunk data])) :
    Sat (BlockIo.Sent base es K sent pending) (writeChunk env data)
      (fun _ => BlockIo.Sent base es K' (sent ++ data) pending) (fun _ _ => True) :=
  perform_sat (.write data) hK

theorem flushReplicas_sat (hK : ∀ reqs, K reqs → K' (reqs ++ [.flush])) :
    Sat (BlockIo.Sent base es K sent pending) (flushReplicas env)
      (fun _ => BlockIo.Sent base es K' sent pending) (fun _ _ => True) :=
  (perform_sat .flush hK).post (fun _ _ hs => by rwa [ReplicaOp.payload, append_nil] at hs)
    fun _ _ h => h

theorem setPending_sat (pending' : Bytes) {E : Error → BlockIo → Prop} :
    Sat (BlockIo.Sent base es K sent pending) (setPending pending')
      (fun _ => BlockIo.Sent base es K sent pending') E :=
  Sat.modify fun _ hs => ⟨hs.same, hs.agree, hs.requests, rfl, hs.log⟩

theorem drainPending_sat (content : Bytes) :
    Sat (BlockIo.Holds base es K chunkSize content) (drainPending env)
      (fun _ => BlockIo.Sent base es (EndsBlock K chunkSize false) content [])
      (fun _ _ => True) := by
  refine Sat.get fun s hs => ?_
  obtain ⟨sent, pending, rfl, hshort, hsent⟩ := hs
  rw [hsent.pending]
  have hends : ∀ reqs, K reqs → EndsBlock K chunkSize false (drained reqs pending) :=
    fun reqs hreqs => ⟨reqs, pending, hreqs, hshort, (append_nil _).symm⟩
  refine Sat.bind ((setPending_sat []).fixed hsent) fun _ => ?_
  unfold drained at hends
  by_cases hnil : pending = []
  · rw [if_neg (not_not_intro hnil), hnil, append_nil]
    simp only [if_pos hnil] at hends
    exact Sat.pure fun _ h => ⟨h.same, h.agree, fun r hr => hends _ (h.requests r hr), h.pending, h.log⟩
  · rw [if_pos hnil]
    simp only [if_neg hnil] at hends
    exact writeChunk_sat hends

variable (hK : Accumulates chunkSize K) (hcs : 0 < chunkSize)
include hK hcs

theorem emitFull_sat : ∀ (fuel : Nat) (src sent : Bytes), src.length ≤ fuel →
    Sat (BlockIo.Sent base es K sent []) (emitFull env chunkSize fuel src)
      (fun rest s => rest.length < chunkSize ∧
        ∃ sent', sent' ++ rest = sent ++ src ∧ s.Sent base es K sent' [])
      (fun _ _ => True) := by
  intro fuel
  induction fuel with
  | zero => exact fun src sent hfuel => Sat.pure fun s hs => ⟨by omega, sent, rfl, hs⟩
  | succ fuel ih =>
    intro src sent hfuel
    rw [emitFull]
    split
    case isTrue hlong =>
      refine Sat.bind (writeChunk_sat fun reqs h => hK.full reqs _ h (length_take_of_le hlong))
        fun _ => ?_
      refine (ih _ _ (by rw [length_drop]; omega)).post ?_ fun _ _ h => h
      rintro rest s ⟨hrest, sent', heq, hs⟩
      refine ⟨hrest, sent', ?_, hs⟩
      rw [heq, append_assoc, take_append_drop]
    case isFalse => exact Sat.pure fun s hs => ⟨by omega, sent, rfl, hs⟩

theorem emitRest_sat (src sent : Bytes) :
    Sat (BlockIo.Sent base es K sent []) (emitRest env chunkSize src)
      (fun _ => BlockIo.Holds base es K chunkSize (sent ++ src)) (fun _ _ => True) := by
  refine Sat.bind (emitFull_sat hK hcs src.length src sent (Nat.le_refl _)) fun rest => ?_
  refine Sat.get fun s hs => ?_
  obtain ⟨hrest, sent', heq, hsent⟩ := hs
  rw [hsent.pending]
  refine (setPending_sat _).mono (fun _ h => h ▸ hsent) ?_ fun _ _ h => h
  exact fun _ s hs => ⟨sent', _, heq, hrest, hs⟩

omit hK hcs in
theorem emitRest_nil (hshort : pending.length < chunkSize) :
    Sat (BlockIo.Sent base es K sent pending) (emitRest env chunkSize [])
      (fun _ => BlockIo.Holds base es K chunkSize (sent ++ pending)) (fun _ _ => True) := by
  refine Sat.bind (R := fun rest s => rest = [] ∧ s.Sent base es K sent pending)
    (Sat.pure fun _ hs => ⟨rfl, hs⟩) fun rest => ?_
  refine Sat.get fun s hs => ?_
  obtain ⟨rfl, hsent⟩ := hs
  rw [hsent.pending, append_nil]
  refine (setPending_sat pending).mono (fun _ h => h ▸ hsent) ?_ fun _ _ h => h
  exact fun _ s hs => ⟨sent, pending, rfl, hshort, hs⟩

theorem emitAlignedChunks_sat (incoming content : Bytes) :
    Sat (BlockIo.Holds base es K chunkSize content) (emitAlignedChunks env incoming chunkSize)
      (fun _ => BlockIo.Holds base es K chunkSize (content ++ incoming)) (fun _ _ => True) := by
  unfold emitAlignedChunks
  rw [if_neg (by omega)]
  refine Sat.get fun s hs => ?_
  obtain ⟨sent, pending, rfl, hpending, hsent⟩ := hs
  have hset : ∀ pending', Sat (· = s) (setPending pending')
      (fun _ => BlockIo.Sent base es K sent pending') (fun _ _ => True) :=
    fun pending' => (setPending_sat pending').fixed hsent
  rw [hsent.pending]
  unfold takeCompletedPending
  by_cases hnil : pending = []
  · simp only [if_pos hnil]
    refine Sat.bind (hset []) fun _ => ?_
    rw [hnil, append_nil]
    exact emitRest_sat hK hcs incoming sent
  · simp only [if_neg hnil]
    by_cases hshort : incoming.length < chunkSize - pending.length
    · -- the pending chunk stays short
      simp only [if_pos hshort]
      refine Sat.bind (hset (pending ++ incoming)) fun _ => ?_
      rw [append_assoc]
      refine emitRest_nil ?_
      rw [length_append]
      omega
    · simp only [if_neg hshort]
      have hfull : (pending ++ incoming.take (chunkSize - pending.length)).length = chunkSize := by
        rw [length_append, length_take]
        omega
      refine Sat.bind (hset []) fun _ => ?_
      refine Sat.bind (writeChunk_sat fun reqs h => hK.full reqs _ h hfull) fun _ => ?_
      refine (emitRest_sat hK hcs _ _).post ?_ fun _ _ h => h
      intro _ s hs
      rwa [append_assoc, append_assoc, take_append_drop, ← append_assoc] at hs

end BlockM

/-! ## An explicit flush -/

/-- Enough replicas take the pending chunk and the flush that follows it; where
replicas are served one by one, all take the pending chunk. -/
def FlushKeeps (tasks : Nat → Nat → TaskRun) (a : ActiveBlockWriter) : Prop :=
  let t := if a.pendingChunk = [] then 0 else 1
  if a.parallel ∧ 1 < a.replicas.length then
    a.minNeeded ≤ (a.replicas.filter fun r =>
      (a.pendingChunk = [] ∨ Survives (.write a.pendingChunk) (tasks 0) r) ∧
        Survives .flush (tasks t) r).length
  else a.pendingChunk = [] ∨ ∀ r ∈ a.replicas, (tasks 0 r.ordinal).sendAccepted = true

instance (tasks : Nat → Nat → TaskRun) (a : ActiveBlockWriter) : Decidable (FlushKeeps tasks a) := by
  unfold FlushKeeps
  infer_instance

theorem length_filter_survives {op : ReplicaOp} {tasks : Nat → TaskRun}
    {rs rs' : List ReplicaWriter}
    (h : (rs.map ReplicaWriter.ordinal).Perm (rs'.map ReplicaWriter.ordinal)) :
    (rs.filter fun r => Survives op tasks r).length =
      (rs'.filter fun r => Survives op tasks r).length := by
  let p : Nat → Bool := fun k => decide ((tasks k).panics = false ∧ op.Succeeds (tasks k))
  have hcount : ∀ qs : List ReplicaWriter, (qs.filter fun r => Survives op tasks r).length =
      ((qs.map ReplicaWriter.ordinal).filter p).length := by
    intro qs
    rw [filter_map, length_map]
    rfl
  rw [hcount, hcount]
  exact (h.filter p).length_eq

namespace ActiveBlockWriter

/-- After the pending chunk of a flush that keeps its quorum, the replicas agree
and enough of them will take the flush. -/
theorem writeChunk_of_flushKeeps {a : ActiveBlockWriter} {tasks : Nat → Nat → TaskRun}
    {sent : Bytes} (hpos : 0 < a.minNeeded)
    (hagree : Agree a.blockId a.minNeeded sent a.replicas) (hpending : a.pendingChunk ≠ [])
    (h : FlushKeeps tasks a) :
    (a.writeChunk (tasks 0) a.pendingChunk).1 = .ok () ∧
      (a.parallel ∧ 1 < (a.writeChunk (tasks 0) a.pendingChunk).2.1.length →
        a.minNeeded ≤ ((a.writeChunk (tasks 0) a.pendingChunk).2.1.filter fun r =>
          Survives .flush (tasks 1) r).length) := by
  have hne : a.replicas ≠ [] := ne_nil_of_length_pos (Nat.lt_of_lt_of_le hpos hagree.enough)
  unfold FlushKeeps at h
  simp only [if_neg hpending] at h
  unfold writeChunk
  rw [if_neg hne]
  split at h
  case isTrue hpar =>
    have hboth : a.minNeeded ≤ ((a.replicas.filter fun r =>
        Survives (.write a.pendingChunk) (tasks 0) r).filter fun r =>
          Survives .flush (tasks 1) r).length := by
      rw [filter_filter]
      refine Nat.le_trans h (Nat.le_of_eq (congrArg length (filter_congr ?_)))
      intro r _
      simp [hpending, and_comm]
    have hsurvive := Nat.le_trans hboth (length_filter_le _ _)
    rw [if_pos hpar]
    refine ⟨(fanoutParallel_of_survivors hsurvive).1, fun _ => ?_⟩
    rw [length_filter_survives (fanoutParallel_of_survivors hsurvive).2]
    exact hboth
  case isFalse hpar =>
    obtain ⟨out, hout, hok⟩ := writeSequential_of_accepted (h.resolve_left hpending)
    rw [if_neg hpar, hok]
    refine ⟨rfl, fun hpar' => absurd ⟨hpar'.1, ?_⟩ hpar⟩
    exact hout.length_eq ▸ hpar'.2

end ActiveBlockWriter

namespace BlockM

variable {env : CacheEnv} {a : ActiveBlockWriter} {es : List CacheEvent}

/-- An explicit flush that keeps its quorum leaves a block whose replicas agree,
also when it fails. -/
theorem flush_sat {cur : Bytes} (hpos : 0 < a.minNeeded) {sent : Bytes}
    (hagree : Agree a.blockId a.minNeeded sent a.replicas) (hcur : sent ++ a.pendingChunk = cur)
    (h : FlushKeeps env.tasks a) :
    Sat (· = ⟨a, 0, es⟩) (do drainPending env; flushReplicas env)
      (fun _ => BlockIo.Sent a es AnyRequests cur [])
      (fun _ => BlockIo.Sent a es AnyRequests cur []) := by
  let R : PUnit → BlockIo → Prop := fun _ s => s.Sent a es AnyRequests cur [] ∧
    (s.active.parallel ∧ 1 < s.active.replicas.length → s.active.minNeeded ≤
      (s.active.replicas.filter fun r => Survives .flush (env.tasks s.ticks) r).length)
  have hdrain : Sat (· = ⟨a, 0, es⟩) (drainPending env) R (fun _ _ => False) := by
    refine Sat.get fun s hs => ?_
    subst hs
    refine Sat.bind (R := fun _ s => s = ⟨{ a with pendingChunk := [] }, 0, es⟩)
      (Sat.modify fun s hs => by rw [hs]) fun _ => ?_
    by_cases hnil : a.pendingChunk = []
    · rw [if_neg (not_not_intro hnil)]
      refine Sat.pure ?_
      rintro _ rfl
      rw [hnil, append_nil] at hcur
      refine ⟨⟨rfl, hcur ▸ hagree, fun _ _ => trivial, rfl, Extends.refl _⟩, fun hpar => ?_⟩
      unfold FlushKeeps at h
      simpa only [if_pos hpar, hnil, true_or, true_and, ↓reduceIte] using h
    · rw [if_pos hnil]
      obtain ⟨hok, hquorum⟩ := ActiveBlockWriter.writeChunk_of_flushKeeps hpos hagree hnil h
      refine Sat.step ?_ ?_
      · rintro _ _ rfl _
        exact ⟨⟨rfl, hcur ▸ writeChunk_ok hagree (Prod.ext hok rfl), fun _ _ => trivial, rfl,
          (Extends.refl _).append (perform_closedStreams _ (.write _) _)⟩, hquorum⟩
      · rintro _ e rfl herr
        exact absurd (hok.symm.trans herr) (by simp)
  refine Sat.bind (hdrain.post (fun _ _ h => h) fun _ _ h => h.elim) fun _ => ?_
  have hflush : ∀ s : BlockIo, R ⟨⟩ s → BlockIo.Sent a es AnyRequests cur []
      { active := { s.active with
          replicas := (s.active.flushReplicas (env.tasks s.ticks)).2.1 }
        ticks := s.ticks + 1
        events := s.events ++ (s.active.flushReplicas (env.tasks s.ticks)).2.2 } := by
    rintro s ⟨hs, hquorum⟩
    have hid := blockId_of_bare hs.same
    have hmin := minNeeded_of_bare hs.same
    have hkeep : Agree s.active.blockId s.active.minNeeded cur
        (s.active.flushReplicas (env.tasks s.ticks)).2.1 := by
      refine flushReplicas_of_quorum (hid ▸ hmin ▸ hs.agree) fun hpar => ?_
      unfold Quorum
      rw [if_pos hpar]
      exact hquorum hpar
    rw [hid, hmin] at hkeep
    exact ⟨hs.same, hkeep, fun _ _ => trivial, hs.pending,
      hs.log.append (perform_closedStreams _ .flush _)⟩
  exact Sat.step (fun s _ hs _ => hflush s hs) (fun s _ hs _ => hflush s hs)

end BlockM

/-! ## Opening a block -/

/-- The number of replicas required of a block opened from `alive` candidates. -/
def WriterSetup.requiredReplicas (setup : WriterSetup) (alive : Nat) : Nat :=
  match setup.plan with
  | .ok plan => (degradeReplicas setup.strategy.needAsyncPersist plan.initialReplicas
      plan.minNeededReplicas alive).2
  | .error _ => 0

def WriterSetup.blockId (setup : WriterSetup) (i : Nat) : Int64 :=
  computeBlockId (setup.fileId.getD 0) i

/-- `c'` differs from `c` in what opening streams changes: the counter and the
log. -/
structure CacheSide.Frame (c c' : CacheSide) : Prop where
  ids : c'.committedBlockIds = c.committedBlockIds
  current : c'.currentBlockWriter = c.currentBlockWriter
  blockOpened : c'.blockOpened = c.blockOpened
  log : Extends c.events c'.events

/-- Block `i` of the file is open and holds `cur`, sent in requests that meet `K`. -/
structure OpenBlock (setup : WriterSetup) (K : List WriteRequest → Prop)
    (events : List CacheEvent) (i : Nat) (cur : Bytes) (a : ActiveBlockWriter) : Prop where
  opened : ∃ alive, CacheEvent.opened (setup.blockId i) alive ∈ events ∧
    0 < setup.requiredReplicas alive ∧ a.minNeeded = setup.requiredReplicas alive
  blockId : a.blockId = setup.blockId i
  blockSize : a.blockSize = setup.blockSize
  bytesWritten : a.bytesWritten = cur.length
  fits : cur.length ≤ setup.blockSize
  holds : ∃ sent, Agree a.blockId a.minNeeded sent a.replicas ∧ sent ++ a.pendingChunk = cur
  requests : ∀ r ∈ a.replicas, K r.writer.sent
  short : a.pendingChunk.length < setup.config.chunkSize

namespace CacheM

variable {setup : WriterSetup} {env : CacheEnv} {c : CacheSide} {plan : ReplicaWritePlan}
  {K : List WriteRequest → Prop}

theorem Tried.frame {replies : List OpenReply} {c' : CacheSide} (h : Tried c replies c') :
    c.Frame c' := by
  obtain ⟨n, more, htrying, _, rfl⟩ := h
  refine ⟨rfl, rfl, rfl, more, rfl, filterMap_eq_nil_iff.mpr fun e he => ?_⟩
  cases e with
  | closed s => cases htrying _ he
  | _ => rfl

theorem agree_fresh {blockId : Int64} {minNeeded : Nat} {opened : List ReplicaWriter}
    (hlen : minNeeded ≤ opened.length)
    (h : ∀ r ∈ opened, r.writer = GrpcBlockWriter.openStream blockId) :
    Agree blockId minNeeded [] opened where
  enough := hlen
  received := fun r hr => by rw [h r hr]; rfl
  blockId := fun r hr => by rw [h r hr]; rfl

theorem requiredReplicas_eq (hplan : setup.plan = .ok plan) (alive : Nat) :
    setup.requiredReplicas alive =
      (degradeReplicas setup.strategy.needAsyncPersist plan.initialReplicas
        plan.minNeededReplicas alive).2 := by
  unfold WriterSetup.requiredReplicas
  rw [hplan]

theorem openBlock_frame {blockId : Int64} {e : Error} {c' : CacheSide}
    (h : openBlock setup env blockId plan c = .error e c') : c.Frame c' :=
  ((openBlock_spec blockId plan c).error rfl h).1.frame

theorem openBlock_sat (hnil : K []) (i : Nat) (hplan : setup.plan = .ok plan) :
    Sat (· = c) (openBlock setup env (setup.blockId i) plan)
      (fun a s => c.Frame s ∧ OpenBlock setup K s.events i [] a) (fun _ _ => True) := by
  refine (openBlock_spec (setup.blockId i) plan c).post ?_ fun _ _ _ => trivial
  rintro a _ ⟨c₁, pool, htried, hne, hfresh, rfl⟩
  have hframe := htried.frame
  obtain ⟨hinit, hmin, _⟩ := replicaWritePlan_pos hplan
  have hcounts : setup.requiredReplicas pool.length = (replicaCounts setup plan pool).2 :=
    requiredReplicas_eq hplan pool.length
  have hreq : 0 < setup.requiredReplicas pool.length := by
    rw [hcounts]
    exact (degradeReplicas_pos hinit hmin (length_pos_iff.mpr hne)).2.1
  refine ⟨⟨hframe.ids, hframe.current, hframe.blockOpened, hframe.log.append rfl⟩,
    ⟨pool.length, by simp, hreq, hfresh.minNeeded.trans hcounts.symm⟩, hfresh.blockId,
    hfresh.blockSize, hfresh.bytesWritten, Nat.zero_le _, ⟨[], ?_, hfresh.pendingChunk⟩,
    fun r hr => ?_, hfresh.pendingChunk ▸ setup.config.chunkSize_pos⟩
  · rw [hfresh.blockId, hfresh.minNeeded]
    exact agree_fresh hfresh.enough hfresh.streams
  · rw [hfresh.streams r hr]
    exact hnil

end CacheM

/-! ## Closed blocks -/

/-- A block of the file, the number of candidates it was opened from, and the
streams that were closed successfully for it. -/
structure ClosedBlock where
  content : Bytes
  alive : Nat
  streams : List GrpcBlockWriter

/-- The block was closed on at least the required number of replicas, and each
of them received exactly its bytes. -/
structure ClosedBlock.Replicated (setup : WriterSetup) (events : List CacheEvent) (i : Nat)
    (b : ClosedBlock) : Prop where
  opened : CacheEvent.opened (setup.blockId i) b.alive ∈ events
  required : 0 < setup.requiredReplicas b.alive
  enough : setup.requiredReplicas b.alive ≤ b.streams.length
  received : ∀ s ∈ b.streams, s.blockId = setup.blockId i ∧ s.received = b.content

/-- The streams closed are those of the blocks `done`. -/
structure BlockLog (setup : WriterSetup) (done : List ClosedBlock) (events : List CacheEvent) :
    Prop where
  closed : closedStreams events = done.flatMap ClosedBlock.streams
  replicated : ∀ (i : Nat) (b : ClosedBlock), done[i]? = some b → b.Replicated setup events i

/-- What was sent to the block ends with a flush or without. -/
def ClosedBlock.Ends (K : List WriteRequest → Prop) (chunkSize : Nat) (flushed : Bool)
    (b : ClosedBlock) : Prop :=
  ∀ st ∈ b.streams, EndsBlock K chunkSize flushed st.sent

theorem ClosedBlock.Replicated.mono {setup : WriterSetup} {events events' : List CacheEvent}
    {i : Nat} {b : ClosedBlock} (h : b.Replicated setup events i)
    (hmem : ∀ e ∈ events, e ∈ events') : b.Replicated setup events' i :=
  ⟨hmem _ h.opened, h.required, h.enough, h.received⟩

section BlockLog

variable {setup : WriterSetup} {done : List ClosedBlock} {events events' : List CacheEvent}

theorem BlockLog.extend (h : BlockLog setup done events) (hext : Extends events events') :
    BlockLog setup done events' where
  closed := hext.closedStreams.trans h.closed
  replicated := fun i b hb => (h.replicated i b hb).mono fun _ => hext.mem

theorem BlockLog.snoc (h : BlockLog setup done events) {b : ClosedBlock} {more : List CacheEvent}
    (hclosed : closedStreams more = b.streams)
    (hb : b.Replicated setup events done.length) :
    BlockLog setup (done ++ [b]) (events ++ more) where
  closed := by
    rw [closedStreams_append, h.closed, hclosed, flatMap_append]
    simp
  replicated := by
    intro i q hq
    have hmem : ∀ e ∈ events, e ∈ events ++ more := fun e he => mem_append_left _ he
    rcases getElem?_concat_eq_some hq with hq | ⟨rfl, rfl⟩
    · exact (h.replicated i q hq).mono hmem
    · exact hb.mono hmem

end BlockLog

namespace CacheM

variable {setup : WriterSetup} {env : CacheEnv} {done : List ClosedBlock} {cur : Bytes}
  {E : Error → CacheSide → Prop} {active : ActiveBlockWriter} {m : BlockM Unit}
  {K : List WriteRequest → Prop}

theorem onBlock_sat {P : CacheSide → Prop}
    {Q : Except Error Unit × ActiveBlockWriter → CacheSide → Prop}
    (h : ∀ s, P s → Sat (· = ⟨active, s.ticks, s.events⟩) m
      (fun _ b => Q (.ok (), b.active) { s with ticks := b.ticks, events := b.events })
      (fun e b => Q (.error e, b.active) { s with ticks := b.ticks, events := b.events })) :
    Sat P (onBlock active m) Q E := by
  intro s hs
  have hrun := h s hs _ rfl
  unfold onBlock
  cases hm : m ⟨active, s.ticks, s.events⟩ with
  | ok u b | error e b =>
    rw [hm] at hrun
    exact hrun

theorem workOnBlock_rule {s : CacheSide} {a : ActiveBlockWriter} {f : CacheM Unit}
    {R : CacheSide → Prop} {Q : Unit → CacheSide → Prop}
    (hm : Sat (· = ⟨a, s.ticks, s.events⟩) m
      (fun _ b => R { s with
        currentBlockWriter := some b.active, ticks := b.ticks, events := b.events })
      (fun e b => E e { s with
        currentBlockWriter := some b.active, ticks := b.ticks, events := b.events }))
    (hf : Sat R f Q E) : Sat (· = s)
      (do
        let out ← onBlock a m
        modify fun s => { s with currentBlockWriter := some out.2 }
        match out.1 with
        | .error e => throw e
        | .ok () => f)
      Q E := by
  let K : Except Error Unit → CacheSide → Prop
    | .ok _ => R
    | .error e => E e
  refine Sat.bind (R := fun out s' => K out.1 { s' with currentBlockWriter := some out.2 })
    (onBlock_sat ?_) fun out => ?_
  · rintro s rfl
    exact hm
  · refine Sat.bind (R := fun _ => K out.1) (Sat.modify fun _ h => h) fun _ => ?_
    obtain ⟨res, a'⟩ := out
    cases res with
    | error e => exact Sat.throw fun _ h => h
    | ok u => exact hf

structure Between (setup : WriterSetup) (done : List ClosedBlock) (n : Nat) (s : CacheSide) :
    Prop where
  log : BlockLog setup done s.events
  ids : s.committedBlockIds.length = n
  current : s.currentBlockWriter = none

/-- The block that held `cur` is closed, after the blocks `done`. -/
def ClosedNext (setup : WriterSetup) (K : List WriteRequest → Prop) (done : List ClosedBlock)
    (cur : Bytes) (flushed : Bool) (s : CacheSide) : Prop :=
  ∃ b : ClosedBlock, b.content = cur ∧ b.Ends K setup.config.chunkSize flushed ∧
    Between setup (done ++ [b]) (done.length + 1) s

theorem reportLocation_sat (loc : Option FileLocation) (commitLocation : Bool) (n : Nat) :
    Sat (Between setup done n) (reportLocation setup env loc commitLocation)
      (fun _ => Between setup done n) (fun _ _ => True) := by
  unfold reportLocation
  split
  · exact Sat.pure fun _ h => h
  · refine Sat.seq (Sat.modifyGet fun s h => ⟨h.log, h.ids, h.current⟩) fun t => ?_
    refine Sat.seq (Sat.modify fun s h =>
      ⟨h.log.extend ((Extends.refl _).append rfl), h.ids, h.current⟩) fun _ => ?_
    split
    · exact Sat.throw fun _ _ => trivial
    · exact Sat.pure fun _ h => h

theorem commitBlock_sat {alive : Nat} (blockOffset : Nat) (commitLocation : Bool)
    (hid : active.blockId = setup.blockId done.length)
    (hends : ∀ r ∈ active.replicas, EndsBlock K setup.config.chunkSize commitLocation r.writer.sent)
    (hagree : Agree active.blockId active.minNeeded cur active.replicas)
    (hreq : 0 < setup.requiredReplicas alive)
    (hneeded : active.minNeeded = setup.requiredReplicas alive) :
    Sat (fun s => Between setup done done.length s ∧
        CacheEvent.opened (setup.blockId done.length) alive ∈ s.events)
      (commitBlock setup env active blockOffset commitLocation)
      (fun _ => ClosedNext setup K done cur commitLocation) (fun _ _ => True) := by
  let b : ClosedBlock := ⟨cur, alive, active.replicas.map ReplicaWriter.writer⟩
  refine Sat.seq (Sat.modifyGet fun s h => ⟨⟨h.1.log, h.1.ids, h.1.current⟩, h.2⟩) fun t => ?_
  rcases hclose : active.closeReplicas (env.closeReply t) with ⟨closed, events⟩
  cases closed with
  | error e =>
    refine Sat.bind (R := fun _ _ => True) (Sat.modify fun _ _ => trivial) fun _ => ?_
    exact Sat.seq (Sat.modify fun _ _ => trivial) fun _ =>
      Sat.throw fun _ _ => trivial
  | ok u =>
    have hclosed : closedStreams events = b.streams := by
      have hall := (closeAll_spec _ _).2.1 (congrArg Prod.fst hclose)
      rwa [show closeAll _ _ = _ from hclose] at hall
    have hb : ∀ s : CacheSide, CacheEvent.opened (setup.blockId done.length) alive ∈ s.events →
        b.Replicated setup s.events done.length := by
      intro s hopened
      refine ⟨hopened, hreq, ?_, ?_⟩
      · rw [← hneeded]
        exact Nat.le_trans hagree.enough (Nat.le_of_eq (length_map _).symm)
      · intro w hw
        obtain ⟨r, hr, rfl⟩ := mem_map.mp hw
        exact ⟨(hagree.blockId r hr).trans hid, hagree.received r hr⟩
    refine Sat.bind (R := fun _ => Between setup (done ++ [b]) done.length)
      (Sat.modify fun s h => ⟨h.1.log.snoc hclosed (hb s h.2), h.1.ids, h.1.current⟩) fun _ => ?_
    refine Sat.bind (reportLocation_sat _ commitLocation done.length) fun _ => ?_
    refine Sat.bind (R := fun _ => Between setup (done ++ [b]) (done.length + 1))
      (Sat.modify fun s h => ⟨h.log, ?_, h.current⟩) fun _ => ?_
    · rw [length_append, h.ids]
      rfl
    · refine Sat.pure fun s h => ⟨b, rfl, fun st hst => ?_, h⟩
      obtain ⟨r, hr, rfl⟩ := mem_map.mp hst
      exact hends r hr

theorem closeCurrentBlock_sat (done : List ClosedBlock) (commitLocation : Bool) (hcur : cur ≠ []) :
    Sat (fun s => BlockLog setup done s.events ∧ s.committedBlockIds.length = done.length ∧
        ∃ a, s.currentBlockWriter = some a ∧ OpenBlock setup K s.events done.length cur a)
      (closeCurrentBlock setup env commitLocation)
      (fun _ => ClosedNext setup K done cur commitLocation) (fun _ _ => True) := by
  refine Sat.get fun s hs => ?_
  obtain ⟨hlog, hids, a, ha, hopen⟩ := hs
  obtain ⟨alive, hmem, hreq, hneeded⟩ := hopen.opened
  obtain ⟨sent, hagree, hcontent⟩ := hopen.holds
  have hpos : 0 < a.bytesWritten := by
    rw [hopen.bytesWritten]
    exact length_pos_iff.mpr hcur
  rw [ha]
  refine Sat.set_bind ?_
  rw [if_pos hpos]
  let R : Except Error Unit × ActiveBlockWriter → CacheSide → Prop := fun out s' =>
    out.1 = .ok () → ∃ io : BlockIo, io.active = out.2 ∧
      io.Sent a s.events (EndsBlock K setup.config.chunkSize commitLocation) cur [] ∧
      s' = { s with currentBlockWriter := none, ticks := io.ticks, events := io.events }
  refine Sat.bind (R := R) (onBlock_sat ?_) fun out => ?_
  · rintro _ rfl
    have hdrain : Sat (BlockIo.Holds a s.events K setup.config.chunkSize cur)
        (BlockM.drainPending env) _ _ := BlockM.drainPending_sat cur
    refine Sat.bind (hdrain.mono ?_ (fun _ _ h => h) (fun _ _ _ h => by cases h)) fun _ => ?_
    · rintro _ rfl
      exact ⟨sent, a.pendingChunk, hcontent, hopen.short, rfl, hagree, hopen.requests, rfl,
        Extends.refl _⟩
    · cases commitLocation with
      | true =>
        exact (BlockM.flushReplicas_sat fun _ h => h.flush).post
          (fun _ io hio _ => ⟨io, rfl, hio, rfl⟩) fun _ _ _ h => by cases h
      | false => exact Sat.pure fun io hio _ => ⟨io, rfl, hio, rfl⟩
  · obtain ⟨res, a'⟩ := out
    cases res with
    | error e =>
      exact Sat.bind (R := fun _ _ => True) (Sat.modify fun _ _ => trivial) fun _ =>
        Sat.throw fun _ _ => trivial
    | ok u =>
      refine Sat.of_forall fun s' hs' => ?_
      obtain ⟨io, rfl, hio, rfl⟩ := hs' rfl
      have hid := blockId_of_bare hio.same
      have hmin := minNeeded_of_bare hio.same
      exact (commitBlock_sat _ commitLocation (hid.trans hopen.blockId) hio.requests
        (hid ▸ hmin ▸ hio.agree) hreq (hmin.trans hneeded)).fixed
        ⟨⟨hlog.extend hio.log, hids, rfl⟩, hio.log.mem hmem⟩

end CacheM

/-! ## The file so far -/

/-- The blocks `done` are closed and full, and the open block holds `cur`. -/
structure Stored (setup : WriterSetup) (K : List WriteRequest → Prop) (done : List ClosedBlock)
    (cur : Bytes) (c : CacheSide) : Prop where
  log : BlockLog setup done c.events
  ids : c.committedBlockIds.length = done.length
  full : ∀ b ∈ done, b.content.length = setup.blockSize
  ended : ∀ b ∈ done, b.Ends K setup.config.chunkSize true
  current : (c.currentBlockWriter = none ∧ cur = []) ∨
    ∃ a, c.currentBlockWriter = some a ∧ OpenBlock setup K c.events done.length cur a

/-- The cache side holds `content`, cut into blocks.  Between two calls the open block
has a byte, unless it is the first one. -/
def Holding (setup : WriterSetup) (K : List WriteRequest → Prop) (content : Bytes)
    (c : CacheSide) : Prop :=
  ∃ done cur, Stored setup K done cur c ∧ (done ≠ [] → cur ≠ []) ∧
    done.flatMap ClosedBlock.content ++ cur = content

section Stored

variable {setup : WriterSetup} {done : List ClosedBlock} {cur : Bytes} {a : ActiveBlockWriter}
  {c : CacheSide} {events : List CacheEvent} {base : ActiveBlockWriter} {cur' : Bytes} {i : Nat}
  {s : BlockIo} {K : List WriteRequest → Prop}

theorem BlockIo.Holds.log {es : List CacheEvent} {content : Bytes} {chunkSize : Nat}
    (h : s.Holds base es K chunkSize content) : Extends es s.events := by
  obtain ⟨_, _, _, _, hsent⟩ := h
  exact hsent.log

theorem OpenBlock.of_holds {K' : List WriteRequest → Prop} (h : OpenBlock setup K events i cur a)
    (hs : s.Holds base events K' setup.config.chunkSize cur')
    (hbase : base.bare = { a.bare with bytesWritten := cur'.length })
    (hfits : cur'.length ≤ setup.blockSize) : OpenBlock setup K' s.events i cur' s.active := by
  obtain ⟨sent, pending, hcontent, hshort, hsent⟩ := hs
  obtain ⟨alive, hmem, hreq, hneeded⟩ := h.opened
  have hsame := hsent.same.trans hbase
  have hid : s.active.blockId = a.blockId := (congrArg ActiveBlockWriter.blockId hsame :)
  have hmin : s.active.minNeeded = a.minNeeded := (congrArg minNeeded hsame :)
  exact
    { opened := ⟨alive, hsent.log.mem hmem, hreq, hmin.trans hneeded⟩
      blockId := hid.trans h.blockId
      blockSize := (congrArg ActiveBlockWriter.blockSize hsame :).trans h.blockSize
      bytesWritten := (congrArg ActiveBlockWriter.bytesWritten hsame :)
      fits := hfits
      holds := ⟨sent, blockId_of_bare hsent.same ▸ minNeeded_of_bare hsent.same ▸ hsent.agree,
        hsent.pending ▸ hcontent⟩
      requests := hsent.requests
      short := hsent.pending ▸ hshort }

variable (h : Stored setup K done cur c)
include h

theorem Stored.withCurrent {ticks : Nat} (hext : Extends c.events events)
    (ha : OpenBlock setup K events done.length cur' a) : Stored setup K done cur' { c with
      currentBlockWriter := some a, ticks := ticks, events := events } :=
  ⟨h.log.extend hext, h.ids, h.full, h.ended, .inr ⟨a, rfl, ha⟩⟩

theorem Stored.openBlock (ha : c.currentBlockWriter = some a) :
    OpenBlock setup K c.events done.length cur a := by
  rcases h.current with ⟨hnone, _⟩ | ⟨a', ha', hopen⟩
  · cases hnone.symm.trans ha
  · exact Option.some.inj (ha'.symm.trans ha) ▸ hopen

theorem Stored.fits : cur.length ≤ setup.blockSize := by
  rcases h.current with ⟨_, rfl⟩ | ⟨a, _, ha⟩
  · exact Nat.zero_le _
  · exact ha.fits

theorem Stored.flushed {b : BlockIo} (ha : c.currentBlockWriter = some a)
    (hb : b.Sent a c.events K cur []) : Stored setup K done cur { c with
      currentBlockWriter := some b.active, ticks := b.ticks, events := b.events } := by
  have hopen := h.openBlock ha
  have hholds : b.Holds a c.events K setup.config.chunkSize cur :=
    ⟨cur, [], append_nil _, setup.config.chunkSize_pos, hb⟩
  exact h.withCurrent hb.log (hopen.of_holds hholds (hopen.bytesWritten ▸ rfl) hopen.fits)

end Stored

namespace CacheM

variable {setup : WriterSetup} {env : CacheEnv} {done : List ClosedBlock} {cur content : Bytes}
  {K : List WriteRequest → Prop}

theorem closeFullBlock_sat (done : List ClosedBlock) (cur : Bytes) (hbs : 0 < setup.blockSize) :
    Sat (fun s => Stored setup K done cur s ∧
        (s.currentBlockWriter ≠ none → cur.length = setup.blockSize))
      (closeFullBlock setup env)
      (fun _ s => ∃ done', Stored setup K done' [] s ∧ s.currentBlockWriter = none ∧
        done'.flatMap ClosedBlock.content = done.flatMap ClosedBlock.content ++ cur)
      (fun _ _ => True) := by
  refine Sat.get fun s hs => ?_
  obtain ⟨hstored, hfull⟩ := hs
  rcases hstored.current with ⟨hnone, hcur⟩ | ⟨a, ha, hopen⟩
  · rw [hnone]
    refine Sat.pure ?_
    rintro _ rfl
    subst hcur
    exact ⟨done, hstored, hnone, (append_nil _).symm⟩
  · rw [ha]
    have hlen := hfull (by rw [ha]; simp)
    have hne : cur ≠ [] := ne_nil_of_length_pos (by omega)
    refine Sat.bind (R := fun _ => ClosedNext setup K done cur true) ?_ fun _ => Sat.pure ?_
    · exact (closeCurrentBlock_sat done true hne).fixed ⟨hstored.log, hstored.ids, a, ha, hopen⟩
    · rintro s' ⟨b, rfl, hends, hb⟩
      have hdone : ∀ {P : ClosedBlock → Prop}, (∀ q ∈ done, P q) → P b → ∀ q ∈ done ++ [b], P q :=
        fun hP hPb q hq => (mem_append.mp hq).elim (hP q) fun h => mem_singleton.mp h ▸ hPb
      refine ⟨done ++ [b], ⟨hb.log, ?_, hdone hstored.full hlen, hdone hstored.ended hends,
        .inl ⟨hb.current, rfl⟩⟩, hb.current, by simp⟩
      rw [hb.ids, length_append]
      rfl

variable (hK : Accumulates setup.config.chunkSize K) (hbs : 0 < setup.blockSize)
include hK hbs

theorem openNextBlock_sat (done : List ClosedBlock) (cur : Bytes) :
    Sat (fun s => Stored setup K done cur s ∧
        (s.currentBlockWriter ≠ none → cur.length = setup.blockSize))
      (openNextBlock setup env)
      (fun _ s => ∃ done', Stored setup K done' [] s ∧ s.currentBlockWriter ≠ none ∧
        done'.flatMap ClosedBlock.content = done.flatMap ClosedBlock.content ++ cur)
      (fun _ _ => True) := by
  refine Sat.bind (closeFullBlock_sat done cur hbs) fun _ => Sat.get fun c hc => ?_
  obtain ⟨done', hstored, hnone, hcontent⟩ := hc
  cases hplan : setup.plan with
  | error e => exact Sat.throw fun _ _ => trivial
  | ok plan =>
    rw [hstored.ids]
    refine Sat.bind (openBlock_sat hK.nil done'.length hplan) fun a => Sat.modify ?_
    · rintro s ⟨hframe, hopen⟩
      refine ⟨done', ⟨hstored.log.extend hframe.log, ?_, hstored.full, hstored.ended,
        .inr ⟨a, rfl, hopen⟩⟩, by simp, hcontent⟩
      rw [show s.committedBlockIds = _ from hframe.ids, hstored.ids]

theorem ensureBlock_sat : Sat (Holding setup K content) (ensureBlock setup env)
      (fun _ s => ∃ done cur, Stored setup K done cur s ∧ s.currentBlockWriter ≠ none ∧
        cur.length < setup.blockSize ∧ done.flatMap ClosedBlock.content ++ cur = content)
      (fun _ _ => True) := by
  refine Sat.get fun s hs => ?_
  obtain ⟨done, cur, hstored, _, rfl⟩ := hs
  have hnext : (s.currentBlockWriter ≠ none → cur.length = setup.blockSize) →
      Sat (· = s) (openNextBlock setup env)
        (fun _ s => ∃ done' cur', Stored setup K done' cur' s ∧ s.currentBlockWriter ≠ none ∧
          cur'.length < setup.blockSize ∧ done'.flatMap ClosedBlock.content ++ cur' =
            done.flatMap ClosedBlock.content ++ cur) (fun _ _ => True) := by
    intro hfull
    refine (openNextBlock_sat hK hbs done cur).mono (fun _ h => h ▸ ⟨hstored, hfull⟩) ?_
      fun _ _ h => h
    rintro _ s' ⟨done', hstored', hsome, hcontent⟩
    exact ⟨done', [], hstored', hsome, hbs, by rw [append_nil, hcontent]⟩
  rcases hstored.current with ⟨hnone, hcur⟩ | ⟨a, ha, hopen⟩
  · rw [hnone]
    exact hnext fun h => absurd hnone h
  · rw [ha]
    have hremaining : a.remaining = setup.blockSize - cur.length := by
      unfold remaining
      rw [hopen.blockSize, hopen.bytesWritten]
    have hfits := hopen.fits
    show Sat _ (if decide (a.remaining = 0) = true then _ else _) _ _
    by_cases hzero : a.remaining = 0
    · rw [if_pos (decide_eq_true hzero)]
      exact hnext fun _ => by omega
    · rw [if_neg (by simpa using hzero)]
      refine Sat.pure ?_
      rintro _ rfl
      exact ⟨done, cur, hstored, by rw [ha]; simp, by omega, rfl⟩

theorem writeLoop_sat : ∀ (fuel : Nat) (data content : Bytes), data.length ≤ fuel →
    Sat (Holding setup K content) (writeLoop setup env fuel data)
      (fun _ => Holding setup K (content ++ data)) (fun _ _ => True) := by
  intro fuel
  induction fuel with
  | zero =>
    intro data content hlen
    rw [length_eq_zero_iff.mp (Nat.le_zero.mp hlen), append_nil]
    exact Sat.pure fun _ h => h
  | succ fuel ih =>
    intro data content hlen
    rw [writeLoop]
    split
    case isTrue hnil =>
      rw [hnil, append_nil]
      exact Sat.pure fun _ h => h
    case isFalse hne =>
      refine Sat.bind (ensureBlock_sat hK hbs) fun _ => Sat.get fun s hs => ?_
      obtain ⟨done, cur, hstored, hsome, hroom, rfl⟩ := hs
      rcases hstored.current with ⟨hnone, _⟩ | ⟨a, ha, hopen⟩
      · exact absurd hnone hsome
      rw [ha]
      have hpos : 0 < data.length := length_pos_iff.mpr hne
      have hremaining : a.remaining = setup.blockSize - cur.length := by
        unfold remaining
        rw [hopen.blockSize, hopen.bytesWritten]
      generalize hn : min a.remaining data.length = n
      simp only [hn]
      have hlength : (cur ++ data.take n).length = cur.length + n := by
        rw [length_append, length_take]
        omega
      -- the block after its part of the data
      let base : ActiveBlockWriter := { a with bytesWritten := a.bytesWritten + n }
      have hbase : base.bare = { a.bare with bytesWritten := (cur ++ data.take n).length } := by
        rw [hlength, ← hopen.bytesWritten]
        rfl
      refine workOnBlock_rule (R := Stored setup K done (cur ++ data.take n)) ?_ ?_
      · obtain ⟨sent, hagree, hcontent⟩ := hopen.holds
        have hemit : Sat (BlockIo.Holds base s.events K setup.config.chunkSize cur)
            (emitAlignedChunks env (data.take n) setup.config.chunkSize) _ _ :=
          BlockM.emitAlignedChunks_sat hK setup.config.chunkSize_pos (data.take n) cur
        refine hemit.mono ?_ (fun _ b hb => ?_) fun _ _ _ => trivial
        · rintro _ rfl
          exact ⟨sent, a.pendingChunk, hcontent, hopen.short, rfl, hagree, hopen.requests, rfl,
            Extends.refl _⟩
        · exact hstored.withCurrent hb.log (hopen.of_holds hb hbase (by omega))
      · have hrest : (data.drop n).length ≤ fuel := by
          rw [length_drop]
          omega
        refine (ih (data.drop n) _ hrest).mono
          (fun s' hs' => ⟨done, cur ++ data.take n, hs', fun _ => ?_, rfl⟩) ?_ fun _ _ h => h
        · exact ne_nil_of_length_pos (by omega)
        · intro _ s' hs'
          simpa only [append_assoc, take_append_drop] using hs'

omit hK hbs

theorem flushBlock_rule {P Q : CacheSide → Prop} {E : Error → CacheSide → Prop}
    (hidle : ∀ s, P s → Q s)
    (hflush : ∀ s a, P s → s.currentBlockWriter = some a → 0 < a.bytesWritten →
      Sat (· = ⟨a, s.ticks, s.events⟩)
        (do BlockM.drainPending env; BlockM.flushReplicas env)
        (fun _ b => Q { s with
          currentBlockWriter := some b.active, ticks := b.ticks, events := b.events })
        (fun e b => E e { s with
          currentBlockWriter := some b.active, ticks := b.ticks, events := b.events })) :
    Sat P (flushBlock env) (fun _ => Q) E := by
  refine Sat.get fun s hs => ?_
  cases ha : s.currentBlockWriter with
  | none => exact Sat.pure fun _ h => h ▸ hidle s hs
  | some a =>
    by_cases hpos : 0 < a.bytesWritten
    · simp only [if_pos hpos]
      exact workOnBlock_rule (hflush s a hs ha hpos) (Sat.pure fun _ h => h)
    · simp only [if_neg hpos]
      exact Sat.pure fun _ h => h ▸ hidle s hs

/-- An explicit flush that keeps enough replicas changes nothing about the file,
also when it fails. -/
theorem flushBlock_keeps : Sat
    (fun s => Holding setup AnyRequests content s ∧ s.ticks = 0 ∧
      ∀ a, s.currentBlockWriter = some a → 0 < a.bytesWritten → FlushKeeps env.tasks a)
    (flushBlock env) (fun _ => Holding setup AnyRequests content)
    (fun _ => Holding setup AnyRequests content) := by
  refine flushBlock_rule (fun _ hs => hs.1) fun s a hs ha hpos => ?_
  obtain ⟨⟨done, cur, hstored, hbegun, rfl⟩, hticks, hkeeps⟩ := hs
  have hopen := hstored.openBlock ha
  obtain ⟨sent, hagree, hcontent⟩ := hopen.holds
  obtain ⟨alive, _, hreq, hneeded⟩ := hopen.opened
  rw [hticks]
  exact (BlockM.flush_sat (hneeded ▸ hreq) hagree hcontent (hkeeps a ha hpos)).post
    (fun _ _ hb => ⟨done, cur, hstored.flushed ha hb, hbegun, rfl⟩)
    fun _ _ hb => ⟨done, cur, hstored.flushed ha hb, hbegun, rfl⟩

theorem flushBlock_sat (hflush : ∀ reqs, EndsBlock K setup.config.chunkSize true reqs → K reqs) :
    Sat (Holding setup K content) (flushBlock env) (fun _ => Holding setup K content)
      (fun _ _ => True) := by
  refine flushBlock_rule (fun _ hs => hs) fun s a hs ha hpos => ?_
  obtain ⟨done, cur, hstored, hbegun, rfl⟩ := hs
  have hopen := hstored.openBlock ha
  obtain ⟨sent, hagree, hcontent⟩ := hopen.holds
  have hdrain : Sat (BlockIo.Holds a s.events K setup.config.chunkSize cur)
      (BlockM.drainPending env) _ _ := BlockM.drainPending_sat cur
  refine Sat.bind (hdrain.mono ?_ (fun _ _ h => h) fun _ _ _ => trivial) fun _ => ?_
  · rintro _ rfl
    exact ⟨sent, a.pendingChunk, hcontent, hopen.short, rfl, hagree, hopen.requests, rfl,
      Extends.refl _⟩
  · exact (BlockM.flushReplicas_sat fun reqs h => hflush _ h.flush).post
      (fun _ _ hb => ⟨done, cur, hstored.flushed ha hb, hbegun, rfl⟩) fun _ _ _ => trivial

theorem closeLastBlock_sat (done : List ClosedBlock) (cur : Bytes) (commitLocation : Bool) :
    Sat (Stored setup K done cur) (closeCurrentBlock setup env commitLocation)
      (fun _ s => ∃ last : List ClosedBlock, BlockLog setup (done ++ last) s.events ∧
        last.map ClosedBlock.content = (if cur = [] then [] else [cur]) ∧
        ∀ b ∈ last, b.Ends K setup.config.chunkSize commitLocation)
      (fun _ _ => True) := by
  by_cases hcur : cur = []
  · refine Sat.get fun s hs => ?_
    rw [if_pos hcur]
    have hlog : BlockLog setup (done ++ []) s.events := by
      rw [append_nil]
      exact hs.log
    have hlast : ∀ b ∈ ([] : List ClosedBlock), b.Ends K setup.config.chunkSize commitLocation :=
      fun _ h => by cases h
    rcases hs.current with ⟨hnone, _⟩ | ⟨a, ha, hopen⟩
    · rw [hnone]
      exact Sat.pure fun _ h => h ▸ ⟨[], hlog, rfl, hlast⟩
    · have hzero : ¬0 < a.bytesWritten := by
        rw [hopen.bytesWritten, hcur]
        exact Nat.lt_irrefl 0
      rw [ha]
      refine Sat.bind (R := fun _ s' => s'.events = s.events) (Sat.set fun _ _ => rfl) fun _ => ?_
      simp only [if_neg hzero]
      refine Sat.bind (R := fun _ s' => BlockLog setup (done ++ []) s'.events)
        (Sat.modify fun s' hs' => ?_) fun _ => Sat.pure fun s' hs' => ⟨[], hs', rfl, hlast⟩
      refine hlog.extend ?_
      rw [show s'.events = _ from hs']
      exact (Extends.refl _).append (closedStreams_map_cancelled _ _)
  · rw [if_neg hcur]
    refine (closeCurrentBlock_sat (K := K) done commitLocation hcur).mono ?_ ?_ fun _ _ h => h
    · intro s hs
      rcases hs.current with ⟨_, hnil⟩ | hopen
      · exact absurd hnil hcur
      · exact ⟨hs.log, hs.ids, hopen⟩
    · rintro _ s ⟨b, hb, hends, hbetween⟩
      exact ⟨[b], hbetween.log, by rw [map_singleton, hb], fun q hq => mem_singleton.mp hq ▸ hends⟩

end CacheM

end GooseFS
