import Mathlib.Data.List.Sort
import GooseFS.IO.BlockWriter

/-!
# Replicated block writes

The replica plan of a cache block, and the operations on the set of streams an
open block is written through.  With more than one replica in an ASYNC_THROUGH
write each operation is a fan-out: the replicas that fail are cancelled and
leave the set, and the operation fails once fewer than `minNeeded` are left.
Otherwise the replicas are served one after the other and the first failure
fails the operation.

A fan-out waits for its tasks in the order in which they finish.  That order is
`TaskRun.rank`, and `TaskRun.beforeAbort` says whether a task had finished when
the remaining ones were aborted.
-/

namespace GooseFS

open List

structure WorkerNetAddress where
  host : Option String
  rpcPort : Option Int32
  deriving DecidableEq, Repr

def rpcEndpoint (addr : WorkerNetAddress) : String :=
  addr.host.getD "127.0.0.1" ++ ":" ++ toString (addr.rpcPort.getD 9203)

/-- `persistSpace` is the outcome of the watermark test of
`worker_has_persist_space`, which is floating-point arithmetic on the reported
capacity. -/
structure WorkerInfo where
  id : Option Int
  address : Option WorkerNetAddress
  forbidWrite : Option Bool
  persistSpace : Bool
  deriving DecidableEq, Repr

/-! ## Planning -/

structure ReplicaWritePlan where
  initialReplicas : Nat
  minNeededReplicas : Nat
  maxRetryNode : Nat
  deriving DecidableEq, Repr

def replicaWritePlan (asyncThrough : Bool) (replicationNumber replicationDurable
    replicationDurableMin writeMaxNodeRetry : Int) : Except Error ReplicaWritePlan :=
  let replicationNumber := max replicationNumber 1
  let replicationDurable := max replicationDurable 1
  let replicationDurableMin := max replicationDurableMin 1
  let writeMaxNodeRetry := max writeMaxNodeRetry 1
  let initial := if asyncThrough ∧ replicationNumber < replicationDurable then replicationDurable
    else replicationNumber
  let minNeeded := if asyncThrough then replicationDurableMin else initial
  if asyncThrough ∧ initial < minNeeded then
    .error (.invalidArgument
      "min durable replicas can not be satisfied in ASYNC_THROUGH scenario")
  else .ok ⟨initial.toNat, minNeeded.toNat, (max initial writeMaxNodeRetry).toNat⟩

def filterNoSpaceWorkers (workers : List WorkerInfo) (allowFallback : Bool) (minNeeded : Nat) :
    List WorkerInfo :=
  let available := workers.filter fun w => !w.forbidWrite.getD false
  let hasSpace := available.filter fun w => w.persistSpace
  if allowFallback ∧ hasSpace.length < minNeeded then available else hasSpace

def degradeReplicas (asyncThrough : Bool) (initial minNeeded alive : Nat) : Nat × Nat :=
  if alive < initial then (alive, if asyncThrough then minNeeded else alive)
  else (initial, minNeeded)

def shouldAbortRemaining (failures writerSize minNeeded : Nat) : Bool :=
  writerSize - minNeeded < failures

def enoughReplicas (success minNeeded : Nat) : Bool := minNeeded ≤ success

variable {asyncThrough : Bool} {e : Error} {op : ReplicaOp} {r r' : ReplicaWriter} {α : Type}

theorem replicaWritePlan_pos {number durable durableMin retry : Int} {plan : ReplicaWritePlan}
    (h : replicaWritePlan asyncThrough number durable durableMin retry = .ok plan) :
    0 < plan.initialReplicas ∧ 0 < plan.minNeededReplicas ∧
      (asyncThrough = true → plan.minNeededReplicas = (max durableMin 1).toNat) := by
  unfold replicaWritePlan at h
  simp only at h
  generalize hinit : (if asyncThrough = true ∧ max number 1 < max durable 1 then max durable 1
    else max number 1) = initial at h
  have hpos : 1 ≤ initial := by
    rw [← hinit]
    split <;> omega
  cases asyncThrough with
  | true =>
    simp only [if_true, true_and] at h
    split at h
    · cases h
    · cases h
      exact ⟨by simp only; omega, by simp only; omega, fun _ => rfl⟩
  | false =>
    simp only [Bool.false_eq_true, false_and, if_false, Except.ok.injEq] at h
    subst h
    exact ⟨by simp only; omega, by simp only; omega, fun h => by cases h⟩

/-- Degrading never asks for fewer than one replica of a non-empty pool, and
leaves the minimum of ASYNC_THROUGH alone. -/
theorem degradeReplicas_pos {initial minNeeded alive : Nat} (hi : 0 < initial) (hm : 0 < minNeeded)
    (ha : 0 < alive) : 0 < (degradeReplicas asyncThrough initial minNeeded alive).1 ∧
      0 < (degradeReplicas asyncThrough initial minNeeded alive).2 ∧
      (asyncThrough = true →
        (degradeReplicas asyncThrough initial minNeeded alive).2 = minNeeded) := by
  unfold degradeReplicas
  split
  · cases asyncThrough with
    | true => exact ⟨ha, hm, fun _ => rfl⟩
    | false => exact ⟨ha, ha, fun h => by cases h⟩
  · exact ⟨hi, hm, fun _ => rfl⟩

structure FileLocation where
  blockId : Int64
  offset : Nat
  length : Nat
  workerId : List Int
  deriving DecidableEq, Repr

/-- What the writer does to workers, streams and block locations on the cache side, in
order.  A stream that is `dropped` was neither closed nor cancelled. -/
inductive CacheEvent where
  | opened (blockId : Int64) (alive : Nat)
  | closed (s : GrpcBlockWriter)
  | closeFailed (s : GrpcBlockWriter)
  | cancelled (s : GrpcBlockWriter)
  | dropped (s : GrpcBlockWriter)
  | markFailed (addr : WorkerNetAddress)
  | invalidate (workerAddr : String)
  | clearFailed
  | commitLocation (loc : FileLocation) (err : Option Error)
  deriving DecidableEq, Repr

def CacheEvent.closed? : CacheEvent → Option GrpcBlockWriter
  | .closed s => some s
  | _ => none

def closedStreams (events : List CacheEvent) : List GrpcBlockWriter :=
  events.filterMap CacheEvent.closed?

@[simp] theorem closedStreams_append (a b : List CacheEvent) :
    closedStreams (a ++ b) = closedStreams a ++ closedStreams b := filterMap_append

def CacheEvent.isDrop : CacheEvent → Bool
  | .cancelled _ => true
  | .dropped _ => true
  | _ => false

theorem closedStreams_of_drops {events : List CacheEvent} (h : ∀ e ∈ events, e.isDrop = true) :
    closedStreams events = [] := by
  refine filterMap_eq_nil_iff.mpr fun e he => ?_
  cases e with
  | closed s => cases h _ he
  | _ => rfl

theorem isDrop_of_mem_cancelled {f : α → GrpcBlockWriter} {xs : List α} {e : CacheEvent}
    (h : e ∈ xs.map fun x => CacheEvent.cancelled (f x)) : e.isDrop = true := by
  obtain ⟨x, _, rfl⟩ := mem_map.mp h
  rfl

@[simp] theorem closedStreams_map_cancelled (f : α → GrpcBlockWriter) (xs : List α) :
    closedStreams (xs.map fun x => .cancelled (f x)) = [] :=
  closedStreams_of_drops fun _ => isDrop_of_mem_cancelled

/-! ## Operations on the replicas of a block -/

structure ReplicaWriter where
  ordinal : Nat
  writer : GrpcBlockWriter
  workerId : Int
  workerAddr : String
  netAddress : WorkerNetAddress
  deriving DecidableEq, Repr

inductive ReplicaOp where
  | write (data : Bytes)
  | flush
  deriving DecidableEq, Repr

structure TaskRun where
  sendAccepted : Bool
  flushReply : FlushReply
  panics : Bool
  rank : Nat
  beforeAbort : Bool
  deriving DecidableEq, Repr

namespace ReplicaOp

def payload : ReplicaOp → Bytes
  | .write data => data
  | .flush => []

def apply (op : ReplicaOp) (run : TaskRun) (r : ReplicaWriter) :
    Except Error Unit × ReplicaWriter :=
  match op with
  | .write data =>
    let out := r.writer.writeChunk run.sendAccepted data
    (out.1, { r with writer := out.2 })
  | .flush =>
    let out := r.writer.flush run.flushReply
    (out.1.map fun _ => (), { r with writer := out.2 })

def Succeeds (op : ReplicaOp) (run : TaskRun) : Prop :=
  match op with
  | .write _ => run.sendAccepted = true
  | .flush => ∃ offset, run.flushReply = .ack offset

instance (op : ReplicaOp) (run : TaskRun) : Decidable (op.Succeeds run) :=
  match op with
  | .write _ => inferInstanceAs (Decidable (_ = true))
  | .flush =>
    match h : run.flushReply with
    | .ack offset => isTrue ⟨offset, h⟩
    | .channelClosed => isFalse (by rintro ⟨o, ho⟩; rw [h] at ho; cases ho)
    | .failed _ => isFalse (by rintro ⟨o, ho⟩; rw [h] at ho; cases ho)
    | .ended => isFalse (by rintro ⟨o, ho⟩; rw [h] at ho; cases ho)

theorem apply_cases (op : ReplicaOp) (run : TaskRun) (r : ReplicaWriter) :
    (op.Succeeds run ∧ (op.apply run r).1 = .ok () ∧
        (op.apply run r).2.writer.received = r.writer.received ++ op.payload ∧
        (op.apply run r).2.writer.blockId = r.writer.blockId) ∨
      (¬ op.Succeeds run ∧ ∃ e, (op.apply run r).1 = .error e) := by
  cases op with
  | write data =>
    rcases r.writer.writeChunk_cases run.sendAccepted data with
      ⟨hacc, w', hw', hid, hrecv⟩ | ⟨hacc, e, he⟩
    · refine .inl ⟨hacc, ?_, ?_, ?_⟩
      · simp only [apply, hw']
      · simp only [apply, hw']
        exact hrecv
      · simp only [apply, hw']
        exact hid
    · exact .inr ⟨by simp [Succeeds, hacc], e, by simp only [apply, he]⟩
  | flush =>
    obtain ⟨hid, hrecv⟩ := r.writer.flush_keeps run.flushReply
    cases hreply : run.flushReply with
    | ack offset =>
      rw [hreply] at hid hrecv
      refine .inl ⟨⟨offset, hreply⟩, ?_, ?_, ?_⟩
      · simp only [apply, hreply]
        rfl
      · simp only [apply, hreply]
        exact hrecv.trans (append_nil _).symm
      · simp only [apply, hreply]
        exact hid
    | channelClosed | failed code
    | ended => exact .inr ⟨by simp [Succeeds, hreply], _, by simp only [apply, hreply]; rfl⟩

end ReplicaOp

structure Joins where
  kept : List ReplicaWriter
  failures : Nat
  aborted : Bool
  events : List CacheEvent
  deriving DecidableEq, Repr

def Survives (op : ReplicaOp) (tasks : Nat → TaskRun) (r : ReplicaWriter) : Prop :=
  (tasks r.ordinal).panics = false ∧ op.Succeeds (tasks r.ordinal)

instance (op : ReplicaOp) (tasks : Nat → TaskRun) (r : ReplicaWriter) :
    Decidable (Survives op tasks r) := inferInstanceAs (Decidable (_ ∧ _))

namespace Joins

/-- A failed task, and the abort of the remaining ones once too many failed. -/
def fail (j : Joins) (writerSize minNeeded : Nat) (event : CacheEvent) : Joins :=
  { j with
    failures := j.failures + 1
    aborted := j.aborted || shouldAbortRemaining (j.failures + 1) writerSize minNeeded
    events := j.events ++ [event] }

def join (op : ReplicaOp) (tasks : Nat → TaskRun) (writerSize minNeeded : Nat) (j : Joins)
    (r : ReplicaWriter) : Joins :=
  let run := tasks r.ordinal
  if (j.aborted ∧ ¬ run.beforeAbort) ∨ run.panics then
    j.fail writerSize minNeeded (.dropped r.writer)
  else
    match op.apply run r with
    | (.ok (), r') => { j with kept := j.kept ++ [r'] }
    | (.error _, r') => j.fail writerSize minNeeded (.cancelled r'.writer)

end Joins

/-- `fanout_parallel`: the outcome, the replicas left, and what was done to the
others. -/
def fanoutParallel (op : ReplicaOp) (tasks : Nat → TaskRun) (minNeeded : Nat) (blockId : Int64)
    (replicas : List ReplicaWriter) :
    Except Error Unit × List ReplicaWriter × List CacheEvent :=
  let writerSize := replicas.length
  if writerSize < minNeeded then
    (.error (.resourceExhausted
      s!"Failed to write enough replicas. dataWriters size: {writerSize}, Required: {minNeeded}"),
      replicas, [])
  else
    let order := replicas.insertionSort fun a b => (tasks a.ordinal).rank ≤ (tasks b.ordinal).rank
    let j := order.foldl (Joins.join op tasks writerSize minNeeded) ⟨[], 0, false, []⟩
    let kept := j.kept.insertionSort fun a b => a.ordinal ≤ b.ordinal
    if enoughReplicas kept.length minNeeded then (.ok (), kept, j.events)
    else
      let success := writerSize - j.failures
      (.error (.resourceExhausted
        s!"Failed to write enough replicas. Success: {success}, Required: {minNeeded} (block_id={blockId})"),
        [], j.events ++ kept.map fun r => .cancelled r.writer)

/-- `write_chunk_sequential`: after a failure no replica is left. -/
def writeSequential (tasks : Nat → TaskRun) (data : Bytes) :
    List ReplicaWriter → List ReplicaWriter →
      Except Error Unit × List ReplicaWriter × List CacheEvent
  | [], kept => (.ok (), kept, [])
  | r :: rest, kept =>
    match (ReplicaOp.write data).apply (tasks r.ordinal) r with
    | (.ok (), r') => writeSequential tasks data rest (kept ++ [r'])
    | (.error e, r') => (.error e, [], .cancelled r'.writer ::
        (kept.map fun k => CacheEvent.cancelled k.writer) ++ rest.map fun k => .dropped k.writer)

/-- The flush loop over the replicas.  A failure leaves them all in place. -/
def flushSequential (tasks : Nat → TaskRun) :
    List ReplicaWriter → Except Error Unit × List ReplicaWriter
  | [] => (.ok (), [])
  | r :: rest =>
    match ReplicaOp.flush.apply (tasks r.ordinal) r with
    | (.ok (), r') => ((flushSequential tasks rest).1, r' :: (flushSequential tasks rest).2)
    | (.error e, r') => (.error e, r' :: rest)

/-- The loop of `close_replicas`: every stream is closed, and the first failure
is the result. -/
def closeAll (replies : Nat → CloseReply) : List ReplicaWriter → Except Error Unit × List CacheEvent
  | [] => (.ok (), [])
  | r :: rest =>
    match r.writer.close (replies r.ordinal) with
    | .ok () => ((closeAll replies rest).1, .closed r.writer :: (closeAll replies rest).2)
    | .error e => (.error e, .closeFailed r.writer :: (closeAll replies rest).2)

/-! ## What a fan-out leaves -/

def Took (op : ReplicaOp) (r r' : ReplicaWriter) : Prop :=
  r'.ordinal = r.ordinal ∧ r'.writer.blockId = r.writer.blockId ∧
    r'.writer.received = r.writer.received ++ op.payload

/-- `r'` is the replica `r` after its task carried out `op`. -/
def Applied (op : ReplicaOp) (tasks : Nat → TaskRun) (r r' : ReplicaWriter) : Prop :=
  op.apply (tasks r.ordinal) r = (.ok (), r')

variable {data : Bytes} {replies : Nat → CloseReply} {rs : List ReplicaWriter}
  {tasks : Nat → TaskRun}

theorem Applied.took (h : Applied op tasks r r') : Took op r r' := by
  unfold Applied at h
  have hord : (op.apply (tasks r.ordinal) r).2.ordinal = r.ordinal := by
    cases op <;> rfl
  rcases op.apply_cases (tasks r.ordinal) r with ⟨_, _, hrecv, hid⟩ | ⟨_, e, he⟩
  · rw [h] at hord hrecv hid
    exact ⟨hord, hid, hrecv⟩
  · rw [h] at he
    cases he

def ReplicaOp.request : ReplicaOp → WriteRequest
  | .write data => .chunk data
  | .flush => .flush

theorem Applied.sent (h : Applied op tasks r r') :
    r'.writer.sent = r.writer.sent ++ [op.request] := by
  cases op with
  | write data =>
    unfold Applied ReplicaOp.apply GrpcBlockWriter.writeChunk at h
    simp only at h
    split at h
    · cases h
      rfl
    · cases h
  | flush =>
    unfold Applied ReplicaOp.apply GrpcBlockWriter.flush at h
    simp only at h
    split at h
    case h_2 =>
      cases h
      rfl
    all_goals cases h

namespace Joins

variable {op : ReplicaOp} {tasks : Nat → TaskRun} {writerSize minNeeded : Nat}

theorem join_cases (writerSize minNeeded : Nat) (j : Joins) (r : ReplicaWriter) :
    (∃ r', Applied op tasks r r' ∧ Survives op tasks r ∧
        j.join op tasks writerSize minNeeded r = { j with kept := j.kept ++ [r'] }) ∨
      ((Survives op tasks r → j.aborted = true) ∧ ∃ event, event.isDrop = true ∧
          j.join op tasks writerSize minNeeded r = j.fail writerSize minNeeded event) := by
  unfold join
  simp only
  split
  case isTrue h =>
    refine .inr ⟨fun hs => ?_, _, rfl, rfl⟩
    rcases h with h | h
    · exact h.1
    · rw [hs.1] at h
      cases h
  case isFalse h =>
    have hpanic : (tasks r.ordinal).panics = false := by
      cases hp : (tasks r.ordinal).panics
      · rfl
      · exact absurd (.inr hp) h
    rcases happ : op.apply (tasks r.ordinal) r with ⟨_ | ⟨⟩, r'⟩
    · refine .inr ⟨fun hs => ?_, _, rfl, rfl⟩
      rcases op.apply_cases (tasks r.ordinal) r with ⟨_, hok, _⟩ | ⟨hno, _⟩
      · rw [happ] at hok
        cases hok
      · exact absurd hs.2 hno
    · refine .inl ⟨r', happ, ⟨hpanic, ?_⟩, rfl⟩
      rcases op.apply_cases (tasks r.ordinal) r with ⟨hs, _⟩ | ⟨_, e, he⟩
      · exact hs
      · rw [happ] at he
        cases he

/-- The replicas that a fan-out keeps are some of those it asks, in their order, and
each of them carried out the operation. -/
theorem foldl_spec (writerSize minNeeded : Nat) : ∀ (order : List ReplicaWriter) (j : Joins),
    ∃ done out, done.Sublist order ∧ Forall₂ (Applied op tasks) done out ∧
      (order.foldl (join op tasks writerSize minNeeded) j).kept = j.kept ++ out ∧
      ∀ e ∈ (order.foldl (join op tasks writerSize minNeeded) j).events,
        e ∈ j.events ∨ e.isDrop = true := by
  intro order
  induction order with
  | nil => exact fun j => ⟨[], [], .slnil, .nil, (append_nil _).symm, fun _ => .inl⟩
  | cons r rest ih =>
    intro j
    rw [foldl_cons]
    rcases join_cases writerSize minNeeded j r with ⟨r', happ, _, hj⟩ | ⟨_, event, hevent, hj⟩
    · rw [hj]
      obtain ⟨done, out, hsub, hdone, hkept, hevents⟩ := ih { j with kept := j.kept ++ [r'] }
      refine ⟨r :: done, r' :: out, hsub.cons_cons r, .cons happ hdone, ?_, hevents⟩
      rw [hkept, append_assoc, singleton_append]
    · rw [hj]
      obtain ⟨done, out, hsub, hdone, hkept, hevents⟩ := ih (j.fail writerSize minNeeded event)
      refine ⟨done, out, hsub.cons r, hdone, hkept, fun e he => ?_⟩
      rcases hevents e he with he | he
      · exact (mem_append.mp he).imp_right fun he => by rw [mem_singleton.mp he, hevent]
      · exact .inr he

/-- As long as no more tasks fail than the minimum allows, nothing is aborted
and every survivor is kept. -/
theorem foldl_survivors : ∀ {order : List ReplicaWriter} {j : Joins}, j.aborted = false →
    j.failures + (order.filter fun r => ¬ Survives op tasks r).length ≤ writerSize - minNeeded →
      (order.foldl (join op tasks writerSize minNeeded) j).kept.map ReplicaWriter.ordinal =
        j.kept.map ReplicaWriter.ordinal ++
          (order.filter fun r => Survives op tasks r).map ReplicaWriter.ordinal := by
  intro order
  induction order with
  | nil => intro j _ _; simp
  | cons r rest ih =>
    intro j habort hfail
    rw [foldl_cons]
    by_cases hs : Survives op tasks r
    · rw [filter_cons_of_neg (by simpa using hs)] at hfail
      rw [filter_cons_of_pos (by simpa using hs), map_cons]
      rcases join_cases writerSize minNeeded j r with ⟨r₁, happlied, _, hj⟩ | ⟨hno, _⟩
      · rw [hj, ih (j := { j with kept := j.kept ++ [r₁] }) habort hfail, map_append,
          append_assoc, ← happlied.took.1]
        rfl
      · rw [hno hs] at habort
        cases habort
    · rw [filter_cons_of_pos (by simpa using hs), length_cons] at hfail
      rw [filter_cons_of_neg (by simpa using hs)]
      rcases join_cases writerSize minNeeded j r with ⟨r₁, _, hs', _⟩ | ⟨_, event, _, hj⟩
      · exact absurd hs' hs
      · have habort' : (j.fail writerSize minNeeded event).aborted = false := by
          simp only [fail, habort, Bool.false_or, shouldAbortRemaining, decide_eq_false_iff_not]
          omega
        have hfail' : (j.fail writerSize minNeeded event).failures +
            (rest.filter fun r => ¬ Survives op tasks r).length ≤ writerSize - minNeeded := by
          show j.failures + 1 + _ ≤ _
          omega
        rw [hj, ih habort' hfail']
        rfl

end Joins

open ReplicaWriter

theorem exists_of_forall₂ {β : Type} {R : α → β → Prop} {l : List α} {l' : List β}
    (h : Forall₂ R l l') : ∀ b ∈ l', ∃ a ∈ l, R a b := by
  induction h with
  | nil => exact fun b hb => by cases hb
  | cons hab _ ih =>
    exact forall_mem_cons.mpr ⟨⟨_, mem_cons_self .., hab⟩,
      fun b hb => (ih b hb).imp fun a ha => ha.imp_left (mem_cons_of_mem _)⟩

def ReplicaWriter.place (r : ReplicaWriter) : Nat × Int × String × WorkerNetAddress :=
  (r.ordinal, r.workerId, r.workerAddr, r.netAddress)

theorem ReplicaOp.apply_place (op : ReplicaOp) (run : TaskRun) (r : ReplicaWriter) :
    (op.apply run r).2.place = r.place := by
  cases op with
  | write data | flush => rfl

theorem map_place {done out : List ReplicaWriter} (h : Forall₂ (Applied op tasks) done out) :
    out.map place = done.map place := by
  induction h with
  | nil => rfl
  | @cons r r' _ _ happ _ ih =>
    have hplace := op.apply_place (tasks r.ordinal) r
    rw [show op.apply (tasks r.ordinal) r = _ from happ] at hplace
    exact congrArg₂ cons hplace ih

/-- Replicas in the order of their ordinals, all of them different. -/
def Ascending (rs : List ReplicaWriter) : Prop := rs.Pairwise fun r q => r.ordinal < q.ordinal

section Ascending

variable {rs' : List ReplicaWriter}

theorem Ascending.nodup (h : Ascending rs) : (rs.map ordinal).Nodup :=
  (pairwise_map.mpr h).imp Nat.ne_of_lt

theorem Ascending.of_places (h : Ascending rs)
    (hsub : (rs'.map place).Sublist (rs.map place)) : Ascending rs' := by
  have hplaces : (rs.map place).Pairwise fun p q => p.1 < q.1 :=
    pairwise_map.mpr h
  have hkept : (rs'.map place).Pairwise fun p q => p.1 < q.1 := hplaces.sublist hsub
  exact (pairwise_map.mp hkept :)

/-- Replicas with ascending ordinals whose places are among those of others stand
in the same order as they. -/
theorem places_sublist (h : Ascending rs) (h' : Ascending rs')
    (hsub : rs'.map place ⊆ rs.map place) :
    (rs'.map place).Sublist (rs.map place) := by
  have hplaces : ∀ {qs : List ReplicaWriter}, Ascending qs →
      (qs.map place).Pairwise fun p q => p.1 < q.1 :=
    fun hqs => pairwise_map.mpr hqs
  have hnodup : (rs'.map place).Nodup :=
    (hplaces h').imp fun hlt heq => absurd (heq ▸ hlt) (Nat.lt_irrefl _)
  have hanti : Std.Antisymm fun p q : Nat × Int × String × WorkerNetAddress => p.1 < q.1 :=
    ⟨fun _ _ hlt hgt => absurd hlt (Nat.lt_asymm hgt)⟩
  exact sublist_of_subperm_of_pairwise (subperm_of_subset hnodup hsub) (hplaces h') (hplaces h)

end Ascending

/-- The error of an operation is that of one replica, unless the replicas are served in
parallel. -/
def ReplicaRefusal (op : ReplicaOp) (tasks : Nat → TaskRun) (parallel : Prop)
    (replicas : List ReplicaWriter) (e : Error) : Prop :=
  (parallel ∧ ∃ message, e = .resourceExhausted message) ∨
    match op with
    | .write _ => ∃ message, e = .blockIoError message
    | .flush => ∃ r ∈ replicas, (r.writer.flush (tasks r.ordinal).flushReply).1 = .error e

/-- What `op` on `replicas` returns, what it leaves, and what it does to the others. -/
structure Served (op : ReplicaOp) (tasks : Nat → TaskRun) (parallel : Prop) (minNeeded : Nat)
    (replicas : List ReplicaWriter) (out : Except Error Unit × List ReplicaWriter × List CacheEvent) :
    Prop where
  drops : ∀ e ∈ out.2.2, e.isDrop = true
  /-- Enough replicas are left, each of them carried out the operation, and they stand
  in the order they had. -/
  ok : out.1 = .ok () → (minNeeded ≤ replicas.length → minNeeded ≤ out.2.1.length) ∧
    (∀ r' ∈ out.2.1, ∃ r ∈ replicas, Applied op tasks r r') ∧
    (Ascending replicas → (out.2.1.map place).Sublist (replicas.map place))
  error : ∀ e, out.1 = .error e → ReplicaRefusal op tasks parallel replicas e
  /-- A failure leaves no replica, or all of them. -/
  left : ∀ e, out.1 = .error e → out.2.1 = [] ∨ (out.2.1.length = replicas.length ∧
    (∀ r' ∈ out.2.1, ∃ r ∈ replicas, r'.writer.blockId = r.writer.blockId) ∧
    (op = .flush ∨ replicas.length < minNeeded))

theorem Served.of_forall₂ (parallel : Prop) {minNeeded : Nat} {out : List ReplicaWriter}
    (h : Forall₂ (Applied op tasks) rs out) :
    Served op tasks parallel minNeeded rs (.ok (), out, []) where
  drops := fun e he => by cases he
  ok := fun _ => ⟨fun hle => h.length_eq ▸ hle, exists_of_forall₂ h, fun _ =>
    map_place h ▸ Sublist.refl _⟩
  error := fun e he => by cases he
  left := fun e he => by cases he

theorem Served.of_refusal {parallel : Prop} {minNeeded : Nat} {events : List CacheEvent}
    (h : ReplicaRefusal op tasks parallel rs e) (hdrops : ∀ e ∈ events, e.isDrop = true) :
    Served op tasks parallel minNeeded rs (.error e, [], events) where
  drops := hdrops
  ok := fun h => by cases h
  error := fun e' he => by cases he; exact h
  left := fun _ _ => .inl rfl

section Fanout

variable {op : ReplicaOp} {tasks : Nat → TaskRun} {minNeeded : Nat} {blockId : Int64}
  {replicas : List ReplicaWriter} {events : List CacheEvent}

theorem fanoutParallel_served {parallel : Prop} (hpar : parallel) :
    Served op tasks parallel minNeeded replicas
      (fanoutParallel op tasks minNeeded blockId replicas) := by
  unfold fanoutParallel
  simp only
  split
  case isTrue hfew =>
    refine ⟨forall_mem_nil _, nofun, fun e he => ?_,
      fun _ _ => .inr ⟨rfl, fun r hr => ⟨r, hr, rfl⟩, .inr hfew⟩⟩
    cases he
    exact .inl ⟨hpar, _, rfl⟩
  case isFalse =>
    generalize horder : (replicas.insertionSort fun a b =>
      (tasks a.ordinal).rank ≤ (tasks b.ordinal).rank) = order
    have hperm : order.Perm replicas := horder ▸ perm_insertionSort _ _
    obtain ⟨done, joined, hsub, hdone, hkept, hevents⟩ := @Joins.foldl_spec op tasks
      replicas.length minNeeded order ⟨[], 0, false, []⟩
    rw [nil_append] at hkept
    rw [hkept]
    have hdrops := fun e he => (hevents e he).resolve_left not_mem_nil
    have hsorted := perm_insertionSort (fun a b : ReplicaWriter => a.ordinal ≤ b.ordinal) joined
    split
    case isTrue henough =>
      refine ⟨hdrops, fun _ => ⟨fun _ => by simpa [enoughReplicas] using henough, ?_, ?_⟩,
        nofun, nofun⟩
      · intro r' hr'
        obtain ⟨r, hr, happ⟩ := exists_of_forall₂ hdone r' (hsorted.subset hr')
        exact ⟨r, hperm.subset (hsub.subset hr), happ⟩
      · intro hasc
        have hjoined : (joined.map place).Sublist (order.map place) :=
          map_place hdone ▸ hsub.map place
        refine places_sublist hasc ?_ fun p hp =>
          (hperm.map _).subset (hjoined.subset ((hsorted.map place).subset hp))
        -- no two of them have one ordinal, so the sorted ones ascend
        have hnodup : (joined.map ordinal).Nodup := by
          have hords := hjoined.map Prod.fst
          rw [map_map, map_map] at hords
          exact ((hperm.map _).nodup_iff.mpr hasc.nodup).sublist hords
        have hle := pairwise_insertionSort (fun a b : ReplicaWriter => a.ordinal ≤ b.ordinal) joined
        have hne := pairwise_map.mp ((hsorted.map ordinal).nodup_iff.mpr hnodup)
        exact (hle.and hne).imp fun hlt => Nat.lt_of_le_of_ne hlt.1 hlt.2
    case isFalse =>
      exact .of_refusal (.inl ⟨hpar, _, rfl⟩) fun e he =>
        (mem_append.mp he).elim (hdrops e) isDrop_of_mem_cancelled

theorem fanoutParallel_of_survivors
    (h : minNeeded ≤ (replicas.filter fun r => Survives op tasks r).length) :
    (fanoutParallel op tasks minNeeded blockId replicas).1 = .ok () ∧
      ((fanoutParallel op tasks minNeeded blockId replicas).2.1.map ReplicaWriter.ordinal).Perm
        ((replicas.filter fun r => Survives op tasks r).map ReplicaWriter.ordinal) := by
  have hle : (replicas.filter fun r => Survives op tasks r).length ≤ replicas.length :=
    length_filter_le _ _
  have hsplit := length_eq_length_filter_add (l := replicas)
    (fun r => decide (Survives op tasks r))
  unfold fanoutParallel
  simp only
  rw [if_neg (by omega)]
  generalize horder : (replicas.insertionSort fun a b =>
    (tasks a.ordinal).rank ≤ (tasks b.ordinal).rank) = order
  have hperm : order.Perm replicas := horder ▸ perm_insertionSort _ _
  have hsurv := (hperm.filter fun r => decide (Survives op tasks r)).map ReplicaWriter.ordinal
  have hfail := (hperm.filter fun r => decide (¬ Survives op tasks r)).length_eq
  have hkept : (order.foldl (Joins.join op tasks replicas.length minNeeded)
      ⟨[], 0, false, []⟩).kept.map ReplicaWriter.ordinal =
        [] ++ (order.filter fun r => Survives op tasks r).map ReplicaWriter.ordinal := by
    refine Joins.foldl_survivors rfl ?_
    show 0 + _ ≤ _
    rw [hfail]
    simp only [decide_not] at hsplit ⊢
    omega
  rw [nil_append] at hkept
  have hlen := congrArg length hkept
  rw [length_map, hsurv.length_eq, length_map] at hlen
  rw [if_pos]
  · refine ⟨rfl, ?_⟩
    exact ((perm_insertionSort _ _).map _).trans (hkept ▸ hsurv)
  · simp only [enoughReplicas, length_insertionSort, decide_eq_true_eq, hlen]
    exact h

end Fanout

/-! ## What the sequential operations leave -/

theorem writeSequential_cases (tasks : Nat → TaskRun) (data : Bytes) :
    ∀ rs kept : List ReplicaWriter, (∃ out, Forall₂ (Applied (.write data) tasks) rs out ∧
          writeSequential tasks data rs kept = (.ok (), kept ++ out, [])) ∨
        ∃ r ∈ rs, (tasks r.ordinal).sendAccepted = false ∧ ∃ message events,
          (∀ e ∈ events, e.isDrop = true) ∧
            writeSequential tasks data rs kept = (.error (.blockIoError message), [], events) := by
  intro rs
  induction rs with
  | nil => exact fun kept => .inl ⟨[], .nil, by rw [append_nil]; rfl⟩
  | cons r rest ih =>
    intro kept
    rw [writeSequential]
    cases hsend : (tasks r.ordinal).sendAccepted with
    | false =>
      simp only [ReplicaOp.apply, GrpcBlockWriter.writeChunk, hsend, Bool.false_eq_true, if_false]
      refine .inr ⟨r, mem_cons_self .., hsend, _, _, fun e he => ?_, rfl⟩
      rcases mem_append.mp he with he | he
      · rcases mem_cons.mp he with rfl | he
        · rfl
        · exact isDrop_of_mem_cancelled he
      · obtain ⟨k, _, rfl⟩ := mem_map.mp he
        rfl
    | true =>
      rcases happ : (ReplicaOp.write data).apply (tasks r.ordinal) r with ⟨_ | ⟨⟩, r'⟩
      · simp only [ReplicaOp.apply, GrpcBlockWriter.writeChunk, hsend, if_true] at happ
        cases happ
      · rcases ih (kept ++ [r']) with ⟨out, hout, hok⟩ | ⟨q, hq, hfails⟩
        · exact .inl ⟨r' :: out, .cons happ hout, by simp only [hok, append_assoc, singleton_append]⟩
        · exact .inr ⟨q, mem_cons_of_mem _ hq, hfails⟩

theorem writeSequential_of_accepted {kept : List ReplicaWriter}
    (h : ∀ r ∈ rs, (tasks r.ordinal).sendAccepted = true) :
    ∃ out, Forall₂ (Applied (.write data) tasks) rs out ∧
      writeSequential tasks data rs kept = (.ok (), kept ++ out, []) := by
  refine (writeSequential_cases tasks data rs kept).resolve_right ?_
  rintro ⟨r, hr, hrefused, _⟩
  rw [h r hr] at hrefused
  cases hrefused

/-- A flush one by one drops no replica.  Its error is that of one of them. -/
theorem flushSequential_spec (tasks : Nat → TaskRun) : ∀ rs : List ReplicaWriter,
    Forall₂ (Took .flush) rs (flushSequential tasks rs).2 ∧ ((flushSequential tasks rs).1 = .ok () →
        Forall₂ (Applied .flush tasks) rs (flushSequential tasks rs).2) ∧
      ∀ e, (flushSequential tasks rs).1 = .error e → ∃ r ∈ rs,
        (r.writer.flush (tasks r.ordinal).flushReply).1 = .error e := by
  intro rs
  induction rs with
  | nil => exact ⟨.nil, fun _ => .nil, nofun⟩
  | cons r rest ih =>
    have hflushed : Took .flush r (ReplicaOp.flush.apply (tasks r.ordinal) r).2 := by
      obtain ⟨hid, hrecv⟩ := r.writer.flush_keeps (tasks r.ordinal).flushReply
      exact ⟨rfl, hid, hrecv.trans (append_nil _).symm⟩
    rw [flushSequential]
    rcases happ : ReplicaOp.flush.apply (tasks r.ordinal) r with ⟨e | ⟨⟩, r'⟩
    · rw [happ] at hflushed
      refine ⟨.cons hflushed (forall₂_same.mpr fun q _ => ⟨rfl, rfl, (append_nil _).symm⟩),
        nofun, fun e' he => ⟨r, mem_cons_self .., ?_⟩⟩
      cases he
      have hfails := congrArg Prod.fst happ
      simp only [ReplicaOp.apply] at hfails
      cases hflush : (r.writer.flush (tasks r.ordinal).flushReply).1 with
      | error e' => rw [hflush] at hfails; cases hfails; rfl
      | ok n => rw [hflush] at hfails; cases hfails
    · rw [happ] at hflushed
      refine ⟨.cons hflushed ih.1, fun h => .cons happ (ih.2.1 h), fun e he => ?_⟩
      obtain ⟨q, hq, hfails⟩ := ih.2.2 e he
      exact ⟨q, mem_cons_of_mem _ hq, hfails⟩

theorem flushSequential_of_acked (h : ∀ r ∈ rs, ReplicaOp.flush.Succeeds (tasks r.ordinal)) :
    (flushSequential tasks rs).1 = .ok () := by
  cases hout : (flushSequential tasks rs).1 with
  | error e =>
    obtain ⟨r, hr, hfails⟩ := (flushSequential_spec tasks rs).2.2 e hout
    obtain ⟨offset, hack⟩ := h r hr
    rw [hack] at hfails
    cases hfails
  | ok u => rfl

theorem closeAll_spec (replies : Nat → CloseReply) : ∀ rs : List ReplicaWriter,
    (∀ e ∈ (closeAll replies rs).2, ∃ r ∈ rs, e = .closed r.writer ∨ e = .closeFailed r.writer) ∧
      ((closeAll replies rs).1 = .ok () →
        closedStreams (closeAll replies rs).2 = rs.map ReplicaWriter.writer) ∧
      ∀ e, (closeAll replies rs).1 = .error e →
        ∃ r ∈ rs, r.writer.close (replies r.ordinal) = .error e := by
  intro rs
  induction rs with
  | nil => exact ⟨forall_mem_nil _, fun _ => rfl, nofun⟩
  | cons r rest ih =>
    obtain ⟨hevents, hok, herror⟩ := ih
    have hrest := fun e he => (hevents e he).imp fun q hq => hq.imp_left (mem_cons_of_mem r)
    rw [closeAll]
    cases hclose : r.writer.close (replies r.ordinal) with
    | ok u =>
      exact ⟨forall_mem_cons.mpr ⟨⟨r, mem_cons_self .., .inl rfl⟩, hrest⟩,
        fun h => congrArg (r.writer :: ·) (hok h),
        fun e he => (herror e he).imp fun q hq => hq.imp_left (mem_cons_of_mem r)⟩
    | error e =>
      exact ⟨forall_mem_cons.mpr ⟨⟨r, mem_cons_self .., .inr rfl⟩, hrest⟩, nofun,
        fun e' he => ⟨r, mem_cons_self .., by cases he; exact hclose⟩⟩

theorem closeAll_of_done (h : ∀ r ∈ rs, replies r.ordinal = .done) :
    (closeAll replies rs).1 = .ok () := by
  cases hout : (closeAll replies rs).1 with
  | error e =>
    obtain ⟨r, hr, hfails⟩ := (closeAll_spec replies rs).2.2 e hout
    rw [h r hr] at hfails
    cases hfails
  | ok u => rfl

/-! ## The open block -/

structure ActiveBlockWriter where
  replicas : List ReplicaWriter
  blockId : Int64
  blockSize : Nat
  bytesWritten : Nat
  pendingChunk : Bytes
  parallel : Bool
  minNeeded : Nat
  deriving DecidableEq, Repr

namespace ActiveBlockWriter

variable (a : ActiveBlockWriter)

def remaining : Nat := a.blockSize - a.bytesWritten

def fileLocation (blockOffset : Nat) : Option FileLocation :=
  if a.replicas = [] then none
  else some ⟨a.blockId, blockOffset, a.bytesWritten, a.replicas.map ReplicaWriter.workerId⟩

/-- `write_chunk`, with the replicas left and what was done to the others. -/
def writeChunk (tasks : Nat → TaskRun) (data : Bytes) :
    Except Error Unit × List ReplicaWriter × List CacheEvent :=
  if a.replicas = [] then
    (.error (.blockIoError s!"no replica writers left for block_id={a.blockId}"), [], [])
  else if a.parallel ∧ 1 < a.replicas.length then
    fanoutParallel (.write data) tasks a.minNeeded a.blockId a.replicas
  else writeSequential tasks data a.replicas []

/-- `flush_replicas`; the number of bytes it returns is that of the block. -/
def flushReplicas (tasks : Nat → TaskRun) :
    Except Error Unit × List ReplicaWriter × List CacheEvent :=
  if a.replicas = [] then (.ok (), [], [])
  else if a.parallel ∧ 1 < a.replicas.length then
    fanoutParallel .flush tasks a.minNeeded a.blockId a.replicas
  else ((flushSequential tasks a.replicas).1, (flushSequential tasks a.replicas).2, [])

def perform (op : ReplicaOp) (tasks : Nat → TaskRun) :
    Except Error Unit × List ReplicaWriter × List CacheEvent :=
  match op with
  | .write data => a.writeChunk tasks data
  | .flush => a.flushReplicas tasks

def closeReplicas (replies : Nat → CloseReply) : Except Error Unit × List CacheEvent :=
  closeAll replies a.replicas

def cancelReplicas : List CacheEvent := a.replicas.map fun r => .cancelled r.writer

section Perform

variable {op : ReplicaOp} {tasks : Nat → TaskRun} {events : List CacheEvent}
  {rs : List ReplicaWriter}

theorem perform_served (op : ReplicaOp) (tasks : Nat → TaskRun) :
    Served op tasks (a.parallel = true) a.minNeeded a.replicas (a.perform op tasks) := by
  cases op with
  | write data =>
    unfold perform writeChunk
    simp only
    split
    · exact .of_refusal (.inr ⟨_, rfl⟩) (forall_mem_nil _)
    · split
      case isTrue hpar => exact fanoutParallel_served hpar.1
      case isFalse =>
        rcases writeSequential_cases tasks data a.replicas [] with
          ⟨out, hout, h⟩ | ⟨_, _, _, message, events, hdrops, h⟩
        · rw [h]
          exact .of_forall₂ _ hout
        · rw [h]
          exact .of_refusal (.inr ⟨_, rfl⟩) hdrops
  | flush =>
    unfold perform flushReplicas
    simp only
    split
    case isTrue hnil =>
      rw [hnil]
      exact .of_forall₂ _ .nil
    case isFalse =>
      split
      case isTrue hpar => exact fanoutParallel_served hpar.1
      case isFalse =>
        obtain ⟨htook, hok, herror⟩ := flushSequential_spec tasks a.replicas
        refine ⟨forall_mem_nil _, fun h => (Served.of_forall₂ True (hok h)).ok rfl,
          fun e he => .inr (herror e he), fun _ _ => .inr ⟨htook.length_eq.symm, ?_, .inl rfl⟩⟩
        exact fun r' hr' => (exists_of_forall₂ htook r' hr').imp fun r hr => ⟨hr.1, hr.2.2.1⟩

theorem perform_ok (h : a.perform op tasks = (.ok (), rs, events)) :
    (a.minNeeded ≤ a.replicas.length → a.minNeeded ≤ rs.length) ∧
      ∀ r' ∈ rs, ∃ r ∈ a.replicas, Took op r r' := by
  obtain ⟨henough, happlied, _⟩ := (h ▸ a.perform_served op tasks).ok rfl
  exact ⟨henough, fun r' hr' => (happlied r' hr').imp fun r hr => hr.imp_right Applied.took⟩

theorem perform_closedStreams (op : ReplicaOp) (tasks : Nat → TaskRun) :
    closedStreams (a.perform op tasks).2.2 = [] :=
  closedStreams_of_drops (a.perform_served op tasks).drops

end Perform

end ActiveBlockWriter

/-! ## Replicas agree -/

/-- The replicas of a block have all received `sent`, and there are enough of
them. -/
structure Agree (blockId : Int64) (minNeeded : Nat) (sent : Bytes) (rs : List ReplicaWriter) :
    Prop where
  enough : minNeeded ≤ rs.length
  received : ∀ r ∈ rs, r.writer.received = sent
  blockId : ∀ r ∈ rs, r.writer.blockId = blockId

section Agree

variable {blockId : Int64} {minNeeded : Nat} {sent : Bytes} {rs rs' : List ReplicaWriter}

theorem Agree.took (h : Agree blockId minNeeded sent rs) {op : ReplicaOp}
    (henough : minNeeded ≤ rs'.length) (htook : ∀ r' ∈ rs', ∃ r ∈ rs, Took op r r') :
    Agree blockId minNeeded (sent ++ op.payload) rs' where
  enough := henough
  received := by
    intro r' hr'
    obtain ⟨r, hr, _, _, hrecv⟩ := htook r' hr'
    rw [hrecv, h.received r hr]
  blockId := by
    intro r' hr'
    obtain ⟨r, hr, _, hid, _⟩ := htook r' hr'
    rw [hid, h.blockId r hr]

end Agree

namespace ActiveBlockWriter

section Agree

variable {a : ActiveBlockWriter} {sent data : Bytes} {tasks : Nat → TaskRun}
  {events : List CacheEvent} {rs : List ReplicaWriter}

theorem writeChunk_ok (h : Agree a.blockId a.minNeeded sent a.replicas)
    (hwrite : a.writeChunk tasks data = (.ok (), rs, events)) :
    Agree a.blockId a.minNeeded (sent ++ data) rs := by
  have hperform : a.perform (.write data) tasks = (.ok (), rs, events) := hwrite
  obtain ⟨henough, htook⟩ := a.perform_ok hperform
  exact h.took (henough h.enough) htook

/-- Enough replicas take `op`: the required number in a fan-out, and all of them
otherwise. -/
def Quorum (a : ActiveBlockWriter) (op : ReplicaOp) (tasks : Nat → TaskRun) : Prop :=
  if a.parallel ∧ 1 < a.replicas.length then
    a.minNeeded ≤ (a.replicas.filter fun r => Survives op tasks r).length
  else ∀ r ∈ a.replicas, op.Succeeds (tasks r.ordinal)

theorem perform_of_quorum {op : ReplicaOp} (hne : a.replicas ≠ []) (h : a.Quorum op tasks) :
    (a.perform op tasks).1 = .ok () := by
  unfold Quorum at h
  cases op with
  | write data =>
    show (a.writeChunk tasks data).1 = .ok ()
    unfold writeChunk
    rw [if_neg hne]
    split at h
    case isTrue hpar =>
      rw [if_pos hpar]
      exact (fanoutParallel_of_survivors h).1
    case isFalse hpar =>
      obtain ⟨out, _, hok⟩ := writeSequential_of_accepted h
      rw [if_neg hpar, hok]
  | flush =>
    show (a.flushReplicas tasks).1 = .ok ()
    unfold flushReplicas
    rw [if_neg hne]
    split at h
    case isTrue hpar =>
      rw [if_pos hpar]
      exact (fanoutParallel_of_survivors h).1
    case isFalse hpar =>
      rw [if_neg hpar]
      exact flushSequential_of_acked h

theorem flushReplicas_ok (h : Agree a.blockId a.minNeeded sent a.replicas)
    (hflush : a.flushReplicas tasks = (.ok (), rs, events)) :
    Agree a.blockId a.minNeeded sent rs := by
  have hperform : a.perform .flush tasks = (.ok (), rs, events) := hflush
  obtain ⟨henough, htook⟩ := a.perform_ok hperform
  rw [← append_nil sent]
  exact h.took (henough h.enough) htook

/-- With a quorum a flush keeps the replicas in agreement, also when it fails:
only a flush one by one can then fail, and it drops none. -/
theorem flushReplicas_of_quorum (h : Agree a.blockId a.minNeeded sent a.replicas)
    (hquorum : a.parallel ∧ 1 < a.replicas.length → a.Quorum .flush tasks) :
    Agree a.blockId a.minNeeded sent (a.flushReplicas tasks).2.1 := by
  by_cases hpar : a.parallel ∧ 1 < a.replicas.length
  · have hne : a.replicas ≠ [] := ne_nil_of_length_pos (by omega)
    have hok : (a.flushReplicas tasks).1 = .ok () := perform_of_quorum hne (hquorum hpar)
    exact flushReplicas_ok h (Prod.ext hok rfl)
  · unfold flushReplicas
    rw [if_neg hpar]
    split
    case isTrue hnil =>
      rw [hnil] at h
      exact h
    case isFalse =>
      have htook := (flushSequential_spec tasks a.replicas).1
      rw [← append_nil sent]
      exact h.took (htook.length_eq ▸ h.enough) (exists_of_forall₂ htook)

end Agree

end ActiveBlockWriter

end GooseFS
