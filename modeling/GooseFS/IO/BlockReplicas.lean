import GooseFS.Lib.Transition
import GooseFS.Block.ReadFailover
import GooseFS.IO.CacheDurability

/-!
# The replicas of a block

What is known of the replicas of a block from the moment they are opened until
the block is closed.

Opening walks over the candidates and skips those that fail, so the replicas are
on candidates in the order of the pool, numbered without gaps
(`openReplicaWriters_replicas`).  An operation that succeeds may lose replicas,
and a fan-out collects those that are left in the order in which they finished.
It sorts them by ordinal again, so their places stay a sublist of the places
opened; together with the bytes that each of them took this gives
`replicas_agree`.
-/

namespace GooseFS

open Lib ReplicaWriter List ActiveBlockWriter

/-! ## Opening -/

namespace CacheM

variable {setup : WriterSetup} {env : CacheEnv} {plan : ReplicaWritePlan} {blockId : Int64}

/-- The workers that the router offers for an attempt that starts at `tick`. -/
def offeredPool (env : CacheEnv) (useAllWorkers : Bool) (tick : Nat) :
    Except Error (List WorkerInfo) :=
  if useAllWorkers then .ok (env.allWorkers tick) else env.selectWorkers tick

theorem filterNoSpaceWorkers_sublist (workers : List WorkerInfo) (allowFallback : Bool)
    (minNeeded : Nat) : (filterNoSpaceWorkers workers allowFallback minNeeded).Sublist workers := by
  unfold filterNoSpaceWorkers
  simp only
  split
  · exact filter_sublist
  · exact filter_sublist.trans filter_sublist

theorem candidatePool_eq (setup : WriterSetup) (env : CacheEnv) (blockId : Int64)
    (plan : ReplicaWritePlan) (useAllWorkers : Bool) (tick : Nat) :
    candidatePool setup env blockId plan useAllWorkers tick =
      (offeredPool env useAllWorkers tick).map fun offered =>
        if setup.strategy.needAsyncPersist then
          filterNoSpaceWorkers offered (0 < blockSequenceNumber blockId) plan.minNeededReplicas
        else offered := by
  unfold candidatePool
  cases hoffered : offeredPool env useAllWorkers tick with
  | error e | ok offered =>
    rw [show (if useAllWorkers then _ else _) = _ from hoffered]
    rfl

theorem candidatePool_sublist {useAllWorkers : Bool} {tick : Nat} {pool : List WorkerInfo}
    (h : candidatePool setup env blockId plan useAllWorkers tick = .ok pool) :
    ∃ offered, offeredPool env useAllWorkers tick = .ok offered ∧ pool.Sublist offered := by
  rw [candidatePool_eq] at h
  cases hoffered : offeredPool env useAllWorkers tick with
  | error e =>
    rw [hoffered] at h
    cases h
  | ok offered =>
    rw [hoffered] at h
    cases h
    refine ⟨offered, rfl, ?_⟩
    simp only
    split
    · exact filterNoSpaceWorkers_sublist ..
    · exact Sublist.refl _

theorem degradeReplicas_le (asyncThrough : Bool) (initial minNeeded alive : Nat) :
    (degradeReplicas asyncThrough initial minNeeded alive).1 ≤ min initial alive := by
  unfold degradeReplicas
  split
  · simp only
    omega
  · simp only
    omega

/-- Without ASYNC_THROUGH a plan asks for all its replicas, and a smaller pool lowers
both numbers. -/
theorem replicaCounts_of_sync (hplan : setup.plan = .ok plan)
    (hsync : setup.strategy.needAsyncPersist = false) (pool : List WorkerInfo) :
    (replicaCounts setup plan pool).2 =
      min (max setup.config.fileReplicationNumber 1).toNat pool.length := by
  unfold WriterSetup.plan replicaWritePlan at hplan
  simp only [hsync, Bool.false_eq_true, false_and, if_false, Except.ok.injEq] at hplan
  subst hplan
  simp only [replicaCounts, degradeReplicas, hsync, Bool.false_eq_true, if_false]
  split
  · simp only
    omega
  · simp only
    omega

/-- The replicas of a block that was just opened on the candidates `pool`: on distinct
workers in its order, at least the minimum and at most the target of them.  The minimum
is the configured one, which only ASYNC_THROUGH keeps when the pool is smaller. -/
structure OpenedOnPool (setup : WriterSetup) (plan : ReplicaWritePlan) (blockId : Int64)
    (pool : List WorkerInfo) (a : ActiveBlockWriter) : Prop where
  workers : ∃ workers : List WorkerInfo, workers.Sublist pool ∧ workers.Nodup ∧
    Forall₂ (OpenedOn blockId) a.replicas workers
  ordinals : a.replicas.map ordinal = range a.replicas.length
  minNeeded : a.minNeeded = if setup.strategy.needAsyncPersist then
      (max setup.config.fileReplicationDurableMin 1).toNat
    else min (max setup.config.fileReplicationNumber 1).toNat pool.length
  enough : max 1 a.minNeeded ≤ a.replicas.length
  atMost : a.replicas.length ≤ min plan.initialReplicas pool.length

/-- What an attempt to open the replicas of a block leaves, from a pool of
distinct workers: replicas on the pool, or every stream it opened cancelled. -/
theorem openReplicaWriters_replicas (hplan : setup.plan = .ok plan) (blockId : Int64)
    (useAllWorkers : Bool) (c : CacheSide)
    (hdistinct : ∀ offered, offeredPool env useAllWorkers c.ticks = .ok offered → offered.Nodup) :
    match openReplicaWriters setup env blockId plan useAllWorkers c with
    | .ok a _ => ∃ pool, candidatePool setup env blockId plan useAllWorkers c.ticks = .ok pool ∧
        OpenedOnPool setup plan blockId pool a
    | .error _ c' => ∃ more, c'.events = c.events ++ more ∧ cancelledStreams more =
        replicate (openedStreams (attemptReplies setup env blockId plan useAllWorkers c.ticks))
          (GrpcBlockWriter.openStream blockId) := by
  have hspec : Sat (· = c) (openReplicaWriters setup env blockId plan useAllWorkers) _ _ :=
    openReplicaWriters_spec blockId plan useAllWorkers c
  cases hrun : openReplicaWriters setup env blockId plan useAllWorkers c with
  | ok a c' =>
    obtain ⟨pool, hpool, hne, hfresh, ⟨⟨workers, hsub, hon, hords⟩, hmost⟩, _⟩ := hspec.ok rfl hrun
    obtain ⟨offered, hoffered, hsubOffered⟩ := candidatePool_sublist hpool
    obtain ⟨hinit, hmin, hdurable⟩ := replicaWritePlan_pos hplan
    obtain ⟨_, hreq, hkept⟩ := degradeReplicas_pos hinit hmin (length_pos_iff.mpr hne)
    refine ⟨pool, hpool, ⟨workers, hsub, ?_, hon⟩, ?_, ?_, ?_, ?_⟩
    · exact (hdistinct offered hoffered).sublist (hsub.trans hsubOffered)
    · rw [hords, range_eq_range']
    · rw [hfresh.minNeeded]
      cases hasync : setup.strategy.needAsyncPersist with
      | true => exact (hkept hasync).trans (hdurable hasync)
      | false => exact replicaCounts_of_sync hplan hasync pool
    · have henough := hfresh.enough
      rw [hfresh.minNeeded]
      exact Nat.max_le.mpr ⟨Nat.le_trans hreq henough, henough⟩
    · exact Nat.le_trans hmost (degradeReplicas_le ..)
  | error e c' =>
    obtain ⟨_, _, more, _, hcancelled, rfl⟩ := hspec.error rfl hrun
    have hmarks : ∀ replies : List OpenReply, cancelledStreams (replies.flatMap markRefused) = [] := by
      intro replies
      refine filterMap_eq_nil_iff.mpr fun x hx => ?_
      obtain ⟨⟨addr, err⟩, _, hx⟩ := mem_flatMap.mp hx
      cases err with
      | none => cases hx
      | some e =>
        rcases mem_cons.mp hx with rfl | hx
        · rfl
        · rw [mem_singleton.mp hx]
    refine ⟨_, append_assoc .., ?_⟩
    rw [cancelledStreams, filterMap_append]
    exact (congrArg (· ++ _) (hmarks _)).trans hcancelled

/-! An ASYNC_THROUGH block with three candidates, of which the first refuses. -/

def firstRefuses : CacheEnv :=
  { (Session.smallEnv [1, 2, 3] (fun _ => true) (fun _ => true) fun _ => true).cache with
    openReplica := fun tick => if tick = 1 then some (.transportError "refused") else none }

theorem openReplicaWriters_replicas_refused : ∃ a c' pool,
    openReplicaWriters (Session.smallSetup 5) firstRefuses 16777216 ⟨2, 1, 2⟩ false ⟨[], none, false, 0, []⟩ =
        .ok a c' ∧
      OpenedOnPool (Session.smallSetup 5) ⟨2, 1, 2⟩ 16777216 pool a ∧
      pool.map WorkerInfo.id = [some 1, some 2, some 3] ∧
      a.replicas.map ReplicaWriter.workerId = [2, 3] := by
  have hdistinct : ∀ offered, offeredPool firstRefuses false 0 = .ok offered → offered.Nodup := by
    intro offered h
    cases h
    decide
  have hplan : (Session.smallSetup 5).plan = .ok ⟨2, 1, 2⟩ := rfl
  obtain ⟨pool, hpool, hopened⟩ :=
    openReplicaWriters_replicas hplan 16777216 false ⟨[], none, false, 0, []⟩ hdistinct
  cases hpool
  exact ⟨_, _, _, rfl, hopened, rfl, rfl⟩

end CacheM

/-! ## The pools of a view

The router view of a writer offers no worker twice if its workers have different keys, and
none that has failed. -/

section Pools

open Router

variable {hasSpace : Router.WorkerInfo → Bool} {v : WorkerRouterView} {now : Nat}
  {workers : List Router.WorkerInfo}

/-- The workers that `open_replica_writers` gets from its view, before those without space
are left out. -/
def Router.WorkerRouterView.offered (v : WorkerRouterView) (hasSpace : Router.WorkerInfo → Bool)
    (now : Nat) (blockId : Int64) (count : Nat) (useAllWorkers : Bool) :
    Except Error (List GooseFS.WorkerInfo) :=
  let out := if useAllWorkers then (.ok v.workers, v) else v.selectWorkers now blockId count
  out.1.map fun workers =>
    (out.2.filterNotFailed now workers).1.map (Router.WorkerInfo.forWriter hasSpace)

theorem distinctKeys_workersAt (h : DistinctKeys workers) {positions : List Nat}
    (hnodup : positions.Nodup) : DistinctKeys (workersAt workers positions) := by
  have hpairs := pairwise_iff_getElem.mp (pairwise_filterMap.mp h)
  refine pairwise_filterMap.mpr (pairwise_filterMap.mpr (hnodup.imp ?_))
  intro i j hne w hw w' hw' key hkey key' hkey' heq
  obtain ⟨hi, rfl⟩ := List.getElem?_eq_some_iff.mp hw
  obtain ⟨hj, rfl⟩ := List.getElem?_eq_some_iff.mp hw'
  rcases Nat.lt_or_gt_of_ne hne with hlt | hlt
  · exact hpairs i j hi hj hlt key hkey key' hkey' heq
  · exact hpairs j i hj hi hlt key' hkey' key hkey heq.symm

theorem nodup_forWriter (h : DistinctKeys workers) (f : Failures) :
    ((workers.filter (f.eligible now)).map (Router.WorkerInfo.forWriter hasSpace)).Nodup := by
  refine pairwise_map.mpr (((pairwise_filterMap.mp h).filter _).imp_of_mem ?_)
  intro w w' hw _ hkeys heq
  have haddr : w.address = w'.address := congrArg GooseFS.WorkerInfo.address heq
  have helig := (mem_filter.mp hw).2
  cases hw₀ : w.address with
  | none =>
    rw [Failures.eligible, hw₀] at helig
    cases helig
  | some addr =>
    refine hkeys (workerAddrKey addr) ?_ (workerAddrKey addr) ?_ rfl
    · rw [Router.WorkerInfo.addrKey, hw₀]
      rfl
    · rw [Router.WorkerInfo.addrKey, ← haddr, hw₀]
      rfl

theorem CacheM.nodup_offeredPool {env : CacheEnv} {useAllWorkers : Bool} {tick count : Nat}
    {blockId : Int64} (hring : RingOf v.workers v.hashRing) (hkeys : DistinctKeys v.workers)
    (hcount : 0 < count) (hpool : offeredPool env useAllWorkers tick =
      v.offered hasSpace now blockId count useAllWorkers) {offered : List GooseFS.WorkerInfo}
    (h : offeredPool env useAllWorkers tick = .ok offered) :
    offered.Nodup ∧ ∀ w ∈ offered, ∃ u ∈ v.workers, v.failures.eligible now u = true ∧
      w = u.forWriter hasSpace := by
  rw [hpool, WorkerRouterView.offered] at h
  obtain ⟨pool, hsub, hdistinct, rfl⟩ : ∃ pool : List Router.WorkerInfo, (∀ u ∈ pool, u ∈ v.workers) ∧
      DistinctKeys pool ∧ offered =
        (pool.filter (v.failures.eligible now)).map (Router.WorkerInfo.forWriter hasSpace) := by
    cases useAllWorkers with
    | true =>
      refine ⟨v.workers, fun _ hu => hu, hkeys, (Except.ok.inj h).symm.trans ?_⟩
      rw [← Failures.eligible_congr (v.failures.isFailed_cleanupExpired now)]
      rfl
    | false =>
      have hselect : (v.selectWorkers now blockId count).1 = _ :=
        selectWorkersAt_fst.trans (selectWorkers_eq hring hcount)
      have hfailed : (selectWorkersAt now blockId v.workers v.hashRing v.failures
          count).2.isFailed now = v.failures.isFailed now := selectWorkersAt_failures
      simp only [Bool.false_eq_true, if_false, hselect] at h
      split at h
      · cases h
      · split at h
        · cases h
        · refine ⟨workersAt v.workers ((ranking blockId v.workers v.hashRing
            (v.failures.isFailed now)).take count), fun u hu => ?_, distinctKeys_workersAt hkeys
            (nodup_ranking.sublist (take_sublist count _)), (Except.ok.inj h).symm.trans ?_⟩
          · obtain ⟨idx, _, hget⟩ := mem_filterMap.mp hu
            exact mem_of_getElem? hget
          · rw [← Failures.eligible_congr hfailed,
              ← Failures.eligible_congr (Failures.isFailed_cleanupExpired _ now)]
            rfl
  refine ⟨nodup_forWriter hdistinct v.failures, fun w hw => ?_⟩
  obtain ⟨u, hu, rfl⟩ := mem_map.mp hw
  obtain ⟨hmem, helig⟩ := mem_filter.mp hu
  exact ⟨u, hsub u hmem, helig, rfl⟩

end Pools

/-! ## The life of a block -/

def ActiveBlockWriter.next (a : ActiveBlockWriter) (l : ReplicaOp × (Nat → TaskRun)) :
    Option ActiveBlockWriter :=
  match a.perform l.1 l.2 with
  | (.ok (), rs, _) => some { a with replicas := rs }
  | (.error _, _, _) => none

variable {a a' a₀ : ActiveBlockWriter} {l : ReplicaOp × (Nat → TaskRun)}

theorem ActiveBlockWriter.next_eq_some (h : a.next l = some a') :
    ∃ rs events, a.perform l.1 l.2 = (.ok (), rs, events) ∧ a' = { a with replicas := rs } := by
  unfold next at h
  rcases hperform : a.perform l.1 l.2 with ⟨_ | ⟨⟩, rs, events⟩
  · rw [hperform] at h
    cases h
  · rw [hperform] at h
    cases h
    exact ⟨rs, events, rfl, rfl⟩

def chunkBytes (ops : List (ReplicaOp × (Nat → TaskRun))) : Bytes := ops.flatMap fun l => l.1.payload

/-- The replicas of `a` after operations that sent `sent`, from those of `a₀`. -/
structure Retained (a₀ : ActiveBlockWriter) (sent : Bytes) (a : ActiveBlockWriter) : Prop where
  agree : Agree a₀.blockId a₀.minNeeded sent a.replicas
  places : (a.replicas.map place).Sublist (a₀.replicas.map place)
  blockId : a.blockId = a₀.blockId
  minNeeded : a.minNeeded = a₀.minNeeded

theorem Retained.next {sent : Bytes} (h : Retained a₀ sent a) (hasc : Ascending a₀.replicas)
    (hstep : a.next l = some a') : Retained a₀ (sent ++ l.1.payload) a' := by
  obtain ⟨rs, events, hperform, rfl⟩ := next_eq_some hstep
  obtain ⟨henough, htook⟩ := a.perform_ok hperform
  obtain ⟨_, _, hplaces⟩ := (hperform ▸ a.perform_served l.1 l.2).ok rfl
  rw [h.minNeeded] at henough
  exact ⟨h.agree.took (henough h.agree.enough) htook,
    (hplaces (hasc.of_places h.places)).trans h.places, h.blockId, h.minNeeded⟩

theorem Retained.run (hasc : Ascending a₀.replicas) :
    ∀ {a a' : ActiveBlockWriter} {ops : List (ReplicaOp × (Nat → TaskRun))} {sent : Bytes},
      Guarded ActiveBlockWriter.next (fun _ _ => True) a ops a' → Retained a₀ sent a →
      Retained a₀ (sent ++ chunkBytes ops) a' := by
  intro a a' ops sent hrun
  induction hrun generalizing sent with
  | nil a =>
    intro h
    rw [chunkBytes, flatMap_nil, append_nil]
    exact h
  | cons _ hstep _ ih =>
    intro h
    rw [chunkBytes, flatMap_cons, ← append_assoc]
    exact ih (h.next hasc hstep)

/-- A block as `open_replica_writers` leaves it: nothing was sent yet. -/
structure Started (a : ActiveBlockWriter) : Prop where
  ascending : Ascending a.replicas
  streams : ∀ r ∈ a.replicas, r.writer = GrpcBlockWriter.openStream a.blockId
  required : 0 < a.minNeeded
  enough : a.minNeeded ≤ a.replicas.length

theorem CacheM.openReplicaWriters_started {setup : WriterSetup} {env : CacheEnv}
    {plan : ReplicaWritePlan} (hplan : setup.plan = .ok plan) {blockId : Int64}
    {useAllWorkers : Bool} {c c' : CacheSide}
    (h : openReplicaWriters setup env blockId plan useAllWorkers c = .ok a c') : Started a := by
  obtain ⟨pool, _, hne, hfresh, ⟨⟨_, _, _, hords⟩, _⟩, _⟩ :=
    (openReplicaWriters_spec blockId plan useAllWorkers c).ok rfl h
  obtain ⟨hinit, hmin, _⟩ := replicaWritePlan_pos hplan
  obtain ⟨_, hreq, _⟩ := degradeReplicas_pos hinit hmin (length_pos_iff.mpr hne)
  refine ⟨?_, ?_, ?_, ?_⟩
  · have hlt : (a.replicas.map ordinal).Pairwise (· < ·) := hords ▸ pairwise_lt_range'
    exact pairwise_map.mp hlt
  · exact hfresh.blockId ▸ hfresh.streams
  · exact hfresh.minNeeded ▸ hreq
  · exact hfresh.minNeeded ▸ hfresh.enough

/-- After operations that all succeed, the replicas that are left have received
the same bytes, there are enough of them, and the location of the block lists
their workers in the order of their ordinals. -/
theorem replicas_agree {a a' : ActiveBlockWriter} {ops : List (ReplicaOp × (Nat → TaskRun))}
    (hstart : Started a) (hrun : Guarded next (fun _ _ => True) a ops a') :
    (∀ r ∈ a'.replicas, r.writer.received = chunkBytes ops) ∧
      a.minNeeded ≤ a'.replicas.length ∧ Ascending a'.replicas ∧
      (a'.replicas.map ReplicaWriter.place).Sublist (a.replicas.map ReplicaWriter.place) ∧
      ∀ blockOffset bytesWritten, ({ a' with bytesWritten } : ActiveBlockWriter).fileLocation blockOffset =
        some ⟨a.blockId, blockOffset, bytesWritten, a'.replicas.map ReplicaWriter.workerId⟩ := by
  have hopened : Retained a [] a :=
    ⟨CacheM.agree_fresh hstart.enough hstart.streams, List.Sublist.refl _, rfl, rfl⟩
  have hkept := hopened.run hstart.ascending hrun
  rw [nil_append] at hkept
  have hne : a'.replicas ≠ [] :=
    ne_nil_of_length_pos (Nat.lt_of_lt_of_le hstart.required hkept.agree.enough)
  refine ⟨hkept.agree.received, hkept.agree.enough, hstart.ascending.of_places hkept.places,
    hkept.places, fun blockOffset bytesWritten => ?_⟩
  rw [fileLocation, if_neg hne, hkept.blockId]

/-! A block of three replicas, of which the second does not answer a flush. -/

/-- Replica `k` finishes before the replicas with smaller ordinals. -/
def backwards (flush : Nat → Bool) (k : Nat) : TaskRun :=
  ⟨true, if flush k then .ack none else .ended, false, 9 - k, true⟩

def threeReplicas : ActiveBlockWriter where
  replicas := [10, 20, 30].zipIdx.map fun w => ⟨w.2, GrpcBlockWriter.openStream 7, w.1, "worker:9203",
    ⟨some "worker", some 9203⟩⟩
  blockId := 7
  blockSize := 8
  bytesWritten := 0
  pendingChunk := []
  parallel := true
  minNeeded := 2

def threeOps : List (ReplicaOp × (Nat → TaskRun)) :=
  [(.write [1, 2], backwards fun _ => true), (.flush, backwards fun k => k ≠ 1),
    (.write [3], backwards fun _ => true)]

theorem replicas_agree_lossy : ∃ a', Guarded next (fun _ _ => True) threeReplicas threeOps a' ∧
      (∀ r ∈ a'.replicas, r.writer.received = [1, 2, 3]) ∧
      a'.replicas.map ReplicaWriter.workerId = [10, 30] := by
  obtain ⟨a', hrun, hids⟩ : ∃ a', Guarded next (fun _ _ => True) threeReplicas
      threeOps a' ∧ a'.replicas.map ReplicaWriter.workerId = [10, 30] :=
    Guarded.exists_of_replay (by decide +kernel)
  have hstart : Started threeReplicas := ⟨by unfold Ascending; decide, by decide, by decide, by decide⟩
  exact ⟨a', hrun, (replicas_agree hstart hrun).1, hids⟩

end GooseFS
