import GooseFS.Block.Router
import GooseFS.Block.WorkerSelection

/-!
# Routers and views

The shared router and a view of it select several workers in the same way: both
remove the failures that have expired and then take workers from their ring,
leaving out those that have failed.  Removing expired failures does not change who
has failed (`Failures.isFailed_cleanupExpired`), so what is returned depends only on
the list, the ring and the failed workers (`selectWorkers_ranked`).

The ring has to be one of the list.  With a ring of an older, longer list the loop
may count a position that is no worker and stop before it has been at all workers
(`selectWorkers_torn`).
-/

namespace GooseFS.Router

open Lib List

/-! ## Failures -/

/-- When each address has failed last, how many there are and how long a failure
counts.  The map does not exist before the first failure. -/
structure Failures where
  failedWorkers : Option (Std.TreeMap String Nat)
  failedCount : UInt64
  failureTtl : Nat

namespace Failures

def fresh (failureTtl : Nat) : Failures := ⟨none, 0, failureTtl⟩

def live (f : Failures) (now failedAt : Nat) : Bool := now - failedAt < f.failureTtl

def lastFailure (f : Failures) (key : String) : Option Nat := f.failedWorkers.bind (·[key]?)

def isFailed (f : Failures) (now : Nat) (key : String) : Bool :=
  (f.lastFailure key).any (f.live now)

def markFailed (f : Failures) (now : Nat) (addr : WorkerNetAddress) : Failures :=
  let key := workerAddrKey addr
  let map := f.failedWorkers.getD ∅
  { f with
    failedWorkers := some (map.insert key now)
    failedCount := if map[key]?.isNone then f.failedCount + 1 else f.failedCount }

def cleanupExpired (f : Failures) (now : Nat) : Failures :=
  if f.failedCount = 0 then f
  else
    match f.failedWorkers with
    | none => f
    | some map =>
      let kept := map.filter fun _ failedAt => f.live now failedAt
      { f with
        failedWorkers := some kept
        failedCount := f.failedCount - UInt64.ofNat (map.size - kept.size) }

@[simp]
theorem failureTtl_cleanupExpired (f : Failures) (now : Nat) :
    (f.cleanupExpired now).failureTtl = f.failureTtl := by
  unfold cleanupExpired
  split
  · rfl
  · split <;> rfl

theorem lastFailure_markFailed (f : Failures) (now : Nat) (addr : WorkerNetAddress)
    (key : String) : (f.markFailed now addr).lastFailure key =
      if workerAddrKey addr = key then some now else f.lastFailure key := by
  have hmap : f.lastFailure key = (f.failedWorkers.getD ∅)[key]? := by
    unfold lastFailure
    cases f.failedWorkers with
    | none => exact Std.TreeMap.getElem?_emptyc.symm
    | some map => rfl
  rw [hmap]
  simp only [lastFailure, markFailed, Option.bind_some, Std.TreeMap.getElem?_insert,
    Std.LawfulEqCmp.compare_eq_iff_eq]

theorem lastFailure_cleanupExpired (f : Failures) (now : Nat) (key : String) :
    (f.cleanupExpired now).lastFailure key = f.lastFailure key ∨
      (f.cleanupExpired now).lastFailure key = (f.lastFailure key).filter (f.live now) := by
  unfold cleanupExpired
  split
  case isTrue => exact .inl rfl
  case isFalse =>
    split
    case h_1 => exact .inl rfl
    case h_2 map hmap =>
      refine .inr ?_
      simp only [lastFailure, hmap, Option.bind_some, Std.TreeMap.getElem?_filter']

theorem isFailed_cleanupExpired (f : Failures) (now : Nat) :
    (f.cleanupExpired now).isFailed now = f.isFailed now := by
  funext key
  have hlive : (f.cleanupExpired now).live now = f.live now := by
    funext failedAt
    rw [live, failureTtl_cleanupExpired]
    rfl
  rw [isFailed, isFailed, hlive]
  rcases f.lastFailure_cleanupExpired now key with hkept | hfilter
  · rw [hkept]
  · rw [hfilter, Option.any_filter]
    simp

end Failures

/-! ## Selection -/

/-- The cells that updates publish, and the failures of the router itself. -/
structure WorkerRouter where
  cells : Cells
  failures : Failures

structure WorkerRouterView where
  workers : List WorkerInfo
  hashRing : HashRing
  localWorkerId : Option Int64
  failures : Failures

def WorkerRouterView.fromWorkers (workers : List WorkerInfo) (failureTtl : Nat) :
    WorkerRouterView :=
  ⟨workers, buildHashRing workers, none, Failures.fresh failureTtl⟩

def WorkerRouterView.markFailed (v : WorkerRouterView) (now : Nat) (addr : WorkerNetAddress) :
    WorkerRouterView :=
  { v with failures := v.failures.markFailed now addr }

theorem ringOf_fromWorkers (workers : List WorkerInfo) (failureTtl : Nat) :
    RingOf (WorkerRouterView.fromWorkers workers failureTtl).workers
      (WorkerRouterView.fromWorkers workers failureTtl).hashRing :=
  ringOf_buildHashRing workers

theorem ringOf_markFailed {v : WorkerRouterView} (h : RingOf v.workers v.hashRing) (now : Nat)
    (addr : WorkerNetAddress) :
    RingOf (v.markFailed now addr).workers (v.markFailed now addr).hashRing := h

/-- `select_workers` of a router and of a view.  Expired failures are removed once the
arguments have been checked. -/
def selectWorkersAt (now : Nat) (blockId : Int64) (workers : List WorkerInfo) (ring : HashRing)
    (failures : Failures) (count : Nat) : Except Error (List WorkerInfo) × Failures :=
  let failures := if count = 0 ∨ workers = [] then failures else failures.cleanupExpired now
  (selectWorkers blockId workers ring (failures.isFailed now) count, failures)

def WorkerRouter.selectWorkers (r : WorkerRouter) (now : Nat) (blockId : Int64) (count : Nat) :
    Except Error (List WorkerInfo) × WorkerRouter :=
  let out := selectWorkersAt now blockId r.cells.workers r.cells.hashRing r.failures count
  (out.1, { r with failures := out.2 })

def WorkerRouterView.selectWorkers (v : WorkerRouterView) (now : Nat) (blockId : Int64)
    (count : Nat) : Except Error (List WorkerInfo) × WorkerRouterView :=
  let out := selectWorkersAt now blockId v.workers v.hashRing v.failures count
  (out.1, { v with failures := out.2 })

section Selection

variable {now count : Nat} {blockId : Int64} {workers : List WorkerInfo} {ring : HashRing}
  {failures : Failures}

theorem selectWorkersAt_failures :
    (selectWorkersAt now blockId workers ring failures count).2.isFailed now =
      failures.isFailed now := by
  simp only [selectWorkersAt]
  split
  · rfl
  · exact failures.isFailed_cleanupExpired now

theorem selectWorkersAt_fst : (selectWorkersAt now blockId workers ring failures count).1 =
      selectWorkers blockId workers ring (failures.isFailed now) count := by
  have hfailed : (selectWorkersAt now blockId workers ring failures count).2.isFailed now =
      failures.isFailed now := selectWorkersAt_failures
  exact congrArg (selectWorkers blockId workers ring · count) hfailed

theorem selectWorkers_prefix {isFailed : String → Bool} (hring : RingOf workers ring)
    (hcount : 0 < count) {more : Nat} (hmore : count ≤ more) {selected : List WorkerInfo}
    (h : selectWorkers blockId workers ring isFailed count = .ok selected) :
    ∃ selected', selectWorkers blockId workers ring isFailed more = .ok selected' ∧
      selected <+: selected' := by
  rw [selectWorkers_eq hring hcount] at h
  rw [selectWorkers_eq hring (Nat.lt_of_lt_of_le hcount hmore)]
  split at h
  case isTrue => cases h
  case isFalse hne =>
    split at h
    case isTrue => cases h
    case isFalse hsome =>
      cases h
      rw [if_neg hne, if_neg hsome]
      exact ⟨_, rfl, (take_prefix_take_left hmore).filterMap _⟩

end Selection

/-- A view returns the first workers of the ranking, whose attempts go to the ceilings of
their hashes in the ring; a larger count adds workers at the end; and a router with the same
list, ring and failed workers returns the same. -/
theorem selectWorkers_ranked (v : WorkerRouterView) (hring : RingOf v.workers v.hashRing)
    (now : Nat) (blockId : Int64) {count : Nat} (hcount : 0 < count) :
    (∀ attempt idx, attemptIndex blockId v.hashRing attempt = some idx ↔
      ∃ key, (key, idx) ∈ v.hashRing ∧ IsCeiling (keySet v.hashRing)
        (Murmur3.guavaLongInt blockId (Int32.ofNat attempt)) key) ∧
    (v.selectWorkers now blockId count).1 =
      (let positions := ranking blockId v.workers v.hashRing (v.failures.isFailed now)
      if v.workers = [] then .error noWorkersRegistered
      else if positions = [] then .error (noSuitableWorker blockId)
      else .ok (workersAt v.workers (positions.take count))) ∧
    (∀ more ≥ count, ∀ selected, (v.selectWorkers now blockId count).1 = .ok selected →
      ∃ selected', (v.selectWorkers now blockId more).1 = .ok selected' ∧ selected <+: selected') ∧
    ∀ r : WorkerRouter, r.cells.workers = v.workers → r.cells.hashRing = v.hashRing →
      r.failures.isFailed now = v.failures.isFailed now →
      (r.selectWorkers now blockId count).1 = (v.selectWorkers now blockId count).1 := by
  refine ⟨fun attempt idx => ringCeilingWorkerIndex_eq_some_iff hring.ascending,
    selectWorkersAt_fst.trans (selectWorkers_eq hring hcount), ?_, ?_⟩
  · intro more hmore selected h
    obtain ⟨selected', h', hpre⟩ :=
      selectWorkers_prefix hring hcount hmore (selectWorkersAt_fst.symm.trans h)
    exact ⟨selected', selectWorkersAt_fst.trans h', hpre⟩
  · intro r hworkers hringEq hfailed
    refine selectWorkersAt_fst.trans (Eq.trans ?_ selectWorkersAt_fst.symm)
    rw [hworkers, hringEq, hfailed]

/-! ## Any worker -/

def Failures.eligible (f : Failures) (now : Nat) (w : WorkerInfo) : Bool :=
  match w.address with
  | some addr => !f.isFailed now (workerAddrKey addr)
  | none => false

theorem Failures.eligible_congr {f g : Failures} {now : Nat} (h : f.isFailed now = g.isFailed now) :
    f.eligible now = g.eligible now := by
  funext w
  unfold eligible
  rw [h]

def WorkerRouterView.filterNotFailed (v : WorkerRouterView) (now : Nat)
    (workers : List WorkerInfo) : List WorkerInfo × WorkerRouterView :=
  let failures := v.failures.cleanupExpired now
  (workers.filter (failures.eligible now), { v with failures := failures })

/-- `pick_any_worker`; `random` stands for the random number that the index is made of. -/
def WorkerRouterView.pickAnyWorker (v : WorkerRouterView) (now random : Nat) :
    Except Error WorkerInfo × WorkerRouterView :=
  if v.workers = [] then (.error noWorkersRegistered, v)
  else
    let failures := v.failures.cleanupExpired now
    let eligible := v.workers.filter (failures.eligible now)
    let pool := if eligible = [] then v.workers else eligible
    (match pool[random % pool.length]? with
    | some w => .ok w
    | none => .error (.noWorkerAvailable "no eligible workers"), { v with failures := failures })

theorem WorkerRouterView.pickAnyWorker_eligible (v : WorkerRouterView) {now : Nat}
    (h : ∃ w ∈ v.workers, v.failures.eligible now w = true) (random : Nat) :
    ∃ w ∈ v.workers, (v.pickAnyWorker now random).1 = .ok w ∧ v.failures.eligible now w = true := by
  obtain ⟨w₀, hmem₀, helig₀⟩ := h
  have hworkers : v.workers ≠ [] := ne_nil_of_mem hmem₀
  let pool := v.workers.filter (v.failures.eligible now)
  have hpool : pool ≠ [] := ne_nil_of_mem (mem_filter.mpr ⟨hmem₀, helig₀⟩)
  have hindex : random % pool.length < pool.length :=
    Nat.mod_lt _ (length_pos_iff.mpr hpool)
  obtain ⟨hmem, helig⟩ := mem_filter.mp (getElem_mem hindex)
  refine ⟨pool[random % pool.length], hmem, ?_, helig⟩
  unfold pickAnyWorker
  simp only [if_neg hworkers, Failures.eligible_congr (v.failures.isFailed_cleanupExpired now)]
  rw [if_neg hpool, getElem?_eq_getElem hindex]

/-- Two workers on this host, one elsewhere, and one whose host is not known. -/
def fourWorkers : List WorkerInfo :=
  [State.here, State.smallWorker 3 "here", State.there,
    { State.smallWorker 4 "" with address := some ⟨none, some 9204⟩ }]

def fourView : WorkerRouterView :=
  (WorkerRouterView.fromWorkers fourWorkers 60).markFailed 5 ⟨some "there", some 9203⟩

theorem selectWorkers_ranked_four : RingOf fourView.workers fourView.hashRing ∧
    (attempts 35 fourView.hashRing).take 4 = [2, 3, 2, 1] ∧ 0 ∈ attempts 35 fourView.hashRing ∧
    ((fourView.selectWorkers 10 35 3).1.map fun selected => selected.map WorkerInfo.id) =
      .ok [some 4, some 3] := by
  have hring : RingOf fourView.workers fourView.hashRing := by
    unfold fourView
    exact ringOf_markFailed (ringOf_fromWorkers fourWorkers 60) 5 _
  have hattempts : (attempts 35 fourView.hashRing).take 4 = [2, 3, 2, 1] ∧
      0 ∈ attempts 35 fourView.hashRing := by decide +kernel
  refine ⟨hring, hattempts.1, hattempts.2, ?_⟩
  rw [(selectWorkers_ranked fourView hring 10 35 (show 0 < 3 by decide)).2.1]
  decide +kernel

/-- The view has the list of one update and the ring of another.  The first attempt goes to
a position that the list does not have, and the loop stops there. -/
theorem selectWorkers_torn :
    let ring := buildHashRing [State.here, State.there]
    let v : WorkerRouterView := ⟨[State.here], ring, none, Failures.fresh 60⟩
    (attempts 23 ring).take 2 = [1, 0] ∧ ranking 23 v.workers ring (v.failures.isFailed 0) = [0] ∧
      (v.selectWorkers 0 23 1).1 = .error (noSuitableWorker 23) := by
  decide +kernel

end GooseFS.Router
