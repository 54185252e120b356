import Mathlib.Data.List.Find
import Mathlib.Data.List.Pairwise
import GooseFS.Block.RouterView

/-!
# Failover of a read

A read that fails on a worker marks the worker failed on its view and asks for
another one.  Each call goes through the locations of the block and through the
attempts of its hash again, under the failures recorded so far, and returns the
first worker that has an address and has not failed.  So the calls return the
workers one after the other, each of them once, until all that had not failed before
have been returned: first those that the locations name (`failover_in_order`).

A location that names a worker without an address does not count.  That worker is
never returned, and the calls start to repeat themselves while it is left
(`failover_repeats`).
-/

namespace GooseFS.Router

open Lib List Failures Router.WorkerInfo State WorkerRouterView

/-! ## Workers for a read -/

structure BlockLocation where
  workerId : Option Int64
  deriving DecidableEq, Repr

section Locations

variable (workers : List WorkerInfo) (isFailed : String → Bool)

/-- The locations left, the ids seen so far and the workers selected so far. -/
def locationsLoop (count : Nat) :
    List BlockLocation → List Int64 → List WorkerInfo → List WorkerInfo
  | [], _, selected => selected
  | loc :: rest, seen, selected =>
    match loc.workerId with
    | none => locationsLoop count rest seen selected
    | some wid =>
      if wid ∈ seen then locationsLoop count rest seen selected
      else
        let seen := wid :: seen
        match workers.find? fun w => w.id = some wid with
        | none => locationsLoop count rest seen selected
        | some w =>
          match w.address with
          | none => locationsLoop count rest seen selected
          | some addr =>
            if isFailed (workerAddrKey addr) then locationsLoop count rest seen selected
            else
              let selected := selected ++ [w]
              if count ≤ selected.length then selected
              else locationsLoop count rest seen selected

def workersFromBlockLocations (locations : List BlockLocation) (count : Nat) : List WorkerInfo :=
  if locations = [] ∨ count = 0 then [] else locationsLoop workers isFailed count locations [] []

end Locations

def readWorkerCandidateCount (replication maxRetryNode : Int32) : Nat :=
  (max (max replication.toInt maxRetryNode.toInt) 1).toNat

namespace WorkerRouterView

def selectWorkersForRead (v : WorkerRouterView) (now : Nat) (blockId : Int64)
    (locations : List BlockLocation) (count : Nat) :
    Except Error (List WorkerInfo) × WorkerRouterView :=
  if count = 0 then (.error (.invalidArgument "count must be greater than 0"), v)
  else if v.workers = [] then (.error noWorkersRegistered, v)
  else
    let v := { v with failures := v.failures.cleanupExpired now }
    match workersFromBlockLocations v.workers (v.failures.isFailed now) locations count with
    | [] => v.selectWorkers now blockId count
    | fromLocations => (.ok fromLocations, v)

def selectWorkerForRead (v : WorkerRouterView) (now : Nat) (blockId : Int64)
    (locations : List BlockLocation) (replication maxRetryNode : Int32) :
    Except Error WorkerInfo × WorkerRouterView :=
  let count := readWorkerCandidateCount replication maxRetryNode
  let out := v.selectWorkersForRead now blockId locations count
  (match out.1 with
    | .error e => .error e
    | .ok [] => .error (noSuitableWorker blockId)
    | .ok (w :: _) => .ok w, out.2)

end WorkerRouterView

structure ReadCall where
  blockId : Int64
  locations : List BlockLocation
  replication : Int32
  maxRetryNode : Int32

def WorkerRouterView.markReturned (v : WorkerRouterView) (failedAt : Nat) :
    Except Error WorkerInfo → WorkerRouterView
  | .error _ => v
  | .ok w => w.address.elim v (v.markFailed failedAt)

/-- Selects a worker and marks it failed, once for each pair of instants. -/
def failover (call : ReadCall) :
    List (Nat × Nat) → WorkerRouterView → List (Except Error WorkerInfo)
  | [], _ => []
  | (selectedAt, failedAt) :: rest, v =>
    let out := v.selectWorkerForRead selectedAt call.blockId call.locations call.replication
      call.maxRetryNode
    out.1 :: failover call rest (out.2.markReturned failedAt out.1)

/-! ## The first worker of a call -/

def namedWorkers (workers : List WorkerInfo) (locations : List BlockLocation) : List WorkerInfo :=
  locations.filterMap fun loc =>
    loc.workerId.bind fun wid => workers.find? fun w => w.id = some wid

def reachedWorkers (workers : List WorkerInfo) (ring : HashRing) (blockId : Int64) :
    List WorkerInfo :=
  workersAt workers (attempts blockId ring)

def readCandidates (workers : List WorkerInfo) (ring : HashRing) (blockId : Int64)
    (locations : List BlockLocation) : List WorkerInfo :=
  namedWorkers workers locations ++ reachedWorkers workers ring blockId

section First

variable {workers : List WorkerInfo} {ring : HashRing} {blockId : Int64} {isFailed : String → Bool}
  {locations : List BlockLocation} {count : Nat} {w : WorkerInfo} {seen : List Int64}
  {selected : List WorkerInfo}

theorem mem_of_mem_readCandidates (h : w ∈ readCandidates workers ring blockId locations) :
    w ∈ workers := by
  rcases mem_append.mp h with hnamed | hreached
  · obtain ⟨loc, _, hloc⟩ := mem_filterMap.mp hnamed
    obtain ⟨wid, _, hfind⟩ := Option.bind_eq_some_iff.mp hloc
    exact mem_of_find?_eq_some hfind
  · obtain ⟨idx, _, hw⟩ := mem_filterMap.mp hreached
    exact mem_of_getElem? hw

theorem prefix_locationsLoop :
    selected <+: locationsLoop workers isFailed count locations seen selected := by
  fun_induction locationsLoop workers isFailed count locations seen selected with
  | case1 => exact prefix_refl _
  | case7 => exact prefix_append _ _
  | case8 => exact (prefix_append _ _).trans ‹_ <+: _›
  | _ => assumption

theorem locationsLoop_named {loc : BlockLocation} {rest : List BlockLocation} {wid : Int64}
    (hid : loc.workerId = some wid) (hnew : wid ∉ seen)
    (hfind : (workers.find? fun w => w.id = some wid) = some w) :
    locationsLoop workers isFailed count (loc :: rest) seen selected =
      if accepts isFailed true w then
        if count ≤ (selected ++ [w]).length then selected ++ [w]
        else locationsLoop workers isFailed count rest (wid :: seen) (selected ++ [w])
      else locationsLoop workers isFailed count rest (wid :: seen) selected := by
  rw [locationsLoop]
  simp only [hid, if_neg hnew, hfind]
  obtain ⟨_, _ | addr, _⟩ := w
  · rfl
  · simp only [accepts, Bool.not_true, Bool.false_or, Option.any_some]
    cases isFailed (workerAddrKey addr) with
    | true | false => rfl

/-- The first selected worker is the first named one that has an address and has not
failed.  An id that was seen before names a worker that did not qualify then. -/
theorem head?_locationsLoop : ∀ {locations : List BlockLocation}
    {seen : List Int64}, (∀ wid ∈ seen, ∀ w, (workers.find? fun w => w.id = some wid) = some w →
        accepts isFailed true w = false) →
      (locationsLoop workers isFailed count locations seen []).head? =
        (namedWorkers workers locations).find? (accepts isFailed true) := by
  intro locations
  induction locations with
  | nil => exact fun _ => rfl
  | cons loc rest ih =>
    intro seen hseen
    rw [namedWorkers, filterMap_cons, ← namedWorkers]
    cases hid : loc.workerId with
    | none =>
      rw [locationsLoop, hid]
      exact ih hseen
    | some wid =>
      rw [Option.bind_some]
      cases hfind : workers.find? fun w => w.id = some wid with
      | none =>
        rw [locationsLoop, hid]
        simp only [hfind]
        split
        · exact ih hseen
        · refine ih fun other hother w hw => ?_
          rcases mem_cons.mp hother with rfl | hother
          · cases hfind.symm.trans hw
          · exact hseen other hother w hw
      | some w =>
        by_cases hold : wid ∈ seen
        · rw [locationsLoop, hid]
          simp only [if_pos hold, find?_cons, hseen wid hold w hfind]
          exact ih hseen
        · rw [locationsLoop_named hid hold hfind]
          simp only [find?_cons]
          cases haccepts : accepts isFailed true w with
          | true =>
            rw [if_pos rfl]
            split
            · rfl
            · have hpre : [w] <+: locationsLoop workers isFailed count rest (wid :: seen) [w] :=
                prefix_locationsLoop
              obtain ⟨more, hmore⟩ := hpre
              exact congrArg head? hmore.symm
          | false =>
            refine ih fun other hother w' hw' => ?_
            rcases mem_cons.mp hother with rfl | hother
            · exact Option.some.inj (hfind.symm.trans hw') ▸ haccepts
            · exact hseen other hother w' hw'

theorem head?_workersFromBlockLocations (hcount : 0 < count) :
    (workersFromBlockLocations workers isFailed locations count).head? =
      (namedWorkers workers locations).find? (accepts isFailed true) := by
  unfold workersFromBlockLocations
  split
  case isTrue hempty =>
    obtain rfl := hempty.resolve_right (Nat.ne_of_gt hcount)
    rfl
  case isFalse => exact head?_locationsLoop fun _ h => (not_mem_nil h).elim

theorem admits_nil (idx : Nat) :
    admits workers isFailed true [] idx = workers[idx]?.any (accepts isFailed true) := by
  simp only [admits, addressAt]
  cases workers[idx]? with
  | none => rfl
  | some w => simp [accepts]

theorem head?_selectWorkers (hring : RingOf workers ring) (hcount : 0 < count)
    (h : (reachedWorkers workers ring blockId).find? (accepts isFailed true) = some w) :
    ∃ rest, selectWorkers blockId workers ring isFailed count = .ok (w :: rest) := by
  rw [reachedWorkers, workersAt, find?_filterMap, Option.bind_eq_some_iff] at h
  obtain ⟨idx, hfind, hw⟩ := h
  have hne : workers ≠ [] := fun hnil => by
    rw [hnil] at hw
    cases hw
  have hhead : (eligible blockId workers ring isFailed true).head? = some idx := by
    rw [eligible, spends_admits.head?_greedy, ← hfind]
    exact congrArg (find? · _) (funext admits_nil)
  obtain ⟨positions, heligible⟩ := head?_eq_some_iff.mp hhead
  have hranking : ranking blockId workers ring isFailed = idx :: positions := by
    rw [ranking, heligible, if_neg (cons_ne_nil _ _)]
  obtain ⟨more, rfl⟩ := Nat.exists_eq_succ_of_ne_zero (Nat.ne_of_gt hcount)
  rw [selectWorkers_eq hring hcount, if_neg hne, hranking, if_neg (cons_ne_nil _ _),
    take_succ_cons, workersAt, filterMap_cons, hw]
  exact ⟨_, rfl⟩

theorem readWorkerCandidateCount_pos (replication maxRetryNode : Int32) :
    0 < readWorkerCandidateCount replication maxRetryNode := by
  unfold readWorkerCandidateCount
  omega

end First

namespace WorkerRouterView

variable {v : WorkerRouterView} {now : Nat} {blockId : Int64} {locations : List BlockLocation}
  {replication maxRetryNode : Int32} {w : WorkerInfo} {count : Nat}

theorem selectWorkersForRead_snd {P : Failures → Prop} (hP : ∀ f, P f → P (f.cleanupExpired now))
    (h : P v.failures) : let v' := (v.selectWorkersForRead now blockId locations count).2
    v'.workers = v.workers ∧ v'.hashRing = v.hashRing ∧ P v'.failures := by
  unfold selectWorkersForRead
  split
  case isTrue => exact ⟨rfl, rfl, h⟩
  split
  case isTrue => exact ⟨rfl, rfl, h⟩
  dsimp only
  split
  case h_1 =>
    refine ⟨rfl, rfl, ?_⟩
    simp only [selectWorkers, selectWorkersAt]
    split
    · exact hP _ h
    · exact hP _ (hP _ h)
  case h_2 => exact ⟨rfl, rfl, hP _ h⟩

/-- A call finds the first worker, of those named and then of those reached, that has an
address and has not failed. -/
theorem selectWorkersForRead_fst (hring : RingOf v.workers v.hashRing) (hcount : 0 < count)
    (h : (readCandidates v.workers v.hashRing blockId locations).find?
      (accepts (v.failures.isFailed now) true) = some w) :
    ∃ rest, (v.selectWorkersForRead now blockId locations count).1 = .ok (w :: rest) := by
  have hne : v.workers ≠ [] :=
    ne_nil_of_mem (mem_of_mem_readCandidates (mem_of_find?_eq_some h))
  have hfailed := v.failures.isFailed_cleanupExpired now
  have hlocations : (workersFromBlockLocations v.workers (v.failures.isFailed now) locations
      count).head? = (namedWorkers v.workers locations).find?
        (accepts (v.failures.isFailed now) true) := head?_workersFromBlockLocations hcount
  rw [readCandidates, find?_append] at h
  simp only [selectWorkersForRead, if_neg (Nat.ne_of_gt hcount), if_neg hne, hfailed]
  cases hnamed : (namedWorkers v.workers locations).find?
      (accepts (v.failures.isFailed now) true) with
  | some w' =>
    rw [hnamed, Option.some_or] at h
    rw [hnamed, h] at hlocations
    obtain ⟨rest, hrest⟩ := head?_eq_some_iff.mp hlocations
    rw [hrest]
    exact ⟨rest, rfl⟩
  | none =>
    rw [hnamed, Option.none_or] at h
    rw [hnamed, head?_eq_none_iff] at hlocations
    rw [hlocations]
    obtain ⟨rest, hrest⟩ := head?_selectWorkers hring hcount h
    refine ⟨rest, selectWorkersAt_fst.trans ?_⟩
    rw [hfailed]
    exact hrest

theorem selectWorkerForRead_fst (hring : RingOf v.workers v.hashRing)
    (h : (readCandidates v.workers v.hashRing blockId locations).find?
      (accepts (v.failures.isFailed now) true) = some w) :
    (v.selectWorkerForRead now blockId locations replication maxRetryNode).1 = .ok w := by
  obtain ⟨rest, hrest⟩ := selectWorkersForRead_fst hring
    (readWorkerCandidateCount_pos replication maxRetryNode) h
  simp only [selectWorkerForRead, hrest]

end WorkerRouterView

/-! ## What the calls return -/

def WorkerInfo.addrKey (w : WorkerInfo) : Option String := w.address.map workerAddrKey

def DistinctKeys (workers : List WorkerInfo) : Prop :=
  (workers.filterMap addrKey).Nodup

instance (workers : List WorkerInfo) : Decidable (DistinctKeys workers) :=
  inferInstanceAs (Decidable (Nodup _))

/-- At `now` no failure has expired that counts at `start` or is recorded after it. -/
def Failures.Lasting (f : Failures) (start now : Nat) : Prop :=
  start ≤ now ∧ now < start + f.failureTtl ∧
    ∀ key, f.isFailed start key = true → f.isFailed now key = true

/-- `f` is `f₀` after the failures of `keys`, all of them since `start`. -/
structure Recorded (f₀ f : Failures) (start : Nat) (keys : List String) : Prop where
  failureTtl : f.failureTtl = f₀.failureTtl
  lasting : ∀ key, f₀.isFailed start key = true ∨ key ∈ keys →
    ∃ failedAt, f.lastFailure key = some failedAt ∧
      ∀ now, f₀.Lasting start now → f.live now failedAt = true
  expired : ∀ key, ¬(f₀.isFailed start key = true ∨ key ∈ keys) →
    ∀ failedAt, f.lastFailure key = some failedAt → f.live start failedAt = false

namespace Recorded

variable {f₀ f : Failures} {start now : Nat} {keys : List String} {failedAt : Nat}

theorem refl (f : Failures) (start : Nat) : Recorded f f start [] where
  failureTtl := rfl
  lasting key hkey := by
    have hfailed := hkey.resolve_right not_mem_nil
    cases hlast : f.lastFailure key with
    | none =>
      rw [isFailed, hlast] at hfailed
      cases hfailed
    | some failedAt =>
      refine ⟨failedAt, rfl, fun now hnow => ?_⟩
      have hlive := hnow.2.2 key hfailed
      rw [isFailed, hlast] at hlive
      exact hlive
  expired key hkey failedAt hlast := by
    have hfailed := fun h => hkey (.inl h)
    rw [isFailed, hlast] at hfailed
    exact Bool.eq_false_iff.mpr hfailed

theorem isFailed_iff (h : Recorded f₀ f start keys) (hnow : f₀.Lasting start now) (key : String) :
    f.isFailed now key = true ↔ f₀.isFailed start key = true ∨ key ∈ keys := by
  constructor
  · intro hfailed
    by_contra hkey
    cases hlast : f.lastFailure key with
    | none =>
      rw [isFailed, hlast] at hfailed
      cases hfailed
    | some failedAt =>
      rw [isFailed, hlast] at hfailed
      have hlive := of_decide_eq_true hfailed
      have hexpired := of_decide_eq_false (h.expired key hkey failedAt hlast)
      have hle := hnow.1
      omega
  · intro hkey
    obtain ⟨failedAt, hlast, hlive⟩ := h.lasting key hkey
    rw [isFailed, hlast]
    exact hlive now hnow

theorem cleanupExpired (h : Recorded f₀ f start keys) (hnow : f₀.Lasting start now) :
    Recorded f₀ (f.cleanupExpired now) start keys where
  failureTtl := (f.failureTtl_cleanupExpired now).trans h.failureTtl
  lasting key hkey := by
    obtain ⟨failedAt, hlast, hlive⟩ := h.lasting key hkey
    refine ⟨failedAt, ?_, fun now' hnow' => ?_⟩
    · rcases f.lastFailure_cleanupExpired now key with hkept | hfilter
      · exact hkept.trans hlast
      · rw [hfilter, hlast, Option.filter_some, if_pos (hlive now hnow)]
    · rw [live, failureTtl_cleanupExpired]
      exact hlive now' hnow'
  expired key hkey failedAt hlast := by
    have hold : f.lastFailure key = some failedAt := by
      rcases f.lastFailure_cleanupExpired now key with hkept | hfilter
      · exact hkept.symm.trans hlast
      · exact (Option.filter_eq_some_iff.mp (hfilter.symm.trans hlast)).1
    rw [live, failureTtl_cleanupExpired]
    exact h.expired key hkey failedAt hold

theorem markFailed (h : Recorded f₀ f start keys) (hle : start ≤ failedAt)
    (addr : WorkerNetAddress) :
    Recorded f₀ (f.markFailed failedAt addr) start (keys ++ [workerAddrKey addr]) where
  failureTtl := h.failureTtl
  lasting key hkey := by
    rw [lastFailure_markFailed]
    split
    case isTrue =>
      refine ⟨failedAt, rfl, fun now ⟨hnow, hend, _⟩ => decide_eq_true ?_⟩
      have httl : (f.markFailed failedAt addr).failureTtl = f₀.failureTtl := h.failureTtl
      omega
    case isFalse hne =>
      refine h.lasting key (hkey.imp_right fun hmem => ?_)
      exact (mem_append.mp hmem).resolve_right fun hlast =>
        hne (mem_singleton.mp hlast).symm
  expired key hkey failedAt' hlast := by
    rw [mem_append, ← or_assoc] at hkey
    obtain ⟨hold, hne⟩ := not_or.mp hkey
    rw [lastFailure_markFailed, if_neg fun heq => hne (mem_singleton.mpr heq.symm)]
      at hlast
    exact h.expired key hold failedAt' hlast

end Recorded

/-- The candidates that have an address and have not failed at `start`, each once. -/
def readOrder (v : WorkerRouterView) (start : Nat) (call : ReadCall) : List WorkerInfo :=
  firsts ((readCandidates v.workers v.hashRing call.blockId call.locations).filter
    (v.failures.eligible start))

section Failover

variable {v : WorkerRouterView} {f₀ : Failures} {start now : Nat} {kept : List WorkerInfo}
  {w w' : WorkerInfo} {workers : List WorkerInfo} {call : ReadCall}

theorem DistinctKeys.eq_of_addrKey (h : DistinctKeys workers) (hw : w ∈ workers)
    (hw' : w' ∈ workers) {key : String} (hkey : w.addrKey = some key)
    (hkey' : w'.addrKey = some key) : w = w' := by
  by_contra hne
  have hpairs := pairwise_filterMap.mp h
  have hsymm : Std.Symm fun a b : WorkerInfo =>
      ∀ x, a.addrKey = some x → ∀ y, b.addrKey = some y → x ≠ y :=
    ⟨fun _ _ hab x hx y hy heq => hab y hy x hx heq.symm⟩
  exact hpairs.forall hw hw' hne key hkey key hkey' rfl

theorem accepts_eq_isNew (hkeys : DistinctKeys workers)
    (hrecorded : Recorded f₀ v.failures start (kept.filterMap addrKey))
    (hnow : f₀.Lasting start now) (hkept : ∀ w ∈ kept, w ∈ workers) (hw : w ∈ workers) :
    accepts (v.failures.isFailed now) true w = (f₀.eligible start w && isNew kept w) := by
  unfold Failures.eligible
  cases haddr : w.address with
  | none => rw [accepts, haddr]; rfl
  | some addr =>
    have hkey : w.addrKey = some (workerAddrKey addr) := by rw [addrKey, haddr]; rfl
    have hmem : v.failures.isFailed now (workerAddrKey addr) = true ↔
        f₀.isFailed start (workerAddrKey addr) = true ∨ w ∈ kept := by
      rw [hrecorded.isFailed_iff hnow, mem_filterMap]
      refine or_congr_right ⟨?_, fun hw => ⟨w, hw, hkey⟩⟩
      rintro ⟨w', hw', hkey'⟩
      exact hkeys.eq_of_addrKey hw (hkept w' hw') hkey hkey' ▸ hw'
    simp only [accepts, haddr, Bool.not_true, Bool.false_or, Option.any_some, isNew]
    rw [Bool.eq_iff_iff, Bool.and_eq_true, decide_eq_true_eq, Bool.not_eq_true', Bool.not_eq_true',
      ← Bool.not_eq_true, ← Bool.not_eq_true, hmem, not_or]

theorem failover_step (hring : RingOf v.workers v.hashRing) (hkeys : DistinctKeys v.workers)
    (hkept : ∀ w ∈ kept, w ∈ v.workers)
    (hrecorded : Recorded f₀ v.failures start (kept.filterMap addrKey))
    (hnow : f₀.Lasting start now) {failedAt : Nat} (hfailedAt : start ≤ failedAt)
    (h : ((readCandidates v.workers v.hashRing call.blockId call.locations).filter
      (f₀.eligible start)).find? (isNew kept) = some w) :
    let out := v.selectWorkerForRead now call.blockId call.locations call.replication
      call.maxRetryNode
    let v' := out.2.markReturned failedAt out.1
    out.1 = .ok w ∧ w ∈ v.workers ∧ v'.workers = v.workers ∧ v'.hashRing = v.hashRing ∧
      Recorded f₀ v'.failures start ((kept ++ [w]).filterMap addrKey) := by
  intro out v'
  obtain ⟨hmem, heligible⟩ := mem_filter.mp (mem_of_find?_eq_some h)
  obtain ⟨addr, haddr⟩ : ∃ addr, w.address = some addr := by
    cases haddr : w.address with
    | none =>
      rw [Failures.eligible, haddr] at heligible
      cases heligible
    | some addr => exact ⟨addr, rfl⟩
  have hfind : (readCandidates v.workers v.hashRing call.blockId call.locations).find?
      (accepts (v.failures.isFailed now) true) = some w := by
    rw [← h, find?_filter]
    refine find?_congr fun x hx => ?_
    rw [accepts_eq_isNew hkeys hrecorded hnow hkept (mem_of_mem_readCandidates hx)]
    simp
  have hout : out.1 = .ok w := selectWorkerForRead_fst hring hfind
  obtain ⟨hworkers, hringEq, hkeptFailures⟩ := selectWorkersForRead_snd
    (P := fun f => Recorded f₀ f start (kept.filterMap addrKey))
    (fun f hf => hf.cleanupExpired hnow) hrecorded
  have hv' : v' = out.2.markFailed failedAt addr := by
    change out.2.markReturned failedAt out.1 = _
    rw [hout, markReturned, haddr]
    rfl
  rw [hv', filterMap_append]
  refine ⟨hout, mem_of_mem_readCandidates hmem, hworkers, hringEq, ?_⟩
  have hkey : [w].filterMap addrKey = [workerAddrKey addr] := by
    rw [filterMap_cons, addrKey, haddr]
    rfl
  rw [hkey]
  exact hkeptFailures.markFailed hfailedAt addr

/-- The calls return what a greedy pass over the eligible candidates adds to the workers
returned before. -/
theorem failover_from (call : ReadCall) : ∀ {times : List (Nat × Nat)} {v : WorkerRouterView}
    {kept : List WorkerInfo}, RingOf v.workers v.hashRing → DistinctKeys v.workers →
    (∀ w ∈ kept, w ∈ v.workers) →
    Recorded f₀ v.failures start (kept.filterMap addrKey) →
    (∀ t ∈ times, f₀.Lasting start t.1 ∧ start ≤ t.2) →
    ∃ rest, greedy isNew kept ((readCandidates v.workers v.hashRing call.blockId
        call.locations).filter (f₀.eligible start)) = kept ++ rest ∧
      (failover call times v).take rest.length = (rest.take times.length).map .ok := by
  intro times
  induction times with
  | nil =>
    intro v kept _ _ _ _ _
    have hpre : kept <+: greedy isNew kept ((readCandidates v.workers v.hashRing call.blockId
        call.locations).filter (f₀.eligible start)) := prefix_greedy
    obtain ⟨rest, hrest⟩ := hpre
    exact ⟨rest, hrest.symm, take_nil⟩
  | cons t times ih =>
    intro v kept hring hkeys hkept hrecorded htimes
    obtain ⟨hnow, hfailedAt⟩ := htimes t (mem_cons_self ..)
    cases hfind : ((readCandidates v.workers v.hashRing call.blockId call.locations).filter
        (f₀.eligible start)).find? (isNew kept) with
    | none =>
      refine ⟨[], ?_, rfl⟩
      rw [append_nil]
      exact greedy_eq_self fun x hx => Bool.eq_false_iff.mpr (find?_eq_none.mp hfind x hx)
    | some w =>
      obtain ⟨hout, hw, hworkers, hringEq, hrecorded'⟩ :=
        failover_step hring hkeys hkept hrecorded hnow hfailedAt hfind
      have hkept' : ∀ x ∈ kept ++ [w], x ∈ v.workers := fun x hx => by
        rcases mem_append.mp hx with hx | hx
        · exact hkept x hx
        · exact mem_singleton.mp hx ▸ hw
      obtain ⟨rest, hgreedy, hrest⟩ := ih (hworkers ▸ hringEq ▸ hring) (hworkers ▸ hkeys)
        (hworkers ▸ hkept') hrecorded' fun t' ht' => htimes t' (mem_cons_of_mem _ ht')
      refine ⟨w :: rest, ?_, ?_⟩
      · rw [hworkers, hringEq] at hgreedy
        rw [spends_isNew.greedy_of_find? hfind, hgreedy, append_assoc]
        rfl
      · rw [hout] at hrest
        rw [failover, hout]
        exact congrArg (cons (.ok w)) hrest

theorem mem_readOrder : w ∈ readOrder v start call ↔
    v.failures.eligible start w = true ∧ (w ∈ namedWorkers v.workers call.locations ∨
      w ∈ reachedWorkers v.workers v.hashRing call.blockId) := by
  rw [readOrder, mem_firsts, mem_filter, readCandidates, mem_append, and_comm]

theorem prefix_readOrder (v : WorkerRouterView) (start : Nat) (call : ReadCall) :
    firsts ((namedWorkers v.workers call.locations).filter (v.failures.eligible start)) <+:
      readOrder v start call := by
  rw [readOrder, readCandidates, filter_append, firsts, firsts, greedy_append]
  exact prefix_greedy

/-- Calls that are made while the failures of `start` and later ones count return the workers
that the locations name and then those that the attempts reach, each worker once that has an
address and has not failed at `start`. -/
theorem failover_in_order (v : WorkerRouterView) (hring : RingOf v.workers v.hashRing)
    (hkeys : DistinctKeys v.workers) (start : Nat) (call : ReadCall) (times : List (Nat × Nat))
    (htimes : ∀ t ∈ times, v.failures.Lasting start t.1 ∧ start ≤ t.2) :
    let order := readOrder v start call
    (failover call times v).take order.length = (order.take times.length).map .ok ∧ order.Nodup ∧
      firsts ((namedWorkers v.workers call.locations).filter (v.failures.eligible start)) <+:
        order ∧
      ∀ w, w ∈ order ↔ v.failures.eligible start w = true ∧
        (w ∈ namedWorkers v.workers call.locations ∨
          w ∈ reachedWorkers v.workers v.hashRing call.blockId) := by
  refine ⟨?_, nodup_firsts, prefix_readOrder v start call, fun w => mem_readOrder⟩
  have hnone : ∀ w ∈ ([] : List WorkerInfo), w ∈ v.workers := nofun
  obtain ⟨rest, hgreedy, hrest⟩ :=
    failover_from call hring hkeys hnone (Recorded.refl v.failures start) htimes
  rw [readOrder, firsts, hgreedy]
  exact hrest

end Failover

def readWorkers : List WorkerInfo :=
  [here, there, smallWorker 3 "far", smallWorker 4 "gone"]

/-- A view on which the last of the workers has failed at 5. -/
def readView : WorkerRouterView :=
  (fromWorkers readWorkers 60).markFailed 5 ⟨some "gone", some 9203⟩

/-- The locations name workers 4 and 3, the latter twice, and a worker that is not in the
list. -/
def readCall : ReadCall := ⟨35, [⟨some 4⟩, ⟨some 3⟩, ⟨none⟩, ⟨some 9⟩, ⟨some 3⟩], 1, 2⟩

theorem failover_in_order_read :
    RingOf readView.workers readView.hashRing ∧ DistinctKeys readView.workers ∧
      (∀ now ∈ [10, 12, 14], readView.failures.Lasting 10 now) ∧
      (failover readCall [(10, 11), (12, 13), (14, 15)] readView).take 3 =
        [.ok (smallWorker 3 "far"), .ok there, .ok here] := by
  have hring : RingOf readView.workers readView.hashRing :=
    ringOf_markFailed (ringOf_fromWorkers readWorkers 60) 5 _
  have hkeys : DistinctKeys readView.workers := by decide +kernel
  have hlasting : ∀ now ∈ [10, 12, 14], readView.failures.Lasting 10 now := by
    intro now hnow
    have hrange : 10 ≤ now ∧ now < 15 := by
      simp only [List.mem_cons, List.not_mem_nil, or_false] at hnow
      omega
    have hlast : ∀ key, readView.failures.lastFailure key = some 5 ∨
        readView.failures.lastFailure key = none := fun key => by
      unfold readView WorkerRouterView.markFailed
      rw [lastFailure_markFailed]
      split
      · exact .inl rfl
      · exact .inr rfl
    have httl : readView.failures.failureTtl = 60 := rfl
    refine ⟨hrange.1, by omega, fun key hfailed => ?_⟩
    rw [isFailed] at hfailed ⊢
    rcases hlast key with h | h
    · rw [h]
      exact decide_eq_true (by omega)
    · rw [h] at hfailed
      cases hfailed
  have horder : readOrder readView 10 readCall =
      [smallWorker 3 "far", there, here] := by decide +kernel
  have htimes : ∀ t ∈ [(10, 11), (12, 13), (14, 15)], t.1 ∈ [10, 12, 14] ∧ 10 ≤ t.2 := by decide
  have hresults := (failover_in_order readView hring hkeys 10 readCall
    [(10, 11), (12, 13), (14, 15)] fun t ht => ⟨hlasting t.1 (htimes t ht).1, (htimes t ht).2⟩).1
  rw [horder] at hresults
  exact ⟨hring, hkeys, hlasting, hresults⟩

/-- The only location names a worker without an address, so the other worker is returned,
and returned again once it has failed. -/
theorem failover_repeats :
    let v := fromWorkers [here, noAddress] 60
    let call : ReadCall := ⟨35, [⟨some 3⟩], 1, 2⟩
    DistinctKeys v.workers ∧ namedWorkers v.workers call.locations = [noAddress] ∧
      failover call [(0, 1), (2, 3)] v = [.ok here, .ok here] := by
  decide +kernel

end GooseFS.Router
