import GooseFS.Lib.Transition
import GooseFS.Block.RouterView
import GooseFS.IO.UfsDurability

/-!
# Blacklisting the worker of the UFS stream

When a write on the UFS stream fails, `handle_ufs_write_exception` tells the router that
the worker of the stream has failed.  The writer has only kept the endpoint of the worker,
so it takes the endpoint apart at its colons and makes a new address from the first two
parts.  The router then makes its own key from that address.

The endpoint puts `127.0.0.1` and `9203` where host and port are missing, and the key puts
`unknown` and `0`; and an IPv6 host has colons of its own.  Without brackets around it no
client is made for the endpoint, so that there is no stream to fail; with brackets there is.
The theorem this file exists for is `blacklists_iff`: the worker that counts as failed
afterwards is the worker of the stream if and only if its endpoint is refused or its address
has a host without a colon and a port.
-/

namespace GooseFS

open Lib Router List Option UfsM WorkerRouterView

/-! ## The address that is rebuilt -/

theorem toList_rpcEndpoint (addr : WorkerNetAddress) : (rpcEndpoint addr).toList =
    (addr.host.getD "127.0.0.1").toList ++ ':' :: (toString (addr.rpcPort.getD 9203)).toList := by
  rw [rpcEndpoint, String.toList_append, String.toList_append, append_assoc]
  simp

theorem toList_workerAddrKey (addr : WorkerNetAddress) : (workerAddrKey addr).toList =
    (addr.host.getD "unknown").toList ++ ':' :: (toString (addr.rpcPort.getD 0)).toList := by
  rw [workerAddrKey, String.toList_append, String.toList_append, append_assoc]
  simp

theorem colon_not_mem_port (port : Int32) : ':' ∉ (toString port).toList := by
  intro hc
  rcases mem_toString_int32 hc with h | h
  · revert h
    decide
  · revert h
    decide

variable {addr : WorkerNetAddress} {endpoint : String} {after before : UfsSide}
  {host rest : List Char} {setup : WriterSetup}

theorem parts_of_toList (hhost : ':' ∉ host) (h : endpoint.toList = host ++ ':' :: rest) :
    (endpoint.toList.splitOn ':').map String.ofList =
      String.ofList host :: (rest.splitOn ':').map String.ofList := by
  have hne : ∀ c ∈ host, (c == ':') = false := by
    intro c hc
    rw [beq_eq_false_iff_ne]
    rintro rfl
    exact hhost hc
  rw [h, splitOn_eq_splitOnP, splitOnP_append_cons_of_forall_mem hne ':' (by decide)]
  rfl

theorem host_failedAddress (hhost : ':' ∉ host) (h : endpoint.toList = host ++ ':' :: rest) :
    (failedAddress endpoint).host = some (String.ofList host) := by
  simp only [failedAddress, parts_of_toList hhost h]
  rfl

theorem failedAddress_of_toList {host : String} {port : Int32} (hhost : ':' ∉ host.toList)
    (h : endpoint.toList = host.toList ++ ':' :: (toString port).toList) :
    failedAddress endpoint = ⟨some host, some port⟩ := by
  have hport : (toString port).toList.splitOn ':' = [(toString port).toList] := by
    rw [splitOn_eq_splitOnP, splitOnP_eq_singleton]
    intro c hc
    rw [beq_eq_false_iff_ne]
    rintro rfl
    exact colon_not_mem_port port hc
  simp only [failedAddress, parts_of_toList hhost h, hport]
  simp only [map_cons, map_nil, headD_cons, String.ofList_toList,
    getElem?_cons_succ, getElem?_cons_zero, bind_some, parseInt32_toString]

def WorkerNetAddress.Plain (addr : WorkerNetAddress) : Prop :=
  ∃ host port, addr = ⟨some host, some port⟩ ∧ ':' ∉ host.toList

theorem failedAddress_rpcEndpoint (h : addr.Plain) :
    failedAddress (rpcEndpoint addr) = addr := by
  obtain ⟨host, port, rfl, hhost⟩ := h
  exact failedAddress_of_toList hhost (toList_rpcEndpoint _)

/-- The rebuilt address has the key of the worker only if nothing was missing and the host
has no colon. -/
theorem plain_of_key_eq
    (h : workerAddrKey (failedAddress (rpcEndpoint addr)) = workerAddrKey addr) :
    addr.Plain := by
  have hkey := congrArg String.toList h
  rw [toList_workerAddrKey, toList_workerAddrKey] at hkey
  obtain ⟨host, port⟩ := addr
  cases host with
  | none =>
    have hhost : ':' ∉ "127.0.0.1".toList := by decide
    have hrebuilt : failedAddress (rpcEndpoint ⟨none, port⟩) =
        ⟨some "127.0.0.1", some (port.getD 9203)⟩ :=
      failedAddress_of_toList hhost (toList_rpcEndpoint ⟨none, port⟩)
    rw [hrebuilt] at hkey
    have hhead := congrArg head? hkey
    simp at hhead
  | some host =>
    by_cases hcolon : ':' ∈ host.toList
    · obtain ⟨front, back, hsplit, hfront⟩ := eq_append_cons_of_mem hcolon
      have hendpoint : (rpcEndpoint ⟨some host, port⟩).toList =
          front ++ ':' :: (back ++ ':' :: (toString (port.getD 9203)).toList) := by
        rw [toList_rpcEndpoint, getD_some, hsplit, append_assoc, cons_append]
      rw [host_failedAddress hfront hendpoint, getD_some, getD_some, hsplit,
        String.toList_ofList, append_assoc] at hkey
      -- the key of the worker has a second colon
      have hport := (cons.inj (append_cancel_left hkey)).2
      refine absurd ?_ (colon_not_mem_port
        ((failedAddress (rpcEndpoint ⟨some host, port⟩)).rpcPort.getD 0))
      rw [hport]
      exact mem_append_right back mem_cons_self
    · have hrebuilt : failedAddress (rpcEndpoint ⟨some host, port⟩) =
          ⟨some host, some (port.getD 9203)⟩ :=
        failedAddress_of_toList hcolon (toList_rpcEndpoint ⟨some host, port⟩)
      rw [hrebuilt] at hkey
      have hport := (cons.inj (append_cancel_left hkey)).2
      cases port with
      | none =>
        have hdiff : (toString (9203 : Int32)).toList ≠ (toString (0 : Int32)).toList := by decide
        exact absurd hport hdiff
      | some port => exact ⟨host, port, rfl, hcolon⟩

/-! ## The stream and its failure -/

/-- The colons of an authority after its user information and a host in brackets. -/
def authorityColons : List Char → Nat → Nat
  | [], colons => colons
  | c :: rest, colons =>
    if c = '/' ∨ c = '?' ∨ c = '#' then colons
    else if c = ':' then authorityColons rest (colons + 1)
    else if c = ']' ∨ c = '@' then authorityColons rest 0
    else authorityColons rest colons

/-- The endpoints that a client can be made for.  `WorkerClient::connect` makes a URI of the
endpoint and refuses it where that fails, as it does at a second colon outside brackets. -/
structure Endpoints where
  valid : String → Bool
  refused : ∀ endpoint, 1 < authorityColons endpoint.toList 0 → valid endpoint = false

def UfsEnv.Dials (env : UfsEnv) (endpoints : Endpoints) : Prop :=
  ∀ endpoint, endpoints.valid endpoint = false → env.acquire endpoint ≠ none

def UfsSide.OpenedOn (addr : WorkerNetAddress) (s : UfsSide) : Prop :=
  s.stream.isSome = true ∧ s.workerAddr = some (rpcEndpoint addr)

def UfsSide.Reported (addr : WorkerNetAddress) (before after : UfsSide) : Prop :=
  ∃ ufs, after.events = before.events ++ [.cancelled ufs,
    .markFailed (failedAddress (rpcEndpoint addr)), .invalidate (rpcEndpoint addr)]

namespace UfsM

variable {setup : WriterSetup} {env : UfsEnv} {addr : WorkerNetAddress} {s s' : UfsSide}

theorem openUfsStream_openedOn {worker : GooseFS.WorkerInfo} (hpick : env.pickWorker = .ok worker)
    (haddr : worker.address = some addr) (hopen : openUfsStream env s = .ok () s') :
    s'.OpenedOn addr ∧ env.acquire (rpcEndpoint addr) = none := by
  unfold openUfsStream at hopen
  simp only [hpick, haddr] at hopen
  cases hacquire : env.acquire (rpcEndpoint addr) with
  | some e =>
    simp only [hacquire] at hopen
    cases hopen
  | none =>
    cases hstream : env.openStream with
    | some e =>
      simp only [hacquire, hstream] at hopen
      cases hopen
    | none =>
      simp only [hacquire, hstream] at hopen
      cases hopen
      exact ⟨⟨rfl, rfl⟩, rfl⟩

theorem handleUfsWriteException_reports {endpoint : String} {ufs : GrpcBlockWriter}
    {events : List UfsEvent} (err : Error) {Q : Unit → UfsSide → Prop} :
    Sat (· = ⟨some ufs, some endpoint, events⟩) (handleUfsWriteException err) Q
      (fun _ s => s.events = events ++
        [.cancelled ufs, .markFailed (failedAddress endpoint), .invalidate endpoint]) := by
  rintro _ rfl
  show (events ++ [.cancelled ufs]) ++ [.markFailed _, .invalidate _] = _
  rw [append_assoc]
  rfl

theorem writeToUfsStream_openedOn (data : Bytes) (hs : s.OpenedOn addr) :
    Sat (· = s) (writeToUfsStream setup env data) (fun _ => UfsSide.OpenedOn addr)
      (fun _ => UfsSide.Reported addr s) := by
  obtain ⟨hstream, hworker⟩ := hs
  obtain ⟨ufs, hufs⟩ := isSome_iff_exists.mp hstream
  refine Sat.seq ?_ fun _ => Sat.get fun s₁ hs₁ => ?_
  · refine Sat.get fun s₁ hs₁ => ?_
    subst hs₁
    rw [hufs]
    exact Sat.pure fun _ h => h
  · subst hs₁
    simp only [hufs]
    rcases ufs.writeAll env.send data setup.config.chunkSize with ⟨res, ufs'⟩
    cases res with
    | ok u =>
      refine Sat.bind (R := fun _ => UfsSide.OpenedOn addr) (Sat.modify ?_) fun _ =>
        Sat.pure fun _ h => h
      rintro _ rfl
      exact ⟨rfl, hworker⟩
    | error e =>
      refine Sat.bind (R := fun _ => (· = ⟨some ufs', some (rpcEndpoint addr), s₁.events⟩))
        (Sat.modify ?_) fun _ => ?_
      · rintro _ rfl
        rw [hworker]
      · exact (handleUfsWriteException_reports e).post (fun _ _ h => h) fun _ _ h => ⟨ufs', h⟩

theorem flush_openedOn (hs : s.OpenedOn addr) :
    Sat (· = s) (flush env) (fun _ => UfsSide.OpenedOn addr) (fun _ => UfsSide.OpenedOn addr) := by
  refine Sat.get fun s₁ hs₁ => ?_
  subst hs₁
  obtain ⟨hstream, hworker⟩ := hs
  obtain ⟨ufs, hufs⟩ := isSome_iff_exists.mp hstream
  simp only [hufs]
  rcases ufs.flush env.flush with ⟨res, ufs'⟩
  have hset : Sat (· = s₁) (modify fun s => { s with stream := some ufs' } : UfsM PUnit)
      (fun _ => UfsSide.OpenedOn addr) (fun _ => UfsSide.OpenedOn addr) := by
    refine Sat.modify ?_
    rintro _ rfl
    exact ⟨rfl, hworker⟩
  refine Sat.bind hset fun _ => ?_
  cases res with
  | ok n => exact Sat.pure fun _ h => h
  | error e => exact Sat.throw fun _ h => h

end UfsM

inductive UfsCall where
  | write (env : UfsEnv) (data : Bytes)
  | flush (env : UfsEnv)

/-- The state after a call that leaves the stream open: a write that succeeds, or a flush. -/
def UfsCall.run (setup : WriterSetup) (s : UfsSide) : UfsCall → Option UfsSide
  | .write env data =>
    match writeToUfsStream setup env data s with
    | .ok _ s' => some s'
    | .error _ _ => none
  | .flush env =>
    match UfsM.flush env s with
    | .ok _ s' => some s'
    | .error _ s' => some s'

/-- A stream is opened on the worker with the address `addr`, and after calls that leave it
open a write on it fails. -/
inductive FailedUfsWrite (endpoints : Endpoints) (setup : WriterSetup) (addr : WorkerNetAddress) :
    UfsSide → UfsSide → Prop where
  | intro {env env' : UfsEnv} {worker : GooseFS.WorkerInfo} {start opened before after : UfsSide}
      {calls : List UfsCall} {data : Bytes} {e : Error} : env.Dials endpoints →
      env.pickWorker = .ok worker → worker.address = some addr →
      openUfsStream env start = .ok () opened →
      Guarded (UfsCall.run setup) (fun _ _ => True) opened calls before →
      writeToUfsStream setup env' data before = .error e after →
      FailedUfsWrite endpoints setup addr before after

theorem UfsCall.run_openedOn {s s' : UfsSide} {call : UfsCall} (hs : s.OpenedOn addr)
    (hrun : call.run setup s = some s') : s'.OpenedOn addr := by
  cases call with
  | write env data =>
    have hsat : Sat (· = s) (writeToUfsStream setup env data) _ _ :=
      UfsM.writeToUfsStream_openedOn data hs
    rw [run] at hrun
    cases hout : writeToUfsStream setup env data s with
    | ok u s₁ =>
      rw [hout] at hrun
      cases hrun
      exact hsat.ok rfl hout
    | error e s₁ =>
      rw [hout] at hrun
      cases hrun
  | flush env =>
    have hsat : Sat (· = s) (UfsM.flush env) _ _ := UfsM.flush_openedOn hs
    rw [run] at hrun
    cases hout : UfsM.flush env s with
    | ok u s₁ =>
      rw [hout] at hrun
      cases hrun
      exact hsat.ok rfl hout
    | error e s₁ =>
      rw [hout] at hrun
      cases hrun
      exact hsat.error rfl hout

variable {endpoints : Endpoints}

theorem FailedUfsWrite.reported (h : FailedUfsWrite endpoints setup addr before after) :
    UfsSide.Reported addr before after := by
  cases h with
  | intro _ hpick haddr hopen hcalls hfail =>
    have hopened : before.OpenedOn addr :=
      hcalls.invariant (fun _ _ _ hs _ hrun => UfsCall.run_openedOn hs hrun)
        (UfsM.openUfsStream_openedOn hpick haddr hopen).1
    exact (UfsM.writeToUfsStream_openedOn _ hopened).error rfl hfail

theorem FailedUfsWrite.valid (h : FailedUfsWrite endpoints setup addr before after) :
    endpoints.valid (rpcEndpoint addr) = true := by
  cases h with
  | intro hdials hpick haddr hopen _ _ =>
    by_contra hvalid
    exact hdials _ (Bool.eq_false_iff.mpr hvalid)
      (UfsM.openUfsStream_openedOn hpick haddr hopen).2

/-! ## What the router makes of it -/

def Router.WorkerRouterView.observe (v : WorkerRouterView) (now : Nat) (events : List UfsEvent) :
    WorkerRouterView :=
  events.foldl (fun v e =>
    match e with
    | .markFailed addr => v.markFailed now addr
    | _ => v) v

/-- From `v` to `v'` the worker with the address `addr` has become the only new failed one:
as long as the failure counts and another worker is eligible, the worker is not picked, and
the others are what they were. -/
structure Router.WorkerRouterView.Blacklists (v v' : WorkerRouterView) (now : Nat)
    (addr : WorkerNetAddress) : Prop where
  notPicked : ∀ later random, later - now < v.failures.failureTtl →
    (∃ w ∈ v.workers, v'.failures.eligible later w = true) →
    ∃ w ∈ v.workers, (v'.pickAnyWorker later random).1 = .ok w ∧
      w.address.map workerAddrKey ≠ some (workerAddrKey addr)
  others : ∀ later other, workerAddrKey other ≠ workerAddrKey addr →
    v'.failures.isFailed later (workerAddrKey other) =
      v.failures.isFailed later (workerAddrKey other)

theorem Router.Failures.isFailed_markFailed (f : Failures) (now later : Nat)
    (addr : WorkerNetAddress) (key : String) : (f.markFailed now addr).isFailed later key =
      if workerAddrKey addr = key then decide (later - now < f.failureTtl)
      else f.isFailed later key := by
  rw [isFailed, lastFailure_markFailed]
  split
  · rfl
  · rfl

theorem Router.WorkerRouterView.blacklists_markFailed (v : WorkerRouterView) (now : Nat)
    (addr : WorkerNetAddress) : v.Blacklists (v.markFailed now addr) now addr where
  notPicked := by
    intro later random hlater heligible
    obtain ⟨w, hmem, hpick, helig⟩ :=
      (v.markFailed now addr).pickAnyWorker_eligible heligible random
    refine ⟨w, hmem, hpick, fun hkey => ?_⟩
    obtain ⟨waddr, haddr, hkey⟩ := map_eq_some_iff.mp hkey
    -- the failure counts, so the worker would not be eligible
    have hfailed : (v.markFailed now addr).failures.isFailed later (workerAddrKey waddr) = true := by
      show (v.failures.markFailed now addr).isFailed later _ = true
      rw [Failures.isFailed_markFailed, if_pos hkey.symm, decide_eq_true hlater]
    rw [Failures.eligible, haddr] at helig
    simp only [hfailed] at helig
    cases helig
  others := by
    intro later other hne
    show (v.failures.markFailed now addr).isFailed later _ = _
    rw [Failures.isFailed_markFailed, if_neg hne.symm]

theorem Router.WorkerRouterView.observe_reported (h : UfsSide.Reported addr before after)
    (v : WorkerRouterView) (now : Nat) : v.observe now (after.events.drop before.events.length) =
      v.markFailed now (failedAddress (rpcEndpoint addr)) := by
  obtain ⟨ufs, hevents⟩ := h
  rw [hevents, drop_left]
  rfl

/-- Every valid endpoint answers, and no chunk is taken. -/
def refusingUfs (endpoints : Endpoints) (addr : WorkerNetAddress) : UfsEnv :=
  ⟨.ok ⟨none, some addr, none, true⟩, fun endpoint => if endpoints.valid endpoint then none
    else some (.configError "invalid worker endpoint: invalid authority"), none, fun _ => false,
    .ack none, .done⟩

theorem exists_failedUfsWrite (h : endpoints.valid (rpcEndpoint addr) = true) :
    ∃ before after, FailedUfsWrite endpoints (Session.smallSetup 3) addr before after := by
  have hdials : (refusingUfs endpoints addr).Dials endpoints := by
    intro endpoint hinvalid
    simp [refusingUfs, hinvalid]
  have hopen : openUfsStream (refusingUfs endpoints addr) ⟨none, none, []⟩ =
      .ok () ⟨some (GrpcBlockWriter.openStream (-1)), some (rpcEndpoint addr), []⟩ := by
    unfold openUfsStream refusingUfs
    simp only [if_pos h]
    rfl
  have hwrite : ∃ e after, writeToUfsStream (Session.smallSetup 3) (refusingUfs endpoints addr)
      [0] ⟨some (GrpcBlockWriter.openStream (-1)), some (rpcEndpoint addr), []⟩ = .error e after :=
    ⟨_, _, rfl⟩
  obtain ⟨e, after, hwrite⟩ := hwrite
  exact ⟨_, after, .intro hdials rfl rfl hopen (.nil _) hwrite⟩

/-- The worker of a stream on which a write fails is the one that the router then considers
failed if and only if no client is made for its endpoint, so that no stream is opened on it,
or its address has a host without a colon and a port. -/
theorem blacklists_iff (endpoints : Endpoints) (addr : WorkerNetAddress) :
    (∀ (setup : WriterSetup) (before after : UfsSide),
      FailedUfsWrite endpoints setup addr before after → ∀ (v : WorkerRouterView) (now : Nat),
        v.Blacklists (v.observe now (after.events.drop before.events.length)) now addr) ↔
      endpoints.valid (rpcEndpoint addr) = false ∨ addr.Plain := by
  constructor
  · intro h
    rw [← Bool.not_eq_true, ← imp_iff_not_or]
    intro hvalid
    obtain ⟨before, after, hfailed⟩ := exists_failedUfsWrite hvalid
    let v := fromWorkers [] 60
    have hothers := (h _ before after hfailed v 0).others 0
      (UfsM.failedAddress (rpcEndpoint addr))
    apply plain_of_key_eq
    by_contra hne
    -- the rebuilt address is new among the failed ones
    have hsame := hothers hne
    rw [v.observe_reported hfailed.reported] at hsame
    have hmarked : (v.failures.markFailed 0 (UfsM.failedAddress (rpcEndpoint addr))).isFailed 0
        (workerAddrKey (UfsM.failedAddress (rpcEndpoint addr))) = true := by
      rw [Failures.isFailed_markFailed, if_pos rfl]
      rfl
    rw [show (v.markFailed 0 _).failures = v.failures.markFailed 0 _ from rfl, hmarked] at hsame
    cases hsame
  · intro h setup before after hfailed v now
    have hplain : addr.Plain := h.resolve_left (by rw [hfailed.valid]; decide)
    rw [v.observe_reported hfailed.reported, failedAddress_rpcEndpoint hplain]
    exact v.blacklists_markFailed now addr

example (endpoints : Endpoints) :
    endpoints.valid (rpcEndpoint ⟨some "fd00::1", some 9203⟩) = false :=
  endpoints.refused _ (by decide +kernel)

/-- Nothing but a second colon makes an endpoint invalid. -/
def colonEndpoints : Endpoints :=
  ⟨fun endpoint => authorityColons endpoint.toList 0 ≤ 1,
    fun _ h => decide_eq_false (Nat.not_le_of_lt h)⟩

def addressed (id : Int64) (addr : WorkerNetAddress) : Router.WorkerInfo :=
  { State.smallWorker id "" with address := some addr }

/-- The worker stays eligible after its stream has failed: its host is cut at the first colon,
or its missing port becomes the default port. -/
theorem blacklist_misses :
    let v6 : WorkerNetAddress := ⟨some "[fd00::1]", some 9203⟩
    let portless : WorkerNetAddress := ⟨some "w1", none⟩
    let other : WorkerNetAddress := ⟨some "w2", some 9203⟩
    (∃ before after, FailedUfsWrite colonEndpoints (Session.smallSetup 3) v6 before after ∧
      let v := (fromWorkers [addressed 1 v6, addressed 2 other] 60).observe 0
        (after.events.drop before.events.length)
      (v.pickAnyWorker 1 0).1 = .ok (addressed 1 v6) ∧
        v.failures.isFailed 1 (workerAddrKey ⟨some "[fd00", none⟩) = true) ∧
    ∃ before after, FailedUfsWrite colonEndpoints (Session.smallSetup 3) portless before after ∧
      let v := (fromWorkers [addressed 1 portless, addressed 2 other] 60).observe 0
        (after.events.drop before.events.length)
      (v.pickAnyWorker 1 0).1 = .ok (addressed 1 portless) ∧
        v.failures.isFailed 1 (workerAddrKey ⟨some "w1", some 9203⟩) = true := by
  intro v6 portless other
  constructor
  · obtain ⟨before, after, hfailed⟩ := exists_failedUfsWrite
      (show colonEndpoints.valid (rpcEndpoint v6) = true by decide +kernel)
    refine ⟨before, after, hfailed, ?_⟩
    simp only [observe_reported hfailed.reported]
    decide +kernel
  · obtain ⟨before, after, hfailed⟩ := exists_failedUfsWrite
      (show colonEndpoints.valid (rpcEndpoint portless) = true by decide +kernel)
    refine ⟨before, after, hfailed, ?_⟩
    simp only [observe_reported hfailed.reported]
    decide +kernel

end GooseFS
