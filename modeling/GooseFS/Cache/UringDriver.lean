import GooseFS.Cache.UringStore
import GooseFS.Lib.Pool

/-!
# Callers, rings and descriptors of the io_uring store

The operations of `UringPageStore` as tasks that submit requests, await them or give
up on them, and the threads of the driver as tasks that move the requests: from a
channel to the submission queue, and to the caller, or back to the queue after a short
transfer.

A descriptor is a number that is never used twice, unlike the numbers of the kernel.
It passes from a completed `OpenAt` to the call that awaits it, and from there to a
cache, to a `Close` request or to the end of its last handle.  `lost` collects the
descriptors that drop out of this chain: those that an `OpenAt` opens after its caller
has given up, and those of a `Close` that is rejected by a full submission queue.
-/

namespace GooseFS

open Lib

inductive UringOp where
  | openAt
  | read (fd : Nat)
  | write (fd : Nat)
  | close (fd : Nat)
  | unlinkAt
  deriving DecidableEq

/-- Where a request is: in the channel of a ring, submitted, waiting to be pushed again, or
completed with an error or with what the kernel returned. -/
inductive RequestStage where
  | channel (ring : Nat)
  | submitted (ring : Nat)
  | retry (ring : Nat)
  | completed (result : Except Nat (Option Nat))
  deriving DecidableEq

/-- `live` says that the future that awaits the request exists and has not returned. -/
structure IoRequest where
  op : UringOp
  length : Nat
  transferred : Nat
  stage : RequestStage
  live : Bool
  deriving DecidableEq

namespace IoRequest

def completed (q : IoRequest) : Bool :=
  match q.stage with
  | .completed _ => true
  | _ => false

def queued (q : IoRequest) : Bool :=
  match q.stage with
  | .channel _ => true
  | .retry _ => true
  | _ => false

theorem not_completed_of_queued {q : IoRequest} (h : q.queued = true) : q.completed = false := by
  unfold queued at h
  unfold completed
  cases hs : q.stage <;> simp_all

def fail (q : IoRequest) : IoRequest := { q with stage := .completed (.error eio) }

def pushable (q : IoRequest) : Bool :=
  match q.op with
  | .read _ => bufferUsableForTransfer q.transferred q.length q.length
  | .write _ => bufferUsableForTransfer q.transferred q.length q.length
  | _ => true

end IoRequest

/-! ## The state of the process -/

/-- The keys of `PAGE_FD_CACHE` and of the directory fd caches. -/
inductive FdKey where
  | page (page : PageId)
  | dir (root : StoreRoot) (fileId : String)
  deriving DecidableEq

inductive FdEvent where
  | pushedWrite (fd : Nat)
  | pushedClose (fd : Nat)
  | closed (fd : Nat)
  deriving DecidableEq

/-- A request is known by its place in `requests`, which is also its place in the channel
of its ring.  `refs` are the counts of the handles that share a cached descriptor. -/
structure UringState where
  requests : List IoRequest
  threadSelector : Nat
  nextFd : Nat
  cache : List (FdKey × Nat)
  refs : Nat → Nat
  log : List FdEvent
  lost : List Nat

namespace UringState

variable (m : UringState)

def record (e : FdEvent) : UringState := { m with log := m.log ++ [e] }

def setRequest (r : Nat) (q : IoRequest) : UringState := { m with requests := m.requests.set r q }

/-- `submit_request` to the next of the rings; a request that finds the channel full has
failed. -/
def submit (rings : Nat) (op : UringOp) (length : Nat) (full : Bool) : UringState :=
  let q : IoRequest := ⟨op, length, 0, .channel (m.threadSelector % rings), true⟩
  { m with
    requests := m.requests ++ [if full then q.fail else q]
    threadSelector := m.threadSelector + 1 }

def await (r : Nat) (timeout : Bool) : Option (UringState × Option (Except Nat (Option Nat))) :=
  match m.requests[r]? with
  | none => none
  | some q =>
    match q.stage, timeout with
    | .completed result, false => some (m.setRequest r { q with live := false }, some result)
    | .completed _, true => none
    | _, true => some (m.setRequest r { q with live := false }, none)
    | _, false => none

theorem await_cases {m m' : UringState} {r : Nat} {timeout : Bool}
    {res : Option (Except Nat (Option Nat))} (h : m.await r timeout = some (m', res)) :
    ∃ q, m.requests[r]? = some q ∧ m' = m.setRequest r { q with live := false } ∧
      (∀ result, q.stage = .completed result ↔ res = some result) ∧
      (q.completed = true ∨ timeout = true) := by
  unfold await at h
  split at h
  · cases h
  · next q hq =>
    refine ⟨q, hq, ?_⟩
    split at h
    · next result hstage =>
      cases h
      refine ⟨rfl, fun result' => by rw [hstage]; simp, .inl ?_⟩
      rw [IoRequest.completed, hstage]
    · cases h
    · next hstage =>
      cases h
      exact ⟨rfl, fun result' => ⟨fun heq => (hstage result' heq).elim, fun heq => by cases heq⟩,
        .inr rfl⟩
    · cases h

/-- `libc::close`, and the end of a handle that is not shared. -/
def closeNow (fd : Nat) : UringState := m.record (.closed fd)

def closeFdBackground (rings fd : Nat) (full : Bool) : UringState :=
  let q : IoRequest := ⟨.close fd, 0, 0, .channel (m.threadSelector % rings), false⟩
  let m := { m with threadSelector := m.threadSelector + 1 }
  if full then m.closeNow fd else { m with requests := m.requests ++ [q] }

def openNow : UringState := { m with nextFd := m.nextFd + 1 }

def lookup (key : FdKey) : Option Nat := (m.cache.find? fun e => e.1 = key).map Prod.snd

def clone (fd : Nat) : UringState :=
  { m with refs := Function.update m.refs fd (m.refs fd + 1) }

def dropRef (fd : Nat) : UringState :=
  let m' := { m with refs := Function.update m.refs fd (m.refs fd - 1) }
  if m.refs fd = 1 then m'.closeNow fd else m'

def removeEntry (key : FdKey) : UringState :=
  match m.cache.find? fun e => e.1 = key with
  | none => m
  | some e => ({ m with cache := m.cache.erase e } : UringState).dropRef e.2

def insertEntry (key : FdKey) (fd : Nat) : UringState :=
  { m with cache := (key, fd) :: m.cache, refs := Function.update m.refs fd 1 }

/-! ## The rings -/

/-- `push_to_sq`: the request `r`, at `q`, is pushed by ring `k`. -/
def pushToSq (k r : Nat) (q : IoRequest) (full : Bool) : UringState :=
  if q.pushable = false ∨ full = true then
    let m := m.setRequest r q.fail
    match q.op with
    | .close fd => { m with lost := m.lost ++ [fd] }
    | _ => m
  else
    let m := m.setRequest r { q with stage := .submitted k }
    match q.op with
    | .write fd => m.record (.pushedWrite fd)
    | .close fd => m.record (.pushedClose fd)
    | _ => m

def received (k r : Nat) (q : IoRequest) : Bool :=
  q.stage = .channel k && (m.requests.take r).all (fun u => u.stage ≠ .channel k) &&
    m.requests.all fun u => u.stage ≠ .retry k

/-- `process_completions` for one request: `result` is the error of the kernel, or the
number it returns for a transfer.  A `Close` releases the descriptor even when it reports
an error. -/
def reap (k r : Nat) (q : IoRequest) (result : Except Nat Nat) : UringState :=
  match q.op, result with
  | .close fd, .error e => (m.setRequest r { q with stage := .completed (.error e) }).closeNow fd
  | .close fd, .ok _ => (m.setRequest r { q with stage := .completed (.ok none) }).closeNow fd
  | _, .error e => m.setRequest r { q with stage := .completed (.error e) }
  | .openAt, .ok _ =>
    let m' := { m.setRequest r { q with stage := .completed (.ok (some m.nextFd)) } with
      nextFd := m.nextFd + 1 }
    if q.live then m' else { m' with lost := m'.lost ++ [m.nextFd] }
  | .read _, .ok n =>
    let q := { q with transferred := q.transferred + n }
    if n = 0 ∨ q.length ≤ q.transferred then
      m.setRequest r { q with stage := .completed (.ok none) }
    else m.setRequest r { q with stage := .retry k }
  | .write _, .ok n =>
    let q := { q with transferred := q.transferred + n }
    if q.length ≤ q.transferred then m.setRequest r { q with stage := .completed (.ok none) }
    else m.setRequest r { q with stage := .retry k }
  | .unlinkAt, .ok _ => m.setRequest r { q with stage := .completed (.ok none) }

inductive Pushes (k r : Nat) (q : IoRequest) : Bool → UringState → Prop where
  | failed (full : Bool) (hop : ∀ fd, q.op ≠ .close fd) : Pushes k r q full (m.setRequest r q.fail)
  | lost (fd : Nat) (hop : q.op = .close fd) :
      Pushes k r q true { m.setRequest r q.fail with lost := m.lost ++ [fd] }
  | write (fd : Nat) (hop : q.op = .write fd) : Pushes k r q false
      ((m.setRequest r { q with stage := .submitted k }).record (.pushedWrite fd))
  | close (fd : Nat) (hop : q.op = .close fd) : Pushes k r q false
      ((m.setRequest r { q with stage := .submitted k }).record (.pushedClose fd))
  | other (hop : ∀ fd, q.op ≠ .close fd) : Pushes k r q false
      (m.setRequest r { q with stage := .submitted k })

theorem pushes_pushToSq (k r : Nat) (q : IoRequest) (full : Bool) :
    m.Pushes k r q full (m.pushToSq k r q full) := by
  unfold pushToSq
  split
  · next hfails =>
    split
    · next fd hop =>
      -- a `Close` has no buffer, so it is the queue that rejects it
      have hfull : full = true := hfails.resolve_left (by rw [IoRequest.pushable, hop]; simp)
      exact hfull ▸ .lost fd hop
    · next hop => exact .failed full hop
  · next hpushed =>
    have hfull : full = false := Bool.eq_false_iff.2 fun h => hpushed (.inr h)
    subst hfull
    split
    · next fd hop => exact .write fd hop
    · next fd hop => exact .close fd hop
    · next hwrite hclose => exact .other hclose

inductive Reaps (r : Nat) (q : IoRequest) : Except Nat Nat → UringState → Prop where
  | closed (result : Except Nat Nat) (answer : Except Nat (Option Nat)) (fd : Nat)
      (hop : q.op = .close fd) : Reaps r q result
        ((m.setRequest r { q with stage := .completed answer }).closeNow fd)
  | opened (n : Nat) (hop : q.op = .openAt) (hlive : q.live = true) : Reaps r q (.ok n)
      { m.setRequest r { q with stage := .completed (.ok (some m.nextFd)) } with
        nextFd := m.nextFd + 1 }
  | orphaned (n : Nat) (hop : q.op = .openAt) (hlive : q.live = false) : Reaps r q (.ok n)
      { m.setRequest r { q with stage := .completed (.ok (some m.nextFd)) } with
        nextFd := m.nextFd + 1, lost := m.lost ++ [m.nextFd] }
  | moved (result : Except Nat Nat) (stage : RequestStage) (transferred : Nat)
      (hop : ∀ fd, q.op ≠ .close fd) (hfd : ∀ fd, stage ≠ .completed (.ok (some fd)))
      (hopen : q.op = .openAt → ∃ e, result = .error e) : Reaps r q result
        (m.setRequest r { q with stage := stage, transferred := transferred })

theorem reaps_reap (k r : Nat) (q : IoRequest) (result : Except Nat Nat) :
    m.Reaps r q result (m.reap k r q result) := by
  obtain ⟨op, length, transferred, stage, live⟩ := q
  cases result with
  | error e =>
    cases op with
    | close fd => exact .closed _ _ fd rfl
    | _ => exact .moved _ _ _ (by simp) (by simp) fun _ => ⟨e, rfl⟩
  | ok n =>
    cases op with
    | close fd => exact .closed _ _ fd rfl
    | openAt =>
      cases live with
      | true => exact .opened n rfl rfl
      | false => exact .orphaned n rfl rfl
    | unlinkAt => exact .moved _ _ _ (by simp) (by simp) (by simp)
    | read fd | write fd =>
      simp only [reap]
      split <;> exact .moved _ _ _ (by simp) (by simp) (by simp)

end UringState

/-! ## Tasks -/

inductive AfterDrop where
  | dirLookup
  | finished
  /-- The page is open. -/
  | readPage (fd : Nat)
  deriving DecidableEq

inductive AfterRemove where
  /-- The entry has expired. -/
  | expired (fd : Nat)
  /-- The read of a cached page has failed. -/
  | readFailed (fd : Nat)
  | stored
  | deleting
  deriving DecidableEq

inductive UringPc where
  /-- `get_bytes` -/
  | lookup
  | remove (k : AfterRemove)
  | drop (fd : Nat) (k : AfterDrop)
  | readHit (fd : Nat)
  | waitHit (fd r : Nat)
  | dirLookup
  | openDir
  | waitDir (r : Nat)
  | insertDir (fd : Nat)
  | openPage (dir : Nat)
  | waitPage (dir r : Nat)
  | readPage (fd : Nat)
  | waitRead (fd r : Nat)
  | insertPage (fd : Nat)
  | close (fd : Nat) (stored : Bool)
  /-- `put` -/
  | openTmp
  | waitTmp (r : Nat)
  | write (fd : Nat)
  | waitWrite (fd r : Nat)
  | rename
  | unlink
  | waitUnlink (r : Nat)
  | finished
  deriving DecidableEq

/-- An operation on a page of a store; `length` is the length of its transfer. -/
structure UringCall where
  root : StoreRoot
  preadEnabled : Bool
  page : PageId
  length : Nat
  pc : UringPc
  deriving DecidableEq

inductive UringTask where
  | call (c : UringCall)
  | ring (k : Nat)
  /-- The cap of the page fd cache and the cleanup of the directory fd caches. -/
  | evictor
  deriving DecidableEq

inductive UringInput where
  | go
  /-- The channel of the next ring is full. -/
  | full
  /-- A synchronous operation fails. -/
  | failed
  | expired
  | timeout
  | receive (r : Nat) (full : Bool)
  | resubmit (r : Nat) (full : Bool)
  | reap (r : Nat) (result : Except Nat Nat)
  | evict (key : FdKey)

def UringInput.isFull : UringInput → Option Bool
  | .go => some false
  | .full => some true
  | _ => none

def UringInput.isTimeout : UringInput → Option Bool
  | .go => some false
  | .timeout => some true
  | _ => none

def UringInput.succeeds : UringInput → Option Bool
  | .go => some true
  | .failed => some false
  | _ => none

def UringInput.isRing : UringInput → Bool
  | .receive _ _ => true
  | .resubmit _ _ => true
  | .reap _ _ => true
  | _ => false

def UringInput.pushed : UringInput → Option Nat
  | .receive r false => some r
  | .resubmit r false => some r
  | _ => none

def UringInput.rejected : UringInput → Option Nat
  | .receive r true => some r
  | .resubmit r true => some r
  | _ => none

/-- The request that the kernel has carried out. -/
def UringInput.succeeded : UringInput → Option Nat
  | .reap r (.ok _) => some r
  | _ => none

def AfterDrop.pc : AfterDrop → UringPc
  | .dirLookup => .dirLookup
  | .finished => .finished
  | .readPage fd => .readPage fd

def AfterRemove.pc : AfterRemove → UringPc
  | .expired fd => .drop fd .dirLookup
  | .readFailed fd => .drop fd .finished
  | .stored => .finished
  | .deleting => .unlink

namespace UringCall

variable (rings : Nat) (m : UringState) (c : UringCall)

def submits (op : UringOp) (length : Nat) (x : UringInput) (k : Nat → UringPc) :
    Option (UringState × UringPc) :=
  x.isFull.map fun full => (m.submit rings op length full, k m.requests.length)

def awaits (r : Nat) (x : UringInput) (ok err : UringPc) : Option (UringState × UringPc) :=
  x.isTimeout.bind fun timeout => (m.await r timeout).map fun out =>
    match out.2 with
    | some (.ok _) => (out.1, ok)
    | _ => (out.1, err)

def awaitsFd (r : Nat) (x : UringInput) (ok : Nat → UringPc) (err : UringPc) :
    Option (UringState × UringPc) :=
  x.isTimeout.bind fun timeout => (m.await r timeout).map fun out =>
    match out.2 with
    | some (.ok (some fd)) => (out.1, ok fd)
    | _ => (out.1, err)

def opensNow (x : UringInput) (ok : Nat → UringPc) (err : UringPc) :
    Option (UringState × UringPc) :=
  x.succeeds.map fun success => if success then (m.openNow, ok m.nextFd) else (m, err)

def next (x : UringInput) : Option (UringState × UringPc) :=
  match c.pc with
  | .lookup =>
    match m.lookup (.page c.page), x with
    | none, .go => some (m, .dirLookup)
    | some fd, .go => some (m.clone fd, .readHit fd)
    | some fd, .expired => some (m.clone fd, .remove (.expired fd))
    | _, _ => none
  | .remove k =>
    match x with
    | .go => some (m.removeEntry (.page c.page), k.pc)
    | _ => none
  | .drop fd k =>
    match x with
    | .go => some (m.dropRef fd, k.pc)
    | _ => none
  | .readHit fd =>
    if c.preadEnabled then
      x.succeeds.map fun success =>
        (m, if success then .drop fd .finished else .remove (.readFailed fd))
    else submits rings m (.read fd) c.length x (.waitHit fd)
  | .waitHit fd r => awaits m r x (.drop fd .finished) (.remove (.readFailed fd))
  | .dirLookup =>
    match m.lookup (.dir c.root c.page.fileId), x with
    | none, .go => some (m, .openDir)
    | some dir, .go => some (m.clone dir, .openPage dir)
    | _, _ => none
  | .openDir =>
    if c.preadEnabled then opensNow m x .insertDir .finished
    else submits rings m .openAt 0 x .waitDir
  | .waitDir r => awaitsFd m r x .insertDir .finished
  | .insertDir fd =>
    match m.lookup (.dir c.root c.page.fileId), x with
    -- another call has won the race
    | some dir, .go => some ((m.closeNow fd).clone dir, .openPage dir)
    | none, .go =>
      some ((m.insertEntry (.dir c.root c.page.fileId) fd).clone fd, .openPage fd)
    | _, _ => none
  | .openPage dir =>
    if c.preadEnabled then opensNow m x (fun fd => .drop dir (.readPage fd)) (.drop dir .finished)
    else submits rings m .openAt 0 x (.waitPage dir)
  | .waitPage dir r =>
    awaitsFd m r x (fun fd => .drop dir (.readPage fd)) (.drop dir .finished)
  | .readPage fd =>
    if c.preadEnabled then
      x.succeeds.map fun success => (m, if success then .insertPage fd else .close fd false)
    else submits rings m (.read fd) c.length x (.waitRead fd)
  | .waitRead fd r => awaits m r x (.insertPage fd) (.close fd false)
  | .insertPage fd =>
    match x with
    | .go => some ((m.removeEntry (.page c.page)).insertEntry (.page c.page) fd, .finished)
    | _ => none
  | .close fd stored =>
    x.isFull.map fun full =>
      (m.closeFdBackground rings fd full, if stored then .rename else .finished)
  | .openTmp => submits rings m .openAt 0 x .waitTmp
  | .waitTmp r => awaitsFd m r x .write .finished
  | .write fd => submits rings m (.write fd) c.length x (.waitWrite fd)
  | .waitWrite fd r => awaits m r x (.close fd true) (.close fd false)
  | .rename => x.succeeds.map fun success => (m, if success then .remove .stored else .finished)
  | .unlink => submits rings m .unlinkAt 0 x .waitUnlink
  | .waitUnlink r => awaits m r x .finished .finished
  | .finished => none

def get (root : StoreRoot) (preadEnabled : Bool) (page : PageId) (length : Nat) : UringCall :=
  ⟨root, preadEnabled, page, length, .lookup⟩

def put (root : StoreRoot) (preadEnabled : Bool) (page : PageId) (length : Nat) : UringCall :=
  ⟨root, preadEnabled, page, length, .openTmp⟩

def delete (root : StoreRoot) (preadEnabled : Bool) (page : PageId) : UringCall :=
  ⟨root, preadEnabled, page, 0, .remove .deleting⟩

end UringCall

namespace UringTask

def ringNext (k : Nat) (m : UringState) : UringInput → Option UringState
  | .receive r full =>
    match m.requests[r]? with
    | none => none
    | some q => if m.received k r q then some (m.pushToSq k r q full) else none
  | .resubmit r full =>
    match m.requests[r]? with
    | none => none
    | some q => if q.stage = .retry k then some (m.pushToSq k r q full) else none
  | .reap r result =>
    match m.requests[r]? with
    | none => none
    | some q => if q.stage = .submitted k then some (m.reap k r q result) else none
  | _ => none

variable {m m' : UringState} {x : UringInput}

theorem ringNext_cases {k : Nat} (h : ringNext k m x = some m') : ∃ r q, m.requests[r]? = some q ∧
      ((q.queued = true ∧ ∃ full, (x = .receive r full ∨ x = .resubmit r full) ∧
          m' = m.pushToSq k r q full) ∨
        (q.stage = .submitted k ∧ ∃ result, x = .reap r result ∧ m' = m.reap k r q result)) := by
  unfold ringNext at h
  split at h
  · next r full =>
    split at h
    · cases h
    · next q hr =>
      split at h
      · next hreceived =>
        cases h
        simp only [UringState.received, Bool.and_eq_true, decide_eq_true_eq] at hreceived
        have hqueued : q.queued = true := by rw [IoRequest.queued, hreceived.1.1]
        exact ⟨r, q, hr, .inl ⟨hqueued, full, .inl rfl, rfl⟩⟩
      · cases h
  · next r full =>
    split at h
    · cases h
    · next q hr =>
      split at h
      · next hretry =>
        cases h
        have hqueued : q.queued = true := by rw [IoRequest.queued, hretry]
        exact ⟨r, q, hr, .inl ⟨hqueued, full, .inr rfl, rfl⟩⟩
      · cases h
  · next r result =>
    split at h
    · cases h
    · next q hr =>
      split at h
      · next hsubmitted =>
        cases h
        exact ⟨r, q, hr, .inr ⟨hsubmitted, result, rfl, rfl⟩⟩
      · cases h
  · cases h

def next (rings : Nat) (m : UringState) : UringTask → UringInput → Option (UringState × UringTask)
  | .call c, x => (c.next rings m x).map fun out => (out.1, .call { c with pc := out.2 })
  | .ring k, x => (ringNext k m x).map fun m' => (m', .ring k)
  | .evictor, .evict key => some (m.removeEntry key, .evictor)
  | .evictor, _ => none

inductive Takes (rings : Nat) (m : UringState) :
    UringTask → UringInput → UringState → UringTask → Prop where
  | call {c : UringCall} {x : UringInput} {m' : UringState} {pc' : UringPc}
      (h : c.next rings m x = some (m', pc')) :
      Takes rings m (.call c) x m' (.call { c with pc := pc' })
  | push {k r : Nat} {q : IoRequest} {x : UringInput} {full : Bool} {m' : UringState}
      (hr : m.requests[r]? = some q) (hqueued : q.queued = true)
      (hx : x = .receive r full ∨ x = .resubmit r full) (h : m.Pushes k r q full m') :
      Takes rings m (.ring k) x m' (.ring k)
  | reap {k r : Nat} {q : IoRequest} {result : Except Nat Nat} {m' : UringState}
      (hr : m.requests[r]? = some q) (hstage : q.stage = .submitted k)
      (h : m.Reaps r q result m') : Takes rings m (.ring k) (.reap r result) m' (.ring k)
  | evict (key : FdKey) : Takes rings m .evictor (.evict key) (m.removeEntry key) .evictor

theorem takes_of_next {rings : Nat} {t t' : UringTask} (h : t.next rings m x = some (m', t')) :
    Takes rings m t x m' t' := by
  unfold next at h
  split at h
  · obtain ⟨⟨m₁, pc'⟩, hcall, hout⟩ := Option.map_eq_some_iff.1 h
    cases hout
    exact .call hcall
  · obtain ⟨m₁, hring, hout⟩ := Option.map_eq_some_iff.1 h
    cases hout
    obtain ⟨r, q, hr, ⟨hqueued, full, hx, rfl⟩ | ⟨hstage, result, rfl, rfl⟩⟩ :=
      ringNext_cases hring
    · exact .push hr hqueued hx (m.pushes_pushToSq _ r q full)
    · exact .reap hr hstage (m.reaps_reap _ r q result)
  · cases h
    exact .evict _
  · cases h

def start : UringTask → Bool
  | .call c => c.pc = .lookup ∨ c.pc = .openTmp ∨ c.pc = .remove .deleting
  | .ring _ => true
  | .evictor => true

def idle : UringTask → Bool
  | .call c => c.pc = .finished
  | .ring _ => true
  | .evictor => true

end UringTask

abbrev UringTasks := Pool UringState UringTask

abbrev UringAct := PoolAct UringTask UringInput

namespace UringTasks

def step (rings : Nat) : UringTasks → UringAct → Option UringTasks :=
  Pool.step UringTask.start (UringTask.next rings)

def init : UringTasks := ⟨⟨[], 0, 0, [], fun _ => 0, [], []⟩, []⟩

/-- No operation is going on, and no request is in a channel or a submission queue. -/
def Idle (p : UringTasks) : Prop :=
  (∀ t ∈ p.tasks, t.idle = true) ∧ ∀ q ∈ p.shared.requests, q.completed = true

end UringTasks

end GooseFS
