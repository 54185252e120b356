import GooseFS.Lib.Pool
import Mathlib.Logic.Function.Basic

/-!
# The pool of worker connections

`WorkerClientPool` keeps one client for each channel of a worker address, tagged
with a generation that is never handed out twice.  Here it is a transition system
with a step for each access of `acquire`, `invalidate` and `reconnect_if_stale` to
the shared maps.  Between two steps other calls run, also during a handshake.

A mutex is a place in a list, and the map of locks names mutexes.  A call keeps the
mutex that it has fetched when `invalidate` removes it from the map.
-/

namespace GooseFS

open Lib Function

/-- A channel of the pool: `slot_key(addr, slot)`, with slot 0 in a single-channel
pool. -/
abbrev ChannelKey := String × Nat

/-- A handshake that succeeded: its channel, the number of invalidations of the address
before it started, and the generation that its caller had observed. -/
structure Handshake where
  key : ChannelKey
  epoch : Nat
  observed : Nat
  deriving DecidableEq

/-- A client is known by its generation.  The last three fields are a record: the
invalidations of each address, the generations of each channel, and the handshakes of
`reconnect_if_stale`. -/
structure WorkerClientPool where
  clients : ChannelKey → Option Nat
  reconnectLocks : ChannelKey → Option Nat
  /-- The mutexes, each with whether it is held. -/
  mutexes : List Bool
  /-- A counter starts at 0 when its address is first used. -/
  addrRr : String → Nat
  nextGeneration : Nat
  epochs : String → Nat
  installed : List (ChannelKey × Nat)
  handshakes : List Handshake

namespace WorkerClientPool

/-- `WorkerClientPool::new`; the pool has at least one channel for each address. -/
def poolSize (connectionPoolSize : Nat) : Nat := max connectionPoolSize 1

/-- Generations start at 1: a client that was never pooled has generation 0. -/
def new : WorkerClientPool :=
  ⟨fun _ => none, fun _ => none, [], fun _ => 0, 1, fun _ => 0, [], []⟩

variable (m : WorkerClientPool)

def nextSlot (size : Nat) (addr : String) : WorkerClientPool × Nat :=
  if size ≤ 1 then (m, 0)
  else ({ m with addrRr := update m.addrRr addr (m.addrRr addr + 1) }, m.addrRr addr % size)

def reconnectLockFor (key : ChannelKey) : WorkerClientPool × Nat :=
  match m.reconnectLocks key with
  | some l => (m, l)
  | none =>
    ({ m with
        reconnectLocks := update m.reconnectLocks key (some m.mutexes.length)
        mutexes := m.mutexes ++ [false] }, m.mutexes.length)

def insertClient (key : ChannelKey) (generation : Nat) : WorkerClientPool :=
  { m with
    clients := update m.clients key (some generation)
    installed := m.installed ++ [(key, generation)] }

def removeClient (key : ChannelKey) : WorkerClientPool :=
  { m with clients := update m.clients key none }

/-- The copy-on-write pass of `invalidate` over all slots of the address. -/
def removeClients (size : Nat) (addr : String) : WorkerClientPool :=
  { m with
    clients := fun key => if key.1 = addr ∧ key.2 < size then none else m.clients key
    epochs := update m.epochs addr (m.epochs addr + 1) }

def removeLock (key : ChannelKey) : WorkerClientPool :=
  { m with reconnectLocks := update m.reconnectLocks key none }

def removeCounter (size : Nat) (addr : String) : WorkerClientPool :=
  if 1 < size then { m with addrRr := update m.addrRr addr 0 } else m

def lock (l : Nat) : WorkerClientPool := { m with mutexes := m.mutexes.set l true }

def unlock (l : Nat) : WorkerClientPool := { m with mutexes := m.mutexes.set l false }

def stamp : WorkerClientPool := { m with nextGeneration := m.nextGeneration + 1 }

def slotOf (size : Nat) (addr : String) (generation : Nat) : Option Nat :=
  (List.range size).find? fun slot => m.clients (addr, slot) = some generation

def shookHands (key : ChannelKey) (epoch : Nat) : Option Nat → WorkerClientPool
  | some g => { m with handshakes := m.handshakes ++ [⟨key, epoch, g⟩] }
  | none => m

end WorkerClientPool

/-! ## Calls -/

/-- Where a call stands.  `stale` tells `reconnect_by_key` from `acquire_by_key`. -/
inductive WorkerPc where
  /-- `acquire` -/
  | nextSlot
  /-- `reconnect_if_stale` -/
  | scan
  | load (slot : Nat)
  | lockFor (slot : Nat) (stale : Bool)
  | wait (slot : Nat) (stale : Bool) (l : Nat)
  | recheck (slot : Nat) (stale : Bool) (l : Nat)
  | removeClient (slot l : Nat)
  | connecting (slot l epoch : Nat)
  | stamp (slot l : Nat)
  | insert (slot l generation : Nat)
  /-- The guard is dropped; `r` is the generation of the client, or none for an error. -/
  | unlock (slot l : Nat) (r : Option Nat)
  | returned (r : Option Nat)
  /-- `invalidate` -/
  | dropClients
  | dropLock (slot : Nat)
  | dropCounter
  | invalidated
  deriving DecidableEq

inductive WorkerInput where
  | go
  | connected
  | refused
  deriving DecidableEq

/-- A call for an address.  `observed` is the generation passed to
`reconnect_if_stale`. -/
structure WorkerCall where
  addr : String
  observed : Option Nat
  pc : WorkerPc
  deriving DecidableEq

namespace WorkerPc

/-- The next step of a call in a pool with `size` channels for each address. -/
def next (size : Nat) (addr : String) (observed : Option Nat) (m : WorkerClientPool) :
    WorkerPc → WorkerInput → Option (WorkerClientPool × WorkerPc)
  | .nextSlot, .go =>
    let (m', slot) := m.nextSlot size addr
    some (m', .load slot)
  | .scan, .go =>
    match observed with
    | none => none
    | some g =>
      if size ≤ 1 then some (m, .lockFor 0 true)
      else
        match m.slotOf size addr g with
        | some slot => some (m, .lockFor slot true)
        | none => some (m, .nextSlot)
  | .load slot, .go =>
    match m.clients (addr, slot) with
    | some c => some (m, .returned (some c))
    | none => some (m, .lockFor slot false)
  | .lockFor slot stale, .go =>
    let (m', l) := m.reconnectLockFor (addr, slot)
    some (m', .wait slot stale l)
  | .wait slot stale l, .go =>
    if m.mutexes[l]? = some false then some (m.lock l, .recheck slot stale l) else none
  | .recheck slot false l, .go =>
    match m.clients (addr, slot) with
    | some c => some (m, .unlock slot l (some c))
    | none => some (m, .connecting slot l (m.epochs addr))
  | .recheck slot true l, .go =>
    match m.clients (addr, slot), observed with
    | some c, some g =>
      if g < c then some (m, .unlock slot l (some c)) else some (m, .removeClient slot l)
    | _, _ => some (m, .removeClient slot l)
  | .removeClient slot l, .go =>
    some (m.removeClient (addr, slot), .connecting slot l (m.epochs addr))
  | .connecting slot l epoch, .connected =>
    some (m.shookHands (addr, slot) epoch observed, .stamp slot l)
  | .connecting slot l _, .refused => some (m, .unlock slot l none)
  | .stamp slot l, .go => some (m.stamp, .insert slot l m.nextGeneration)
  | .insert slot l generation, .go =>
    some (m.insertClient (addr, slot) generation, .unlock slot l (some generation))
  | .unlock _ l r, .go => some (m.unlock l, .returned r)
  | .dropClients, .go => some (m.removeClients size addr, .dropLock 0)
  | .dropLock slot, .go =>
    if slot < size then some (m.removeLock (addr, slot), .dropLock (slot + 1))
    else some (m, .dropCounter)
  | .dropCounter, .go => some (m.removeCounter size addr, .invalidated)
  | _, _ => none

/-- The slot and the mutex of a call, from the moment it has fetched the mutex. -/
def fetched : WorkerPc → Option (Nat × Nat)
  | .wait slot _ l => some (slot, l)
  | .recheck slot _ l => some (slot, l)
  | .removeClient slot l => some (slot, l)
  | .connecting slot l _ => some (slot, l)
  | .stamp slot l => some (slot, l)
  | .insert slot l _ => some (slot, l)
  | .unlock slot l _ => some (slot, l)
  | _ => none

def holds : WorkerPc → Bool
  | .recheck _ _ _ => true
  | .removeClient _ _ => true
  | .connecting _ _ _ => true
  | .stamp _ _ => true
  | .insert _ _ _ => true
  | .unlock _ _ _ => true
  | _ => false

/-- The call has started a handshake that has not failed, and its client is not yet in
the map. -/
def replacing : WorkerPc → Option Nat
  | .connecting slot _ _ => some slot
  | .stamp slot _ => some slot
  | .insert slot _ _ => some slot
  | _ => none

def stamped : WorkerPc → Option (Nat × Nat)
  | .insert slot _ generation => some (slot, generation)
  | _ => none

/-- The slot whose mutex `invalidate` is about to remove. -/
def droppedLock : WorkerPc → Option Nat
  | .dropLock slot => some slot
  | _ => none

def result : WorkerPc → Option Nat
  | .unlock _ _ r => r
  | .returned r => r
  | _ => none

end WorkerPc

namespace WorkerCall

def acquire (addr : String) : WorkerCall := ⟨addr, none, .nextSlot⟩

def reconnectIfStale (addr : String) (g : Nat) : WorkerCall := ⟨addr, some g, .scan⟩

def invalidate (addr : String) : WorkerCall := ⟨addr, none, .dropClients⟩

def start (t : WorkerCall) : Bool :=
  t = acquire t.addr ∨ t = invalidate t.addr ∨
    t.observed.isSome ∧ t = reconnectIfStale t.addr (t.observed.getD 0)

def next (size : Nat) (m : WorkerClientPool) (t : WorkerCall) (x : WorkerInput) :
    Option (WorkerClientPool × WorkerCall) :=
  (t.pc.next size t.addr t.observed m x).map fun out => (out.1, { t with pc := out.2 })

def locked (t : WorkerCall) : Option ChannelKey :=
  if t.pc.holds then t.pc.fetched.map fun f => (t.addr, f.1) else none

def fetchedKey (t : WorkerCall) : Option ChannelKey := t.pc.fetched.map fun f => (t.addr, f.1)

end WorkerCall

abbrev WorkerCalls := Pool WorkerClientPool WorkerCall

abbrev WorkerAct := PoolAct WorkerCall WorkerInput

namespace WorkerCalls

/-- The calls on a pool with `worker_connection_pool_size` set to `n`. -/
def step (n : Nat) : WorkerCalls → WorkerAct → Option WorkerCalls :=
  Pool.step WorkerCall.start (WorkerCall.next (WorkerClientPool.poolSize n))

def init : WorkerCalls := ⟨.new, []⟩

/-- `reconnect_if_stale(addr, g)` does not return a client of generation `g`. -/
def ReturnsFresh (p : WorkerCalls) : Prop :=
  ∀ t ∈ p.tasks, ∀ g, t.observed = some g → t.pc.result ≠ some g

/-- The generations that a channel has had are in increasing order. -/
def GenerationsAdvance (p : WorkerCalls) : Prop :=
  p.shared.installed.Pairwise fun x y => x.1 = y.1 → x.2 < y.2

/-- Between two invalidations the callers that observed one generation have made at most
one successful handshake on each channel. -/
def OneHandshake (p : WorkerCalls) : Prop := p.shared.handshakes.Nodup

/-- The generation is that of a client that some call has returned, or 0. -/
def Observed (p : WorkerCalls) : WorkerAct → Prop
  | .spawn t => ∀ g ∈ t.observed, g = 0 ∨ ∃ u ∈ p.tasks, u.pc.result = some g
  | .run _ _ => True

/-- `invalidate` removes a mutex only while no call has fetched it. -/
def LocksKept (p : WorkerCalls) : WorkerAct → Prop
  | .spawn _ => True
  | .run i _ => ∀ t ∈ p.tasks[i]?, ∀ slot ∈ t.pc.droppedLock, ∀ u ∈ p.tasks,
    u.fetchedKey ≠ some (t.addr, slot)

/-- A handshake fails only on a channel that no caller of `reconnect_if_stale` has
replaced since the address was last invalidated. -/
def ReplacementsLast (p : WorkerCalls) : WorkerAct → Prop
  | .run i .refused => ∀ t ∈ p.tasks[i]?, ∀ slot ∈ t.pc.replacing,
    ∀ h ∈ p.shared.handshakes, h.key = (t.addr, slot) → h.epoch ≠ p.shared.epochs t.addr
  | _ => True

instance (p : WorkerCalls) (a : WorkerAct) : Decidable (p.Observed a) := by
  cases a <;> unfold Observed <;> infer_instance

instance (p : WorkerCalls) (a : WorkerAct) : Decidable (p.LocksKept a) := by
  cases a <;> unfold LocksKept <;> infer_instance

instance (p : WorkerCalls) (a : WorkerAct) : Decidable (p.ReplacementsLast a) := by
  unfold ReplacementsLast
  split <;> infer_instance

def Settled (p : WorkerCalls) (a : WorkerAct) : Prop :=
  p.Observed a ∧ p.LocksKept a ∧ p.ReplacementsLast a

instance (p : WorkerCalls) (a : WorkerAct) : Decidable (p.Settled a) :=
  inferInstanceAs (Decidable (p.Observed a ∧ p.LocksKept a ∧ p.ReplacementsLast a))

end WorkerCalls

/-! ## Steps of a call -/

namespace WorkerPc

variable {size : Nat} {addr : String} {observed : Option Nat} {m m' : WorkerClientPool}
  {pc pc' : WorkerPc} {x : WorkerInput} {slot : Nat}

inductive Step (size : Nat) (addr : String) (observed : Option Nat) (m : WorkerClientPool) :
    WorkerPc → WorkerInput → WorkerClientPool → WorkerPc → Prop where
  | nextSlot {rr : String → Nat} {slot : Nat} : (0 < size → slot < size) →
      Step size addr observed m .nextSlot .go { m with addrRr := rr } (.load slot)
  | scanHit {slot : Nat} : Step size addr observed m .scan .go m (.lockFor slot true)
  | scanMiss {g : Nat} : observed = some g → (∀ slot < size, m.clients (addr, slot) ≠ some g) →
      Step size addr observed m .scan .go m .nextSlot
  | loadHit {slot c : Nat} : m.clients (addr, slot) = some c →
      Step size addr observed m (.load slot) .go m (.returned (some c))
  | loadMiss {slot : Nat} : m.clients (addr, slot) = none →
      Step size addr observed m (.load slot) .go m (.lockFor slot false)
  | fetch {slot l : Nat} {stale : Bool} : m.reconnectLocks (addr, slot) = some l →
      Step size addr observed m (.lockFor slot stale) .go m (.wait slot stale l)
  | create {slot : Nat} {stale : Bool} : m.reconnectLocks (addr, slot) = none →
      Step size addr observed m (.lockFor slot stale) .go
        { m with
          reconnectLocks := update m.reconnectLocks (addr, slot) (some m.mutexes.length)
          mutexes := m.mutexes ++ [false] }
        (.wait slot stale m.mutexes.length)
  | lock {slot l : Nat} {stale : Bool} : m.mutexes[l]? = some false →
      Step size addr observed m (.wait slot stale l) .go (m.lock l) (.recheck slot stale l)
  | coalesce {slot l c : Nat} {stale : Bool} : m.clients (addr, slot) = some c →
      (stale = true → ∀ g, observed = some g → g < c) →
      Step size addr observed m (.recheck slot stale l) .go m (.unlock slot l (some c))
  | miss {slot l : Nat} : m.clients (addr, slot) = none →
      Step size addr observed m (.recheck slot false l) .go m (.connecting slot l (m.epochs addr))
  | stale {slot l : Nat} : (∀ c g, m.clients (addr, slot) = some c → observed = some g → c ≤ g) →
      Step size addr observed m (.recheck slot true l) .go m (.removeClient slot l)
  | remove {slot l : Nat} :
      Step size addr observed m (.removeClient slot l) .go (m.removeClient (addr, slot))
        (.connecting slot l (m.epochs addr))
  | connected {slot l epoch : Nat} : Step size addr observed m (.connecting slot l epoch) .connected
        (m.shookHands (addr, slot) epoch observed) (.stamp slot l)
  | refused {slot l epoch : Nat} :
      Step size addr observed m (.connecting slot l epoch) .refused m (.unlock slot l none)
  | stamp {slot l : Nat} :
      Step size addr observed m (.stamp slot l) .go m.stamp (.insert slot l m.nextGeneration)
  | insert {slot l generation : Nat} : Step size addr observed m (.insert slot l generation) .go
        (m.insertClient (addr, slot) generation) (.unlock slot l (some generation))
  | unlock {slot l : Nat} {r : Option Nat} :
      Step size addr observed m (.unlock slot l r) .go (m.unlock l) (.returned r)
  | dropClients :
      Step size addr observed m .dropClients .go (m.removeClients size addr) (.dropLock 0)
  | dropLock {slot : Nat} :
      Step size addr observed m (.dropLock slot) .go (m.removeLock (addr, slot))
        (.dropLock (slot + 1))
  | locksDropped {slot : Nat} : Step size addr observed m (.dropLock slot) .go m .dropCounter
  | dropCounter {rr : String → Nat} :
      Step size addr observed m .dropCounter .go { m with addrRr := rr } .invalidated

theorem step_nextSlot (h : m.nextSlot size addr = (m', slot)) :
    Step size addr observed m .nextSlot .go m' (.load slot) := by
  unfold WorkerClientPool.nextSlot at h
  split at h
  · cases h
    exact .nextSlot id
  · cases h
    exact .nextSlot fun hpos => Nat.mod_lt _ hpos

theorem step_of_next (h : next size addr observed m pc x = some (m', pc')) :
    Step size addr observed m pc x m' pc' := by
  unfold next at h
  split at h
  · cases h
    exact step_nextSlot rfl
  · split at h
    · cases h
    · split at h
      · cases h
        exact .scanHit
      · split at h
        · cases h
          exact .scanHit
        · next hslot =>
          cases h
          refine .scanMiss rfl fun slot hlt => ?_
          have hne := List.find?_eq_none.1 hslot slot (List.mem_range.2 hlt)
          simpa using hne
  · split at h
    · next c hc =>
      cases h
      exact .loadHit hc
    · next hc =>
      cases h
      exact .loadMiss hc
  · next slot stale =>
    cases h
    cases hl : m.reconnectLocks (addr, slot) with
    | some l =>
      exact .fetch hl
    | none =>
      exact .create hl
  · split at h
    · next hfree =>
      cases h
      exact .lock hfree
    · cases h
  · split at h
    · next c hc =>
      cases h
      exact .coalesce hc fun hstale => by cases hstale
    · next hc =>
      cases h
      exact .miss hc
  · split at h
    · next c g hc =>
      split at h
      · next hlt =>
        cases h
        refine .coalesce hc fun _ g' hg' => ?_
        cases hg'
        exact hlt
      · next hle =>
        cases h
        refine .stale fun c' g' hc' hg' => ?_
        rw [hc] at hc'
        cases hc'
        cases hg'
        exact Nat.le_of_not_lt hle
    · next hnone =>
      cases h
      exact .stale fun c g hc hg => (hnone c g hc hg).elim
  · cases h
    exact .remove
  · cases h
    exact .connected
  · cases h
    exact .refused
  · cases h
    exact .stamp
  · cases h
    exact .insert
  · cases h
    exact .unlock
  · cases h
    exact .dropClients
  · split at h
    · cases h
      exact .dropLock
    · cases h
      exact .locksDropped
  · cases h
    unfold WorkerClientPool.removeCounter
    split
    · exact .dropCounter
    · exact .dropCounter
  · cases h

end WorkerPc

end GooseFS
