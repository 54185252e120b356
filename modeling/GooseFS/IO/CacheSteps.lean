import Mathlib.Logic.Relation
import GooseFS.Lib.Transition
import GooseFS.IO.WriterCalls
import GooseFS.IO.CacheBlocks

/-!
# Operations of the cache side

The cache part of a call is a sequence of operations on one block after the
other.  `CacheSide.Step` is an operation that succeeds, `CacheSide.Fails` one
that fails and ends the call, and every function of the cache side is shown to
make steps until it returns (`Reaches`) or until an operation fails (`Stops`).
What holds of the cache side whatever its workers do is proved from these two
relations.

The open block stays in `currentBlockWriter` between two operations, also where
the code holds it in a local variable.
-/

namespace GooseFS

open Lib Relation List

/-! ## Steps and failures -/

def CacheSide.holding (c : CacheSide) (io : BlockIo) : CacheSide :=
  { c with currentBlockWriter := some io.active, ticks := io.ticks, events := io.events }

inductive CacheOp where
  | plan
  | openBlock
  | perform (op : ReplicaOp)
  | close
  | commitLocation
  deriving DecidableEq, Repr

def CacheOp.isOpening : CacheOp → Bool
  | .plan => true
  | .openBlock => true
  | _ => false

namespace CacheSide

section Relations

variable (setup : WriterSetup) (env : CacheEnv)

/-- Work on the open block: filling its buffer, or an operation on its replicas
that succeeds. -/
inductive BlockStep : CacheSide → CacheSide → Prop where
  | fill {c : CacheSide} {a : ActiveBlockWriter} (n : Nat) (pending : Bytes) :
      c.currentBlockWriter = some a →
      BlockStep c { c with
        currentBlockWriter := some { a with bytesWritten := n, pendingChunk := pending } }
  | perform {c : CacheSide} {a : ActiveBlockWriter} {op : ReplicaOp} {rs : List ReplicaWriter}
      {events : List CacheEvent} :
      c.currentBlockWriter = some a →
      a.perform op (env.tasks c.ticks) = (.ok (), rs, events) →
      BlockStep c { c with
        currentBlockWriter := some { a with replicas := rs }
        ticks := c.ticks + 1
        events := c.events ++ events }

/-- An operation on the replicas of the open block that fails. -/
inductive Refuses (op : ReplicaOp) (e : Error) : CacheSide → CacheSide → Prop where
  | intro {c : CacheSide} {a : ActiveBlockWriter} {rs : List ReplicaWriter}
      {events : List CacheEvent} :
      c.currentBlockWriter = some a →
      a.perform op (env.tasks c.ticks) = (.error e, rs, events) →
      Refuses op e c { c with
        currentBlockWriter := some { a with replicas := rs }
        ticks := c.ticks + 1
        events := c.events ++ events }

inductive Step : CacheSide → CacheSide → Prop where
  | block {c c' : CacheSide} : BlockStep env c c' → Step c c'
  | discard {c : CacheSide} {a : ActiveBlockWriter} : c.currentBlockWriter = some a →
      Step c { c with currentBlockWriter := none, events := c.events ++ a.cancelReplicas }
  | commit {c : CacheSide} {a : ActiveBlockWriter} {events more : List CacheEvent} (n : Nat) :
      c.currentBlockWriter = some a →
      a.closeReplicas (env.closeReply c.ticks) = (.ok (), events) →
      (∀ e ∈ more, ∃ loc, e = .commitLocation loc none) →
      Step c { c with
        currentBlockWriter := none
        committedBlockIds := c.committedBlockIds ++ [a.blockId]
        ticks := n
        events := c.events ++ events ++ more }
  | opens {c c' : CacheSide} {a : ActiveBlockWriter} {plan : ReplicaWritePlan} :
      c.currentBlockWriter = none → setup.plan = .ok plan →
      CacheM.openBlock setup env (setup.blockId c.committedBlockIds.length) plan c = .ok a c' →
      Step c { c' with currentBlockWriter := some a, blockOpened := true }

/-- An operation that fails and ends a write or a close, with the state it leaves.
Where a block is being closed, a failed send or flush also cancels its
replicas. -/
inductive Fails : CacheSide → CacheOp → Error → CacheSide → Prop where
  | plan {c : CacheSide} {e : Error} :
      c.currentBlockWriter = none → setup.plan = .error e → Fails c .plan e c
  | openBlock {c c' : CacheSide} {e : Error} {plan : ReplicaWritePlan} :
      c.currentBlockWriter = none → setup.plan = .ok plan →
      CacheM.openBlock setup env (setup.blockId c.committedBlockIds.length) plan c = .error e c' →
      Fails c .openBlock e c'
  | send {c c' : CacheSide} {data : Bytes} {e : Error} :
      Refuses env (.write data) e c c' → Fails c (.perform (.write data)) e c'
  | abandon {c c' : CacheSide} {a : ActiveBlockWriter} {op : ReplicaOp} {e : Error} :
      Refuses env op e c c' → c'.currentBlockWriter = some a →
      Fails c (.perform op) e
        { c' with currentBlockWriter := none, events := c'.events ++ a.cancelReplicas }
  | close {c : CacheSide} {a : ActiveBlockWriter} {events : List CacheEvent} {e : Error} :
      c.currentBlockWriter = some a →
      a.closeReplicas (env.closeReply c.ticks) = (.error e, events) →
      Fails c .close e { c with
        currentBlockWriter := none
        committedBlockIds := c.committedBlockIds ++ [a.blockId]
        ticks := c.ticks + 1
        events := c.events ++ events }
  | commitLocation {c : CacheSide} {a : ActiveBlockWriter} {events : List CacheEvent} {e : Error}
      {loc : FileLocation} :
      c.currentBlockWriter = some a →
      a.closeReplicas (env.closeReply c.ticks) = (.ok (), events) →
      setup.strategy.needAsyncPersist = true → env.commitLocation (c.ticks + 1) = some e →
      Fails c .commitLocation e { c with
        currentBlockWriter := none
        ticks := c.ticks + 2
        events := c.events ++ events ++ [.commitLocation loc (some e)] }

def Works : CacheSide → CacheSide → Prop := ReflTransGen (BlockStep env)

def Reaches : CacheSide → CacheSide → Prop := ReflTransGen (Step setup env)

/-- Steps until the operation `op` fails. -/
def Stops (c : CacheSide) (op : CacheOp) (e : Error) (c' : CacheSide) : Prop :=
  ∃ c₁, c.Reaches setup env c₁ ∧ Fails setup env c₁ op e c'

end Relations

variable {setup : WriterSetup} {env : CacheEnv} {c₀ c c' : CacheSide} {P : CacheSide → Prop}

theorem Works.step (h : c₀.Works env c) (hs : BlockStep env c c') : c₀.Works env c' :=
  ReflTransGen.tail h hs

theorem Works.refl : c.Works env c := ReflTransGen.refl

theorem Works.invariant (hstep : ∀ c c', P c → BlockStep env c c' → P c') (h : c.Works env c')
    (hc : P c) : P c' := by
  induction h with
  | refl => exact hc
  | tail _ hs ih => exact hstep _ _ ih hs

theorem Reaches.step (h : c₀.Reaches setup env c) (hs : Step setup env c c') :
    c₀.Reaches setup env c' := ReflTransGen.tail h hs

theorem Reaches.refl : c.Reaches setup env c := ReflTransGen.refl

theorem Reaches.works (h : c₀.Reaches setup env c) (hs : c.Works env c') :
    c₀.Reaches setup env c' :=
  hs.invariant (fun _ _ h hs => h.step (.block hs)) h

theorem Reaches.invariant (hstep : ∀ c c', P c → Step setup env c c' → P c')
    (h : c.Reaches setup env c') (hc : P c) : P c' := by
  induction h with
  | refl => exact hc
  | tail _ hs ih => exact hstep _ _ ih hs

end CacheSide

/-! ## What operations write to the log -/

def CacheEvent.ofBlock : CacheEvent → Bool
  | .closed _ => true
  | .closeFailed _ => true
  | .cancelled _ => true
  | .dropped _ => true
  | .commitLocation _ _ => true
  | _ => false

theorem CacheEvent.ofBlock_of_isDrop {x : CacheEvent} (h : x.isDrop = true) : x.ofBlock = true := by
  cases x with
  | cancelled s | dropped s => rfl
  | _ => cases h

namespace ActiveBlockWriter

variable {a : ActiveBlockWriter} {events : List CacheEvent} {res : Except Error Unit}

theorem ofBlock_of_cancelReplicas : ∀ x ∈ a.cancelReplicas, x.ofBlock = true :=
  fun _ hx => CacheEvent.ofBlock_of_isDrop (isDrop_of_mem_cancelled hx)

theorem ofBlock_of_closeReplicas {replies : Nat → CloseReply}
    (h : a.closeReplicas replies = (res, events)) : ∀ x ∈ events, x.ofBlock = true := by
  intro x hx
  have hx' : x ∈ (closeAll replies a.replicas).2 := by
    rw [show closeAll replies a.replicas = (res, events) from h]
    exact hx
  obtain ⟨r, _, rfl | rfl⟩ := (closeAll_spec _ _).1 _ hx'
  · rfl
  · rfl

theorem ofBlock_of_perform {op : ReplicaOp} {tasks : Nat → TaskRun} {rs : List ReplicaWriter}
    (h : a.perform op tasks = (res, rs, events)) : ∀ x ∈ events, x.ofBlock = true := by
  intro x hx
  have hx' : x ∈ (a.perform op tasks).2.2 := by
    rw [h]
    exact hx
  exact CacheEvent.ofBlock_of_isDrop ((a.perform_served _ _).drops _ hx')

end ActiveBlockWriter

namespace CacheSide

open ActiveBlockWriter

variable {setup : WriterSetup} {env : CacheEnv} {c c' c'' : CacheSide} {e : Error}

/-- From `c` to `c'` only work on an open block was logged. -/
structure Logs (c c' : CacheSide) : Prop where
  blockOpened : c'.blockOpened = c.blockOpened
  events : ∃ more, c'.events = c.events ++ more ∧ ∀ x ∈ more, x.ofBlock = true

theorem Logs.more (h : c.Logs c') {more : List CacheEvent} (hb : c''.blockOpened = c'.blockOpened)
    (he : c''.events = c'.events ++ more) (hmore : ∀ x ∈ more, x.ofBlock = true) : c.Logs c'' := by
  obtain ⟨hb', before, he', hbefore⟩ := h
  refine ⟨hb.trans hb', before ++ more, by rw [he, he', append_assoc], fun x hx => ?_⟩
  exact (mem_append.mp hx).elim (hbefore x) (hmore x)

theorem Logs.of_eq (hb : c'.blockOpened = c.blockOpened) (he : c'.events = c.events) : c.Logs c' :=
  ⟨hb, [], by rw [he, append_nil], fun _ h => by cases h⟩

theorem Refuses.logs {op : ReplicaOp} (h : Refuses env op e c c') : c.Logs c' := by
  cases h with
  | intro _ hperform => exact (Logs.of_eq rfl rfl).more rfl rfl (ofBlock_of_perform hperform)

theorem Step.logs (h : Step setup env c c') :
    c.Logs c' ∨ (c.currentBlockWriter = none ∧ c'.blockOpened = true) := by
  have hrefl : c.Logs c := .of_eq rfl rfl
  cases h with
  | block hs =>
    cases hs with
    | fill n pending _ => exact .inl (.of_eq rfl rfl)
    | perform _ hperform => exact .inl (hrefl.more rfl rfl (ofBlock_of_perform hperform))
  | discard _ => exact .inl (hrefl.more rfl rfl ofBlock_of_cancelReplicas)
  | @commit a events more n _ hclose hmore =>
    have hclosed : c.Logs { c with events := c.events ++ events } :=
      hrefl.more rfl rfl (ofBlock_of_closeReplicas hclose)
    refine .inl (hclosed.more rfl rfl fun x hx => ?_)
    obtain ⟨loc, rfl⟩ := hmore x hx
    rfl
  | opens hnone _ _ => exact .inr ⟨hnone, rfl⟩

theorem Fails.logs {op : CacheOp} (h : Fails setup env c op e c') (hop : op.isOpening = false) :
    c.Logs c' := by
  have hrefl : c.Logs c := .of_eq rfl rfl
  cases h with
  | plan _ _ | openBlock _ _ _ => cases hop
  | send hrefuses => exact hrefuses.logs
  | abandon hrefuses _ => exact hrefuses.logs.more rfl rfl ofBlock_of_cancelReplicas
  | close _ hclose => exact hrefl.more rfl rfl (ofBlock_of_closeReplicas hclose)
  | @commitLocation a events e loc _ hclose _ _ =>
    have hclosed : c.Logs { c with events := c.events ++ events } :=
      hrefl.more rfl rfl (ofBlock_of_closeReplicas hclose)
    refine hclosed.more rfl rfl fun x hx => ?_
    rw [mem_singleton.mp hx]
    rfl

end CacheSide

/-! ## Work on the open block -/

namespace BlockM

variable {env : CacheEnv} {O : ReplicaOp → Prop} {c₀ c : CacheSide}

/-- Work on the open block makes steps, until an operation among `O` fails. -/
def Traced (env : CacheEnv) (O : ReplicaOp → Prop) (c₀ c : CacheSide) {α : Type} (m : BlockM α) :
    Prop :=
  Sat (fun io => c₀.Works env (c.holding io)) m (fun _ io => c₀.Works env (c.holding io))
    (fun e io => ∃ op c₁, O op ∧ c₀.Works env c₁ ∧ CacheSide.Refuses env op e c₁ (c.holding io))

theorem perform_traced {op : ReplicaOp} (hop : O op) : Traced env O c₀ c (step fun s =>
      let out := s.active.perform op (env.tasks s.ticks)
      (out.1, { active := { s.active with replicas := out.2.1 }, ticks := s.ticks + 1,
                events := s.events ++ out.2.2 })) := by
  refine Sat.step (fun s _ hs hok => ?_) (fun s e hs herr => ?_)
  · have hperform : s.active.perform op (env.tasks s.ticks) = (.ok (), _, _) := Prod.ext hok rfl
    exact hs.step (.perform rfl hperform)
  · exact ⟨op, _, hop, hs, .intro rfl (Prod.ext herr rfl)⟩

theorem flushReplicas_traced (hop : O .flush) : Traced env O c₀ c (flushReplicas env) :=
  perform_traced hop

theorem setPending_traced (pending : Bytes) : Traced env O c₀ c (setPending pending) :=
  Sat.modify fun s hs => hs.step (.fill s.active.bytesWritten pending rfl)

section Sends

variable (hO : ∀ data, O (.write data))
include hO

theorem writeChunk_traced (data : Bytes) : Traced env O c₀ c (writeChunk env data) :=
  perform_traced (hO data)

theorem drainPending_traced : Traced env O c₀ c (drainPending env) := by
  refine Sat.get fun s hs => ?_
  refine Sat.bind ((setPending_traced []).fixed hs) fun _ => ?_
  split
  · exact writeChunk_traced hO _
  · exact Sat.pure fun _ h => h

theorem emitFull_traced (chunkSize : Nat) : ∀ (fuel : Nat) (src : Bytes),
    Traced env O c₀ c (emitFull env chunkSize fuel src) := by
  intro fuel
  induction fuel with
  | zero => exact fun src => Sat.pure fun _ h => h
  | succ fuel ih =>
    intro src
    unfold emitFull
    split
    · exact Sat.bind (writeChunk_traced hO _) fun _ => ih _
    · exact Sat.pure fun _ h => h

theorem emitRest_traced (chunkSize : Nat) (src : Bytes) :
    Traced env O c₀ c (emitRest env chunkSize src) := by
  refine Sat.bind (emitFull_traced hO chunkSize _ src) fun rest => Sat.get fun s hs => ?_
  exact (setPending_traced _).fixed hs

theorem emitAlignedChunks_traced (incoming : Bytes) {chunkSize : Nat} (hcs : 0 < chunkSize) :
    Traced env O c₀ c (emitAlignedChunks env incoming chunkSize) := by
  unfold emitAlignedChunks
  rw [if_neg (Nat.ne_of_gt hcs)]
  refine Sat.get fun s hs => ?_
  rcases takeCompletedPending s.active.pendingChunk incoming chunkSize with ⟨full, pending, src⟩
  refine Sat.bind ((setPending_traced pending).fixed hs) fun _ => ?_
  cases full with
  | none => exact emitRest_traced hO chunkSize src
  | some chunk =>
    exact Sat.bind (writeChunk_traced hO chunk) fun _ => emitRest_traced hO chunkSize src

end Sends

end BlockM

/-! ## Calls on the cache side -/

namespace CacheM

variable {setup : WriterSetup} {env : CacheEnv} {c₀ : CacheSide} {E : Error → CacheSide → Prop}
  {O : ReplicaOp → Prop} {a : ActiveBlockWriter} {m : BlockM Unit} {s : CacheSide}

/-- The caller holds the block `out.2` after work on it that ended in `out.1`. -/
def Held (env : CacheEnv) (O : ReplicaOp → Prop) (c₀ : CacheSide)
    (out : Except Error Unit × ActiveBlockWriter) (c : CacheSide) : Prop :=
  match out.1 with
  | .ok () => c₀.Works env { c with currentBlockWriter := some out.2 }
  | .error e => ∃ op c₁, O op ∧ c₀.Works env c₁ ∧
      CacheSide.Refuses env op e c₁ { c with currentBlockWriter := some out.2 }

theorem onBlock_traced {x : Option ActiveBlockWriter}
    (hs : c₀.Works env { s with currentBlockWriter := some a })
    (hm : ∀ c, BlockM.Traced env O c₀ c m) :
    Sat (· = { s with currentBlockWriter := x }) (onBlock a m)
      (fun out c => Held env O c₀ out c ∧ c.currentBlockWriter = x) E := by
  refine onBlock_sat ?_
  rintro _ rfl
  refine (hm { s with currentBlockWriter := x }).mono ?_ (fun _ _ h => ⟨h, rfl⟩)
    fun _ _ h => ⟨h, rfl⟩
  rintro _ rfl
  exact hs

/-- The block `a` is held by the caller, who has come to here by steps. -/
def Taken (setup : WriterSetup) (env : CacheEnv) (c₀ : CacheSide) (a : ActiveBlockWriter)
    (c : CacheSide) : Prop :=
  c₀.Reaches setup env { c with currentBlockWriter := some a } ∧ c.currentBlockWriter = none

theorem commitBlock_traced (a : ActiveBlockWriter) (blockOffset : Nat) (commitLocation : Bool) :
    Sat (Taken setup env c₀ a) (commitBlock setup env a blockOffset commitLocation)
      (fun _ c => c₀.Reaches setup env c ∧ c.currentBlockWriter = none)
      (fun e c => ∃ op, (op = .commitLocation → commitLocation = true) ∧ op.isOpening = false ∧
        c₀.Stops setup env op e c) := by
  refine Sat.of_forall fun s hs => ?_
  obtain ⟨hreach, hnone⟩ := hs
  refine Sat.modifyGet_bind ?_
  rcases hclose : a.closeReplicas (env.closeReply s.ticks) with ⟨closed, events⟩
  let s₁ : CacheSide := { s with ticks := s.ticks + 1, events := s.events ++ events }
  refine Sat.modify_bind ?_
  cases closed with
  | error e =>
    refine Sat.modify_bind <| Sat.throw ?_
    rintro _ rfl
    refine ⟨.close, fun h => (by cases h), rfl, _, hreach, ?_⟩
    have hfails : CacheSide.Fails setup env { s with currentBlockWriter := some a } .close e _ :=
      .close rfl hclose
    rwa [← hnone] at hfails
  | ok u =>
    -- what reporting the location adds to the log, if it is reported
    let Q : CacheSide → Prop := fun c => ∃ n more, (∀ e ∈ more, ∃ loc, e =
      CacheEvent.commitLocation loc none) ∧ c = { s₁ with ticks := n, events := s₁.events ++ more }
    refine Sat.bind (R := fun _ => Q) ?_ fun _ => ?_
    · unfold reportLocation
      split
      case h_1 =>
        refine Sat.pure ?_
        rintro _ rfl
        exact ⟨s₁.ticks, [], by simp, by rw [append_nil]⟩
      case h_2 loc hloc =>
        have hasync : commitLocation = true ∧ setup.strategy.needAsyncPersist = true := by
          split at hloc
          case isTrue h => exact h
          case isFalse => cases hloc
        refine Sat.modifyGet_bind ?_
        refine Sat.modify_bind ?_
        cases hreply : env.commitLocation s₁.ticks with
        | some e =>
          refine Sat.throw ?_
          rintro _ rfl
          refine ⟨.commitLocation, fun _ => hasync.1, rfl, _, hreach, ?_⟩
          have hfails : CacheSide.Fails setup env { s with currentBlockWriter := some a }
              .commitLocation e { s with
                currentBlockWriter := none
                ticks := s.ticks + 2
                events := s.events ++ events ++ [.commitLocation loc (some e)] } :=
            .commitLocation rfl hclose hasync.2 hreply
          rwa [← hnone] at hfails
        | none =>
          refine Sat.pure ?_
          rintro _ rfl
          refine ⟨_, _, ?_, rfl⟩
          intro e he
          exact ⟨loc, mem_singleton.mp he⟩
    · refine Sat.bind (R := fun _ c => c₀.Reaches setup env c ∧ c.currentBlockWriter = none)
        (Sat.modify ?_) fun _ => Sat.pure fun _ h => h
      rintro _ ⟨n, more, hmore, rfl⟩
      refine ⟨?_, hnone⟩
      have hstep : CacheSide.Step setup env { s with currentBlockWriter := some a } _ :=
        .commit n rfl hclose hmore
      rw [← hnone] at hstep
      exact hreach.step hstep

theorem closeCurrentBlock_traced (commitLocation : Bool) :
    Sat (c₀.Reaches setup env) (closeCurrentBlock setup env commitLocation)
      (fun _ c => c₀.Reaches setup env c ∧ c.currentBlockWriter = none)
      (fun e c => ∃ op, (op = .commitLocation → commitLocation = true) ∧ op.isOpening = false ∧
        c₀.Stops setup env op e c) := by
  refine Sat.get fun s hs => ?_
  cases hcurrent : s.currentBlockWriter with
  | none => exact Sat.pure fun _ h => h ▸ ⟨hs, hcurrent⟩
  | some a =>
    have htaken : s.Works env { s with currentBlockWriter := some a } := by
      rw [← hcurrent]
      exact .refl
    refine Sat.set_bind ?_
    by_cases hpos : 0 < a.bytesWritten
    · simp only [if_pos hpos]
      refine Sat.bind (onBlock_traced (O := fun _ => True) htaken fun c => ?_) fun out => ?_
      · refine Sat.bind (BlockM.drainPending_traced fun _ => trivial) fun _ => ?_
        split
        · exact BlockM.flushReplicas_traced trivial
        · exact Sat.pure fun _ h => h
      obtain ⟨res, a'⟩ := out
      cases res with
      | error e =>
        refine Sat.of_forall fun s' hs' => ?_
        obtain ⟨⟨op, c₁, _, hworks, hrefuses⟩, hnone⟩ := hs'
        refine Sat.modify_bind <| Sat.throw ?_
        rintro _ rfl
        refine ⟨.perform op, fun h => (by cases h), rfl, c₁, hs.works hworks, ?_⟩
        have hfails : CacheSide.Fails setup env c₁ (.perform op) e _ := .abandon hrefuses rfl
        rwa [← hnone] at hfails
      | ok u =>
        exact (commitBlock_traced a' _ commitLocation).mono (fun _ h => ⟨hs.works h.1, h.2⟩)
          (fun _ _ h => h) fun _ _ h => h
    · simp only [if_neg hpos]
      refine Sat.modify_bind <| Sat.pure ?_
      rintro _ rfl
      exact ⟨hs.step (.discard hcurrent), rfl⟩

theorem closeFullBlock_traced : Sat (c₀.Reaches setup env) (closeFullBlock setup env)
      (fun _ c => c₀.Reaches setup env c ∧ c.currentBlockWriter = none) (fun e c => ∃ op, c₀.Stops setup env op e c) := by
  refine Sat.get fun s hs => ?_
  cases hcurrent : s.currentBlockWriter with
  | none => exact Sat.pure fun _ h => h ▸ ⟨hs, hcurrent⟩
  | some a =>
    refine Sat.bind ((closeCurrentBlock_traced true).mono (fun _ h => h ▸ hs) (fun _ _ h => h) ?_)
      fun _ => Sat.pure fun _ h => h
    exact fun _ _ ⟨op, _, _, hstops⟩ => ⟨op, hstops⟩

theorem openNextBlock_traced : Sat (c₀.Reaches setup env) (openNextBlock setup env)
      (fun _ c => c₀.Reaches setup env c ∧ c.currentBlockWriter ≠ none) (fun e c => ∃ op, c₀.Stops setup env op e c) := by
  refine Sat.bind closeFullBlock_traced fun _ => Sat.get fun s hs => ?_
  obtain ⟨hreach, hnone⟩ := hs
  cases hplan : setup.plan with
  | error e =>
    exact Sat.throw fun _ h => h ▸ ⟨.plan, s, hreach, .plan hnone hplan⟩
  | ok plan =>
    refine Sat.bind (R := fun a c => c₀.Reaches setup env
      { c with currentBlockWriter := some a, blockOpened := true }) ?_ fun a =>
      Sat.modify fun c hc => ⟨hc, by simp⟩
    intro s' hs'
    rw [hs']
    cases hopen : openBlock setup env
      (computeBlockId (setup.fileId.getD 0) s.committedBlockIds.length) plan s with
    | ok a c => exact hreach.step (.opens hnone hplan hopen)
    | error e c => exact ⟨.openBlock, s, hreach, .openBlock hnone hplan hopen⟩

theorem ensureBlock_traced : Sat (c₀.Reaches setup env) (ensureBlock setup env)
      (fun _ c => c₀.Reaches setup env c ∧ c.currentBlockWriter ≠ none) (fun e c => ∃ op, c₀.Stops setup env op e c) := by
  refine Sat.get fun s hs => ?_
  split
  case isTrue =>
    exact openNextBlock_traced.fixed hs
  case isFalse hroom =>
    refine Sat.pure ?_
    rintro _ rfl
    refine ⟨hs, fun hnone => hroom ?_⟩
    rw [hnone]
    rfl

theorem workOnBlock_traced (hs : c₀.Works env { s with currentBlockWriter := some a })
    (hm : ∀ c, BlockM.Traced env O c₀ c m) {f : CacheM Unit} {Q : Unit → CacheSide → Prop}
    (hf : Sat (fun c => c₀.Works env c ∧ c.currentBlockWriter ≠ none) f Q E)
    (hE : ∀ e c op c₁, O op → c₀.Works env c₁ → CacheSide.Refuses env op e c₁ c → E e c) :
    Sat (· = s)
      (do
        let out ← onBlock a m
        modify fun s => { s with currentBlockWriter := some out.2 }
        match out.1 with
        | .error e => throw e
        | .ok () => f)
      Q E := by
  refine workOnBlock_rule ((hm s).mono ?_ (fun _ _ hworks => ⟨hworks, Option.some_ne_none _⟩) ?_) hf
  · rintro _ rfl
    exact hs
  · rintro e b ⟨op, c₁, hop, hworks, hrefuses⟩
    exact hE e _ op c₁ hop hworks hrefuses

theorem writeLoop_traced : ∀ (fuel : Nat) (data : Bytes) (p : Prop),
    Sat (fun c => c₀.Reaches setup env c ∧ (p → c.currentBlockWriter ≠ none))
      (writeLoop setup env fuel data)
      (fun _ c => c₀.Reaches setup env c ∧
        (p ∨ (0 < fuel ∧ data ≠ []) → c.currentBlockWriter ≠ none))
      (fun e c => ∃ op, c₀.Stops setup env op e c) := by
  intro fuel
  induction fuel with
  | zero => exact fun data p => Sat.pure fun c hc => ⟨hc.1, fun h => hc.2 (h.resolve_right (by simp))⟩
  | succ fuel ih =>
    intro data p
    rw [writeLoop]
    by_cases hnil : data = []
    · rw [if_pos hnil]
      exact Sat.pure fun c hc => ⟨hc.1, fun h => hc.2 (h.resolve_right fun h => h.2 hnil)⟩
    · rw [if_neg hnil]
      refine Sat.bind (ensureBlock_traced.mono (fun _ h => h.1) (fun _ _ h => h) fun _ _ h => h)
        fun _ => Sat.get fun s hs => ?_
      obtain ⟨hreach, hopen⟩ := hs
      cases hcurrent : s.currentBlockWriter with
      | none => exact absurd hcurrent hopen
      | some a =>
        refine (workOnBlock_traced (CacheSide.Works.refl.step (.fill _ a.pendingChunk hcurrent))
          (fun c => BlockM.emitAlignedChunks_traced (O := fun op => ∃ data, op = .write data)
            (fun data => ⟨data, rfl⟩) _ setup.config.chunkSize_pos)
          ((ih (data.drop (min a.remaining data.length)) True).mono
            (fun _ h => ⟨hreach.works h.1, fun _ => h.2⟩)
            (fun _ _ h => ⟨h.1, fun _ => h.2 (.inl trivial)⟩) fun _ _ h => h) ?_).mono
          (fun _ h => h) (fun _ _ h => h) fun _ _ h => h
        rintro e c _ c₁ ⟨data, rfl⟩ hworks hrefuses
        exact ⟨.perform (.write data), c₁, hreach.works hworks, .send hrefuses⟩

theorem writeToCacheStream_traced (c : CacheSide) (data : Bytes) :
    Sat (· = c) (writeToCacheStream setup env data)
      (fun _ c' => c.Reaches setup env c' ∧ (data ≠ [] → c'.currentBlockWriter ≠ none))
      (fun e c' => ∃ op, c.Stops setup env op e c') := by
  refine (writeLoop_traced data.length data False).mono (fun _ h => ⟨h ▸ .refl, False.elim⟩)
    (fun _ _ h => ⟨h.1, fun hne => h.2 (.inr ⟨?_, hne⟩)⟩) fun _ _ h => h
  exact length_pos_iff.mpr hne

theorem flushBlock_traced (c : CacheSide) : Sat (· = c) (flushBlock env) (fun _ => c.Works env)
      (fun e c' => ∃ op c₁, c.Works env c₁ ∧ CacheSide.Refuses env op e c₁ c') := by
  refine Sat.get fun s hs => ?_
  subst hs
  cases hcurrent : s.currentBlockWriter with
  | none => exact Sat.pure fun _ h => h ▸ .refl
  | some a =>
    by_cases hpos : 0 < a.bytesWritten
    · simp only [if_pos hpos]
      have htaken : s.Works env { s with currentBlockWriter := some a } := by
        rw [← hcurrent]
        exact .refl
      refine workOnBlock_traced htaken (O := fun _ => True) (fun c => ?_)
        (Sat.pure fun _ h => h.1) fun _ _ op c₁ _ hworks hrefuses => ⟨op, c₁, hworks, hrefuses⟩
      exact Sat.bind (BlockM.drainPending_traced fun _ => trivial) fun _ =>
        BlockM.flushReplicas_traced trivial
    · simp only [if_neg hpos]
      exact Sat.pure fun _ h => h ▸ .refl

end CacheM

/-! ## Invariants -/

/-- What the operations of the cache side keep, those that fail on the open block
included; then `flush` keeps it too. -/
structure StepInvariant (setup : WriterSetup) (P : CacheSide → Prop) : Prop where
  ticks : ∀ c n, P c → P { c with ticks := n }
  step : ∀ env c c', P c → CacheSide.Step setup env c c' → P c'
  refuses : ∀ env op e c c', P c → CacheSide.Refuses env op e c c' → P c'

/-- What no failure of the cache side breaks; then `write` keeps it too. -/
structure CacheInvariant (setup : WriterSetup) (P : CacheSide → Prop) : Prop
    extends StepInvariant setup P where
  fails : ∀ env c op e c', P c → CacheSide.Fails setup env c op e c' → P c'
  tornDown : ∀ c blacklist, P c → P (c.tornDown blacklist)

namespace StepInvariant

variable {setup : WriterSetup} {P : CacheSide → Prop} (hP : StepInvariant setup P)
  {c c' : CacheSide} {env : CacheEnv}
include hP

theorem reaches (h : c.Reaches setup env c') (hc : P c) :
    P c' := h.invariant (fun c c' hc hs => hP.step env c c' hc hs) hc

theorem works (h : c.Works env c') (hc : P c) : P c' :=
  hP.reaches (CacheSide.Reaches.refl.works h) hc

theorem flush (env : CallEnv) :
    Sat (fun w => P w.cache) (GoosefsFileWriter.flush setup env) (fun _ w => P w.cache)
      (fun _ w => P w.cache) := by
  refine Sat.seq (Sat.modify fun w hw => hP.ticks w.cache 0 hw)
    fun _ => Sat.get fun w hw => ?_
  split
  · exact Sat.throw fun _ h => h ▸ hw
  · refine Sat.bind (R := fun _ w => P w.cache) (Sat.zoom ?_) fun _ => ?_
    · rintro _ rfl u _
      cases UfsM.flush env.ufs u with
      | ok a u' | error e u' => exact hw
    split
    · refine Sat.zoom fun w hw => ?_
      refine (CacheM.flushBlock_traced w.cache).post (fun _ _ h => hP.works h hw) ?_
      rintro e c ⟨op, c₁, hworks, hrefuses⟩
      exact hP.refuses env.cache op e c₁ c (hP.works hworks hw) hrefuses
    · exact Sat.pure fun _ h => h

end StepInvariant

namespace CacheInvariant

open GoosefsFileWriter

variable {setup : WriterSetup} {P : CacheSide → Prop} (hP : CacheInvariant setup P) {s s' : Session}
include hP

theorem stops {env : CacheEnv} {c c' : CacheSide} {op : CacheOp} {e : Error}
    (h : c.Stops setup env op e c') (hc : P c) : P c' := by
  obtain ⟨c₁, hreach, hfails⟩ := h
  exact hP.fails env c₁ op e c' (hP.reaches hreach hc) hfails

theorem write (env : CallEnv) (data : Bytes) :
    Sat (fun w => P w.cache) (GoosefsFileWriter.write setup env data) (fun _ w => P w.cache)
      (fun _ w => P w.cache) := by
  refine Sat.of_forall fun w hw => ?_
  have hstart : P { w.cache with ticks := 0 } := hP.ticks w.cache 0 hw
  have htraced : Sat (· = { w.cache with ticks := 0 })
      (CacheM.writeToCacheStream setup env.cache data) _ _ :=
    CacheM.writeToCacheStream_traced _ data
  refine write_spec (fun _ _ => hstart) (fun _ _ => hstart) ?_ ?_
  · intro _ _ b e s hs
    cases hs with
    | intro _ hrun _ =>
      obtain ⟨op, hstops⟩ := htraced.error rfl hrun
      exact hP.tornDown _ _ (hP.stops hstops hstart)
  · intro _ _ b s hs
    refine (ufsPart_framed (P := fun w => P w.cache) (fun _ _ h => h) fun _ _ _ h => h).fixed ?_
    cases hs with
    | off _ => exact hstart
    | stored _ hrun => exact hP.reaches (htraced.ok rfl hrun).1 hstart
    | degraded _ hrun _ =>
      obtain ⟨op, hstops⟩ := htraced.error rfl hrun
      exact hP.tornDown _ _ (hP.stops hstops hstart)

theorem next {call : Call} (hs : s.writer.Ended ∨ P s.writer.cache)
    (hnext : s.next setup call = some s') : s'.writer.Ended ∨ P s'.writer.cache := by
  refine Session.next_of_open (P := fun _ w => P w.cache) (fun hopen => ?_) (fun hopen => ?_) hnext
  · rintro env data rfl
    exact (hP.write env data).mono (fun _ h => h ▸ hs.resolve_left hopen) (fun _ _ h => .inr h)
      fun _ _ h => .inr h
  · rintro env rfl
    exact (hP.flush env).mono (fun _ h => h ▸ hs.resolve_left hopen) (fun _ _ h => .inr h)
      fun _ _ h => .inr h

theorem run {C : Session → Call → Prop} {calls : List Call}
    (hrun : Guarded (Session.next setup) C s calls s') (hs : P s.writer.cache) :
    s'.writer.Ended ∨ P s'.writer.cache :=
  hrun.invariant (fun (s : Session) _ _ (hs : s.writer.Ended ∨ P s.writer.cache) _ hnext =>
    hP.next hs hnext) (.inr hs)

end CacheInvariant

end GooseFS
