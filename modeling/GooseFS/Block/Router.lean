import Mathlib.Data.Prod.Lex
import Mathlib.Data.String.Basic
import GooseFS.Lib.Tasks
import GooseFS.Lib.Transition
import GooseFS.Block.HashRing

/-!
# The worker router

A `WorkerRouter` publishes its worker list, the hash ring of the list and the id
of the local worker in three cells.  Each cell is read and written atomically,
but `update_workers` stores one after the other, and a selection or a view loads
one after the other.  `State` is a router with the calls in flight, and a step of
a call is one access to a cell.

Nothing keeps the accesses of two calls apart: a selection that runs while a list
is being published can take the new list with the old ring, and two updates can
leave the list of one with the ring of the other (`torn_snapshots`).  Where the
publication of a list excludes other publications and the loads of selections
and views (`Exclusive`), everything stays consistent
(`snapshots_consistent`).

An update whose list has the fingerprint of the published one does not publish it.
The fingerprint covers what the ring depends on, so the other attributes of the
workers stay what they were (`update_publishes_iff`, `attributes_not_published`).
-/

namespace GooseFS.Router

open Lib List Option Router.WorkerInfo

/-! ## Calls on a router -/

structure Cells where
  workers : List WorkerInfo
  hashRing : HashRing
  localWorkerId : Option (Option Int64)
  deriving DecidableEq, Repr

/-- What `update_workers` is about to do. -/
inductive UpdatePc where
  | load
  | storeWorkers
  | storeRing
  | storeLocal
  | returned
  deriving DecidableEq, Repr

/-- What `select_worker` is about to do, with what it has loaded. -/
inductive SelectPc where
  | loadWorkers
  | loadRing (workers : List WorkerInfo)
  | loadLocal (workers : List WorkerInfo) (ring : HashRing)
  | storeLocal (workers : List WorkerInfo) (ring : HashRing)
  | returned (workers : List WorkerInfo) (ring : HashRing) (localId : Option Int64)
  deriving DecidableEq, Repr

/-- The same for `select_workers`, which has no local-first rule. -/
inductive SelectManyPc where
  | loadWorkers
  | loadRing (workers : List WorkerInfo)
  | returned (workers : List WorkerInfo) (ring : HashRing)
  deriving DecidableEq, Repr

/-- The same for `WorkerRouterView::from_shared`. -/
inductive ViewPc where
  | loadLocal
  | loadWorkers (localId : Option Int64)
  | loadRing (localId : Option Int64) (workers : List WorkerInfo)
  | returned (localId : Option Int64) (workers : List WorkerInfo) (ring : HashRing)
  deriving DecidableEq, Repr

inductive Task where
  | update (workers : List WorkerInfo) (pc : UpdatePc)
  | select (blockId : Int64) (pc : SelectPc)
  | selectMany (blockId : Int64) (count : Nat) (pc : SelectManyPc)
  | view (pc : ViewPc)
  deriving DecidableEq, Repr

structure Host where
  isLocal : String → Bool
  xxh3 : Bytes → UInt64

variable {host : Host} {c c' : Cells} {t : Task} {blockId : Int64} {pc pc' : UpdatePc} {t' : Task}
  {workers : List WorkerInfo}

def SameFingerprint (host : Host) (published workers : List WorkerInfo) : Prop :=
  workersFingerprint host.xxh3 workers = workersFingerprint host.xxh3 published ∧ published ≠ []

instance (published workers : List WorkerInfo) :
    Decidable (SameFingerprint host published workers) := inferInstanceAs (Decidable (_ ∧ _))

def UpdatePc.next (host : Host) (c : Cells) (workers : List WorkerInfo) :
    UpdatePc → Option (Cells × UpdatePc)
  | .load =>
    if SameFingerprint host c.workers workers then some (c, .returned) else some (c, .storeWorkers)
  | .storeWorkers => some ({ c with workers := workers }, .storeRing)
  | .storeRing => some ({ c with hashRing := buildHashRing workers }, .storeLocal)
  | .storeLocal =>
    some ({ c with localWorkerId := some (localWorker host.isLocal workers) }, .returned)
  | .returned => none

/-- A list without workers fails the call before the local worker is searched. -/
def SelectPc.next (host : Host) (c : Cells) : SelectPc → Option (Cells × SelectPc)
  | .loadWorkers => some (c, .loadRing c.workers)
  | .loadRing workers => some (c, .loadLocal workers c.hashRing)
  | .loadLocal workers ring =>
    if workers = [] then some (c, .returned workers ring none)
    else
      match c.localWorkerId with
      | some cached => some (c, .returned workers ring cached)
      | none => some (c, .storeLocal workers ring)
  | .storeLocal workers ring =>
    let cached := localWorker host.isLocal workers
    some ({ c with localWorkerId := some cached }, .returned workers ring cached)
  | .returned _ _ _ => none

def SelectManyPc.next (c : Cells) : SelectManyPc → Option SelectManyPc
  | .loadWorkers => some (.loadRing c.workers)
  | .loadRing workers => some (.returned workers c.hashRing)
  | .returned _ _ => none

def ViewPc.next (c : Cells) : ViewPc → Option ViewPc
  | .loadLocal => some (.loadWorkers c.localWorkerId.join)
  | .loadWorkers localId => some (.loadRing localId c.workers)
  | .loadRing localId workers => some (.returned localId workers c.hashRing)
  | .returned _ _ _ => none

def Task.next (host : Host) (c : Cells) : Task → Option (Cells × Task)
  | .update workers pc => (pc.next host c workers).map fun out => (out.1, .update workers out.2)
  | .select blockId pc => (pc.next host c).map fun out => (out.1, .select blockId out.2)
  | .selectMany blockId count pc => (pc.next c).map fun pc => (c, .selectMany blockId count pc)
  | .view pc => (pc.next c).map fun pc => (c, .view pc)

def Task.isUpdate : Task → Bool
  | .update _ _ => true
  | _ => false

def Task.uses : Task → Option (List WorkerInfo × HashRing)
  | .select _ (.returned workers ring _) => some (workers, ring)
  | .selectMany _ _ (.returned workers ring) => some (workers, ring)
  | .view (.returned _ workers ring) => some (workers, ring)
  | _ => none

structure State where
  cells : Cells
  tasks : List Task
  deriving DecidableEq, Repr

def State.fresh : State := ⟨⟨[], [], none⟩, []⟩

inductive Act where
  | updateWorkers (workers : List WorkerInfo)
  | selectWorker (blockId : Int64)
  | selectWorkers (blockId : Int64) (count : Nat)
  | fromShared
  | run (i : Nat)
  deriving DecidableEq, Repr

def State.call (s : State) (t : Task) : State := { s with tasks := s.tasks ++ [t] }

def State.step (host : Host) (s : State) : Act → Option State
  | .updateWorkers workers => some (s.call (.update workers .load))
  | .selectWorker blockId => some (s.call (.select blockId .loadWorkers))
  | .selectWorkers blockId count => some (s.call (.selectMany blockId count .loadWorkers))
  | .fromShared => some (s.call (.view .loadLocal))
  | .run i => do
    let t ← s.tasks[i]?
    let out ← t.next host s.cells
    pure ⟨out.1, s.tasks.set i out.2⟩

/-- `reading` calls have loaded a list and still look at the other cells;
`publishing` ones have stored a list and not yet what belongs to it. -/
inductive Phase where
  | idle
  | reading
  | publishing
  deriving DecidableEq, Repr

def UpdatePc.phase : UpdatePc → Phase
  | .storeRing => .publishing
  | .storeLocal => .publishing
  | _ => .idle

def SelectPc.phase : SelectPc → Phase
  | .loadWorkers => .idle
  | .returned _ _ _ => .idle
  | _ => .reading

def SelectManyPc.phase : SelectManyPc → Phase
  | .loadRing _ => .reading
  | _ => .idle

def ViewPc.phase : ViewPc → Phase
  | .loadRing _ _ => .reading
  | _ => .idle

def Task.phase : Task → Phase
  | .update _ pc => pc.phase
  | .select _ pc => pc.phase
  | .selectMany _ _ pc => pc.phase
  | .view pc => pc.phase

def Task.StoresList : Task → Prop
  | .update _ pc => pc = .storeWorkers
  | _ => False

/-- The next access loads the list that a selection or view works with. -/
def Task.LoadsList : Task → Prop
  | .select _ pc => pc = .loadWorkers
  | .selectMany _ _ pc => pc = .loadWorkers
  | .view (.loadWorkers _) => True
  | _ => False

instance (t : Task) : Decidable t.StoresList := by
  cases t <;> unfold Task.StoresList <;> infer_instance

instance (t : Task) : Decidable t.LoadsList := by
  unfold Task.LoadsList
  split <;> infer_instance

/-! ## What an access does -/

/-- The ring and the local worker belong to the published list. -/
structure Settled (host : Host) (c : Cells) : Prop where
  ring : c.hashRing = buildHashRing c.workers
  cached : ∀ cached, c.localWorkerId = some cached → cached = localWorker host.isLocal c.workers

def Task.Knows (c : Cells) : Task → Prop
  | .update workers .storeRing => c.workers = workers
  | .update workers .storeLocal => c.workers = workers ∧ c.hashRing = buildHashRing workers
  | .update _ _ => True
  | .select _ .loadWorkers => True
  | .select _ (.loadRing workers) => c.workers = workers
  | .select _ (.loadLocal workers ring) => c.workers = workers ∧ ring = buildHashRing workers
  | .select _ (.storeLocal workers ring) => c.workers = workers ∧ ring = buildHashRing workers
  | .select _ (.returned workers ring _) => ring = buildHashRing workers
  | .selectMany _ _ .loadWorkers => True
  | .selectMany _ _ (.loadRing workers) => c.workers = workers
  | .selectMany _ _ (.returned workers ring) => ring = buildHashRing workers
  | .view .loadLocal => True
  | .view (.loadWorkers _) => True
  | .view (.loadRing _ workers) => c.workers = workers
  | .view (.returned _ workers ring) => ring = buildHashRing workers

/-- What an access changes, and what the call knows after it. -/
structure Moves (host : Host) (c : Cells) (t : Task) (c' : Cells) (t' : Task) : Prop where
  phase : t'.phase = .idle ∨ t'.phase = t.phase ∨ (t'.phase = .publishing ∧ t.StoresList) ∨
    (t'.phase = .reading ∧ t.LoadsList)
  workers : c'.workers = c.workers ∨ t.StoresList
  ring : c'.hashRing = c.hashRing ∨ t.phase = .publishing
  knows : (t.phase = .reading → Settled host c) → t.Knows c → t'.Knows c'
  settles : t'.phase ≠ .publishing → (t.phase ≠ .publishing → Settled host c) → t.Knows c →
    Settled host c'

theorem Moves.of_load (hidle : t.phase ≠ .publishing)
    (phase : t'.phase = .idle ∨ t'.phase = t.phase ∨ (t'.phase = .reading ∧ t.LoadsList))
    (knows : (t.phase = .reading → Settled host c) → t.Knows c → t'.Knows c) :
    Moves host c t c t' where
  phase := phase.imp_right fun h => h.imp_right .inr
  workers := .inl rfl
  ring := .inl rfl
  knows := knows
  settles := fun _ hsettled _ => hsettled hidle

theorem UpdatePc.next_moves (h : pc.next host c workers = some (c', pc')) :
    Moves host c (.update workers pc) c' (.update workers pc') := by
  cases pc with
  | load =>
    rw [UpdatePc.next] at h
    split at h
    · cases h
      exact .of_load (fun h => by cases h) (.inl rfl) fun _ _ => trivial
    · cases h
      exact .of_load (fun h => by cases h) (.inl rfl) fun _ _ => trivial
  | storeWorkers =>
    cases h
    exact ⟨.inr (.inr (.inl ⟨rfl, rfl⟩)), .inr rfl, .inl rfl, fun _ _ => rfl,
      fun hpub => absurd rfl hpub⟩
  | storeRing =>
    cases h
    exact ⟨.inr (.inl rfl), .inl rfl, .inr rfl, fun _ hknows => ⟨hknows, rfl⟩,
      fun hpub => absurd rfl hpub⟩
  | storeLocal =>
    cases h
    refine ⟨.inl rfl, .inl rfl, .inr rfl, fun _ _ => trivial, fun _ _ hknows => ?_⟩
    obtain ⟨rfl, hring⟩ := hknows
    refine ⟨hring, fun cached hcached => ?_⟩
    cases hcached
    rfl
  | returned => cases h

theorem SelectPc.next_moves {pc pc' : SelectPc} (h : pc.next host c = some (c', pc')) :
    Moves host c (.select blockId pc) c' (.select blockId pc') := by
  cases pc with
  | loadWorkers =>
    cases h
    exact .of_load (fun h => by cases h) (.inr (.inr ⟨rfl, rfl⟩)) fun _ _ => rfl
  | loadRing workers =>
    cases h
    refine .of_load (fun h => by cases h) (.inr (.inl rfl)) fun hsettled hknows => ?_
    have hring := (hsettled rfl).ring
    rw [show c.workers = workers from hknows] at hring
    exact ⟨hknows, hring⟩
  | loadLocal workers ring =>
    rw [SelectPc.next] at h
    split at h
    · cases h
      exact .of_load (fun h => by cases h) (.inl rfl) fun _ hknows => hknows.2
    · split at h
      · cases h
        exact .of_load (fun h => by cases h) (.inl rfl) fun _ hknows => hknows.2
      · cases h
        exact .of_load (fun h => by cases h) (.inr (.inl rfl)) fun _ hknows => hknows
  | storeLocal workers ring =>
    cases h
    refine ⟨.inl rfl, .inl rfl, .inl rfl, fun _ hknows => hknows.2, fun _ hsettled hknows => ?_⟩
    refine ⟨(hsettled fun h => by cases h).ring, fun cached hcached => ?_⟩
    cases hcached
    rw [← hknows.1]
  | returned workers ring localId => cases h

theorem SelectManyPc.next_moves {count : Nat} {pc pc' : SelectManyPc} (h : pc.next c = some pc') :
    Moves host c (.selectMany blockId count pc) c (.selectMany blockId count pc') := by
  cases pc with
  | loadWorkers =>
    cases h
    exact .of_load (fun h => by cases h) (.inr (.inr ⟨rfl, rfl⟩)) fun _ _ => rfl
  | loadRing workers =>
    cases h
    refine .of_load (fun h => by cases h) (.inl rfl) fun hsettled hknows => ?_
    have hring := (hsettled rfl).ring
    rwa [show c.workers = workers from hknows] at hring
  | returned workers ring => cases h

theorem ViewPc.next_moves {pc pc' : ViewPc} (h : pc.next c = some pc') :
    Moves host c (.view pc) c (.view pc') := by
  cases pc with
  | loadLocal =>
    cases h
    exact .of_load (fun h => by cases h) (.inl rfl) fun _ _ => trivial
  | loadWorkers localId =>
    cases h
    exact .of_load (fun h => by cases h) (.inr (.inr ⟨rfl, trivial⟩)) fun _ _ => rfl
  | loadRing localId workers =>
    cases h
    refine .of_load (fun h => by cases h) (.inl rfl) fun hsettled hknows => ?_
    have hring := (hsettled rfl).ring
    rwa [show c.workers = workers from hknows] at hring
  | returned localId workers ring => cases h

theorem Task.next_moves (h : t.next host c = some (c', t')) : Moves host c t c' t' := by
  cases t with
  | update workers pc =>
    obtain ⟨out, hout, heq⟩ := map_eq_some_iff.1 h
    cases heq
    exact UpdatePc.next_moves hout
  | select blockId pc =>
    obtain ⟨out, hout, heq⟩ := map_eq_some_iff.1 h
    cases heq
    exact SelectPc.next_moves hout
  | selectMany blockId count pc =>
    obtain ⟨out, hout, heq⟩ := map_eq_some_iff.1 h
    cases heq
    exact SelectManyPc.next_moves hout
  | view pc =>
    obtain ⟨out, hout, heq⟩ := map_eq_some_iff.1 h
    cases heq
    exact ViewPc.next_moves hout

theorem Task.Knows.of_idle (hidle : t.phase = .idle) (h : t.Knows c) : t.Knows c' := by
  cases t with
  | update workers pc | select blockId pc | selectMany blockId count pc
  | view pc => cases pc <;> trivial

theorem Task.Knows.frame (hworkers : c'.workers = c.workers) (hring : c'.hashRing = c.hashRing)
    (h : t.Knows c) : t.Knows c' := by
  have hcells : ∀ ws, c.workers = ws → c'.workers = ws := fun ws hws => hworkers.trans hws
  cases t with
  | update workers pc =>
    cases pc with
    | storeRing => exact hcells _ h
    | storeLocal => exact ⟨hcells _ h.1, hring.trans h.2⟩
    | load | storeWorkers | returned => trivial
  | select blockId pc =>
    cases pc with
    | loadWorkers => trivial
    | loadRing workers => exact hcells _ h
    | loadLocal workers ring | storeLocal workers ring => exact ⟨hcells _ h.1, h.2⟩
    | returned workers ring localId => exact h
  | selectMany blockId count pc =>
    cases pc with
    | loadWorkers => trivial
    | loadRing workers => exact hcells _ h
    | returned workers ring => exact h
  | view pc =>
    cases pc with
    | loadLocal | loadWorkers localId => trivial
    | loadRing localId workers => exact hcells _ h
    | returned localId workers ring => exact h

/-! ## Fingerprints -/

namespace WorkerTuple

variable {a b : WorkerTuple}

def key (t : WorkerTuple) : Int ×ₗ String ×ₗ Int ×ₗ Int :=
  toLex (t.id.toInt, toLex (t.host, toLex (t.port.toInt, t.vn.toInt)))

theorem le_iff_key : a.le b = true ↔ a.key ≤ b.key := by
  simp only [key, Prod.Lex.toLex_le_toLex, le, Int64.toInt_inj, Int32.toInt_inj,
    ← Int64.lt_iff_toInt_lt, ← Int32.lt_iff_toInt_lt, ← Int32.le_iff_toInt_le]
  split
  · simp [*]
  · split
    · simp_all
    · split
      · simp_all
      · simp_all

theorem key_injective : Function.Injective key := by
  rintro ⟨_, _, _, _⟩ ⟨_, _, _, _⟩ h
  simp only [key, toLex_inj, Prod.mk.injEq, Int64.toInt_inj, Int32.toInt_inj] at h
  simp [h]

instance : Std.Total fun a b : WorkerTuple => a.le b = true :=
  ⟨fun a b => by rw [le_iff_key, le_iff_key]; exact le_total a.key b.key⟩

instance : IsTrans WorkerTuple fun a b => a.le b = true :=
  ⟨fun _ _ _ hab hbc => le_iff_key.mpr ((le_iff_key.mp hab).trans (le_iff_key.mp hbc))⟩

instance : Std.Antisymm fun a b : WorkerTuple => a.le b = true :=
  ⟨fun _ _ hab hba => key_injective (le_antisymm (le_iff_key.mp hab) (le_iff_key.mp hba))⟩

end WorkerTuple

/-- The fingerprint covers ids, hosts, ports and virtual nodes, in any order, and nothing
else of a worker. -/
theorem workersFingerprint_of_tuples (xxh3 : Bytes → UInt64) {workers workers' : List WorkerInfo}
    (h : (workers.map tuple).Perm (workers'.map tuple)) :
    workersFingerprint xxh3 workers = workersFingerprint xxh3 workers' := by
  have hnil : workers = [] ↔ workers' = [] := by
    rw [← length_eq_zero_iff, ← length_eq_zero_iff]
    have hlen := h.length_eq
    simp only [length_map] at hlen
    rw [hlen]
  have hsorted : (workers.map tuple).insertionSort (fun a b => a.le b = true) =
      (workers'.map tuple).insertionSort fun a b => a.le b = true :=
    ((perm_insertionSort _ _).trans (h.trans (perm_insertionSort _ _).symm)).eq_of_pairwise'
      (pairwise_insertionSort _ _) (pairwise_insertionSort _ _)
  unfold workersFingerprint
  simp only [hnil, hsorted]

/-! ## Runs -/

/-- The published list while an update to `workers` runs: `published` until the update
stores its own. -/
def UpdatePc.Lists (host : Host) (published workers current : List WorkerInfo) : UpdatePc → Prop
  | .load => current = published
  | .storeWorkers => current = published ∧ ¬SameFingerprint host published workers
  | .storeRing => current = workers ∧ ¬SameFingerprint host published workers
  | .storeLocal => current = workers ∧ ¬SameFingerprint host published workers
  | .returned => current = if SameFingerprint host published workers then published else workers

theorem UpdatePc.Lists.next {published : List WorkerInfo}
    (h : pc.Lists host published workers c.workers)
    (hnext : pc.next host c workers = some (c', pc')) :
    pc'.Lists host published workers c'.workers := by
  cases pc with
  | load =>
    have hlist : c.workers = published := h
    rw [UpdatePc.next] at hnext
    by_cases hsame : SameFingerprint host c.workers workers
    · rw [if_pos hsame] at hnext
      cases hnext
      rw [hlist] at hsame
      exact hlist.trans (if_pos hsame).symm
    · rw [if_neg hsame] at hnext
      cases hnext
      rw [hlist] at hsame
      exact ⟨hlist, hsame⟩
  | storeWorkers =>
    cases hnext
    exact ⟨rfl, h.2⟩
  | storeRing =>
    cases hnext
    exact h
  | storeLocal =>
    cases hnext
    exact h.1.trans (if_neg h.2).symm
  | returned => cases hnext

namespace State

/-- A list is published while no other call is in the middle of its accesses, and no
list is loaded while one is being published. -/
def Exclusive (s : State) : Act → Prop
  | .run i => ∀ t ∈ s.tasks[i]?, (t.StoresList → ∀ u ∈ s.tasks, u.phase = .idle) ∧
      (t.LoadsList → ∀ u ∈ s.tasks, u.phase ≠ .publishing)
  | _ => True

instance (s : State) (a : Act) : Decidable (s.Exclusive a) := by
  cases a <;> unfold Exclusive <;> infer_instance

structure Consistent (host : Host) (s : State) : Prop where
  knows : Asserted Task.Knows s.cells s.tasks
  apart : Apart (fun t u => t.phase = .publishing → u.phase = .idle) s.tasks
  settled : (∀ t ∈ s.tasks, t.phase ≠ .publishing) → Settled host s.cells

variable {s s' : State} {a : Act} {i : Nat} {t : Task}

theorem consistent_fresh : Consistent host fresh where
  knows := fun _ h => by cases h
  apart := fun _ _ _ _ _ h => by cases h
  settled := fun _ => ⟨buildHashRing_nil.symm, fun _ h => by cases h⟩

theorem Consistent.call (h : s.Consistent host) (hidle : t.phase = .idle) (hknows : t.Knows s.cells) :
    (s.call t).Consistent host where
  knows := h.knows.append (fun _ hu => hu) hknows
  apart := h.apart.append fun u =>
    ⟨fun ht => absurd (hidle.symm.trans ht) (by decide), fun _ => hidle⟩
  settled := fun hquiet => h.settled fun u hu => hquiet u (mem_append_left _ hu)

theorem Consistent.access (h : s.Consistent host) {t' : Task} {c' : Cells}
    (hi : s.tasks[i]? = some t) (hex : s.Exclusive (.run i))
    (hnext : t.next host s.cells = some (c', t')) : Consistent host ⟨c', s.tasks.set i t'⟩ := by
  have hmoves := Task.next_moves hnext
  obtain ⟨hstores, hloads⟩ := hex t hi
  have hknows : t.Knows s.cells := h.knows.get hi
  have hmem : t ∈ s.tasks := mem_of_getElem? hi
  -- A call that reads runs while nothing is being published.
  have hreading : t.phase = .reading → Settled host s.cells := by
    intro hphase
    refine h.settled fun u hu hpub => ?_
    obtain ⟨j, hj⟩ := getElem?_of_mem hu
    by_cases hji : j = i
    · subst hji
      rw [hi] at hj
      cases hj
      rw [hphase] at hpub
      cases hpub
    · have hidle := h.apart hji hj hi hpub
      rw [hphase] at hidle
      cases hidle
  refine ⟨?_, ?_, ?_⟩
  · refine h.knows.set (hmoves.knows hreading hknows) fun j u hji hj hu => ?_
    have hpublishing : t.phase = .publishing → u.phase = .idle :=
      fun hpub => h.apart (Ne.symm hji) hi hj hpub
    obtain hworkers | hst := hmoves.workers
    · obtain hring | hpub := hmoves.ring
      · exact hu.frame hworkers hring
      · exact hu.of_idle (hpublishing hpub)
    · exact hu.of_idle (hstores hst u (mem_of_getElem? hj))
  · refine h.apart.set fun j u hji hj => ?_
    have hu : u ∈ s.tasks := mem_of_getElem? hj
    obtain hidle | hsame | ⟨hpub, hst⟩ | ⟨hread, hld⟩ := hmoves.phase
    · exact ⟨fun hpub => absurd (hidle.symm.trans hpub) (by decide), fun _ => hidle⟩
    · rw [hsame]
      exact ⟨h.apart (Ne.symm hji) hi hj, h.apart hji hj hi⟩
    · have hidle := hstores hst u hu
      exact ⟨fun _ => hidle, fun hu' => absurd (hidle.symm.trans hu') (by decide)⟩
    · exact ⟨fun hpub => absurd (hread.symm.trans hpub) (by decide),
        fun hu' => absurd hu' (hloads hld u hu)⟩
  · intro hquiet
    refine hmoves.settles (hquiet t' (mem_set_self hi)) (fun hpub => ?_) hknows
    refine h.settled fun u hu => ?_
    obtain ⟨j, hj⟩ := getElem?_of_mem hu
    by_cases hji : j = i
    · subst hji
      rw [hi] at hj
      cases hj
      exact hpub
    · refine hquiet u (mem_of_getElem? (i := j) ?_)
      rw [getElem?_set_ne (Ne.symm hji), hj]

theorem Consistent.step (h : s.Consistent host) (hex : s.Exclusive a)
    (hstep : s.step host a = some s') : s'.Consistent host := by
  cases a with
  | updateWorkers workers | selectWorker blockId | selectWorkers blockId count | fromShared =>
    cases hstep
    exact h.call rfl trivial
  | run i =>
    obtain ⟨t, hi, hrest⟩ := bind_eq_some_iff.1 hstep
    obtain ⟨⟨c', t'⟩, hnext, heq⟩ := bind_eq_some_iff.1 hrest
    cases heq
    exact h.access hi hex hnext

def Updating : Task → Prop
  | .update _ pc => pc ≠ .returned
  | _ => False

instance (t : Task) : Decidable (Updating t) := by
  cases t <;> unfold Updating <;> infer_instance

/-- Where publication is exclusive, every selection and every view works with the
ring of its list, and between updates the cells belong together. -/
theorem snapshots_consistent {acts : List Act}
    (hrun : Guarded (step host) Exclusive fresh acts s) :
    (∀ t ∈ s.tasks, ∀ workers ring, t.uses = some (workers, ring) → ring = buildHashRing workers) ∧
      ((∀ t ∈ s.tasks, ¬Updating t) → Settled host s.cells) := by
  have h : Consistent host s :=
    hrun.invariant (fun _ _ _ h hex hstep => h.step hex hstep) consistent_fresh
  refine ⟨fun t ht workers ring huses => ?_, fun hquiet => h.settled fun t ht hpub => ?_⟩
  · have hknows := h.knows t ht
    cases t with
    | update ws pc => cases huses
    | select blockId pc | selectMany blockId count pc | view pc =>
      cases pc <;> cases huses
      exact hknows
  · cases t with
    | update ws pc =>
      refine hquiet _ ht fun hret => ?_
      rw [hret] at hpub
      cases hpub
    | select blockId pc | selectMany blockId count pc | view pc => cases pc <;> cases hpub

/-! A worker on this host, one elsewhere and one that has no address, with one virtual
node each. -/

def smallHost : Host := ⟨fun name => name = "here", fun bytes => UInt64.ofNat bytes.length⟩

def smallWorker (id : Int64) (name : String) : WorkerInfo :=
  ⟨some id, some ⟨some name, some 9203⟩, some 1, some 100, some 0, some false⟩

def here : WorkerInfo := smallWorker 1 "here"

def there : WorkerInfo := smallWorker 2 "there"

def noAddress : WorkerInfo := { smallWorker 3 "" with address := none }

/-- A list is published, a selection and a view use it, and a second list replaces it. -/
def smallRun : List Act :=
  [.updateWorkers [there], .run 0, .run 0, .run 0, .run 0, .selectWorker 7, .fromShared, .run 1,
    .run 2, .run 2, .run 1, .run 2, .run 1, .updateWorkers [here, there], .updateWorkers [here],
    .run 3, .run 4, .run 3, .run 3, .run 3, .run 4, .run 4, .run 4]

theorem snapshots_consistent_updated : ∃ s, Guarded (step smallHost) Exclusive fresh smallRun s ∧
      s.cells.workers = [here] ∧ s.tasks[1]? = some (.select 7 (.returned [there]
        (buildHashRing [there]) none)) ∧
      (∀ t ∈ s.tasks, ∀ workers ring, t.uses = some (workers, ring) →
        ring = buildHashRing workers) ∧
      Settled smallHost s.cells := by
  have hreplay : ∃ s, Guarded (step smallHost) Exclusive fresh smallRun s ∧
      (s.cells.workers = [here] ∧ s.tasks[1]? = some (.select 7 (.returned [there]
        (buildHashRing [there]) none)) ∧ ∀ t ∈ s.tasks, ¬Updating t) :=
    Guarded.exists_of_replay (by decide +kernel)
  obtain ⟨s, hrun, hworkers, hselect, hquiet⟩ := hreplay
  obtain ⟨huses, hsettled⟩ := snapshots_consistent hrun
  exact ⟨s, hrun, hworkers, hselect, huses, hsettled hquiet⟩

/-- A selection takes the new list with the old ring and finds no worker; and two
updates leave the list of one with the ring and the local worker of the other. -/
theorem torn_snapshots : (∃ s, Guarded (step smallHost) (fun _ _ => True) fresh
        [.updateWorkers [there], .run 0, .run 0, .selectWorker 7, .run 1, .run 1, .run 1, .run 1] s ∧
      s.tasks[1]? = some (.select 7 (.returned [there] [] none)) ∧ [] ≠ buildHashRing [there] ∧
      selectWorker 7 [there] [] (fun _ => false) none = .error (noSuitableWorker 7)) ∧
    (∃ s, Guarded (step smallHost) (fun _ _ => True) fresh
        [.updateWorkers [here], .updateWorkers [there], .run 0, .run 1, .run 0, .run 1, .run 1,
          .run 1, .run 0, .run 0] s ∧
      (∀ t ∈ s.tasks, ¬Updating t) ∧ s.cells.workers = [there] ∧
      s.cells.hashRing = buildHashRing [here] ∧ buildHashRing [here] ≠ buildHashRing [there] ∧
      s.cells.localWorkerId = some (some 1) ∧ localWorker smallHost.isLocal [there] = none) := by
  constructor
  · exact Guarded.exists_of_replay (by decide +kernel)
  · exact Guarded.exists_of_replay (by decide +kernel)

/-! ## What an update publishes -/

def OnlyUpdate (i : Nat) (s : State) : Act → Prop
  | .run j => ∀ t ∈ s.tasks[j]?, t.isUpdate = true → j = i
  | _ => True

instance (i : Nat) (s : State) (a : Act) : Decidable (OnlyUpdate i s a) := by
  cases a <;> unfold OnlyUpdate <;> infer_instance

/-- The update at place `i` runs, on a router that had published `published`. -/
def Publishes (host : Host) (published workers : List WorkerInfo) (i : Nat) (s : State) : Prop :=
  ∃ pc, s.tasks[i]? = some (.update workers pc) ∧ pc.Lists host published workers s.cells.workers

theorem Publishes.step {published workers : List WorkerInfo}
    (h : s.Publishes host published workers i) (honly : OnlyUpdate i s a)
    (hstep : s.step host a = some s') : s'.Publishes host published workers i := by
  obtain ⟨pc, hi, hpc⟩ := h
  have hcall : ∀ t, (s.call t).Publishes host published workers i := fun t =>
    ⟨pc, (getElem?_append_left (List.getElem?_eq_some_iff.1 hi).1).trans hi, hpc⟩
  cases a with
  | updateWorkers ws | selectWorker blockId | selectWorkers blockId count | fromShared =>
    cases hstep
    exact hcall _
  | run j =>
    obtain ⟨t, hj, hrest⟩ := bind_eq_some_iff.1 hstep
    obtain ⟨⟨c', t'⟩, hnext, heq⟩ := bind_eq_some_iff.1 hrest
    cases heq
    by_cases hji : j = i
    · subst hji
      cases hi.symm.trans hj
      obtain ⟨⟨c'', pc'⟩, hupdate, heq⟩ := map_eq_some_iff.1 hnext
      cases heq
      have hset : (s.tasks.set j (.update workers pc'))[j]? = some (.update workers pc') :=
        getElem?_set_self (List.getElem?_eq_some_iff.1 hi).1
      exact ⟨pc', hset, hpc.next hupdate⟩
    · -- The call that moves is not an update, so the list stays.
      have hworkers : c'.workers = s.cells.workers := by
        refine (Task.next_moves hnext).workers.resolve_right fun hstores => ?_
        cases t with
        | update ws pc => exact hji (honly _ hj rfl)
        | select blockId pc | selectMany blockId count pc | view pc => exact hstores
      refine ⟨pc, (getElem?_set_ne hji).trans hi, ?_⟩
      rw [← hworkers] at hpc
      exact hpc

theorem workers_of_returned {workers : List WorkerInfo} {i : Nat} {acts : List Act}
    (hcall : s.tasks[i]? = some (.update workers .load))
    (hrun : Guarded (step host) (OnlyUpdate i) s acts s')
    (hreturned : s'.tasks[i]? = some (.update workers .returned)) :
    s'.cells.workers =
      if SameFingerprint host s.cells.workers workers then s.cells.workers else workers := by
  have hpublishes : s'.Publishes host s.cells.workers workers i :=
    hrun.invariant (fun _ _ _ h honly hstep => h.step honly hstep) ⟨.load, hcall, rfl⟩
  obtain ⟨pc, hpc, hlist⟩ := hpublishes
  cases hpc.symm.trans hreturned
  exact hlist

/-- An update that changes no id, host, port or number of virtual nodes is not published,
whatever else it changes. -/
theorem not_published_of_tuples {workers : List WorkerInfo} {i : Nat} {acts : List Act}
    (hcall : s.tasks[i]? = some (.update workers .load))
    (hrun : Guarded (step host) (OnlyUpdate i) s acts s')
    (hreturned : s'.tasks[i]? = some (.update workers .returned)) (hsome : s.cells.workers ≠ [])
    (htuples : (workers.map tuple).Perm (s.cells.workers.map tuple)) :
    s'.cells.workers = s.cells.workers := by
  rw [workers_of_returned hcall hrun hreturned,
    if_pos ⟨workersFingerprint_of_tuples host.xxh3 htuples, hsome⟩]

/-- After an update without another update beside it, the published workers are those
of its list, with all their attributes, exactly if the list was published before, or
the router had none, or the fingerprints differ. -/
theorem update_publishes_iff {workers : List WorkerInfo} {i : Nat} {acts : List Act}
    (hcall : s.tasks[i]? = some (.update workers .load))
    (hrun : Guarded (step host) (OnlyUpdate i) s acts s')
    (hreturned : s'.tasks[i]? = some (.update workers .returned)) :
    s'.cells.workers.Perm workers ↔ s.cells.workers = [] ∨
        workersFingerprint host.xxh3 workers ≠ workersFingerprint host.xxh3 s.cells.workers ∨
        s.cells.workers.Perm workers := by
  rw [workers_of_returned hcall hrun hreturned]
  by_cases hsame : SameFingerprint host s.cells.workers workers
  · rw [if_pos hsame]
    exact ⟨fun h => Or.inr (Or.inr h), fun h => (h.resolve_left hsame.2).resolve_left
      fun hne => hne hsame.1⟩
  · rw [if_neg hsame]
    refine ⟨fun _ => ?_, fun _ => List.Perm.refl _⟩
    by_cases hempty : s.cells.workers = []
    · exact Or.inl hempty
    · exact Or.inr (Or.inl fun hfp => hsame ⟨hfp, hempty⟩)

def updating (workers : List WorkerInfo) : State :=
  ⟨⟨[there], buildHashRing [there], some none⟩, [.update workers .load]⟩

theorem update_publishes_here : ∃ s',
    Guarded (step smallHost) (OnlyUpdate 0) (updating [here]) [.run 0, .run 0, .run 0, .run 0] s' ∧
      s'.cells.workers.Perm [here] := by
  have hreplay : ∃ s', Guarded (step smallHost) (OnlyUpdate 0) (updating [here])
      [.run 0, .run 0, .run 0, .run 0] s' ∧ s'.tasks[0]? = some (.update [here] .returned) :=
    Guarded.exists_of_replay (by decide +kernel)
  obtain ⟨s', hrun, hreturned⟩ := hreplay
  have hdiffer : workersFingerprint smallHost.xxh3 [here] ≠
      workersFingerprint smallHost.xxh3 (updating [here]).cells.workers := by decide +kernel
  exact ⟨s', hrun, (update_publishes_iff rfl hrun hreturned).2 (Or.inr (Or.inl hdiffer))⟩

def readOnly : WorkerInfo := { there with forbidWrite := some true }

/-- The update returns and the router still offers the worker for writing. -/
theorem attributes_not_published : ∃ s',
    Guarded (step smallHost) (OnlyUpdate 0) (updating [readOnly]) [.run 0] s' ∧
      s'.tasks[0]? = some (.update [readOnly] .returned) ∧ ¬s'.cells.workers.Perm [readOnly] ∧
      filterNoSpaceWorkers ([readOnly].map (forWriter fun _ => true)) false 1 = [] ∧
      filterNoSpaceWorkers (s'.cells.workers.map (forWriter fun _ => true)) false 1 ≠ [] :=
  Guarded.exists_of_replay (by decide +kernel)

end State

end GooseFS.Router
