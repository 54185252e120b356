import Mathlib.Data.List.AList
import GooseFS.Lib.Slice
import GooseFS.Cache.PageId

/-!
# Local cache manager

`LocalCacheManager` as a transition system.  A state is the data of the manager
and a list of tasks, one for each call that was made; a task is a call with its
program counter.  `State.step` lets one task take its next atomic step: one
operation on a page lock, on a per-directory cache, on the file index, on the
version table or on the page store.  All other nondeterminism is in the action:
which task moves, whether its store operation succeeds, in which order a hash set
is walked, what the cache evicts and when.

Two things are merged into the step before them: the end of a call, which drops
the page lock, and the early drop of the read lock when a page has expired.  A
task that only has to drop a lock delays the others and does nothing else.

Not in the model: the size limits of the cache (any entry may be evicted at any
time), metrics, and the state field, which is always `ReadWrite`.
-/

namespace GooseFS

open Lib

/-! ## Data -/

/-- The identity of a file's contents: its length and modification time. -/
structure FileIdentity where
  length : Int
  mtime : Int
  deriving DecidableEq, Repr

/-- Bytes to be cached.  `origin` is the identity the file had when they were
fetched; no step of the manager looks at it. -/
structure Fill where
  bytes : Bytes
  origin : FileIdentity
  deriving DecidableEq, Repr

/-- `fill` is what the put that admitted the entry was called with; no step looks
at it. -/
structure PageInfo where
  createdAt : Nat
  fill : Fill
  deriving DecidableEq, Repr

structure ReapTask where
  pageId : PageId
  dirIndex : Nat
  deriving DecidableEq, Repr

/-- `<dir>/<page_size>/<bucket>/<file_id>`: the page files and the identity
sidecar. -/
structure FileDir where
  identity : Option FileIdentity
  pages : AList fun _ : Nat => Fill

/-- There is always a directory: an empty list of them means the default one.
The two hashes are xxHash3 of a file id and of a page id. -/
structure CacheManagerOptions where
  pageSize : Nat
  numDirs : Nat
  dirs_pos : 0 < numDirs
  ttl : Option Nat
  asyncWriteThreads : Nat
  hashFile : String → Nat
  hashPage : PageId → Nat

namespace CacheManagerOptions

variable (o : CacheManagerOptions)

/-- `HashAllocator::allocate`: all pages of a file are in one directory. -/
def allocate (f : String) : Nat := if o.numDirs ≤ 1 then 0 else o.hashFile f % o.numDirs

def lockSize : Nat := 1024

def pageLockIndex (p : PageId) : Nat := o.hashPage p % lockSize

theorem allocate_lt (f : String) : o.allocate f < o.numDirs := by
  unfold allocate
  split
  · exact o.dirs_pos
  · exact Nat.mod_lt _ o.dirs_pos

end CacheManagerOptions

def reapQueueCap : Nat := 1024

/-- `window f` is the identity that the last open of `f` returned with, until an
open of `f` with another identity starts.  It is bookkeeping for specifications:
no step looks at it. -/
structure LocalCacheManager where
  now : Nat
  caches : Nat → PageId → Option PageInfo
  byFile : String → List Nat
  versions : String → Option FileIdentity
  dirs : Nat → String → FileDir
  leaving : List ReapTask
  reapQueue : List ReapTask
  asyncWritePermits : Nat
  window : String → Option FileIdentity

namespace LocalCacheManager

variable (m : LocalCacheManager)

def contains (dir : Nat) (p : PageId) : Bool := (m.caches dir p).isSome

def Listed (p : PageId) : Prop := p.pageIndex ∈ m.byFile p.fileId

instance (p : PageId) : Decidable (m.Listed p) :=
  inferInstanceAs (Decidable (p.pageIndex ∈ m.byFile p.fileId))

def page (dir : Nat) (p : PageId) : Option Fill := (m.dirs dir p.fileId).pages.lookup p.pageIndex

def identity (dir : Nat) (f : String) : Option FileIdentity := (m.dirs dir f).identity

def setEntry (dir : Nat) (p : PageId) (e : Option PageInfo) : LocalCacheManager :=
  { m with caches := fun dir' p' => if dir' = dir ∧ p' = p then e else m.caches dir' p' }

def setDir (dir : Nat) (f : String) (fd : FileDir) : LocalCacheManager :=
  { m with dirs := fun dir' f' => if dir' = dir ∧ f' = f then fd else m.dirs dir' f' }

def setIndex (f : String) (set : List Nat) : LocalCacheManager :=
  { m with byFile := fun f' => if f' = f then set else m.byFile f' }

def setVersion (f : String) (id : FileIdentity) : LocalCacheManager :=
  { m with versions := fun f' => if f' = f then some id else m.versions f' }

def setWindow (f : String) (id : Option FileIdentity) : LocalCacheManager :=
  { m with window := fun f' => if f' = f then id else m.window f' }

def writePage (dir : Nat) (p : PageId) (fill : Fill) : LocalCacheManager :=
  m.setDir dir p.fileId { m.dirs dir p.fileId with
    pages := (m.dirs dir p.fileId).pages.insert p.pageIndex fill }

def deletePage (dir : Nat) (p : PageId) : LocalCacheManager :=
  m.setDir dir p.fileId { m.dirs dir p.fileId with
    pages := (m.dirs dir p.fileId).pages.erase p.pageIndex }

def writeIdentity (dir : Nat) (f : String) (id : FileIdentity) : LocalCacheManager :=
  m.setDir dir f { m.dirs dir f with identity := some id }

def deleteIdentity (dir : Nat) (f : String) : LocalCacheManager :=
  m.setDir dir f { m.dirs dir f with identity := none }

/-- A file without pages has no entry in the index, so the empty set stands for a
missing one. -/
def index (p : PageId) : LocalCacheManager :=
  m.setIndex p.fileId (if m.Listed p then m.byFile p.fileId
    else p.pageIndex :: m.byFile p.fileId)

/-- Remove a page from the index; the flag says that this emptied its file's
set. -/
def unindex (p : PageId) : LocalCacheManager × Bool :=
  if m.byFile p.fileId = [] then (m, false)
  else
    let set := (m.byFile p.fileId).filter (· ≠ p.pageIndex)
    (m.setIndex p.fileId set, set = [])

def expired (ttl : Option Nat) (info : PageInfo) : Bool :=
  match ttl with
  | none => false
  | some ttl => ttl < m.now - info.createdAt

end LocalCacheManager

/-! ## Program counters -/

inductive PutPc where
  | start
  | lock
  | lookup
  | store
  | insert
  | recheck
  | readIndex
  | readVersion
  | index (identity : Option FileIdentity)
  | identity (identity : FileIdentity)
  | done (result : Bool)
  deriving DecidableEq, Repr

/-- After a page was removed from its cache, under the page lock. -/
inductive RemovedPc where
  | index
  | store (fileEmpty : Bool)
  | identity
  | done
  deriving DecidableEq, Repr

inductive DeletePc where
  | lock
  | remove
  | removed (pc : RemovedPc)
  | missing
  deriving DecidableEq, Repr

inductive GetPc where
  | lock
  | lookup
  | read (info : PageInfo)
  | ret (bytes : Bytes) (source : Option Fill)
  | expireLock
  | expireLookup
  | expireRemove
  | expired (pc : RemovedPc)
  | done
  deriving DecidableEq, Repr

inductive InvalidatePc where
  | snapshot
  | deleting (pageIndex : Nat) (pc : DeletePc) (rest : List Nat)
  | done
  deriving DecidableEq, Repr

inductive OpenPc where
  | check
  | record
  | invalidate (pc : InvalidatePc)
  | setVersion
  | done
  deriving DecidableEq, Repr

inductive ReapPc where
  | index
  | lock (fileEmpty : Bool)
  | check (fileEmpty : Bool)
  | store (fileEmpty : Bool)
  | identity
  | done
  deriving DecidableEq, Repr

def RemovedPc.finished : RemovedPc → Bool
  | .done => true
  | _ => false

def DeletePc.finished : DeletePc → Bool
  | .removed pc => pc.finished
  | .missing => true
  | _ => false

def DeletePc.locked : DeletePc → Bool
  | .lock => false
  | pc => !pc.finished

/-! ## The operations -/

section Operations

variable (o : CacheManagerOptions) (ok : Bool)

def putStep (p : PageId) (fill : Fill) (m : LocalCacheManager) : PutPc → LocalCacheManager × PutPc
  | .start =>
    (m, if fill.bytes.length = 0 ∨ o.pageSize < fill.bytes.length then .done false else .lock)
  | .lock => (m, .lookup)
  | .lookup => (m, if m.contains (o.allocate p.fileId) p then .done false else .store)
  -- the bytes are durable before the metadata is published
  | .store =>
    if ok then (m.writePage (o.allocate p.fileId) p fill, .insert) else (m, .done false)
  | .insert => (m.setEntry (o.allocate p.fileId) p (some ⟨m.now, fill⟩), .recheck)
  | .recheck => (m, if m.contains (o.allocate p.fileId) p then .readIndex else .done false)
  -- the first page of a file persists its identity
  | .readIndex => (m, if m.byFile p.fileId = [] then .readVersion else .index none)
  | .readVersion => (m, .index (m.versions p.fileId))
  | .index none => (m.index p, .done true)
  | .index (some id) => (m.index p, .identity id)
  | .identity id =>
    (if ok then m.writeIdentity (o.allocate p.fileId) p.fileId id else m, .done true)
  | .done result => (m, .done result)

def removedStep (p : PageId) (m : LocalCacheManager) : RemovedPc → LocalCacheManager × RemovedPc
  | .index => ((m.unindex p).1, .store (m.unindex p).2)
  | .store fileEmpty =>
    (if ok then m.deletePage (o.allocate p.fileId) p else m, if fileEmpty then .identity else .done)
  | .identity => (if ok then m.deleteIdentity (o.allocate p.fileId) p.fileId else m, .done)
  | .done => (m, .done)

def deleteStep (p : PageId) (m : LocalCacheManager) : DeletePc → LocalCacheManager × DeletePc
  | .lock => (m, .remove)
  | .remove =>
    if m.contains (o.allocate p.fileId) p then
      (m.setEntry (o.allocate p.fileId) p none, .removed .index)
    else (m, .missing)
  | .removed pc => let out := removedStep o ok p m pc; (out.1, .removed out.2)
  | .missing => (m, .missing)

/-- `get_bytes` and, for an expired page, `get_expired_path`. -/
def getStep (p : PageId) (offset len : Nat) (m : LocalCacheManager) :
    GetPc → LocalCacheManager × GetPc
  | .lock => (m, .lookup)
  | .lookup =>
    match m.caches (o.allocate p.fileId) p with
    | none => (m, .ret [] none)
    | some info => (m, if m.expired o.ttl info then .expireLock else .read info)
  | .read _ =>
    match m.page (o.allocate p.fileId) p with
    | none => (m, .ret [] none)
    | some fill => (m, if ok then .ret (slice fill.bytes offset len) (some fill) else .ret [] none)
  | .ret _ _ => (m, .done)
  | .expireLock => (m, .expireLookup)
  | .expireLookup =>
    match m.caches (o.allocate p.fileId) p with
    | none => (m, .done)
    | some info => (m, if m.expired o.ttl info then .expireRemove else .done)
  | .expireRemove => (m.setEntry (o.allocate p.fileId) p none, .expired .index)
  | .expired pc => let out := removedStep o ok p m pc; (out.1, .expired out.2)
  | .done => (m, .done)

def InvalidatePc.next : List Nat → InvalidatePc
  | [] => .done
  | i :: rest => .deleting i .lock rest

/-- `order` is the order in which the file's set is walked. -/
def invalidateStep (f : String) (order : List Nat) (m : LocalCacheManager) :
    InvalidatePc → LocalCacheManager × InvalidatePc
  | .snapshot => (m, .next order)
  | .deleting i pc rest =>
    let out := deleteStep o ok ⟨f, i⟩ m pc
    (out.1, if out.2.finished then .next rest else .deleting i out.2 rest)
  | .done => (m, .done)

def onFileOpenStep (f : String) (id : FileIdentity) (order : List Nat) (m : LocalCacheManager) :
    OpenPc → LocalCacheManager × OpenPc
  | .check =>
    match m.versions f with
    | some id' => if id' = id then (m.setWindow f (some id), .done) else (m, .invalidate .snapshot)
    | none => (m, .record)
  | .record =>
    match m.versions f with
    | some id' => if id' = id then (m.setWindow f (some id), .done) else (m, .invalidate .snapshot)
    | none => ((m.setVersion f id).setWindow f (some id), .done)
  | .invalidate pc =>
    let out := invalidateStep o ok f order m pc
    (out.1, if out.2 = .done then .setVersion else .invalidate out.2)
  | .setVersion => ((m.setVersion f id).setWindow f (some id), .done)
  | .done => (m, .done)

def reapOneStep (task : ReapTask) (m : LocalCacheManager) : ReapPc → LocalCacheManager × ReapPc
  -- the index is updated outside the page lock
  | .index => ((m.unindex task.pageId).1, .lock (m.unindex task.pageId).2)
  | .lock fileEmpty => (m, .check fileEmpty)
  | .check fileEmpty =>
    (m, if m.contains task.dirIndex task.pageId then .done else .store fileEmpty)
  | .store fileEmpty =>
    (if ok then m.deletePage task.dirIndex task.pageId else m,
      if fileEmpty then .identity else .done)
  | .identity =>
    (if ok then m.deleteIdentity task.dirIndex task.pageId.fileId else m, .done)
  | .done => (m, .done)

end Operations

/-! ## Tasks -/

inductive Task where
  | put (p : PageId) (fill : Fill) (permit : Bool) (pc : PutPc)
  | get (p : PageId) (offset len : Nat) (pc : GetPc)
  | delete (p : PageId) (pc : DeletePc)
  | invalidate (f : String) (pc : InvalidatePc)
  | onFileOpen (f : String) (id : FileIdentity) (pc : OpenPc)
  | reap (task : ReapTask) (pc : ReapPc)
  deriving DecidableEq, Repr

namespace Task

variable (o : CacheManagerOptions)

def finished : Task → Bool
  | .put _ _ _ (.done _) => true
  | .get _ _ _ pc => pc = .done ∨ pc = .expired .done
  | .delete _ pc => pc.finished
  | .invalidate _ pc => pc = .done
  | .onFileOpen _ _ pc => pc = .done
  | .reap _ pc => pc = .done
  | _ => false

def file : Task → String
  | .put p _ _ _ => p.fileId
  | .get p _ _ _ => p.fileId
  | .delete p _ => p.fileId
  | .invalidate f _ => f
  | .onFileOpen f _ _ => f
  | .reap task _ => task.pageId.fileId

def invalidating (f : String) : InvalidatePc → Option PageId
  | .deleting i pc _ => if pc.locked then some ⟨f, i⟩ else none
  | _ => none

def writing : Task → Option PageId
  | .put p _ _ pc =>
    match pc with
    | .start => none
    | .lock => none
    | .done _ => none
    | _ => some p
  | .get p _ _ pc =>
    match pc with
    | .expireLookup => some p
    | .expireRemove => some p
    | .expired pc => if pc.finished then none else some p
    | _ => none
  | .delete p pc => if pc.locked then some p else none
  | .invalidate f pc => invalidating f pc
  | .onFileOpen f _ (.invalidate pc) => invalidating f pc
  | .onFileOpen _ _ _ => none
  | .reap task pc =>
    match pc with
    | .check _ => some task.pageId
    | .store _ => some task.pageId
    | _ => none

def reading : Task → Option PageId
  | .get p _ _ pc =>
    match pc with
    | .lookup => some p
    | .read _ => some p
    | .ret _ _ => some p
    | _ => none
  | _ => none

def invalidateAcquires (f : String) : InvalidatePc → Option PageId
  | .deleting i .lock _ => some ⟨f, i⟩
  | _ => none

/-- The page whose lock the next step of the task takes for writing. -/
def acquires : Task → Option PageId
  | .put p _ _ .lock => some p
  | .get p _ _ .expireLock => some p
  | .delete p .lock => some p
  | .invalidate f pc => invalidateAcquires f pc
  | .onFileOpen f _ (.invalidate pc) => invalidateAcquires f pc
  | .reap task (.lock _) => some task.pageId
  | _ => none

/-- The page whose lock the next step of the task takes for reading. -/
def acquiresRead : Task → Option PageId
  | .get p _ _ .lock => some p
  | _ => none

def snapshots : Task → Option String
  | .invalidate f .snapshot => some f
  | .onFileOpen f _ (.invalidate .snapshot) => some f
  | _ => none

def next (ok : Bool) (order : List Nat) (m : LocalCacheManager) : Task → LocalCacheManager × Task
  | .put p fill permit pc =>
    let out := putStep o ok p fill m pc
    (out.1, .put p fill permit out.2)
  | .get p offset len pc =>
    let out := getStep o ok p offset len m pc
    (out.1, .get p offset len out.2)
  | .delete p pc =>
    let out := deleteStep o ok p m pc
    (out.1, .delete p out.2)
  | .invalidate f pc =>
    let out := invalidateStep o ok f order m pc
    (out.1, .invalidate f out.2)
  | .onFileOpen f id pc =>
    let out := onFileOpenStep o ok f id order m pc
    (out.1, .onFileOpen f id out.2)
  | .reap task pc =>
    let out := reapOneStep ok task m pc
    (out.1, .reap task out.2)

def reaping : Task → Bool
  | .reap _ pc => pc ≠ .done
  | _ => false

def releases : Task → Nat
  | .put _ _ true (.done _) => 1
  | _ => 0

end Task

structure CacheState where
  mgr : LocalCacheManager
  tasks : List Task

inductive Act where
  | put (p : PageId) (fill : Fill)
  | scheduleFill (p : PageId) (fill : Fill)
  | getBytes (p : PageId) (offset len : Nat)
  | delete (p : PageId)
  | invalidate (f : String)
  | onFileOpen (f : String) (id : FileIdentity)
  | run (i : Nat) (ok : Bool) (order : List Nat)
  | evict (dir : Nat) (p : PageId)
  | leave (i : Nat)
  | reap
  | advance (dt : Nat)
  | restart
  deriving DecidableEq, Repr

namespace CacheState

variable (o : CacheManagerOptions)

/-- The page locks and the walk over a set allow the next step of `t`.  A lock is
held by the tasks whose program counter is inside its critical section. -/
def Enabled (s : CacheState) (t : Task) (order : List Nat) : Prop :=
  (∀ p ∈ t.acquires, ∀ t' ∈ s.tasks, t'.writing.map o.pageLockIndex ≠ some (o.pageLockIndex p) ∧
      t'.reading.map o.pageLockIndex ≠ some (o.pageLockIndex p)) ∧
  (∀ p ∈ t.acquiresRead, ∀ t' ∈ s.tasks,
    t'.writing.map o.pageLockIndex ≠ some (o.pageLockIndex p)) ∧
  ∀ f ∈ t.snapshots, order.Perm (s.mgr.byFile f)

instance (s : CacheState) (t : Task) (order : List Nat) : Decidable (s.Enabled o t order) :=
  inferInstanceAs (Decidable (_ ∧ _ ∧ _))

def spawn (s : CacheState) (t : Task) : CacheState := { s with tasks := s.tasks ++ [t] }

def advance (s : CacheState) (i : Nat) (m' : LocalCacheManager) (t' : Task) : CacheState :=
  ⟨{ m' with asyncWritePermits := m'.asyncWritePermits + t'.releases }, s.tasks.set i t'⟩

def evict (s : CacheState) (dir : Nat) (p : PageId) : CacheState :=
  { s with mgr := { s.mgr.setEntry dir p none with leaving := s.mgr.leaving ++ [⟨p, dir⟩] } }

/-- `on_leave`: a full queue drops the task. -/
def onLeave (s : CacheState) (i : Nat) (task : ReapTask) : CacheState :=
  { s with mgr := { s.mgr with
      leaving := s.mgr.leaving.eraseIdx i
      reapQueue := if s.mgr.reapQueue.length < reapQueueCap then s.mgr.reapQueue ++ [task]
        else s.mgr.reapQueue } }

def restorable (fill : Fill) : Bool := 0 < fill.bytes.length ∧ fill.bytes.length ≤ o.pageSize

def livePages (fd : FileDir) : AList fun _ : Nat => Fill :=
  ⟨fd.pages.entries.filter fun e => restorable o e.2, fd.pages.nodupKeys.sublist
    List.filter_sublist⟩

def restoreDir (fd : FileDir) : FileDir :=
  match fd.identity with
  | none => ⟨none, ∅⟩
  | some id => if (livePages o fd).entries = [] then ⟨none, ∅⟩ else ⟨some id, livePages o fd⟩

def restore (m : LocalCacheManager) : LocalCacheManager :=
  let dirs := fun dir f => if dir < o.numDirs then restoreDir o (m.dirs dir f) else m.dirs dir f
  let versions := fun f => (List.range o.numDirs).foldl
    (fun v dir => (dirs dir f).identity <|> v) none
  { now := m.now
    caches := fun dir p => if dir < o.numDirs then
      ((dirs dir p.fileId).pages.lookup p.pageIndex).map fun fill => ⟨m.now, fill⟩ else none
    byFile := fun f => ((List.range o.numDirs).flatMap fun dir => (dirs dir f).pages.keys).dedup
    versions := versions
    dirs := dirs
    leaving := []
    reapQueue := []
    asyncWritePermits := max o.asyncWriteThreads 1
    window := versions }

def fresh : CacheState :=
  ⟨{ now := 0, caches := fun _ _ => none, byFile := fun _ => [], versions := fun _ => none
     dirs := fun _ _ => ⟨none, ∅⟩, leaving := [], reapQueue := []
     asyncWritePermits := max o.asyncWriteThreads 1, window := fun _ => none }, []⟩

def step (s : CacheState) : Act → Option CacheState
  | .put p fill => some (s.spawn (.put p fill false .start))
  | .scheduleFill p fill =>
    if s.mgr.asyncWritePermits = 0 then some s
    else some { mgr := { s.mgr with asyncWritePermits := s.mgr.asyncWritePermits - 1 }
                tasks := s.tasks ++ [.put p fill true .start] }
  | .getBytes p offset len => some (s.spawn (.get p offset len (if len = 0 then .done else .lock)))
  | .delete p => some (s.spawn (.delete p .lock))
  | .invalidate f => some (s.spawn (.invalidate f .snapshot))
  | .onFileOpen f id =>
    some { mgr := if s.mgr.window f = some id then s.mgr else s.mgr.setWindow f none
           tasks := s.tasks ++ [.onFileOpen f id .check] }
  | .run i ok order =>
    match s.tasks[i]? with
    | none => none
    | some t =>
      if t.finished = false ∧ s.Enabled o t order then
        some (s.advance i (t.next o ok order s.mgr).1 (t.next o ok order s.mgr).2)
      else none
  | .evict dir p => if s.mgr.contains dir p then some (s.evict dir p) else none
  | .leave i =>
    match s.mgr.leaving[i]? with
    | none => none
    | some task => some (s.onLeave i task)
  -- the reaper handles one task at a time
  | .reap =>
    match s.mgr.reapQueue with
    | [] => none
    | task :: rest =>
      if ∀ t ∈ s.tasks, t.reaping = false then
        some { mgr := { s.mgr with reapQueue := rest }, tasks := s.tasks ++ [.reap task .index] }
      else none
  | .advance dt => some { s with mgr := { s.mgr with now := s.mgr.now + dt } }
  | .restart => some ⟨restore o s.mgr, []⟩

end CacheState

end GooseFS
