import GooseFS.Lib.Decimal
import GooseFS.Lib.Program
import GooseFS.IO.Checksum
import GooseFS.IO.ReplicaWrite

/-!
# File writer

`GoosefsFileWriter` feeds a cache stream, cut into blocks, and a single stream
to the under store (UFS).  The state of the two sides is kept apart
(`CacheSide`, `UfsSide`), so that what a function of one side cannot touch is
visible in its type.  Both keep a log of what was done to their streams.

Everything outside the writer is an argument: a call of `write`, `flush`,
`close` or `cancel` comes with a `CallEnv` that says what its interactions
meet.  On the cache side a call can make any number of them, so their outcomes
are indexed by a counter (`ticks`) that starts at zero in every call.
-/

namespace GooseFS

open Lib

structure WriteStrategy where
  cacheStream : Bool
  ufsStream : Bool
  needAsyncPersist : Bool
  deriving DecidableEq, Repr

def resolveWriteStrategy : Option Int → WriteStrategy
  | some 3 => ⟨true, true, false⟩
  | some 4 => ⟨false, true, false⟩
  | some 5 => ⟨true, false, true⟩
  | _ => ⟨true, false, false⟩

def needsFreshBlock : Option Nat → Bool
  | none => true
  | some remaining => remaining = 0

def shouldFlushCacheBlockOnClose (commitLocation : Bool) : Bool := commitLocation

/-- The part of the configuration the writer reads.  A context validates its
configuration when it connects, so the chunk size is positive. -/
structure WriterConfig where
  blockSize : Nat
  chunkSize : Nat
  chunkSize_pos : 0 < chunkSize
  fileReplicationNumber : Int
  fileReplicationDurable : Int
  fileReplicationDurableMin : Int
  fileWriteMaxNodeRetry : Int
  fileAsyncPersistFlushEnabled : Bool
  ignoreBlockStreamUnknownStatus : Bool
  writerChecksumType : WriterChecksumType
  filePersistenceInitialWaitTimeMs : Int

/-- The file that `CreateFile` returned, and how it is written. -/
structure WriterSetup where
  config : WriterConfig
  fileId : Option Int64
  blockSizeBytes : Option Int64
  writeType : Option Int

namespace WriterSetup

variable (setup : WriterSetup)

def strategy : WriteStrategy := resolveWriteStrategy setup.writeType

def blockSize : Nat :=
  match setup.blockSizeBytes with
  | some b => b.toUInt64.toNat
  | none => setup.config.blockSize

def plan : Except Error ReplicaWritePlan :=
  replicaWritePlan setup.strategy.needAsyncPersist setup.config.fileReplicationNumber
    setup.config.fileReplicationDurable setup.config.fileReplicationDurableMin
    setup.config.fileWriteMaxNodeRetry

end WriterSetup

def computeBlockId (fileId : Int64) (blockIndex : Nat) : Int64 :=
  let containerId := (fileId >>> 24) &&& 0xffffffffff
  let seq := (UInt64.ofNat blockIndex &&& 0xffffff).toInt64
  (containerId <<< 24) ||| seq

def blockSequenceNumber (blockId : Int64) : Nat := (blockId.toUInt64 &&& 0xffffff).toNat

/-! ## The open block -/

structure CacheEnv where
  selectWorkers : Nat → Except Error (List WorkerInfo)
  allWorkers : Nat → List WorkerInfo
  openReplica : Nat → Option Error
  tasks : Nat → Nat → TaskRun
  closeReply : Nat → Nat → CloseReply
  commitLocation : Nat → Option Error

structure BlockIo where
  active : ActiveBlockWriter
  ticks : Nat
  events : List CacheEvent

abbrev BlockM := EStateM Error BlockIo

namespace BlockM

variable (env : CacheEnv)

def writeChunk (data : Bytes) : BlockM Unit := step fun s =>
  let out := s.active.writeChunk (env.tasks s.ticks) data
  (out.1, { active := { s.active with replicas := out.2.1 }, ticks := s.ticks + 1,
            events := s.events ++ out.2.2 })

def flushReplicas : BlockM Unit := step fun s =>
  let out := s.active.flushReplicas (env.tasks s.ticks)
  (out.1, { active := { s.active with replicas := out.2.1 }, ticks := s.ticks + 1,
            events := s.events ++ out.2.2 })

def setPending (pending : Bytes) : BlockM Unit :=
  modify fun s => { s with active := { s.active with pendingChunk := pending } }

def drainPending : BlockM Unit := do
  let pending := (← get).active.pendingChunk
  setPending []
  if pending ≠ [] then writeChunk env pending

/-- The full chunks of `src`, one by one; the result is what is left of it. -/
def emitFull (chunkSize : Nat) : Nat → Bytes → BlockM Bytes
  | 0, src => pure src
  | fuel + 1, src =>
    if chunkSize ≤ src.length then do
      writeChunk env (src.take chunkSize)
      emitFull chunkSize fuel (src.drop chunkSize)
    else pure src

def emitRest (chunkSize : Nat) (src : Bytes) : BlockM Unit := do
  let rest ← emitFull env chunkSize src.length src
  setPending ((← get).active.pendingChunk ++ rest)

end BlockM

/-- `take_completed_pending`: the full chunk if there is one, the pending bytes
left, and the incoming bytes left. -/
def takeCompletedPending (pending incoming : Bytes) (chunkSize : Nat) :
    Option Bytes × Bytes × Bytes :=
  if pending = [] then (none, [], incoming)
  else
    let need := chunkSize - pending.length
    if incoming.length < need then (none, pending ++ incoming, [])
    else (some (pending ++ incoming.take need), [], incoming.drop need)

def emitAlignedChunks (env : CacheEnv) (incoming : Bytes) (chunkSize : Nat) : BlockM Unit := do
  if chunkSize = 0 then throw (.invalidArgument "chunk_size must be > 0")
  else
    let (full, pending, src) :=
      takeCompletedPending (← get).active.pendingChunk incoming chunkSize
    BlockM.setPending pending
    match full with
    | some chunk => BlockM.writeChunk env chunk
    | none => pure ()
    BlockM.emitRest env chunkSize src

/-! ## The cache side -/

structure CacheSide where
  committedBlockIds : List Int64
  currentBlockWriter : Option ActiveBlockWriter
  blockOpened : Bool
  ticks : Nat
  events : List CacheEvent

abbrev CacheM := EStateM Error CacheSide

namespace CacheM

def log (events : List CacheEvent) : CacheM Unit :=
  modify fun s => { s with events := s.events ++ events }

def tick : CacheM Nat := modifyGet fun s => (s.ticks, { s with ticks := s.ticks + 1 })

/-- Run `m` on a block the caller holds, and give the block back. -/
def onBlock (active : ActiveBlockWriter) (m : BlockM Unit) :
    CacheM (Except Error Unit × ActiveBlockWriter) := fun s =>
  match m ⟨active, s.ticks, s.events⟩ with
  | .ok _ b => .ok (.ok (), b.active) { s with ticks := b.ticks, events := b.events }
  | .error e b => .ok (.error e, b.active) { s with ticks := b.ticks, events := b.events }

variable (setup : WriterSetup) (env : CacheEnv)

def tryOpenReplica (blockId : Int64) (worker : WorkerInfo) (ordinal : Nat) :
    CacheM (Except Error ReplicaWriter) := do
  match worker.address with
  | none => return .error (.internal "worker has no address")
  | some addr =>
    match env.openReplica (← tick) with
    | some e => return .error e
    | none => return .ok ⟨ordinal, GrpcBlockWriter.openStream blockId, worker.id.getD 0,
        rpcEndpoint addr, addr⟩

def markFailed (worker : WorkerInfo) : CacheM Unit :=
  match worker.address with
  | none => pure ()
  | some addr => log [.markFailed addr, .invalidate (rpcEndpoint addr)]

/-- The loop over the candidates: the writers opened and the last error. -/
def openReplicas (blockId : Int64) (initial : Nat) :
    List WorkerInfo → List ReplicaWriter → Option Error → CacheM (List ReplicaWriter × Option Error)
  | [], opened, err => pure (opened, err)
  | worker :: rest, opened, err => do
    if initial ≤ opened.length then pure (opened, err)
    else
      match ← tryOpenReplica env blockId worker opened.length with
      | .ok r => openReplicas blockId initial rest (opened ++ [r]) err
      | .error e =>
        markFailed worker
        openReplicas blockId initial rest opened (some e)

def noWorker (blockId : Int64) : Error :=
  .noWorkerAvailable s!"no available GooseFS worker for block_id={blockId}"

def routerPool (useAllWorkers : Bool) : CacheM (List WorkerInfo) := do
  let t ← tick
  if useAllWorkers then pure (env.allWorkers t)
  else
    match env.selectWorkers t with
    | .ok pool => pure pool
    | .error e => throw e

def candidates (blockId : Int64) (plan : ReplicaWritePlan) (useAllWorkers : Bool) :
    CacheM (List WorkerInfo) := do
  let pool ← routerPool env useAllWorkers
  if setup.strategy.needAsyncPersist then
    pure (filterNoSpaceWorkers pool (0 < blockSequenceNumber blockId) plan.minNeededReplicas)
  else pure pool

def openReplicaWriters (blockId : Int64) (plan : ReplicaWritePlan) (useAllWorkers : Bool) :
    CacheM ActiveBlockWriter := do
  let pool ← candidates setup env blockId plan useAllWorkers
  if pool = [] then
    log [.clearFailed]
    throw (noWorker blockId)
  else
    let (initial, minNeeded) := degradeReplicas setup.strategy.needAsyncPersist
      plan.initialReplicas plan.minNeededReplicas pool.length
    let (opened, err) ← openReplicas env blockId initial pool [] none
    if opened.length = 0 ∨ opened.length < minNeeded then
      log (opened.map fun r => .cancelled r.writer)
      if opened.length = 0 then throw (err.getD (noWorker blockId))
      else
        let count := opened.length
        throw (.resourceExhausted
          s!"Not enough workers for replications of block {blockId}, {count} workers selected but {minNeeded} required")
    else
      log [.opened blockId pool.length]
      pure ⟨opened, blockId, setup.blockSize, 0, [],
        setup.strategy.needAsyncPersist ∧ 1 < opened.length, minNeeded⟩

/-- `commitLocation` of a closed block, for ASYNC_THROUGH in the middle of a
file. -/
def reportLocation (loc : Option FileLocation) (commitLocation : Bool) : CacheM Unit :=
  match if commitLocation ∧ setup.strategy.needAsyncPersist then loc else none with
  | none => pure ()
  | some loc => do
    let err := env.commitLocation (← tick)
    log [.commitLocation loc err]
    match err with
    | some e => throw e
    | none => pure ()

def recordBlock (blockId : Int64) : CacheM Unit :=
  modify fun s => { s with committedBlockIds := s.committedBlockIds ++ [blockId] }

/-- The last part of `close_current_block`: close the streams, report the
location and record the block. -/
def commitBlock (active : ActiveBlockWriter) (blockOffset : Nat) (commitLocation : Bool) :
    CacheM (Option FileLocation) := do
  let loc := active.fileLocation blockOffset
  let (closed, events) := active.closeReplicas (env.closeReply (← tick))
  log events
  match closed with
  | .error e =>
    recordBlock active.blockId
    throw e
  | .ok () =>
    reportLocation setup env loc commitLocation
    recordBlock active.blockId
    pure loc

def closeCurrentBlock (commitLocation : Bool) : CacheM (Option FileLocation) := do
  let s ← get
  match s.currentBlockWriter with
  | none => pure none
  | some active =>
    set { s with currentBlockWriter := none }
    if 0 < active.bytesWritten then
      let (res, active) ← onBlock active do
        BlockM.drainPending env
        if shouldFlushCacheBlockOnClose commitLocation then BlockM.flushReplicas env
      match res with
      | .error e =>
        log active.cancelReplicas
        throw e
      | .ok () =>
        commitBlock setup env active (s.committedBlockIds.length * active.blockSize) commitLocation
    else
      log active.cancelReplicas
      pure none

def closeFullBlock : CacheM Unit := do
  if (← get).currentBlockWriter.isSome then
    discard (closeCurrentBlock setup env true)

/-- The hash-picked workers first, and all workers if that fails. -/
def openBlock (blockId : Int64) (plan : ReplicaWritePlan) : CacheM ActiveBlockWriter := do
  match ← attempt (openReplicaWriters setup env blockId plan false) with
  | .ok active => pure active
  | .error _ => openReplicaWriters setup env blockId plan true

def openNextBlock : CacheM Unit := do
  closeFullBlock setup env
  let blockId := computeBlockId (setup.fileId.getD 0) (← get).committedBlockIds.length
  match setup.plan with
  | .error e => throw e
  | .ok plan =>
    let active ← openBlock setup env blockId plan
    modify fun s => { s with currentBlockWriter := some active, blockOpened := true }

def ensureBlock : CacheM Unit := do
  if needsFreshBlock ((← get).currentBlockWriter.map ActiveBlockWriter.remaining) then
    openNextBlock setup env

/-- The loop of `write_to_cache_stream`.  With a positive block size every turn
places a byte, so the length of the data is enough fuel. -/
def writeLoop : Nat → Bytes → CacheM Unit
  | 0, _ => pure ()
  | fuel + 1, data => do
    if data = [] then pure ()
    else
      ensureBlock setup env
      match (← get).currentBlockWriter with
      | none => throw (.internal "no block is open")
      | some active =>
        let toAccept := min active.remaining data.length
        let (res, active) ← onBlock { active with bytesWritten := active.bytesWritten + toAccept }
          (emitAlignedChunks env (data.take toAccept) setup.config.chunkSize)
        modify fun s => { s with currentBlockWriter := some active }
        match res with
        | .error e => throw e
        | .ok () => writeLoop fuel (data.drop toAccept)

def writeToCacheStream (data : Bytes) : CacheM Unit := writeLoop setup env data.length data

def flushBlock : CacheM Unit := do
  match (← get).currentBlockWriter with
  | none => pure ()
  | some active =>
    if 0 < active.bytesWritten then
      let (res, active) ← onBlock active do
        BlockM.drainPending env
        BlockM.flushReplicas env
      modify fun s => { s with currentBlockWriter := some active }
      match res with
      | .error e => throw e
      | .ok () => pure ()
    else pure ()

def tearDownCacheBlock (blacklist : Bool) : CacheM Unit := do
  match (← get).currentBlockWriter with
  | none => pure ()
  | some active =>
    modify fun s => { s with currentBlockWriter := none }
    log (if blacklist then active.replicas.flatMap fun r =>
      [.markFailed r.netAddress, .invalidate r.workerAddr] else [])
    log active.cancelReplicas

end CacheM

/-! ## The UFS side -/

inductive UfsEvent where
  | closed (s : GrpcBlockWriter)
  | closeFailed (s : GrpcBlockWriter)
  | cancelled (s : GrpcBlockWriter)
  | markFailed (addr : WorkerNetAddress)
  | invalidate (workerAddr : String)
  deriving DecidableEq, Repr

def UfsEvent.closed? : UfsEvent → Option GrpcBlockWriter
  | .closed s => some s
  | _ => none

/-- What the calls of the UFS side meet; `acquire` is given the endpoint of the
worker, and `send k` is the `k`-th chunk of the call. -/
structure UfsEnv where
  pickWorker : Except Error WorkerInfo
  acquire : String → Option Error
  openStream : Option Error
  send : Nat → Bool
  flush : FlushReply
  close : CloseReply

structure UfsSide where
  stream : Option GrpcBlockWriter
  workerAddr : Option String
  events : List UfsEvent

abbrev UfsM := EStateM Error UfsSide

namespace UfsM

variable (setup : WriterSetup) (env : UfsEnv)

def log (events : List UfsEvent) : UfsM Unit :=
  modify fun s => { s with events := s.events ++ events }

def openUfsStream : UfsM Unit := do
  match env.pickWorker with
  | .error e => throw e
  | .ok worker =>
    match worker.address with
    | none => throw (.internal "ufs-stream worker has no address")
    | some addr =>
      match env.acquire (rpcEndpoint addr) <|> env.openStream with
      | some e =>
        log [.markFailed addr, .invalidate (rpcEndpoint addr)]
        throw e
      | none => modify fun s => { s with
          stream := some (GrpcBlockWriter.openStream (-1))
          workerAddr := some (rpcEndpoint addr) }

/-- The address that `handle_ufs_write_exception` rebuilds from the endpoint. -/
def failedAddress (workerAddr : String) : WorkerNetAddress :=
  let parts := (workerAddr.toList.splitOn ':').map String.ofList
  { host := some (parts.headD "unknown"), rpcPort := parts[1]?.bind Lib.parseInt32 }

def handleUfsWriteException (err : Error) : UfsM Unit := do
  let s ← get
  set { s with stream := none, workerAddr := none }
  log (s.stream.toList.map .cancelled)
  log (s.workerAddr.toList.flatMap fun addr => [.markFailed (failedAddress addr), .invalidate addr])
  throw err

def ensureStream : UfsM Unit := do
  if (← get).stream.isNone then openUfsStream env

def writeToUfsStream (data : Bytes) : UfsM Unit := do
  ensureStream env
  match (← get).stream with
  | none => throw (.internal "ufs_stream just opened above")
  | some ufs =>
    let (res, ufs) := ufs.writeAll env.send data setup.config.chunkSize
    modify fun s => { s with stream := some ufs }
    match res with
    | .ok () => pure ()
    | .error e => handleUfsWriteException e

def flush : UfsM Unit := do
  match (← get).stream with
  | none => pure ()
  | some ufs =>
    let (res, ufs) := ufs.flush env.flush
    modify fun s => { s with stream := some ufs }
    match res with
    | .ok _ => pure ()
    | .error e => throw e

/-- The UFS part of `close`: whether a stream was closed. -/
def close : UfsM Bool := do
  let s ← get
  match s.stream with
  | none => pure false
  | some ufs =>
    set { s with stream := none }
    let (res, ufs) := ufs.flush env.flush
    match res with
    | .error e =>
      log [.cancelled ufs]
      throw e
    | .ok _ =>
      match ufs.close env.close with
      | .error e =>
        log [.closeFailed ufs]
        throw e
      | .ok () =>
        log [.closed ufs]
        modify fun s => { s with workerAddr := none }
        pure true

def cancel : UfsM Unit := do
  let s ← get
  set { s with stream := none, workerAddr := none }
  log (s.stream.toList.map .cancelled)

end UfsM

/-! ## The writer -/

structure CompleteFileOptions where
  ufsLength : Option Nat
  locations : List FileLocation
  asyncPersistWaitTime : Option Int
  forcePersisted : Option Bool
  inodeId : Option Int64
  crcType : Option Int
  crcValue : Option Nat
  deriving DecidableEq, Repr

inductive MasterEvent where
  | completeFile (options : CompleteFileOptions) (err : Option Error)
  | removeBlocks (blockIds : List Int64) (err : Option Error)
  | delete (goosefsOnly : Bool) (err : Option Error)
  | reload (err : Option Error)
  deriving DecidableEq, Repr

def MasterEvent.completed? : MasterEvent → Option CompleteFileOptions
  | .completeFile options _ => some options
  | _ => none

structure MasterEnv where
  completeFile : Option Error
  recoverDelete : Option Error
  reload : Option Error
  removeBlocks : Option Error
  cancelDelete : Option Error

structure CallEnv where
  router : Option Error
  cache : CacheEnv
  ufs : UfsEnv
  master : MasterEnv

structure GoosefsFileWriter where
  totalBytesWritten : Nat
  checksum : UInt32
  cancelled : Bool
  closed : Bool
  shouldCache : Bool
  ufsWriteEnabled : Bool
  routerNeedsInit : Bool
  ufsStreamCompleted : Bool
  cache : CacheSide
  ufs : UfsSide
  master : List MasterEvent

abbrev WriterM := EStateM Error GoosefsFileWriter

def cacheWriteFailureIsFatal (err : Error) (strategy : WriteStrategy) (blockOpened : Bool)
    (ignoreUnknownFirstBlockStatus : Bool) : Bool :=
  match err with
  | .resourceExhausted _ => true
  | .invalidArgument _ => true
  | _ =>
    if !strategy.ufsStream && !strategy.needAsyncPersist then true
    else if strategy.needAsyncPersist && blockOpened then true
    else match err with
      | .authenticationFailed _ => true
      | .permissionDenied _ => true
      | _ => !blockOpened && !ignoreUnknownFirstBlockStatus

def noAutoPersist : Int := -1

def resolvePersistOptions (needAsyncPersist ufsStreamCompleted : Bool) (waitTimeMs : Int) :
    Option Bool × Option Int :=
  if !needAsyncPersist then (none, none)
  else if ufsStreamCompleted then (some true, none)
  else if waitTimeMs = noAutoPersist then (none, none)
  else (none, some waitTimeMs)

def completeFileLocations (asyncThrough : Bool) (last : Option FileLocation) : List FileLocation :=
  if asyncThrough then last.toList else []

def completeFileCrc (ty : WriterChecksumType) (crc : UInt32) : Option Int × Option Nat :=
  (some ty.asI32, some crc.toNat)

namespace GoosefsFileWriter

def onCache {α : Type} (m : CacheM α) : WriterM α :=
  zoom (fun w => w.cache) (fun c w => { w with cache := c }) m

def onUfs {α : Type} (m : UfsM α) : WriterM α :=
  zoom (fun w => w.ufs) (fun u w => { w with ufs := u }) m

def callMaster (event : MasterEvent) : WriterM Unit :=
  modify fun w => { w with master := w.master ++ [event] }

def isCompleted (w : GoosefsFileWriter) : Bool := w.closed && !w.cancelled

variable (setup : WriterSetup) (env : CallEnv)

def ensureRouterInit : WriterM Unit := do
  if (← get).routerNeedsInit then
    match env.router with
    | some e => throw e
    | none => modify fun w => { w with routerNeedsInit := false }

/-- The writer that `create_with_context` builds after `CreateFile`. -/
def fresh : GoosefsFileWriter :=
  { totalBytesWritten := 0, checksum := 0, cancelled := false, closed := false,
    shouldCache := setup.strategy.cacheStream, ufsWriteEnabled := setup.strategy.ufsStream,
    routerNeedsInit := true, ufsStreamCompleted := false,
    cache := ⟨[], none, false, 0, []⟩, ufs := ⟨none, none, []⟩, master := [] }

/-- The eager part of `create_with_context`: the UFS stream, if the strategy has
one. -/
def openStreams : WriterM Unit :=
  if setup.strategy.ufsStream then do
    ensureRouterInit env
    onUfs (UfsM.openUfsStream env.ufs)
  else pure ()

def create : Except Error GoosefsFileWriter :=
  match openStreams setup env (fresh setup) with
  | .ok _ w => .ok w
  | .error e _ => .error e

def credentialsRejected : Error → Bool
  | .authenticationFailed _ => true
  | .permissionDenied _ => true
  | _ => false

def handleCacheWriteException (err : Error) : WriterM Unit := do
  let fatal := cacheWriteFailureIsFatal err setup.strategy (← get).cache.blockOpened
    setup.config.ignoreBlockStreamUnknownStatus
  onCache (CacheM.tearDownCacheBlock (!credentialsRejected err))
  if fatal then
    modify fun w => { w with cancelled := true }
    throw err
  else modify fun w => { w with shouldCache := false, ufsWriteEnabled := true }

def begin : WriterM Unit := modify fun w => { w with cache := { w.cache with ticks := 0 } }

def account (data : Bytes) : WriterM Unit := modify fun w => { w with
  totalBytesWritten := w.totalBytesWritten + data.length
  checksum := setup.config.writerChecksumType.update w.checksum data }

def writeToCache (data : Bytes) : WriterM Unit := do
  if (← get).shouldCache then
    match ← attempt (onCache (CacheM.writeToCacheStream setup env.cache data)) with
    | .ok () => pure ()
    | .error e => handleCacheWriteException setup e

def writeToUfs (data : Bytes) : WriterM Unit := do
  if (← get).ufsWriteEnabled then onUfs (UfsM.writeToUfsStream setup env.ufs data)

def write (data : Bytes) : WriterM Unit := do
  begin
  let w ← get
  if w.cancelled ∨ w.closed then
    throw (.blockIoError "cannot write to a completed or cancelled file")
  else if data = [] then pure ()
  else
    ensureRouterInit env
    writeToCache setup env data
    writeToUfs setup env data
    account setup data

def flush : WriterM Unit := do
  begin
  let w ← get
  if w.cancelled ∨ w.closed then
    throw (.blockIoError "cannot flush a completed or cancelled file")
  else
    onUfs (UfsM.flush env.ufs)
    if setup.strategy.needAsyncPersist ∧ setup.config.fileAsyncPersistFlushEnabled then
      onCache (CacheM.flushBlock env.cache)

def doCancelCleanup : WriterM Unit := do
  onUfs UfsM.cancel
  onCache (CacheM.tearDownCacheBlock false)
  let ids := (← get).cache.committedBlockIds
  if ids ≠ [] then
    callMaster (.removeBlocks ids env.master.removeBlocks)
    if env.master.removeBlocks.isSome then callMaster (.delete false env.master.cancelDelete)

def cancel : WriterM Unit := do
  begin
  let w ← get
  if w.closed ∨ w.cancelled then pure ()
  else
    modify fun w => { w with cancelled := true }
    doCancelCleanup env

def handleCompleteFileError (err : Error) : WriterM Unit := do
  let persistable := setup.strategy.ufsStream || setup.strategy.needAsyncPersist
  if !persistable || !(← get).ufsStreamCompleted then throw err
  else
    callMaster (.delete true env.master.recoverDelete)
    if env.master.recoverDelete.isSome then throw err
    else
      callMaster (.reload env.master.reload)
      if env.master.reload.isSome then throw err

def completeFileOptions (w : GoosefsFileWriter) (last : Option FileLocation) :
    CompleteFileOptions :=
  let persist := resolvePersistOptions setup.strategy.needAsyncPersist w.ufsStreamCompleted
    setup.config.filePersistenceInitialWaitTimeMs
  let crc := completeFileCrc setup.config.writerChecksumType w.checksum
  { ufsLength := some w.totalBytesWritten
    locations := completeFileLocations setup.strategy.needAsyncPersist last
    forcePersisted := persist.1, asyncPersistWaitTime := persist.2
    inodeId := setup.fileId, crcType := crc.1, crcValue := crc.2 }

def completeFile (last : Option FileLocation) : WriterM Unit := do
  callMaster (.completeFile (completeFileOptions setup (← get) last) env.master.completeFile)
  match env.master.completeFile with
  | none => pure ()
  | some e => handleCompleteFileError setup env e

def orCleanup {α : Type} (m : WriterM α) : WriterM α := do
  match ← attempt m with
  | .ok a => pure a
  | .error e =>
    doCancelCleanup env
    throw e

def closeUfs : WriterM Unit := do
  let completed ← orCleanup env (onUfs (UfsM.close env.ufs))
  modify fun w => { w with ufsStreamCompleted := w.ufsStreamCompleted || completed }

def close : WriterM Unit := do
  begin
  let w ← get
  if w.closed then pure ()
  else
    set { w with closed := true }
    if w.cancelled then pure ()
    else
      closeUfs env
      let last ← orCleanup env (onCache (CacheM.closeCurrentBlock setup env.cache false))
      completeFile setup env last

end GoosefsFileWriter

end GooseFS
