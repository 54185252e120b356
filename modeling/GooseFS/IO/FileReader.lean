import GooseFS.Block.Mapper
import GooseFS.IO.BlockReader
import GooseFS.Cache.CachingReader

/-!
# File reader

`GoosefsFileReader` answers whole-file and range reads.  It plans the range
into block segments, skips the segments whose block id does not resolve to a
positive number, and fetches the others one after the other, from a worker or
through the page cache.

Workers and cache are outside the program.  A `ReadWorld` fixes what they
answer: the outcome of every call that the `n`-th segment read can make, and
the reply to the `n`-th cache batch.  `IoState` counts both and records how each
segment read ended, so "no I/O error occurred" is a property of a run.
-/

namespace GooseFS

open Lib

/-- What a worker is asked for.  The two verbs differ in `positioned` only. -/
structure SegmentRequest where
  blockId : Int
  plan : BlockReadPlan
  positioned : Bool
  deriving DecidableEq, Repr

/-- The outcomes of the calls one `read_segment` can make: worker selection
(`none` is a worker without an address), connecting, the failover to a second
worker, and the streams before and after a reconnect. -/
structure SegmentRun where
  select : Except Error (Option String)
  acquire : Except Error Unit
  reconnect : Except Error Unit
  retrySelect : Except Error (Option String)
  retryAcquire : Except Error Unit
  stream : SegmentRequest → Except Error ReadStream
  rpcReconnect : Except Error Unit
  freshStream : SegmentRequest → Except Error ReadStream

def workerAddr : Option String → Except Error String
  | some addr => .ok addr
  | none => .error (.internal "worker has no address")

namespace SegmentRun

def connect (run : SegmentRun) : Except Error Unit := do
  let info ← run.select
  let _ ← workerAddr info
  match run.acquire with
  | .ok w => .ok w
  | .error e =>
    if e.isAuthenticationFailed then run.reconnect
    else
      match run.retrySelect with
      -- the error of the first connect is the one reported
      | .error _ => .error e
      | .ok retry => do
        let _ ← workerAddr retry
        run.retryAcquire

def tryReadBlock (opened : SegmentRequest → Except Error ReadStream) (req : SegmentRequest) :
    Except Error Bytes :=
  GrpcBlockReader.positionedRead (opened req) req.blockId req.plan.offsetInBlock req.plan.length

/-- `read_segment`: connect, read, and after an authentication failure of the
read itself reconnect and read once more. -/
def readSegment (run : SegmentRun) (req : SegmentRequest) : Except Error Bytes := do
  run.connect
  match tryReadBlock run.stream req with
  | .ok d => .ok d
  | .error e =>
    if e.isAuthenticationFailed then do
      run.rpcReconnect
      tryReadBlock run.freshStream req
    else .error e

end SegmentRun

structure ReadWorld where
  workers : Nat → SegmentRun
  cache : Nat → List PageReadRequest → List Bytes

structure IoState where
  /-- How each segment read so far ended. -/
  outcomes : List (Except Error Bytes)
  /-- The number of batches sent to the cache. -/
  batches : Nat
  /-- The pages handed to the cache. -/
  fills : Fills

namespace IoState

def start : IoState := { outcomes := [], batches := 0, fills := [] }

def Clean (io : IoState) : Prop := ∀ o ∈ io.outcomes, ∃ b, o = .ok b

end IoState

structure PageCache where
  fileId : String
  pageSize : Nat
  fillMode : FillMode
  deriving DecidableEq, Repr

structure GoosefsFileReader where
  fileInfo : FileInfo
  plans : List BlockReadPlan
  currentPlanIndex : Nat
  totalBytesRead : Nat
  offset : Nat
  length : Nat
  cache : Option PageCache
  deriving DecidableEq, Repr

/-- The id `file_block_infos` assigns to block `index`, when it is positive. -/
def FileInfo.assignedBlockId (fi : FileInfo) (index : Nat) : Option Int :=
  ((fi.fileBlockInfos[index]?.bind FileBlockInfo.blockInfo).bind BlockInfo.blockId).filter (0 < ·)

def FileInfo.resolveBlockId (fi : FileInfo) (plan : BlockReadPlan) : Int :=
  (fi.assignedBlockId plan.blockIndex).getD plan.blockId

def FileInfo.rejectDirectory (fi : FileInfo) (path : String) : Except Error Unit :=
  if fi.folder.getD false then .error (.openDirectory path) else .ok ()

namespace GoosefsFileReader

def build (fi : FileInfo) (offset length : Nat) (cache : Option PageCache) : GoosefsFileReader :=
  { fileInfo := fi, plans := BlockMapper.planRead fi offset length, currentPlanIndex := 0,
    totalBytesRead := 0, offset, length, cache }

/-- `open_inner`, from the file info the master returned.  `range = none` is the
whole file. -/
def openInner (fi : FileInfo) (path : String) (workersEmpty : Bool) (range : Option (Nat × Nat))
    (cache : Option PageCache) : Except Error GoosefsFileReader := do
  fi.rejectDirectory path
  if workersEmpty then .error (.noWorkerAvailable "no workers available for reading")
  else
    let (offset, length) := range.getD (0, fi.fileLength)
    .ok (build fi offset length cache)

section Read

variable (w : ReadWorld)

def zeroBytesForBlock (blockId : Int) : Error :=
  .internal s!"read_file_range: 0 bytes for block {blockId}"

def readSegment (req : SegmentRequest) (io : IoState) : Except Error Bytes × IoState :=
  let out := (w.workers io.outcomes.length).readSegment req
  (out, { io with outcomes := io.outcomes ++ [out] })

def readPlans (fi : FileInfo) (positioned : Bool) :
    List BlockReadPlan → Bytes → IoState → Except Error Bytes × IoState
  | [], buf, io => (.ok buf, io)
  | plan :: rest, buf, io =>
    let blockId := fi.resolveBlockId plan
    if blockId ≤ 0 then readPlans fi positioned rest buf io
    else
      match readSegment w ⟨blockId, plan, positioned⟩ io with
      | (.error e, io) => (.error e, io)
      | (.ok data, io) =>
        if data = [] then (.error (zeroBytesForBlock blockId), io)
        else readPlans fi positioned rest (buf ++ data) io

/-- The bytes of `[absOffset, absEnd)`.  The range is planned afresh, so the
reader's own position plays no part. -/
def readFileRange (fi : FileInfo) (positioned : Bool) (absOffset absEnd : Nat) (io : IoState) :
    Except Error Bytes × IoState :=
  if absEnd ≤ absOffset then (.ok [], io)
  else readPlans w fi positioned (BlockMapper.planRead fi absOffset (absEnd - absOffset)) [] io

def readRange (fi : FileInfo) : ExternalRangeReader IoState :=
  fun io absOffset absEnd => readFileRange w fi true absOffset absEnd io

/-- The `loop` that steps over segments whose block id is not positive. -/
def skipInvalid (r : GoosefsFileReader) : Nat → Nat → Nat × Option BlockReadPlan
  | 0, i => (i, none)
  | fuel + 1, i =>
    match r.plans[i]? with
    | none => (i, none)
    | some plan =>
      if r.fileInfo.resolveBlockId plan ≤ 0 then skipInvalid r fuel (i + 1) else (i, some plan)

/-- The bytes of one segment, through the cache when the reader has one. -/
def fetch (r : GoosefsFileReader) (plan : BlockReadPlan) (io : IoState) :
    Except Error Bytes × IoState :=
  let absOffset := plan.blockIndex * r.fileInfo.blockSize + plan.offsetInBlock
  let absEnd := absOffset + plan.length
  match r.cache with
  | none => readFileRange w r.fileInfo false absOffset absEnd io
  | some c =>
    let (res, io', fills) := readThroughCache (w.cache io.batches) (readRange w r.fileInfo)
      c.fileId c.pageSize r.fileInfo.fileLength absOffset absEnd c.fillMode io
    (res, { io' with batches := io'.batches + 1, fills := io'.fills ++ fills })

def readNextBlock (r : GoosefsFileReader) (io : IoState) :
    Except Error (Option Bytes) × GoosefsFileReader × IoState :=
  match skipInvalid r (r.plans.length + 1) r.currentPlanIndex with
  | (i, none) => (.ok none, { r with currentPlanIndex := i }, io)
  | (i, some plan) =>
    match fetch w r plan io with
    | (.error e, io) => (.error e, { r with currentPlanIndex := i }, io)
    | (.ok data, io) =>
      (.ok (some data), { r with
        totalBytesRead := r.totalBytesRead + data.length
        currentPlanIndex := i + 1 }, io)

/-- The `while let Some(chunk)` loop of `read_all`; a turn that returns a chunk
uses up a plan. -/
def readAllLoop : Nat → GoosefsFileReader → Bytes → IoState →
    Except Error Bytes × GoosefsFileReader × IoState
  | 0, r, buf, io => (.ok buf, r, io)
  | fuel + 1, r, buf, io =>
    match readNextBlock w r io with
    | (.error e, r, io) => (.error e, r, io)
    | (.ok none, r, io) => (.ok buf, r, io)
    | (.ok (some chunk), r, io) => readAllLoop fuel r (buf ++ chunk) io

def readAll (r : GoosefsFileReader) (io : IoState) :
    Except Error Bytes × GoosefsFileReader × IoState :=
  readAllLoop w (r.plans.length + 1) r [] io

/-- Open a reader and read it to the end, as `read_file_with_context` does for `range =
none` and `read_range_with_context` for a range. -/
def openAndReadAll (fi : FileInfo) (path : String) (workersEmpty : Bool)
    (range : Option (Nat × Nat)) (cache : Option PageCache) : Except Error Bytes × IoState :=
  match openInner fi path workersEmpty range cache with
  | .error e => (.error e, IoState.start)
  | .ok r =>
    let (res, _, io) := readAll w r IoState.start
    (res, io)

end Read

end GoosefsFileReader

end GooseFS
