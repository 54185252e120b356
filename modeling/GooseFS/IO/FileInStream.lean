import GooseFS.Block.FileInfo
import GooseFS.IO.BlockReader
import GooseFS.Cache.CachingReader
import GooseFS.IO.FileReader

/-!
# File input stream

`GoosefsFileInStream` is the seekable reader.  It keeps an internal position,
the bytes it has pulled but not yet handed out (`carryOver`), and at most one
open block stream; the position a caller sees is `userPos`.  Random reads
(`readAt`) open their own streams and go through the page cache when there is
one.

As in the file reader, everything outside the program is a value: the `n`-th
interaction with a worker meets `StreamWorld.runs n`, the `n`-th cache batch is
answered by `StreamWorld.cache n`.  Positions are natural numbers; `seek` takes
the signed argument of the source and clamps it.
-/

namespace GooseFS

open Lib

/-- The part of `URIStatus` a stream reads.  `blockInfos` are the values of the
block-info map in its iteration order. -/
structure URIStatus where
  length : Nat
  blockSizeBytes : Nat
  blockIds : List Int
  blockInfos : List FileBlockInfo
  deriving DecidableEq, Repr

structure StreamRequest where
  blockId : Int
  offsetInBlock : Nat
  length : Nat
  deriving DecidableEq, Repr

/-- An opened sequential stream, with the items its drain task will forward. -/
structure SequentialStream where
  tx : List TrySend
  items : List StreamItem

/-- The outcomes of the calls one worker interaction can make. -/
structure StreamRun where
  select : Except Error (Option String)
  acquire : Except Error Unit
  reconnect : Except Error Unit
  retrySelect : Except Error (Option String)
  retryAcquire : Except Error Unit
  sequential : StreamRequest → Except Error SequentialStream
  positioned : StreamRequest → Except Error ReadStream
  blockSelect : Except Error (Option String)
  blockReconnect : Except Error Unit
  freshSequential : StreamRequest → Except Error SequentialStream
  freshPositioned : StreamRequest → Except Error ReadStream

structure StreamWorld where
  runs : Nat → StreamRun
  cache : Nat → List PageReadRequest → List Bytes

/-- How far the world has been used, and the pages handed to the cache. -/
structure StreamIo where
  calls : Nat
  batches : Nat
  fills : Fills

namespace StreamRun

def connectWorker (run : StreamRun) : Except Error Unit := do
  let info ← run.select
  let _ ← workerAddr info
  match run.acquire with
  | .ok w => .ok w
  | .error e =>
    if e.isAuthenticationFailed then run.reconnect
    else do
      match ← run.retrySelect with
      | none => .error (.internal "retry worker has no address")
      | some _ => run.retryAcquire

def reconnectWorkerForBlock (run : StreamRun) : Except Error Unit := do
  let info ← run.blockSelect
  let _ ← workerAddr info
  run.blockReconnect

/-- Open a stream, and once more after an authentication failure. -/
def withReconnect {α : Type} (run : StreamRun) (first fresh : Except Error α) : Except Error α :=
  match first with
  | .ok a => .ok a
  | .error e =>
    if e.isAuthenticationFailed then do
      run.reconnectWorkerForBlock
      fresh
    else .error e

def openSequential (run : StreamRun) (tuning : ReadTuning) (req : StreamRequest) :
    Except Error GrpcBlockReader := do
  run.connectWorker
  let s ← run.withReconnect (run.sequential req) (run.freshSequential req)
  return GrpcBlockReader.openSequential req.blockId req.offsetInBlock req.length tuning s.tx s.items

def positionedReadWithRetry (run : StreamRun) (req : StreamRequest) : Except Error Bytes := do
  run.connectWorker
  let read := fun opened =>
    GrpcBlockReader.positionedRead opened req.blockId req.offsetInBlock req.length
  run.withReconnect (read (run.positioned req)) (read (run.freshPositioned req))

end StreamRun

structure GoosefsFileInStream where
  status : URIStatus
  fileLength : Nat
  pos : Nat
  carryOver : Bytes
  blockInStream : Option GrpcBlockReader
  blockInStreamBlockId : Int
  cache : Option PageCache
  cacheSequentialRead : Bool
  tuning : ReadTuning
  chunkSize : Nat

def transferPositionedReadThreshold : Nat := 8 * 1024

namespace GoosefsFileInStream

def openStream (status : URIStatus) (cache : Option PageCache) (cacheSequentialRead : Bool)
    (tuning : ReadTuning) (chunkSize : Nat) : GoosefsFileInStream :=
  { status, fileLength := status.length, pos := 0, carryOver := [], blockInStream := none,
    blockInStreamBlockId := -1, cache, cacheSequentialRead, tuning, chunkSize }

variable (st : GoosefsFileInStream)

/-- `pos()`: the position a caller sees. -/
def userPos : Nat := st.pos - st.carryOver.length

theorem userPos_of_nil {st : GoosefsFileInStream} (hnil : st.carryOver = []) :
    st.userPos = st.pos := by
  rw [userPos, hnil]
  rfl

def remaining : Nat := (st.fileLength - st.pos) + st.carryOver.length

def blockIndexForPos (offset : Nat) : Nat :=
  if st.status.blockSizeBytes = 0 then 0 else offset / st.status.blockSizeBytes

def blockStart (idx : Nat) : Nat := idx * st.status.blockSizeBytes

def offsetInBlock (offset : Nat) : Nat :=
  if st.status.blockSizeBytes = 0 then offset else offset % st.status.blockSizeBytes

def remainingInBlock (offset : Nat) : Nat :=
  let blockEnd := st.blockStart (st.blockIndexForPos offset) + st.status.blockSizeBytes
  min blockEnd st.fileLength - offset

/-- The id `block_ids` lists, if positive, and else that of the block info whose
offset is the start of the block. -/
def blockIdAt (blockIdx : Nat) : Except Error Int :=
  match st.status.blockIds[blockIdx]?.filter (0 < ·) with
  | some id => .ok id
  | none =>
    let id := ((st.status.blockInfos.find? fun fbi =>
      fbi.offset = some (st.blockStart blockIdx : Int)).bind
        (fun fbi => fbi.blockInfo.bind BlockInfo.blockId)).getD (-1)
    if 0 < id then .ok id
    else .error (.internal s!"no valid block_id at index {blockIdx}")

/-- The range `[offset, offset + length)` as a request to the worker of its
block. -/
def request (blockId : Int) (offset length : Nat) : StreamRequest :=
  { blockId, offsetInBlock := st.offsetInBlock offset, length }

def dropStream : GoosefsFileInStream :=
  { st with blockInStream := none, blockInStreamBlockId := -1 }

/-- The loop of `skip_bytes`: what is left of the last chunk goes to the
carry-over buffer. -/
def skipLoop : Nat → GrpcBlockReader → Nat → Except Error Bytes × GrpcBlockReader
  | 0, r, _ => (.ok [], r)
  | fuel + 1, r, skip =>
    if skip = 0 then (.ok [], r)
    else
      match r.readChunk with
      | (.error e, r) => (.error e, r)
      | (.ok none, r) => (.ok [], r)
      | (.ok (some data), r) =>
        if skip < data.length then (.ok (data.drop skip), r)
        else skipLoop fuel r (skip - data.length)

def seek (target : Int) : Except Error Nat × GoosefsFileInStream :=
  let target := (max 0 (min target st.fileLength)).toNat
  if target = st.userPos then (.ok st.userPos, st)
  else
    let st := { st with carryOver := [] }
    let seekDist := (target - st.pos) + (st.pos - target)
    let sameBlock := st.blockIndexForPos target = st.blockIndexForPos st.pos
    if seekDist < transferPositionedReadThreshold ∧ sameBlock then
      match st.blockInStream with
      | none => (.ok target, { st with pos := target })
      | some r =>
        if st.pos < target then
          match skipLoop (r.source.size + 1) r (target - st.pos) with
          | (.error e, r) => (.error e, { st with blockInStream := some r })
          | (.ok carry, r) => (.ok target, { st with
              blockInStream := some r
              carryOver := carry
              pos := target + carry.length })
        else (.ok target, { st.dropStream with pos := target })
    else (.ok target, { st.dropStream with pos := target })

def zeroBytesPositioned (req : StreamRequest) : Error :=
  .internal s!"read_at: positioned_read returned 0 bytes for block {req.blockId} offset_in_block {req.offsetInBlock} length {req.length}"

def zeroBytesPositionedAt (req : StreamRequest) (cur endOff : Nat) : Error :=
  .internal s!"read_at: positioned_read returned 0 bytes for block {req.blockId} offset_in_block {req.offsetInBlock} length {req.length} (cur={cur}, end={endOff})"

variable (w : StreamWorld)

def positionedRead (blockId : Int) (offset length : Nat) (io : StreamIo) :
    Except Error Bytes × StreamIo :=
  ((w.runs io.calls).positionedReadWithRetry (st.request blockId offset length),
    { io with calls := io.calls + 1 })

def readBlocks (endOff : Nat) : Nat → Nat → Bytes → StreamIo → Except Error Bytes × StreamIo
  | 0, _, result, io => (.ok result, io)
  | fuel + 1, cur, result, io =>
    if cur < endOff then
      match st.blockIdAt (st.blockIndexForPos cur) with
      | .error e => (.error e, io)
      | .ok blockId =>
        let blockEnd := st.blockStart (st.blockIndexForPos cur) + st.status.blockSizeBytes
        let length := min endOff blockEnd - cur
        match st.positionedRead w blockId cur length io with
        | (.error e, io) => (.error e, io)
        | (.ok data, io) =>
          if data.length = 0 then
            (.error (zeroBytesPositionedAt (st.request blockId cur length) cur endOff), io)
          else readBlocks endOff fuel (cur + data.length) (result ++ data) io
    else (.ok result, io)

def readExternalRange (offset endOff : Nat) (io : StreamIo) : Except Error Bytes × StreamIo :=
  let firstBlockEnd := st.blockStart (st.blockIndexForPos offset) + st.status.blockSizeBytes
  if endOff ≤ firstBlockEnd then
    match st.blockIdAt (st.blockIndexForPos offset) with
    | .error e => (.error e, io)
    | .ok blockId =>
      match st.positionedRead w blockId offset (endOff - offset) io with
      | (.error e, io) => (.error e, io)
      | (.ok data, io) =>
        if data = [] then
          (.error (zeroBytesPositioned (st.request blockId offset (endOff - offset))), io)
        else (.ok data, io)
  else st.readBlocks w endOff (endOff - offset) offset [] io

def readAtCached (c : PageCache) (offset endOff : Nat) (io : StreamIo) :
    Except Error Bytes × StreamIo :=
  let (res, io', fills) := readThroughCache (w.cache io.batches)
    (fun io a e => st.readExternalRange w a e io)
    c.fileId c.pageSize st.fileLength offset endOff c.fillMode io
  (res, { io' with batches := io'.batches + 1, fills := io'.fills ++ fills })

/-- `read_at`.  The stream itself is not touched. -/
def readAt (offset n : Nat) (io : StreamIo) : Except Error Bytes × StreamIo :=
  if st.fileLength ≤ offset ∨ n = 0 then (.ok [], io)
  else
    let endOff := min (offset + n) st.fileLength
    match st.cache with
    | some c => st.readAtCached w c offset endOff io
    | none => st.readExternalRange w offset endOff io

/-! ## Sequential reads -/

/-- Hand out the chunk `data`: what does not fit into `n` bytes is parked, and a
stream that has delivered its range is dropped. -/
def takeChunk (r : GrpcBlockReader) (data : Bytes) (n : Nat) : Bytes × GoosefsFileInStream :=
  let st := { st with
    blockInStream := some r
    carryOver := data.drop n
    pos := st.pos + data.length }
  (data.take n, if r.isComplete then st.dropStream else st)

def readFromSequentialStream (n : Nat) : Except Error Bytes × GoosefsFileInStream :=
  match st.blockInStream with
  | none => (.ok [], st)
  | some r =>
    match r.readChunk with
    | (.error e, r) => (.error e, { st with blockInStream := some r })
    | (.ok none, _) => (.ok [], st.dropStream)
    | (.ok (some data), r) => (.ok (st.takeChunk r data n).1, (st.takeChunk r data n).2)

def ensureStream (blockId : Int) (io : StreamIo) : Except Error GoosefsFileInStream × StreamIo :=
  if st.blockInStreamBlockId ≠ blockId then
    match (w.runs io.calls).openSequential st.tuning
        (st.request blockId st.pos (st.remainingInBlock st.pos)) with
    | .error e => (.error e, { io with calls := io.calls + 1 })
    | .ok r => (.ok { st with blockInStream := some r, blockInStreamBlockId := blockId },
        { io with calls := io.calls + 1 })
  else (.ok st, io)

def readCached (c : PageCache) (n : Nat) (io : StreamIo) :
    Except Error Bytes × GoosefsFileInStream × StreamIo :=
  match st.readAtCached w c st.pos (min (st.pos + n) st.fileLength) io with
  | (.error e, io) => (.error e, st, io)
  | (.ok data, io) => (.ok (data.take n), { st with pos := st.pos + (data.take n).length }, io)

def readStreaming (n : Nat) (io : StreamIo) : Except Error Bytes × GoosefsFileInStream × StreamIo :=
  match st.blockIdAt (st.blockIndexForPos st.pos) with
  | .error e => (.error e, st, io)
  | .ok blockId =>
    match st.ensureStream w blockId io with
    | (.error e, io) => (.error e, st, io)
    | (.ok st, io) => ((st.readFromSequentialStream n).1, (st.readFromSequentialStream n).2, io)

/-- `read` into a buffer of `n` bytes; the result are the bytes copied. -/
def read (n : Nat) (io : StreamIo) : Except Error Bytes × GoosefsFileInStream × StreamIo :=
  if n = 0 then (.ok [], st, io)
  else if st.carryOver ≠ [] then
    (.ok (st.carryOver.take n), { st with carryOver := st.carryOver.drop n }, io)
  else if st.fileLength ≤ st.pos then (.ok [], st, io)
  else
    match st.cache.filter fun _ => st.cacheSequentialRead with
    | some c => st.readCached w c n io
    | none => st.readStreaming w n io

def readAllLoop (scratch : Nat) : Nat → GoosefsFileInStream → StreamIo → Bytes →
    Option (Except Error Bytes × GoosefsFileInStream × StreamIo)
  | 0, _, _, _ => none
  | fuel + 1, st, io, buf =>
    match st.read w scratch io with
    | (.error e, st, io) => some (.error e, st, io)
    | (.ok data, st, io) =>
      if data = [] then some (.ok buf, st, io)
      else readAllLoop scratch fuel st io (buf ++ data)

def scratchCap : Nat := max (8 * 1024) (min st.chunkSize (64 * 1024))

def readAll (fuel : Nat) (io : StreamIo) :
    Option (Except Error Bytes × GoosefsFileInStream × StreamIo) :=
  readAllLoop w st.scratchCap fuel st io []

end GoosefsFileInStream

end GooseFS
