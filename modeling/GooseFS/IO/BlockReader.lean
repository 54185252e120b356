import GooseFS.Error

/-!
# Block reader

`GrpcBlockReader` reads one range of one block from a worker stream.  The
frames the worker is going to send are part of the reader's state, so a worker
behaviour is a value of `ChunkSource`: positioned reads pull frames straight
from the response stream, sequential reads through the channel of the drain
task, where a clean half-close is the explicit item `streamEnd` and a channel
that closes without it is an error.

`ChunkSource.bytes` is what a source still has to deliver.  Everything later
files know about `readChunk` and `readAll` is stated with it.
-/

namespace GooseFS

open List

structure Chunk where
  data : Option Bytes
  deriving DecidableEq, Repr

structure ReadResponse where
  chunk : Option Chunk
  deriving DecidableEq, Repr

inductive StreamItem where
  | data (resp : ReadResponse)
  | streamEnd
  | error (e : Error)
  deriving DecidableEq, Repr

inductive ChunkAction where
  | eof
  | keepReading
  | deliver (data : Bytes)
  deriving DecidableEq, Repr

def ReadResponse.payload (r : ReadResponse) : Bytes := (r.chunk.bind Chunk.data).getD []

def classifyResponse : Option ReadResponse → ChunkAction
  | none => .eof
  | some r => if r.payload = [] then .keepReading else .deliver r.payload

/-- The frames still to come.  A `direct` source that has run out is a stream
the server has half-closed. -/
inductive ChunkSource where
  | direct (frames : List (Except Error ReadResponse))
  | buffered (items : List StreamItem)

/-- The error of a receiver that meets a closed channel before `streamEnd`. -/
def drainTaskEnded (blockId : Int) (received length : Nat) : Error :=
  .internal s!"read stream drain task ended unexpectedly on block {blockId} ({received} of {length} bytes received)"

namespace ChunkSource

/-- The frame loop of `read_chunk` on a response stream.  Frames without data
are skipped; an ended stream is `none`. -/
def pullDirect : List (Except Error ReadResponse) →
    Except Error (Option Bytes) × List (Except Error ReadResponse)
  | [] => (.ok none, [])
  | .error e :: rest => (.error e, rest)
  | .ok r :: rest =>
    match classifyResponse (some r) with
    | .eof => (.ok none, rest)
    | .keepReading => pullDirect rest
    | .deliver d => (.ok (some d), rest)

def pullBuffered (closed : Error) : List StreamItem → Except Error (Option Bytes) × List StreamItem
  | [] => (.error closed, [])
  | .streamEnd :: rest => (.ok none, rest)
  | .error e :: rest => (.error e, rest)
  | .data r :: rest =>
    match classifyResponse (some r) with
    | .eof => (.ok none, rest)
    | .keepReading => pullBuffered closed rest
    | .deliver d => (.ok (some d), rest)

def pull (closed : Error) : ChunkSource → Except Error (Option Bytes) × ChunkSource
  | .direct frames => ((pullDirect frames).1, .direct (pullDirect frames).2)
  | .buffered items => ((pullBuffered closed items).1, .buffered (pullBuffered closed items).2)

def directBytes : List (Except Error ReadResponse) → Bytes
  | .ok r :: rest => r.payload ++ directBytes rest
  | _ => []

def bufferedBytes : List StreamItem → Bytes
  | .data r :: rest => r.payload ++ bufferedBytes rest
  | _ => []

/-- The bytes of the data frames that precede the first error or end. -/
def bytes : ChunkSource → Bytes
  | .direct frames => directBytes frames
  | .buffered items => bufferedBytes items

/-- The number of frames left, which bounds the number of chunks. -/
def size : ChunkSource → Nat
  | .direct frames => frames.length
  | .buffered items => items.length

theorem classify_some (r : ReadResponse) :
    (classifyResponse (some r) = .keepReading ∧ r.payload = []) ∨
      (classifyResponse (some r) = .deliver r.payload ∧ r.payload ≠ []) := by
  by_cases h : r.payload = []
  · exact .inl ⟨if_pos h, h⟩
  · exact .inr ⟨if_neg h, h⟩

theorem pullDirect_spec : ∀ frames : List (Except Error ReadResponse),
    (∃ d, (pullDirect frames).1 = .ok (some d) ∧ d ≠ [] ∧
        directBytes frames = d ++ directBytes (pullDirect frames).2 ∧
        (pullDirect frames).2.length < frames.length) ∨
      ((∀ d, (pullDirect frames).1 ≠ .ok (some d)) ∧ directBytes frames = [])
  | [] => .inr ⟨by simp [pullDirect], rfl⟩
  | .error e :: rest => .inr ⟨by simp [pullDirect], rfl⟩
  | .ok r :: rest => by
    rcases classify_some r with ⟨hc, hr⟩ | ⟨hc, hr⟩
    · have hpull : pullDirect (.ok r :: rest) = pullDirect rest := by
        rw [pullDirect, hc]
      rw [hpull, directBytes, hr, nil_append]
      rcases pullDirect_spec rest with ⟨d, hd, hne, hb, hlt⟩ | ⟨hno, hb⟩
      · exact .inl ⟨d, hd, hne, hb, Nat.lt_succ_of_lt hlt⟩
      · exact .inr ⟨hno, hb⟩
    · have hpull : pullDirect (.ok r :: rest) = (.ok (some r.payload), rest) := by
        rw [pullDirect, hc]
      rw [hpull]
      exact .inl ⟨r.payload, rfl, hr, rfl, Nat.lt_succ_self _⟩

theorem pullBuffered_spec (closed : Error) : ∀ items : List StreamItem,
    (∃ d, (pullBuffered closed items).1 = .ok (some d) ∧ d ≠ [] ∧
        bufferedBytes items = d ++ bufferedBytes (pullBuffered closed items).2 ∧
        (pullBuffered closed items).2.length < items.length) ∨
      ((∀ d, (pullBuffered closed items).1 ≠ .ok (some d)) ∧ bufferedBytes items = [])
  | [] => .inr ⟨by simp [pullBuffered], rfl⟩
  | .streamEnd :: rest => .inr ⟨by simp [pullBuffered], rfl⟩
  | .error e :: rest => .inr ⟨by simp [pullBuffered], rfl⟩
  | .data r :: rest => by
    rcases classify_some r with ⟨hc, hr⟩ | ⟨hc, hr⟩
    · have hpull : pullBuffered closed (.data r :: rest) = pullBuffered closed rest := by
        rw [pullBuffered, hc]
      rw [hpull, bufferedBytes, hr, nil_append]
      rcases pullBuffered_spec closed rest with ⟨d, hd, hne, hb, hlt⟩ | ⟨hno, hb⟩
      · exact .inl ⟨d, hd, hne, hb, Nat.lt_succ_of_lt hlt⟩
      · exact .inr ⟨hno, hb⟩
    · have hpull : pullBuffered closed (.data r :: rest) = (.ok (some r.payload), rest) := by
        rw [pullBuffered, hc]
      rw [hpull]
      exact .inl ⟨r.payload, rfl, hr, rfl, Nat.lt_succ_self _⟩

/-- A pull takes a non-empty chunk off the front of what the source has left,
or the source had nothing left. -/
theorem pull_spec (closed : Error) (src : ChunkSource) :
    (∃ d, (src.pull closed).1 = .ok (some d) ∧ d ≠ [] ∧
        src.bytes = d ++ (src.pull closed).2.bytes ∧ (src.pull closed).2.size < src.size) ∨
      ((∀ d, (src.pull closed).1 ≠ .ok (some d)) ∧ src.bytes = []) := by
  cases src with
  | direct frames => exact pullDirect_spec frames
  | buffered items => exact pullBuffered_spec closed items

end ChunkSource

inductive TrySend where
  | ok
  | full
  | closed
  deriving DecidableEq, Repr

structure ReadTuning where
  ackIntervalBytes : Nat
  ackIntervalChunks : Nat
  deriving DecidableEq, Repr

/-- A streaming reader of one block range.  `requestTx` is the sender half of the request
stream, with the outcomes of its next `try_send`s; `acks` are the offsets sent so far. -/
structure GrpcBlockReader where
  blockId : Int
  offset : Nat
  length : Nat
  bytesReceived : Nat
  requestTx : Option (List TrySend)
  source : ChunkSource
  bytesSinceLastAck : Nat
  chunksSinceLastAck : Nat
  ackIntervalBytes : Nat
  ackIntervalChunks : Nat
  acks : List Nat

def shouldSendAck (bytesSinceLastAck chunksSinceLastAck ackIntervalBytes ackIntervalChunks
    bytesReceived length : Nat) : Bool :=
  ackIntervalBytes ≤ bytesSinceLastAck || ackIntervalChunks ≤ chunksSinceLastAck ||
    length ≤ bytesReceived

def checkPositionedReadComplete (blockId : Int) (bytesReceived length : Nat) : Except Error Unit :=
  if bytesReceived < length then
    .error (.internal s!"short positioned read on block {blockId}: received {bytesReceived} of {length} bytes (server half-closed early)")
  else .ok ()

/-- An opened `ReadBlock` stream: the sender half, and the frames the worker
is going to send. -/
structure ReadStream where
  tx : List TrySend
  frames : List (Except Error ReadResponse)

namespace GrpcBlockReader

/-- A reader that takes its frames directly and acknowledges every chunk, as
`open` and `positioned_read` build it. -/
def openDirect (blockId : Int) (offset length : Nat) (stream : ReadStream) : GrpcBlockReader :=
  { blockId, offset, length, bytesReceived := 0, requestTx := some stream.tx,
    source := .direct stream.frames, bytesSinceLastAck := 0, chunksSinceLastAck := 0,
    ackIntervalBytes := 0, ackIntervalChunks := 1, acks := [] }

def openSequential (blockId : Int) (offset length : Nat) (tuning : ReadTuning)
    (tx : List TrySend) (items : List StreamItem) : GrpcBlockReader :=
  { blockId, offset, length, bytesReceived := 0, requestTx := some tx,
    source := .buffered items, bytesSinceLastAck := 0, chunksSinceLastAck := 0,
    ackIntervalBytes := tuning.ackIntervalBytes, ackIntervalChunks := tuning.ackIntervalChunks,
    acks := [] }

def isComplete (r : GrpcBlockReader) : Bool := r.length ≤ r.bytesReceived

def halfClose (r : GrpcBlockReader) : GrpcBlockReader := { r with requestTx := none }

def maybeSendAck (r : GrpcBlockReader) (delta : Nat) : GrpcBlockReader :=
  let r := { r with
    bytesSinceLastAck := r.bytesSinceLastAck + delta
    chunksSinceLastAck := r.chunksSinceLastAck + 1 }
  if shouldSendAck r.bytesSinceLastAck r.chunksSinceLastAck r.ackIntervalBytes
      r.ackIntervalChunks r.bytesReceived r.length then
    match r.requestTx with
    | none => r
    | some tx =>
      match tx.headD .ok with
      | .ok => { r with
          requestTx := some tx.tail
          bytesSinceLastAck := 0
          chunksSinceLastAck := 0
          acks := r.acks ++ [r.offset + r.bytesReceived] }
      -- a full channel keeps the counters, so the next chunk tries again
      | .full => { r with requestTx := some tx.tail }
      | .closed => { r with requestTx := some tx.tail }
  else r

def deliver (r : GrpcBlockReader) (d : Bytes) (source : ChunkSource) : GrpcBlockReader :=
  let r := { r with source, bytesReceived := r.bytesReceived + d.length }
  let r := r.maybeSendAck d.length
  if r.length ≤ r.bytesReceived then r.halfClose else r

def readChunk (r : GrpcBlockReader) : Except Error (Option Bytes) × GrpcBlockReader :=
  if r.length ≤ r.bytesReceived then (.ok none, r.halfClose)
  else
    match r.source.pull (drainTaskEnded r.blockId r.bytesReceived r.length) with
    | (.ok (some d), source) => (.ok (some d), r.deliver d source)
    | (.ok none, source) => (.ok none, { r with source })
    | (.error e, source) => (.error e, { r with source })

/-- The `while let Some(chunk)` loop of `read_all`.  Each chunk uses up a frame,
so the number of frames is enough fuel. -/
def readAllLoop : Nat → GrpcBlockReader → Bytes → Except Error (Bytes × GrpcBlockReader)
  | 0, r, buf => .ok (buf, r)
  | fuel + 1, r, buf =>
    match r.readChunk with
    | (.error e, _) => .error e
    | (.ok none, r) => .ok (buf, r)
    | (.ok (some chunk), r) => readAllLoop fuel r (buf ++ chunk)

def readAll (r : GrpcBlockReader) : Except Error Bytes := do
  let (buf, r) ← readAllLoop (r.source.size + 1) r []
  checkPositionedReadComplete r.blockId r.bytesReceived r.length
  return buf

/-- A one-shot read of `[offset, offset + length)` of a block.  `opened` is the
outcome of the call that opens the stream. -/
def positionedRead (opened : Except Error ReadStream) (blockId : Int) (offset length : Nat) :
    Except Error Bytes := do
  let stream ← opened
  (openDirect blockId offset length stream).readAll

theorem maybeSendAck_keeps (r : GrpcBlockReader) (n : Nat) :
    (r.maybeSendAck n).source = r.source ∧ (r.maybeSendAck n).length = r.length ∧
      (r.maybeSendAck n).bytesReceived = r.bytesReceived := by
  simp only [maybeSendAck]
  split
  · split
    · exact ⟨rfl, rfl, rfl⟩
    · split <;> exact ⟨rfl, rfl, rfl⟩
  · exact ⟨rfl, rfl, rfl⟩

theorem deliver_keeps (r : GrpcBlockReader) (d : Bytes) (src : ChunkSource) :
    (r.deliver d src).source = src ∧ (r.deliver d src).length = r.length ∧
      (r.deliver d src).bytesReceived = r.bytesReceived + d.length := by
  have hack := maybeSendAck_keeps { r with source := src, bytesReceived := r.bytesReceived + d.length } d.length
  simp only [deliver]
  split
  · exact hack
  · exact hack

variable {b : Bytes} {blockId : Int} {length offset : Nat} {r : GrpcBlockReader}

theorem readChunk_of_complete (h : r.length ≤ r.bytesReceived) :
    r.readChunk = (.ok none, r.halfClose) := if_pos h

/-- A chunk is the non-empty front of what the source has left.  Any other
outcome leaves the count of received bytes alone, and it needs a complete
reader or a source with nothing left. -/
theorem readChunk_spec (r : GrpcBlockReader) :
    (∃ d, r.readChunk.1 = .ok (some d) ∧ d ≠ [] ∧ r.bytesReceived < r.length ∧
        r.source.bytes = d ++ r.readChunk.2.source.bytes ∧
        r.readChunk.2.source.size < r.source.size ∧ r.readChunk.2.length = r.length ∧
        r.readChunk.2.bytesReceived = r.bytesReceived + d.length) ∨
      ((∀ d, r.readChunk.1 ≠ .ok (some d)) ∧
        (r.length ≤ r.bytesReceived ∨ r.source.bytes = []) ∧ r.readChunk.2.length = r.length ∧
        r.readChunk.2.bytesReceived = r.bytesReceived) := by
  by_cases hc : r.length ≤ r.bytesReceived
  · rw [readChunk_of_complete hc]
    exact .inr ⟨by simp, .inl hc, rfl, rfl⟩
  · have hpull := r.source.pull_spec (drainTaskEnded r.blockId r.bytesReceived r.length)
    rw [readChunk, if_neg hc]
    rcases hres : r.source.pull (drainTaskEnded r.blockId r.bytesReceived r.length) with ⟨res, src⟩
    rw [hres] at hpull
    rcases hpull with ⟨d, hd, hne, hbytes, hsize⟩ | ⟨hno, hbytes⟩
    · have hd' : res = .ok (some d) := hd
      subst hd'
      obtain ⟨hsrc, hlen, hrecv⟩ := r.deliver_keeps d src
      refine .inl ⟨d, rfl, hne, Nat.lt_of_not_le hc, ?_, ?_, hlen, hrecv⟩
      · simp only [hsrc]
        exact hbytes
      · simp only [hsrc]
        exact hsize
    · match res, hno with
      | .error e, _ => exact .inr ⟨by simp, .inr hbytes, rfl, rfl⟩
      | .ok none, _ => exact .inr ⟨by simp, .inr hbytes, rfl, rfl⟩
      | .ok (some d), hno => exact absurd rfl (hno d)

/-! ## Reading to the end -/

theorem readAllLoop_ok : ∀ {fuel : Nat} {r r' : GrpcBlockReader} {buf b : Bytes},
    readAllLoop fuel r buf = .ok (b, r') →
      ∃ d, b = buf ++ d ∧ d <+: r.source.bytes ∧ r'.length = r.length ∧
        r'.bytesReceived = r.bytesReceived + d.length := by
  intro fuel
  induction fuel with
  | zero =>
    intro r r' buf b h
    cases h
    exact ⟨[], (append_nil _).symm, nil_prefix, rfl, rfl⟩
  | succ fuel ih =>
    intro r r' buf b h
    have hspec := r.readChunk_spec
    rw [readAllLoop] at h
    rcases hchunk : r.readChunk with ⟨res, r₁⟩
    rw [hchunk] at h hspec
    match res, h with
    | .ok none, h =>
      cases h
      rcases hspec with ⟨d, hd, _⟩ | ⟨_, _, hlen, hrecv⟩
      · simp at hd
      · exact ⟨[], (append_nil _).symm, nil_prefix, hlen, hrecv⟩
    | .ok (some chunk), h =>
      obtain ⟨d, hb, hpre, hlen, hrecv⟩ := ih h
      rcases hspec with ⟨d', hd, _, _, hbytes, _, hlen₁, hrecv₁⟩ | ⟨hno, _⟩
      · have hdc : chunk = d' := by simpa using hd
        subst hdc
        refine ⟨chunk ++ d, by rw [hb, append_assoc], ?_, hlen.trans hlen₁, ?_⟩
        · rw [hbytes]
          exact (prefix_append_right_inj chunk).mpr hpre
        · rw [hrecv, hrecv₁, length_append, Nat.add_assoc]
      · exact absurd rfl (hno chunk)

theorem readAllLoop_complete : ∀ {fuel : Nat} {r : GrpcBlockReader} (buf : Bytes),
    r.source.size < fuel → r.bytesReceived + r.source.bytes.length = r.length →
      ∃ r', readAllLoop fuel r buf = .ok (buf ++ r.source.bytes, r') ∧
        r'.length ≤ r'.bytesReceived := by
  intro fuel
  induction fuel with
  | zero => intro r buf h; omega
  | succ fuel ih =>
    intro r buf hfuel hlen
    by_cases hc : r.length ≤ r.bytesReceived
    · have hnil : r.source.bytes = [] := eq_nil_of_length_eq_zero (by omega)
      rw [readAllLoop, readChunk_of_complete hc, hnil, append_nil]
      exact ⟨r.halfClose, rfl, hc⟩
    · rcases r.readChunk_spec with ⟨d, hd, hne, _, hbytes, hsize, hlen₁, hrecv₁⟩ |
        ⟨_, hend, _⟩
      · rcases hchunk : r.readChunk with ⟨res, r₁⟩
        simp only [hchunk] at hd hbytes hsize hlen₁ hrecv₁
        subst hd
        have hrest : r₁.bytesReceived + r₁.source.bytes.length = r₁.length := by
          have : r.source.bytes.length = d.length + r₁.source.bytes.length := by
            rw [hbytes, length_append]
          omega
        obtain ⟨r', hr', hdone⟩ := ih (buf ++ d) (by omega) hrest
        refine ⟨r', ?_, hdone⟩
        rw [readAllLoop, hchunk, hbytes, ← append_assoc]
        exact hr'
      · rcases hend with hend | hnil
        · exact absurd hend hc
        · rw [hnil, length_nil] at hlen
          omega

/-- A successful `read_all` of a fresh reader returns at least the requested
number of bytes, all of them from the front of the source. -/
theorem readAll_ok (h0 : r.bytesReceived = 0) (h : r.readAll = .ok b) :
    b <+: r.source.bytes ∧ r.length ≤ b.length := by
  rw [readAll] at h
  rcases hloop : readAllLoop (r.source.size + 1) r [] with e | ⟨buf, r'⟩
  · rw [hloop] at h
    simp [bind, Except.bind] at h
  · obtain ⟨d, hb, hpre, hlen, hrecv⟩ := readAllLoop_ok hloop
    rw [nil_append] at hb
    subst hb
    rw [hloop] at h
    by_cases hshort : r'.bytesReceived < r'.length
    · simp [bind, Except.bind, checkPositionedReadComplete, hshort] at h
    · have hbuf : buf = b := by
        simpa [bind, Except.bind, checkPositionedReadComplete, hshort, pure, Except.pure] using h
      subst hbuf
      exact ⟨hpre, by omega⟩

theorem readAll_complete (h0 : r.bytesReceived = 0) (h : r.source.bytes.length = r.length) :
    r.readAll = .ok r.source.bytes := by
  obtain ⟨r', hloop, hdone⟩ :=
    readAllLoop_complete [] (Nat.lt_succ_self r.source.size) (by rw [h0, Nat.zero_add, h])
  rw [readAll, hloop, nil_append]
  simp [bind, Except.bind, checkPositionedReadComplete, Nat.not_lt.mpr hdone, pure, Except.pure]

/-- When a worker delivers nothing but the front of what was asked for, a
successful one-shot read returns all of it. -/
theorem positionedRead_ok {opened : Except Error ReadStream} {want : Bytes}
    (hlen : want.length = length)
    (hfront : ∀ s, opened = .ok s → ChunkSource.directBytes s.frames <+: want)
    (h : positionedRead opened blockId offset length = .ok b) : b = want := by
  cases opened with
  | error e => simp [positionedRead, bind, Except.bind] at h
  | ok s =>
    have h' : (openDirect blockId offset length s).readAll = .ok b := h
    obtain ⟨hpre, hle⟩ := readAll_ok rfl h'
    have hwant : b <+: want := hpre.trans (hfront s rfl)
    exact hwant.eq_of_length (Nat.le_antisymm hwant.length_le (hlen ▸ hle))

theorem positionedRead_complete {s : ReadStream}
    (hlen : (ChunkSource.directBytes s.frames).length = length) :
    positionedRead (.ok s) blockId offset length = .ok (ChunkSource.directBytes s.frames) :=
  readAll_complete (r := openDirect blockId offset length s) rfl hlen

end GrpcBlockReader

end GooseFS
