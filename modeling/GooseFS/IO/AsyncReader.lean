import GooseFS.Error
import GooseFS.Lib.Cursor
import GooseFS.Lib.Transition

/-!
# The `AsyncRead` and `AsyncSeek` adapter

`GoosefsAsyncReader` drives one call of its stream at a time.  The stream is a
cursor here.  A read is started for the room of the buffer in the first poll and
completed by a later poll, which may come with another buffer: what does not fit
there is dropped, although the stream has moved over it (`bytes_lost`).  If every
poll that completes a read has the room for what the stream can hand out
(`RoomKept`), the bytes delivered since the last seek are a front of the file from
there (`delivered_front`).
-/

namespace GooseFS

open Lib

/-- `x as i64`, and the sum of two `i64` in a release build. -/
def wrapInt64 (x : Int) : Int := x.bmod (2 ^ 64)

inductive SeekFrom where
  | start (n : Nat)
  | fromEnd (n : Int)
  | current (n : Int)
  deriving DecidableEq

def SeekFrom.target (stream : Cursor UInt8) : SeekFrom → Int
  | .start n => wrapInt64 n
  | .fromEnd n => wrapInt64 (stream.content.length + n)
  | .current n => wrapInt64 (stream.pos + n)

/-! ## The adapter -/

/-- While a call is in flight its future owns the stream, and what it was called for. -/
inductive GoosefsAsyncReader where
  | idle (stream : Cursor UInt8)
  | reading (stream : Cursor UInt8) (cap : Nat)
  | seeking (stream : Cursor UInt8) (position : SeekFrom)
  deriving DecidableEq

/-- A poll, with what it finds of the call in flight: `none` if it is pending.  A read
that succeeds brings the number of the bytes that the stream has at hand. -/
inductive PollOp where
  | read (remaining : Nat) (outcome : Option (Except String Nat))
  | startSeek (position : SeekFrom)
  | complete (outcome : Option (Except String Unit))

inductive PollReply where
  | pending
  | data (bytes : Bytes)
  | started
  | position (pos : Nat)
  | failed (message : String)
  deriving DecidableEq

namespace GoosefsAsyncReader

def pollReading (stream : Cursor UInt8) (cap remaining : Nat) :
    Option (Except String Nat) → PollReply × GoosefsAsyncReader
  | none => (.pending, .reading stream cap)
  | some outcome =>
    match stream.read cap outcome with
    -- the stream has moved over all of `data`
    | (.ok data, stream) => (.data (data.take (min data.length remaining)), .idle stream)
    | (.error e, stream) => (.failed e, .idle stream)

def pollRead (remaining : Nat) (outcome : Option (Except String Nat)) :
    GoosefsAsyncReader → PollReply × GoosefsAsyncReader
  | .idle stream =>
    if remaining = 0 then (.data [], .idle stream)
    else pollReading stream remaining remaining outcome
  | .reading stream cap => pollReading stream cap remaining outcome
  | .seeking stream position =>
    (.failed "cannot read while a seek is in flight", .seeking stream position)

def startSeek (position : SeekFrom) : GoosefsAsyncReader → PollReply × GoosefsAsyncReader
  | .idle stream => (.started, .seeking stream position)
  | .reading stream cap =>
    (.failed "cannot start a seek while a read is in flight", .reading stream cap)
  | .seeking stream position =>
    (.failed "another seek is already in flight", .seeking stream position)

def pollComplete (outcome : Option (Except String Unit)) :
    GoosefsAsyncReader → PollReply × GoosefsAsyncReader
  | .idle stream => (.position stream.pos, .idle stream)
  | .reading stream cap =>
    (.failed "cannot complete a seek while a read is in flight", .reading stream cap)
  | .seeking stream position =>
    match outcome with
    | none => (.pending, .seeking stream position)
    | some (.error e) => (.failed e, .idle stream)
    | some (.ok ()) =>
      let stream := stream.seekTo (position.target stream)
      (.position stream.pos, .idle stream)

def poll (r : GoosefsAsyncReader) : PollOp → PollReply × GoosefsAsyncReader
  | .read remaining outcome => r.pollRead remaining outcome
  | .startSeek position => r.startSeek position
  | .complete outcome => r.pollComplete outcome

def stream : GoosefsAsyncReader → Cursor UInt8
  | .idle stream => stream
  | .reading stream _ => stream
  | .seeking stream _ => stream

def isSeeking : GoosefsAsyncReader → Bool
  | .seeking _ _ => true
  | _ => false

end GoosefsAsyncReader

/-! ## Deliveries -/

/-- The adapter, with the position of the last completed seek and the bytes delivered
since. -/
structure Delivery where
  reader : GoosefsAsyncReader
  base : Nat
  bytes : Bytes
  deriving DecidableEq

namespace Delivery

def new (stream : Cursor UInt8) : Delivery := ⟨.idle stream, stream.pos, []⟩

def record (d : Delivery) (reader : GoosefsAsyncReader) : PollReply → Delivery
  | .data bytes => { d with reader := reader, bytes := d.bytes ++ bytes }
  | .position pos =>
    -- without a seek in flight `poll_complete` only reports the position
    if d.reader.isSeeking then ⟨reader, pos, []⟩ else { d with reader := reader }
  | _ => { d with reader := reader }

def step (d : Delivery) (op : PollOp) : Option Delivery :=
  some (d.record (d.reader.poll op).2 (d.reader.poll op).1)

/-- A poll that completes a pending read has room for what the read was started for, or
for all that the stream has left. -/
def RoomKept (d : Delivery) (op : PollOp) : Prop :=
  match d.reader, op with
  | .reading stream cap, .read remaining (some _) => min cap stream.rest ≤ remaining
  | _, _ => True

instance (d : Delivery) (op : PollOp) : Decidable (d.RoomKept op) := by
  unfold RoomKept
  split <;> infer_instance

/-- The bytes delivered are those of the file from the base up to where the stream is. -/
structure Faithful (file : Bytes) (d : Delivery) : Prop where
  content : d.reader.stream.content = file
  pos : d.reader.stream.pos = d.base + d.bytes.length
  bytes : d.bytes = slice file d.base d.bytes.length

variable {file : Bytes} {d : Delivery}

theorem Faithful.of_stream (h : d.Faithful file) {r : GoosefsAsyncReader}
    (hstream : r.stream = d.reader.stream) : Faithful file { d with reader := r } where
  content := hstream ▸ h.content
  pos := hstream ▸ h.pos
  bytes := h.bytes

theorem Faithful.read (h : d.Faithful file) {n : Nat} (hn : n ≤ d.reader.stream.rest) :
    Faithful file ⟨.idle (d.reader.stream.advance n), d.base,
      d.bytes ++ d.reader.stream.ahead n⟩ where
  content := h.content
  pos := by
    show (d.reader.stream.advance n).pos = d.base + (d.bytes ++ d.reader.stream.ahead n).length
    rw [Cursor.advance_pos _ hn, h.pos, List.length_append, Cursor.length_ahead _ hn]
    omega
  bytes := by
    show d.bytes ++ d.reader.stream.ahead n =
      slice file d.base (d.bytes ++ d.reader.stream.ahead n).length
    rw [List.length_append, ← slice_append, ← h.bytes, Cursor.length_ahead _ hn, Cursor.ahead,
      h.content, h.pos]

theorem Faithful.pollReading (h : d.Faithful file) {cap remaining : Nat}
    {outcome : Option (Except String Nat)}
    (hroom : outcome.isSome = true → min cap d.reader.stream.rest ≤ remaining) :
    (d.record (GoosefsAsyncReader.pollReading d.reader.stream cap remaining outcome).2
      (GoosefsAsyncReader.pollReading d.reader.stream cap remaining outcome).1).Faithful file := by
  match outcome with
  | none => exact h.of_stream rfl
  | some (.error e) => exact h.of_stream rfl
  | some (.ok n) =>
    have hle := d.reader.stream.granted_le_rest cap n
    have htake : (d.reader.stream.ahead (d.reader.stream.granted cap n)).take
        (min (d.reader.stream.ahead (d.reader.stream.granted cap n)).length remaining) =
        d.reader.stream.ahead (d.reader.stream.granted cap n) := by
      have hroom := hroom rfl
      have hcap := d.reader.stream.granted_le_cap cap n
      rw [Cursor.length_ahead _ hle, Nat.min_eq_left (by omega)]
      exact List.take_of_length_le (Nat.le_of_eq (Cursor.length_ahead _ hle))
    show Faithful file ⟨.idle (d.reader.stream.advance (d.reader.stream.granted cap n)), d.base,
      d.bytes ++ (d.reader.stream.ahead (d.reader.stream.granted cap n)).take _⟩
    rw [htake]
    exact h.read hle

theorem faithful_seek {stream : Cursor UInt8} (h : stream.content = file) :
    Faithful file ⟨.idle stream, stream.pos, []⟩ :=
  ⟨h, rfl, (slice_zero_len _ _).symm⟩

theorem Faithful.step (h : d.Faithful file) {op : PollOp} (hroom : d.RoomKept op)
    {d' : Delivery} (hstep : d.step op = some d') : d'.Faithful file := by
  cases hstep
  obtain ⟨reader, base, bytes⟩ := d
  cases op with
  | read remaining outcome =>
    cases reader with
    | idle stream =>
      by_cases hzero : remaining = 0
      · subst hzero
        show Faithful file ⟨.idle stream, base, bytes ++ []⟩
        rw [List.append_nil]
        exact h
      · have hpoll : GoosefsAsyncReader.poll (.idle stream) (.read remaining outcome) =
            GoosefsAsyncReader.pollReading stream remaining remaining outcome := if_neg hzero
        rw [hpoll]
        exact h.pollReading fun _ => Nat.min_le_left _ _
    | reading stream cap =>
      refine h.pollReading fun hsome => ?_
      obtain ⟨o, rfl⟩ := Option.isSome_iff_exists.1 hsome
      exact hroom
    | seeking stream position => exact h
  | startSeek position =>
    cases reader with
    | idle stream => exact h.of_stream rfl
    | reading stream cap | seeking stream position => exact h
  | complete outcome =>
    cases reader with
    | idle stream | reading stream cap => exact h
    | seeking stream position =>
      match outcome with
      | none => exact h
      | some (.error e) => exact h.of_stream rfl
      | some (.ok ()) => exact faithful_seek h.content

/-- In every history of polls that keep the room of pending reads, the bytes delivered
since the last completed seek are a front of the file from its position. -/
theorem delivered_front (stream : Cursor UInt8) (ops : List PollOp) (d : Delivery)
    (h : Guarded step RoomKept (new stream) ops d) :
    d.bytes <+: stream.content.drop d.base := by
  have hd : d.Faithful stream.content := by
    exact h.invariant (fun _ _ _ hd hc hstep => hd.step hc hstep) (faithful_seek rfl)
  rw [hd.bytes]
  exact List.take_prefix _ _

def sixBytes : Cursor UInt8 := ⟨[1, 2, 3, 4, 5, 6], 0, by decide⟩

/-- A read that is pending once, a seek, and a read with a short outcome. -/
def pollsWithRoom : List PollOp :=
  [.read 4 none, .startSeek (.start 0), .read 5 (some (.ok 9)), .startSeek (.start 1),
    .complete none, .read 3 none, .complete (some (.ok ())), .read 3 (some (.ok 1)),
    .read 2 (some (.ok 9))]

theorem delivered_front_pollsWithRoom :
    ∃ d, Guarded step RoomKept (new sixBytes) pollsWithRoom d ∧ d.bytes = [2, 3, 4, 5] ∧
      d.bytes <+: sixBytes.content.drop d.base := by
  obtain ⟨d, hrun, hbytes⟩ :
      ∃ d, Guarded step RoomKept (new sixBytes) pollsWithRoom d ∧ d.bytes = [2, 3, 4, 5] :=
    Guarded.exists_of_replay (by decide +kernel)
  exact ⟨d, hrun, hbytes, delivered_front sixBytes pollsWithRoom d hrun⟩

/-- A read for four bytes is pending, and the poll that completes it has room for two. -/
theorem bytes_lost : ∃ d, Guarded step (fun _ _ => True) (new sixBytes)
        [.read 4 none, .read 2 (some (.ok 9)), .read 2 (some (.ok 9))] d ∧
      d.bytes = [1, 2, 5, 6] ∧ ¬ d.bytes <+: sixBytes.content.drop d.base :=
  Guarded.exists_of_replay (by decide +kernel)

end Delivery

end GooseFS
