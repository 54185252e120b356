import GooseFS.Error

/-!
# Block writer

`GrpcBlockWriter` is the client half of one `WriteBlock` stream, for a cache
block or for the file on the under store.  `sent` records the requests that the
request channel took after the opening command; a stream that is closed
successfully has received their payloads (`received`).  What the worker answers
is an argument of each operation.
-/

namespace GooseFS

open List

inductive WriteRequest where
  | chunk (data : Bytes)
  | flush
  deriving DecidableEq, Repr

def WriteRequest.payload : WriteRequest → Bytes
  | .chunk data => data
  | .flush => []

/-- What a flush command meets: a request channel that is closed, or else the
next item of the response stream. -/
inductive FlushReply where
  | channelClosed
  | ack (offset : Option Nat)
  | failed (code : Code)
  | ended
  deriving DecidableEq, Repr

/-- How a stream ends after the request channel was dropped. -/
inductive CloseReply where
  | done
  | failed (code : Code)
  | abnormal
  deriving DecidableEq, Repr

structure GrpcBlockWriter where
  blockId : Int64
  bytesWritten : Nat
  sent : List WriteRequest
  deriving DecidableEq, Repr

def writeServerError (blockId : Int64) (code : Code) : Error :=
  .grpcError s!"WriteBlock server error for block_id={blockId}" code

namespace GrpcBlockWriter

def openStream (blockId : Int64) : GrpcBlockWriter := ⟨blockId, 0, []⟩

def received (w : GrpcBlockWriter) : Bytes := w.sent.flatMap WriteRequest.payload

/-- `accepted` says whether the request channel still takes messages. -/
def writeChunk (w : GrpcBlockWriter) (accepted : Bool) (data : Bytes) :
    Except Error Unit × GrpcBlockWriter :=
  if accepted then
    (.ok (), { w with
      bytesWritten := w.bytesWritten + data.length
      sent := w.sent ++ [.chunk data] })
  else (.error (.blockIoError s!"write channel closed for block_id={w.blockId}"), w)

/-- The loop of `write_all`, whose `k`-th chunk meets `accepted k`.  With a
positive chunk size the length of the data is enough fuel. -/
def writeAllLoop (accepted : Nat → Bool) (chunkSize : Nat) :
    Nat → Nat → Bytes → GrpcBlockWriter → Except Error Unit × GrpcBlockWriter
  | 0, _, _, w => (.ok (), w)
  | fuel + 1, k, data, w =>
    if data = [] then (.ok (), w)
    else
      match w.writeChunk (accepted k) (data.take chunkSize) with
      | (.error e, w) => (.error e, w)
      | (.ok (), w) => writeAllLoop accepted chunkSize fuel (k + 1) (data.drop chunkSize) w

def writeAll (w : GrpcBlockWriter) (accepted : Nat → Bool) (data : Bytes) (chunkSize : Nat) :
    Except Error Unit × GrpcBlockWriter :=
  writeAllLoop accepted chunkSize data.length 0 data w

def flush (w : GrpcBlockWriter) (reply : FlushReply) : Except Error Nat × GrpcBlockWriter :=
  let flushed := { w with sent := w.sent ++ [.flush] }
  match reply with
  | .channelClosed => (.error (.blockIoError s!"flush channel closed for block_id={w.blockId}"), w)
  | .ack offset => (.ok (offset.getD w.bytesWritten), flushed)
  | .failed code => (.error (writeServerError w.blockId code), flushed)
  | .ended =>
    (.error (.blockIoError s!"stream ended before flush ack for block_id={w.blockId}"), flushed)

def close (w : GrpcBlockWriter) : CloseReply → Except Error Unit
  | .done => .ok ()
  | .failed code => .error (writeServerError w.blockId code)
  | .abnormal =>
    .error (.internal s!"WriteBlock background task ended abnormally for block_id={w.blockId}")

variable (w : GrpcBlockWriter)

theorem received_sent_append (reqs : List WriteRequest) (n : Nat) :
    ({ w with bytesWritten := n, sent := w.sent ++ reqs } : GrpcBlockWriter).received =
      w.received ++ reqs.flatMap WriteRequest.payload :=
  flatMap_append

theorem writeChunk_cases (accepted : Bool) (data : Bytes) :
    (accepted = true ∧ ∃ w', w.writeChunk accepted data = (.ok (), w') ∧
        w'.blockId = w.blockId ∧ w'.received = w.received ++ data) ∨
      (accepted = false ∧ ∃ e, w.writeChunk accepted data = (.error e, w)) := by
  cases accepted with
  | false => exact .inr ⟨rfl, _, rfl⟩
  | true =>
    refine .inl ⟨rfl, _, rfl, rfl, ?_⟩
    rw [received_sent_append]
    show w.received ++ (data ++ []) = w.received ++ data
    rw [append_nil]

theorem flush_keeps (reply : FlushReply) :
    (w.flush reply).2.blockId = w.blockId ∧ (w.flush reply).2.received = w.received := by
  have hflush : w.received ++ [WriteRequest.flush].flatMap WriteRequest.payload = w.received :=
    append_nil _
  cases reply with
  | channelClosed => exact ⟨rfl, rfl⟩
  | ack offset | failed code | ended => exact ⟨rfl, (received_sent_append w _ _).trans hflush⟩

variable {chunkSize : Nat}

theorem writeAllLoop_spec {accepted : Nat → Bool} (hcs : 0 < chunkSize) :
    ∀ {fuel k : Nat} {data : Bytes} {w : GrpcBlockWriter}, data.length ≤ fuel →
      (∃ w', writeAllLoop accepted chunkSize fuel k data w = (.ok (), w') ∧
        w'.received = w.received ++ data) ∨
      (∃ e w', writeAllLoop accepted chunkSize fuel k data w = (.error e, w') ∧
        ∃ j, j * chunkSize < data.length ∧ accepted (k + j) = false) := by
  intro fuel
  induction fuel with
  | zero =>
    intro k data w hfuel
    have hnil : data = [] := eq_nil_of_length_eq_zero (Nat.le_zero.mp hfuel)
    subst hnil
    exact .inl ⟨w, rfl, (append_nil _).symm⟩
  | succ fuel ih =>
    intro k data w hfuel
    by_cases hnil : data = []
    · subst hnil
      exact .inl ⟨w, rfl, (append_nil _).symm⟩
    · have hpos : 0 < data.length := length_pos_iff.mpr hnil
      rcases w.writeChunk_cases (accepted k) (data.take chunkSize) with
        ⟨_, w₁, hw₁, _, hrecv⟩ | ⟨hacc, e, he⟩
      · have hlen : (data.drop chunkSize).length ≤ fuel := by
          rw [length_drop]
          omega
        rcases ih (k := k + 1) (w := w₁) hlen with ⟨w', hw', hrecv'⟩ | ⟨e, w', hw', j, hj, hacc⟩
        · refine .inl ⟨w', ?_, ?_⟩
          · simp only [writeAllLoop, if_neg hnil, hw₁]
            exact hw'
          · rw [hrecv', hrecv, append_assoc, take_append_drop]
        · refine .inr ⟨e, w', ?_, j + 1, ?_, ?_⟩
          · simp only [writeAllLoop, if_neg hnil, hw₁]
            exact hw'
          · rw [length_drop] at hj
            rw [Nat.add_one_mul]
            omega
          · rw [← Nat.add_assoc, Nat.add_right_comm]
            exact hacc
      · refine .inr ⟨e, w, ?_, 0, by omega, hacc⟩
        simp only [writeAllLoop, if_neg hnil, he]

theorem writeAll_spec (accepted : Nat → Bool) (data : Bytes) (hcs : 0 < chunkSize) :
    (∃ w', w.writeAll accepted data chunkSize = (.ok (), w') ∧ w'.received = w.received ++ data) ∨
      (∃ e w', w.writeAll accepted data chunkSize = (.error e, w') ∧
        ∃ j, j * chunkSize < data.length ∧ accepted j = false) := by
  rcases writeAllLoop_spec hcs (k := 0) (Nat.le_refl data.length) with h | h
  · exact .inl h
  · simp only [Nat.zero_add] at h
    exact .inr h

end GrpcBlockWriter

end GooseFS
