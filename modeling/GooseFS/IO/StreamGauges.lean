import GooseFS.IO.BlockReader
import GooseFS.IO.BlockWriter
import GooseFS.Lib.Tasks
import GooseFS.Lib.Transition

/-!
# Gauges of streams in progress

`CLIENT_BLOCKS_READ_IN_PROGRESS` and `CLIENT_BLOCKS_WRITTEN_IN_PROGRESS` go up where a
reader or a writer is opened.  They go down in `read_all`, once its loop has ended without
an error, and in a `close` that succeeds, and nowhere else.  `gauges_balanced_iff` says
which calls keep the gauges equal to the number of streams in progress.

One call is one step: the reads and writes of a gauge by calls at the same time are not in
the model.
-/

namespace GooseFS

open Lib Option

/-- A reader that its owner has not dropped.  `ended` says that a call has returned the end
of the stream or an error. -/
structure HeldReader where
  reader : GrpcBlockReader
  ended : Bool

/-- The two gauges, and the streams that were opened; a stream that was dropped, closed or
cancelled leaves its place empty. -/
structure Streams where
  readGauge : Int
  writeGauge : Int
  readers : List (Option HeldReader)
  writers : List (Option GrpcBlockWriter)

inductive StreamAct where
  | openReader (opened : Except Error GrpcBlockReader)
  | readChunk (i : Nat)
  | readAll (i : Nat)
  | dropReader (i : Nat)
  | positionedRead (opened : Except Error ReadStream) (blockId : Int) (offset length : Nat)
  | openWriter (opened : Except Error Int64)
  | writeChunk (i : Nat) (accepted : Bool) (data : Bytes)
  | flush (i : Nat) (reply : FlushReply)
  | close (i : Nat) (reply : CloseReply)
  | cancel (i : Nat)
  | dropWriter (i : Nat)

namespace GrpcBlockReader

def delivers (r : GrpcBlockReader) : Bool :=
  match r.readChunk.1 with
  | .ok (some _) => true
  | _ => false

/-- The loop of `read_all` without its bytes: whether it ended without an error, and the
reader it leaves. -/
def drainLoop : Nat → GrpcBlockReader → Bool × GrpcBlockReader
  | 0, r => (true, r)
  | fuel + 1, r =>
    match r.readChunk with
    | (.error _, r) => (false, r)
    | (.ok none, r) => (true, r)
    | (.ok (some _), r) => drainLoop fuel r

def drain (r : GrpcBlockReader) : Bool × GrpcBlockReader := drainLoop (r.source.size + 1) r

theorem drainLoop_iff (fuel : Nat) (r r' : GrpcBlockReader) (buf : Bytes) :
    drainLoop fuel r = (true, r') ↔ ∃ out, readAllLoop fuel r buf = .ok (out, r') := by
  induction fuel generalizing r buf with
  | zero => simp [drainLoop, readAllLoop]
  | succ fuel ih =>
    rw [drainLoop, readAllLoop]
    rcases r.readChunk with ⟨_ | _ | chunk, r⟩
    · simp
    · simp
    · exact ih r (buf ++ chunk)

end GrpcBlockReader

namespace Streams

def start : Streams := ⟨0, 0, [], []⟩

def gaugeDown (v : Int) : Int := max (v - 1) 0

/-- `none` if there is no stream at the place. -/
def next (s : Streams) : StreamAct → Option Streams
  | .openReader (.error _) => some s
  | .openReader (.ok r) => some { s with
      readGauge := s.readGauge + 1
      readers := s.readers ++ [some ⟨r, false⟩] }
  | .readChunk i => s.readers[i]?.join.map fun h =>
      let h' : HeldReader := ⟨h.reader.readChunk.2, h.ended || !h.reader.delivers⟩
      { s with readers := s.readers.set i (some h') }
  | .readAll i => s.readers[i]?.join.map fun h =>
      { s with
        readGauge := if h.reader.drain.1 then gaugeDown s.readGauge else s.readGauge
        readers := s.readers.set i (some ⟨h.reader.drain.2, true⟩) }
  | .dropReader i => s.readers[i]?.join.map fun _ => { s with readers := s.readers.set i none }
  | .positionedRead (.error _) _ _ _ => some s
  -- the reader is built without the gauge and dropped at the end
  | .positionedRead (.ok stream) blockId offset length =>
    let r := GrpcBlockReader.openDirect blockId offset length stream
    some { s with readGauge := if r.drain.1 then gaugeDown s.readGauge else s.readGauge }
  | .openWriter (.error _) => some s
  | .openWriter (.ok blockId) => some { s with
      writeGauge := s.writeGauge + 1
      writers := s.writers ++ [some (GrpcBlockWriter.openStream blockId)] }
  | .writeChunk i accepted data => s.writers[i]?.join.map fun w =>
      { s with writers := s.writers.set i (some (w.writeChunk accepted data).2) }
  | .flush i reply => s.writers[i]?.join.map fun w =>
      { s with writers := s.writers.set i (some (w.flush reply).2) }
  | .close i reply => s.writers[i]?.join.map fun w =>
      { s with
        writeGauge := if (w.close reply).isOk then gaugeDown s.writeGauge else s.writeGauge
        writers := s.writers.set i none }
  | .cancel i => s.writers[i]?.join.map fun _ => { s with writers := s.writers.set i none }
  | .dropWriter i => s.writers[i]?.join.map fun _ => { s with writers := s.writers.set i none }

/-! ## Balance -/

def readerInProgress : Option HeldReader → Int
  | some h => if h.ended then 0 else 1
  | none => 0

def writerInProgress (w : Option GrpcBlockWriter) : Int := if w.isSome then 1 else 0

structure Balanced (s : Streams) : Prop where
  readers : s.readGauge = tally readerInProgress s.readers
  writers : s.writeGauge = tally writerInProgress s.writers

/-- A call after which the gauges count the streams in progress if they did before: a reader
ends in a `read_all` whose loop succeeds, a positioned read succeeds only while the gauge is
zero, and a writer ends in a `close` that succeeds. -/
def Matched (s : Streams) : StreamAct → Prop
  | .readChunk i => ∀ h, s.readers[i]?.join = some h → h.ended = true ∨ h.reader.delivers = true
  | .readAll i => ∀ h, s.readers[i]?.join = some h →
    if h.ended then h.reader.drain.1 = true → s.readGauge = 0 else h.reader.drain.1 = true
  | .dropReader i => ∀ h, s.readers[i]?.join = some h → h.ended = true
  | .positionedRead (.ok stream) blockId offset length =>
    (GrpcBlockReader.openDirect blockId offset length stream).drain.1 = true → s.readGauge = 0
  | .close i reply => ∀ w, s.writers[i]?.join = some w → (w.close reply).isOk = true
  | .cancel i => s.writers[i]?.join = none
  | .dropWriter i => s.writers[i]?.join = none
  | _ => True

variable {s s' : Streams} {i : Nat} {g : Int}

theorem readerInProgress_nonneg (h : Option HeldReader) : 0 ≤ readerInProgress h := by
  cases h with
  | none => exact Int.le_refl 0
  | some h => rw [readerInProgress]; split <;> decide

theorem writerInProgress_nonneg (w : Option GrpcBlockWriter) : 0 ≤ writerInProgress w := by
  rw [writerInProgress]
  split <;> decide

theorem getElem?_of_join {α : Type} {xs : List (Option α)} {x : α} (h : xs[i]?.join = some x) :
    xs[i]? = some (some x) := by
  cases hx : xs[i]? with
  | none => rw [hx] at h; cases h
  | some o => rw [hx] at h; exact congrArg some h

section

variable (hs : s.Balanced) {h : HeldReader} {w : GrpcBlockWriter}
include hs

theorem Balanced.reader_iff (h' : Option HeldReader) (g : Int) (hi : s.readers[i]?.join = some h) :
    Balanced { s with readGauge := g, readers := s.readers.set i h' } ↔
      g = s.readGauge - readerInProgress (some h) + readerInProgress h' := by
  have hset : tally readerInProgress (s.readers.set i h') = _ :=
    tally_set readerInProgress (getElem?_of_join hi)
  rw [hs.readers, ← hset]
  exact ⟨Balanced.readers, fun hg => ⟨hg, hs.writers⟩⟩

theorem Balanced.writer_iff (w' : Option GrpcBlockWriter) (g : Int)
    (hi : s.writers[i]?.join = some w) :
    Balanced { s with writeGauge := g, writers := s.writers.set i w' } ↔
      g = s.writeGauge - 1 + writerInProgress w' := by
  have hset : tally writerInProgress (s.writers.set i w') = _ :=
    tally_set writerInProgress (getElem?_of_join hi)
  rw [show (1 : Int) = writerInProgress (some w) from rfl, hs.writers, ← hset]
  exact ⟨Balanced.writers, fun hg => ⟨hs.readers, hg⟩⟩

theorem Balanced.readGauge_nonneg : 0 ≤ s.readGauge := by
  rw [hs.readers]
  exact tally_nonneg fun u _ => readerInProgress_nonneg u

theorem Balanced.reader_counted (hi : s.readers[i]?.join = some h) :
    readerInProgress (some h) ≤ s.readGauge := by
  rw [hs.readers]
  exact le_tally (fun u _ => readerInProgress_nonneg u)
    (List.mem_of_getElem? (getElem?_of_join hi))

theorem Balanced.writer_counted (hi : s.writers[i]?.join = some w) : 1 ≤ s.writeGauge := by
  have hmem := List.mem_of_getElem? (getElem?_of_join hi)
  have hle := le_tally (f := writerInProgress) (fun u _ => writerInProgress_nonneg u) hmem
  rw [hs.writers]
  exact hle

theorem Balanced.readAll_iff (hi : s.readers[i]?.join = some h) (r : GrpcBlockReader) (ok : Bool) :
    Balanced { s with
      readGauge := if ok then gaugeDown s.readGauge else s.readGauge
      readers := s.readers.set i (some ⟨r, true⟩) } ↔
      if h.ended then ok = true → s.readGauge = 0 else ok = true := by
  have hnonneg := hs.readGauge_nonneg
  have hcounted := hs.reader_counted hi
  rw [hs.reader_iff _ _ hi]
  cases hended : h.ended <;> cases ok <;>
    simp [readerInProgress, hended, gaugeDown] at hcounted ⊢ <;> omega

theorem Balanced.next_iff {a : StreamAct} (ha : s.next a = some s') :
    s'.Balanced ↔ s.Matched a := by
  cases a with
  | openReader opened =>
    cases opened with
    | error e => cases ha; exact iff_of_true hs trivial
    | ok r =>
      cases ha
      refine iff_of_true ⟨?_, hs.writers⟩ trivial
      show s.readGauge + 1 = tally readerInProgress (s.readers ++ [some ⟨r, false⟩])
      rw [tally_append, hs.readers]
      rfl
  | openWriter opened =>
    cases opened with
    | error e => cases ha; exact iff_of_true hs trivial
    | ok blockId =>
      cases ha
      refine iff_of_true ⟨hs.readers, ?_⟩ trivial
      show s.writeGauge + 1 =
        tally writerInProgress (s.writers ++ [some (GrpcBlockWriter.openStream blockId)])
      rw [tally_append, hs.writers]
      rfl
  | positionedRead opened blockId offset length =>
    cases opened with
    | error e => cases ha; exact iff_of_true hs trivial
    | ok stream =>
      cases ha
      have hnonneg := hs.readGauge_nonneg
      have hreaders := hs.readers
      rw [Matched]
      generalize (GrpcBlockReader.openDirect blockId offset length stream).drain.1 = ok
      constructor
      · intro h hok
        have hdown := h.readers
        simp only [hok, if_true, gaugeDown] at hdown
        omega
      · intro h
        refine ⟨?_, hs.writers⟩
        cases ok with
        | false => exact hreaders
        | true =>
          show gaugeDown s.readGauge = tally readerInProgress s.readers
          rw [← hreaders, h rfl]
          rfl
  | readChunk i =>
    obtain ⟨h, hi, rfl⟩ := map_eq_some_iff.1 ha
    rw [Matched, hs.reader_iff _ _ hi, hi]
    cases hended : h.ended <;> cases hd : h.reader.delivers <;>
      simp [readerInProgress, hended, hd] <;> omega
  | readAll i =>
    obtain ⟨h, hi, rfl⟩ := map_eq_some_iff.1 ha
    rw [Matched, hs.readAll_iff hi, hi]
    simp
  | dropReader i =>
    obtain ⟨h, hi, rfl⟩ := map_eq_some_iff.1 ha
    rw [Matched, hs.reader_iff _ _ hi, hi]
    cases hended : h.ended with
    | false => simp [readerInProgress, hended]; omega
    | true => simp [readerInProgress, hended]
  | writeChunk i accepted data | flush i reply =>
    obtain ⟨w, hi, rfl⟩ := map_eq_some_iff.1 ha
    refine iff_of_true ((hs.writer_iff _ _ hi).2 ?_) trivial
    simp [writerInProgress]
  | close i reply =>
    obtain ⟨w, hi, rfl⟩ := map_eq_some_iff.1 ha
    have hcounted := hs.writer_counted hi
    rw [Matched, hs.writer_iff _ _ hi, hi]
    cases hok : (w.close reply).isOk <;> simp [writerInProgress, hok, gaugeDown] <;> omega
  | cancel i | dropWriter i =>
    obtain ⟨w, hi, rfl⟩ := map_eq_some_iff.1 ha
    rw [Matched, hs.writer_iff _ _ hi, hi]
    simp [writerInProgress]
    omega

end

theorem balanced_start : start.Balanced := ⟨rfl, rfl⟩

/-- The gauges equal the numbers of readers and writers in progress in every state of a run
if and only if every call of the run is a matched one. -/
theorem gauges_balanced_iff (acts : List StreamAct) (s : Streams) :
    Guarded next (fun s a => ∀ s', s.next a = some s' → s'.Balanced) start acts s ↔
      Guarded next Matched start acts s := by
  have hstart := balanced_start
  generalize start = s₀ at hstart ⊢
  constructor
  · intro hrun
    induction hrun with
    | nil s => exact .nil s
    | cons hkept ha _ ih =>
      have hbalanced := hkept _ ha
      exact .cons ((hstart.next_iff ha).1 hbalanced) ha (ih hbalanced)
  · intro hrun
    induction hrun with
    | nil s => exact .nil s
    | cons hmatched ha _ ih =>
      refine .cons ?_ ha (ih ((hstart.next_iff ha).2 hmatched))
      intro s' ha'
      exact (hstart.next_iff ha').2 hmatched

/-- A positioned read that succeeds takes the gauge down for another reader, and a reader
that is dropped and a writer that is cancelled stay in it. -/
theorem gauges_unbalanced : (∃ s, Guarded next (fun _ _ => True) start
        [.openReader (.ok (.openDirect 1 0 4 ⟨[], []⟩)),
          .positionedRead (.ok ⟨[], [.ok ⟨some ⟨some [7]⟩⟩]⟩) 2 0 1] s ∧
      s.readGauge = 0 ∧ tally readerInProgress s.readers = 1) ∧
    (∃ s, Guarded next (fun _ _ => True) start
        [.openReader (.ok (.openDirect 1 0 4 ⟨[], []⟩)), .dropReader 0] s ∧
      s.readGauge = 1 ∧ tally readerInProgress s.readers = 0) ∧
    (∃ s, Guarded next (fun _ _ => True) start [.openWriter (.ok 1), .cancel 0] s ∧
      s.writeGauge = 1 ∧ tally writerInProgress s.writers = 0) := by
  refine ⟨?_, ?_, ?_⟩ <;> exact Guarded.exists_of_replay (by decide +kernel)

end Streams

end GooseFS
