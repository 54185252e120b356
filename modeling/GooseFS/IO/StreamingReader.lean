import GooseFS.IO.AsyncReader

/-!
# The streaming readers of the Python binding

`AsyncFileReader` and `FileReader` keep bytes that they have pulled from their
stream and not returned yet.  The position of a reader is that of the stream less
the bytes kept, and a reader is to be a cursor at this position: a call that raises
moves nothing.  It does where the error comes after the kept bytes were dropped or
after bytes were pulled (`raising_seek_moves`), and only there
(`reader_refines_cursor`).
-/

namespace GooseFS

open Lib Cursor List

inductive ReaderKind where
  | sync
  | async
  deriving DecidableEq, Repr

inductive Refusal where
  | tokio
  | asyncio
  deriving DecidableEq, Repr

def Refusal.message : Refusal → String
  | .tokio =>
    "sync streaming methods cannot be invoked from inside a Tokio runtime; " ++
      "use `AsyncFileReader` / `AsyncFileWriter` from your async code instead"
  | .asyncio =>
    "sync streaming methods cannot be invoked from inside an asyncio event loop; " ++
      "use the async streaming classes and `await` instead"

/-- What a call meets.  `outcomes` are those of its calls of the stream, in order; the
calls that are not listed hand out all that they are asked for. -/
structure CallOutcomes where
  refused : Option Refusal
  outcomes : List (Except String Nat)
  deriving DecidableEq

inductive PyCall where
  | read (size : Int)
  | readAt (offset : Int) (length : Nat)
  | seek (offset whence : Int)
  | tell
  deriving DecidableEq

inductive PyReply where
  | bytes (b : Bytes)
  | position (pos : Int)
  | raised (message : String)
  deriving DecidableEq

/-! ## The readers -/

def prefetchHintBytes : Nat := 1 <<< 20

/-- The loop of `pull_prefetched`.  `fuel` is more than the bytes that are left, so the
last turn finds the end of the file. -/
def pullLoop (target : Nat) :
    Nat → List (Except String Nat) → Cursor UInt8 → Bytes → Except String Bytes × Cursor UInt8
  | 0, _, stream, out => (.ok out, stream)
  | fuel + 1, outcomes, stream, out =>
    if out.length < target then
      match stream.read (target - out.length) (outcomes.head?.getD (.ok target)) with
      | (.error e, stream) => (.error e, stream)
      | (.ok [], stream) => (.ok out, stream)
      | (.ok (b :: bs), stream) => pullLoop target fuel outcomes.tail stream (out ++ b :: bs)
    else (.ok out, stream)

def pullPrefetched (stream : Cursor UInt8) (want : Nat) (outcomes : List (Except String Nat)) :
    Except String (Bytes × Bytes) × Cursor UInt8 :=
  match pullLoop (max want prefetchHintBytes) (stream.rest + 1) outcomes stream [] with
  | (.error e, stream) => (.error e, stream)
  | (.ok out, stream) => (.ok (out.take (min want out.length), out.drop (min want out.length)),
      stream)

/-- `PyFileReader` and `PyAsyncFileReader`, both with an open stream. -/
structure PyFileReader where
  kind : ReaderKind
  stream : Cursor UInt8
  prefetch : Bytes
  deriving DecidableEq

namespace PyFileReader

variable (r : PyFileReader)

def new (kind : ReaderKind) (stream : Cursor UInt8) : PyFileReader := ⟨kind, stream, []⟩

/-- Only the sync reader goes through `guarded_block_on`. -/
def guardedBlockOn (env : CallOutcomes) : Option String :=
  match r.kind with
  | .sync => env.refused.map Refusal.message
  | .async => none

def readAll (env : CallOutcomes) : PyReply × PyFileReader :=
  let parked := r.prefetch
  let r := { r with prefetch := [] }
  match r.guardedBlockOn env with
  | some message => (.raised message, r)
  | none =>
    match env.outcomes.head?.getD (.ok 0) with
    | .error e => (.raised e, r)
    | .ok _ => (.bytes (parked ++ r.stream.ahead r.stream.rest),
        { r with stream := r.stream.advance r.stream.rest })

def read (size : Int) (env : CallOutcomes) : PyReply × PyFileReader :=
  if size < 0 then r.readAll env
  else
    let want := size.toNat
    if r.prefetch ≠ [] then
      let take := min want r.prefetch.length
      (.bytes (r.prefetch.take take), { r with prefetch := r.prefetch.drop take })
    else
      match r.guardedBlockOn env with
      | some message => (.raised message, r)
      | none =>
        match pullPrefetched r.stream want env.outcomes with
        | (.error e, stream) => (.raised e, { r with stream := stream })
        | (.ok (head, remainder), stream) =>
          (.bytes head, { r with stream := stream, prefetch := remainder })

def readAt (offset : Int) (length : Nat) (env : CallOutcomes) : PyReply × PyFileReader :=
  if offset < 0 then (.raised "offset must be non-negative", r)
  else
    match r.guardedBlockOn env with
    | some message => (.raised message, r)
    | none =>
      match env.outcomes.head?.getD (.ok 0) with
      | .error e => (.raised e, r)
      | .ok _ => (.bytes (slice r.stream.content offset.toNat length), r)

def seekTarget (pos length : Nat) (offset whence : Int) : Int :=
  if whence = 0 then offset else if whence = 1 then pos + offset else length + offset

def seek (offset whence : Int) (env : CallOutcomes) : PyReply × PyFileReader :=
  if ¬ (0 ≤ whence ∧ whence ≤ 2) then
    (.raised s!"invalid whence value: {whence} (expected 0, 1, or 2)", r)
  else
    let logicalPos := r.stream.pos - r.prefetch.length
    -- the bytes kept are dropped before anything else is checked
    let r := { r with prefetch := [] }
    match r.guardedBlockOn env with
    | some message => (.raised message, r)
    | none =>
      if whence = 0 ∧ offset < 0 then
        (.raised "negative seek offset is invalid for whence=0 (SEEK_SET)", r)
      else
        match env.outcomes.head?.getD (.ok 0) with
        | .error e => (.raised e, r)
        | .ok _ =>
          let target := wrapInt64 (seekTarget logicalPos r.stream.content.length offset whence)
          let stream := r.stream.seekTo target
          (.position stream.pos, { r with stream := stream })

def tell : PyReply × PyFileReader := (.position (r.stream.pos - r.prefetch.length), r)

def call (env : CallOutcomes) : PyCall → PyReply × PyFileReader
  | .read size => r.read size env
  | .readAt offset length => r.readAt offset length env
  | .seek offset whence => r.seek offset whence env
  | .tell => r.tell

def step (x : PyCall × CallOutcomes) : Option PyFileReader := some (r.call x.2 x.1).2

def pos : Nat := r.stream.pos - r.prefetch.length

end PyFileReader

/-- What a call of a cursor at `p` may reply, and where it is after it. -/
def CursorCall (file : Bytes) (p : Nat) : PyCall → PyReply → Nat → Prop
  | .read size, .bytes b, p' =>
    p' = p + b.length ∧ b = slice file p b.length ∧
      if size < 0 then b = file.drop p
      else b.length ≤ size ∧ (b = [] → size = 0 ∨ file.length ≤ p)
  | .readAt offset length, .bytes b, p' => b = slice file offset.toNat length ∧ p' = p
  | .seek offset whence, .position q, p' =>
    q = max 0 (min (PyFileReader.seekTarget p file.length offset whence) file.length) ∧ q = p'
  | .tell, .position q, p' => q = p ∧ p' = p
  | _, .raised _, p' => p' = p
  | _, _, _ => False

namespace PyFileReader

/-- None of the calls of the stream fails and the guard lets the call through. -/
def Succeeds (r : PyFileReader) (env : CallOutcomes) : Prop :=
  r.guardedBlockOn env = none ∧ (env.outcomes.head?.getD (.ok 0)).isOk = true

/-- The error of a call, if there is one, comes before anything is dropped or pulled. -/
def Safe (r : PyFileReader) : PyCall × CallOutcomes → Prop
  | (.read size, env) =>
    if size < 0 then r.prefetch = [] ∨ r.Succeeds env
    else r.prefetch = [] → (env.outcomes.head?.getD (.ok 0)).isOk = true →
      ∀ o ∈ env.outcomes, o.isOk = true
  | (.seek offset whence, env) =>
    let target := seekTarget r.pos r.stream.content.length offset whence
    0 ≤ whence ∧ whence ≤ 2 → wrapInt64 target = target ∧
      (r.prefetch = [] ∨ r.Succeeds env ∧ ¬ (whence = 0 ∧ offset < 0))
  | _ => True

instance (r : PyFileReader) (env : CallOutcomes) : Decidable (r.Succeeds env) :=
  inferInstanceAs (Decidable (_ ∧ _))

instance (r : PyFileReader) (x : PyCall × CallOutcomes) : Decidable (r.Safe x) := by
  unfold Safe
  split <;> infer_instance

end PyFileReader

/-! ## Pulls -/

section

variable {target fuel k : Nat} {outcomes : List (Except String Nat)} {stream : Cursor UInt8}
  {out : Bytes}

theorem pullLoop_end (hlt : out.length < target) (ho : outcomes.head?.getD (.ok target) = .ok k)
    (hdata : stream.ahead (stream.granted (target - out.length) k) = []) :
    pullLoop target (fuel + 1) outcomes stream out =
      (.ok out, stream.advance (stream.granted (target - out.length) k)) := by
  rw [pullLoop, if_pos hlt, ho]
  simp only [Cursor.read, hdata]

theorem pullLoop_more (hlt : out.length < target) (ho : outcomes.head?.getD (.ok target) = .ok k)
    (hdata : stream.ahead (stream.granted (target - out.length) k) ≠ []) :
    pullLoop target (fuel + 1) outcomes stream out = pullLoop target fuel outcomes.tail
        (stream.advance (stream.granted (target - out.length) k))
        (out ++ stream.ahead (stream.granted (target - out.length) k)) := by
  rw [pullLoop, if_pos hlt, ho]
  cases hahead : stream.ahead (stream.granted (target - out.length) k) with
  | nil => exact (hdata hahead).elim
  | cons b bs => simp only [Cursor.read, hahead]

theorem pullLoop_failed {e : String} (hlt : out.length < target)
    (ho : outcomes.head?.getD (.ok target) = .error e) :
    pullLoop target (fuel + 1) outcomes stream out = (.error e, stream) := by
  rw [pullLoop, if_pos hlt, ho]
  simp only [Cursor.read]

end

theorem pullLoop_ok (target fuel : Nat) (outcomes : List (Except String Nat))
    (stream : Cursor UInt8) (out : Bytes) (hfuel : stream.rest < fuel)
    (hok : ∀ o ∈ outcomes, o.isOk = true) :
    pullLoop target fuel outcomes stream out =
      (.ok (out ++ stream.ahead (min (target - out.length) stream.rest)),
        stream.advance (min (target - out.length) stream.rest)) := by
  induction fuel generalizing outcomes stream out with
  | zero => exact (Nat.not_lt_zero _ hfuel).elim
  | succ fuel ih =>
    by_cases hlt : out.length < target
    · obtain ⟨k, ho⟩ : ∃ k, outcomes.head?.getD (.ok target) = .ok k := by
        cases outcomes with
        | nil => exact ⟨target, rfl⟩
        | cons o os =>
          have hhead := hok o mem_cons_self
          cases o with
          | error e => cases hhead
          | ok k => exact ⟨k, rfl⟩
      have hle := stream.granted_le_rest (target - out.length) k
      have hcap := stream.granted_le_cap (target - out.length) k
      have hlength := stream.length_ahead hle
      by_cases hdata : stream.ahead (stream.granted (target - out.length) k) = []
      · rw [pullLoop_end hlt ho hdata]
        -- nothing is handed out, so nothing is left
        have hnone : stream.granted (target - out.length) k = 0 := by
          rw [← hlength, hdata, length_nil]
        have hrest : stream.rest = 0 := by
          by_contra hne
          have hpos : 0 < stream.granted (target - out.length) k :=
            stream.granted_pos (by omega) (Nat.pos_of_ne_zero hne)
          omega
        rw [hnone, hrest, Nat.min_zero, stream.advance_zero]
        simp [ahead]
      · rw [pullLoop_more hlt ho hdata]
        have hpos : 0 < stream.granted (target - out.length) k := by
          rw [← hlength]
          exact length_pos_of_ne_nil hdata
        have hrest := stream.advance_rest hle
        rw [ih outcomes.tail _ _ (by omega) fun o ho => hok o (mem_of_mem_tail ho),
          append_assoc, stream.ahead_append hle, stream.advance_advance hle,
          length_append, hlength, hrest]
        have hsum : stream.granted (target - out.length) k +
            min (target - (out.length + stream.granted (target - out.length) k))
              (stream.rest - stream.granted (target - out.length) k) =
            min (target - out.length) stream.rest := by
          omega
        rw [hsum]
    · rw [pullLoop, if_neg hlt]
      have hzero : target - out.length = 0 := by omega
      rw [hzero, Nat.zero_min, stream.advance_zero]
      simp [ahead]

/-! ## Calls -/

namespace PyFileReader

variable {file : Bytes} {r : PyFileReader} {env : CallOutcomes} {offset size whence : Int}

/-- The bytes kept are those of the file in front of the position. -/
structure Anchored (file : Bytes) (r : PyFileReader) : Prop where
  content : r.stream.content = file
  le : r.prefetch.length ≤ r.stream.pos
  kept : r.prefetch = slice file r.pos r.prefetch.length

/-- A call goes as it would with a cursor, and the bytes kept stay anchored. -/
def Faithful (file : Bytes) (r : PyFileReader) (c : PyCall) (out : PyReply × PyFileReader) : Prop :=
  CursorCall file r.pos c out.1 out.2.pos ∧ out.2.Anchored file

theorem Anchored.raised (h : r.Anchored file) (c : PyCall) (message : String) :
    Faithful file r c (.raised message, r) := by
  refine ⟨?_, h⟩
  cases c <;> rfl

theorem anchored_of_nil {kind : ReaderKind} {stream : Cursor UInt8} (h : stream.content = file) :
    Anchored file ⟨kind, stream, []⟩ where
  content := h
  le := Nat.zero_le _
  kept := (slice_zero_len _ _).symm

theorem dropPrefetch_eq (h : r.prefetch = []) : { r with prefetch := [] } = r := by
  cases r
  cases h
  rfl

theorem readAll_of_succeeds (h : r.Succeeds env) :
    r.readAll env = (.bytes (r.prefetch ++ r.stream.ahead r.stream.rest),
      ⟨r.kind, r.stream.advance r.stream.rest, []⟩) := by
  obtain ⟨hguard, hok⟩ := h
  have hguard' : guardedBlockOn ⟨r.kind, r.stream, []⟩ env = none := hguard
  cases ho : env.outcomes.head?.getD (.ok 0) with
  | error e =>
    rw [ho] at hok
    cases hok
  | ok n => simp only [PyFileReader.readAll, hguard', ho]

theorem readAll_of_not_succeeds (h : ¬ r.Succeeds env) :
    ∃ message, r.readAll env = (.raised message, { r with prefetch := [] }) := by
  cases hguard : guardedBlockOn ⟨r.kind, r.stream, []⟩ env with
  | some message => exact ⟨message, by simp only [PyFileReader.readAll, hguard]⟩
  | none =>
    cases ho : env.outcomes.head?.getD (.ok 0) with
    | error e => exact ⟨e, by simp only [PyFileReader.readAll, hguard, ho]⟩
    | ok n => exact (h ⟨hguard, by rw [ho]; rfl⟩).elim

section

variable (h : r.Anchored file)
include h

theorem Anchored.kept_append (n : Nat) :
    r.prefetch ++ r.stream.ahead n = slice file r.pos (r.prefetch.length + n) := by
  have hpos : r.pos + r.prefetch.length = r.stream.pos := Nat.sub_add_cancel h.le
  rw [← slice_append, ← h.kept, hpos, ahead, h.content]

theorem Anchored.readAll (hsize : size < 0) (hsafe : r.prefetch = [] ∨ r.Succeeds env) :
    Faithful file r (.read size) (r.readAll env) := by
  by_cases hs : r.Succeeds env
  · have hpos : r.pos + r.prefetch.length = r.stream.pos := Nat.sub_add_cancel h.le
    have hend : r.stream.rest = file.length - r.stream.pos := by rw [rest, h.content]
    have hbytes := h.kept_append r.stream.rest
    have hlength : (r.prefetch ++ r.stream.ahead r.stream.rest).length =
        r.prefetch.length + r.stream.rest := by
      rw [length_append, length_ahead _ (Nat.le_refl _)]
    have hdrop : slice file r.pos (r.prefetch.length + r.stream.rest) = file.drop r.pos := by
      rw [slice, take_of_length_le]
      rw [length_drop]
      omega
    rw [readAll_of_succeeds hs]
    refine ⟨⟨?_, ?_, ?_⟩, anchored_of_nil h.content⟩
    · show (r.stream.advance r.stream.rest).pos - 0 = _
      rw [advance_pos _ (Nat.le_refl _), hlength]
      omega
    · rw [hlength, hbytes]
    · rw [if_pos hsize, hbytes, hdrop]
  · obtain ⟨message, heq⟩ := readAll_of_not_succeeds hs
    have hnil := hsafe.resolve_right hs
    rw [heq, dropPrefetch_eq hnil]
    exact h.raised _ _

theorem Anchored.readKept (hsize : ¬ size < 0) (hkept : r.prefetch ≠ []) {take : Nat}
    (htake : take = min size.toNat r.prefetch.length) : Faithful file r (.read size)
      (.bytes (r.prefetch.take take), { r with prefetch := r.prefetch.drop take }) := by
  have hle := h.le
  have hlen : take ≤ r.prefetch.length := by omega
  have hnonempty := length_pos_of_ne_nil hkept
  have hlength : (r.prefetch.take take).length = take := length_take_of_le hlen
  have hnewpos : pos { r with prefetch := r.prefetch.drop take } = r.pos + take := by
    simp only [pos, length_drop]
    omega
  refine ⟨⟨by rw [hnewpos, hlength], ?_, ?_⟩, ⟨h.content, ?_, ?_⟩⟩
  · rw [hlength, h.kept, take_slice, Nat.min_eq_left hlen]
  · rw [if_neg hsize, hlength]
    refine ⟨by omega, fun hnil => Or.inl ?_⟩
    rw [hnil, length_nil] at hlength
    omega
  · show (r.prefetch.drop take).length ≤ r.stream.pos
    rw [length_drop]
    omega
  · show r.prefetch.drop take = slice file _ (r.prefetch.drop take).length
    rw [hnewpos, length_drop]
    conv_lhs => rw [h.kept, drop_slice]

theorem Anchored.readPulled (hsize : ¬ size < 0) (hnil : r.prefetch = []) {n take : Nat}
    (hn : n ≤ r.stream.rest) (hwant : min size.toNat r.stream.rest ≤ n)
    (htake : take = min size.toNat (r.stream.ahead n).length) :
    Faithful file r (.read size) (.bytes ((r.stream.ahead n).take take),
      ⟨r.kind, r.stream.advance n, (r.stream.ahead n).drop take⟩) := by
  have hahead := r.stream.length_ahead hn
  have hpos : r.pos = r.stream.pos := by simp [pos, hnil]
  have hlen : take ≤ n := by omega
  have hlength : ((r.stream.ahead n).take take).length = take :=
    length_take_of_le (by omega)
  have hdrop : ((r.stream.ahead n).drop take).length = n - take := by
    rw [length_drop, hahead]
  have hnewpos : pos ⟨r.kind, r.stream.advance n, (r.stream.ahead n).drop take⟩ = r.pos + take := by
    simp only [pos, hdrop, advance_pos _ hn, hnil, length_nil]
    omega
  refine ⟨⟨by rw [hnewpos, hlength], ?_, ?_⟩, ⟨h.content, ?_, ?_⟩⟩
  · rw [hlength, ahead, h.content, take_slice, Nat.min_eq_left hlen, hpos]
  · rw [if_neg hsize, hlength]
    refine ⟨by omega, fun hnone => ?_⟩
    rw [hnone, length_nil] at hlength
    have hrest : r.stream.rest = file.length - r.stream.pos := by rw [rest, h.content]
    omega
  · show ((r.stream.ahead n).drop take).length ≤ (r.stream.advance n).pos
    rw [hdrop, advance_pos _ hn]
    omega
  · show (r.stream.ahead n).drop take = slice file _ ((r.stream.ahead n).drop take).length
    rw [hnewpos, hdrop, ahead, h.content, drop_slice, hpos]

theorem Anchored.read (hsafe : r.Safe (.read size, env)) :
    Faithful file r (.read size) (r.read size env) := by
  by_cases hsize : size < 0
  · rw [PyFileReader.read, if_pos hsize]
    rw [Safe, if_pos hsize] at hsafe
    exact h.readAll hsize hsafe
  rw [Safe, if_neg hsize] at hsafe
  rw [PyFileReader.read, if_neg hsize]
  by_cases hnil : r.prefetch = []
  · simp only [hnil, ne_eq, not_true_eq_false, if_false]
    split
    · exact h.raised _ _
    · have htarget : 0 < max size.toNat prefetchHintBytes :=
        Nat.lt_of_lt_of_le (by decide) (Nat.le_max_right _ _)
      cases ho : env.outcomes.head?.getD (.ok 0) with
      | error e =>
        -- the first read of the stream fails, so nothing is pulled
        have hfirst : env.outcomes.head?.getD (.ok (max size.toNat prefetchHintBytes)) =
            .error e := by
          cases hhead : env.outcomes.head? with
          | none =>
            rw [hhead] at ho
            cases ho
          | some o =>
            rw [hhead] at ho
            exact ho
        rw [pullPrefetched, pullLoop_failed htarget hfirst]
        show Faithful file r (.read size) (.raised e, { r with prefetch := [] })
        rw [dropPrefetch_eq hnil]
        exact h.raised _ _
      | ok k =>
        have hok := hsafe hnil (by rw [ho]; rfl)
        rw [pullPrefetched, pullLoop_ok _ _ _ _ _ (Nat.lt_succ_self _) hok]
        simp only [nil_append, length_nil, Nat.sub_zero]
        exact h.readPulled hsize hnil (Nat.min_le_right _ _) (by omega) rfl
  · simp only [hnil, ne_eq, not_false_eq_true, if_true]
    exact h.readKept hsize hnil rfl

theorem Anchored.readAt (offset : Int) (length : Nat) :
    Faithful file r (.readAt offset length) (r.readAt offset length env) := by
  unfold PyFileReader.readAt
  split
  · exact h.raised _ _
  · split
    · exact h.raised _ _
    · split
      · exact h.raised _ _
      · refine ⟨⟨?_, rfl⟩, h⟩
        rw [h.content]

end

theorem seek_of_succeeds (hwhence : 0 ≤ whence ∧ whence ≤ 2) (h : r.Succeeds env)
    (hoffset : ¬ (whence = 0 ∧ offset < 0)) :
    let target := wrapInt64 (seekTarget r.pos r.stream.content.length offset whence)
    r.seek offset whence env =
      (.position (r.stream.seekTo target).pos, ⟨r.kind, r.stream.seekTo target, []⟩) := by
  obtain ⟨hguard, hok⟩ := h
  have hguard' : guardedBlockOn ⟨r.kind, r.stream, []⟩ env = none := hguard
  cases ho : env.outcomes.head?.getD (.ok 0) with
  | error e =>
    rw [ho] at hok
    cases hok
  | ok n =>
    simp only [PyFileReader.seek, hwhence, and_self, not_true_eq_false, if_false, hguard',
      hoffset, ho, pos]

theorem seek_of_not_succeeds (hwhence : 0 ≤ whence ∧ whence ≤ 2)
    (h : ¬ (r.Succeeds env ∧ ¬ (whence = 0 ∧ offset < 0))) :
    ∃ message, r.seek offset whence env = (.raised message, { r with prefetch := [] }) := by
  cases hguard : guardedBlockOn ⟨r.kind, r.stream, []⟩ env with
  | some message =>
    refine ⟨message, ?_⟩
    simp only [PyFileReader.seek, hwhence, and_self, not_true_eq_false, if_false, hguard]
  | none =>
    by_cases hoffset : whence = 0 ∧ offset < 0
    · refine ⟨"negative seek offset is invalid for whence=0 (SEEK_SET)", ?_⟩
      rw [PyFileReader.seek, if_neg (not_not_intro hwhence)]
      simp only [hguard, if_pos hoffset]
    · cases ho : env.outcomes.head?.getD (.ok 0) with
      | error e =>
        refine ⟨e, ?_⟩
        rw [PyFileReader.seek, if_neg (not_not_intro hwhence)]
        simp only [hguard, if_neg hoffset, ho]
      | ok n => exact (h ⟨⟨hguard, by rw [ho]; rfl⟩, hoffset⟩).elim

theorem Anchored.seek (h : r.Anchored file) (hsafe : r.Safe (.seek offset whence, env)) :
    Faithful file r (.seek offset whence) (r.seek offset whence env) := by
  by_cases hwhence : 0 ≤ whence ∧ whence ≤ 2
  · obtain ⟨hrange, hearly⟩ := hsafe hwhence
    by_cases hs : r.Succeeds env ∧ ¬ (whence = 0 ∧ offset < 0)
    · rw [seek_of_succeeds hwhence hs.1 hs.2, hrange]
      refine ⟨⟨?_, rfl⟩, anchored_of_nil h.content⟩
      simp only [seekTo, h.content]
      omega
    · obtain ⟨message, heq⟩ := seek_of_not_succeeds hwhence hs
      rw [heq, dropPrefetch_eq (hearly.resolve_right hs)]
      exact h.raised _ _
  · rw [PyFileReader.seek, if_pos hwhence]
    exact h.raised _ _

theorem Anchored.tell (h : r.Anchored file) : Faithful file r .tell r.tell := by
  refine ⟨⟨?_, rfl⟩, h⟩
  have hle := h.le
  simp only [pos]
  omega

theorem Anchored.call (h : r.Anchored file) {c : PyCall} (hsafe : r.Safe (c, env)) :
    Faithful file r c (r.call env c) := by
  cases c with
  | read size => exact h.read hsafe
  | readAt offset length => exact h.readAt offset length
  | seek offset whence => exact h.seek hsafe
  | tell => exact h.tell

/-- In every sequence of calls whose errors, if any, come before something is dropped or
pulled, each call goes as it would with a cursor over the file. -/
theorem reader_refines_cursor (kind : ReaderKind) (stream : Cursor UInt8)
    (calls : List (PyCall × CallOutcomes)) (r : PyFileReader)
    (h : Guarded step Safe (new kind stream) calls r) (c : PyCall) (env : CallOutcomes)
    (hsafe : r.Safe (c, env)) :
    CursorCall stream.content r.pos c (r.call env c).1 (r.call env c).2.pos := by
  have hr : r.Anchored stream.content := by
    refine h.invariant ?_ (anchored_of_nil rfl)
    rintro r ⟨c, env⟩ r' hr hsafe ⟨⟩
    exact (hr.call hsafe).2
  exact (hr.call hsafe).1

def quiet : CallOutcomes := ⟨none, []⟩

/-- A read that keeps four bytes, one that is served from them, a relative seek, and a
positioned read that fails. -/
def mixedCalls : List (PyCall × CallOutcomes) :=
  [(.read 2, quiet), (.read 1, quiet), (.seek (-1) 1, quiet),
    (.readAt 0 3, ⟨none, [.error "unavailable"]⟩)]

theorem reader_refines_cursor_mixedCalls :
    ∃ r, Guarded step Safe (new .sync Delivery.sixBytes) mixedCalls r ∧ r.pos = 2 ∧
      CursorCall Delivery.sixBytes.content r.pos (.read (-1)) (r.call quiet (.read (-1))).1
        (r.call quiet (.read (-1))).2.pos := by
  obtain ⟨r, hrun, hpos, hsafe⟩ :
      ∃ r, Guarded step Safe (new .sync Delivery.sixBytes) mixedCalls r ∧ r.pos = 2 ∧
        r.Safe (.read (-1), quiet) :=
    Guarded.exists_of_replay (by decide +kernel)
  exact ⟨r, hrun, hpos,
    reader_refines_cursor .sync Delivery.sixBytes mixedCalls r hrun (.read (-1)) quiet hsafe⟩

/-- The reader is at 2 with four bytes kept.  A seek to a negative offset raises, and the
reader is at the end of the file. -/
theorem raising_seek_moves :
    ∃ r, Guarded step (fun _ _ => True) (new .async Delivery.sixBytes) [(.read 2, quiet)] r ∧
      r.pos = 2 ∧ (r.call quiet (.seek (-1) 0)).1 =
        .raised "negative seek offset is invalid for whence=0 (SEEK_SET)" ∧
      (r.call quiet (.seek (-1) 0)).2.pos = 6 :=
  Guarded.exists_of_replay (by decide +kernel)

end PyFileReader

end GooseFS
