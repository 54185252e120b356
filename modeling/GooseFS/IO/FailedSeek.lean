import GooseFS.IO.Cursor

/-!
# Seeks that fail

A forward seek inside the open block stream skips bytes, and fails if the stream
does.  Before that it has dropped the bytes parked in `carryOver`, and the
position that a caller sees lies behind them afterwards.  The bytes that were
skipped before the failure do no harm: a drain task forwards nothing after an
error, so the stream never yields another byte at the wrong place.

The workers here may fail at any point but send no wrong bytes.  `Follows` is
what then holds of every state of a stream, and `failed_seek_harmless_iff` says
that a failed seek has no effect exactly if there were no parked bytes.
-/

namespace GooseFS

open Lib List Option ChunkSource

/-- The drain task: it forwards the frames and then what ended the stream. -/
def drainTask : List (Except Error ReadResponse) → List StreamItem
  | [] => [.streamEnd]
  | .error e :: _ => [.error e]
  | .ok resp :: rest => .data resp :: drainTask rest

def EndsClean : List StreamItem → Prop
  | [] => True
  | .data _ :: rest => EndsClean rest
  | .streamEnd :: rest => rest = []
  | .error _ :: rest => rest = []

theorem endsClean_of_drainTask : ∀ {frames : List (Except Error ReadResponse)} {items : List StreamItem},
    items <+: drainTask frames → EndsClean items := by
  intro frames
  induction frames with
  | nil =>
    intro items h
    rcases prefix_cons_iff.mp h with rfl | ⟨rest, rfl, hrest⟩
    · exact trivial
    · exact prefix_nil.mp hrest
  | cons frame frames ih =>
    intro items h
    cases frame with
    | error e =>
      rcases prefix_cons_iff.mp h with rfl | ⟨rest, rfl, hrest⟩
      · exact trivial
      · exact prefix_nil.mp hrest
    | ok resp =>
      rcases prefix_cons_iff.mp h with rfl | ⟨rest, rfl, hrest⟩
      · exact trivial
      · have hends : EndsClean rest := ih hrest
        exact hends

theorem EndsClean.pullBuffered (closed : Error) : ∀ {items : List StreamItem}, EndsClean items →
    EndsClean (pullBuffered closed items).2 ∧ ((∀ d, (pullBuffered closed items).1 ≠ .ok (some d)) →
        (pullBuffered closed items).2 = []) := by
  intro items
  induction items with
  | nil => exact fun _ => ⟨trivial, fun _ => rfl⟩
  | cons item rest ih =>
    intro h
    cases item with
    | streamEnd | error e =>
      have hrest : rest = [] := h
      exact ⟨by rw [hrest]; exact trivial, fun _ => hrest⟩
    | data resp =>
      rw [ChunkSource.pullBuffered]
      rcases classify_some resp with ⟨hc, _⟩ | ⟨hc, _⟩
      · rw [hc]
        exact ih h
      · rw [hc]
        exact ⟨h, fun hno => absurd rfl (hno resp.payload)⟩

/-- Sequential streams come from a drain task, and what they deliver are bytes of
the range asked for, though perhaps not all of them. -/
def StreamRun.Truthful (store : Int → Bytes) (run : StreamRun) : Prop :=
  ∀ req s, run.sequential req = .ok s ∨ run.freshSequential req = .ok s →
    (∃ frames, s.items <+: drainTask frames) ∧ bufferedBytes s.items <+: req.bytes store

structure StreamWorld.Truthful (w : StreamWorld) (store : Int → Bytes) (file : Bytes)
    (st : GoosefsFileInStream) : Prop where
  runs : ∀ n, (w.runs n).Truthful store
  blocks : st.Holds store file

namespace GoosefsFileInStream

/-! ## Streams that may break off -/

/-- Whatever `r` still delivers are the bytes of the file from `p` on. -/
structure Feeds (file : Bytes) (r : GrpcBlockReader) (p : Nat) : Prop where
  source : ∃ items, r.source = .buffered items ∧ EndsClean items
  bytes : (∃ m, r.source.bytes <+: slice file p m) ∨ r.length ≤ r.bytesReceived

section Feeds

variable {file : Bytes} {r : GrpcBlockReader} {p : Nat}

theorem Feeds.stopped (hsource : r.source = .buffered []) (q : Nat) : Feeds file r q where
  source := ⟨[], hsource, trivial⟩
  bytes := .inl ⟨0, by rw [hsource]; exact nil_prefix⟩

theorem Feeds.readChunk (h : Feeds file r p) :
    (∃ d r', r.readChunk = (.ok (some d), r') ∧ d = slice file p d.length ∧
      r'.source.size < r.source.size ∧ Feeds file r' (p + d.length)) ∨
      ((∀ d, r.readChunk.1 ≠ .ok (some d)) ∧ ∀ q, Feeds file r.readChunk.2 q) := by
  obtain ⟨⟨items, hsource, hends⟩, hbytes⟩ := h
  by_cases hdone : r.length ≤ r.bytesReceived
  · rw [GrpcBlockReader.readChunk_of_complete hdone]
    exact .inr ⟨by simp, fun q => ⟨⟨items, hsource, hends⟩, .inr hdone⟩⟩
  · obtain ⟨m, hbytes⟩ := hbytes.resolve_right hdone
    have hspec := pullBuffered_spec
      (drainTaskEnded r.blockId r.bytesReceived r.length) items
    obtain ⟨hends', hstop⟩ := hends.pullBuffered
      (drainTaskEnded r.blockId r.bytesReceived r.length)
    rw [hsource] at hbytes
    rw [GrpcBlockReader.readChunk, if_neg hdone, hsource, pull]
    rcases hpull : pullBuffered (drainTaskEnded r.blockId r.bytesReceived r.length) items
      with ⟨_ | _ | d, items'⟩
    · rw [hpull] at hstop
      cases hstop (by simp)
      exact .inr ⟨by simp, Feeds.stopped rfl⟩
    · rw [hpull] at hstop
      cases hstop (by simp)
      exact .inr ⟨by simp, Feeds.stopped rfl⟩
    · rw [hpull] at hspec hends'
      rcases hspec with ⟨d', hd, _, hsplit, hlt⟩ | ⟨hno, _⟩
      · cases hd
        have hkeeps := r.deliver_keeps d (.buffered items')
        have hfront : d <+: slice file p m := by
          refine IsPrefix.trans ?_ hbytes
          rw [ChunkSource.bytes, hsplit]
          exact prefix_append ..
        refine .inl ⟨d, _, rfl, eq_slice_of_front hfront, ?_, ?_, .inl ⟨m - d.length, ?_⟩⟩
        · rw [hkeeps.1]
          exact hlt
        · exact ⟨items', hkeeps.1, hends'⟩
        · obtain ⟨rest, hrest⟩ := hbytes
          have hrest : slice file p m = d ++ (bufferedBytes items' ++ rest) := by
            rw [← hrest, ChunkSource.bytes, hsplit, append_assoc]
          rw [hkeeps.1, ← drop_slice, hrest, drop_left]
          exact prefix_append ..
      · exact absurd rfl (hno d)

theorem Feeds.skipLoop : ∀ {fuel : Nat} {r : GrpcBlockReader} {p : Nat} (k : Nat), Feeds file r p →
    r.source.size < fuel →
      (∃ carry r', skipLoop fuel r k = (.ok carry, r') ∧ carry = slice file (p + k) carry.length ∧
        Feeds file r' (p + k + carry.length)) ∨
      (∃ e r', skipLoop fuel r k = (.error e, r') ∧ ∀ q, Feeds file r' q) := by
  intro fuel
  induction fuel with
  | zero =>
    intro r p k _ hfuel
    omega
  | succ fuel ih =>
    intro r p k h hfuel
    rw [GoosefsFileInStream.skipLoop]
    by_cases hzero : k = 0
    · subst hzero
      exact .inl ⟨[], r, by rw [if_pos rfl], (slice_zero_len file _).symm, h⟩
    · rw [if_neg hzero]
      rcases h.readChunk with ⟨d, r', hread, hd, hsize, hfeeds⟩ | ⟨hno, hfeeds⟩
      · simp only [hread]
        by_cases hover : k < d.length
        · obtain ⟨hcarry, hpos⟩ := drop_chunk hd hover
          exact .inl ⟨d.drop k, r', by rw [if_pos hover], hcarry, by rw [hpos]; exact hfeeds⟩
        · have hpos : p + d.length + (k - d.length) = p + k := by omega
          rw [if_neg hover, ← hpos]
          exact ih (k - d.length) hfeeds (by omega)
      · rcases hread : r.readChunk with ⟨_ | _ | d, r'⟩
        · rw [hread] at hfeeds
          exact .inr ⟨_, _, rfl, hfeeds⟩
        · rw [hread] at hfeeds
          exact .inl ⟨[], r', rfl, (slice_zero_len file _).symm, hfeeds _⟩
        · rw [hread] at hno
          exact absurd rfl (hno d)

end Feeds

/-! ## The states of a stream -/

/-- The open stream delivers the bytes behind the internal position, as far as it
delivers any. -/
structure Follows (file : Bytes) (st : GoosefsFileInStream) : Prop extends Parks file st where
  stream : ∀ r, st.blockInStream = some r → Feeds file r st.pos

section Follows

variable {file : Bytes} {st : GoosefsFileInStream} {r : GrpcBlockReader} {st' : GoosefsFileInStream}

theorem follows_idle (hbs : 0 < st.status.blockSizeBytes) (hnil : st.carryOver = [])
    (hnone : st.blockInStream = none) : Follows file st where
  toParks := parks_of_nil hbs hnil fun _ _ => hnone
  stream := fun r hr => by rw [hnone] at hr; cases hr

/-- What a seek from a state that follows the file comes to.  If it fails, the
parked bytes are gone and the open stream has stopped. -/
theorem Follows.seek (h : Follows file st) (t : Int) :
    Follows file (st.seek t).2 ∧ SameFile st (st.seek t).2 ∧
      ∀ e, (st.seek t).1 = .error e → (st.seek t).2.carryOver = [] ∧ (st.seek t).2.pos = st.pos ∧
        st.blockInStream.isSome := by
  unfold GoosefsFileInStream.seek
  generalize (max 0 (min t st.fileLength)).toNat = target
  simp only
  split
  · exact ⟨h, ⟨rfl, rfl, rfl⟩, fun e he => by cases he⟩
  · split
    · cases hstream : st.blockInStream with
      | none =>
        exact ⟨follows_idle h.blockSize rfl rfl, ⟨rfl, rfl, rfl⟩, fun e he => by cases he⟩
      | some r =>
        simp only
        split
        · rename_i hlt
          rcases (h.stream r hstream).skipLoop (target - st.pos) (Nat.lt_succ_self _) with
            ⟨carry, r', hloop, hcarry, hfeeds⟩ | ⟨e, r', hloop, hfeeds⟩
          · have hpos : st.pos + (target - st.pos) = target := by omega
            rw [hpos] at hcarry hfeeds
            rw [hloop]
            refine ⟨⟨h.park (by simp [hstream]) hcarry r', ?_⟩, ⟨rfl, rfl, rfl⟩,
              fun e he => by cases he⟩
            intro r'' hr''
            cases hr''
            exact hfeeds
          · rw [hloop]
            refine ⟨⟨parks_of_nil h.blockSize rfl fun hc hs => (h.no_cache hstream hc hs).elim, ?_⟩,
              ⟨rfl, rfl, rfl⟩, fun _ _ => ⟨rfl, rfl, rfl⟩⟩
            intro r'' hr''
            cases hr''
            exact hfeeds _
        · exact ⟨follows_idle h.blockSize rfl rfl, ⟨rfl, rfl, rfl⟩, fun e he => by cases he⟩
    · exact ⟨follows_idle h.blockSize rfl rfl, ⟨rfl, rfl, rfl⟩, fun e he => by cases he⟩

/-- The read of `n` bytes that came to `out` keeps to the file. -/
structure KeepsOn (file : Bytes) (st : GoosefsFileInStream) (n : Nat)
    (out : Except Error Bytes × GoosefsFileInStream) : Prop where
  follows : Follows file out.2
  same : SameFile st out.2
  reads : CursorStep file False False st.userPos (.read n) (Reply.ofRead out.1) out.2.userPos

theorem keepsOn_error (h' : Follows file st') (hsame : SameFile st st')
    (hpos : st'.userPos = st.userPos) (n : Nat) (e : Error) : KeepsOn file st n (.error e, st') :=
  ⟨h', hsame, fun h => h, hpos⟩

theorem keepsOn_nothing (h' : Follows file st') (hsame : SameFile st st')
    (hpos : st'.userPos = st.userPos) (n : Nat) : KeepsOn file st n (.ok [], st') :=
  ⟨h', hsame, (slice_zero_len file _).symm, Nat.zero_le _, hpos, fun h => h.elim⟩

theorem Follows.takeCarry (h : Follows file st) (n : Nat) :
    KeepsOn file st n (.ok (st.carryOver.take n), { st with carryOver := st.carryOver.drop n }) := by
  obtain ⟨htake, huser, hparks⟩ := h.toParks.take n
  exact ⟨{ hparks, h with }, ⟨rfl, rfl, rfl⟩, htake, length_take_le .., huser, fun hf => hf.elim⟩

theorem Follows.takeChunk (h : Follows file st) (hnil : st.carryOver = [])
    (hstream : st.blockInStream ≠ none) {d : Bytes} (hd : d = slice file st.pos d.length)
    (hfeeds : Feeds file r (st.pos + d.length)) (n : Nat) :
    KeepsOn file st n (.ok (st.takeChunk r d n).1, (st.takeChunk r d n).2) := by
  -- all of the chunk is parked first, and then taken from there
  let parked : GoosefsFileInStream :=
    { st with blockInStream := some r, carryOver := d, pos := st.pos + d.length }
  have hparked : Follows file parked := by
    refine ⟨h.park hstream hd r, fun r' hr' => ?_⟩
    cases hr'
    exact hfeeds
  have htake := hparked.takeCarry n
  have hreads := htake.reads
  rw [(userPos_parked st r d st.pos).trans (userPos_of_nil hnil).symm] at hreads
  unfold GoosefsFileInStream.takeChunk
  simp only
  split
  · refine ⟨{ htake.follows with cached := fun _ _ => rfl, stream := fun r' hr' => ?_ },
      ⟨rfl, rfl, rfl⟩, hreads⟩
    cases hr'
  · exact ⟨htake.follows, ⟨rfl, rfl, rfl⟩, hreads⟩

theorem Follows.readFromSequentialStream (h : Follows file st) (hnil : st.carryOver = []) (n : Nat) :
    KeepsOn file st n (st.readFromSequentialStream n) := by
  unfold GoosefsFileInStream.readFromSequentialStream
  cases hstream : st.blockInStream with
  | none => exact keepsOn_nothing h ⟨rfl, rfl, rfl⟩ rfl n
  | some r =>
    simp only
    rcases (h.stream r hstream).readChunk with ⟨d, r', hread, hd, _, hfeeds⟩ | ⟨hno, hfeeds⟩
    · rw [hread]
      exact h.takeChunk hnil (by simp [hstream]) hd hfeeds n
    · rcases hread : r.readChunk with ⟨_ | _ | d, r'⟩
      · rw [hread] at hfeeds
        have hstopped : Follows file { st with blockInStream := some r' } :=
          { h with
            cached := fun hc hs => (h.no_cache hstream hc hs).elim
            stream := fun r'' hr'' => by
              cases hr''
              exact hfeeds _ }
        have hsame : SameFile st { st with blockInStream := some r' } := ⟨rfl, rfl, rfl⟩
        exact keepsOn_error hstopped hsame rfl n _
      · have hdropped : Follows file st.dropStream := follows_idle h.blockSize hnil rfl
        have hsame : SameFile st st.dropStream := ⟨rfl, rfl, rfl⟩
        exact keepsOn_nothing hdropped hsame rfl n
      · rw [hread] at hno
        exact absurd rfl (hno d)

variable {w : StreamWorld} {store : Int → Bytes}

theorem SameFile.truthful (h : SameFile st st') (hw : w.Truthful store file st) :
    w.Truthful store file st' := ⟨hw.runs, h.holds hw.blocks⟩

theorem openSequential_feeds {run : StreamRun} (hbs : 0 < st.status.blockSizeBytes)
    (hrun : run.Truthful store) (hblocks : st.Holds store file) {tuning : ReadTuning} {blockId : Int}
    {offset n : Nat} (hid : st.blockIdAt (st.blockIndexForPos offset) = .ok blockId)
    (hend : offset + n ≤ st.blockStart (st.blockIndexForPos offset) + st.status.blockSizeBytes)
    (h : run.openSequential tuning (st.request blockId offset n) = .ok r) :
    Feeds file r offset := by
  obtain ⟨s, hs, rfl⟩ := StreamRun.openSequential_ok h
  obtain ⟨⟨frames, hitems⟩, hbytes⟩ := hrun _ s hs
  rw [hblocks.request_bytes hbs hid hend] at hbytes
  exact ⟨⟨s.items, rfl, endsClean_of_drainTask hitems⟩, .inl ⟨_, hbytes⟩⟩

theorem Follows.readStreaming (h : Follows file st) (hnil : st.carryOver = [])
    (hnocache : st.cache.isSome → st.cacheSequentialRead = true → False)
    (hw : w.Truthful store file st) (n : Nat) (io : StreamIo) :
    KeepsOn file st n ((st.readStreaming w n io).1, (st.readStreaming w n io).2.1) := by
  unfold GoosefsFileInStream.readStreaming ensureStream
  cases hid : st.blockIdAt (st.blockIndexForPos st.pos) with
  | error e => exact keepsOn_error h ⟨rfl, rfl, rfl⟩ rfl n e
  | ok blockId =>
    by_cases hsame : st.blockInStreamBlockId = blockId
    · simp only [hsame, ne_eq, not_true, if_false]
      exact h.readFromSequentialStream hnil n
    · cases hopen : (w.runs io.calls).openSequential st.tuning
          (st.request blockId st.pos (st.remainingInBlock st.pos)) with
      | error e =>
        simp only [hsame, hopen, ne_eq, not_false_iff, if_true]
        exact keepsOn_error h ⟨rfl, rfl, rfl⟩ rfl n e
      | ok r =>
        simp only [hsame, hopen, ne_eq, not_false_iff, if_true]
        have hfeeds := openSequential_feeds h.blockSize (hw.runs io.calls) hw.blocks hid
          (remainingInBlock_le h.blockSize _) hopen
        let opened := { st with blockInStream := some r, blockInStreamBlockId := blockId }
        have hopened : Follows file opened :=
          { h with
            cached := fun hc hs => (hnocache hc hs).elim
            stream := fun r' hr' => by
              cases hr'
              exact hfeeds }
        have hread := hopened.readFromSequentialStream hnil n
        exact ⟨hread.follows, hread.same, hread.reads⟩

/-- A read follows the file, and without cached sequential reads it delivers the
bytes at the position. -/
theorem Follows.read (h : Follows file st) (hw : w.Truthful store file st) (n : Nat)
    (io : StreamIo) :
    Follows file (st.read w n io).2.1 ∧ SameFile st (st.read w n io).2.1 ∧
      (st.cache.filter (fun _ => st.cacheSequentialRead) = none →
        KeepsOn file st n ((st.read w n io).1, (st.read w n io).2.1)) := by
  have hof : ∀ {out : Except Error Bytes × GoosefsFileInStream × StreamIo} {P : Prop},
      KeepsOn file st n (out.1, out.2.1) → Follows file out.2.1 ∧ SameFile st out.2.1 ∧
        (P → KeepsOn file st n (out.1, out.2.1)) :=
    fun hk => ⟨hk.follows, hk.same, fun _ => hk⟩
  unfold GoosefsFileInStream.read
  split
  · exact hof (keepsOn_nothing h ⟨rfl, rfl, rfl⟩ rfl n)
  · split
    · exact hof (h.takeCarry n)
    · rename_i hcarry
      have hnil := not_not.mp hcarry
      split
      · exact hof (keepsOn_nothing h ⟨rfl, rfl, rfl⟩ rfl n)
      · cases hc : st.cache.filter fun _ => st.cacheSequentialRead with
        | some c =>
          -- the cached path keeps no stream and parks nothing
          obtain ⟨hmem, hseq⟩ := mem_filter_iff.mp hc
          have hnone := h.cached (isSome_iff_exists.mpr ⟨c, hmem⟩) hseq
          simp only
          unfold readCached
          split
          · exact ⟨h, ⟨rfl, rfl, rfl⟩, fun hf => by cases hf⟩
          · exact ⟨follows_idle h.blockSize hnil hnone, ⟨rfl, rfl, rfl⟩, fun hf => by cases hf⟩
        | none =>
          refine hof (h.readStreaming hnil ?_ hw n io)
          intro hsome hseq
          obtain ⟨c, hcache⟩ := isSome_iff_exists.mp hsome
          rw [hcache, filter_some, if_pos hseq] at hc
          cases hc

/-! ## Runs -/

def after (w : StreamWorld) : GoosefsFileInStream → StreamIo → List Op →
    GoosefsFileInStream × StreamIo
  | st, io, [] => (st, io)
  | st, io, op :: rest => after w (step w st io op).2.1 (step w st io op).2.2 rest

theorem Follows.step (h : Follows file st) (hw : w.Truthful store file st) (op : Op)
    (io : StreamIo) :
    Follows file (step w st io op).2.1 ∧ SameFile st (step w st io op).2.1 := by
  cases op with
  | read n => exact ⟨(h.read hw n io).1, (h.read hw n io).2.1⟩
  | seek t => exact ⟨(h.seek t).1, (h.seek t).2.1⟩
  | readAt offset n => exact ⟨h, rfl, rfl, rfl⟩

theorem Follows.after : ∀ (ops : List Op) {st : GoosefsFileInStream} (io : StreamIo),
    Follows file st → w.Truthful store file st →
      Follows file (after w st io ops).1 ∧ SameFile st (after w st io ops).1 := by
  intro ops
  induction ops with
  | nil => exact fun _ h _ => ⟨h, rfl, rfl, rfl⟩
  | cons op rest ih =>
    intro st io h hw
    obtain ⟨hnext, hsame⟩ := h.step hw op io
    obtain ⟨hlast, hsame'⟩ := ih _ hnext (hsame.truthful hw)
    exact ⟨hlast, hsame'.1.trans hsame.1, hsame'.2.1.trans hsame.2.1, hsame'.2.2.trans hsame.2.2⟩

theorem Follows.reads : ∀ (ns : List Nat) {st : GoosefsFileInStream} {io : StreamIo},
    Follows file st → w.Truthful store file st →
      st.cache.filter (fun _ => st.cacheSequentialRead) = none →
        CursorRun file False False st.userPos (trace w st io (ns.map Op.read)) := by
  intro ns
  induction ns with
  | nil => exact fun _ _ _ => trivial
  | cons n ns ih =>
    intro st io h hw hnocache
    obtain ⟨hnext, hsame, hread⟩ := h.read hw n io
    have hnocache' : (st.read w n io).2.1.cache.filter
        (fun _ => (st.read w n io).2.1.cacheSequentialRead) = none := by
      rw [hsame.2.1, hsame.2.2]
      exact hnocache
    exact ⟨(hread hnocache).reads, ih hnext (hsame.truthful hw) hnocache'⟩

theorem Follows.failed_seek (h : Follows file st) (hw : w.Truthful store file st)
    {t : Int} {e : Error} (hfail : (st.seek t).1 = .error e) (io : StreamIo) :
    ((st.seek t).2.userPos = st.userPos ∧ ∀ ns : List Nat,
        CursorRun file False False st.userPos (trace w (st.seek t).2 io (ns.map Op.read))) ↔
      st.carryOver = [] := by
  obtain ⟨hnext, hsame, hdone⟩ := h.seek t
  obtain ⟨hnil, hpos, hopen⟩ := hdone e hfail
  have huser : (st.seek t).2.userPos = st.pos := (userPos_of_nil hnil).trans hpos
  have hle := h.carryLe
  constructor
  · rintro ⟨hkept, _⟩
    have hsub : st.userPos = st.pos - st.carryOver.length := rfl
    exact length_eq_zero_iff.mp (by omega)
  · intro hcarry
    have hkept : (st.seek t).2.userPos = st.userPos := by rw [huser, userPos_of_nil hcarry]
    refine ⟨hkept, fun ns => ?_⟩
    rw [← hkept]
    refine hnext.reads ns (hsame.truthful hw) ?_
    -- a stream is open, so sequential reads do not go through the cache
    rw [hsame.2.1, hsame.2.2]
    cases hc : st.cache.filter fun _ => st.cacheSequentialRead with
    | none => rfl
    | some c =>
      obtain ⟨hmem, hseq⟩ := mem_filter_iff.mp hc
      rw [h.cached (isSome_iff_exists.mpr ⟨c, hmem⟩) hseq] at hopen
      cases hopen

/-- In every state of every run: a seek that fails leaves the position where it
was, and the next reads deliver the bytes from there, exactly if no bytes were
parked. -/
theorem failed_seek_harmless_iff (status : URIStatus) (hbs : 0 < status.blockSizeBytes)
    (cache : Option PageCache) (cacheSequentialRead : Bool) (tuning : ReadTuning) (chunkSize : Nat)
    (hw : w.Truthful store file (openStream status cache cacheSequentialRead tuning chunkSize))
    (io : StreamIo) (ops : List Op) (t : Int) (e : Error) :
    let s := after w (openStream status cache cacheSequentialRead tuning chunkSize) io ops
    (s.1.seek t).1 = .error e → (((s.1.seek t).2.userPos = s.1.userPos ∧
        ∀ ns : List Nat, CursorRun file False False s.1.userPos
          (trace w (s.1.seek t).2 s.2 (ns.map Op.read))) ↔
        s.1.carryOver = []) := by
  intro s hfail
  have hopen : Follows file (openStream status cache cacheSequentialRead tuning chunkSize) :=
    follows_idle hbs rfl rfl
  obtain ⟨hs, hsame⟩ := hopen.after ops io hw
  exact hs.failed_seek (hsame.truthful hw) hfail s.2

/-! A stream that breaks off in its third frame. -/

def breakingStream (store : Int → Bytes) (req : StreamRequest) : Except Error SequentialStream :=
  .ok ⟨[], drainTask [.ok ⟨some ⟨some (slice (req.bytes store) 0 3)⟩⟩,
    .ok ⟨some ⟨some (slice (req.bytes store) 3 1)⟩⟩, .error (.internal "reset")]⟩

def breakingWorld (store : Int → Bytes) : StreamWorld :=
  { byteWorld store with
    runs := fun n => { (byteWorld store).runs n with
      sequential := breakingStream store
      freshSequential := breakingStream store } }

theorem breakingWorld_truthful (hblocks : st.Holds store file) :
    (breakingWorld store).Truthful store file st where
  runs := by
    intro n req s hs
    have hs : breakingStream store req = .ok s := hs.elim (fun h => h) fun h => h
    cases hs
    refine ⟨⟨_, prefix_rfl⟩, ?_⟩
    show slice (req.bytes store) 0 3 ++ (slice (req.bytes store) (0 + 3) 1 ++ []) <+: _
    rw [append_nil, slice_append]
    exact take_prefix _ _
  blocks := hblocks

def breakingStatus : URIStatus :=
  { length := 6, blockSizeBytes := 8, blockIds := [7], blockInfos := [] }

def breakingStore (_ : Int) : Bytes := [1, 2, 3, 4, 5, 6]

theorem breakingStatus_holds :
    (openStream breakingStatus none false ⟨1, 1⟩ 4).Holds breakingStore [1, 2, 3, 4, 5, 6] := by
  have hnames : breakingStatus.Names breakingStore [1, 2, 3, 4, 5, 6] := by
    refine ⟨fun i id hid _ => ?_, fun e he => by cases he⟩
    match i with
    | 0 => cases hid; rfl
  exact hnames.holds rfl

theorem failed_seek_harmless_iff_frame :
    let w := breakingWorld breakingStore
    let s := after w (openStream breakingStatus none false ⟨1, 1⟩ 4) ⟨0, 0, []⟩ [.read 3]
    (s.1.seek 5).1 = .error (.internal "reset") ∧ (s.1.seek 5).2.userPos = s.1.userPos ∧
      ∀ ns : List Nat, CursorRun [1, 2, 3, 4, 5, 6] False False s.1.userPos
        (trace w (s.1.seek 5).2 s.2 (ns.map Op.read)) :=
  ⟨rfl, (failed_seek_harmless_iff breakingStatus (by decide) none false ⟨1, 1⟩ 4
    (breakingWorld_truthful breakingStatus_holds) ⟨0, 0, []⟩ [.read 3] 5 (.internal "reset") rfl).mpr rfl⟩

/-- After a read of its first byte two bytes are parked: the failed seek loses
them and the position goes from 1 to 3. -/
theorem failed_seek_moves :
    trace (breakingWorld breakingStore) (openStream breakingStatus none false ⟨1, 1⟩ 4)
        ⟨0, 0, []⟩ [.read 1, .seek 5, .read 1] =
      [(.read 1, .data [1], 1), (.seek 5, .failed (.internal "reset"), 3),
        (.read 1, .failed (drainTaskEnded 7 4 6), 3)] := by
  rfl

end Follows

end GoosefsFileInStream

end GooseFS
