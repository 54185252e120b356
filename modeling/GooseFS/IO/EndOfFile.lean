import GooseFS.IO.Cursor

/-!
# Zero bytes before the end of the file

`read` documents that it returns `0` at the end of the file.  On the streaming
path it also returns `0` when the stream it pulls from ends before its next
data byte, which a worker can cause by closing a stream early; `read_all` takes
that `0` for the end of the file and succeeds with a truncated result.

`EarlyEnd` is the exact condition: `read` reports zero bytes before the end of
the file if and only if it holds, for every worker and every state of the
stream.  Reads through the page cache never do.
-/

namespace GooseFS

open Lib List

def ChunkSource.directEnds : List (Except Error ReadResponse) → Bool
  | [] => true
  | .ok r :: rest => r.payload = [] && directEnds rest
  | .error _ :: _ => false

/-- No data byte precedes the `streamEnd` of the drain task. -/
def ChunkSource.bufferedEnds : List StreamItem → Bool
  | .streamEnd :: _ => true
  | .data r :: rest => r.payload = [] && bufferedEnds rest
  | _ => false

def ChunkSource.ends : ChunkSource → Bool
  | .direct frames => directEnds frames
  | .buffered items => bufferedEnds items

theorem ChunkSource.pullDirect_none : ∀ frames : List (Except Error ReadResponse),
    (pullDirect frames).1 = .ok none ↔ directEnds frames = true
  | [] => by simp [pullDirect, directEnds]
  | .error e :: rest => by simp [pullDirect, directEnds]
  | .ok r :: rest => by
    rcases classify_some r with ⟨hc, hr⟩ | ⟨hc, hr⟩
    · have ih := pullDirect_none rest
      simpa [pullDirect, directEnds, hc, hr] using ih
    · simp [pullDirect, directEnds, hc, hr]

theorem ChunkSource.pullBuffered_none (closed : Error) : ∀ items : List StreamItem,
    (pullBuffered closed items).1 = .ok none ↔ bufferedEnds items = true
  | [] => by simp [pullBuffered, bufferedEnds]
  | .streamEnd :: rest => by simp [pullBuffered, bufferedEnds]
  | .error e :: rest => by simp [pullBuffered, bufferedEnds]
  | .data r :: rest => by
    rcases classify_some r with ⟨hc, hr⟩ | ⟨hc, hr⟩
    · have ih := pullBuffered_none closed rest
      simpa [pullBuffered, bufferedEnds, hc, hr] using ih
    · simp [pullBuffered, bufferedEnds, hc, hr]

theorem ChunkSource.pull_none (closed : Error) (src : ChunkSource) :
    (src.pull closed).1 = .ok none ↔ src.ends = true := by
  cases src with
  | direct frames => exact pullDirect_none frames
  | buffered items => exact pullBuffered_none closed items

/-- A reader that has delivered its range, or whose stream ends before the next
byte. -/
def GrpcBlockReader.Ended (r : GrpcBlockReader) : Prop :=
  r.length ≤ r.bytesReceived ∨ r.source.ends = true

instance (r : GrpcBlockReader) : Decidable r.Ended :=
  inferInstanceAs (Decidable (_ ∨ _))

theorem GrpcBlockReader.readChunk_none (r : GrpcBlockReader) :
    r.readChunk.1 = .ok none ↔ r.Ended := by
  by_cases hc : r.length ≤ r.bytesReceived
  · rw [readChunk_of_complete hc]
    exact ⟨fun _ => .inl hc, fun _ => rfl⟩
  · have hpull := r.source.pull_none (drainTaskEnded r.blockId r.bytesReceived r.length)
    rw [Ended, or_iff_right hc, ← hpull, readChunk, if_neg hc]
    rcases r.source.pull (drainTaskEnded r.blockId r.bytesReceived r.length) with ⟨_ | _ | d, src⟩
    · simp
    · simp
    · simp

namespace GoosefsFileInStream

variable {w : StreamWorld} {st : GoosefsFileInStream} {n : Nat} {io : StreamIo} {b : Bytes}
  {c : PageCache}

/-! ## One read -/

theorem readFromSequentialStream_nil (hn : 0 < n) :
    (st.readFromSequentialStream n).1 = .ok [] ↔ ∀ r ∈ st.blockInStream, r.Ended := by
  unfold readFromSequentialStream
  cases hs : st.blockInStream with
  | none => simp
  | some r =>
    have hnone := r.readChunk_none
    have hspec := r.readChunk_spec
    rcases hchunk : r.readChunk with ⟨_ | _ | d, r'⟩
    · rw [hchunk] at hnone
      simpa [hchunk] using hnone
    · rw [hchunk] at hnone
      simpa [hchunk] using hnone
    · -- a delivered chunk is not empty, and the buffer has room for a byte of it
      rw [hchunk] at hnone hspec
      rcases hspec with ⟨d', hd, hne, _⟩ | ⟨hno, _⟩
      · cases hd
        have htake : (st.takeChunk r' d n).1 ≠ [] := by
          show d.take n ≠ []
          rw [ne_eq, take_eq_nil_iff]
          rintro (h | h)
          · omega
          · exact hne h
        simpa [hchunk, htake] using hnone
      · exact absurd rfl (hno d)

/-- The stream that a read of block `blockId` pulls from has nothing to
deliver: the open one if it is that of the block, else the one that the worker
opens. -/
def StreamEnds (w : StreamWorld) (st : GoosefsFileInStream) (blockId : Int) (io : StreamIo) :
    Prop :=
  if st.blockInStreamBlockId = blockId then ∀ r ∈ st.blockInStream, r.Ended
  else ∃ r, (w.runs io.calls).openSequential st.tuning
    (st.request blockId st.pos (st.remainingInBlock st.pos)) = .ok r ∧ r.Ended

/-- A read before the end of the file, on the streaming path, of a block whose
stream ends before its next byte. -/
def EarlyEnd (w : StreamWorld) (st : GoosefsFileInStream) (io : StreamIo) : Prop :=
  st.carryOver = [] ∧ st.pos < st.fileLength ∧
    st.cache.filter (fun _ => st.cacheSequentialRead) = none ∧
    ∃ blockId, st.blockIdAt (st.blockIndexForPos st.pos) = .ok blockId ∧ StreamEnds w st blockId io

theorem readStreaming_nil (hn : 0 < n) : (st.readStreaming w n io).1 = .ok [] ↔
      ∃ blockId, st.blockIdAt (st.blockIndexForPos st.pos) = .ok blockId ∧
        StreamEnds w st blockId io := by
  unfold readStreaming StreamEnds ensureStream
  cases hid : st.blockIdAt (st.blockIndexForPos st.pos) with
  | error e => simp
  | ok blockId =>
    by_cases hsame : st.blockInStreamBlockId = blockId
    · simpa [hsame] using readFromSequentialStream_nil hn
    · cases hopen : (w.runs io.calls).openSequential st.tuning
          (st.request blockId st.pos (st.remainingInBlock st.pos)) with
      | error e => simp [hsame, hopen]
      | ok r =>
        let opened := { st with blockInStream := some r, blockInStreamBlockId := blockId }
        have hread : (opened.readFromSequentialStream n).1 = .ok [] ↔ ∀ r' ∈ some r, r'.Ended :=
          readFromSequentialStream_nil hn
        simpa [hsame, hopen] using hread

theorem readCached_ne_nil (hn : 0 < n) (hpos : st.pos < st.fileLength) :
    (st.readCached w c n io).1 ≠ .ok [] := by
  unfold readCached
  have hne : ∀ data, (st.readAtCached w c st.pos (min (st.pos + n) st.fileLength) io).1 =
      .ok data → data ≠ [] := fun data hdata =>
    readThroughCache_ne_nil (by omega) (Nat.min_le_right _ _) hdata
  rcases hres : st.readAtCached w c st.pos (min (st.pos + n) st.fileLength) io with ⟨_ | data, io'⟩
  · simp
  · have hdata := hne data (congrArg Prod.fst hres)
    simp only [ne_eq, Except.ok.injEq, take_eq_nil_iff]
    rintro (h | h)
    · omega
    · exact hdata h

/-- `read` into a non-empty buffer returns zero bytes exactly at the end of the
file and at an early end. -/
theorem read_nil (hn : 0 < n) : (st.read w n io).1 = .ok [] ↔
      (st.carryOver = [] ∧ st.fileLength ≤ st.pos) ∨ EarlyEnd w st io := by
  unfold read EarlyEnd
  rw [if_neg (by omega)]
  by_cases hcarry : st.carryOver = []
  · rw [if_neg (not_not_intro hcarry)]
    by_cases hpos : st.fileLength ≤ st.pos
    · simp [hcarry, hpos]
    · rw [if_neg hpos]
      cases hc : st.cache.filter fun _ => st.cacheSequentialRead with
      | some c =>
        have hne : (st.readCached w c n io).1 ≠ .ok [] :=
          readCached_ne_nil hn (Nat.lt_of_not_le hpos)
        simp [hne, hpos]
      | none =>
        have hnil : (st.readStreaming w n io).1 = .ok [] ↔ _ := readStreaming_nil hn
        simpa [hcarry, hpos, Nat.lt_of_not_le hpos] using hnil
  · rw [if_pos hcarry]
    have htake : st.carryOver.take n ≠ [] := by
      rw [ne_eq, take_eq_nil_iff]
      rintro (h | h)
      · omega
      · exact hcarry h
    simp [htake, hcarry]

theorem EarlyEnd.userPos_lt (h : EarlyEnd w st io) : st.userPos < st.fileLength := by
  rw [userPos_of_nil h.1]
  exact h.2.1

/-! ## What a read delivers -/

/-- The bytes `b` went out between `st` and `st'`: they are what the internal position and
the parked bytes account for. -/
structure Delivers (st : GoosefsFileInStream) (b : Bytes) (st' : GoosefsFileInStream) : Prop where
  fileLength : st'.fileLength = st.fileLength
  posLe : st.pos ≤ st'.pos
  balance : st'.pos + st.carryOver.length = st.pos + b.length + st'.carryOver.length
  pulls : st.pos < st'.pos → st.pos < st.fileLength

theorem Delivers.trans {st₁ st₂ : GoosefsFileInStream} {b' : Bytes} (h : Delivers st b st₁)
    (h' : Delivers st₁ b' st₂) : Delivers st (b ++ b') st₂ where
  fileLength := h'.fileLength.trans h.fileLength
  posLe := Nat.le_trans h.posLe h'.posLe
  balance := by
    have := h.balance
    have := h'.balance
    rw [length_append]
    omega
  pulls := by
    intro hlt
    by_cases hfirst : st.pos < st₁.pos
    · exact h.pulls hfirst
    · have hpos : st₁.pos = st.pos := Nat.le_antisymm (Nat.le_of_not_lt hfirst) h.posLe
      have := h'.pulls (hpos ▸ hlt)
      rwa [hpos, h.fileLength] at this

theorem takeChunk_delivers (hnil : st.carryOver = []) (hpos : st.pos < st.fileLength)
    (r : GrpcBlockReader) (d : Bytes) (n : Nat) :
    Delivers st (st.takeChunk r d n).1 (st.takeChunk r d n).2 := by
  have hlen : (d.take n).length + (d.drop n).length = d.length := by
    rw [← length_append, take_append_drop]
  have hst' : (st.takeChunk r d n).2.fileLength = st.fileLength ∧
      (st.takeChunk r d n).2.pos = st.pos + d.length ∧
      (st.takeChunk r d n).2.carryOver = d.drop n := by
    unfold takeChunk
    simp only
    split
    · exact ⟨rfl, rfl, rfl⟩
    · exact ⟨rfl, rfl, rfl⟩
  obtain ⟨hfile, hp, hc⟩ := hst'
  refine ⟨hfile, by omega, ?_, fun _ => hpos⟩
  rw [hp, hc, hnil]
  show st.pos + d.length + 0 = st.pos + (d.take n).length + (d.drop n).length
  omega

theorem delivers_nothing {st' : GoosefsFileInStream} (hfile : st'.fileLength = st.fileLength)
    (hpos : st'.pos = st.pos) (hcarry : st'.carryOver = st.carryOver) : Delivers st [] st' where
  fileLength := hfile
  posLe := Nat.le_of_eq hpos.symm
  balance := by rw [hpos, hcarry]; rfl
  pulls := fun h => absurd hpos.symm (Nat.ne_of_lt h)

theorem readFromSequentialStream_delivers (hnil : st.carryOver = []) (hpos : st.pos < st.fileLength)
    (h : (st.readFromSequentialStream n).1 = .ok b) :
    Delivers st b (st.readFromSequentialStream n).2 := by
  unfold readFromSequentialStream at h ⊢
  cases hs : st.blockInStream with
  | none =>
    rw [hs] at h
    cases h
    exact delivers_nothing rfl rfl rfl
  | some r =>
    rw [hs] at h
    rcases hchunk : r.readChunk with ⟨_ | _ | d, r'⟩
    · simp [hchunk] at h
    · simp only [hchunk] at h ⊢
      cases h
      exact delivers_nothing rfl rfl rfl
    · simp only [hchunk] at h ⊢
      cases h
      exact takeChunk_delivers hnil hpos r' d n

theorem readStreaming_delivers (hnil : st.carryOver = []) (hpos : st.pos < st.fileLength)
    (h : (st.readStreaming w n io).1 = .ok b) : Delivers st b (st.readStreaming w n io).2.1 := by
  unfold readStreaming ensureStream at h ⊢
  cases hid : st.blockIdAt (st.blockIndexForPos st.pos) with
  | error e => simp [hid] at h
  | ok blockId =>
    by_cases hsame : st.blockInStreamBlockId = blockId
    · simp only [hid, hsame, ne_eq, not_true, if_false] at h ⊢
      exact readFromSequentialStream_delivers hnil hpos h
    · cases hopen : (w.runs io.calls).openSequential st.tuning
          (st.request blockId st.pos (st.remainingInBlock st.pos)) with
      | error e => simp [hid, hsame, hopen] at h
      | ok r =>
        simp only [hid, hsame, hopen, ne_eq, not_false_iff, if_true] at h ⊢
        have hread := readFromSequentialStream_delivers (by exact hnil) (by exact hpos) h
        exact ⟨hread.fileLength, hread.posLe, hread.balance, hread.pulls⟩

theorem readCached_delivers (hpos : st.pos < st.fileLength) (h : (st.readCached w c n io).1 = .ok b) :
    Delivers st b (st.readCached w c n io).2.1 := by
  unfold readCached at h ⊢
  rcases hres : st.readAtCached w c st.pos (min (st.pos + n) st.fileLength) io with ⟨_ | data, io'⟩
  · simp [hres] at h
  · simp only [hres] at h ⊢
    cases h
    exact ⟨rfl, Nat.le_add_right _ _, rfl, fun _ => hpos⟩

theorem read_delivers (h : (st.read w n io).1 = .ok b) : Delivers st b (st.read w n io).2.1 := by
  unfold read at h ⊢
  split
  case isTrue hn =>
    rw [if_pos hn] at h
    cases h
    exact delivers_nothing rfl rfl rfl
  case isFalse hn =>
    rw [if_neg hn] at h
    by_cases hcarry : st.carryOver = []
    · rw [if_neg (not_not_intro hcarry)] at h ⊢
      by_cases hpos : st.fileLength ≤ st.pos
      · rw [if_pos hpos] at h ⊢
        cases h
        exact delivers_nothing rfl rfl rfl
      · rw [if_neg hpos] at h ⊢
        cases hc : st.cache.filter fun _ => st.cacheSequentialRead with
        | some c =>
          rw [hc] at h
          exact readCached_delivers (Nat.lt_of_not_le hpos) h
        | none =>
          rw [hc] at h
          exact readStreaming_delivers hcarry (Nat.lt_of_not_le hpos) h
    · rw [if_pos hcarry] at h ⊢
      cases h
      have hlen : (st.carryOver.take n).length + (st.carryOver.drop n).length =
          st.carryOver.length := by
        rw [← length_append, take_append_drop]
      refine ⟨rfl, Nat.le_refl _, ?_, fun hlt => absurd hlt (Nat.lt_irrefl _)⟩
      show st.pos + st.carryOver.length =
        st.pos + (st.carryOver.take n).length + (st.carryOver.drop n).length
      omega

/-! ## Reading to the end -/

def readsOf (w : StreamWorld) (scratch : Nat) : Nat → GoosefsFileInStream → StreamIo →
    List (GoosefsFileInStream × StreamIo)
  | 0, _, _ => []
  | fuel + 1, st, io => (st, io) ::
    match st.read w scratch io with
    | (.error _, _, _) => []
    | (.ok data, st', io') => if data = [] then [] else readsOf w scratch fuel st' io'

/-- A loop that succeeds stopped at a read of zero bytes, and no other of its
reads met an early end. -/
theorem readAllLoop_stops {scratch : Nat} (hs : 0 < scratch) : ∀ {fuel : Nat}
    {st st' : GoosefsFileInStream} {io io' : StreamIo} {buf b : Bytes},
    readAllLoop w scratch fuel st io buf = some (.ok b, st', io') →
      ∃ last ∈ readsOf w scratch fuel st io, ∃ d, b = buf ++ d ∧ Delivers st d last.1 ∧
        (last.1.read w scratch last.2).1 = .ok [] ∧
        ∀ s ∈ readsOf w scratch fuel st io, EarlyEnd w s.1 s.2 → s = last := by
  intro fuel
  induction fuel with
  | zero => intro st st' io io' buf b h; cases h
  | succ fuel ih =>
    intro st st' io io' buf b h
    rw [readAllLoop] at h
    rcases hread : st.read w scratch io with ⟨_ | data, st₁, io₁⟩
    · rw [hread] at h
      cases h
    · have hdel := read_delivers (congrArg Prod.fst hread)
      rw [hread] at h hdel
      by_cases hd : data = []
      · -- the loop stops here
        have hreads : readsOf w scratch (fuel + 1) st io = [(st, io)] := by
          simp [readsOf, hread, hd]
        simp only [if_pos hd] at h
        cases h
        refine ⟨(st, io), ?_, [], (append_nil _).symm, delivers_nothing rfl rfl rfl, ?_, ?_⟩
        · rw [hreads]
          exact mem_singleton_self _
        · rw [hread, hd]
        · intro s hs' _
          rw [hreads] at hs'
          exact mem_singleton.mp hs'
      · have hreads : readsOf w scratch (fuel + 1) st io =
            (st, io) :: readsOf w scratch fuel st₁ io₁ := by
          simp [readsOf, hread, hd]
        simp only [if_neg hd] at h
        obtain ⟨last, hlast, d, hb, hdel', hnil, honly⟩ := ih h
        refine ⟨last, ?_, data ++ d, ?_, hdel.trans hdel', hnil, ?_⟩
        · rw [hreads]
          exact mem_cons_of_mem _ hlast
        · rw [hb, append_assoc]
        · intro s hs' hearly
          rw [hreads] at hs'
          rcases mem_cons.mp hs' with rfl | hs'
          · have hzero := (read_nil hs).mpr (.inr hearly)
            rw [hread] at hzero
            exact absurd (Except.ok.inj hzero) hd
          · exact honly s hs' hearly

theorem readAllLoop_returns (w : StreamWorld) (scratch : Nat) (st : GoosefsFileInStream) (io : StreamIo)
    (buf : Bytes) : ∃ fuel out, readAllLoop w scratch fuel st io buf = some out := by
  rcases hread : st.read w scratch io with ⟨e | data, st₁, io₁⟩
  · exact ⟨1, (.error e, st₁, io₁), by simp [readAllLoop, hread]⟩
  · by_cases hd : data = []
    · exact ⟨1, (.ok buf, st₁, io₁), by simp [readAllLoop, hread, hd]⟩
    · have hdel := read_delivers (congrArg Prod.fst hread)
      have hlen : 0 < data.length := length_pos_iff.mpr hd
      obtain ⟨fuel, out, hout⟩ := readAllLoop_returns w scratch st₁ io₁ (buf ++ data)
      exact ⟨fuel + 1, out, by simp [readAllLoop, hread, hd, hout]⟩
termination_by (st.fileLength - st.pos, st.carryOver.length)
decreasing_by
  rw [hread] at hdel
  obtain ⟨hfile, hle, hbal, hpull⟩ := hdel
  simp only at hfile hle hbal hpull
  rw [Prod.lex_def]
  by_cases hlt : st.pos < st₁.pos
  · have := hpull hlt
    exact .inl (by simp only; omega)
  · exact .inr ⟨by simp only; omega, by simp only; omega⟩

/-- `read` into a non-empty buffer returns zero bytes before the end of the file
exactly at an early end.  Hence `read_all`, which always returns, succeeds with
everything that remained in the file exactly when none of its reads meets
one. -/
theorem zero_bytes_only_at_end_iff (w : StreamWorld) (st : GoosefsFileInStream) (io : StreamIo) :
    (∀ n, 0 < n → (((st.read w n io).1 = .ok [] → st.fileLength ≤ st.userPos) ↔
      ¬ EarlyEnd w st io)) ∧
    (∃ fuel out, st.readAll w fuel io = some out) ∧
    ∀ fuel b st' io', st.readAll w fuel io = some (.ok b, st', io') → (st.remaining ≤ b.length ↔
        ∀ s ∈ readsOf w st.scratchCap fuel st io, ¬ EarlyEnd w s.1 s.2) := by
  refine ⟨fun n hn => ⟨fun h hearly => ?_, fun h hzero => ?_⟩, readAllLoop_returns w _ st io [], ?_⟩
  · exact absurd (h ((read_nil hn).mpr (Or.inr hearly))) (Nat.not_le_of_lt hearly.userPos_lt)
  · rcases (read_nil hn).mp hzero with ⟨hnil, hend⟩ | hearly
    · rw [userPos_of_nil hnil]
      exact hend
    · exact absurd hearly h
  · intro fuel b st' io' h
    have hs : 0 < st.scratchCap := by
      rw [scratchCap]
      omega
    obtain ⟨last, hlast, d, hb, ⟨hfile, hle, hbal, _⟩, hnil, honly⟩ := readAllLoop_stops hs h
    rw [List.nil_append] at hb
    subst hb
    rw [remaining]
    rcases (read_nil hs).mp hnil with ⟨hcarry, hend⟩ | hearly
    · rw [hcarry, List.length_nil] at hbal
      refine ⟨fun _ s hmem hearly => ?_, fun _ => by omega⟩
      rw [honly s hmem hearly] at hearly
      exact absurd hearly.2.1 (Nat.not_lt_of_le hend)
    · have hlt := hearly.2.1
      rw [hearly.1, List.length_nil] at hbal
      exact ⟨fun h => by omega, fun h => absurd hearly (h last hlast)⟩

theorem zero_bytes_only_at_end_small :
    let st := openStream smallStatus none false ⟨1, 1⟩ 4
    let w := byteWorld smallStore
    ∃ out, st.readAll w 6 ⟨0, 0, []⟩ = some (.ok [1, 2, 3, 4, 5], out) ∧
      ∀ s ∈ readsOf w st.scratchCap 6 st ⟨0, 0, []⟩, ¬ EarlyEnd w s.1 s.2 :=
  ⟨_, rfl, ((zero_bytes_only_at_end_iff _ _ _).2.2 6 _ _ _ rfl).mp (by decide)⟩

/-- Workers that close every sequential stream after its first byte. -/
def closingWorld (store : Int → Bytes) : StreamWorld :=
  { byteWorld store with
    runs := fun n => { (byteWorld store).runs n with
      sequential := fun req =>
        .ok ⟨[], [.data ⟨some ⟨some ((req.bytes store).take 1)⟩⟩, .streamEnd]⟩ } }

/-- The stream of the first block is closed after one of its two bytes: the
second read returns zero bytes at position 1 of 5, and `read_all` succeeds with
one byte. -/
theorem closed_stream_reads_as_end :
    let st := openStream smallStatus none false ⟨1, 1⟩ 4
    let w := closingWorld smallStore
    let after := st.read w 4 ⟨0, 0, []⟩
    after.1 = .ok [1] ∧ after.2.1.userPos = 1 ∧ after.2.1.fileLength = 5 ∧
      (after.2.1.read w 4 after.2.2).1 = .ok [] ∧
      ∃ out, st.readAll w 2 ⟨0, 0, []⟩ = some (.ok [1], out) :=
  ⟨rfl, rfl, rfl, rfl, _, rfl⟩

end GoosefsFileInStream

end GooseFS
