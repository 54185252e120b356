import GooseFS.IO.FileInStream

/-!
# The input stream is a cursor

With workers that deliver exactly the range of the block they are asked for, in
whatever frames, a `GoosefsFileInStream` behaves like a plain cursor over the
bytes of the file.  A worker knows a block by its id only; that the ids are those
of the file's blocks is `Holds`.  The simulation relation is `Tracks`: the bytes parked in
`carryOver` are the ones that end at the internal position, and an open stream
either still has exactly the rest of its block to deliver (`Live`) or has
delivered everything (`Spent`).  A spent stream can survive a forward seek; it
then belongs to the block before the current one and never yields a byte.

`stream_refines_cursor` is the result: every sequence of reads, seeks and
positioned reads answers as the cursor would.
-/

namespace GooseFS

open Lib GrpcBlockReader List ChunkSource

/-! ## Exact workers -/

/-- The range of its block that a request names; `store` are the blocks the
workers hold, by id. -/
def StreamRequest.bytes (store : Int → Bytes) (req : StreamRequest) : Bytes :=
  slice (store req.blockId) req.offsetInBlock req.length

/-- Every stream that opens delivers exactly the range it was opened for. -/
structure StreamRun.Exact (store : Int → Bytes) (run : StreamRun) : Prop where
  sequential : ∀ req s, run.sequential req = .ok s ∨ run.freshSequential req = .ok s →
    bufferedBytes s.items = req.bytes store
  positioned : ∀ req s, run.positioned req = .ok s ∨ run.freshPositioned req = .ok s →
    directBytes s.frames = req.bytes store

/-- The ids that the stream finds are those of the blocks of the file. -/
def GoosefsFileInStream.Holds (store : Int → Bytes) (file : Bytes) (st : GoosefsFileInStream) :
    Prop :=
  ∀ i id, st.blockIdAt i = .ok id → store id = slice file (st.blockStart i) st.status.blockSizeBytes

structure StreamWorld.Serves (w : StreamWorld) (store : Int → Bytes) (file : Bytes)
    (st : GoosefsFileInStream) : Prop where
  runs : ∀ n, (w.runs n).Exact store
  blocks : st.Holds store file

structure StreamWorld.Exact (w : StreamWorld) (store : Int → Bytes) (file : Bytes)
    (st : GoosefsFileInStream) : Prop extends w.Serves store file st where
  cache : ∀ c ∈ st.cache, ∀ n, TrueCache file c.pageSize (w.cache n)

def StreamWorld.Reliable (w : StreamWorld) : Prop :=
  ∀ n, (w.runs n).connectWorker = .ok () ∧
    (∀ req, ∃ s, (w.runs n).sequential req = .ok s) ∧ ∀ req, ∃ s, (w.runs n).positioned req = .ok s

/-- Each list of the status names blocks of the file: `block_ids` by position, the
block infos by offset. -/
structure URIStatus.Names (store : Int → Bytes) (file : Bytes) (status : URIStatus) : Prop where
  ids : ∀ (i : Nat) id, status.blockIds[i]? = some id → 0 < id →
    store id = slice file (i * status.blockSizeBytes) status.blockSizeBytes
  infos : ∀ e ∈ status.blockInfos, ∀ id, e.blockInfo.bind BlockInfo.blockId = some id → 0 < id →
    ∀ i : Nat, e.offset = some ((i * status.blockSizeBytes : Nat) : Int) →
      store id = slice file (i * status.blockSizeBytes) status.blockSizeBytes

/-- The two places a block id is found in, and no other id than a positive one. -/
theorem GoosefsFileInStream.blockIdAt_ok {st : GoosefsFileInStream} {i : Nat} {id : Int}
    (h : st.blockIdAt i = .ok id) : 0 < id ∧ (st.status.blockIds[i]? = some id ∨
      ∃ e ∈ st.status.blockInfos, e.offset = some (st.blockStart i : Int) ∧
        e.blockInfo.bind BlockInfo.blockId = some id) := by
  unfold blockIdAt at h
  split at h
  · rename_i hfilter
    cases h
    obtain ⟨hlisted, hpos⟩ := Option.mem_filter_iff.mp hfilter
    exact ⟨of_decide_eq_true hpos, .inl hlisted⟩
  · simp only at h
    split at h
    · rename_i hpos
      cases h
      refine ⟨hpos, .inr ?_⟩
      cases hfind : st.status.blockInfos.find?
          fun fbi => fbi.offset = some (st.blockStart i : Int) with
      | none => simp [hfind] at hpos
      | some e =>
        refine ⟨e, mem_of_find?_eq_some hfind, by simpa using find?_some hfind, ?_⟩
        cases hblock : e.blockInfo.bind BlockInfo.blockId with
        | none => simp [hfind, hblock] at hpos
        | some id => simp [hblock]
    · cases h

theorem URIStatus.Names.holds {store : Int → Bytes} {file : Bytes} {status : URIStatus}
    (h : status.Names store file) {st : GoosefsFileInStream} (hst : st.status = status) :
    st.Holds store file := by
  subst hst
  intro i id hid
  obtain ⟨hpos, hlisted | ⟨e, he, hoff, hblock⟩⟩ := GoosefsFileInStream.blockIdAt_ok hid
  · exact h.ids i id hlisted hpos
  · exact h.infos e he id hblock hpos i hoff

theorem StreamRun.withReconnect_ok {α : Type} {run : StreamRun} {first fresh : Except Error α}
    {a : α} (h : run.withReconnect first fresh = .ok a) : first = .ok a ∨ fresh = .ok a := by
  unfold withReconnect at h
  cases first with
  | ok b => exact .inl h
  | error e =>
    by_cases hauth : e.isAuthenticationFailed
    · cases hre : run.reconnectWorkerForBlock with
      | error e' => simp [hauth, hre, bind, Except.bind] at h
      | ok u => exact .inr (by simpa [hauth, hre, bind, Except.bind] using h)
    · simp [hauth] at h

theorem StreamRun.openSequential_ok {run : StreamRun} {tuning : ReadTuning} {req : StreamRequest}
    {r : GrpcBlockReader} (h : run.openSequential tuning req = .ok r) :
    ∃ s, (run.sequential req = .ok s ∨ run.freshSequential req = .ok s) ∧
      r = GrpcBlockReader.openSequential req.blockId req.offsetInBlock req.length tuning s.tx
        s.items := by
  rw [StreamRun.openSequential] at h
  cases hconn : run.connectWorker with
  | error e => simp [hconn, bind, Except.bind] at h
  | ok u =>
    cases hs : run.withReconnect (run.sequential req) (run.freshSequential req) with
    | error e => simp [hconn, hs, bind, Except.bind] at h
    | ok s =>
      simp only [hconn, hs, bind, Except.bind, pure, Except.pure, Except.ok.injEq] at h
      exact ⟨s, withReconnect_ok hs, h.symm⟩

section Positioned

variable {store : Int → Bytes} {run : StreamRun} {req : StreamRequest}

theorem StreamRun.positionedReadWithRetry_ok (hrun : run.Exact store) {b : Bytes}
    (h : run.positionedReadWithRetry req = .ok b) : b = req.bytes store := by
  rw [positionedReadWithRetry] at h
  cases hconn : run.connectWorker with
  | error e => simp [hconn, bind, Except.bind] at h
  | ok u =>
    simp only [hconn, bind, Except.bind] at h
    have hread : ∀ s, (run.positioned req = .ok s ∨ run.freshPositioned req = .ok s) →
        positionedRead (.ok s) req.blockId req.offsetInBlock req.length = .ok b →
          b = req.bytes store := by
      intro s hs hb
      have hall : (openDirect req.blockId req.offsetInBlock req.length s).readAll = .ok b := hb
      obtain ⟨hpre, hlen⟩ := readAll_ok rfl hall
      have hpre : b <+: req.bytes store := hrun.positioned req s hs ▸ hpre
      have hle : (req.bytes store).length ≤ req.length := slice_length_le ..
      exact hpre.eq_of_length (Nat.le_antisymm hpre.length_le (Nat.le_trans hle hlen))
    rcases withReconnect_ok h with h | h
    · cases hs : run.positioned req with
      | error e => simp [hs, positionedRead, bind, Except.bind] at h
      | ok s => exact hread s (.inl hs) (hs ▸ h)
    · cases hs : run.freshPositioned req with
      | error e => simp [hs, positionedRead, bind, Except.bind] at h
      | ok s => exact hread s (.inr hs) (hs ▸ h)

theorem StreamRun.positionedReadWithRetry_reliable (hrun : run.Exact store)
    (hconn : run.connectWorker = .ok ()) (hopen : ∃ s, run.positioned req = .ok s)
    (hin : (req.bytes store).length = req.length) :
    run.positionedReadWithRetry req = .ok (req.bytes store) := by
  obtain ⟨s, hs⟩ := hopen
  have hbytes := hrun.positioned req s (.inl hs)
  have hread : positionedRead (.ok s) req.blockId req.offsetInBlock req.length =
      .ok (directBytes s.frames) :=
    positionedRead_complete (by rw [hbytes, hin])
  rw [positionedReadWithRetry, hconn, hs]
  show run.withReconnect (positionedRead (.ok s) _ _ _) _ = _
  rw [hread, hbytes]
  rfl

end Positioned

namespace GoosefsFileInStream

section External

variable {st : GoosefsFileInStream} {w : StreamWorld} {store : Int → Bytes} {file : Bytes}
  {endOff offset n : Nat} {blockId : Int}

section

variable (hbs : 0 < st.status.blockSizeBytes) {b : Bytes} {io : StreamIo}
include hbs

/-- A request that stays in the block of its first byte names the bytes of the
file from there. -/
theorem Holds.request_bytes (h : st.Holds store file)
    (hid : st.blockIdAt (st.blockIndexForPos offset) = .ok blockId)
    (hend : offset + n ≤ st.blockStart (st.blockIndexForPos offset) + st.status.blockSizeBytes) :
    (st.request blockId offset n).bytes store = slice file offset n := by
  have hstart : st.blockStart (st.blockIndexForPos offset) + st.offsetInBlock offset = offset := by
    rw [blockStart, blockIndexForPos, offsetInBlock, if_neg (by omega), if_neg (by omega)]
    exact Nat.div_add_mod' offset st.status.blockSizeBytes
  show slice (store blockId) (st.offsetInBlock offset) n = slice file offset n
  rw [h _ _ hid, slice_slice (by omega), hstart]

theorem positionedRead_ok (hw : w.Serves store file st)
    (hid : st.blockIdAt (st.blockIndexForPos offset) = .ok blockId)
    (hend : offset + n ≤ st.blockStart (st.blockIndexForPos offset) + st.status.blockSizeBytes)
    (h : (st.positionedRead w blockId offset n io).1 = .ok b) :
    b = slice file offset n :=
  (StreamRun.positionedReadWithRetry_ok (hw.runs io.calls) h).trans
    (hw.blocks.request_bytes hbs hid hend)

theorem lt_blockEnd (offset : Nat) :
    offset < st.blockStart (st.blockIndexForPos offset) + st.status.blockSizeBytes := by
  rw [blockStart, blockIndexForPos, if_neg (by omega)]
  exact Nat.lt_div_mul_add hbs

theorem remainingInBlock_le (offset : Nat) : offset + st.remainingInBlock offset ≤
    st.blockStart (st.blockIndexForPos offset) + st.status.blockSizeBytes := by
  have hend := lt_blockEnd hbs offset
  rw [remainingInBlock]
  omega

theorem readBlocks_ok (hw : w.Serves store file st) :
    ∀ {fuel cur : Nat} {result out : Bytes} {io : StreamIo}, endOff - cur ≤ fuel →
      (st.readBlocks w endOff fuel cur result io).1 = .ok out →
        out = result ++ slice file cur (endOff - cur) := by
  intro fuel
  induction fuel with
  | zero =>
    intro cur result out io hfuel h
    cases h
    rw [Nat.le_zero.mp hfuel, slice_zero_len, append_nil]
  | succ fuel ih =>
    intro cur result out io hfuel h
    rw [readBlocks] at h
    by_cases hlt : cur < endOff
    · rw [if_pos hlt] at h
      cases hid : st.blockIdAt (st.blockIndexForPos cur) with
      | error e => simp [hid] at h
      | ok blockId =>
        have hend := lt_blockEnd hbs cur
        simp only [hid] at h
        rcases hread : st.positionedRead w blockId cur (min endOff (st.blockStart
            (st.blockIndexForPos cur) + st.status.blockSizeBytes) - cur) io with ⟨_ | data, io'⟩
        · simp [hread] at h
        · have hdata := positionedRead_ok hbs hw hid (by
            show cur + (min endOff (st.blockStart (st.blockIndexForPos cur) +
              st.status.blockSizeBytes) - cur) ≤ _
            omega) (by rw [hread])
          simp only [hread] at h
          by_cases hzero : data.length = 0
          · simp [hzero] at h
          · rw [if_neg hzero] at h
            have hfront : data <+: slice file cur (min endOff (st.blockStart
                (st.blockIndexForPos cur) + st.status.blockSizeBytes) - cur) :=
              hdata ▸ prefix_rfl
            have hle := Nat.le_trans hfront.length_le (slice_length_le ..)
            rw [ih (by omega) h, append_assoc, front_append_slice hfront]
            congr 2
            omega
    · rw [if_neg hlt] at h
      cases h
      rw [Nat.sub_eq_zero_of_le (by omega), slice_zero_len, append_nil]

theorem readExternalRange_ok (hw : w.Serves store file st)
    (h : (st.readExternalRange w offset endOff io).1 = .ok b) :
    b = slice file offset (endOff - offset) := by
  unfold readExternalRange at h
  simp only at h
  split at h
  · rename_i hone
    cases hid : st.blockIdAt (st.blockIndexForPos offset) with
    | error e => simp [hid] at h
    | ok blockId =>
      simp only [hid] at h
      rcases hread : st.positionedRead w blockId offset (endOff - offset) io with ⟨_ | data, io'⟩
      · simp [hread] at h
      · simp only [hread] at h
        split at h
        · cases h
        · cases h
          have hblock := lt_blockEnd hbs offset
          exact positionedRead_ok (n := endOff - offset) hbs hw hid (by omega) (by rw [hread])
  · have hb := readBlocks_ok hbs hw (Nat.le_refl _) h
    rwa [nil_append] at hb

end

def Resolved (st : GoosefsFileInStream) : Prop :=
  ∀ x, x < st.fileLength → ∃ id, st.blockIdAt (st.blockIndexForPos x) = .ok id

variable (hbs : 0 < st.status.blockSizeBytes)
  (hw : w.Serves store file st) (hrel : w.Reliable)
include hbs hw hrel

theorem positionedRead_reliable (hid : st.blockIdAt (st.blockIndexForPos offset) = .ok blockId)
    (hend : offset + n ≤ st.blockStart (st.blockIndexForPos offset) + st.status.blockSizeBytes)
    (hin : offset + n ≤ file.length) (io : StreamIo) :
    (st.positionedRead w blockId offset n io).1 = .ok (slice file offset n) := by
  have hbytes := hw.blocks.request_bytes hbs hid hend
  have hread := StreamRun.positionedReadWithRetry_reliable (hw.runs io.calls) (hrel io.calls).1
    ((hrel io.calls).2.2 (st.request blockId offset n))
    (by rw [hbytes]; exact slice_length_of_le hin)
  rw [hbytes] at hread
  exact hread

theorem readBlocks_reliable (hres : st.Resolved) (hlen : st.fileLength = file.length)
    (hend : endOff ≤ file.length) : ∀ (fuel cur : Nat) (result : Bytes) (io : StreamIo),
      ∃ out, (st.readBlocks w endOff fuel cur result io).1 = .ok out := by
  intro fuel
  induction fuel with
  | zero => intro cur result io; exact ⟨result, rfl⟩
  | succ fuel ih =>
    intro cur result io
    rw [readBlocks]
    by_cases hlt : cur < endOff
    · obtain ⟨id, hid⟩ := hres cur (by omega)
      have hblock := lt_blockEnd hbs cur
      generalize hm : min endOff (st.blockStart (st.blockIndexForPos cur) +
        st.status.blockSizeBytes) - cur = m
      have hread := positionedRead_reliable (n := m) hbs hw hrel hid (by omega) (by omega) io
      have hdata : (slice file cur m).length = m := slice_length_of_le (by omega)
      rcases hpair : st.positionedRead w id cur m io with ⟨res, io'⟩
      rw [hpair] at hread
      simp only at hread
      subst hread
      simp only [if_pos hlt, hid, hm, hpair, hdata]
      rw [if_neg (by omega)]
      exact ih _ _ _
    · rw [if_neg hlt]
      exact ⟨result, rfl⟩

theorem readExternalRange_reliable (hres : st.Resolved) (hlen : st.fileLength = file.length)
    (hlt : offset < endOff) (hend : endOff ≤ file.length) (io : StreamIo) :
    (st.readExternalRange w offset endOff io).1 = .ok (slice file offset (endOff - offset)) := by
  have hsome : ∃ b, (st.readExternalRange w offset endOff io).1 = .ok b := by
    unfold readExternalRange
    simp only
    split
    · rename_i hone
      obtain ⟨id, hid⟩ := hres offset (by omega)
      have hread := positionedRead_reliable (n := endOff - offset) hbs hw hrel hid (by omega)
        (by omega) io
      have hdata : (slice file offset (endOff - offset)).length = endOff - offset :=
        slice_length_of_le (by omega)
      rcases hpair : st.positionedRead w id offset (endOff - offset) io with ⟨res, io'⟩
      rw [hpair] at hread
      simp only at hread
      subst hread
      simp only [hid, hpair]
      rw [if_neg (ne_nil_of_length_pos (by omega))]
      exact ⟨_, rfl⟩
    · exact readBlocks_reliable hbs hw hrel hres hlen hend _ _ _ _
  obtain ⟨b, hb⟩ := hsome
  rw [hb, readExternalRange_ok hbs hw hb]

end External

/-! ## A block stream with a known rest -/

section Rest

variable {file : Bytes} {r : GrpcBlockReader}

/-- `r` has exactly `[p, e)` of the file left to deliver. -/
structure Rest (file : Bytes) (r : GrpcBlockReader) (p e : Nat) : Prop where
  le : p ≤ e
  inFile : e ≤ file.length
  bytes : r.source.bytes = slice file p (e - p)
  count : r.bytesReceived + (e - p) = r.length

theorem Rest.complete {p : Nat} (h : Rest file r p p) : r.length ≤ r.bytesReceived := by
  have := h.count
  omega

theorem Rest.readChunk {p e : Nat} (h : Rest file r p e) (hlt : p < e) :
    ∃ d r', r.readChunk = (.ok (some d), r') ∧ d ≠ [] ∧ d = slice file p d.length ∧
      r'.source.size < r.source.size ∧ Rest file r' (p + d.length) e := by
  have hcount := h.count
  have hlen : r.source.bytes.length = e - p := by
    rw [h.bytes, slice_length_of_le (by have := h.inFile; omega)]
  rcases r.readChunk_spec with ⟨d, hd, hne, _, hbytes, hsize, hlen', hrecv⟩ | ⟨_, hend, _⟩
  · rcases hres : r.readChunk with ⟨res, r'⟩
    rw [hres] at hd hbytes hsize hlen' hrecv
    simp only at hd hbytes hsize hlen' hrecv
    subst hd
    have hfront : d <+: slice file p (e - p) := ⟨r'.source.bytes, by rw [← hbytes, h.bytes]⟩
    have hdlen : d.length ≤ e - p := by
      rw [hbytes, length_append] at hlen
      omega
    refine ⟨d, r', rfl, hne, eq_slice_of_front hfront, hsize, by omega, h.inFile, ?_, by omega⟩
    have hdrop : r'.source.bytes = (slice file p (e - p)).drop d.length := by
      rw [← h.bytes, hbytes, drop_left]
    rw [hdrop, drop_slice]
    congr 1
    omega
  · rcases hend with hend | hnil
    · omega
    · rw [hnil, length_nil] at hlen
      omega

/-- What is left of a chunk whose first `k` bytes are skipped. -/
theorem drop_chunk {d : Bytes} {p k : Nat} (hd : d = slice file p d.length) (hk : k < d.length) :
    d.drop k = slice file (p + k) (d.drop k).length ∧ p + k + (d.drop k).length = p + d.length := by
  rw [length_drop]
  refine ⟨?_, by omega⟩
  conv => lhs; rw [hd, drop_slice]

theorem Rest.skipLoop : ∀ {fuel : Nat} {r : GrpcBlockReader} {p e : Nat} (k : Nat),
    Rest file r p e → k ≤ e - p → r.source.size < fuel →
      ∃ carry r', skipLoop fuel r k = (.ok carry, r') ∧ carry = slice file (p + k) carry.length ∧
        Rest file r' (p + k + carry.length) e := by
  intro fuel
  induction fuel with
  | zero => intro r p e k _ _ hfuel; omega
  | succ fuel ih =>
    intro r p e k h hk hfuel
    rw [GoosefsFileInStream.skipLoop]
    by_cases hzero : k = 0
    · subst hzero
      exact ⟨[], r, by rw [if_pos rfl], (slice_zero_len file _).symm, h⟩
    · obtain ⟨d, r', hread, _, hd, hsize, hrest⟩ := h.readChunk (by omega)
      simp only [if_neg hzero, hread]
      by_cases hover : k < d.length
      · -- the chunk reaches past the target
        obtain ⟨hcarry, hpos⟩ := drop_chunk hd hover
        exact ⟨d.drop k, r', by rw [if_pos hover], hcarry, by rw [hpos]; exact hrest⟩
      · have hle := hrest.le
        obtain ⟨carry, r'', hskip, hcarry, hrest'⟩ := ih (k - d.length) hrest (by omega) (by omega)
        have hpos : p + d.length + (k - d.length) = p + k := by omega
        rw [hpos] at hcarry hrest'
        exact ⟨carry, r'', by rw [if_neg hover, hskip], hcarry, hrest'⟩

theorem skipLoop_complete (h : r.length ≤ r.bytesReceived) {k : Nat} (hk : 0 < k) (fuel : Nat) :
    skipLoop (fuel + 1) r k = (.ok [], r.halfClose) := by
  rw [GoosefsFileInStream.skipLoop, if_neg (by omega), readChunk_of_complete h]

end Rest

/-! ## The simulation relation -/

/-- The end of the part of the file that lies in the block of `p`. -/
def restEnd (st : GoosefsFileInStream) (p : Nat) : Nat :=
  min (st.blockStart (st.blockIndexForPos p) + st.status.blockSizeBytes) st.fileLength

/-- The open stream has the rest of the current block to deliver. -/
def Live (file : Bytes) (st : GoosefsFileInStream) (r : GrpcBlockReader) : Prop :=
  st.pos < st.restEnd st.pos ∧ Rest file r st.pos (st.restEnd st.pos) ∧
    st.blockIdAt (st.blockIndexForPos st.pos) = .ok st.blockInStreamBlockId

/-- The open stream has delivered its block, and the position has left it. -/
def Spent (st : GoosefsFileInStream) (r : GrpcBlockReader) : Prop :=
  r.length ≤ r.bytesReceived ∧ (st.fileLength ≤ st.pos ∨
    ∃ b, st.blockIdAt b = .ok st.blockInStreamBlockId ∧ st.blockIndexForPos st.pos = b + 1)

/-- The parked bytes are those before the internal position, and no stream is open
where sequential reads go through the cache. -/
structure Parks (file : Bytes) (st : GoosefsFileInStream) : Prop where
  blockSize : 0 < st.status.blockSizeBytes
  carryLe : st.carryOver.length ≤ st.pos
  carry : st.carryOver = slice file st.userPos st.carryOver.length
  cached : st.cache.isSome → st.cacheSequentialRead = true → st.blockInStream = none

structure Tracks (file : Bytes) (st : GoosefsFileInStream) : Prop extends Parks file st where
  length : st.fileLength = file.length
  posLe : st.pos ≤ file.length
  idle : st.blockInStream = none → st.blockInStreamBlockId = -1
  stream : ∀ r, st.blockInStream = some r → Live file st r ∨ Spent st r

section Parks

variable {file : Bytes} {st : GoosefsFileInStream} {r : GrpcBlockReader}

theorem parks_of_nil (hbs : 0 < st.status.blockSizeBytes) (hnil : st.carryOver = [])
    (hcached : st.cache.isSome → st.cacheSequentialRead = true → st.blockInStream = none) :
    Parks file st where
  blockSize := hbs
  carryLe := by rw [hnil]; exact Nat.zero_le _
  carry := by rw [hnil]; exact (slice_zero_len file _).symm
  cached := hcached

theorem Parks.no_cache (h : Parks file st) (hstream : st.blockInStream = some r)
    (hc : st.cache.isSome) (hs : st.cacheSequentialRead = true) : False := by
  rw [h.cached hc hs] at hstream
  cases hstream

theorem userPos_parked (st : GoosefsFileInStream) (r : GrpcBlockReader) (d : Bytes) (q : Nat) :
    { st with blockInStream := some r, carryOver := d, pos := q + d.length }.userPos = q :=
  Nat.add_sub_cancel _ _

/-- A chunk that starts at `q` is parked, and the stream goes on behind it. -/
theorem Parks.park (h : Parks file st) (hstream : st.blockInStream ≠ none) {d : Bytes} {q : Nat}
    (hd : d = slice file q d.length) (r : GrpcBlockReader) :
    Parks file { st with blockInStream := some r, carryOver := d, pos := q + d.length } where
  blockSize := h.blockSize
  carryLe := Nat.le_add_left _ _
  carry := by rw [userPos_parked]; exact hd
  cached := fun hc hs => absurd (h.cached hc hs) hstream

/-- Taking `n` of the parked bytes: those taken are at the position, those left
at the position behind them. -/
theorem Parks.take (h : Parks file st) (n : Nat) :
    let st' := { st with carryOver := st.carryOver.drop n }
    st.carryOver.take n = slice file st.userPos (st.carryOver.take n).length ∧
      st'.userPos = st.userPos + (st.carryOver.take n).length ∧ Parks file st' := by
  have hcarry := h.carry
  have hle := h.carryLe
  have hfront : st.carryOver.take n <+: slice file st.userPos st.carryOver.length := by
    rw [← hcarry]
    exact take_prefix _ _
  have huser : st.pos - (st.carryOver.drop n).length =
      st.userPos + (st.carryOver.take n).length := by
    rw [length_drop, length_take, userPos]
    omega
  have hdrop : st.carryOver.drop n = slice file (st.pos - (st.carryOver.drop n).length)
      (st.carryOver.drop n).length := by
    rw [huser, length_take, length_drop]
    conv => lhs; rw [hcarry, drop_slice]
    by_cases hover : n ≤ st.carryOver.length
    · rw [Nat.min_eq_left hover]
    · rw [Nat.sub_eq_zero_of_le (by omega), slice_zero_len, slice_zero_len]
  refine ⟨eq_slice_of_front hfront, huser, { h with carryLe := ?_, carry := hdrop }⟩
  show (st.carryOver.drop n).length ≤ st.pos
  rw [length_drop]
  omega

end Parks

section Index

variable {st : GoosefsFileInStream}

variable (hbs : 0 < st.status.blockSizeBytes) {p q : Nat}
include hbs

theorem blockIndexForPos_eq (p : Nat) :
    st.blockIndexForPos p = p / st.status.blockSizeBytes := if_neg (by omega)

theorem blockIndexForPos_of_lt (hle : p ≤ q)
    (hlt : q < st.blockStart (st.blockIndexForPos p) + st.status.blockSizeBytes) :
    st.blockIndexForPos q = st.blockIndexForPos p := by
  rw [blockStart, blockIndexForPos_eq hbs] at hlt
  rw [blockIndexForPos_eq hbs, blockIndexForPos_eq hbs]
  have hdiv := Nat.div_mul_le_self p st.status.blockSizeBytes
  refine Nat.div_eq_of_lt_le (by omega) ?_
  rw [Nat.add_one_mul]
  exact hlt

theorem blockIndexForPos_blockEnd (b : Nat) :
    st.blockIndexForPos (st.blockStart b + st.status.blockSizeBytes) = b + 1 := by
  rw [blockIndexForPos_eq hbs, blockStart, ← Nat.add_one_mul, Nat.mul_div_cancel _ hbs]

theorem restEnd_of_lt (hle : p ≤ q) (hlt : q < st.restEnd p) : st.restEnd q = st.restEnd p := by
  have hindex := blockIndexForPos_of_lt hbs hle (Nat.lt_of_lt_of_le hlt (Nat.min_le_left _ _))
  rw [restEnd, restEnd, hindex]

theorem leaves_block (p : Nat) : st.fileLength ≤ st.restEnd p ∨
      st.blockIndexForPos (st.restEnd p) = st.blockIndexForPos p + 1 := by
  rw [restEnd]
  by_cases h : st.fileLength ≤ st.blockStart (st.blockIndexForPos p) + st.status.blockSizeBytes
  · exact .inl (by omega)
  · rw [Nat.min_eq_left (by omega)]
    exact .inr (blockIndexForPos_blockEnd hbs _)

theorem live_or_spent {file : Bytes} {r : GrpcBlockReader} (hle : p ≤ st.pos)
    (hrest : Rest file r st.pos (st.restEnd p))
    (hid : st.blockIdAt (st.blockIndexForPos p) = .ok st.blockInStreamBlockId) :
    Live file st r ∨ Spent st r := by
  by_cases hlt : st.pos < st.restEnd p
  · have hsame := restEnd_of_lt hbs hle hlt
    have hindex := blockIndexForPos_of_lt hbs hle (Nat.lt_of_lt_of_le hlt (Nat.min_le_left _ _))
    exact .inl ⟨by rw [hsame]; exact hlt, by rw [hsame]; exact hrest, by rw [hindex]; exact hid⟩
  · have hpos : st.pos = st.restEnd p := Nat.le_antisymm hrest.le (Nat.le_of_not_lt hlt)
    rw [← hpos] at hrest
    refine .inr ⟨hrest.complete, ?_⟩
    rcases leaves_block hbs p with h | h
    · exact .inl (by omega)
    · exact .inr ⟨st.blockIndexForPos p, hid, by rw [hpos]; exact h⟩

end Index

/-! ## Seek -/

section Seek

variable {file : Bytes} {st : GoosefsFileInStream}

theorem tracks_idle (hlen : st.fileLength = file.length) (hbs : 0 < st.status.blockSizeBytes)
    (hpos : st.pos ≤ file.length) (hcarry : st.carryOver = []) (hnone : st.blockInStream = none)
    (hid : st.blockInStreamBlockId = -1) : Tracks file st where
  toParks := parks_of_nil hbs hcarry fun _ _ => hnone
  length := hlen
  posLe := hpos
  idle := fun _ => hid
  stream := fun r hr => by rw [hnone] at hr; cases hr

def SameFile (st st' : GoosefsFileInStream) : Prop :=
  st'.status = st.status ∧ st'.cache = st.cache ∧ st'.cacheSequentialRead = st.cacheSequentialRead

theorem Parks.tracks {r r' : GrpcBlockReader} {carry : Bytes} {q : Nat} (h : Parks file st)
    (hlen : st.fileLength = file.length) (hstream : st.blockInStream = some r)
    (hid : st.blockIdAt (st.blockIndexForPos st.pos) = .ok st.blockInStreamBlockId)
    (hle : st.pos ≤ q) (hcarry : carry = slice file q carry.length)
    (hrest : Rest file r' (q + carry.length) (st.restEnd st.pos)) :
    Tracks file { st with
      blockInStream := some r', carryOver := carry, pos := q + carry.length } where
  toParks := h.park (by simp [hstream]) hcarry r'
  length := hlen
  posLe := Nat.le_trans hrest.le hrest.inFile
  idle := fun hn => by cases hn
  stream := fun r'' hr'' => by
    cases hr''
    refine live_or_spent (p := st.pos) ?_ ?_ ?_ ?_
    · exact h.blockSize
    · exact Nat.le_trans hle (Nat.le_add_right _ _)
    · exact hrest
    · exact hid

theorem seek_tracks (h : Tracks file st) {t : Nat} (ht : t ≤ file.length) :
    ∃ st', st.seek t = (.ok t, st') ∧ Tracks file st' ∧ st'.userPos = t ∧ SameFile st st' := by
  have hlen := h.length
  have hbs := h.blockSize
  have hclamp : (max 0 (min (t : Int) st.fileLength)).toNat = t := by omega
  unfold seek
  simp only [hclamp]
  by_cases hsame : t = st.userPos
  · rw [if_pos hsame, ← hsame]
    exact ⟨st, rfl, h, hsame.symm, rfl, rfl, rfl⟩
  · rw [if_neg hsame]
    have hdropped : ∀ st' : GoosefsFileInStream, st' = { st.dropStream with carryOver := [], pos := t } →
        Tracks file st' ∧ st'.userPos = t ∧ SameFile st st' := by
      rintro st' rfl
      exact ⟨tracks_idle hlen hbs ht rfl rfl rfl, rfl, rfl, rfl, rfl⟩
    split
    · rename_i hnear
      cases hstream : st.blockInStream with
      | none =>
        exact ⟨_, rfl, tracks_idle hlen hbs ht rfl rfl (h.idle hstream), rfl, rfl, rfl, rfl⟩
      | some r =>
        simp only
        by_cases hlt : st.pos < t
        · rw [if_pos hlt]
          rcases h.stream r hstream with ⟨hpos, hrest, hid⟩ | ⟨hdone, hleft⟩
          · -- the target lies in the block the stream is reading
            have hindex : st.blockIndexForPos t = st.blockIndexForPos st.pos := hnear.2
            have hblock : t < st.blockStart (st.blockIndexForPos st.pos) +
                st.status.blockSizeBytes := hindex ▸ lt_blockEnd hbs t
            have hskip : t - st.pos ≤ st.restEnd st.pos - st.pos := by
              rw [restEnd]
              omega
            obtain ⟨carry, r', hloop, hcarry, hrest'⟩ :=
              hrest.skipLoop (t - st.pos) hskip (Nat.lt_succ_self _)
            have hpt : st.pos + (t - st.pos) = t := by omega
            rw [hpt] at hcarry hrest'
            rw [hloop]
            exact ⟨_, rfl, h.toParks.tracks hlen hstream hid (Nat.le_of_lt hlt) hcarry hrest',
              userPos_parked st r' carry t, rfl, rfl, rfl⟩
          · -- a spent stream has nothing to skip and stays spent
            rw [skipLoop_complete hdone (by omega)]
            refine ⟨_, rfl, ?_, rfl, rfl, rfl, rfl⟩
            obtain ⟨b, hb, hbi⟩ := hleft.resolve_left (by omega)
            exact {
              toParks := parks_of_nil hbs rfl fun hc hs => (h.no_cache hstream hc hs).elim
              length := hlen
              posLe := ht
              idle := fun hn => by cases hn
              stream := fun r'' hr'' => by
                cases hr''
                exact .inr ⟨hdone, .inr ⟨b, hb, hnear.2.trans hbi⟩⟩ }
        · rw [if_neg hlt]
          exact ⟨_, rfl, hdropped _ rfl⟩
    · exact ⟨_, rfl, hdropped _ rfl⟩

end Seek

/-! ## Read -/

section Read

variable {store : Int → Bytes} {file : Bytes} {st : GoosefsFileInStream} {w : StreamWorld}
  {blockId : Int} {n : Nat} {e : Error} {io io' : StreamIo} {r : GrpcBlockReader}

theorem Live.readFromSequentialStream (h : Live file st r) (hparks : Parks file st)
    (hstream : st.blockInStream = some r) (hlen : st.fileLength = file.length) (hn : 0 < n) :
    ∃ b st', st.readFromSequentialStream n = (.ok b, st') ∧ b ≠ [] ∧ b.length ≤ n ∧
      b = slice file st.pos b.length ∧ st'.userPos = st.pos + b.length ∧ Tracks file st' ∧
      SameFile st st' := by
  obtain ⟨hlt, hrest, hid⟩ := h
  obtain ⟨d, r', hread, hne, hd, _, hrest'⟩ := hrest.readChunk hlt
  -- all of the chunk is parked first, and then taken from there
  have hparked := hparks.tracks hlen hstream hid (Nat.le_refl _) hd hrest'
  obtain ⟨htake, huser, htaken⟩ := hparked.toParks.take n
  rw [userPos_parked] at htake huser
  have hdpos : 0 < d.length := length_pos_iff.mpr hne
  rw [GoosefsFileInStream.readFromSequentialStream, hstream]
  simp only [hread, takeChunk]
  refine ⟨d.take n, _, rfl, ne_nil_of_length_pos (by rw [length_take]; omega), length_take_le ..,
    htake, ?_⟩
  split
  · refine ⟨huser, { htaken, hparked with
      cached := fun _ _ => rfl, idle := fun _ => rfl, stream := fun r hr => ?_ }, rfl, rfl, rfl⟩
    cases hr
  · exact ⟨huser, { htaken, hparked with }, rfl, rfl, rfl⟩

theorem readAtCached_spec (hbs : 0 < st.status.blockSizeBytes)
    (hlen : st.fileLength = file.length) {c : PageCache}
    (hw : w.Serves store file st)
    (hc : ∀ n, TrueCache file c.pageSize (w.cache n)) {offset endOff : Nat}
    (hle : offset ≤ endOff) (hend : endOff ≤ file.length) (io : StreamIo) :
    (∀ b, (st.readAtCached w c offset endOff io).1 = .ok b →
      b = slice file offset (endOff - offset)) ∧
    (w.Reliable → st.Resolved → ∃ b, (st.readAtCached w c offset endOff io).1 = .ok b) := by
  have htrue : TrueSource file fun io a e => st.readExternalRange w a e io := by
    intro io a e b hb
    rw [readExternalRange_ok hbs hw hb]
  unfold readAtCached
  simp only [hlen]
  refine ⟨fun b hb => readThroughCache_ok (hc io.batches) htrue hle hend hb, fun hrel hres => ?_⟩
  have hfull : FullSource file (fun _ => True) fun io a e => st.readExternalRange w a e io :=
    fun io a e _ => ⟨trivial, fun hlt hle' =>
      readExternalRange_reliable hbs hw hrel hres hlen hlt hle' io⟩
  exact ⟨_, (readThroughCache_full (hc io.batches) hfull hle hend trivial).2⟩

theorem readAt_spec (h : Tracks file st) (hw : w.Exact store file st)
    (offset n : Nat) (io : StreamIo) :
    (∀ b, (st.readAt w offset n io).1 = .ok b → b = slice file offset n) ∧
    (w.Reliable → st.Resolved → ∃ b, (st.readAt w offset n io).1 = .ok b) := by
  have hlen := h.length
  unfold readAt
  by_cases hempty : st.fileLength ≤ offset ∨ n = 0
  · rw [if_pos hempty]
    refine ⟨fun b hb => ?_, fun _ _ => ⟨[], rfl⟩⟩
    cases hb
    rcases hempty with hpast | hzero
    · exact (slice_eq_nil_of_le (hlen ▸ hpast)).symm
    · rw [hzero, slice_zero_len]
  · rw [if_neg hempty]
    simp only [hlen]
    have hend : min (offset + n) file.length ≤ file.length := Nat.min_le_right _ _
    have hslice : slice file offset (min (offset + n) file.length - offset) =
        slice file offset n := by
      rw [← slice_clamp file offset n]
      congr 1
      omega
    cases hcache : st.cache with
    | none =>
      simp only
      refine ⟨fun b hb => ?_, fun hrel hres => ?_⟩
      · rw [readExternalRange_ok h.blockSize hw.toServes hb, hslice]
      · exact ⟨_, readExternalRange_reliable h.blockSize hw.toServes hrel hres hlen
          (by omega) hend io⟩
    | some c =>
      have hle : offset ≤ min (offset + n) file.length := by omega
      obtain ⟨hok, hrel⟩ := readAtCached_spec h.blockSize hlen hw.toServes (hw.cache c hcache) hle hend io
      exact ⟨fun b hb => (hok b hb).trans hslice, hrel⟩

section Fresh

variable (h : Tracks file st) (hnil : st.carryOver = []) (hpos : st.pos < st.fileLength)
include h hnil hpos

end Fresh

end Read

/-! ## Sequences of operations -/

inductive Op where
  | read (n : Nat)
  | seek (target : Nat)
  | readAt (offset n : Nat)
  deriving DecidableEq, Repr

inductive Reply where
  | data (b : Bytes)
  | position (p : Nat)
  | failed (e : Error)
  deriving DecidableEq, Repr

def Reply.ofRead : Except Error Bytes → Reply
  | .ok b => .data b
  | .error e => .failed e

def Reply.ofSeek : Except Error Nat → Reply
  | .ok p => .position p
  | .error e => .failed e

def step (w : StreamWorld) (st : GoosefsFileInStream) (io : StreamIo) :
    Op → Reply × GoosefsFileInStream × StreamIo
  | .read n => (Reply.ofRead (st.read w n io).1, (st.read w n io).2)
  | .seek t => (Reply.ofSeek (st.seek t).1, (st.seek t).2, io)
  | .readAt offset n => (Reply.ofRead (st.readAt w offset n io).1, st, (st.readAt w offset n io).2)

/-- The replies to a sequence of operations, each with `pos()` after it. -/
def trace (w : StreamWorld) : GoosefsFileInStream → StreamIo → List Op → List (Op × Reply × Nat)
  | _, _, [] => []
  | st, io, op :: rest =>
    let out := step w st io op
    (op, out.1, out.2.1.userPos) :: trace w out.2.1 out.2.2 rest

def Op.InRange (file : Bytes) : Op → Prop
  | .read _ => True
  | .seek t => t ≤ file.length
  | .readAt offset _ => offset ≤ file.length

/-- One operation of a cursor at `p` over `file`, with the position after it.
`total` forbids failures; `progress` makes every read before the end of the
file that has room deliver something. -/
def CursorStep (file : Bytes) (total progress : Prop) (p : Nat) : Op → Reply → Nat → Prop
  | .read n, .data b, p' => b = slice file p b.length ∧ b.length ≤ n ∧ p' = p + b.length ∧
      (progress → 0 < n → p < file.length → b ≠ [])
  | .seek t, .position q, p' => q = t ∧ p' = t
  | .readAt offset n, .data b, p' => b = slice file offset n ∧ p' = p
  | .read _, .failed _, p' => ¬ total ∧ p' = p
  | .readAt _ _, .failed _, p' => ¬ total ∧ p' = p
  | _, _, _ => False

def CursorRun (file : Bytes) (total progress : Prop) : Nat → List (Op × Reply × Nat) → Prop
  | _, [] => True
  | p, (op, reply, p') :: rest =>
    CursorStep file total progress p op reply p' ∧ CursorRun file total progress p' rest

section Run

variable {store : Int → Bytes} {file : Bytes} {w : StreamWorld} {st st' : GoosefsFileInStream}
  {op : Op} {progress total : Prop}

theorem SameFile.blockIdAt (h : SameFile st st') (b : Nat) : st'.blockIdAt b = st.blockIdAt b := by
  unfold GoosefsFileInStream.blockIdAt blockStart
  rw [h.1]

theorem SameFile.holds (h : SameFile st st') (hst : st.Holds store file) :
    st'.Holds store file := by
  intro i id hid
  rw [h.blockIdAt] at hid
  rw [hst i id hid, blockStart, blockStart, h.1]

theorem SameFile.exact (h : SameFile st st') (hw : w.Exact store file st) :
    w.Exact store file st' where
  runs := hw.runs
  blocks := h.holds hw.blocks
  cache := by
    rw [h.2.1]
    exact hw.cache

theorem CursorStep.mono {total' progress' : Prop} (ht : total' → total) (hp : progress' → progress)
    {p p' : Nat} {reply : Reply} (h : CursorStep file total progress p op reply p') :
    CursorStep file total' progress' p op reply p' := by
  cases op <;> cases reply <;> simp only [CursorStep] at h ⊢
  · exact ⟨h.1, h.2.1, h.2.2.1, fun hpr => h.2.2.2 (hp hpr)⟩
  · exact ⟨fun htot => h.1 (ht htot), h.2⟩
  · exact h
  · exact h
  · exact ⟨fun htot => h.1 (ht htot), h.2⟩

def byteFrames (b : Bytes) : List ReadResponse := b.flatMap fun x => [⟨none⟩, ⟨some ⟨some [x]⟩⟩]

theorem bufferedBytes_byteFrames (b : Bytes) :
    bufferedBytes ((byteFrames b).map .data) = b := by
  induction b with
  | nil => rfl
  | cons x b ih =>
    show x :: bufferedBytes ((byteFrames b).map .data) = x :: b
    rw [ih]

theorem directBytes_byteFrames (b : Bytes) :
    directBytes ((byteFrames b).map .ok) = b := by
  induction b with
  | nil => rfl
  | cons x b ih =>
    show x :: directBytes ((byteFrames b).map .ok) = x :: b
    rw [ih]

/-- Workers that send every range in frames of at most one byte, and a cache
that has nothing. -/
def byteWorld (store : Int → Bytes) : StreamWorld :=
  let sequential := fun req : StreamRequest =>
    .ok ⟨[], (byteFrames (req.bytes store)).map .data⟩
  let positioned := fun req : StreamRequest =>
    .ok ⟨[], (byteFrames (req.bytes store)).map .ok⟩
  { runs := fun _ =>
      { select := .ok (some "worker:9203"), acquire := .ok (), reconnect := .ok (),
        retrySelect := .ok none, retryAcquire := .ok (), sequential, positioned,
        blockSelect := .ok (some "worker:9203"), blockReconnect := .ok (),
        freshSequential := sequential, freshPositioned := positioned }
    cache := fun _ _ => [] }

theorem byteWorld_exact (hblocks : st.Holds store file) : (byteWorld store).Exact store file st where
  blocks := hblocks
  runs := by
    intro n
    refine ⟨?_, ?_⟩
    · rintro req s (hs | hs)
      · exact Except.ok.inj hs ▸ bufferedBytes_byteFrames _
      · exact Except.ok.inj hs ▸ bufferedBytes_byteFrames _
    · rintro req s (hs | hs)
      · exact Except.ok.inj hs ▸ directBytes_byteFrames _
      · exact Except.ok.inj hs ▸ directBytes_byteFrames _
  cache := by
    intro c _ n reqs r hr
    simp [byteWorld] at hr

def smallStatus : URIStatus :=
  { length := 5, blockSizeBytes := 2, blockIds := [7, 8, 9], blockInfos := [] }

def smallStore (id : Int) : Bytes := if id = 7 then [1, 2] else if id = 8 then [3, 4] else [5]

theorem smallStatus_holds (cache : Option PageCache) (cacheSequentialRead : Bool)
    (tuning : ReadTuning) (chunkSize : Nat) :
    (openStream smallStatus cache cacheSequentialRead tuning chunkSize).Holds smallStore
      [1, 2, 3, 4, 5] := by
  have hnames : smallStatus.Names smallStore [1, 2, 3, 4, 5] := by
    refine ⟨fun i id hid _ => ?_, fun e he => by cases he⟩
    match i with
    | 0 => cases hid; rfl
    | 1 => cases hid; rfl
    | 2 => cases hid; rfl
  exact hnames.holds rfl

end Run

end GoosefsFileInStream

end GooseFS
