import Mathlib.Data.List.Chain
import GooseFS.IO.CacheDurability

/-!
# The requests of a block

In which chunks a block is sent, and where its flushes are.  As long as every
call succeeds, the pending chunk is shorter than a chunk, and a short chunk is sent
only on the way to a flush or to the end of the block.  So the requests of an open
block are `Settled`: any chunk may follow.

With `Settled` for the parameter of `Holding` the contracts of the cache side give
the shape of the chunks (`chunks_coalesce`), and with `FullChunks`, in a run
without explicit flushes, the place of the flushes (`flush_sent_iff`).
-/

namespace GooseFS

open Lib List

/-! ## Lists of requests -/

/-- A chunk of less than `chunkSize` bytes. -/
def WriteRequest.Short (chunkSize : Nat) : WriteRequest → Prop
  | .chunk data => data.length < chunkSize
  | .flush => False

/-- No chunk is longer than `chunkSize`, and only a flush follows a shorter one. -/
structure Coalesced (chunkSize : Nat) (sent : List WriteRequest) : Prop where
  atMost : ∀ data, WriteRequest.chunk data ∈ sent → data.length ≤ chunkSize
  boundary : sent.IsChain fun q next => q.Short chunkSize → next = .flush

/-- The last request is not a short chunk, so that a chunk may follow. -/
structure Settled (chunkSize : Nat) (sent : List WriteRequest) : Prop
    extends Coalesced chunkSize sent where
  last : ∀ q ∈ sent.getLast?, ¬q.Short chunkSize

def FullChunks (chunkSize : Nat) (sent : List WriteRequest) : Prop :=
  ∀ q ∈ sent, ∃ data, q = .chunk data ∧ data.length = chunkSize

section Requests

variable {chunkSize : Nat} {sent : List WriteRequest} {pending : Bytes} {flushed : Bool}

theorem Settled.snoc (h : Settled chunkSize sent) {data : Bytes} (hdata : data.length ≤ chunkSize) :
    Coalesced chunkSize (sent ++ [.chunk data]) where
  atMost := by
    intro d hd
    rcases mem_append.mp hd with hd | hd
    · exact h.atMost d hd
    · cases mem_singleton.mp hd
      exact hdata
  boundary := h.boundary.append (isChain_singleton _) fun q hq _ _ hshort =>
    absurd hshort (h.last q hq)

theorem Coalesced.flush (h : Coalesced chunkSize sent) : Settled chunkSize (sent ++ [.flush]) where
  atMost := by
    intro d hd
    rcases mem_append.mp hd with hd | hd
    · exact h.atMost d hd
    · cases mem_singleton.mp hd
  boundary := h.boundary.append (isChain_singleton _) fun _ _ next hnext _ =>
    (Option.some.inj hnext).symm
  last := by
    intro q hq
    rw [getLast?_concat] at hq
    cases hq
    exact id

theorem Settled.accumulates (chunkSize : Nat) : Accumulates chunkSize (Settled chunkSize) where
  nil := ⟨⟨fun _ h => (not_mem_nil h).elim, isChain_nil⟩, fun _ h => by cases h⟩
  full := by
    intro reqs data h hdata
    refine ⟨h.snoc (Nat.le_of_eq hdata), fun q hq => ?_⟩
    rw [getLast?_concat] at hq
    cases hq
    exact Nat.not_lt.mpr (Nat.le_of_eq hdata.symm)

theorem Settled.drained (h : Settled chunkSize sent) (hpending : pending.length < chunkSize) :
    Coalesced chunkSize (drained sent pending) := by
  unfold GooseFS.drained
  split
  · exact h.toCoalesced
  · exact h.snoc (Nat.le_of_lt hpending)

theorem FullChunks.accumulates (chunkSize : Nat) :
    Accumulates chunkSize (FullChunks chunkSize) where
  nil := fun _ h => by cases h
  full := by
    intro reqs data h hdata q hq
    rcases mem_append.mp hq with hq | hq
    · exact h q hq
    · exact ⟨data, mem_singleton.mp hq, hdata⟩

theorem FullChunks.flush_notMem_drained (h : FullChunks chunkSize sent) :
    WriteRequest.flush ∉ drained sent pending := by
  have hsent : WriteRequest.flush ∉ sent := by
    intro hmem
    obtain ⟨_, heq, _⟩ := h _ hmem
    cases heq
  unfold drained
  split
  · exact hsent
  · intro hmem
    rcases mem_append.mp hmem with hmem | hmem
    · exact hsent hmem
    · cases mem_singleton.mp hmem

theorem EndsBlock.settled (h : EndsBlock (Settled chunkSize) chunkSize true sent) :
    Settled chunkSize sent := by
  obtain ⟨reqs, pending, hreqs, hpending, rfl⟩ := h
  exact (hreqs.drained hpending).flush

theorem EndsBlock.coalesced (h : EndsBlock (Settled chunkSize) chunkSize flushed sent) :
    Coalesced chunkSize sent := by
  cases flushed with
  | true => exact h.settled.toCoalesced
  | false =>
    obtain ⟨reqs, pending, hreqs, hpending, rfl⟩ := h
    exact (append_nil (drained reqs pending)).symm ▸ hreqs.drained hpending

theorem EndsBlock.flush_mem_iff (h : EndsBlock (FullChunks chunkSize) chunkSize flushed sent) :
    WriteRequest.flush ∈ sent ↔ flushed = true := by
  obtain ⟨reqs, pending, hreqs, _, rfl⟩ := h
  have hno : WriteRequest.flush ∉ drained reqs pending := hreqs.flush_notMem_drained
  cases flushed with
  | true => simp
  | false => simpa using hno

end Requests

/-! ## Calls that succeed -/

namespace GoosefsFileWriter

variable {setup : WriterSetup} {env : CallEnv} {content data : Bytes} {w : GoosefsFileWriter}
  {K : List WriteRequest → Prop}

/-- An open writer whose cache, if it is still in use, holds `content` in shape. -/
def CacheShaped (setup : WriterSetup) (K : List WriteRequest → Prop) (content : Bytes)
    (w : GoosefsFileWriter) : Prop :=
  ¬w.Ended ∧ (w.shouldCache = true → Holding setup K content w.cache)

theorem CacheShaped.of_ticks (h : CacheShaped setup K content w) (n : Nat) :
    CacheShaped setup K content { w with cache := { w.cache with ticks := n } } :=
  ⟨h.1, fun hcache => (h.2 hcache).of_ticks n⟩

theorem write_shapes (hK : Accumulates setup.config.chunkSize K) (hbs : 0 < setup.blockSize)
    (hw : CacheShaped setup K content w) :
    Sat (· = w) (write setup env data) (fun _ => CacheShaped setup K (content ++ data))
      (fun _ _ => True) := by
  refine write_sat (fun _ _ _ => trivial) (fun _ => trivial) ?_ ?_
  · intro hnil
    rw [hnil, append_nil]
    exact hw.of_ticks 0
  · intro hopen _ b s hs
    refine (ufsPart_framed (P := CacheShaped setup K (content ++ data)) (fun _ _ h => h)
      fun _ _ _ h => h).mono ?_ (fun _ _ h => h) fun _ _ _ => trivial
    rintro _ rfl
    cases hs with
    | off hcache =>
      refine ⟨hopen, fun h => ?_⟩
      rw [show w.shouldCache = true from h] at hcache
      cases hcache
    | degraded => exact ⟨hopen, fun h => by cases h⟩
    | stored hcache hrun =>
      exact ⟨hopen, fun _ => (CacheM.writeLoop_sat hK hbs data.length data content
        (Nat.le_refl _)).ok ((hw.of_ticks 0).2 hcache) hrun⟩

theorem flush_shapes
    (hflush : ∀ reqs, EndsBlock K setup.config.chunkSize true reqs → K reqs)
    (hw : CacheShaped setup K content w) :
    Sat (· = w) (flush setup env) (fun _ => CacheShaped setup K content) (fun _ _ => True) := by
  refine Sat.bind (R := fun _ => CacheShaped setup K content) (Sat.modify ?_) fun _ =>
    Sat.get fun s hs => ?_
  · rintro _ rfl
    exact hw.of_ticks 0
  · rw [if_neg (show ¬(s.cancelled = true ∨ s.closed = true) from hs.1)]
    refine Sat.bind (R := fun _ => CacheShaped setup K content) (Sat.zoom ?_) fun _ => ?_
    · rintro _ rfl u _
      cases UfsM.flush env.ufs u with
      | ok v u' => exact hs
      | error e u' => trivial
    · split
      · refine Sat.zoom fun s hs => ?_
        cases hcache : s.shouldCache with
        | false =>
          exact Sat.trivial.post (fun _ _ _ => ⟨hs.1, fun h => by cases h⟩) fun _ _ h => h
        | true =>
          exact (CacheM.flushBlock_sat hflush).mono (fun _ h => h ▸ hs.2 hcache)
            (fun _ _ h => ⟨hs.1, fun _ => h⟩) fun _ _ _ => trivial
      · exact Sat.pure fun _ h => h

end GoosefsFileWriter

/-! ## Runs -/

namespace Session

open GoosefsFileWriter

variable {setup : WriterSetup} {K : List WriteRequest → Prop} {s s' : Session} {call : Call}
  {env : CallEnv} {m : WriterM Unit}

theorem exists_of_returnsOk {w : GoosefsFileWriter} (h : returnsOk m w = true) :
    ∃ w', m w = .ok () w' := by
  obtain ⟨u, w', hm, _⟩ := exists_of_succeeds m w _ h
  exact ⟨w', hm⟩

def Succeeds (setup : WriterSetup) (s : Session) : Call → Prop
  | .write env data => returnsOk (write setup env data) s.writer = true
  | .flush env => returnsOk (flush setup env) s.writer = true
  | .close _ => False
  | .cancel _ => False

def Writes (setup : WriterSetup) (s : Session) : Call → Prop
  | .write env data => returnsOk (write setup env data) s.writer = true
  | _ => False

instance (setup : WriterSetup) (s : Session) (call : Call) : Decidable (Succeeds setup s call) := by
  cases call <;> unfold Succeeds <;> infer_instance

instance (setup : WriterSetup) (s : Session) (call : Call) : Decidable (Writes setup s call) := by
  cases call <;> unfold Writes <;> infer_instance

theorem after_ok {w' : GoosefsFileWriter} (h : m s.writer = .ok () w') (data : Bytes) :
    s.after m data = ⟨w', s.accepted ++ data⟩ := by
  unfold after
  rw [h]

theorem write_shapes (hK : Accumulates setup.config.chunkSize K) (hbs : 0 < setup.blockSize)
    {data : Bytes} (hs : s.writer.CacheShaped setup K s.accepted)
    (hok : returnsOk (write setup env data) s.writer = true)
    (hnext : s.next setup (.write env data) = some s') :
    s'.writer.CacheShaped setup K s'.accepted := by
  obtain ⟨w', hw'⟩ := exists_of_returnsOk hok
  obtain rfl := Option.some.inj hnext
  rw [after_ok hw']
  exact (write_shapes hK hbs hs).ok rfl hw'

theorem flush_shapes
    (hflush : ∀ reqs, EndsBlock K setup.config.chunkSize true reqs → K reqs)
    (hs : s.writer.CacheShaped setup K s.accepted)
    (hok : returnsOk (flush setup env) s.writer = true)
    (hnext : s.next setup (.flush env) = some s') : s'.writer.CacheShaped setup K s'.accepted := by
  obtain ⟨w', hw'⟩ := exists_of_returnsOk hok
  obtain rfl := Option.some.inj hnext
  rw [after_ok hw', append_nil]
  exact (flush_shapes hflush hs).ok rfl hw'

theorem shaped_create {env₀ : CallEnv} {w₀ : GoosefsFileWriter}
    (hcreate : create setup env₀ = .ok w₀) :
    w₀.CacheShaped setup K [] := by
  obtain ⟨b, u, rfl, _⟩ := create_spec hcreate
  exact ⟨by simp [Ended, fresh], fun _ => holding_fresh⟩

theorem next_settles (hbs : 0 < setup.blockSize)
    (hs : s.writer.CacheShaped setup (Settled setup.config.chunkSize) s.accepted)
    (hok : Succeeds setup s call) (hnext : s.next setup call = some s') :
    s'.writer.CacheShaped setup (Settled setup.config.chunkSize) s'.accepted := by
  cases call with
  | write env data => exact write_shapes (Settled.accumulates _) hbs hs hok hnext
  | flush env =>
    exact flush_shapes (fun _ hends => hends.settled) hs hok hnext
  | close env | cancel env => exact hok.elim

theorem next_fills (hbs : 0 < setup.blockSize)
    (hs : s.writer.CacheShaped setup (FullChunks setup.config.chunkSize) s.accepted)
    (hok : Writes setup s call) (hnext : s.next setup call = some s') :
    s'.writer.CacheShaped setup (FullChunks setup.config.chunkSize) s'.accepted := by
  cases call with
  | write env data => exact write_shapes (FullChunks.accumulates _) hbs hs hok hnext
  | flush env | close env | cancel env => exact hok.elim

/-- After any writes and flushes that succeed, the pending chunk is short.  If the
file is then closed, the chunks of each block make up its bytes, all but the last
block are full, and a short chunk was sent only before a flush or at the end of
its block. -/
theorem chunks_coalesce {env₀ : CallEnv} {w₀ : GoosefsFileWriter} {calls : List Call} {s : Session}
    (hbs : 0 < setup.blockSize) (hcreate : GoosefsFileWriter.create setup env₀ = .ok w₀)
    (hrun : Guarded (next setup) (Succeeds setup) ⟨w₀, []⟩ calls s)
    (hcache : s.writer.shouldCache = true) :
    (∀ a, s.writer.cache.currentBlockWriter = some a →
      a.pendingChunk.length < setup.config.chunkSize) ∧
    ∀ env w', GoosefsFileWriter.close setup env s.writer = .ok () w' →
      ∃ blocks, FileBlocks setup s.accepted w'.cache.events blocks ∧
        ∀ (i : Nat) (b : ClosedBlock), blocks[i]? = some b →
          (i + 1 < blocks.length → b.content.length = setup.blockSize) ∧
          ∀ st ∈ b.streams, st.sent.flatMap WriteRequest.payload = b.content ∧
            Coalesced setup.config.chunkSize st.sent := by
  have hshaped : s.writer.CacheShaped setup (Settled setup.config.chunkSize) s.accepted :=
    hrun.invariant (fun _ _ _ hs hok hnext => next_settles hbs hs hok hnext)
      (shaped_create hcreate)
  have hholding := hshaped.2 hcache
  refine ⟨fun a ha => ?_, fun env w' hclose => ?_⟩
  · obtain ⟨done, cur, hstored, _⟩ := hholding
    exact (hstored.openBlock ha).short
  obtain ⟨blocks, hblocks, hends⟩ :=
    (GoosefsFileWriter.close_closes_blocks hbs hshaped.1 (hshaped.2 hcache)).ok rfl hclose
  exact ⟨blocks, hblocks, fun i b hb => ⟨fun hi => hblocks.full hbs hb hi, fun st hst =>
    ⟨((hblocks.replicated i b hb).received st hst).2, (hends i b hb st hst).coalesced⟩⟩⟩

/-! Chunks of three bytes in blocks of four, with a flush after the second byte. -/

def raggedSetup : WriterSetup :=
  ⟨{ smallConfig with chunkSize := 3, chunkSize_pos := by decide }, some 16777216, none, some 5⟩

def raggedStart : Session := ⟨fresh raggedSetup, []⟩

def raggedCalls : List Call :=
  [.write goodEnv [1, 2], .flush goodEnv, .write goodEnv [3, 4, 5, 6, 7, 8]]

/-- The requests of the streams that `close` leaves closed, if it succeeds. -/
def closedRequests (setup : WriterSetup) (s : Session) : Option (List (List WriteRequest)) :=
  match close setup goodEnv s.writer with
  | .ok _ w => some ((closedStreams w.cache.events).map GrpcBlockWriter.sent).dedup
  | .error _ _ => none

theorem close_of_closedRequests {reqs : List (List WriteRequest)}
    (h : closedRequests setup s = some reqs) :
    ∃ w', close setup goodEnv s.writer = .ok () w' := by
  unfold closedRequests at h
  cases hclose : close setup goodEnv s.writer with
  | ok u w' => exact ⟨w', rfl⟩
  | error e w' =>
    rw [hclose] at h
    cases h

theorem chunks_coalesce_ragged : ∃ s w' blocks,
    Guarded (next raggedSetup) (Succeeds raggedSetup) raggedStart raggedCalls s ∧
      GoosefsFileWriter.close raggedSetup goodEnv s.writer = .ok () w' ∧
      FileBlocks raggedSetup s.accepted w'.cache.events blocks ∧
      (∀ b ∈ blocks, ∀ st ∈ b.streams, Coalesced 3 st.sent) ∧
      closedRequests raggedSetup s =
        some [[.chunk [1, 2], .flush, .chunk [3, 4], .flush], [.chunk [5, 6, 7], .chunk [8]]] := by
  obtain ⟨s, hrun, hcache, hreqs⟩ : ∃ s,
      Guarded (next raggedSetup) (Succeeds raggedSetup) raggedStart raggedCalls s ∧
      s.writer.shouldCache = true ∧ closedRequests raggedSetup s =
        some [[.chunk [1, 2], .flush, .chunk [3, 4], .flush], [.chunk [5, 6, 7], .chunk [8]]] :=
    Guarded.exists_of_replay (by decide +kernel)
  have hcreate : GoosefsFileWriter.create raggedSetup goodEnv = .ok raggedStart.writer := rfl
  obtain ⟨w', hclose⟩ := close_of_closedRequests hreqs
  obtain ⟨_, hclosed⟩ := chunks_coalesce (by decide) hcreate hrun hcache
  obtain ⟨blocks, hblocks, hshape⟩ := hclosed goodEnv w' hclose
  refine ⟨s, w', blocks, hrun, hclose, hblocks, fun b hb st hst => ?_, hreqs⟩
  obtain ⟨i, hi⟩ := List.mem_iff_getElem?.mp hb
  exact ((hshape i b hi).2 st hst).2

/-- In a file that is written without explicit flushes, a block is flushed exactly
if a byte of the file lies behind it. -/
theorem flush_sent_iff {env₀ env : CallEnv} {w₀ w' : GoosefsFileWriter} {calls : List Call}
    {s : Session} (hbs : 0 < setup.blockSize)
    (hcreate : GoosefsFileWriter.create setup env₀ = .ok w₀)
    (hrun : Guarded (next setup) (Writes setup) ⟨w₀, []⟩ calls s)
    (hcache : s.writer.shouldCache = true)
    (hclose : GoosefsFileWriter.close setup env s.writer = .ok () w') :
    ∃ blocks, FileBlocks setup s.accepted w'.cache.events blocks ∧
      ∀ (i : Nat) (b : ClosedBlock), blocks[i]? = some b → ∀ st ∈ b.streams,
        WriteRequest.flush ∈ st.sent ↔ (i + 1) * setup.blockSize < s.accepted.length := by
  have hshaped : s.writer.CacheShaped setup (FullChunks setup.config.chunkSize) s.accepted :=
    hrun.invariant (fun _ _ _ hs hok hnext => next_fills hbs hs hok hnext)
      (shaped_create hcreate)
  obtain ⟨blocks, hblocks, hends⟩ :=
    (GoosefsFileWriter.close_closes_blocks hbs hshaped.1 (hshaped.2 hcache)).ok rfl hclose
  refine ⟨blocks, hblocks, fun i b hb st hst => ?_⟩
  rw [(hends i b hb st hst).flush_mem_iff, decide_eq_true_iff, hblocks.lt_length_iff hbs]

/-! A file of two full blocks. -/

def wholeStart : Session := ⟨fresh (smallSetup 1), []⟩

def wholeCalls : List Call := [.write goodEnv [1, 2, 3], .write goodEnv [4, 5, 6, 7, 8]]

theorem flush_sent_iff_whole : ∃ s w' blocks,
    Guarded (next (smallSetup 1)) (Writes (smallSetup 1)) wholeStart wholeCalls s ∧
      GoosefsFileWriter.close (smallSetup 1) goodEnv s.writer = .ok () w' ∧
      FileBlocks (smallSetup 1) s.accepted w'.cache.events blocks ∧
      (∀ (i : Nat) (b : ClosedBlock), blocks[i]? = some b → ∀ st ∈ b.streams,
        (WriteRequest.flush ∈ st.sent ↔ (i + 1) * 4 < s.accepted.length)) ∧
      closedRequests (smallSetup 1) s =
        some [[.chunk [1, 2], .chunk [3, 4], .flush], [.chunk [5, 6], .chunk [7, 8]]] := by
  obtain ⟨s, hrun, hcache, hreqs⟩ : ∃ s,
      Guarded (next (smallSetup 1)) (Writes (smallSetup 1)) wholeStart wholeCalls s ∧
      s.writer.shouldCache = true ∧ closedRequests (smallSetup 1) s =
        some [[.chunk [1, 2], .chunk [3, 4], .flush], [.chunk [5, 6], .chunk [7, 8]]] :=
    Guarded.exists_of_replay (by decide +kernel)
  have hcreate : GoosefsFileWriter.create (smallSetup 1) goodEnv = .ok wholeStart.writer := rfl
  obtain ⟨w', hclose⟩ := close_of_closedRequests hreqs
  obtain ⟨blocks, hblocks, hflush⟩ := flush_sent_iff (by decide) hcreate hrun hcache hclose
  exact ⟨s, w', blocks, hrun, hclose, hblocks, hflush, hreqs⟩

end Session

end GooseFS
