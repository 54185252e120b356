import GooseFS.Lib.Transition
import GooseFS.IO.CacheBlocks
import GooseFS.IO.UfsStream

/-!
# Durability of cached blocks

What a file writer has put into the cache when `close` succeeds.  Two things
break the relation between the accepted bytes and the cached ones without
failing a later `close`.  An explicit `flush` that fails can leave a block with
no replicas at all, and a write whose UFS part fails has already put its bytes
into the cache.  `CacheStep` excludes exactly these.
-/

namespace GooseFS

open Lib ClosedBlock List CacheM GoosefsFileWriter

/-- The streams closed are those of the blocks of `content`, each of them closed
on at least the required number of replicas. -/
structure FileBlocks (setup : WriterSetup) (content : Bytes) (events : List CacheEvent)
    (blocks : List ClosedBlock) : Prop where
  closed : closedStreams events = blocks.flatMap streams
  count : blocks.length = (content.length + setup.blockSize - 1) / setup.blockSize
  content : ∀ (i : Nat) (b : ClosedBlock), blocks[i]? = some b →
    b.content = slice content (i * setup.blockSize) setup.blockSize
  replicated : ∀ (i : Nat) (b : ClosedBlock), blocks[i]? = some b → b.Replicated setup events i

section Split

variable {setup : WriterSetup} {done last : List ClosedBlock} {cur : Bytes}
  {events : List CacheEvent}

theorem flatten_length {n : Nat} : ∀ {ps : List Bytes}, (∀ p ∈ ps, p.length = n) →
    ps.flatten.length = ps.length * n
  | [], _ => by simp
  | p :: rest, h => by
    rw [flatten_cons, length_append, h p (mem_cons_self ..),
      flatten_length fun q hq => h q (mem_cons_of_mem _ hq), length_cons, Nat.succ_mul,
      Nat.add_comm]

theorem fileBlocks_of_full (hbs : 0 < setup.blockSize)
    (hfull : ∀ b ∈ done, b.content.length = setup.blockSize) (hcur : cur.length ≤ setup.blockSize)
    (hlog : BlockLog setup (done ++ last) events)
    (hlast : last.map content = if cur = [] then [] else [cur]) :
    FileBlocks setup (done.flatMap content ++ cur) events (done ++ last) := by
  have hps : ∀ p ∈ done.map content, p.length = setup.blockSize := by
    intro p hp
    obtain ⟨b, hb, rfl⟩ := mem_map.mp hp
    exact hfull b hb
  have hlen : (done.flatMap content).length = done.length * setup.blockSize := by
    rw [flatMap_def, flatten_length hps, length_map]
  refine ⟨hlog.closed, ?_, ?_, hlog.replicated⟩
  · have hcount : last.length = if cur = [] then 0 else 1 := by
      rw [← length_map content, hlast]
      split <;> rfl
    rw [length_append, length_append, hlen, hcount]
    by_cases hnil : cur = []
    · rw [if_pos hnil, hnil, length_nil, Nat.add_zero, Nat.add_zero,
        Nat.add_sub_assoc hbs, Nat.mul_comm, Nat.mul_add_div hbs, Nat.div_eq_of_lt (by omega)]
      rfl
    · have hpos : 0 < cur.length := length_pos_iff.mpr hnil
      rw [if_neg hnil, Nat.add_assoc, Nat.add_sub_assoc (by omega), Nat.mul_comm,
        Nat.mul_add_div hbs]
      congr 1
      refine (Nat.div_eq_of_lt_le ?_ ?_).symm
      · omega
      · omega
  · intro i b hb
    have hpiece : (done.map content ++ [cur])[i]? = some b.content := by
      have hmap : ((done ++ last).map content)[i]? = some b.content := by
        rw [getElem?_map, hb]
        rfl
      rw [map_append, hlast] at hmap
      split at hmap
      · rw [append_nil] at hmap
        exact (getElem?_append_left (List.getElem?_eq_some_iff.mp hmap).1).trans hmap
      · exact hmap
    exact eq_slice_of_pieces hcur hps i _ hpiece

end Split

variable {content : Bytes} {setup : WriterSetup}

theorem FileBlocks.closed_ne_nil {events : List CacheEvent} {blocks : List ClosedBlock}
    (hbs : 0 < setup.blockSize) (h : FileBlocks setup content events blocks) (hne : content ≠ []) :
    closedStreams events ≠ [] := by
  have hlen : 0 < blocks.length := by
    have hpos : 0 < content.length := length_pos_iff.mpr hne
    rw [h.count]
    exact Nat.div_pos (by omega) hbs
  obtain ⟨b, rest, rfl⟩ := exists_cons_of_length_pos hlen
  have hb := h.replicated 0 b rfl
  have hstreams : b.streams ≠ [] := ne_nil_of_length_pos (Nat.lt_of_lt_of_le hb.required hb.enough)
  rw [h.closed, flatMap_cons]
  exact append_ne_nil_of_left_ne_nil hstreams _

section Full

variable {setup : WriterSetup} {content : Bytes} {events : List CacheEvent}
  {blocks : List ClosedBlock}

theorem FileBlocks.lt_length_iff (h : FileBlocks setup content events blocks)
    (hbs : 0 < setup.blockSize) (i : Nat) :
    i + 1 < blocks.length ↔ (i + 1) * setup.blockSize < content.length := by
  rw [h.count, Nat.lt_iff_add_one_le, Nat.le_div_iff_mul_le hbs, Nat.add_one_mul (i + 1)]
  omega

theorem FileBlocks.full (h : FileBlocks setup content events blocks) (hbs : 0 < setup.blockSize)
    {i : Nat} {b : ClosedBlock} (hb : blocks[i]? = some b) (hi : i + 1 < blocks.length) :
    b.content.length = setup.blockSize := by
  have hlen := (h.lt_length_iff hbs i).mp hi
  rw [Nat.add_one_mul] at hlen
  rw [h.content i b hb, slice_length_of_le (Nat.le_of_lt hlen)]

end Full

theorem Holding.of_ticks {K : List WriteRequest → Prop} {c : CacheSide}
    (h : Holding setup K content c) (n : Nat) : Holding setup K content { c with ticks := n } := by
  obtain ⟨done, cur, hstored, hcontent⟩ := h
  exact ⟨done, cur, ⟨hstored.log, hstored.ids, hstored.full, hstored.ended, hstored.current⟩,
    hcontent⟩

namespace GoosefsFileWriter

variable {setup : WriterSetup} {env : CallEnv} {content data : Bytes} {w : GoosefsFileWriter}

/-- Unless the writer has ended or writes to the UFS only, the cache holds
`content`. -/
def CacheKept (setup : WriterSetup) (content : Bytes) (w : GoosefsFileWriter) : Prop :=
  w.Ended ∨ w.shouldCache = false ∨ Holding setup AnyRequests content w.cache

theorem CacheKept.of_ticks (h : CacheKept setup content w) (n : Nat) :
    CacheKept setup content { w with cache := { w.cache with ticks := n } } :=
  h.imp id (Or.imp id fun h => h.of_ticks n)

/-- A write adds its data to the cache if it succeeds and nothing if it fails,
provided that it does not fail in the UFS part after the cache part. -/
theorem write_keeps_cache (hbs : 0 < setup.blockSize) (hw : CacheKept setup content w)
    (hufs : w.shouldCache = true → w.ufsWriteEnabled = true → UfsAccepts setup env.ufs w.ufs data) :
    Sat (· = w) (write setup env data) (fun _ => CacheKept setup (content ++ data))
      (fun _ => CacheKept setup content) := by
  refine write_sat (fun _ _ h => .inl h) (fun _ => hw.of_ticks 0) ?_ ?_
  · intro hnil
    rw [hnil, append_nil]
    exact hw.of_ticks 0
  · intro hopen hne b s hs
    -- what the UFS part and the accounting keep, and when the UFS part can fail
    have hrest : CacheKept setup (content ++ data) s →
        (s.ufsWriteEnabled = true → ¬UfsAccepts setup env.ufs s.ufs data →
          CacheKept setup content s) →
        Sat (· = s) (do writeToUfs setup env data; account setup data)
          (fun _ => CacheKept setup (content ++ data)) (fun _ => CacheKept setup content) := by
      intro hkept hfailed
      refine Sat.bind (R := fun _ => CacheKept setup (content ++ data)) ?_
        fun _ => Sat.modify fun _ h => h
      have hfeed : s.ufs.Feeding (closedUfs s.ufs.events)
          (s.ufs.stream.map GrpcBlockWriter.received) := ⟨rfl, rfl⟩
      refine (writeToUfs_sat hfeed).post ?_ ?_
      · rintro _ _ ⟨u, rfl, _⟩
        exact hkept
      · rintro _ _ ⟨u, rfl, _, henabled, hrefuses⟩
        exact hfailed henabled hrefuses
    cases hs with
    | off hcache => exact hrest (.inr (.inl hcache)) fun _ _ => .inr (.inl hcache)
    | degraded => exact hrest (.inr (.inl rfl)) fun _ _ => .inr (.inl rfl)
    | stored hcache hrun =>
      have hholding : Holding setup AnyRequests content w.cache :=
        (hw.resolve_left hopen).resolve_left (by rw [show w.shouldCache = true from hcache]; simp)
      have hholding' := (writeLoop_sat (AnyRequests.accumulates _) hbs data.length data content
        (Nat.le_refl _)).ok (hholding.of_ticks 0) hrun
      exact hrest (.inr (.inr hholding')) fun henabled hrefuses =>
        absurd (hufs hcache henabled) hrefuses

theorem flush_keeps_cache (hw : CacheKept setup content w)
    (hkeeps : setup.strategy.needAsyncPersist = true →
      setup.config.fileAsyncPersistFlushEnabled = true → ∀ a, w.cache.currentBlockWriter = some a →
        0 < a.bytesWritten → FlushKeeps env.cache.tasks a) :
    Sat (· = w) (flush setup env) (fun _ => CacheKept setup content)
      (fun _ => CacheKept setup content) := by
  refine Sat.modify_bind <| Sat.get fun s hs => ?_
  subst hs
  have hkept := hw.of_ticks 0
  by_cases hopen : w.cancelled = true ∨ w.closed = true
  · rw [if_pos hopen]
    exact Sat.throw fun _ h => h ▸ hkept
  · rw [if_neg hopen]
    refine Sat.bind (R := fun _ s => ∃ u, s =
      { w with cache := { w.cache with ticks := 0 }, ufs := u }) (Sat.zoom ?_) fun _ => ?_
    · rintro _ rfl u _
      cases UfsM.flush env.ufs u with
      | ok v u' => exact ⟨u', rfl⟩
      | error e u' => exact hkept
    refine Sat.of_forall ?_
    rintro _ ⟨u, rfl⟩
    by_cases hflush : setup.strategy.needAsyncPersist = true ∧
        setup.config.fileAsyncPersistFlushEnabled = true
    · rw [if_pos hflush]
      refine Sat.zoom ?_
      rintro _ rfl
      rcases hkept with hended | hoff | hholding
      · exact absurd hended hopen
      · intro c _
        cases flushBlock env.cache c with
        | ok v c' | error e c' => exact .inr (.inl hoff)
      · refine flushBlock_keeps.mono ?_ (fun _ _ h => .inr (.inr h))
          fun _ _ h => .inr (.inr h)
        rintro _ rfl
        exact ⟨hholding, rfl, hkeeps hflush.1 hflush.2⟩
    · rw [if_neg hflush]
      exact Sat.pure fun _ h => h ▸ hkept

/-- `close` leaves the blocks of the content, of which all but the last one ended with a
flush. -/
theorem close_closes_blocks {K : List WriteRequest → Prop} (hbs : 0 < setup.blockSize)
    (hopen : ¬w.Ended) (hw : Holding setup K content w.cache) :
    Sat (· = w) (close setup env)
      (fun _ s => ∃ blocks, FileBlocks setup content s.cache.events blocks ∧
        ∀ (i : Nat) (b : ClosedBlock), blocks[i]? = some b →
          b.Ends K setup.config.chunkSize (decide (i + 1 < blocks.length)))
      (fun _ _ => True) := by
  obtain ⟨done, cur, hstored, hbegun, rfl⟩ := hw.of_ticks 0
  have hlastBlock : Sat (· = { w.cache with ticks := 0 })
      (closeCurrentBlock setup env.cache false) _ _ :=
    (closeLastBlock_sat done cur false).fixed hstored
  refine (close_sat hopen Sat.trivial hlastBlock).post ?_ fun _ _ h => h
  rintro _ s ⟨_, _, _, ⟨last, hlog, hlast, hends⟩, _⟩
  refine ⟨done ++ last, fileBlocks_of_full hbs hstored.full hstored.fits hlog hlast,
    fun i b hb => ?_⟩
  have hlen : last.length = if cur = [] then 0 else 1 := by
    rw [← length_map content, hlast]
    split <;> rfl
  by_cases hi : i < done.length
  · have hmid : i + 1 < (done ++ last).length := by
      rw [length_append, hlen, if_neg (hbegun (ne_nil_of_length_pos (by omega)))]
      omega
    rw [getElem?_append_left hi] at hb
    rw [decide_eq_true hmid]
    exact hstored.ended b (mem_of_getElem? hb)
  · have hend : ¬i + 1 < (done ++ last).length := by
      rw [length_append, hlen]
      split
      · omega
      · omega
    rw [getElem?_append_right (Nat.le_of_not_lt hi)] at hb
    rw [decide_eq_false hend]
    exact hends b (mem_of_getElem? hb)

end GoosefsFileWriter

/-! ## Runs -/

namespace Session

open GoosefsFileWriter

variable {setup : WriterSetup}

/-- What a call must not meet: a write to both sides whose UFS part fails, or an
explicit flush that loses the last replicas of the open block. -/
def CacheStep (setup : WriterSetup) (s : Session) : Call → Prop
  | .write env data => s.writer.shouldCache = true → s.writer.ufsWriteEnabled = true →
      UfsAccepts setup env.ufs s.writer.ufs data
  | .flush env => setup.strategy.needAsyncPersist = true →
      setup.config.fileAsyncPersistFlushEnabled = true →
        ∀ a, s.writer.cache.currentBlockWriter = some a → 0 < a.bytesWritten →
          FlushKeeps env.cache.tasks a
  | .close _ => True
  | .cancel _ => True

theorem next_keeps_cache (hbs : 0 < setup.blockSize) {s s' : Session} {call : Call}
    (hs : s.writer.CacheKept setup s.accepted) (hstep : CacheStep setup s call)
    (hnext : s.next setup call = some s') : s'.writer.CacheKept setup s'.accepted := by
  refine next_of_sat (fun _ _ h => .inl h) ?_ ?_ hnext
  · rintro env data rfl
    exact write_keeps_cache hbs hs hstep
  · rintro env rfl
    exact flush_keeps_cache hs hstep

theorem holding_fresh {K : List WriteRequest → Prop} : Holding setup K [] (fresh setup).cache :=
  ⟨[], [], ⟨⟨rfl, fun _ _ h => by cases h⟩, rfl, fun _ h => (not_mem_nil h).elim,
    fun _ h => (not_mem_nil h).elim, .inl ⟨rfl, rfl⟩⟩, fun h => absurd rfl h, rfl⟩

/-- After any calls that meet `CacheStep`, a `close` that completes the file of a
writer that still caches has closed every block of the accepted bytes on enough
replicas. -/
theorem close_stores_accepted {env₀ env : CallEnv} {w₀ w' : GoosefsFileWriter} {calls : List Call}
    {s : Session} (hbs : 0 < setup.blockSize)
    (hcreate : create setup env₀ = .ok w₀)
    (hrun : Guarded (next setup) (CacheStep setup) ⟨w₀, []⟩ calls s)
    (hopen : ¬s.writer.Ended) (hcache : s.writer.shouldCache = true)
    (hclose : close setup env s.writer = .ok () w') :
    ∃ blocks, FileBlocks setup s.accepted w'.cache.events blocks := by
  have hstart : w₀.CacheKept setup [] := by
    obtain ⟨b, u, rfl, _⟩ := create_spec hcreate
    exact Or.inr (Or.inr holding_fresh)
  have hkept : s.writer.CacheKept setup s.accepted :=
    hrun.invariant (fun _ _ _ hs hstep hnext => next_keeps_cache hbs hs hstep hnext) hstart
  have hholding : Holding setup AnyRequests s.accepted s.writer.cache :=
    (hkept.resolve_left hopen).resolve_left (by rw [hcache]; simp)
  obtain ⟨blocks, hblocks, _⟩ :=
    (close_closes_blocks hbs hopen hholding).ok rfl hclose
  exact ⟨blocks, hblocks⟩

/-! A file of ASYNC_THROUGH type with blocks of four bytes and chunks of two. -/

def smallConfig : WriterConfig where
  blockSize := 4
  chunkSize := 2
  chunkSize_pos := Nat.zero_lt_two
  fileReplicationNumber := 2
  fileReplicationDurable := 2
  fileReplicationDurableMin := 1
  fileWriteMaxNodeRetry := 1
  fileAsyncPersistFlushEnabled := true
  ignoreBlockStreamUnknownStatus := false
  writerChecksumType := .crc32
  filePersistenceInitialWaitTimeMs := -1

def smallSetup (writeType : Int) : WriterSetup :=
  ⟨smallConfig, some 16777216, none, some writeType⟩

/-- `replicas` workers, of which replica `k` takes data if `send k` and a flush if
`flush k`; chunk `k` of the UFS stream is taken if `ufsSend k`. -/
def smallEnv (replicas : List Int) (send flush ufsSend : Nat → Bool) : CallEnv :=
  let worker : Int → WorkerInfo := fun id => ⟨some id, some ⟨some "worker", some 9203⟩, none, true⟩
  { router := none
    cache :=
      { selectWorkers := fun _ => .ok (replicas.map worker)
        allWorkers := fun _ => replicas.map worker
        openReplica := fun _ => none
        tasks := fun _ k => ⟨send k, if flush k then .ack none else .ended, false, k, true⟩
        closeReply := fun _ _ => .done
        commitLocation := fun _ => none }
    ufs := ⟨.ok (worker 9), fun _ => none, none, ufsSend, .ack none, .done⟩
    master := ⟨none, none, none, none, none⟩ }

def goodEnv : CallEnv := smallEnv [1, 2] (fun _ => true) (fun _ => true) (fun _ => true)

def flakyFlush : CallEnv := smallEnv [1, 2] (fun _ => true) (fun k => k = 0) (fun _ => true)

def smallWritten : Session :=
  Session.after ⟨fresh (smallSetup 5), []⟩
    (write (smallSetup 5) goodEnv [1, 2, 3, 4, 5]) [1, 2, 3, 4, 5]

def smallFlushed : Session :=
  smallWritten.after (flush (smallSetup 5) flakyFlush) []

def smallSession : Session :=
  smallFlushed.after (write (smallSetup 5) goodEnv [6]) [6]

theorem close_stores_accepted_small : ∃ w' blocks,
    close (smallSetup 5) goodEnv smallSession.writer = .ok () w' ∧
      FileBlocks (smallSetup 5) [1, 2, 3, 4, 5, 6] w'.cache.events blocks := by
  have hlast : Guarded (next (smallSetup 5)) (CacheStep (smallSetup 5)) smallFlushed
      [.write goodEnv [6]] smallSession := by
    refine .cons (fun _ hufs => ?_) rfl (.nil _)
    have hoff : smallFlushed.writer.ufsWriteEnabled = false := by decide +kernel
    rw [hoff] at hufs
    cases hufs
  have hflush : Guarded (next (smallSetup 5)) (CacheStep (smallSetup 5)) smallWritten
      [.flush flakyFlush, .write goodEnv [6]] smallSession := by
    refine .cons (fun _ _ a ha _ => ?_) rfl hlast
    have hkeeps : (smallWritten.writer.cache.currentBlockWriter.all
        fun a => decide (FlushKeeps flakyFlush.cache.tasks a)) = true := by decide +kernel
    rw [ha] at hkeeps
    exact of_decide_eq_true hkeeps
  have hrun : Guarded (next (smallSetup 5)) (CacheStep (smallSetup 5))
      ⟨fresh (smallSetup 5), []⟩
      [.write goodEnv [1, 2, 3, 4, 5], .flush flakyFlush, .write goodEnv [6]] smallSession :=
    .cons (fun _ hufs => by cases hufs) rfl hflush
  have hopen : ¬smallSession.writer.Ended := by decide +kernel
  have hcache : smallSession.writer.shouldCache = true := by decide +kernel
  have haccepted : smallSession.accepted = [1, 2, 3, 4, 5, 6] := by decide +kernel
  obtain ⟨u, w', hclose, -⟩ := exists_of_succeeds
    (close (smallSetup 5) goodEnv) smallSession.writer (fun _ _ => true)
    (by decide +kernel)
  have hbs : 0 < (smallSetup 5).blockSize := by decide
  have hcreate : create (smallSetup 5) goodEnv = .ok (fresh (smallSetup 5)) := rfl
  obtain ⟨blocks, hblocks⟩ := close_stores_accepted hbs hcreate hrun hopen hcache hclose
  rw [haccepted] at hblocks
  exact ⟨w', blocks, hclose, hblocks⟩

/-- One worker, which does not take the chunk that the flush sends. -/
def refusedFlush : CallEnv := smallEnv [1] (fun _ => false) (fun _ => true) (fun _ => true)

def oneReplica : CallEnv := smallEnv [1] (fun _ => true) (fun _ => true) (fun _ => true)

def lostWritten : Session :=
  Session.after ⟨fresh (smallSetup 5), []⟩
    (write (smallSetup 5) oneReplica [1, 2, 3]) [1, 2, 3]

def lostSession : Session :=
  lostWritten.after (flush (smallSetup 5) refusedFlush) []

/-- A flush that fails leaves a block without replicas, and `close` completes the
file. -/
theorem failed_flush_loses_block : ∃ w', create (smallSetup 5) oneReplica =
      .ok (fresh (smallSetup 5)) ∧
    Guarded (next (smallSetup 5)) (fun _ _ => True) ⟨fresh (smallSetup 5), []⟩
      [.write oneReplica [1, 2, 3], .flush refusedFlush] lostSession ∧
    ¬lostSession.writer.Ended ∧ lostSession.writer.shouldCache = true ∧
    lostSession.accepted = [1, 2, 3] ∧
    close (smallSetup 5) oneReplica lostSession.writer = .ok () w' ∧
    ¬∃ blocks, FileBlocks (smallSetup 5) lostSession.accepted w'.cache.events blocks := by
  have haccepted : lostSession.accepted = [1, 2, 3] := by decide +kernel
  obtain ⟨u, w', hclose, hnone⟩ := exists_of_succeeds
    (close (smallSetup 5) oneReplica) lostSession.writer
    (fun _ w => (closedStreams w.cache.events).isEmpty) (by decide +kernel)
  refine ⟨w', rfl, .cons trivial rfl (.cons trivial rfl (.nil _)),
    by decide +kernel, by decide +kernel, haccepted, hclose, ?_⟩
  rintro ⟨blocks, hblocks⟩
  rw [haccepted] at hblocks
  exact FileBlocks.closed_ne_nil (by decide) hblocks (by decide) (List.isEmpty_iff.mp hnone)

end Session

end GooseFS
