import GooseFS.IO.CacheDurability
import GooseFS.IO.CacheSteps

/-!
# Durability in the under store

What a file writer has put into the under store when `close` succeeds.  While
the writer is open, its UFS stream has received exactly the accepted bytes
(`Fed`), and length and checksum are theirs.  A chunk that the stream refuses
breaks this for good once a byte was accepted: the stream is dropped, the next
write opens a new one that starts in the middle of the file, and `close` does
not notice.  `UfsStep` excludes exactly that.

A writer that only caches can still degrade to the UFS, but not after the first
accepted byte: an ASYNC_THROUGH writer has opened a block by then, and its cache
failures are fatal from there on.
-/

namespace GooseFS

open Lib GrpcBlockWriter Option

/-! ## A block was opened -/

/-- `blockOpened` is set if it was set before (`b`) or if a block is open. -/
def CacheSide.Marked (b : Bool) (c : CacheSide) : Prop :=
  (b = true → c.blockOpened = true) ∧ (c.currentBlockWriter ≠ none → c.blockOpened = true)

variable {b : Bool} {c : CacheSide} {env : CacheEnv}

theorem CacheSide.Marked.weaken (h : c.Marked true) (b : Bool) : c.Marked b :=
  ⟨fun _ => h.1 rfl, h.2⟩

theorem CacheSide.Marked.of_opened (h : c.blockOpened = true) : c.Marked true :=
  ⟨fun _ => h, fun _ => h⟩

namespace CacheSide

variable {env : CacheEnv} {b : Bool} {c c' : CacheSide}

theorem BlockStep.marked (h : BlockStep env c c') (hc : c.Marked b) : c'.Marked b := by
  cases h with
  | fill n pending ha | perform ha _ => exact ⟨hc.1, fun _ => hc.2 (by rw [ha]; simp)⟩

theorem Refuses.marked {op : ReplicaOp} {e : Error} (h : Refuses env op e c c')
    (hc : c.Marked b) : c'.Marked b := by
  cases h with
  | intro ha _ => exact ⟨hc.1, fun _ => hc.2 (by rw [ha]; simp)⟩

theorem marked_invariant (setup : WriterSetup) (b : Bool) : CacheInvariant setup (Marked b) where
  ticks := fun _ _ h => h
  step := by
    intro env c c' hc hs
    cases hs with
    | block hs => exact hs.marked hc
    | discard ha | commit n ha _ _ => exact ⟨hc.1, fun h => absurd rfl h⟩
    | opens _ _ _ => exact (Marked.of_opened rfl).weaken b
  refuses := fun _ _ _ _ _ hc h => h.marked hc
  fails := by
    intro env c op e c' hc hs
    cases hs with
    | plan _ _ => exact hc
    | openBlock _ _ hopen =>
      have hframe : c.Frame c' := CacheM.openBlock_frame hopen
      unfold Marked
      rw [hframe.blockOpened, hframe.current]
      exact hc
    | send hrefuses => exact hrefuses.marked hc
    | abandon hrefuses _ => exact ⟨(hrefuses.marked hc).1, fun h => absurd rfl h⟩
    | close _ _ | commitLocation _ _ _ _ => exact ⟨hc.1, fun h => absurd rfl h⟩
  tornDown := by
    intro c blacklist hc
    unfold tornDown
    cases hcurrent : c.currentBlockWriter with
    | none => exact hc
    | some a => exact ⟨hc.1, fun h => absurd rfl h⟩

end CacheSide

theorem CacheM.writeToCacheStream_marked {setup : WriterSetup} {data : Bytes} (hne : data ≠ []) :
    Sat (CacheSide.Marked b) (writeToCacheStream setup env data)
      (fun _ => CacheSide.Marked true) (fun _ => CacheSide.Marked b) := by
  have hinv := CacheSide.marked_invariant setup b
  refine Sat.of_forall fun c hc => ?_
  refine (writeToCacheStream_traced c data).post ?_ ?_
  · rintro _ c' ⟨hreach, hopen⟩
    exact .of_opened ((hinv.reaches hreach hc).2 (hopen hne))
  · rintro e c' ⟨op, hstops⟩
    exact hinv.stops hstops hc

theorem CacheM.flushBlock_marked (setup : WriterSetup) :
    Sat (CacheSide.Marked b) (flushBlock env) (fun _ => CacheSide.Marked b)
      (fun _ => CacheSide.Marked b) := by
  have hinv := CacheSide.marked_invariant setup b
  refine Sat.of_forall fun c hc => ?_
  refine (flushBlock_traced c).post (fun _ _ h => hinv.works h hc) ?_
  rintro e c' ⟨op, c₁, hworks, hrefuses⟩
  exact hrefuses.marked (hinv.works hworks hc)

namespace GoosefsFileWriter

variable {setup : WriterSetup} {env : CallEnv} {content data : Bytes} {b : Bool}
  {w : GoosefsFileWriter}

/-- The state of an open writer that has accepted `content`. -/
structure Fed (setup : WriterSetup) (content : Bytes) (b : Bool) (w : GoosefsFileWriter) :
    Prop where
  length : w.totalBytesWritten = content.length
  checksum : w.checksum = setup.config.writerChecksumType.checksum content
  uncompleted : w.completedFiles = []
  closed : closedUfs w.ufs.events = []
  caching : w.ufsWriteEnabled = false →
    w.ufs.stream = none ∧ setup.strategy.ufsStream = false ∧ w.shouldCache = true
  feeding : w.ufsWriteEnabled = true →
    w.ufs.stream.map received = some content ∨ (w.ufs.stream = none ∧ content = [])
  marked : setup.strategy.ufsStream = false → w.shouldCache = true → w.cache.Marked b

/-- Unless the writer has ended, the UFS side has received `content`. -/
def UfsKept (setup : WriterSetup) (content : Bytes) (w : GoosefsFileWriter) : Prop :=
  w.Ended ∨ w.Fed setup content (content ≠ [])

theorem Fed.withCache (h : w.Fed setup content b) {c : CacheSide} {b' : Bool}
    (hc : setup.strategy.ufsStream = false → w.shouldCache = true → c.Marked b') :
    Fed setup content b' { w with cache := c } :=
  { h with marked := hc }

theorem Fed.weaken (h : w.Fed setup content true) (b : Bool) : w.Fed setup content b :=
  { h with marked := fun hufs hcache => (h.marked hufs hcache).weaken b }

theorem not_opened_of_degrades {e : Error} {strategy : WriteStrategy} {opened ignore : Bool}
    (hufs : strategy.ufsStream = false)
    (h : cacheWriteFailureIsFatal e strategy opened ignore = false) : opened = false := by
  cases opened with
  | false => rfl
  | true =>
    cases hasync : strategy.needAsyncPersist <;>
      cases e <;> simp [cacheWriteFailureIsFatal, hufs, hasync] at h

/-- The cache part of a write leaves the UFS side as it was.  A writer that
degrades here without having written to the UFS has accepted nothing. -/
theorem CacheOutcome.fed {s : GoosefsFileWriter} (h : CacheOutcome setup env.cache data w s)
    (hne : data ≠ []) (hw : w.Fed setup content (content ≠ [])) :
    s.Fed setup content true ∧
      (s.ufsWriteEnabled = true → content ≠ [] → w.ufsWriteEnabled = true) := by
  cases h with
  | off hcache =>
    refine ⟨{ hw with marked := fun _ hc => ?_ }, fun henabled _ => henabled⟩
    rw [hcache] at hc
    cases hc
  | stored hcache hrun =>
    refine ⟨hw.withCache fun hufs hc => ?_, fun henabled _ => henabled⟩
    exact (CacheM.writeToCacheStream_marked hne).ok (hw.marked hufs hc) hrun
  | degraded hcache hrun hfatal =>
    have hempty : w.ufsWriteEnabled = false → content = [] := by
      intro hoff
      have hufs := (hw.caching hoff).2.1
      have hc := (CacheM.writeToCacheStream_marked hne).error (hw.marked hufs hcache) hrun
      by_contra hcontent
      have hopened := hc.1 (decide_eq_true hcontent)
      rw [not_opened_of_degrades hufs hfatal] at hopened
      cases hopened
    refine ⟨⟨hw.length, hw.checksum, hw.uncompleted, hw.closed, fun h => (by cases h), fun _ => ?_,
      fun _ h => (by cases h)⟩, fun _ hcontent => ?_⟩
    · cases henabled : w.ufsWriteEnabled with
      | true => exact hw.feeding henabled
      | false => exact .inr ⟨(hw.caching henabled).1, hempty henabled⟩
    · cases henabled : w.ufsWriteEnabled with
      | true => rfl
      | false => exact absurd (hempty henabled) hcontent

theorem ufsPart_keeps_ufs (hw : w.Fed setup content true)
    (htakes : content ≠ [] → w.ufsWriteEnabled = true → env.ufs.Takes setup.config.chunkSize data) :
    Sat (· = w) (do writeToUfs setup env data; account setup data)
      (fun _ => Fed setup (content ++ data) true) (fun _ => Fed setup content (content ≠ [])) := by
  have hfeed : w.ufs.Feeding [] (w.ufs.stream.map received) := ⟨hw.closed, rfl⟩
  have hcontent : w.ufsWriteEnabled = true → (w.ufs.stream.map received).getD [] = content := by
    intro henabled
    rcases hw.feeding henabled with h | ⟨h, rfl⟩
    · rw [h]
      rfl
    · rw [h]
      rfl
  refine Sat.bind (R := fun _ s => ∃ u, s = { w with ufs := u } ∧ u.Feeding []
    (if w.ufsWriteEnabled then some (content ++ data) else none)) ?_ fun _ => Sat.modify ?_
  · refine (writeToUfs_sat hfeed).post ?_ ?_
    · rintro _ _ ⟨u, rfl, hu⟩
      refine ⟨u, rfl, ?_⟩
      by_cases henabled : w.ufsWriteEnabled = true
      · rw [if_pos henabled, hcontent henabled] at hu
        rw [if_pos henabled]
        exact hu
      · rw [if_neg henabled, (hw.caching (Bool.not_eq_true _ ▸ henabled)).1] at hu
        rw [if_neg henabled]
        exact hu
    · rintro _ _ ⟨u, rfl, hu, henabled, hrefuses⟩
      have hempty : content = [] := by
        by_contra hne
        refine hrefuses ⟨fun hnone => ?_, htakes hne henabled⟩
        rcases hw.feeding henabled with h | ⟨_, h⟩
        · rw [hnone] at h
          cases h
        · exact absurd h hne
      have hnone : u.stream = none := map_eq_none_iff.mp hu.content
      exact { hw.weaken _ with
        closed := hu.closed
        caching := fun hoff => absurd (hoff.symm.trans henabled) Bool.false_ne_true
        feeding := fun _ => .inr ⟨hnone, hempty⟩ }
  · rintro _ ⟨u, rfl, hu⟩
    refine ⟨?_, ?_, hw.uncompleted, hu.closed, fun hoff => ?_, fun hon => ?_, hw.marked⟩
    · show w.totalBytesWritten + data.length = _
      rw [hw.length, List.length_append]
    · show setup.config.writerChecksumType.update w.checksum data = _
      rw [hw.checksum]
      exact (WriterChecksumType.update_append _ _ _ _).symm
    · have hcontent' := hu.content
      rw [show w.ufsWriteEnabled = false from hoff] at hcontent'
      exact ⟨map_eq_none_iff.mp hcontent', (hw.caching hoff).2⟩
    · have hcontent' := hu.content
      rw [show w.ufsWriteEnabled = true from hon] at hcontent'
      exact .inl hcontent'

/-- A write adds its data to the UFS stream if it succeeds and nothing if it
fails, provided that the stream refuses no chunk after the first byte. -/
theorem write_keeps_ufs (hw : UfsKept setup content w)
    (htakes : ∀ b s, CacheOutcome setup env.cache data
      { w with cache := { w.cache with ticks := 0 }, routerNeedsInit := b } s →
        0 < w.totalBytesWritten → w.ufsWriteEnabled = true → s.ufsWriteEnabled = true →
          env.ufs.Takes setup.config.chunkSize data) :
    Sat (· = w) (write setup env data) (fun _ => UfsKept setup (content ++ data))
      (fun _ => UfsKept setup content) := by
  have hticks : UfsKept setup content { w with cache := { w.cache with ticks := 0 } } :=
    hw.imp id fun h => h.withCache h.marked
  refine write_sat (fun _ _ h => .inl h) (fun _ => hticks) ?_ ?_
  · intro hnil
    rw [hnil, List.append_nil]
    exact hticks
  · intro hopen hne r s hs
    have hfed := hw.resolve_left hopen
    have hstart : Fed setup content (content ≠ [])
        { w with cache := { w.cache with ticks := 0 }, routerNeedsInit := r } :=
      { hfed.withCache hfed.marked with }
    obtain ⟨hs', henabled⟩ := hs.fed hne hstart
    refine (ufsPart_keeps_ufs hs' fun hcontent hon => ?_).post
      (fun _ _ h => .inr (h.weaken _)) fun _ _ h => .inr h
    have hpos : 0 < w.totalBytesWritten := by
      rw [hfed.length]
      exact List.length_pos_iff.mpr hcontent
    exact htakes r s hs hpos (henabled hon hcontent) hon

theorem flush_keeps_ufs (hw : UfsKept setup content w) :
    Sat (· = w) (flush setup env) (fun _ => UfsKept setup content)
      (fun _ => UfsKept setup content) := by
  have hticks : UfsKept setup content { w with cache := { w.cache with ticks := 0 } } :=
    hw.imp id fun h => h.withCache h.marked
  refine begin_sat ?_
  by_cases hopen : w.cancelled = true ∨ w.closed = true
  · rw [if_pos hopen]
    exact Sat.throw fun _ h => h ▸ hticks
  · rw [if_neg hopen]
    have hfed := hticks.resolve_left hopen
    have hfeed : w.ufs.Feeding [] (w.ufs.stream.map received) := ⟨hfed.closed, rfl⟩
    have hflushed : ∀ u : UfsSide, u.Feeding [] (w.ufs.stream.map received) →
        Fed setup content (content ≠ [])
          { w with cache := { w.cache with ticks := 0 }, ufs := u } := by
      intro u hu
      have hstream : u.stream = none ↔ w.ufs.stream = none := by
        rw [← map_eq_none_iff, hu.content, map_eq_none_iff]
      exact { hfed with
        closed := hu.closed
        caching := fun hoff => ⟨hstream.mpr (hfed.caching hoff).1, (hfed.caching hoff).2⟩
        feeding := fun hon => (hfed.feeding hon).imp hu.content.trans
          fun h => ⟨hstream.mpr h.1, h.2⟩ }
    refine Sat.bind (R := fun _ => Fed setup content (content ≠ [])) (Sat.zoom ?_) fun _ => ?_
    · rintro _ rfl
      exact UfsM.flush_sat.mono (fun _ h => h ▸ hfeed) (fun _ u hu => hflushed u hu)
        fun _ u hu => .inr (hflushed u hu)
    split
    case isFalse => exact Sat.pure fun _ h => .inr h
    case isTrue =>
      refine Sat.zoom fun s hs => ?_
      by_cases hmarked : setup.strategy.ufsStream = false ∧ s.shouldCache = true
      · refine (CacheM.flushBlock_marked setup).mono (fun _ h => h ▸ hs.marked hmarked.1 hmarked.2)
          (fun _ c hc => .inr (hs.withCache fun _ _ => hc))
          fun _ c hc => .inr (hs.withCache fun _ _ => hc)
      · intro c _
        cases CacheM.flushBlock env.cache c with
        | ok u c' | error e c' => exact .inr (hs.withCache fun h h' => absurd ⟨h, h'⟩ hmarked)

theorem no_ufsStream_or_sync (writeType : Option Int) :
    (resolveWriteStrategy writeType).ufsStream = false ∨
      (resolveWriteStrategy writeType).needAsyncPersist = false := by
  unfold resolveWriteStrategy
  split <;> simp

theorem cacheStream_of_no_ufsStream {writeType : Option Int}
    (h : (resolveWriteStrategy writeType).ufsStream = false) :
    (resolveWriteStrategy writeType).cacheStream = true := by
  unfold resolveWriteStrategy at h ⊢
  split at h <;> simp_all

theorem create_fed (h : create setup env = .ok w) : UfsKept setup [] w := by
  obtain ⟨r, u, rfl, hu⟩ := create_spec h
  refine .inr ⟨rfl, (WriterChecksumType.update_nil _ _).symm, rfl, hu.closed, fun hoff => ?_,
    fun hon => ?_, fun _ _ => ⟨fun h => (by simp at h), fun h => absurd rfl h⟩⟩
  · have hufs : setup.strategy.ufsStream = false := hoff
    have hcontent := hu.content
    rw [hufs] at hcontent
    exact ⟨map_eq_none_iff.mp hcontent, hufs, cacheStream_of_no_ufsStream hufs⟩
  · have hcontent := hu.content
    rw [show setup.strategy.ufsStream = true from hon] at hcontent
    exact .inl hcontent

/-- What `close` leaves when it has completed a file of `content` through the
UFS. -/
structure Persisted (setup : WriterSetup) (content : Bytes) (w : GoosefsFileWriter) : Prop where
  stream : ∃ s, closedUfs w.ufs.events = [s] ∧ s.received = content
  completed : ∃ options, w.completedFiles = [options] ∧ options.ufsLength = some content.length ∧
    options.crcType = some setup.config.writerChecksumType.asI32 ∧
    options.crcValue = some (setup.config.writerChecksumType.checksum content).toNat

theorem close_reports (hopen : ¬w.Ended) (hw : w.Fed setup content b) :
    Sat (· = w) (close setup env)
      (fun _ s => ∃ options, s.completedFiles = [options] ∧
        options.ufsLength = some content.length ∧
        options.crcType = some setup.config.writerChecksumType.asI32 ∧
        options.crcValue = some (setup.config.writerChecksumType.checksum content).toNat)
      (fun _ _ => True) := by
  refine (close_sat hopen Sat.trivial Sat.trivial).post ?_ fun _ _ h => h
  rintro _ s ⟨completed, last, _, _, hmaster⟩
  refine ⟨_, by rw [hmaster, hw.uncompleted]; rfl, congrArg some hw.length, rfl, ?_⟩
  show some w.checksum.toNat = _
  rw [hw.checksum]

theorem close_persists (hopen : ¬w.Ended) (hw : w.Fed setup content b)
    (hufs : setup.strategy.ufsStream = true ∨ w.shouldCache = false) (hne : content ≠ []) :
    Sat (· = w) (close setup env) (fun _ => Persisted setup content) (fun _ _ => True) := by
  have henabled : w.ufsWriteEnabled = true := by
    by_contra hoff
    obtain ⟨_, hno, hcache⟩ := hw.caching (Bool.not_eq_true _ ▸ hoff)
    rw [hno, hcache] at hufs
    simp at hufs
  have hfeed : w.ufs.Feeding [] (some content) := by
    refine ⟨hw.closed, (hw.feeding henabled).resolve_right ?_⟩
    exact fun h => hne h.2
  refine ((close_sat hopen (UfsM.close_sat.mono (fun _ h => h ▸ hfeed) (fun _ _ h => h)
    fun _ _ _ => trivial) Sat.trivial).and (close_reports hopen hw)).post ?_ fun _ _ _ => trivial
  rintro _ s ⟨⟨completed, last, ⟨_, _, more, hclosed, hmore⟩, _⟩, hreported⟩
  obtain ⟨stream, rfl, hreceived⟩ := List.map_eq_singleton_iff.mp hmore
  exact ⟨⟨stream, hclosed, hreceived⟩, hreported⟩

end GoosefsFileWriter

/-! ## Runs -/

namespace Session

open GoosefsFileWriter

variable {setup : WriterSetup}

/-- What a call must not meet: a chunk of a write that the UFS stream refuses
after a byte was accepted. -/
def UfsStep (setup : WriterSetup) (s : Session) : Call → Prop
  | .write env data => 0 < s.writer.totalBytesWritten → s.writer.ufsWriteEnabled = true →
      env.ufs.Takes setup.config.chunkSize data
  | .flush _ => True
  | .close _ => True
  | .cancel _ => True

theorem next_keeps_ufs {s s' : Session} {call : Call}
    (hs : s.writer.UfsKept setup s.accepted) (hstep : UfsStep setup s call)
    (hnext : s.next setup call = some s') : s'.writer.UfsKept setup s'.accepted := by
  refine next_of_sat (fun _ _ h => .inl h) ?_ (fun _ _ => flush_keeps_ufs hs)
    hnext
  rintro env data rfl
  exact write_keeps_ufs hs fun _ _ _ hpos hon _ => hstep hpos hon

/-- After any calls that meet `UfsStep`, a `close` that completes the file of a
writer with a UFS stream, or of one that degraded to the UFS, has closed one
stream that received the accepted bytes, and reported their length and
checksum. -/
theorem close_persists_accepted {env₀ env : CallEnv} {w₀ w' : GoosefsFileWriter}
    {calls : List Call} {s : Session}
    (hcreate : GoosefsFileWriter.create setup env₀ = .ok w₀)
    (hrun : Guarded (next setup) (UfsStep setup) ⟨w₀, []⟩ calls s)
    (hopen : ¬s.writer.Ended)
    (hufs : setup.strategy.ufsStream = true ∨ s.writer.shouldCache = false)
    (hne : s.accepted ≠ [])
    (hclose : GoosefsFileWriter.close setup env s.writer = .ok () w') :
    w'.Persisted setup s.accepted := by
  have hkept : s.writer.UfsKept setup s.accepted :=
    hrun.invariant (fun _ _ _ hs hstep hnext => next_keeps_ufs hs hstep hnext)
      (GoosefsFileWriter.create_fed hcreate)
  have hfed := hkept.resolve_left hopen
  exact (GoosefsFileWriter.close_persists hopen hfed hufs hne).ok rfl hclose

/-! A CACHE_THROUGH file of five bytes whose cache fails in the second write. -/

def refusedSend : CallEnv := smallEnv [1, 2] (fun _ => false) (fun _ => true) (fun _ => true)

def smallStart (writeType : Int) : GoosefsFileWriter :=
  { fresh (smallSetup writeType) with
    routerNeedsInit := false
    ufs := ⟨some (openStream (-1)), some (rpcEndpoint ⟨some "worker", some 9203⟩), []⟩ }

def throughWritten : Session :=
  Session.after ⟨smallStart 3, []⟩
    (write (smallSetup 3) goodEnv [1, 2, 3]) [1, 2, 3]

def throughSession : Session :=
  throughWritten.after (write (smallSetup 3) refusedSend [4, 5]) [4, 5]

theorem close_persists_accepted_small : throughSession.writer.shouldCache = false ∧ ∃ w',
    GoosefsFileWriter.close (smallSetup 3) goodEnv throughSession.writer = .ok () w' ∧
      w'.Persisted (smallSetup 3) [1, 2, 3, 4, 5] := by
  have hlast : Guarded (next (smallSetup 3)) (UfsStep (smallSetup 3)) throughWritten
      [.write refusedSend [4, 5]] throughSession :=
    .cons (fun _ _ _ _ => rfl) rfl (.nil _)
  have hrun : Guarded (next (smallSetup 3)) (UfsStep (smallSetup 3)) ⟨smallStart 3, []⟩
      [.write goodEnv [1, 2, 3], .write refusedSend [4, 5]] throughSession :=
    .cons (fun _ _ _ _ => rfl) rfl hlast
  have hcreate : GoosefsFileWriter.create (smallSetup 3) goodEnv = .ok (smallStart 3) := rfl
  have hopen : ¬throughSession.writer.Ended := by decide +kernel
  have hcache : throughSession.writer.shouldCache = false := by decide +kernel
  have haccepted : throughSession.accepted = [1, 2, 3, 4, 5] := by decide +kernel
  obtain ⟨u, w', hclose, -⟩ := exists_of_succeeds
    (GoosefsFileWriter.close (smallSetup 3) goodEnv) throughSession.writer (fun _ _ => true)
    (by decide +kernel)
  have hpersisted := close_persists_accepted hcreate hrun hopen (Or.inr hcache)
    (by rw [haccepted]; simp) hclose
  rw [haccepted] at hpersisted
  exact ⟨hcache, w', hclose, hpersisted⟩

def refusedUfs : CallEnv := smallEnv [1, 2] (fun _ => true) (fun _ => true) (fun _ => false)

def tornWritten : Session :=
  Session.after ⟨smallStart 4, []⟩
    (write (smallSetup 4) goodEnv [1, 2, 3]) [1, 2, 3]

def tornSession : Session :=
  tornWritten.after (write (smallSetup 4) refusedUfs [4, 5]) [4, 5]

/-- A THROUGH write that fails drops the UFS stream with the bytes accepted
before, and `close` completes the file. -/
theorem failed_write_loses_ufs_stream : ∃ w',
    GoosefsFileWriter.create (smallSetup 4) goodEnv = .ok (smallStart 4) ∧
    Guarded (next (smallSetup 4)) (fun _ _ => True) ⟨smallStart 4, []⟩
      [.write goodEnv [1, 2, 3], .write refusedUfs [4, 5]] tornSession ∧
    ¬tornSession.writer.Ended ∧ (smallSetup 4).strategy.ufsStream = true ∧
    tornSession.accepted = [1, 2, 3] ∧
    GoosefsFileWriter.close (smallSetup 4) goodEnv tornSession.writer = .ok () w' ∧
    closedUfs w'.ufs.events = [] ∧ ¬w'.Persisted (smallSetup 4) tornSession.accepted := by
  obtain ⟨u, w', hclose, hempty⟩ := exists_of_succeeds
    (GoosefsFileWriter.close (smallSetup 4) goodEnv) tornSession.writer
    (fun _ w => (closedUfs w.ufs.events).isEmpty) (by decide +kernel)
  have hnone : closedUfs w'.ufs.events = [] := List.isEmpty_iff.mp hempty
  refine ⟨w', rfl, .cons trivial rfl (.cons trivial rfl (.nil _)), by decide +kernel, rfl,
    by decide +kernel, hclose, hnone, fun hpersisted => ?_⟩
  obtain ⟨stream, hstream, _⟩ := hpersisted.stream
  rw [hnone] at hstream
  cases hstream

end Session

end GooseFS
