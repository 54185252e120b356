import GooseFS.IO.Cleanup

/-!
# Completing the file

When a writer reports that its file is complete, and whether it is.  A `close`
that succeeds has completed the file, with every accepted byte if the calls
before it kept track of them.  Two things come out as success without it:
`is_completed` and a second `close` after a `close` that failed, since `closed` is
set before anything is done, and a `close` after a cache failure that ended the
writer, since it is then cancelled.  `HonestStep` excludes these.
-/

namespace GooseFS

open Lib Session GoosefsFileWriter

namespace GoosefsFileWriter

variable {setup : WriterSetup} {env : CallEnv} {content data : Bytes} {w w' : GoosefsFileWriter}

/-- What `close` asks of the UFS stream, of the workers of the open block and of the
master is done. -/
structure CloseServed (setup : WriterSetup) (env : CallEnv) (w : GoosefsFileWriter) : Prop where
  ufs : w.ufs.stream ≠ none → env.ufs.Closes
  block : ∀ a, w.cache.currentBlockWriter = some a → 0 < a.bytesWritten → env.cache.Takes ∧ a.Intact
  complete : env.master.completeFile = none ∨ Recoverable setup env.master w

theorem close_completes (hopen : ¬w.Ended) (hserved : CloseServed setup env w) :
    Sat (· = w) (close setup env) (fun _ => FileCompleted) (fun _ _ => False) := by
  refine close_spec hopen ?_ ?_ ?_
  · intro e u hclose
    obtain ⟨hstream, hcloses⟩ := UfsM.close_stream_error hclose
    exact absurd (hserved.ufs hstream) hcloses
  · intro completed u e c _ hblock
    exfalso
    let start : CacheSide := { w.cache with ticks := 0 }
    by_cases hempty : ∀ a, start.currentBlockWriter = some a → a.bytesWritten = 0
    · exact (CacheM.closeCurrentBlock_empty (E := fun _ _ => False) start hempty).error rfl hblock
    · push Not at hempty
      obtain ⟨a, hcurrent, hbytes⟩ := hempty
      obtain ⟨htakes, hintact⟩ := hserved.block a hcurrent (Nat.pos_of_ne_zero hbytes)
      obtain ⟨op, _, hopening, hstops⟩ :=
        (CacheM.closeCurrentBlock_traced false).error CacheSide.Reaches.refl hblock
      have hstart : start.Intact := by
        intro a' ha'
        cases hcurrent.symm.trans ha'
        exact hintact
      refine hstart.not_stops htakes (fun h => ?_) hstops
      rw [hopening] at h
      cases h
  · intro completed u last c hclose _
    refine (completeFile_spec _ last).post (fun _ _ h => h.2) ?_
    rintro _ _ ⟨_, hfailed, hlost⟩
    rcases hserved.complete with hnone | hrecovers
    · exact hfailed hnone
    · exact hlost (hrecovers.recovers hclose rfl)

/-- The file was completed with `content`: length and checksum are those of it, and
so are the blocks of a file that was cached to its end and the UFS stream of one
that has it. -/
structure HoldsAll (setup : WriterSetup) (content : Bytes) (w : GoosefsFileWriter) : Prop where
  reported : ∃ options, w.completedFiles = [options] ∧ options.ufsLength = some content.length ∧
    options.crcType = some setup.config.writerChecksumType.asI32 ∧
    options.crcValue = some (setup.config.writerChecksumType.checksum content).toNat
  cached : w.shouldCache = true → ∃ blocks, FileBlocks setup content w.cache.events blocks
  persisted : setup.strategy.ufsStream = true ∨ w.shouldCache = false → content ≠ [] →
    ∃ s, closedUfs w.ufs.events = [s] ∧ s.received = content

theorem close_holdsAll (hbs : 0 < setup.blockSize) (hopen : ¬w.Ended)
    (hcache : CacheKept setup content w) (hufs : UfsKept setup content w)
    (hclose : close setup env w = .ok () w') : HoldsAll setup content w' := by
  have hfed := hufs.resolve_left hopen
  have hsame : w'.shouldCache = w.shouldCache := by
    have hframed : Framed fun s => s.shouldCache = w.shouldCache :=
      ⟨fun _ _ h => h, fun _ _ h => h, fun _ _ h => h, fun _ _ h => h⟩
    exact (hframed.close fun _ h => h).ok rfl hclose
  refine ⟨(close_reports hopen hfed).ok rfl hclose, fun hcaching => ?_, fun hstream hne => ?_⟩
  · rw [hsame] at hcaching
    have hholding : Holding setup AnyRequests content w.cache :=
      (hcache.resolve_left hopen).resolve_left (by rw [hcaching]; simp)
    obtain ⟨blocks, hblocks, _⟩ := (close_closes_blocks hbs hopen hholding).ok rfl hclose
    exact ⟨blocks, hblocks⟩
  · rw [hsame] at hstream
    exact ((close_persists hopen hfed hstream hne).ok rfl hclose).stream

theorem isCompleted_of_open (hopen : ¬w.Ended) : w.isCompleted = false := by
  unfold isCompleted
  cases hclosed : w.closed with
  | true => exact absurd (Or.inr hclosed) hopen
  | false => rfl

theorem write_incomplete (hopen : ¬w.Ended) :
    Sat (· = w) (write setup env data) (fun _ s => s.isCompleted = false)
      (fun _ s => s.isCompleted = false) := by
  have hw : w.isCompleted = false := isCompleted_of_open hopen
  refine write_spec (fun _ _ => hw) (fun _ _ => hw) ?_ ?_
  · intro _ _ b e s hs
    cases hs with
    | intro _ _ _ => exact Bool.and_false _
  · intro _ _ b s hs
    refine (ufsPart_framed (P := fun s => s.isCompleted = false) (fun _ _ h => h)
      fun _ _ _ h => h).mono ?_ (fun _ _ h => h) fun _ _ h => h
    rintro _ rfl
    cases hs with
    | off _ | stored _ _ | degraded _ _ _ => exact hw

theorem flush_incomplete (hopen : ¬w.Ended) :
    Sat (· = w) (flush setup env) (fun _ s => s.isCompleted = false)
      (fun _ s => s.isCompleted = false) := by
  have hframed : Framed fun s => s.isCompleted = false :=
    ⟨fun _ _ h => h, fun _ _ h => h, fun _ _ h => h, fun _ _ h => h⟩
  exact hframed.flush.mono (fun _ h => h ▸ isCompleted_of_open hopen) (fun _ _ h => h)
    fun _ _ h => h

theorem cancel_incomplete (hopen : ¬w.Ended) :
    Sat (· = w) (cancel env) (fun _ s => s.isCompleted = false)
      (fun _ s => s.isCompleted = false) := by
  have hframed : Framed fun s => s.isCompleted = false :=
    ⟨fun _ _ h => h, fun _ _ h => h, fun _ _ h => h, fun _ _ h => h⟩
  refine Sat.bind (R := fun _ s => s.isCompleted = false)
    (Sat.modify fun _ h => h ▸ isCompleted_of_open hopen) fun _ => Sat.get fun s hs => ?_
  split
  · exact Sat.pure fun _ h => h ▸ hs
  · exact Sat.bind (R := fun _ s => s.isCompleted = false)
      (Sat.modify fun _ _ => Bool.and_false _) fun _ => hframed.doCancelCleanup

end GoosefsFileWriter

/-! ## Runs -/

/-- A session, and whether a `write` or a `close` of it has returned an error. -/
structure History where
  session : Session
  failed : Bool

namespace History

open GoosefsFileWriter

variable {setup : WriterSetup} {call : Call} {h : History} {h' : History}

def fails (setup : WriterSetup) (h : History) : Call → Bool
  | .write env data => !returnsOk (write setup env data) h.session.writer
  | .close env => !returnsOk (close setup env) h.session.writer
  | .flush _ => false
  | .cancel _ => false

def next (setup : WriterSetup) (h : History) (call : Call) : Option History :=
  (h.session.next setup call).map fun s => ⟨s, h.failed || h.fails setup call⟩

/-- What a call must meet so that the writer does not report a file as complete
that is not. -/
def HonestStep (setup : WriterSetup) (h : History) : Call → Prop
  | .write env data => h.session.CacheStep setup (.write env data) ∧
      h.session.UfsStep setup (.write env data)
  | .flush env => h.session.CacheStep setup (.flush env)
  | .close env => (h.session.writer.Ended ∨ h.session.writer.CloseServed setup env) ∧
      (h.failed = true → h.session.writer.cancelled = false)
  | .cancel _ => True

structure Honest (setup : WriterSetup) (s : Session) : Prop where
  cache : s.writer.CacheKept setup s.accepted
  ufs : s.writer.UfsKept setup s.accepted
  completed : s.writer.isCompleted = true →
    s.writer.FileCompleted ∧ s.writer.HoldsAll setup s.accepted

theorem next_eq (hnext : h.next setup call = some h') :
    h.session.next setup call = some h'.session := by
  obtain ⟨s, hs, rfl⟩ := Option.map_eq_some_iff.mp hnext
  exact hs

theorem cacheStep_of_honest (hstep : h.HonestStep setup call) : h.session.CacheStep setup call := by
  cases call with
  | write env data => exact hstep.1
  | flush env => exact hstep
  | close env | cancel env => trivial

theorem ufsStep_of_honest (hstep : h.HonestStep setup call) : h.session.UfsStep setup call := by
  cases call with
  | write env data => exact hstep.2
  | flush env | close env | cancel env => trivial

/-- Only a `close` of an open writer makes `is_completed` true, and with its
requests served it has completed the file. -/
theorem next_completed (hbs : 0 < setup.blockSize) {s' : Session} (hh : Honest setup h.session)
    (hstep : h.HonestStep setup call) (hnext : h.session.next setup call = some s')
    (hcompleted : s'.writer.isCompleted = true) :
    s'.writer.FileCompleted ∧ s'.writer.HoldsAll setup s'.accepted := by
  by_cases hended : h.session.writer.Ended
  · obtain ⟨haccepted, hwriter⟩ := next_ended hended hnext
    rw [haccepted]
    -- a cancelled writer stays so, and the others have reported completion before
    have hbefore : h.session.writer.isCompleted = true := by
      rcases hwriter with hw | hw
      · rw [hw] at hcompleted
        exact hcompleted
      · rw [hw] at hcompleted
        have hcancelled : h.session.writer.cancelled = false := by
          simpa [isCompleted] using hcompleted
        have hclosed : h.session.writer.closed = true :=
          hended.resolve_left (by rw [hcancelled]; simp)
        simp [isCompleted, hcancelled, hclosed]
    obtain ⟨hdone, hall⟩ := hh.completed hbefore
    rcases hwriter with hw | hw
    · rw [hw]
      exact ⟨hdone, ⟨hall.reported, hall.cached, hall.persisted⟩⟩
    · rw [hw]
      exact ⟨hdone, ⟨hall.reported, hall.cached, hall.persisted⟩⟩
  · -- the calls other than `close` leave `is_completed` false
    have hother : ∀ {m : WriterM Unit} {data : Bytes}, Sat (· = h.session.writer) m
        (fun _ s => s.isCompleted = false) (fun _ s => s.isCompleted = false) →
          s' = h.session.after m data → False := by
      intro m data hm hs'
      have hfalse : (h.session.after m data).writer.isCompleted = false :=
        after_of_sat (P := fun _ s => s.isCompleted = false) hm
      rw [← hs', hcompleted] at hfalse
      cases hfalse
    cases call with
    | write env data =>
      exact (hother (write_incomplete hended) (Option.some.inj hnext).symm).elim
    | flush env =>
      exact (hother (flush_incomplete hended) (Option.some.inj hnext).symm).elim
    | cancel env =>
      exact (hother (cancel_incomplete hended) (Option.some.inj hnext).symm).elim
    | close env =>
      cases hnext
      have hcloses := close_completes hended (hstep.1.resolve_left hended)
      unfold after
      cases hclose : close setup env h.session.writer with
      | error e w' => exact (hcloses.error rfl hclose).elim
      | ok u w' =>
        rw [List.append_nil]
        exact ⟨hcloses.ok rfl hclose, close_holdsAll hbs hended hh.cache hh.ufs hclose⟩

theorem next_keeps_honest (hbs : 0 < setup.blockSize) (hh : Honest setup h.session)
    (hstep : h.HonestStep setup call) (hnext : h.next setup call = some h') :
    Honest setup h'.session where
  cache := next_keeps_cache hbs hh.cache (cacheStep_of_honest hstep) (next_eq hnext)
  ufs := next_keeps_ufs hh.ufs (ufsStep_of_honest hstep) (next_eq hnext)
  completed := next_completed hbs hh hstep (next_eq hnext)

/-- After any calls that meet `HonestStep`, `is_completed` is true only if the file
was completed, and once a `write` or a `close` has failed, a `close` that meets it
succeeds only if the file is then completed with every accepted byte. -/
theorem completion_is_honest {env₀ : CallEnv} {w₀ : GoosefsFileWriter} {calls : List Call}
    {h : History} (hbs : 0 < setup.blockSize)
    (hcreate : create setup env₀ = .ok w₀)
    (hrun : Guarded (next setup) (HonestStep setup) ⟨⟨w₀, []⟩, false⟩ calls h) :
    (h.session.writer.isCompleted = true → h.session.writer.FileCompleted) ∧
    ∀ env w', h.failed = true → h.HonestStep setup (.close env) →
      close setup env h.session.writer = .ok () w' →
        w'.FileCompleted ∧ w'.HoldsAll setup h.session.accepted := by
  have hstart : Honest setup ⟨w₀, []⟩ := by
    refine ⟨?_, create_fed hcreate, ?_⟩
    · obtain ⟨b, u, rfl, _⟩ := create_spec hcreate
      exact Or.inr (Or.inr holding_fresh)
    · obtain ⟨b, u, rfl, _⟩ := create_spec hcreate
      exact fun hcompleted => by cases hcompleted
  have hh : Honest setup h.session :=
    hrun.invariant (fun (h : History) _ _ (hh : Honest setup h.session) hstep hnext =>
      next_keeps_honest hbs hh hstep hnext) hstart
  refine ⟨fun hcompleted => (hh.completed hcompleted).1, fun env w' hfailed hstep hclose => ?_⟩
  have hnext : h.session.next setup (.close env) = some ⟨w', h.session.accepted⟩ := by
    simp only [Session.next, Session.after, hclose, List.append_nil]
  refine next_completed hbs hh hstep hnext ?_
  -- a `close` leaves the writer closed, and does not cancel it
  have hcancelled : w'.cancelled = false := by
    have hframed : GoosefsFileWriter.Framed fun s => s.cancelled = false :=
      ⟨fun _ _ h => h, fun _ _ h => h, fun _ _ h => h, fun _ _ h => h⟩
    exact (hframed.close fun _ h => h).ok (hstep.2 hfailed) hclose
  have hclosed : w'.closed = true :=
    (close_ends.ok trivial hclose).resolve_left (by rw [hcancelled]; simp)
  simp [isCompleted, hcancelled, hclosed]

/-! A THROUGH file whose first write is refused by the UFS stream. -/

def throughStart : History := ⟨⟨smallStart 4, []⟩, false⟩

def throughRefused : History :=
  ⟨throughStart.session.after (write (smallSetup 4) refusedUfs [1, 2])
    [1, 2], true⟩

def throughRewritten : History :=
  ⟨throughRefused.session.after
    (write (smallSetup 4) goodEnv [3, 4]) [3, 4], true⟩

theorem completion_is_honest_through : ∃ w', close (smallSetup 4) goodEnv
      throughRewritten.session.writer = .ok () w' ∧
    w'.FileCompleted ∧ w'.HoldsAll (smallSetup 4) [3, 4] := by
  have hoff : ∀ {env : CallEnv} {data : Bytes} {h : History}, h.session.writer.shouldCache = false →
        h.session.CacheStep (smallSetup 4) (.write env data) := by
    intro env data h hcache hcaching
    rw [hcache] at hcaching
    cases hcaching
  have hlast : Guarded (next (smallSetup 4)) (HonestStep (smallSetup 4))
      throughRefused [.write goodEnv [3, 4]] throughRewritten :=
    .cons ⟨hoff (by decide +kernel), fun _ _ _ _ => rfl⟩ rfl (.nil _)
  have hrun : Guarded (next (smallSetup 4)) (HonestStep (smallSetup 4))
      throughStart [.write refusedUfs [1, 2], .write goodEnv [3, 4]] throughRewritten :=
    .cons ⟨hoff rfl, fun hpos => absurd hpos (Nat.lt_irrefl 0)⟩ rfl hlast
  have hcreate : create (smallSetup 4) goodEnv = .ok (smallStart 4) := rfl
  have hblock : throughRewritten.session.writer.cache.currentBlockWriter = none := by
    decide +kernel
  have hserved : throughRewritten.session.writer.CloseServed (smallSetup 4)
      goodEnv := by
    refine ⟨fun _ => ⟨⟨none, rfl⟩, rfl⟩, fun a ha => ?_, Or.inl rfl⟩
    rw [hblock] at ha
    cases ha
  have hcancelled : throughRewritten.session.writer.cancelled = false := by decide +kernel
  have haccepted : throughRewritten.session.accepted = [3, 4] := by decide +kernel
  obtain ⟨_, w', hclose, _⟩ := exists_of_succeeds
    (close (smallSetup 4) goodEnv)
    throughRewritten.session.writer (fun _ _ => true) (by decide +kernel)
  have hdone := (completion_is_honest (by decide) hcreate hrun).2 goodEnv w' rfl
    ⟨Or.inr hserved, fun _ => hcancelled⟩ hclose
  rw [haccepted] at hdone
  exact ⟨w', hclose, hdone⟩

/-- A MUST_CACHE file that cannot be completed, and one whose second write fails: in
both cases the next `close` succeeds and the file is not completed, and in the first
`is_completed` is true as well. -/
theorem close_reports_success : create (smallSetup 1) goodEnv = .ok (fresh (smallSetup 1)) ∧
    (∃ h, Guarded (next (smallSetup 1)) (fun _ _ => True)
        ⟨⟨fresh (smallSetup 1), []⟩, false⟩
        [.write goodEnv [1, 2, 3], .close refusedComplete] h ∧
      h.failed = true ∧ h.session.writer.isCompleted = true ∧ ¬h.session.writer.FileCompleted ∧
      h.fails (smallSetup 1) (.close goodEnv) = false ∧
      ¬(h.session.after (close (smallSetup 1) goodEnv)
        []).writer.FileCompleted) ∧
    ∃ h, Guarded (next (smallSetup 1)) (fun _ _ => True)
        ⟨⟨fresh (smallSetup 1), []⟩, false⟩
        [.write goodEnv [1, 2, 3], .write refusedSend [4, 5]] h ∧
      h.failed = true ∧ h.fails (smallSetup 1) (.close goodEnv) = false ∧
      ¬(h.session.after (close (smallSetup 1) goodEnv)
        []).writer.FileCompleted := by
  refine ⟨rfl, ?_, ?_⟩
  · exact Guarded.exists_of_replay (by decide +kernel)
  · exact Guarded.exists_of_replay (by decide +kernel)

end History

end GooseFS
