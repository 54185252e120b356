import GooseFS.IO.WriterCalls

/-!
# The stream to the under store

Contracts of the UFS side of a file writer.  `UfsSide.Feeding closed content`
says which streams were closed successfully, and what the open one, if there is
one, has received.  A write that fails leaves no stream at all, so the next one
starts a new stream.
-/

namespace GooseFS

open Lib List Option

def closedUfs (events : List UfsEvent) : List GrpcBlockWriter := events.filterMap UfsEvent.closed?

theorem closedUfs_append (events more : List UfsEvent) :
    closedUfs (events ++ more) = closedUfs events ++ closedUfs more := filterMap_append ..

structure UfsSide.Feeding (closed : List GrpcBlockWriter) (content : Option Bytes) (u : UfsSide) :
    Prop where
  closed : closedUfs u.events = closed
  content : u.stream.map GrpcBlockWriter.received = content

def UfsEnv.Opens (env : UfsEnv) : Prop :=
  ∃ worker addr, env.pickWorker = .ok worker ∧ worker.address = some addr ∧
    env.acquire (rpcEndpoint addr) = none ∧ env.openStream = none

def UfsEnv.Takes (env : UfsEnv) (chunkSize : Nat) (data : Bytes) : Prop :=
  ∀ k, k * chunkSize < data.length → env.send k = true

/-- The UFS stream can be had, and takes every chunk of `data`. -/
def UfsAccepts (setup : WriterSetup) (env : UfsEnv) (u : UfsSide) (data : Bytes) : Prop :=
  (u.stream = none → env.Opens) ∧ env.Takes setup.config.chunkSize data

def UfsEnv.Closes (env : UfsEnv) : Prop := (∃ offset, env.flush = .ack offset) ∧ env.close = .done

namespace UfsM

variable {setup : WriterSetup} {env : UfsEnv} {closed : List GrpcBlockWriter}
  {content : Option Bytes} {data : Bytes} {u : UfsSide} {u u' : UfsSide}

theorem log_sat {events : List UfsEvent} (h : closedUfs events = []) {E : Error → UfsSide → Prop} :
    Sat (UfsSide.Feeding closed content) (log events) (fun _ => UfsSide.Feeding closed content)
      E := by
  refine Sat.modify fun s hs => ⟨?_, hs.content⟩
  rw [closedUfs_append, hs.closed, h, append_nil]

theorem closedUfs_map_cancelled (streams : List GrpcBlockWriter) :
    closedUfs (streams.map .cancelled) = [] := by
  unfold closedUfs
  rw [filterMap_map]
  exact filterMap_eq_nil_iff.mpr fun _ _ => rfl

theorem openUfsStream_sat : Sat (UfsSide.Feeding closed none) (openUfsStream env)
      (fun _ => UfsSide.Feeding closed (some []))
      (fun _ s => s.Feeding closed none ∧ ¬env.Opens) := by
  unfold openUfsStream
  cases hpick : env.pickWorker with
  | error e =>
    refine Sat.throw fun s hs => ⟨hs, ?_⟩
    rintro ⟨worker, addr, h, _⟩
    rw [hpick] at h
    cases h
  | ok worker =>
    simp only
    cases haddr : worker.address with
    | none =>
      refine Sat.throw fun s hs => ⟨hs, ?_⟩
      rintro ⟨worker', addr, h, haddr', _⟩
      rw [hpick] at h
      cases h
      rw [haddr] at haddr'
      cases haddr'
    | some addr =>
      simp only
      cases hopen : env.acquire (rpcEndpoint addr) <|> env.openStream with
      | some e =>
        have hlog : closedUfs [.markFailed addr, .invalidate (rpcEndpoint addr)] = [] := rfl
        refine Sat.bind (log_sat hlog) fun _ => Sat.throw fun s hs => ⟨hs, ?_⟩
        rintro ⟨worker', addr', hpick', haddr', hacquire, hstream⟩
        obtain rfl : worker = worker' := Except.ok.inj (hpick.symm.trans hpick')
        obtain rfl : addr = addr' := some.inj (haddr.symm.trans haddr')
        rw [hacquire, hstream] at hopen
        cases hopen
      | none => exact Sat.modify fun s hs => ⟨hs.closed, rfl⟩

theorem ensureStream_sat (hu : u.Feeding closed content) :
    Sat (· = u) (ensureStream env) (fun _ => UfsSide.Feeding closed (some (content.getD [])))
      (fun _ s => s.Feeding closed none ∧ ¬UfsAccepts setup env u data) := by
  refine Sat.get fun s hs => ?_
  subst hs
  cases hstream : s.stream with
  | some ufs =>
    refine Sat.pure ?_
    rintro _ rfl
    refine ⟨hu.closed, ?_⟩
    rw [← hu.content, hstream]
    rfl
  | none =>
    have hnone : content = none := by
      rw [← hu.content, hstream]
      rfl
    subst hnone
    refine openUfsStream_sat.mono (fun _ h => h ▸ hu) (fun _ _ h => h) ?_
    exact fun _ s' hs' => ⟨hs'.1, fun haccepts => hs'.2 (haccepts.1 hstream)⟩

theorem handleUfsWriteException_sat (err : Error) {Q : Unit → UfsSide → Prop} :
    Sat (UfsSide.Feeding closed content) (handleUfsWriteException err) Q
      (fun _ => UfsSide.Feeding closed none) := by
  refine Sat.get fun s hs => ?_
  refine Sat.bind (R := fun _ => UfsSide.Feeding closed none)
    (Sat.set fun _ _ => ⟨hs.closed, rfl⟩) fun _ => ?_
  refine Sat.bind (log_sat (closedUfs_map_cancelled _)) fun _ => ?_
  refine Sat.bind (log_sat ?_) fun _ => Sat.throw fun _ h => h
  cases s.workerAddr with
  | none | some addr => rfl

theorem writeToUfsStream_sat (hu : u.Feeding closed content) :
    Sat (· = u) (writeToUfsStream setup env data)
      (fun _ => UfsSide.Feeding closed (some (content.getD [] ++ data)))
      (fun _ s => s.Feeding closed none ∧ ¬UfsAccepts setup env u data) := by
  refine Sat.bind (ensureStream_sat hu) fun _ => Sat.get fun s hs => ?_
  cases hstream : s.stream with
  | none =>
    have hcontent := hs.content
    rw [hstream] at hcontent
    cases hcontent
  | some ufs =>
    have hreceived : ufs.received = content.getD [] := by
      have hcontent := hs.content
      rw [hstream] at hcontent
      exact some.inj hcontent
    simp only
    rcases ufs.writeAll_spec env.send data setup.config.chunkSize_pos with
      ⟨ufs', hwrite, hreceived'⟩ | ⟨e, ufs', hwrite, k, hk, hrefused⟩
    · rw [hwrite]
      refine Sat.bind (R := fun _ => UfsSide.Feeding closed (some (content.getD [] ++ data)))
        (Sat.modify ?_) fun _ => Sat.pure fun _ h => h
      rintro _ rfl
      refine ⟨hs.closed, ?_⟩
      rw [← hreceived, ← hreceived']
      rfl
    · rw [hwrite]
      refine Sat.bind (R := fun _ => UfsSide.Feeding closed (some ufs'.received))
        (Sat.modify fun _ h => h ▸ ⟨hs.closed, rfl⟩) fun _ => ?_
      refine (handleUfsWriteException_sat e).post (fun _ _ h => h) ?_
      refine fun _ s' hs' => ⟨hs', fun haccepts => ?_⟩
      rw [haccepts.2 k hk] at hrefused
      cases hrefused

theorem flush_sat :
    Sat (UfsSide.Feeding closed content) (flush env) (fun _ => UfsSide.Feeding closed content)
      (fun _ => UfsSide.Feeding closed content) := by
  refine Sat.get fun s hs => ?_
  cases hstream : s.stream with
  | none => exact Sat.pure fun _ h => h ▸ hs
  | some ufs =>
    rcases hflush : ufs.flush env.flush with ⟨res, ufs'⟩
    have hreceived : ufs'.received = ufs.received := by
      rw [← (ufs.flush_keeps env.flush).2, hflush]
    simp only [hflush]
    refine Sat.bind (R := fun _ => UfsSide.Feeding closed content) (Sat.modify ?_) fun _ => ?_
    · rintro _ rfl
      refine ⟨hs.closed, ?_⟩
      rw [← hs.content, hstream]
      exact congrArg some hreceived
    · cases res with
      | ok n => exact Sat.pure fun _ h => h
      | error e => exact Sat.throw fun _ h => h

theorem close_sat : Sat (UfsSide.Feeding closed content) (close env)
      (fun done s => done = content.isSome ∧ s.stream = none ∧ ∃ more,
        closedUfs s.events = closed ++ more ∧ more.map GrpcBlockWriter.received = content.toList)
      (fun _ _ => content.isSome = true ∧ ¬env.Closes) := by
  refine Sat.get fun s hs => ?_
  cases hstream : s.stream with
  | none =>
    refine Sat.pure ?_
    rintro _ rfl
    have hnone : content = none := by
      rw [← hs.content, hstream]
      rfl
    subst hnone
    exact ⟨rfl, hstream, [], by rw [hs.closed, append_nil], rfl⟩
  | some ufs =>
    rcases hflush : ufs.flush env.flush with ⟨res, ufs'⟩
    have hreceived : ufs'.received = ufs.received := by
      rw [← (ufs.flush_keeps env.flush).2, hflush]
    simp only [hflush]
    have hcontent : content = some ufs'.received := by
      rw [← hs.content, hstream, hreceived]
      rfl
    subst hcontent
    refine Sat.bind (R := fun _ s' => s'.Feeding closed none)
      (Sat.set fun _ _ => ⟨hs.closed, rfl⟩) fun _ => ?_
    cases res with
    | error e =>
      refine Sat.bind (log_sat rfl) fun _ => Sat.throw fun _ _ => ⟨rfl, ?_⟩
      rintro ⟨⟨offset, hack⟩, _⟩
      rw [hack] at hflush
      cases hflush
    | ok n =>
      simp only
      cases hclose : ufs'.close env.close with
      | error e =>
        refine Sat.bind (log_sat rfl) fun _ => Sat.throw fun _ _ => ⟨rfl, ?_⟩
        rintro ⟨_, hdone⟩
        rw [hdone] at hclose
        cases hclose
      | ok u =>
        let R : UfsSide → Prop := fun s' =>
          s'.stream = none ∧ closedUfs s'.events = closed ++ [ufs']
        refine Sat.bind (R := fun _ => R) (Sat.modify fun s' hs' => ⟨?_, ?_⟩) fun _ => ?_
        · exact map_eq_none_iff.mp hs'.content
        · rw [closedUfs_append, hs'.closed]
          rfl
        · refine Sat.seq (Sat.modify fun _ h => h) fun _ => ?_
          exact Sat.pure fun s' hs' => ⟨rfl, hs'.1, [ufs'], hs'.2, rfl⟩

theorem close_stream {completed : Bool} (h : close env u = .ok completed u') :
    completed = u.stream.isSome ∧ u'.stream = none := by
  have hfeed : u.Feeding (closedUfs u.events) (u.stream.map GrpcBlockWriter.received) := ⟨rfl, rfl⟩
  obtain ⟨hcompleted, hstream, _⟩ := close_sat.ok hfeed h
  rw [isSome_map] at hcompleted
  exact ⟨hcompleted, hstream⟩

theorem close_stream_error {e : Error} (h : close env u = .error e u') :
    u.stream ≠ none ∧ ¬env.Closes := by
  have hfeed : u.Feeding (closedUfs u.events) (u.stream.map GrpcBlockWriter.received) := ⟨rfl, rfl⟩
  obtain ⟨hsome, hcloses⟩ := close_sat.error hfeed h
  rw [isSome_map] at hsome
  exact ⟨isSome_iff_ne_none.mp hsome, hcloses⟩

end UfsM

variable {env : CallEnv} {setup : WriterSetup} {w : GoosefsFileWriter}

/-- The UFS part of a write changes the UFS side only, and fails only if the
stream does not accept the data. -/
theorem GoosefsFileWriter.writeToUfs_sat {data : Bytes} {closed : List GrpcBlockWriter}
    {content : Option Bytes} (hw : w.ufs.Feeding closed content) :
    Sat (· = w) (writeToUfs setup env data)
      (fun _ s => ∃ u, s = { w with ufs := u } ∧ u.Feeding closed
        (if w.ufsWriteEnabled then some (content.getD [] ++ data) else content))
      (fun _ s => ∃ u, s = { w with ufs := u } ∧ u.Feeding closed none ∧
        w.ufsWriteEnabled = true ∧ ¬UfsAccepts setup env.ufs w.ufs data) := by
  refine Sat.get fun s hs => ?_
  subst hs
  by_cases henabled : s.ufsWriteEnabled = true
  · rw [if_pos henabled]
    refine Sat.zoom ?_
    rintro s rfl
    refine (UfsM.writeToUfsStream_sat hw).post (fun _ u hu => ⟨u, rfl, ?_⟩)
      fun _ u hu => ⟨u, rfl, hu.1, henabled, hu.2⟩
    rw [if_pos henabled]
    exact hu
  · rw [if_neg henabled]
    refine Sat.pure ?_
    rintro s rfl
    refine ⟨s.ufs, rfl, ?_⟩
    rw [if_neg henabled]
    exact hw

theorem GoosefsFileWriter.create_spec (h : create setup env = .ok w) :
    ∃ b u, w = { fresh setup with routerNeedsInit := b, ufs := u } ∧
      u.Feeding [] (if setup.strategy.ufsStream then some [] else none) := by
  have hopen : Sat (· = fresh setup) (openStreams setup env) (fun _ w => ∃ b u,
      w = { fresh setup with routerNeedsInit := b, ufs := u } ∧
        u.Feeding [] (if setup.strategy.ufsStream then some [] else none)) (fun _ _ => True) := by
    unfold openStreams
    by_cases hufs : setup.strategy.ufsStream = true
    · simp only [if_pos hufs]
      refine Sat.bind ((ensureRouterInit_sat _).post (fun _ _ h => h)
        fun _ _ _ => trivial) fun _ => Sat.zoom ?_
      rintro _ ⟨b, rfl⟩
      refine UfsM.openUfsStream_sat.mono (fun _ h => ?_) (fun _ u hu => ⟨b, u, rfl, hu⟩)
        fun _ _ _ => trivial
      rw [h]
      exact ⟨rfl, rfl⟩
    · simp only [if_neg hufs]
      refine Sat.pure ?_
      rintro _ rfl
      exact ⟨true, _, rfl, rfl, rfl⟩
  unfold create at h
  cases hrun : openStreams setup env (fresh setup) with
  | ok u w' =>
    rw [hrun] at h
    cases h
    exact hopen.ok rfl hrun
  | error e w' =>
    rw [hrun] at h
    cases h

end GooseFS
