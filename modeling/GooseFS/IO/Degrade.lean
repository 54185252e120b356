import GooseFS.IO.UfsDurability

/-!
# Degrading to the under store

A writer whose cache fails goes on with the UFS stream alone.  As long as the UFS
serves what it is asked (`UfsServes`), that stream then has every accepted byte:
a writer that had one from the start has fed it all along, and an ASYNC_THROUGH
writer degrades only before its first block is open, when nothing was accepted.
-/

namespace GooseFS

open Lib GrpcBlockWriter GoosefsFileWriter

def CacheEvent.isOpened : CacheEvent → Bool
  | .opened _ _ => true
  | _ => false

/-- As long as `blockOpened` is not set, the log has no opened block. -/
def NoneOpened (blockOpened : Bool) (events : List CacheEvent) : Prop :=
  blockOpened = false → ∀ x ∈ events, x.isOpened = false

theorem NoneOpened.append {b : Bool} {events more : List CacheEvent} (h : NoneOpened b events)
    (hmore : ∀ x ∈ more, x.isOpened = false) : NoneOpened b (events ++ more) :=
  fun hb x hx => (List.mem_append.mp hx).elim (h hb x) (hmore x)

theorem isOpened_of_ofBlock {x : CacheEvent} (h : x.ofBlock = true) : x.isOpened = false := by
  cases x with
  | opened id n => cases h
  | _ => rfl

theorem isOpened_of_isTrying {x : CacheEvent} (h : x.isTrying = true) : x.isOpened = false := by
  cases x with
  | opened id n => cases h
  | _ => rfl

theorem NoneOpened.logs {c c' : CacheSide} (h : NoneOpened c.blockOpened c.events)
    (hlogs : c.Logs c') : NoneOpened c'.blockOpened c'.events := by
  obtain ⟨hb, more, he, hmore⟩ := hlogs
  rw [hb, he]
  exact h.append fun x hx => isOpened_of_ofBlock (hmore x hx)

theorem noneOpened_invariant (setup : WriterSetup) :
    CacheInvariant setup fun c => NoneOpened c.blockOpened c.events where
  ticks := fun _ _ h => h
  step := by
    intro env c c' h hs
    rcases hs.logs with hlogs | ⟨_, hopened⟩
    · exact h.logs hlogs
    · intro hclosed
      cases hopened.symm.trans hclosed
  refuses := fun _ _ _ _ _ h hrefuses => h.logs hrefuses.logs
  fails := by
    intro env c op e c' h hs
    cases hop : op.isOpening with
    | false => exact h.logs (hs.logs hop)
    | true =>
      cases hs with
      | plan _ _ => exact h
      | openBlock _ _ hopen =>
        obtain ⟨⟨n, more, htrying, _, rfl⟩, _⟩ := (CacheM.openBlock_spec _ _ c).error rfl hopen
        exact h.append fun x hx => isOpened_of_isTrying (htrying x hx)
      | _ => cases hop
  tornDown := by
    intro c blacklist h
    unfold CacheSide.tornDown
    cases c.currentBlockWriter with
    | none => exact h
    | some a =>
      refine (h.append fun x hx => ?_).append fun x hx =>
        isOpened_of_ofBlock (a.ofBlock_of_cancelReplicas x hx)
      split at hx
      · obtain ⟨r, _, hx⟩ := List.mem_flatMap.mp hx
        rcases List.mem_cons.mp hx with rfl | hx
        · rfl
        · rw [List.mem_singleton.mp hx]
          rfl
      · cases hx

/-! ## The UFS stream of a writer that does not cache -/

namespace GoosefsFileWriter

variable {setup : WriterSetup} {env : CallEnv} {content data : Bytes} {w : GoosefsFileWriter}

/-- A writer that does not cache has a UFS stream. -/
def Streaming (w : GoosefsFileWriter) : Prop := w.shouldCache = false → w.ufs.stream ≠ none

/-- The UFS operations of a write, if it comes to them, do not fail. -/
def UfsServesWrite (setup : WriterSetup) (env : CallEnv) (data : Bytes) (w : GoosefsFileWriter) :
    Prop :=
  ∀ b s, CacheOutcome setup env.cache data
    { w with cache := { w.cache with ticks := 0 }, routerNeedsInit := b } s →
      s.ufsWriteEnabled = true → UfsAccepts setup env.ufs s.ufs data

theorem ufsPart_streams (hcaching : w.ufsWriteEnabled = false → w.shouldCache = true)
    (haccepts : w.ufsWriteEnabled = true → UfsAccepts setup env.ufs w.ufs data) :
    Sat (· = w) (do writeToUfs setup env data; account setup data) (fun _ => Streaming)
      (fun _ _ => False) := by
  have hfeed : w.ufs.Feeding (closedUfs w.ufs.events) (w.ufs.stream.map received) :=
    ⟨rfl, rfl⟩
  refine Sat.bind (R := fun _ => Streaming) ((writeToUfs_sat hfeed).post ?_ ?_)
    fun _ => Sat.modify fun _ h => h
  · rintro _ _ ⟨u, rfl, hu⟩ hoff
    by_cases hon : w.ufsWriteEnabled = true
    · rw [if_pos hon] at hu
      intro hnone
      have hcontent := hu.content
      rw [show u.stream = none from hnone] at hcontent
      cases hcontent
    · have hcache := hcaching (Bool.not_eq_true _ ▸ hon)
      rw [show w.shouldCache = false from hoff] at hcache
      cases hcache
  · rintro _ _ ⟨_, _, _, hon, hrefuses⟩
    exact hrefuses (haccepts hon)

theorem write_streams (hfed : UfsKept setup content w) (hw : w.Ended ∨ Streaming w)
    (hserves : UfsServesWrite setup env data w) :
    Sat (· = w) (write setup env data) (fun _ s => s.Ended ∨ Streaming s)
      (fun _ s => s.Ended ∨ Streaming s) := by
  refine write_sat (fun _ _ h => .inl h) (fun _ => hw) (fun _ => hw) ?_
  intro hopen hne b s hs
  have hfed' := hfed.resolve_left hopen
  have hstart : Fed setup content (content ≠ [])
      { w with cache := { w.cache with ticks := 0 }, routerNeedsInit := b } :=
    { hfed'.withCache hfed'.marked with }
  have hs' := (hs.fed hne hstart).1
  exact (ufsPart_streams (fun hoff => (hs'.caching hoff).2.2) (hserves b s hs)).post
    (fun _ _ h => .inr h) fun _ _ h => h.elim

theorem flush_streams (hw : w.Ended ∨ Streaming w) :
    Sat (· = w) (flush setup env) (fun _ s => s.Ended ∨ Streaming s)
      (fun _ s => s.Ended ∨ Streaming s) := by
  refine begin_sat ?_
  by_cases hopen : w.cancelled = true ∨ w.closed = true
  · rw [if_pos hopen]
    exact Sat.throw fun _ h => h ▸ hw
  · rw [if_neg hopen]
    have hstream := hw.resolve_left hopen
    have hfeed : w.ufs.Feeding (closedUfs w.ufs.events)
        (w.ufs.stream.map received) := ⟨rfl, rfl⟩
    have hkept : ∀ u : UfsSide, u.Feeding (closedUfs w.ufs.events)
        (w.ufs.stream.map received) → w.shouldCache = false → u.stream ≠ none := by
      intro u hu hoff hnone
      have hcontent := hu.content
      rw [hnone] at hcontent
      exact hstream hoff (Option.map_eq_none_iff.mp hcontent.symm)
    refine Sat.bind (R := fun _ => Streaming) (Sat.zoom ?_) fun _ => ?_
    · rintro _ rfl
      exact UfsM.flush_sat.mono (fun _ h => h ▸ hfeed) (fun _ u hu => hkept u hu)
        fun _ u hu => .inr (hkept u hu)
    split
    · refine Sat.zoom fun s hs c _ => ?_
      cases CacheM.flushBlock env.cache c with
      | ok a c' | error e c' => exact .inr hs
    · exact Sat.pure fun _ h => .inr h

theorem create_streams (h : create setup env = .ok w) : Streaming w := by
  obtain ⟨b, u, rfl, hu⟩ := create_spec h
  intro hoff hnone
  have hufs : setup.strategy.ufsStream = true := by
    by_contra hno
    have hcache := cacheStream_of_no_ufsStream (Bool.not_eq_true _ ▸ hno)
    rw [show (resolveWriteStrategy setup.writeType).cacheStream = false from hoff] at hcache
    cases hcache
  have hcontent := hu.content
  rw [if_pos hufs, show u.stream = none from hnone] at hcontent
  cases hcontent

theorem write_degrades (hasync : setup.strategy.needAsyncPersist = true)
    (hfed : UfsKept setup content w)
    (hlog : ¬w.Ended → NoneOpened w.cache.blockOpened w.cache.events)
    (hcaching : w.shouldCache = true) :
    Sat (· = w) (write setup env data)
      (fun _ s => s.shouldCache = false → content = [] ∧ ∀ x ∈ s.cache.events, x.isOpened = false)
      (fun _ s => s.shouldCache = false → content = [] ∧
        ∀ x ∈ s.cache.events, x.isOpened = false) := by
  have hcached : ∀ {s : GoosefsFileWriter}, s.shouldCache = w.shouldCache →
      s.shouldCache = false → content = [] ∧ ∀ x ∈ s.cache.events, x.isOpened = false := by
    intro s hsame hoff
    rw [hsame, hcaching] at hoff
    cases hoff
  have hno : setup.strategy.ufsStream = false :=
    (no_ufsStream_or_sync setup.writeType).resolve_right (Bool.not_eq_false _ ▸ hasync)
  refine write_spec (fun _ _ => hcached rfl) (fun _ _ => hcached rfl) ?_ ?_
  · intro _ _ b e s hs
    cases hs with
    | intro _ _ _ => exact hcached rfl
  · intro hopen hne b s hs
    have hframed : ∀ {s : GoosefsFileWriter}, (s.shouldCache = false → content = [] ∧
        ∀ x ∈ s.cache.events, x.isOpened = false) →
        Sat (· = s) (do writeToUfs setup env data; account setup data)
          (fun _ s => s.shouldCache = false → content = [] ∧
            ∀ x ∈ s.cache.events, x.isOpened = false)
          (fun _ s => s.shouldCache = false → content = [] ∧
            ∀ x ∈ s.cache.events, x.isOpened = false) := fun hs =>
      (ufsPart_framed (P := fun s => s.shouldCache = false → content = [] ∧
        ∀ x ∈ s.cache.events, x.isOpened = false) (fun _ _ h => h) fun _ _ _ h => h).fixed hs
    cases hs with
    | off hoff | stored _ _ => exact hframed (hcached rfl)
    | @degraded e c hcache hrun hfatal =>
      refine hframed fun _ => ?_
      have hstart : CacheSide.Marked (content ≠ []) { w.cache with ticks := 0 } :=
        (hfed.resolve_left hopen).marked hno hcache
      have hmarked := (CacheM.writeToCacheStream_marked hne).error hstart hrun
      obtain ⟨op, hstops⟩ : ∃ op, CacheSide.Stops setup env.cache { w.cache with ticks := 0 } op e c :=
        (CacheM.writeToCacheStream_traced _ data).error rfl hrun
      have hclosed := not_opened_of_degrades hno hfatal
      refine ⟨?_, ?_⟩
      · by_contra hcontent
        have hopened := hmarked.1 (decide_eq_true hcontent)
        rw [hclosed] at hopened
        cases hopened
      · have hnone := (noneOpened_invariant setup).tornDown c (!credentialsRejected e)
          ((noneOpened_invariant setup).stops hstops (hlog hopen))
        refine hnone ?_
        unfold CacheSide.tornDown
        cases c.currentBlockWriter with
        | none | some a => exact hclosed

end GoosefsFileWriter

/-! ## Runs -/

namespace Session

open GoosefsFileWriter

variable {setup : WriterSetup}

def UfsServes (setup : WriterSetup) (s : Session) : Call → Prop
  | .write env data => s.writer.UfsServesWrite setup env data
  | .flush _ => True
  | .close _ => True
  | .cancel _ => True

structure Served (setup : WriterSetup) (content : Bytes) (w : GoosefsFileWriter) : Prop where
  fed : w.UfsKept setup content
  streaming : w.Streaming
  log : NoneOpened w.cache.blockOpened w.cache.events

theorem served_of_contracts {content content' : Bytes} {m : WriterM Unit} {w : GoosefsFileWriter}
    (hfed : Sat (· = w) m (fun _ => UfsKept setup content')
      (fun _ => UfsKept setup content))
    (hstream : Sat (· = w) m (fun _ s => s.Ended ∨ s.Streaming) (fun _ s => s.Ended ∨ s.Streaming))
    (hlog : Sat (· = w) m (fun _ s => NoneOpened s.cache.blockOpened s.cache.events)
      (fun _ s => NoneOpened s.cache.blockOpened s.cache.events)) :
    Sat (· = w) m (fun _ s => s.Ended ∨ Served setup content' s)
      (fun _ s => s.Ended ∨ Served setup content s) :=
  ((hfed.and hstream).and hlog).post (fun _ _ h => h.1.2.imp id fun hs => ⟨h.1.1, hs, h.2⟩)
    fun _ _ h => h.1.2.imp id fun hs => ⟨h.1.1, hs, h.2⟩

theorem next_keeps_served {s s' : Session} {call : Call}
    (hs : s.writer.Ended ∨ Served setup s.accepted s.writer) (hserves : UfsServes setup s call)
    (hnext : s.next setup call = some s') :
    s'.writer.Ended ∨ Served setup s'.accepted s'.writer := by
  have hinv := noneOpened_invariant setup
  refine next_of_open (P := Served setup) (fun hopen => ?_) (fun hopen => ?_) hnext
  · rintro env data rfl
    have hserved := hs.resolve_left hopen
    refine served_of_contracts (write_keeps_ufs hserved.fed ?_)
      (write_streams hserved.fed (.inr hserved.streaming) hserves)
      ((hinv.write env data).fixed hserved.log)
    exact fun b w hw _ _ hon => (hserves b w hw hon).2
  · rintro env rfl
    have hserved := hs.resolve_left hopen
    exact served_of_contracts (flush_keeps_ufs hserved.fed)
      (flush_streams (.inr hserved.streaming))
      ((hinv.flush env).fixed hserved.log)

/-- While the UFS serves the writes, a writer that does not cache has every
accepted byte in its UFS stream after each write that succeeds, the one in which
it degraded included.  An ASYNC_THROUGH writer degrades only if nothing was
accepted and no block was opened. -/
theorem degraded_stream_holds_accepted {env₀ : CallEnv} {w₀ : GoosefsFileWriter}
    {calls : List Call} {s : Session} (hcreate : create setup env₀ = .ok w₀)
    (hrun : Guarded (next setup) (UfsServes setup) ⟨w₀, []⟩ calls s) :
    (∀ env data w', s.writer.UfsServesWrite setup env data →
      write setup env data s.writer = .ok () w' → w'.shouldCache = false →
        w'.ufs.stream.map GrpcBlockWriter.received = some (s.accepted ++ data)) ∧
    (setup.strategy.needAsyncPersist = true → s.writer.shouldCache = true → ∀ env data,
      (s.after (write setup env data) data).writer.shouldCache = false →
        s.accepted = [] ∧ ∀ id alive, CacheEvent.opened id alive ∉
          (s.after (write setup env data) data).writer.cache.events) := by
  have hstart : w₀.Ended ∨ Served setup [] w₀ := by
    refine Or.inr ⟨create_fed hcreate, create_streams hcreate, ?_⟩
    obtain ⟨b, u, rfl, _⟩ := create_spec hcreate
    exact fun _ x hx => by cases hx
  have hserved : s.writer.Ended ∨ Served setup s.accepted s.writer :=
    hrun.invariant (fun _ _ _ hs hserves hnext => next_keeps_served hs hserves hnext) hstart
  refine ⟨fun env data w' hserves hwrite hoff => ?_, fun hasync hcache env data hoff => ?_⟩
  · have hopen' := write_open hwrite
    have hnext : s.next setup (.write env data) = some ⟨w', s.accepted ++ data⟩ := by
      simp only [next, after, hwrite]
    have hcall : UfsServes setup s (.write env data) := hserves
    have hs' := (next_keeps_served hserved hcall hnext).resolve_left hopen'
    have hfed := hs'.fed.resolve_left hopen'
    have hon : w'.ufsWriteEnabled = true := by
      by_contra hdisabled
      have hcaching := (hfed.caching (Bool.not_eq_true _ ▸ hdisabled)).2.2
      rw [hoff] at hcaching
      cases hcaching
    exact (hfed.feeding hon).resolve_right fun h => hs'.streaming hoff h.1
  · have hkept : s.writer.UfsKept setup s.accepted := hserved.elim Or.inl Served.fed
    have hdegrades : (s.after (write setup env data) data).writer.shouldCache =
        false → s.accepted = [] ∧ ∀ x ∈ (s.after (write setup env data)
          data).writer.cache.events, x.isOpened = false :=
      after_of_sat (P := fun _ w => w.shouldCache = false → s.accepted = [] ∧
        ∀ x ∈ w.cache.events, x.isOpened = false)
        (write_degrades hasync hkept
          (fun hopen => (hserved.resolve_left hopen).log) hcache)
    obtain ⟨haccepted, hnone⟩ := hdegrades hoff
    refine ⟨haccepted, fun id alive hmem => ?_⟩
    cases hnone _ hmem

/-! An ASYNC_THROUGH file whose first block cannot be opened. -/

def lenientSetup : WriterSetup :=
  ⟨{ smallConfig with ignoreBlockStreamUnknownStatus := true }, some 16777216, none, some 5⟩

def unreachable : CallEnv :=
  { goodEnv with cache :=
      { goodEnv.cache with openReplica := fun _ => some (.transportError "refused") } }

def lenientStart : Session := ⟨fresh lenientSetup, []⟩

def lenientDegraded : Session :=
  lenientStart.after (write lenientSetup unreachable [1, 2, 3]) [1, 2, 3]

theorem ufsAccepts_good (setup : WriterSetup) (u : UfsSide) (data : Bytes) :
    UfsAccepts setup goodEnv.ufs u data :=
  ⟨fun _ => ⟨_, _, rfl, rfl, rfl, rfl⟩, fun _ _ => rfl⟩

theorem degraded_stream_holds_accepted_lenient :
    lenientStart.writer.shouldCache = true ∧ lenientDegraded.writer.shouldCache = false ∧
    (∀ id alive, CacheEvent.opened id alive ∉ lenientDegraded.writer.cache.events) ∧
    ∃ w', write lenientSetup goodEnv [4] lenientDegraded.writer = .ok () w' ∧
      w'.ufs.stream.map GrpcBlockWriter.received = some [1, 2, 3, 4] := by
  have hcreate : create lenientSetup unreachable = .ok lenientStart.writer := rfl
  have hstart : Guarded (next lenientSetup) (UfsServes lenientSetup) lenientStart [] lenientStart :=
    .nil _
  have hrun : Guarded (next lenientSetup) (UfsServes lenientSetup) lenientStart
      [.write unreachable [1, 2, 3]] lenientDegraded :=
    .cons (fun _ s _ _ => ufsAccepts_good lenientSetup s.ufs _) rfl (.nil _)
  have hoff : lenientDegraded.writer.shouldCache = false := by decide +kernel
  have haccepted : lenientDegraded.accepted = [1, 2, 3] := by decide +kernel
  have hfirst := (degraded_stream_holds_accepted hcreate hstart).2 rfl rfl unreachable [1, 2, 3] hoff
  refine ⟨rfl, hoff, hfirst.2, ?_⟩
  obtain ⟨u, w', hwrite, hstill⟩ := exists_of_succeeds
    (write lenientSetup goodEnv [4]) lenientDegraded.writer
    (fun _ w => !w.shouldCache) (by decide +kernel)
  have hstream := (degraded_stream_holds_accepted hcreate hrun).1 goodEnv [4] w'
    (fun _ s _ _ => ufsAccepts_good lenientSetup s.ufs _) hwrite (by simpa using hstill)
  rw [haccepted] at hstream
  exact ⟨w', hwrite, hstream⟩

end Session

end GooseFS
