import GooseFS.IO.FileWriter

/-!
# Calls of a file writer

What the calls of a `GoosefsFileWriter` do, stated once for the properties of
either side.  `Framed` predicates survive the parts of `close` and `cancel`;
`CacheOutcome` lists what the cache part of a write can do to the writer;
`write_sat` and `close_sat` reduce the contract of a call to what one side does.
A `Session` is a writer under a sequence of calls, with the bytes accepted so
far.
-/

namespace GooseFS

open Lib List CacheM GoosefsFileWriter

/-! ## Ended writers -/

namespace GoosefsFileWriter

/-- No further `write` or `flush` is accepted. -/
def Ended (w : GoosefsFileWriter) : Prop := w.cancelled = true ∨ w.closed = true

instance (w : GoosefsFileWriter) : Decidable w.Ended :=
  inferInstanceAs (Decidable (w.cancelled = true ∨ w.closed = true))

variable {setup : WriterSetup} {env : CallEnv}

/-- What the sides and the master calls do not touch is kept by the parts of
`close` and `cancel`. -/
structure Framed (P : GoosefsFileWriter → Prop) : Prop where
  cache : ∀ w c, P w → P { w with cache := c }
  ufs : ∀ w u, P w → P { w with ufs := u }
  completed : ∀ w b, P w → P { w with ufsStreamCompleted := b }
  master : ∀ w m, P w → P { w with master := m }

section Framed

variable {P : GoosefsFileWriter → Prop} (hP : Framed P) {α : Type}
include hP

theorem Framed.onCache (m : CacheM α) :
    Sat P (onCache m) (fun _ => P) (fun _ => P) := by
  refine Sat.zoom fun w hw s _ => ?_
  cases m s with
  | ok a c | error e c => exact hP.cache w c hw

theorem Framed.onUfs (m : UfsM α) :
    Sat P (onUfs m) (fun _ => P) (fun _ => P) := by
  refine Sat.zoom fun w hw s _ => ?_
  cases m s with
  | ok a u | error e u => exact hP.ufs w u hw

theorem Framed.callMaster (event : MasterEvent) {E : Error → GoosefsFileWriter → Prop} :
    Sat P (callMaster event) (fun _ => P) E :=
  Sat.modify fun w hw => hP.master w _ hw

theorem Framed.doCancelCleanup :
    Sat P (doCancelCleanup env) (fun _ => P) (fun _ => P) := by
  refine Sat.bind (hP.onUfs _) fun _ => Sat.bind (hP.onCache _) fun _ => Sat.get fun w hw => ?_
  show Sat _ (if w.cache.committedBlockIds ≠ [] then _ else _) _ _
  by_cases hids : w.cache.committedBlockIds ≠ []
  · rw [if_pos hids]
    refine Sat.bind ((hP.callMaster _).fixed hw) fun _ => ?_
    split
    · exact hP.callMaster _
    · exact Sat.pure fun _ h => h
  · rw [if_neg hids]
    exact Sat.pure fun _ h => h ▸ hw

theorem Framed.orCleanup {m : WriterM α} (h : Sat P m (fun _ => P) (fun _ => P)) :
    Sat P (orCleanup env m) (fun _ => P) (fun _ => P) := by
  refine Sat.seq (Sat.attempt h) fun out => ?_
  cases out with
  | ok a => exact Sat.pure fun _ h => h
  | error e => exact Sat.bind hP.doCancelCleanup fun _ => Sat.throw fun _ h => h

theorem Framed.closeUfs : Sat P (closeUfs env) (fun _ => P) (fun _ => P) :=
  Sat.bind (hP.orCleanup (hP.onUfs _)) fun _ => Sat.modify fun w hw => hP.completed w _ hw

theorem Framed.handleCompleteFileError (err : Error) :
    Sat P (GoosefsFileWriter.handleCompleteFileError setup env err) (fun _ => P) (fun _ => P) := by
  refine Sat.get fun w hw => ?_
  have hcall : ∀ event, Sat (· = w) (GoosefsFileWriter.callMaster event) (fun _ => P) (fun _ => P) :=
    fun event => (hP.callMaster event).fixed hw
  by_cases hlost : (!(setup.strategy.ufsStream || setup.strategy.needAsyncPersist) ||
      !w.ufsStreamCompleted) = true
  · simp only [if_pos hlost]
    exact Sat.throw fun _ h => h ▸ hw
  · simp only [if_neg hlost]
    refine Sat.bind (hcall _) fun _ => ?_
    split
    · exact Sat.throw fun _ h => h
    · refine Sat.bind (hP.callMaster _) fun _ => ?_
      split
      · exact Sat.throw fun _ h => h
      · exact Sat.pure fun _ h => h

theorem Framed.completeFile (last : Option FileLocation) :
    Sat P (completeFile setup env last) (fun _ => P) (fun _ => P) := by
  refine Sat.get fun w hw => ?_
  refine Sat.bind ((hP.callMaster _).fixed hw) fun _ => ?_
  cases env.master.completeFile with
  | none => exact Sat.pure fun _ h => h
  | some e => exact hP.handleCompleteFileError e

theorem Framed.flush :
    Sat P (flush setup env) (fun _ => P) (fun _ => P) := by
  refine Sat.seq (Sat.modify fun w hw => hP.cache w _ hw)
    fun _ => Sat.get fun w hw => ?_
  split
  · exact Sat.throw fun _ h => h ▸ hw
  · refine Sat.bind ((hP.onUfs _).fixed hw) fun _ => ?_
    split
    · exact hP.onCache _
    · exact Sat.pure fun _ h => h

theorem Framed.close (hclosed : ∀ w, P w → P { w with closed := true }) :
    Sat P (close setup env) (fun _ => P) (fun _ => P) := by
  refine Sat.seq (Sat.modify fun w hw => hP.cache w _ hw)
    fun _ => Sat.get fun w hw => ?_
  split
  · exact Sat.pure fun _ h => h ▸ hw
  · refine Sat.bind (R := fun _ => P) (Sat.set fun _ _ => hclosed w hw) fun _ => ?_
    split
    · exact Sat.pure fun _ h => h
    · exact Sat.bind hP.closeUfs fun _ => Sat.bind (hP.orCleanup (hP.onCache _)) fun last =>
        hP.completeFile last

end Framed

theorem close_ends : Sat (fun _ => True) (close setup env) (fun _ => Ended) (fun _ => Ended) := by
  have hframed : Framed Ended := ⟨fun _ _ h => h, fun _ _ h => h, fun _ _ h => h, fun _ _ h => h⟩
  refine Sat.seq (Sat.modify fun _ _ => trivial) fun _ => ?_
  refine Sat.get fun w _ => ?_
  split
  case isTrue hclosed => exact Sat.pure fun _ h => h ▸ .inr hclosed
  refine Sat.bind (R := fun _ => Ended) (Sat.set fun _ _ => .inr rfl) fun _ => ?_
  split
  · exact Sat.pure fun _ h => h
  · refine Sat.bind hframed.closeUfs fun _ => ?_
    exact Sat.bind (hframed.orCleanup (hframed.onCache _)) fun last => hframed.completeFile last

theorem cancel_ends : Sat (fun _ => True) (cancel env) (fun _ => Ended) (fun _ => Ended) := by
  have hframed : Framed Ended := ⟨fun _ _ h => h, fun _ _ h => h, fun _ _ h => h, fun _ _ h => h⟩
  refine Sat.seq (Sat.modify fun _ _ => trivial) fun _ => ?_
  refine Sat.get fun w _ => ?_
  split
  case isTrue hended => exact Sat.pure fun _ h => h ▸ hended.symm
  exact Sat.bind (R := fun _ => Ended) (Sat.modify fun _ _ => .inl rfl) fun _ =>
    hframed.doCancelCleanup

end GoosefsFileWriter

/-! ## The cache part of a write -/

def CacheSide.tornDown (c : CacheSide) (blacklist : Bool) : CacheSide :=
  match c.currentBlockWriter with
  | none => c
  | some a => { c with
      currentBlockWriter := none
      events := c.events ++ (if blacklist then a.replicas.flatMap fun r =>
        [.markFailed r.netAddress, .invalidate r.workerAddr] else []) ++ a.cancelReplicas }

theorem CacheM.tearDownCacheBlock_spec (blacklist : Bool) (c : CacheSide)
    {E : Error → CacheSide → Prop} :
    Sat (· = c) (tearDownCacheBlock blacklist) (fun _ s => s = c.tornDown blacklist) E := by
  refine Sat.get fun s hs => ?_
  subst hs
  unfold CacheSide.tornDown
  cases s.currentBlockWriter with
  | none => exact Sat.pure fun _ h => h
  | some a =>
    refine Sat.modify_bind ?_
    refine Sat.modify_bind ?_
    exact Sat.modify fun _ h => by rw [h]

namespace GoosefsFileWriter

variable {setup : WriterSetup} {env : CallEnv} {data : Bytes} {w : GoosefsFileWriter}
  {E : Error → GoosefsFileWriter → Prop} {Q : Unit → GoosefsFileWriter → Prop} {e : Error}
  {s : GoosefsFileWriter}

/-- The writer after the cache part of a write that goes on to the UFS part, with
what a failure has torn down. -/
inductive CacheOutcome (setup : WriterSetup) (env : CacheEnv) (data : Bytes)
    (w : GoosefsFileWriter) : GoosefsFileWriter → Prop where
  | off : w.shouldCache = false → CacheOutcome setup env data w w
  | stored {c : CacheSide} : w.shouldCache = true →
      writeToCacheStream setup env data w.cache = .ok () c →
      CacheOutcome setup env data w { w with cache := c }
  | degraded {e : Error} {c : CacheSide} : w.shouldCache = true →
      writeToCacheStream setup env data w.cache = .error e c →
      cacheWriteFailureIsFatal e setup.strategy c.blockOpened
        setup.config.ignoreBlockStreamUnknownStatus = false →
      CacheOutcome setup env data w { w with
        cache := c.tornDown (!credentialsRejected e), shouldCache := false, ufsWriteEnabled := true }

inductive CacheFatal (setup : WriterSetup) (env : CacheEnv) (data : Bytes)
    (w : GoosefsFileWriter) : Error → GoosefsFileWriter → Prop where
  | intro {e : Error} {c : CacheSide} : w.shouldCache = true →
      writeToCacheStream setup env data w.cache = .error e c →
      cacheWriteFailureIsFatal e setup.strategy c.blockOpened
        setup.config.ignoreBlockStreamUnknownStatus = true →
      CacheFatal setup env data w e
        { w with cache := c.tornDown (!credentialsRejected e), cancelled := true }

theorem CacheFatal.ended {env : CacheEnv} (h : CacheFatal setup env data w e s) : s.Ended := by
  cases h with
  | intro _ _ _ => exact .inl rfl

theorem handleCacheWriteException_spec (err : Error) (w : GoosefsFileWriter) :
    Sat (· = w) (handleCacheWriteException setup err)
      (fun _ s => cacheWriteFailureIsFatal err setup.strategy w.cache.blockOpened
          setup.config.ignoreBlockStreamUnknownStatus = false ∧
        s = { w with
          cache := w.cache.tornDown (!credentialsRejected err)
          shouldCache := false
          ufsWriteEnabled := true })
      (fun e s => e = err ∧ cacheWriteFailureIsFatal err setup.strategy w.cache.blockOpened
          setup.config.ignoreBlockStreamUnknownStatus = true ∧
        s = { w with cache := w.cache.tornDown (!credentialsRejected err), cancelled := true }) := by
  refine Sat.get fun s hs => ?_
  subst hs
  refine Sat.bind (R := fun _ s' =>
    s' = { s with cache := s.cache.tornDown (!credentialsRejected err) }) (Sat.zoom ?_) fun _ => ?_
  · rintro _ rfl
    exact (CacheM.tearDownCacheBlock_spec _ _).post (fun _ _ h => by rw [h]) fun _ _ h => h
  cases hfatal : cacheWriteFailureIsFatal err setup.strategy s.cache.blockOpened
    setup.config.ignoreBlockStreamUnknownStatus with
  | true =>
    refine Sat.modify_bind <| Sat.throw fun _ h => ⟨rfl, rfl, h⟩
  | false => exact Sat.modify fun _ h => ⟨rfl, by rw [h]⟩

theorem writeToCache_spec (w : GoosefsFileWriter) :
    Sat (· = w) (writeToCache setup env data) (fun _ => CacheOutcome setup env.cache data w)
      (CacheFatal setup env.cache data w) := by
  refine Sat.get fun s hs => ?_
  subst hs
  cases hcache : s.shouldCache with
  | false =>
    refine Sat.pure ?_
    rintro _ rfl
    exact .off hcache
  | true =>
    refine Sat.attempt_bind (fun u s' hcall => ?_) (fun e s' hcall => ?_)
    · obtain ⟨c, hrun, rfl⟩ := zoom_ok hcall
      refine Sat.pure ?_
      rintro _ rfl
      exact .stored hcache hrun
    · obtain ⟨c, hrun, rfl⟩ := zoom_error hcall
      refine (handleCacheWriteException_spec e _).post ?_ ?_
      · rintro _ _ ⟨hfatal, rfl⟩
        exact .degraded hcache hrun hfatal
      · rintro _ _ ⟨rfl, hfatal, rfl⟩
        exact .intro hcache hrun hfatal

theorem ensureRouterInit_sat (w : GoosefsFileWriter) :
    Sat (· = w) (ensureRouterInit env) (fun _ s => ∃ b, s = { w with routerNeedsInit := b })
      (fun _ s => env.router ≠ none ∧ s = w) := by
  refine Sat.get fun s hs => ?_
  subst hs
  cases hneeds : s.routerNeedsInit with
  | false => exact Sat.pure fun s' h => ⟨false, by rw [h, ← hneeds]⟩
  | true =>
    cases env.router with
    | some e => exact Sat.throw fun _ h => ⟨by simp, h⟩
    | none => exact Sat.modify fun s' h => ⟨false, by rw [h]⟩

/-- How `write`, `flush`, `close` and `cancel` start. -/
theorem begin_sat {α : Type} {f : GoosefsFileWriter → WriterM α} {Q : α → GoosefsFileWriter → Prop}
    (h : Sat (· = { w with cache := { w.cache with ticks := 0 } })
      (f { w with cache := { w.cache with ticks := 0 } }) Q E) :
    Sat (· = w) (do begin; f (← get)) Q E := by
  refine Sat.modify_bind <| Sat.get fun s hs => ?_
  subst hs
  exact h

theorem write_spec
    (hrefused : w.Ended ∨ env.router ≠ none →
      ∀ e, E e { w with cache := { w.cache with ticks := 0 } })
    (hempty : ¬w.Ended → data = [] → Q () { w with cache := { w.cache with ticks := 0 } })
    (hfatal : ¬w.Ended → data ≠ [] → ∀ b e s, CacheFatal setup env.cache data
      { w with cache := { w.cache with ticks := 0 }, routerNeedsInit := b } e s → E e s)
    (hrest : ¬w.Ended → data ≠ [] → ∀ b s, CacheOutcome setup env.cache data
      { w with cache := { w.cache with ticks := 0 }, routerNeedsInit := b } s →
        Sat (· = s) (do writeToUfs setup env data; account setup data) Q E) :
    Sat (· = w) (write setup env data) Q E := by
  refine begin_sat ?_
  by_cases hopen : w.cancelled = true ∨ w.closed = true
  · rw [if_pos hopen]
    exact Sat.throw fun _ h => h ▸ hrefused (.inl hopen) _
  · rw [if_neg hopen]
    by_cases hnil : data = []
    · rw [if_pos hnil]
      exact Sat.pure fun _ h => h ▸ hempty hopen hnil
    · rw [if_neg hnil]
      refine Sat.bind ((ensureRouterInit_sat _).post (fun _ _ h => h)
        fun e _ h => h.2 ▸ hrefused (.inr h.1) e) fun _ => Sat.of_forall ?_
      rintro _ ⟨b, rfl⟩
      refine Sat.bind ((writeToCache_spec _).post (fun _ _ h => h)
        (hfatal hopen hnil b)) fun _ => ?_
      exact Sat.of_forall fun s hs => hrest hopen hnil b s hs

theorem write_sat (hended : ∀ e s, Ended s → E e s)
    (hrefused : ∀ e, E e { w with cache := { w.cache with ticks := 0 } })
    (hempty : data = [] → Q () { w with cache := { w.cache with ticks := 0 } })
    (hrest : ¬w.Ended → data ≠ [] → ∀ b s, CacheOutcome setup env.cache data
      { w with cache := { w.cache with ticks := 0 }, routerNeedsInit := b } s →
        Sat (· = s) (do writeToUfs setup env data; account setup data) Q E) :
    Sat (· = w) (write setup env data) Q E :=
  write_spec (fun _ => hrefused) (fun _ => hempty) (fun _ _ _ e s h => hended e s h.ended) hrest

theorem ufsPart_framed {P : GoosefsFileWriter → Prop} (hufs : ∀ w u, P w → P { w with ufs := u })
    (haccount : ∀ w n crc, P w → P { w with totalBytesWritten := n, checksum := crc }) :
    Sat P (do writeToUfs setup env data; account setup data) (fun _ => P) (fun _ => P) := by
  refine Sat.seq (Sat.get fun w hw => ?_)
    fun _ => Sat.modify fun w hw => haccount w _ _ hw
  split
  · refine Sat.zoom ?_
    rintro _ rfl u _
    cases UfsM.writeToUfsStream setup env.ufs data u with
    | ok a u' | error e u' => exact hufs _ u' hw
  · exact Sat.pure fun _ h => h ▸ hw

theorem write_ended (h : w.Ended) : Sat (· = w) (write setup env data) (fun _ _ => False)
      (fun _ s => s = { w with cache := { w.cache with ticks := 0 } }) :=
  write_spec (fun _ _ => rfl) (fun hopen => absurd h hopen) (fun hopen => absurd h hopen)
    fun hopen => absurd h hopen

theorem flush_ended (h : w.Ended) : Sat (· = w) (flush setup env) (fun _ _ => False)
      (fun _ s => s = { w with cache := { w.cache with ticks := 0 } }) := by
  refine begin_sat ?_
  rw [if_pos (show w.cancelled = true ∨ w.closed = true from h)]
  exact Sat.throw fun _ hs => hs

theorem close_ended (h : w.Ended) : Sat (· = w) (close setup env)
      (fun _ s => s = { w with closed := true, cache := { w.cache with ticks := 0 } })
      (fun _ _ => False) := by
  refine begin_sat ?_
  by_cases hclosed : w.closed = true
  · rw [if_pos hclosed]
    refine Sat.pure ?_
    rintro _ rfl
    rw [← hclosed]
  · rw [if_neg hclosed]
    refine Sat.set_bind ?_
    rw [if_pos (h.resolve_right hclosed)]
    exact Sat.pure fun _ hs => hs

theorem cancel_ended (h : w.Ended) :
    Sat (· = w) (cancel env) (fun _ s => s = { w with cache := { w.cache with ticks := 0 } })
      (fun _ _ => False) := by
  refine begin_sat ?_
  rw [if_pos (show w.closed = true ∨ w.cancelled = true from h.symm)]
  exact Sat.pure fun _ hs => hs

theorem write_open {w' : GoosefsFileWriter} (h : write setup env data w = .ok () w') :
    ¬w'.Ended := by
  have hopen : Sat (· = w) (write setup env data) (fun _ s => ¬s.Ended) (fun _ _ => True) := by
    refine write_spec (fun _ _ => trivial) (fun hopen _ => hopen) (fun _ _ _ _ _ _ => trivial) ?_
    intro hopen _ b s hs
    refine (ufsPart_framed (P := fun s => ¬s.Ended) (fun _ _ h => h) fun _ _ _ h => h).mono ?_
      (fun _ _ h => h) fun _ _ _ => trivial
    rintro _ rfl
    cases hs with
    | off _ | stored _ _ | degraded _ _ _ => exact hopen
  exact hopen.ok rfl h

theorem write_cancelled_iff {c : CacheSide} {P : CacheSide → Prop} (hopen : ¬w.Ended)
    (hrouter : env.router = none) (hne : data ≠ []) (hcache : w.shouldCache = true)
    (hrun : writeToCacheStream setup env.cache data { w.cache with ticks := 0 } = .error e c) :
    (∃ w', write setup env data w = .error e w' ∧ w'.cancelled = true ∧ P w'.cache) ↔
      cacheWriteFailureIsFatal e setup.strategy c.blockOpened
        setup.config.ignoreBlockStreamUnknownStatus = true ∧
        P (c.tornDown (!credentialsRejected e)) := by
  let fatal := cacheWriteFailureIsFatal e setup.strategy c.blockOpened
    setup.config.ignoreBlockStreamUnknownStatus
  have hcall : Sat (· = w) (write setup env data)
      (fun _ s => fatal = false ∧ s.cancelled = false)
      (fun e' s => (fatal = true ∧ e' = e ∧ s.cancelled = true ∧
        s.cache = c.tornDown (!credentialsRejected e)) ∨ (fatal = false ∧ s.cancelled = false)) := by
    refine write_spec (fun h => absurd h (by simp [hopen, hrouter])) (fun _ h => absurd h hne) ?_ ?_
    · intro _ _ b e' s hs
      cases hs with
      | intro _ hrun' hfatal =>
        cases hrun.symm.trans hrun'
        exact .inl ⟨hfatal, rfl, rfl, rfl⟩
    · intro _ _ b s hs
      have hs' : fatal = false ∧ s.cancelled = false := by
        cases hs with
        | off hoff =>
          cases hcache.symm.trans hoff
        | stored _ hrun' => cases hrun.symm.trans hrun'
        | degraded _ hrun' hfatal =>
          cases hrun.symm.trans hrun'
          exact ⟨hfatal, Bool.eq_false_iff.mpr fun h => hopen (.inl h)⟩
      exact (ufsPart_framed (P := fun s => fatal = false ∧ s.cancelled = false) (fun _ _ h => h)
        fun _ _ _ h => h).mono (fun _ h => h ▸ hs') (fun _ _ h => h) fun _ _ h => .inr h
  constructor
  · rintro ⟨w', hwrite, hcancelled, hP⟩
    rcases hcall.error rfl hwrite with ⟨hfatal, _, _, hc⟩ | ⟨_, h⟩
    · exact ⟨hfatal, hc ▸ hP⟩
    · cases hcancelled.symm.trans h
  · rintro ⟨hfatal, hP⟩
    cases hwrite : write setup env data w with
    | ok u w' => cases hfatal.symm.trans (hcall.ok rfl hwrite).1
    | error e' w' =>
      rcases hcall.error rfl hwrite with ⟨_, rfl, hcancelled, hc⟩ | ⟨h, _⟩
      · exact ⟨w', rfl, hcancelled, hc.symm ▸ hP⟩
      · cases hfatal.symm.trans h

end GoosefsFileWriter

/-! ## A close that completes the file -/

def MasterEvent.completes : MasterEvent → Bool
  | .completeFile _ none => true
  | .reload none => true
  | _ => false

namespace GoosefsFileWriter

variable {setup : WriterSetup} {env : CallEnv} {w : GoosefsFileWriter}
  {E : Error → GoosefsFileWriter → Prop}

def completedFiles (w : GoosefsFileWriter) : List CompleteFileOptions :=
  w.master.filterMap MasterEvent.completed?

/-- A failed `CompleteFile` can be recovered through the UFS. -/
def Recovers (setup : WriterSetup) (env : MasterEnv) (w : GoosefsFileWriter) : Prop :=
  (setup.strategy.ufsStream || setup.strategy.needAsyncPersist) = true ∧
    w.ufsStreamCompleted = true ∧ env.recoverDelete = none ∧ env.reload = none

/-- The master was told that the file is complete, or its UFS recovery has
succeeded. -/
def FileCompleted (w : GoosefsFileWriter) : Prop :=
  (∃ options, .completeFile options none ∈ w.master) ∨ .reload none ∈ w.master

theorem fileCompleted_iff (w : GoosefsFileWriter) :
    FileCompleted w ↔ w.master.any MasterEvent.completes = true := by
  rw [any_eq_true]
  constructor
  · rintro (⟨options, h⟩ | h)
    · exact ⟨_, h, rfl⟩
    · exact ⟨_, h, rfl⟩
  · rintro ⟨event, hmem, hcompletes⟩
    cases event with
    | completeFile options err =>
      cases err with
      | none => exact .inl ⟨options, hmem⟩
      | some e => cases hcompletes
    | reload err =>
      cases err with
      | none => exact .inr hmem
      | some e => cases hcompletes
    | removeBlocks ids err | delete goosefsOnly err => cases hcompletes

instance (w : GoosefsFileWriter) : Decidable (FileCompleted w) :=
  decidable_of_iff _ (fileCompleted_iff w).symm

theorem completeFile_spec (w : GoosefsFileWriter) (last : Option FileLocation) :
    Sat (· = w) (completeFile setup env last)
      (fun _ s => (∃ more, s = { w with master := w.master ++ more } ∧
          more.filterMap MasterEvent.completed? = [completeFileOptions setup w last]) ∧
        FileCompleted s)
      (fun _ s => (∃ more, s = { w with master := w.master ++ more }) ∧
        env.master.completeFile ≠ none ∧ ¬Recovers setup env.master w) := by
  refine Sat.get fun s hs => ?_
  subst hs
  refine Sat.modify_bind ?_
  cases hreply : env.master.completeFile with
  | none =>
    refine Sat.pure ?_
    rintro _ rfl
    refine ⟨⟨_, rfl, rfl⟩, .inl ⟨completeFileOptions setup s last, ?_⟩⟩
    simp
  | some e =>
    refine Sat.get fun s' hs' => ?_
    subst hs'
    by_cases hlost : (!(setup.strategy.ufsStream || setup.strategy.needAsyncPersist) ||
        !s.ufsStreamCompleted) = true
    · rw [if_pos hlost]
      refine Sat.throw fun _ h => ⟨⟨_, h⟩, by simp, fun hrecovers => ?_⟩
      rw [hrecovers.1, hrecovers.2.1] at hlost
      cases hlost
    · rw [if_neg hlost]
      refine Sat.modify_bind ?_
      cases hdelete : env.master.recoverDelete with
      | some e' =>
        refine Sat.throw fun _ h => ⟨⟨_, h.trans (by simp; rfl)⟩, by simp, ?_⟩
        rintro ⟨_, _, h, _⟩
        rw [hdelete] at h
        cases h
      | none =>
        refine Sat.modify_bind ?_
        cases hreload : env.master.reload with
        | some e' =>
          refine Sat.throw fun _ h => ⟨⟨_, h.trans (by simp; rfl)⟩, by simp, ?_⟩
          rintro ⟨_, _, _, h⟩
          rw [hreload] at h
          cases h
        | none =>
          refine Sat.pure fun s' h => ⟨⟨_, h.trans (by simp; rfl), rfl⟩, .inr ?_⟩
          rw [h]
          simp

theorem orCleanup_spec {α : Type} {m : WriterM α} {Q : α → GoosefsFileWriter → Prop}
    (hok : ∀ a s, m w = .ok a s → Q a s)
    (herr : ∀ e s, m w = .error e s → Sat (· = s) (doCancelCleanup env) (fun _ => E e) E) :
    Sat (· = w) (orCleanup env m) Q E :=
  Sat.attempt_bind (fun a s hm => Sat.pure fun _ h => h ▸ hok a s hm) fun e s hm =>
    Sat.bind (herr e s hm) fun _ => Sat.throw fun _ h => h

theorem close_spec {Q : Unit → GoosefsFileWriter → Prop} (hopen : ¬w.Ended)
    (hufs : ∀ e u, UfsM.close env.ufs w.ufs = .error e u →
      Sat (· = { w with closed := true, cache := { w.cache with ticks := 0 }, ufs := u })
        (doCancelCleanup env) (fun _ => E e) E)
    (hcache : ∀ completed u e c, UfsM.close env.ufs w.ufs = .ok completed u →
      closeCurrentBlock setup env.cache false { w.cache with ticks := 0 } = .error e c →
      Sat (· = { w with
          closed := true, cache := c, ufs := u
          ufsStreamCompleted := w.ufsStreamCompleted || completed })
        (doCancelCleanup env) (fun _ => E e) E)
    (hcomplete : ∀ completed u last c, UfsM.close env.ufs w.ufs = .ok completed u →
      closeCurrentBlock setup env.cache false { w.cache with ticks := 0 } = .ok last c →
      Sat (· = { w with
          closed := true, cache := c, ufs := u
          ufsStreamCompleted := w.ufsStreamCompleted || completed })
        (completeFile setup env last) Q E) : Sat (· = w) (close setup env) Q E := by
  refine begin_sat ?_
  rw [if_neg fun h => hopen (.inr h)]
  let w₁ : GoosefsFileWriter := { w with closed := true, cache := { w.cache with ticks := 0 } }
  refine Sat.set_bind ?_
  rw [if_neg fun h => hopen (.inl h)]
  refine Sat.bind (R := fun _ s => ∃ completed u, UfsM.close env.ufs w.ufs = .ok completed u ∧
    s = { w₁ with ufs := u, ufsStreamCompleted := w.ufsStreamCompleted || completed }) ?_ fun _ => ?_
  · refine Sat.bind (R := fun completed s => ∃ u, UfsM.close env.ufs w.ufs = .ok completed u ∧
      s = { w₁ with ufs := u }) (orCleanup_spec (fun completed s hcall => ?_) fun e s hcall => ?_)
      fun completed => Sat.modify ?_
    · exact zoom_ok hcall
    · obtain ⟨u, hclose, rfl⟩ := zoom_error hcall
      exact hufs e u hclose
    · rintro _ ⟨u, hclose, rfl⟩
      exact ⟨completed, u, hclose, rfl⟩
  refine Sat.of_forall ?_
  rintro _ ⟨completed, u, hclose, rfl⟩
  refine Sat.bind (R := fun last s => ∃ c, closeCurrentBlock setup env.cache false
    { w.cache with ticks := 0 } = .ok last c ∧ s = { w₁ with
      cache := c, ufs := u, ufsStreamCompleted := w.ufsStreamCompleted || completed })
    (orCleanup_spec (fun last s hcall => ?_) fun e s hcall => ?_) fun last => Sat.of_forall ?_
  · exact zoom_ok hcall
  · obtain ⟨c, hblock, rfl⟩ := zoom_error hcall
    exact hcache completed u e c hclose hblock
  · rintro _ ⟨c, hblock, rfl⟩
    exact hcomplete completed u last c hclose hblock

/-- A `close` of an open writer that returns `Ok` has closed the UFS stream, then
the last block, and then completed the file. -/
theorem close_sat {U : Bool → UfsSide → Prop} {C : Option FileLocation → CacheSide → Prop}
    (hopen : ¬w.Ended) (hufs : Sat (· = w.ufs) (UfsM.close env.ufs) U (fun _ _ => True))
    (hcache : Sat (· = { w.cache with ticks := 0 }) (closeCurrentBlock setup env.cache false)
      C (fun _ _ => True)) : Sat (· = w) (close setup env)
      (fun _ s => ∃ completed last, U completed s.ufs ∧ C last s.cache ∧
        s.completedFiles = w.completedFiles ++ [completeFileOptions setup
          { w with ufsStreamCompleted := w.ufsStreamCompleted || completed } last])
      (fun _ _ => True) := by
  refine close_spec hopen (fun _ _ _ => Sat.trivial) (fun _ _ _ _ _ _ => Sat.trivial) ?_
  intro completed u last c hclose hblock
  refine (completeFile_spec _ last).post ?_ fun _ _ _ => trivial
  rintro _ _ ⟨⟨more, rfl, hmore⟩, _⟩
  refine ⟨completed, last, hufs.ok rfl hclose, hcache.ok rfl hblock, ?_⟩
  show filterMap _ (w.master ++ more) = _
  rw [filterMap_append, hmore]
  rfl

end GoosefsFileWriter

/-! ## Calls on a writer -/

inductive Call where
  | write (env : CallEnv) (data : Bytes)
  | flush (env : CallEnv)
  | close (env : CallEnv)
  | cancel (env : CallEnv)

/-- A writer, and the concatenation of the buffers whose `write` returned `Ok`. -/
structure Session where
  writer : GoosefsFileWriter
  accepted : Bytes

namespace Session

open GoosefsFileWriter

/-- The session after a call that adds `data` to the file if it succeeds. -/
def after (s : Session) (m : WriterM Unit) (data : Bytes) : Session :=
  match m s.writer with
  | .ok _ w => ⟨w, s.accepted ++ data⟩
  | .error _ w => ⟨w, s.accepted⟩

def next (setup : WriterSetup) (s : Session) : Call → Option Session
  | .write env data => some (s.after (write setup env data) data)
  | .flush env => some (s.after (flush setup env) [])
  | .close env => some (s.after (close setup env) [])
  | .cancel env => some (s.after (cancel env) [])

def returnsOk (m : WriterM Unit) (w : GoosefsFileWriter) : Bool := succeeds m w fun _ _ => true

variable {P : Bytes → GoosefsFileWriter → Prop} {call : Call} {s s' : Session} {setup : WriterSetup}

theorem after_of_sat {m : WriterM Unit} {data : Bytes}
    (h : Sat (· = s.writer) m (fun _ => P (s.accepted ++ data))
      (fun _ => P s.accepted)) : P (s.after m data).accepted (s.after m data).writer := by
  unfold after
  cases hm : m s.writer with
  | ok u w => exact h.ok rfl hm
  | error e w => exact h.error rfl hm

/-- A property of the writer and the accepted bytes that ended writers have is
kept by every call if `write` and `flush` keep it. -/
theorem next_of_sat (hended : ∀ content w, w.Ended → P content w)
    (hwrite : ∀ env data, call = .write env data → Sat (· = s.writer) (write setup env data)
        (fun _ => P (s.accepted ++ data)) (fun _ => P s.accepted))
    (hflush : ∀ env, call = .flush env → Sat (· = s.writer) (flush setup env)
      (fun _ => P s.accepted) (fun _ => P s.accepted)) (hnext : s.next setup call = some s') :
    P s'.accepted s'.writer := by
  have hends : ∀ {m : WriterM Unit}, Sat (fun _ => True) m (fun _ => Ended)
      (fun _ => Ended) →
        P (s.after m []).accepted (s.after m []).writer := fun h =>
    after_of_sat (h.mono (fun _ _ => trivial) (fun _ w hw => hended _ w hw)
      fun _ w hw => hended _ w hw)
  cases call with
  | write env data =>
    cases hnext
    exact after_of_sat (hwrite env data rfl)
  | flush env =>
    cases hnext
    refine after_of_sat ?_
    rw [append_nil]
    exact hflush env rfl
  | close env =>
    cases hnext
    exact hends close_ends
  | cancel env =>
    cases hnext
    exact hends cancel_ends

theorem next_of_open
    (hwrite : ¬s.writer.Ended → ∀ env data, call = .write env data →
      Sat (· = s.writer) (write setup env data)
        (fun _ w => w.Ended ∨ P (s.accepted ++ data) w) (fun _ w => w.Ended ∨ P s.accepted w))
    (hflush : ¬s.writer.Ended → ∀ env, call = .flush env → Sat (· = s.writer) (flush setup env)
        (fun _ w => w.Ended ∨ P s.accepted w) (fun _ w => w.Ended ∨ P s.accepted w))
    (hnext : s.next setup call = some s') : s'.writer.Ended ∨ P s'.accepted s'.writer := by
  refine next_of_sat (P := fun content w => w.Ended ∨ P content w) (fun _ _ h => .inl h)
    (fun env data hcall => ?_) (fun env hcall => ?_) hnext
  · by_cases hended : s.writer.Ended
    · exact (write_ended hended).post (fun _ _ h => h.elim)
        fun _ _ h => .inl (h ▸ hended)
    · exact hwrite hended env data hcall
  · by_cases hended : s.writer.Ended
    · exact (flush_ended hended).post (fun _ _ h => h.elim)
        fun _ _ h => .inl (h ▸ hended)
    · exact hflush hended env hcall

theorem next_ended (hended : s.writer.Ended) (hnext : s.next setup call = some s') :
    s'.accepted = s.accepted ∧
      (s'.writer = { s.writer with cache := { s.writer.cache with ticks := 0 } } ∨
        s'.writer = { s.writer with
          closed := true, cache := { s.writer.cache with ticks := 0 } }) := by
  let P : Bytes → GoosefsFileWriter → Prop := fun content w => content = s.accepted ∧
    (w = { s.writer with cache := { s.writer.cache with ticks := 0 } } ∨
      w = { s.writer with closed := true, cache := { s.writer.cache with ticks := 0 } })
  have hafter : ∀ {m : WriterM Unit} {data : Bytes}, Sat (· = s.writer) m
      (fun _ => P (s.accepted ++ data)) (fun _ => P s.accepted) →
        P (s.after m data).accepted (s.after m data).writer := after_of_sat
  cases call with
  | write env data =>
    cases hnext
    exact hafter ((write_ended hended).post (fun _ _ h => h.elim)
      fun _ _ h => ⟨rfl, .inl h⟩)
  | flush env =>
    cases hnext
    exact hafter ((flush_ended hended).post (fun _ _ h => h.elim)
      fun _ _ h => ⟨rfl, .inl h⟩)
  | close env =>
    cases hnext
    exact hafter ((close_ended hended).post
      (fun _ _ h => ⟨append_nil _, .inr h⟩) fun _ _ h => h.elim)
  | cancel env =>
    cases hnext
    exact hafter ((cancel_ended hended).post
      (fun _ _ h => ⟨append_nil _, .inl h⟩) fun _ _ h => h.elim)

end Session

end GooseFS
