import GooseFS.IO.CacheErrors
import GooseFS.IO.Degrade

/-!
# Cleaning up after a failure

What a writer leaves behind when its file is not completed.  `do_cancel_cleanup`
cancels the open streams and asks the master to remove every block in
`committed_block_ids`, which is every block whose streams were closed
(`Tracked`), so it leaves nothing behind (`Clean`).  But it is not run on every
exit: not after a cache failure that ends the writer, nor after a `CompleteFile`
that fails, and both make `cancel` do nothing.  `CleanStep` is what a call must
meet for these two exits to leave nothing behind either.
-/

namespace GooseFS

open Lib ActiveBlockWriter List CacheM GoosefsFileWriter

/-! ## Blocks whose streams were closed -/

/-- A stream whose request side was closed, so that the worker may have committed
the block, also where `close` then failed. -/
def CacheEvent.closing? : CacheEvent → Option GrpcBlockWriter
  | .closed s => some s
  | .closeFailed s => some s
  | _ => none

def closingStreams (events : List CacheEvent) : List GrpcBlockWriter :=
  events.filterMap CacheEvent.closing?

@[simp] theorem closingStreams_append (a b : List CacheEvent) :
    closingStreams (a ++ b) = closingStreams a ++ closingStreams b := filterMap_append

@[simp] theorem closingStreams_opened (blockId : Int64) (alive : Nat) :
    closingStreams [.opened blockId alive] = [] := rfl

variable {events : List CacheEvent}

theorem closingStreams_of_drops (h : ∀ e ∈ events, e.isDrop = true) :
    closingStreams events = [] := by
  refine filterMap_eq_nil_iff.mpr fun e he => ?_
  cases e with
  | closed s | closeFailed s => cases h _ he
  | _ => rfl

theorem closingStreams_of_trying (h : ∀ e ∈ events, e.isTrying = true) :
    closingStreams events = [] := by
  refine filterMap_eq_nil_iff.mpr fun e he => ?_
  cases e with
  | closed s | closeFailed s => cases h _ he
  | _ => rfl

namespace ActiveBlockWriter

variable {a : ActiveBlockWriter} {events : List CacheEvent} {res : Except Error Unit}

@[simp] theorem closingStreams_cancelReplicas (a : ActiveBlockWriter) :
    closingStreams a.cancelReplicas = [] :=
  closingStreams_of_drops fun _ => isDrop_of_mem_cancelled

theorem closingStreams_of_perform {op : ReplicaOp} {tasks : Nat → TaskRun} {rs : List ReplicaWriter}
    (h : a.perform op tasks = (res, rs, events)) : closingStreams events = [] := by
  refine closingStreams_of_drops fun e he => ?_
  have he' : e ∈ (a.perform op tasks).2.2 := by
    rw [h]
    exact he
  exact (a.perform_served _ _).drops _ he'

theorem mem_closingStreams_of_close {replies : Nat → CloseReply} {s : GrpcBlockWriter}
    (h : a.closeReplicas replies = (res, events)) (hs : s ∈ closingStreams events) :
    ∃ r ∈ a.replicas, s = r.writer := by
  obtain ⟨e, he, hclosing⟩ := mem_filterMap.mp hs
  have he' : e ∈ (closeAll replies a.replicas).2 := by
    rw [show closeAll replies a.replicas = (res, events) from h]
    exact he
  obtain ⟨r, hr, rfl | rfl⟩ := (closeAll_spec _ _).1 _ he'
  · exact ⟨r, hr, (Option.some.inj hclosing).symm⟩
  · exact ⟨r, hr, (Option.some.inj hclosing).symm⟩

end ActiveBlockWriter

section

variable (c : CacheSide) (blacklist : Bool)
include c blacklist

@[simp] theorem CacheSide.tornDown_committedBlockIds :
    (c.tornDown blacklist).committedBlockIds = c.committedBlockIds := by
  unfold CacheSide.tornDown
  cases c.currentBlockWriter with
  | none | some a => rfl

@[simp] theorem CacheSide.closingStreams_tornDown :
    closingStreams (c.tornDown blacklist).events = closingStreams c.events := by
  unfold CacheSide.tornDown
  cases c.currentBlockWriter with
  | none => rfl
  | some a =>
    have hmarks : closingStreams (if blacklist then a.replicas.flatMap fun r =>
        [.markFailed r.netAddress, .invalidate r.workerAddr] else []) = [] := by
      refine closingStreams_of_trying fun e he => ?_
      split at he
      · obtain ⟨r, _, he⟩ := mem_flatMap.mp he
        rcases mem_cons.mp he with rfl | he
        · rfl
        · rw [mem_singleton.mp he]
          rfl
      · cases he
    simp [hmarks]

end

/-! ## What the cache side keeps track of -/

/-- Every block whose streams were closed is recorded, and the open block has its
own streams only. -/
structure CacheSide.Tracked (setup : WriterSetup) (c : CacheSide) : Prop where
  recorded : ∀ s ∈ closingStreams c.events, s.blockId ∈ c.committedBlockIds
  streams : ∀ a, c.currentBlockWriter = some a → ∀ r ∈ a.replicas, r.writer.blockId = a.blockId
  regular : c.Regular (setup.strategy.needAsyncPersist = true) True

namespace CacheSide

variable {setup : WriterSetup} {env : CacheEnv} {c c' : CacheSide} {e : Error} {op : ReplicaOp}

theorem Tracked.step (hc : c.Tracked setup) (h : Step setup env c c') : c'.Tracked setup := by
  refine ⟨?_, h.current hc.streams (fun _ _ _ ha => ha) ?_ ?_, h.regular id hc.regular⟩
  · cases h with
    | block hs =>
      cases hs with
      | fill n pending _ => exact hc.recorded
      | perform _ hperform =>
        simp only [closingStreams_append, closingStreams_of_perform hperform, append_nil]
        exact hc.recorded
    | discard _ =>
      simp only [closingStreams_append, closingStreams_cancelReplicas, append_nil]
      exact hc.recorded
    | @commit a events more n hcurrent hclose hmore =>
      have hquiet : closingStreams more = [] := by
        refine filterMap_eq_nil_iff.mpr fun x hx => ?_
        obtain ⟨loc, rfl⟩ := hmore x hx
        rfl
      simp only [closingStreams_append, hquiet, append_nil]
      intro s hs
      rcases mem_append.mp hs with hs | hs
      · exact mem_append_left _ (hc.recorded s hs)
      · obtain ⟨r, hr, rfl⟩ := mem_closingStreams_of_close hclose hs
        rw [hc.streams a hcurrent r hr]
        exact mem_append_right _ (mem_singleton_self _)
    | opens _ _ hopen =>
      obtain ⟨_, pool, ⟨n, more, htrying, _, rfl⟩, _, _, rfl⟩ :=
        (openBlock_spec _ _ c).ok rfl hopen
      simp only [closingStreams_append, closingStreams_of_trying htrying, closingStreams_opened,
        append_nil]
      exact hc.recorded
  · intro a op tasks rs events ha hperform r' hr'
    obtain ⟨r, hr, _, hid, _⟩ := (a.perform_ok hperform).2 r' hr'
    exact hid.trans (ha r hr)
  · intro blockId plan pool a _ _ hfresh r hr
    rw [hfresh.streams r hr, hfresh.blockId]
    rfl

theorem Tracked.refuses (hc : c.Tracked setup) (h : Refuses env op e c c') : c'.Tracked setup := by
  cases h with
  | @intro a rs events hcurrent hperform =>
    refine ⟨?_, ?_, (Refuses.intro hcurrent hperform).regular hc.regular⟩
    · simp only [closingStreams_append, closingStreams_of_perform hperform, append_nil]
      exact hc.recorded
    · intro a' ha' r' hr'
      cases ha'
      rcases (hperform ▸ a.perform_served op _).left _ rfl with hnil | ⟨_, hleft, _⟩
      · exact absurd hr' (eq_nil_iff_forall_not_mem.mp hnil r')
      · obtain ⟨r, hr, hid⟩ := hleft r' hr'
        exact hid.trans (hc.streams a hcurrent r hr)

theorem tracked_invariant (setup : WriterSetup) : StepInvariant setup (Tracked setup) where
  ticks := fun _ _ h => ⟨h.recorded, h.streams, h.regular⟩
  step := fun _ _ _ hc h => hc.step h
  refuses := fun _ _ _ _ _ hc h => hc.refuses h

theorem tracked_of_none (hnone : c.currentBlockWriter = none)
    (h : ∀ s ∈ closingStreams c.events, s.blockId ∈ c.committedBlockIds) : c.Tracked setup where
  recorded := h
  streams := fun a ha => by rw [hnone] at ha; cases ha
  regular := regular_of_none hnone

theorem Tracked.tornDown (hc : c.Tracked setup) (blacklist : Bool) :
    (c.tornDown blacklist).Tracked setup := by
  refine tracked_of_none (c.tornDown_current blacklist) ?_
  rw [closingStreams_tornDown, tornDown_committedBlockIds]
  exact hc.recorded

theorem Tracked.fails {op : CacheOp} (hc : c.Tracked setup) (hop : op ≠ .commitLocation)
    (h : Fails setup env c op e c') : c'.Tracked setup := by
  cases h with
  | plan _ _ => exact hc
  | openBlock hnone _ hopen =>
    obtain ⟨⟨n, more, htrying, _, rfl⟩, _⟩ := (openBlock_spec _ _ c).error rfl hopen
    refine tracked_of_none hnone ?_
    simp only [closingStreams_append, closingStreams_of_trying htrying, append_nil]
    exact hc.recorded
  | send hrefuses => exact hc.refuses hrefuses
  | abandon hrefuses _ =>
    refine tracked_of_none rfl ?_
    simp only [closingStreams_append, closingStreams_cancelReplicas, append_nil]
    exact (hc.refuses hrefuses).recorded
  | @close a events _ hcurrent hclose =>
    refine tracked_of_none rfl fun s hs => ?_
    simp only [closingStreams_append] at hs
    rcases mem_append.mp hs with hs | hs
    · exact mem_append_left _ (hc.recorded s hs)
    · obtain ⟨r, hr, rfl⟩ := mem_closingStreams_of_close hclose hs
      rw [hc.streams a hcurrent r hr]
      exact mem_append_right _ (mem_singleton_self _)
  | commitLocation _ _ _ _ => exact absurd rfl hop

theorem Tracked.stops {op : CacheOp} (hc : c.Tracked setup) (hop : op ≠ .commitLocation)
    (h : Stops setup env c op e c') : c'.Tracked setup := by
  obtain ⟨c₁, hreach, hfails⟩ := h
  exact ((tracked_invariant setup).reaches hreach hc).fails hop hfails

/-! ## Writes into one block -/

def room (setup : WriterSetup) (c : CacheSide) : Nat :=
  match c.currentBlockWriter with
  | none => setup.blockSize
  | some a => a.remaining

theorem BlockStep.closing_eq (h : BlockStep env c c') :
    closingStreams c'.events = closingStreams c.events := by
  cases h with
  | fill n pending _ => rfl
  | perform _ hperform =>
    simp only [closingStreams_append, closingStreams_of_perform hperform, append_nil]

theorem Works.closing_eq (h : c.Works env c') :
    closingStreams c'.events = closingStreams c.events :=
  h.invariant (P := fun c' => closingStreams c'.events = closingStreams c.events)
    (fun _ _ hc hs => hs.closing_eq.trans hc) rfl

theorem Refuses.closing_eq (h : Refuses env op e c c') :
    closingStreams c'.events = closingStreams c.events := by
  cases h with
  | intro _ hperform =>
    simp only [closingStreams_append, closingStreams_of_perform hperform, append_nil]

end CacheSide

namespace CacheM

variable {setup : WriterSetup} {env : CacheEnv} {data : Bytes}

theorem writeLoop_nil (fuel : Nat) : writeLoop setup env fuel [] = pure () := by
  cases fuel with
  | zero | succ fuel => rfl

theorem ensureBlock_fits (hne : data ≠ []) (c : CacheSide) (hfits : data.length ≤ c.room setup) :
    Sat (· = c) (ensureBlock setup env)
      (fun _ c' => closingStreams c'.events = closingStreams c.events ∧
        ∃ a, c'.currentBlockWriter = some a ∧ data.length ≤ a.remaining)
      (fun _ c' => closingStreams c'.events = closingStreams c.events) := by
  have hpos : 0 < data.length := length_pos_iff.mpr hne
  refine Sat.get fun s hs => ?_
  subst hs
  unfold CacheSide.room at hfits
  cases hcurrent : s.currentBlockWriter with
  | some a =>
    rw [hcurrent] at hfits
    change data.length ≤ a.remaining at hfits
    have hroom : needsFreshBlock (Option.map remaining (some a)) = false := by
      simp only [needsFreshBlock, Option.map_some, decide_eq_false_iff_not]
      omega
    rw [hroom]
    refine Sat.pure ?_
    rintro _ rfl
    exact ⟨rfl, a, hcurrent, hfits⟩
  | none =>
    rw [hcurrent] at hfits
    refine Sat.seq ?_ fun _ => Sat.get fun s' hs' => ?_
    · refine Sat.get fun s' hs' => ?_
      subst hs'
      rw [hcurrent]
      exact Sat.pure fun _ h => h
    subst hs'
    cases setup.plan with
    | error e => exact Sat.throw fun _ h => h ▸ rfl
    | ok plan =>
      refine Sat.bind ((openBlock_spec _ plan s').post (fun _ _ h => h) ?_)
        fun a => Sat.modify ?_
      · rintro e _ ⟨⟨n, more, htrying, _, rfl⟩, _⟩
        simp only [closingStreams_append, closingStreams_of_trying htrying, append_nil]
      · rintro _ ⟨_, pool, ⟨n, more, htrying, _, rfl⟩, _, hfresh, rfl⟩
        refine ⟨?_, a, rfl, ?_⟩
        · simp only [closingStreams_append, closingStreams_of_trying htrying,
            closingStreams_opened, append_nil]
        · unfold remaining
          rw [hfresh.blockSize, hfresh.bytesWritten]
          exact hfits

theorem writeToCacheStream_fits (c : CacheSide) (hfits : data.length ≤ c.room setup) :
    Sat (· = c) (writeToCacheStream setup env data)
      (fun _ c' => closingStreams c'.events = closingStreams c.events)
      (fun _ c' => closingStreams c'.events = closingStreams c.events) := by
  unfold writeToCacheStream
  by_cases hnil : data = []
  · rw [hnil]
    exact Sat.pure fun _ h => h ▸ rfl
  obtain ⟨fuel, hfuel⟩ := Nat.exists_eq_succ_of_ne_zero (mt eq_nil_of_length_eq_zero hnil)
  rw [hfuel, writeLoop, if_neg hnil]
  refine Sat.bind (ensureBlock_fits hnil c hfits) fun _ => Sat.get fun s hs => ?_
  obtain ⟨hsame, a, hcurrent, hroom⟩ := hs
  rw [hcurrent]
  -- the whole data goes into the open block, so the loop ends after this turn
  have hlast : data.drop (min a.remaining data.length) = [] := by
    rw [drop_eq_nil_iff]
    omega
  refine workOnBlock_traced (f := writeLoop setup env fuel (data.drop (min a.remaining data.length)))
    (CacheSide.Works.refl.step (.fill _ a.pendingChunk hcurrent))
    (fun c => BlockM.emitAlignedChunks_traced (O := fun _ => True) (fun _ => trivial) _
      setup.config.chunkSize_pos) ?_ ?_
  · rw [hlast, writeLoop_nil]
    exact Sat.pure fun _ h => h.1.closing_eq.trans hsame
  · intro e c op c₁ _ hworks hrefuses
    exact hrefuses.closing_eq.trans (hworks.closing_eq.trans hsame)

theorem closeCurrentBlock_empty {commitLocation : Bool} (c : CacheSide)
    (hempty : ∀ a, c.currentBlockWriter = some a → a.bytesWritten = 0)
    {E : Error → CacheSide → Prop} :
    Sat (· = c) (closeCurrentBlock setup env commitLocation)
      (fun _ c' => closingStreams c'.events = closingStreams c.events) E := by
  refine Sat.get fun s hs => ?_
  subst hs
  cases hcurrent : s.currentBlockWriter with
  | none => exact Sat.pure fun _ h => h ▸ rfl
  | some a =>
    refine Sat.set_bind ?_
    simp only [hempty a hcurrent, Nat.lt_irrefl, if_false]
    refine Sat.bind (R := fun _ c => closingStreams c.events = closingStreams s.events)
      (Sat.modify ?_) fun _ => Sat.pure fun _ h => h
    rintro _ rfl
    simp only [closingStreams_append, closingStreams_cancelReplicas, append_nil]

end CacheM

/-! ## Nothing left behind -/

def MasterEvent.removed : MasterEvent → List Int64
  | .removeBlocks blockIds _ => blockIds
  | _ => []

namespace GoosefsFileWriter

variable {setup : WriterSetup} {env : CallEnv} {data : Bytes} {w w' : GoosefsFileWriter}
  {E : Error → GoosefsFileWriter → Prop}

def removalRequests (w : GoosefsFileWriter) : List Int64 := w.master.flatMap MasterEvent.removed

/-- No stream is open, and the master was asked to remove every block whose
streams were closed. -/
structure Clean (w : GoosefsFileWriter) : Prop where
  removed : ∀ s ∈ closingStreams w.cache.events, s.blockId ∈ w.removalRequests
  block : w.cache.currentBlockWriter = none
  ufs : w.ufs.stream = none

instance (w : GoosefsFileWriter) : Decidable w.Clean :=
  decidable_of_iff ((∀ s ∈ closingStreams w.cache.events, s.blockId ∈ w.removalRequests) ∧
      w.cache.currentBlockWriter = none ∧ w.ufs.stream = none)
    ⟨fun h => ⟨h.1, h.2.1, h.2.2⟩, fun h => ⟨h.1, h.2, h.3⟩⟩

/-- The streams that `w` holds are cancelled in `w'`. -/
structure Cancels (w w' : GoosefsFileWriter) : Prop where
  block : ∀ a, w.cache.currentBlockWriter = some a →
    ∀ r ∈ a.replicas, .cancelled r.writer ∈ w'.cache.events
  ufs : ∀ u, w.ufs.stream = some u → .cancelled u ∈ w'.ufs.events

theorem doCancelCleanup_spec (htracked : w.cache.Tracked setup) :
    Sat (· = w) (doCancelCleanup env) (fun _ s => s.Clean ∧ w.Cancels s ∧
      s.cancelled = w.cancelled ∧ s.closed = w.closed) E := by
  let w₁ : GoosefsFileWriter := { w with
    ufs := { w.ufs with
      stream := none, workerAddr := none
      events := w.ufs.events ++ w.ufs.stream.toList.map .cancelled } }
  refine Sat.bind (R := fun _ s => s = w₁) ?_ fun _ => ?_
  · refine Sat.zoom fun s hs => ?_
    rw [hs]
    refine Sat.get fun u hu => ?_
    rw [hu]
    refine Sat.set_bind <| Sat.modify ?_
    rintro _ rfl
    rfl
  let w₂ : GoosefsFileWriter := { w₁ with cache := w.cache.tornDown false }
  refine Sat.bind (R := fun _ s => s = w₂) (Sat.zoom ?_) fun _ => Sat.get fun s hs => ?_
  · rintro _ rfl
    exact (tearDownCacheBlock_spec false w.cache).post
      (fun _ _ h => by rw [h]) fun _ _ h => h
  subst hs
  have hids : w₂.cache.committedBlockIds = w.cache.committedBlockIds :=
    w.cache.tornDown_committedBlockIds false
  -- the requests to the master are all that is still added to `w₂`
  have hdone : ∀ more : List MasterEvent, (∀ id ∈ w.cache.committedBlockIds,
      id ∈ more.flatMap MasterEvent.removed) →
      let s := { w₂ with master := w.master ++ more }
      Clean s ∧ w.Cancels s ∧ s.cancelled = w.cancelled ∧ s.closed = w.closed := by
    intro more hmore
    refine ⟨⟨?_, w.cache.tornDown_current false, rfl⟩, ⟨?_, ?_⟩, rfl, rfl⟩
    · intro s hs
      have hs' : s ∈ closingStreams (w.cache.tornDown false).events := hs
      rw [CacheSide.closingStreams_tornDown] at hs'
      show s.blockId ∈ (w.master ++ more).flatMap MasterEvent.removed
      rw [flatMap_append]
      exact mem_append_right _ (hmore _ (htracked.recorded s hs'))
    · intro a ha r hr
      show CacheEvent.cancelled r.writer ∈ (w.cache.tornDown false).events
      unfold CacheSide.tornDown
      rw [ha]
      exact mem_append_right _ (mem_map.mpr ⟨r, hr, rfl⟩)
    · intro u hu
      show UfsEvent.cancelled u ∈ w.ufs.events ++ w.ufs.stream.toList.map .cancelled
      rw [hu]
      exact mem_append_right _ (mem_singleton_self _)
  by_cases hnil : w.cache.committedBlockIds = []
  · rw [hids, if_neg (not_not_intro hnil)]
    refine Sat.pure ?_
    rintro _ rfl
    have h := hdone [] fun id hid => by rw [hnil] at hid; cases hid
    simp only [append_nil] at h
    exact h
  · rw [hids, if_pos hnil]
    refine Sat.modify_bind ?_
    cases env.master.removeBlocks with
    | none =>
      refine Sat.pure ?_
      rintro _ rfl
      exact hdone _ fun id hid => by simpa [MasterEvent.removed] using hid
    | some e =>
      refine Sat.modify ?_
      rintro _ rfl
      rw [append_assoc]
      exact hdone _ fun id hid => by simpa [MasterEvent.removed] using hid

/-! ## Calls -/

/-- The file of an ended writer is completed or nothing of it is left behind, and
an open writer keeps track of its blocks. -/
def Accounted (setup : WriterSetup) (w : GoosefsFileWriter) : Prop :=
  (w.Ended ∧ (w.Clean ∨ w.FileCompleted)) ∨ (¬w.Ended ∧ w.cache.Tracked setup)

/-- Nothing was closed so far, and the data still fits into the open block. -/
structure NothingToLose (setup : WriterSetup) (data : Bytes) (w : GoosefsFileWriter) : Prop where
  ufs : w.ufs.stream = none
  closed : closingStreams w.cache.events = []
  fits : data.length ≤ w.cache.room setup

/-- A failure of the cache makes the writer go on with its UFS stream. -/
structure Degradable (setup : WriterSetup) (env : CacheEnv) (w : GoosefsFileWriter) : Prop where
  ufsStream : setup.strategy.ufsStream = true
  replicas : setup.config.fileReplicationNumber ≤ 1
  opened : w.cache.blockOpened = true ∨ setup.config.ignoreBlockStreamUnknownStatus = true
  connect : ∀ tick e, env.openReplica tick = some e → e.ofConnect = true

/-- The writes after which a fatal error of the cache, if there can be one, leaves
nothing behind. -/
def CleanWrite (setup : WriterSetup) (env : CallEnv) (data : Bytes) (w : GoosefsFileWriter) :
    Prop :=
  w.shouldCache = false ∨ NothingToLose setup data w ∨ Degradable setup env.cache w ∨
    env.cache.Serves setup ∧ w.cache.Intact

/-- If `CompleteFile` fails, the file is recovered through its UFS stream. -/
structure Recoverable (setup : WriterSetup) (env : MasterEnv) (w : GoosefsFileWriter) : Prop where
  persists : (setup.strategy.ufsStream || setup.strategy.needAsyncPersist) = true
  stream : w.ufs.stream ≠ none
  delete : env.recoverDelete = none
  reload : env.reload = none

theorem Recoverable.recovers (h : Recoverable setup env.master w) {completed : Bool} {u : UfsSide}
    (hclose : UfsM.close env.ufs w.ufs = .ok completed u) {s : GoosefsFileWriter}
    (hs : s.ufsStreamCompleted = (w.ufsStreamCompleted || completed)) :
    Recovers setup env.master s := by
  refine ⟨h.persists, ?_, h.delete, h.reload⟩
  rw [hs, (UfsM.close_stream hclose).1, Option.isSome_iff_ne_none.mpr h.stream, Bool.or_true]

/-- The closes after which a failed `CompleteFile`, if there can be one, leaves
nothing behind. -/
def CleanClose (setup : WriterSetup) (env : CallEnv) (w : GoosefsFileWriter) : Prop :=
  env.master.completeFile = none ∨ Recoverable setup env.master w ∨
    (closingStreams w.cache.events = [] ∧
      ∀ a, w.cache.currentBlockWriter = some a → a.bytesWritten = 0)

/-- What a cache failure finds: nothing is closed, or the writer can go on and has
recorded its blocks. -/
theorem cleanWrite_fails {w : GoosefsFileWriter} {e : Error} {c : CacheSide}
    (htracked : w.cache.Tracked setup) (hguard : CleanWrite setup env data w)
    (hcaching : w.shouldCache = true)
    (hrun : writeToCacheStream setup env.cache data { w.cache with ticks := 0 } = .error e c) :
    (closingStreams c.events = [] ∧ w.ufs.stream = none) ∨
      (c.Tracked setup ∧ cacheWriteFailureIsFatal e setup.strategy c.blockOpened
        setup.config.ignoreBlockStreamUnknownStatus = false) := by
  obtain ⟨op, c₁, hreach, hfails⟩ : ∃ op, CacheSide.Stops setup env.cache
      { w.cache with ticks := 0 } op e c :=
    (writeToCacheStream_traced _ data).error rfl hrun
  rcases hguard with hoff | hnothing | hdegrades | ⟨hserves, hintact⟩
  · rw [hcaching] at hoff
    cases hoff
  · have hfits : data.length ≤ CacheSide.room setup { w.cache with ticks := 0 } := hnothing.fits
    exact .inl ⟨((CacheM.writeToCacheStream_fits _ hfits).error rfl hrun).trans hnothing.closed,
      hnothing.ufs⟩
  · have hc₁ : c₁.Tracked setup := (CacheSide.tracked_invariant setup).reaches hreach
      ⟨htracked.recorded, htracked.streams, htracked.regular⟩
    have hsync : setup.strategy.needAsyncPersist = false :=
      (no_ufsStream_or_sync setup.writeType).resolve_left (Bool.not_eq_false _ ▸ hdegrades.ufsStream)
    obtain ⟨hsoft, hop⟩ := hfails.isSoft hsync hdegrades.replicas hdegrades.connect hc₁.regular
    refine .inr ⟨hc₁.fails hop hfails, ?_⟩
    rw [cacheWriteFailureIsFatal_of_isSoft hsoft, hdegrades.ufsStream, hsync]
    rcases hdegrades.opened with hopened | hignore
    · have hmarked : c.Marked true := (CacheSide.marked_invariant setup true).stops
        ⟨c₁, hreach, hfails⟩ (.of_opened hopened)
      rw [hmarked.1 rfl]
      rfl
    · rw [hignore]
      simp
  · have hstart : CacheSide.Intact { w.cache with ticks := 0 } := hintact
    exact absurd ⟨c₁, hreach, hfails⟩ (hstart.not_stops hserves.toTakes fun _ => hserves)

variable (hopen : ¬w.Ended) (htracked : w.cache.Tracked setup)
include hopen htracked

theorem write_accounts (hguard : CleanWrite setup env data w) :
    Sat (· = w) (write setup env data) (fun _ => Accounted setup) (fun _ => Accounted setup) := by
  have hstart : CacheSide.Tracked setup { w.cache with ticks := 0 } :=
    ⟨htracked.recorded, htracked.streams, htracked.regular⟩
  refine write_spec (fun _ _ => .inr ⟨hopen, hstart⟩) (fun _ _ => .inr ⟨hopen, hstart⟩) ?_ ?_
  · intro _ _ b e s hs
    cases hs with
    | @intro c hcaching hrun hfatal =>
      rcases cleanWrite_fails htracked hguard hcaching hrun with ⟨hclosed, hufs⟩ | ⟨_, hsoft⟩
      · refine .inl ⟨.inl rfl, .inl ⟨fun s hs => ?_, c.tornDown_current _, hufs⟩⟩
        rw [CacheSide.closingStreams_tornDown, hclosed] at hs
        cases hs
      · rw [hfatal] at hsoft
        cases hsoft
  · intro _ _ b s hs
    refine (ufsPart_framed (P := fun s => ¬s.Ended ∧ s.cache.Tracked setup) (fun _ _ h => h)
      fun _ _ _ h => h).mono ?_ (fun _ _ h => .inr h) fun _ _ h => .inr h
    rintro _ rfl
    cases hs with
    | off _ => exact ⟨hopen, hstart⟩
    | stored _ hrun =>
      exact ⟨hopen, (CacheSide.tracked_invariant setup).reaches
        ((writeToCacheStream_traced _ data).ok rfl hrun).1 hstart⟩
    | @degraded e c hcaching hrun _ =>
      refine ⟨hopen, ?_⟩
      rcases cleanWrite_fails htracked hguard hcaching hrun with ⟨hclosed, _⟩ | ⟨hc, _⟩
      · refine CacheSide.tracked_of_none (c.tornDown_current _) fun s hs => ?_
        rw [CacheSide.closingStreams_tornDown, hclosed] at hs
        cases hs
      · exact hc.tornDown _

theorem flush_accounts :
    Sat (· = w) (flush setup env) (fun _ => Accounted setup) (fun _ => Accounted setup) := by
  have hframed : Framed fun w => ¬w.Ended :=
    ⟨fun _ _ h => h, fun _ _ h => h, fun _ _ h => h, fun _ _ h => h⟩
  have hopen' : Sat (· = w) (flush setup env) (fun _ w => ¬w.Ended) (fun _ w => ¬w.Ended) :=
    hframed.flush.fixed hopen
  have htracked' : Sat (· = w) (flush setup env) (fun _ w => w.cache.Tracked setup)
      (fun _ w => w.cache.Tracked setup) :=
    ((CacheSide.tracked_invariant setup).flush env).fixed htracked
  exact (hopen'.and htracked').post (fun _ _ h => .inr h) fun _ _ h => .inr h

theorem close_accounts (hguard : CleanClose setup env w) :
    Sat (· = w) (close setup env) (fun _ => Accounted setup) (fun _ => Accounted setup) := by
  have hstart : CacheSide.Tracked setup { w.cache with ticks := 0 } :=
    ⟨htracked.recorded, htracked.streams, htracked.regular⟩
  have hcleanup : ∀ {s : GoosefsFileWriter}, s.closed = true → s.cache.Tracked setup →
      Sat (· = s) (doCancelCleanup env) (fun _ => Accounted setup) (fun _ => Accounted setup) := by
    intro s hclosed hs
    refine (doCancelCleanup_spec hs).post ?_ fun _ _ h => h
    rintro _ s' ⟨hclean, _, _, hsame⟩
    exact .inl ⟨.inr (hsame.trans hclosed), .inl hclean⟩
  refine close_spec hopen (fun _ _ _ => hcleanup rfl hstart) ?_ ?_
  · intro completed u e c _ hblock
    obtain ⟨op, hop, _, hstops⟩ :=
      (closeCurrentBlock_traced false).error CacheSide.Reaches.refl hblock
    have hne : op ≠ .commitLocation := fun h => by cases hop h
    exact hcleanup rfl (hstart.stops hne hstops)
  · intro completed u last c hclose hblock
    have hstream := (UfsM.close_stream hclose).2
    refine (completeFile_spec _ last).post ?_ ?_
    · rintro _ _ ⟨⟨more, rfl, _⟩, hdone⟩
      exact .inl ⟨.inr rfl, .inr hdone⟩
    · rintro _ _ ⟨⟨more, rfl⟩, hfailed, hlost⟩
      refine .inl ⟨.inr rfl, .inl ?_⟩
      rcases hguard with hnone | hrecovers | ⟨hclosed, hempty⟩
      · exact absurd hnone hfailed
      · exact absurd (hrecovers.recovers hclose rfl) hlost
      · have hnone : c.currentBlockWriter = none :=
          ((closeCurrentBlock_traced false).ok CacheSide.Reaches.refl hblock).2
        refine ⟨fun s hs => ?_, hnone, hstream⟩
        let start : CacheSide := { w.cache with ticks := 0 }
        have hsame : closingStreams c.events = closingStreams start.events :=
          (CacheM.closeCurrentBlock_empty (E := fun _ _ => True) start hempty).ok rfl hblock
        have hs' : s ∈ closingStreams c.events := hs
        rw [hsame, show closingStreams start.events = [] from hclosed] at hs'
        cases hs'

theorem cancel_accounts :
    Sat (· = w) (cancel env) (fun _ s => s.Ended ∧ s.Clean ∧ w.Cancels s) E := by
  refine Sat.modify_bind <| Sat.get fun s hs => ?_
  subst hs
  rw [if_neg fun h => hopen (show w.cancelled = true ∨ w.closed = true from h.symm)]
  let w₁ : GoosefsFileWriter := { w with cancelled := true, cache := { w.cache with ticks := 0 } }
  refine Sat.modify_bind ?_
  have hstart : w₁.cache.Tracked setup :=
    ⟨htracked.recorded, htracked.streams, htracked.regular⟩
  refine (doCancelCleanup_spec hstart).post ?_ fun _ _ h => h
  rintro _ s ⟨hclean, hcancels, hsame, _⟩
  exact ⟨.inl hsame, hclean, ⟨hcancels.block, hcancels.ufs⟩⟩

end GoosefsFileWriter

/-! ## Runs -/

namespace Session

open GoosefsFileWriter

variable {setup : WriterSetup}

/-- What a call must meet so that it leaves nothing behind if it fails. -/
def CleanStep (setup : WriterSetup) (s : Session) : Call → Prop
  | .write env data => s.writer.Ended ∨ s.writer.CleanWrite setup env data
  | .flush _ => True
  | .close env => s.writer.Ended ∨ s.writer.CleanClose setup env
  | .cancel _ => True

theorem next_keeps_accounts {s s' : Session} {call : Call} (hs : s.writer.Accounted setup)
    (hstep : CleanStep setup s call) (hnext : s.next setup call = some s') :
    s'.writer.Accounted setup := by
  rcases hs with ⟨hended, hdone⟩ | ⟨hopen, htracked⟩
  · refine .inl ?_
    rcases (next_ended hended hnext).2 with hw | hw
    · rw [hw]
      exact ⟨hended, hdone.imp (fun h => ⟨h.removed, h.block, h.ufs⟩) id⟩
    · rw [hw]
      exact ⟨.inr rfl, hdone.imp (fun h => ⟨h.removed, h.block, h.ufs⟩) id⟩
  · have hafter : ∀ {m : WriterM Unit} {data : Bytes}, Sat (· = s.writer) m
        (fun _ => Accounted setup) (fun _ => Accounted setup) →
          (s.after m data).writer.Accounted setup :=
      after_of_sat (P := fun _ => Accounted setup)
    cases call with
    | write env data =>
      cases hnext
      exact hafter (write_accounts hopen htracked (hstep.resolve_left hopen))
    | flush env =>
      cases hnext
      exact hafter (flush_accounts hopen htracked)
    | close env =>
      cases hnext
      exact hafter (close_accounts hopen htracked (hstep.resolve_left hopen))
    | cancel env =>
      cases hnext
      exact hafter ((cancel_accounts hopen htracked).post
        (fun _ _ h => .inl ⟨h.1, .inl h.2.1⟩) fun _ _ h => h)

/-- After any calls that meet `CleanStep`, unless the file is completed, a `cancel`
leaves no stream open and no closed block for whose removal the master was not
asked. -/
theorem cancel_leaves_nothing {env₀ env : CallEnv} {w₀ : GoosefsFileWriter} {calls : List Call}
    {s : Session} (hcreate : create setup env₀ = .ok w₀)
    (hrun : Guarded (next setup) (CleanStep setup) ⟨w₀, []⟩ calls s)
    (hincomplete : ¬s.writer.FileCompleted) :
    ∃ w', cancel env s.writer = .ok () w' ∧ w'.Clean ∧ s.writer.Cancels w' := by
  have hstart : w₀.Accounted setup := by
    obtain ⟨b, u, rfl, _⟩ := create_spec hcreate
    exact Or.inr ⟨by simp [GoosefsFileWriter.Ended, fresh],
      CacheSide.tracked_of_none rfl fun s hs => by cases hs⟩
  have hs : s.writer.Accounted setup :=
    hrun.invariant (fun _ _ _ hs hstep hnext => next_keeps_accounts hs hstep hnext) hstart
  have hcancel : Sat (· = s.writer) (cancel env)
      (fun _ w' => w'.Clean ∧ s.writer.Cancels w') (fun _ _ => False) := by
    rcases hs with ⟨hended, hdone⟩ | ⟨hopen, htracked⟩
    · have hclean := hdone.resolve_right hincomplete
      refine (cancel_ended hended).post ?_ fun _ _ h => h
      rintro _ _ rfl
      refine ⟨⟨hclean.removed, hclean.block, hclean.ufs⟩, ⟨fun a ha => ?_, fun u hu => ?_⟩⟩
      · rw [hclean.block] at ha
        cases ha
      · rw [hclean.ufs] at hu
        cases hu
    · exact (cancel_accounts hopen htracked).post
        (fun _ _ h => h.2) fun _ _ h => h
  cases hrun : cancel env s.writer with
  | ok u w' => exact ⟨w', rfl, hcancel.ok rfl hrun⟩
  | error e w' => exact (hcancel.error rfl hrun).elim

/-! A CACHE_THROUGH file with one replica per block, whose worker stops taking data
in the second block. -/

def singleSetup : WriterSetup :=
  ⟨{ smallConfig with fileReplicationNumber := 1 }, some 16777216, none, some 3⟩

theorem takes_goodEnv : goodEnv.cache.Takes where
  takes := by
    intro tick op r
    refine ⟨rfl, ?_⟩
    cases op with
    | write data => rfl
    | flush => exact ⟨none, rfl⟩
  closes := fun _ _ => rfl
  commits := fun _ => rfl

theorem serves_goodEnv : goodEnv.cache.Serves singleSetup where
  plan := ⟨_, rfl⟩
  pool := by
    intro blockId plan tick pool _ hpool
    obtain rfl : goodEnv.cache.allWorkers tick = pool := Except.ok.inj hpool
    refine ⟨cons_ne_nil _ _, fun w hw => ?_, fun h => by cases h⟩
    obtain ⟨id, _, rfl⟩ := mem_map.mp hw
    exact Option.some_ne_none _
  opens := fun _ => rfl
  toTakes := takes_goodEnv

def singleStart : Session :=
  ⟨{ fresh singleSetup with
      routerNeedsInit := false
      ufs := (smallStart 3).ufs }, []⟩

def singleWritten : Session :=
  singleStart.after (write singleSetup goodEnv [1, 2, 3, 4, 5]) [1, 2, 3, 4, 5]

def singleDegraded : Session :=
  singleWritten.after (write singleSetup refusedSend [6, 7]) [6, 7]

theorem cancel_leaves_nothing_degraded :
    singleWritten.writer.cache.currentBlockWriter.isSome = true ∧
    singleDegraded.writer.shouldCache = false ∧ singleDegraded.writer.ufs.stream.isSome = true ∧
    ∃ w', cancel goodEnv singleDegraded.writer = .ok () w' ∧ w'.Clean ∧
      singleDegraded.writer.Cancels w' := by
  have hcreate : create singleSetup goodEnv = .ok singleStart.writer := rfl
  have hdegradable : singleWritten.writer.Degradable singleSetup refusedSend.cache :=
    ⟨rfl, by decide, Or.inl (by decide +kernel), fun _ _ h => by cases h⟩
  have hintact : singleStart.writer.cache.Intact := fun a ha => by cases ha
  have hrun : Guarded (next singleSetup) (CleanStep singleSetup) singleStart
      [.write goodEnv [1, 2, 3, 4, 5], .write refusedSend [6, 7]] singleDegraded :=
    .cons (Or.inr (Or.inr (Or.inr (Or.inr ⟨serves_goodEnv, hintact⟩)))) rfl
      (.cons (Or.inr (Or.inr (Or.inr (Or.inl hdegradable)))) rfl (.nil _))
  have hincomplete : ¬singleDegraded.writer.FileCompleted := by decide +kernel
  exact ⟨by decide +kernel, by decide +kernel, by decide +kernel,
    cancel_leaves_nothing hcreate hrun hincomplete⟩

def refusedComplete : CallEnv :=
  { goodEnv with master := { goodEnv.master with completeFile := some (.transportError "lost") } }

/-- A MUST_CACHE file of two blocks whose second write fails, and one that cannot be
completed: the first block stays, and `cancel` does nothing about it.  A
CACHE_THROUGH file whose first block cannot be opened keeps its UFS stream open. -/
theorem cancel_leaves_blocks : create (smallSetup 1) goodEnv = .ok (fresh (smallSetup 1)) ∧
    create singleSetup goodEnv = .ok singleStart.writer ∧
    (∃ s, Guarded (next (smallSetup 1)) (fun _ _ => True)
      ⟨fresh (smallSetup 1), []⟩
      [.write goodEnv [1, 2, 3, 4, 5], .write refusedSend [6, 7], .cancel goodEnv] s ∧
      s.accepted = [1, 2, 3, 4, 5] ∧ ¬s.writer.FileCompleted ∧ ¬s.writer.Clean) ∧
    (∃ s, Guarded (next (smallSetup 1)) (fun _ _ => True)
      ⟨fresh (smallSetup 1), []⟩
      [.write goodEnv [1, 2, 3, 4, 5], .close refusedComplete, .cancel goodEnv] s ∧
      ¬s.writer.FileCompleted ∧ ¬s.writer.Clean) ∧
    ∃ s, Guarded (next singleSetup) (fun _ _ => True) singleStart
      [.write unreachable [1], .cancel goodEnv] s ∧
      ¬s.writer.FileCompleted ∧ s.writer.ufs.stream.isSome = true := by
  refine ⟨rfl, rfl, ?_, ?_, ?_⟩
  · exact Guarded.exists_of_replay (by decide +kernel)
  · exact Guarded.exists_of_replay (by decide +kernel)
  · exact Guarded.exists_of_replay (by decide +kernel)

/-- Whatever is called once a writer has ended, no byte is accepted any more and
nothing is sent to a worker, to the UFS or to the master. -/
theorem ended_is_final {C : Session → Call → Prop} {calls : List Call} {s s' : Session}
    (hended : s.writer.Ended) (hrun : Guarded (next setup) C s calls s') :
    s'.accepted = s.accepted ∧ ∃ closed ticks,
      s'.writer = { s.writer with closed, cache := { s.writer.cache with ticks } } := by
  induction hrun with
  | nil s => exact ⟨rfl, _, _, rfl⟩
  | cons _ hnext _ ih =>
    obtain ⟨haccepted, hw | hw⟩ := next_ended hended hnext
    · have hrest := ih (by rw [hw]; exact hended)
      rw [haccepted, hw] at hrest
      exact hrest
    · have hrest := ih (by rw [hw]; exact Or.inr rfl)
      rw [haccepted, hw] at hrest
      exact hrest

theorem ended_is_final_cancelled : ∃ s s' : Session, s.writer.cancelled = true ∧
    Guarded (next singleSetup) (fun _ _ => True) s [.write goodEnv [8], .close goodEnv] s' ∧
    s'.writer.closed = true ∧ s'.accepted = s.accepted := by
  have hcancelled : (singleWritten.after (cancel goodEnv) []).writer.cancelled = true := by
    decide +kernel
  obtain ⟨s', hrun, hclosed⟩ : ∃ s', Guarded (next singleSetup) (fun _ _ => True)
      (singleWritten.after (cancel goodEnv) []) [.write goodEnv [8], .close goodEnv] s' ∧
      s'.writer.closed = true := Guarded.exists_of_replay (by decide +kernel)
  exact ⟨_, s', hcancelled, hrun, hclosed, (ended_is_final (Or.inl hcancelled) hrun).1⟩

end Session

end GooseFS
