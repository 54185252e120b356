import GooseFS.Cache.Coherence

/-!
# Opens of readers

`attach_cache` tells the cache manager of a context about every file that is opened
for reading, unless a table of the whole process says that the file was checked
with this length and modification time less than a minute ago.  `Process` is that
table with the managers it stands in front of, and the opens in flight.

The table does not know which manager was told, nor what it was told since.  So a
file that returns to an earlier identity (`returning_identity_skipped`), or is
opened through a second manager, is not reported.
`attach_records_identity` is what holds: if every open that finds its key in the
table has the identity of the last open of its file through its manager, and opens
of one file through one manager overlap only where their identities agree, then
the manager has recorded the identity of each open when it returns.
-/

namespace GooseFS

open Lib List Option CacheState

structure DedupKey where
  fileId : Int
  identity : FileIdentity
  deriving DecidableEq, Repr

/-- `ON_FILE_OPEN_DEDUP_TTL` in nanoseconds. -/
def onFileOpenDedupTtl : Nat := 60 * 10 ^ 9

abbrev OnFileOpenDedupMap := AList fun _ : DedupKey => Nat

namespace OnFileOpenDedupMap

variable (table : OnFileOpenDedupMap) (now : Nat)

def live (last : Nat) : Bool := now - last < onFileOpenDedupTtl

def skips (key : DedupKey) : Bool := (table.lookup key).any (live now)

def retain : OnFileOpenDedupMap :=
  ⟨table.entries.filter fun e => live now e.2, table.nodupKeys.sublist filter_sublist⟩

def record (key : DedupKey) : OnFileOpenDedupMap :=
  (if 4096 < table.entries.length then table.retain now else table).insert key now

end OnFileOpenDedupMap

/-! ## `attach_cache` -/

structure InodeInfo where
  fileId : Option Int
  length : Option Int
  lastModificationTimeMs : Option Int
  deriving DecidableEq, Repr

/-- What `attach_cache` reads of a context; the managers of the process are
numbered. -/
structure ReaderContext where
  cacheManager : Option Nat
  clientCacheAsyncWriteEnabled : Bool
  clientCachePageSize : Nat
  deriving DecidableEq, Repr

structure ReaderCache where
  cache : Option Nat
  cacheFileId : String
  cachePageSize : Nat
  cacheFill : Bool
  cacheAsyncWrite : Bool
  deriving DecidableEq, Repr

def pageCacheEligible (fileId : Int) : Bool := 0 < fileId

inductive AttachPc where
  | check
  -- waits for the manager's task
  | opening (task : Nat)
  | insert
  | done
  deriving DecidableEq, Repr

structure Attach where
  ctx : ReaderContext
  info : InodeInfo
  usePageCache : Bool
  pc : AttachPc
  deriving DecidableEq, Repr

namespace Attach

variable (a : Attach)

def fileId : Int := a.info.fileId.getD 0

def cacheFileId : String := toString a.fileId

def identity : FileIdentity := ⟨a.info.length.getD 0, a.info.lastModificationTimeMs.getD 0⟩

def dedupKey : DedupKey := ⟨a.fileId, a.identity⟩

def manager : Option Nat :=
  if a.usePageCache ∧ pageCacheEligible a.fileId then a.ctx.cacheManager else none

/-- The reader as `build` made it, or with the cache of the context. -/
def reader (built : ReaderCache) : ReaderCache :=
  if a.usePageCache ∧ pageCacheEligible a.fileId then
    { cache := a.ctx.cacheManager
      cacheFileId := a.cacheFileId
      cachePageSize := a.ctx.clientCachePageSize
      cacheFill := a.ctx.cacheManager.isSome
      cacheAsyncWrite := a.ctx.clientCacheAsyncWriteEnabled }
  else { built with cache := none, cacheFill := false }

def goto (pc : AttachPc) : Attach := { a with pc := pc }

/-- The open is for `f` through manager `m`, and has not returned. -/
def InFlight (m : Nat) (f : String) : Prop :=
  a.pc ≠ .done ∧ a.manager = some m ∧ a.cacheFileId = f

instance (m : Nat) (f : String) : Decidable (a.InFlight m f) :=
  inferInstanceAs (Decidable (_ ∧ _ ∧ _))

/-- Without a manager there is nothing to tell. -/
def start (ctx : ReaderContext) (info : InodeInfo) (usePageCache : Bool) : Attach :=
  let a : Attach := ⟨ctx, info, usePageCache, .check⟩
  if a.manager = none then a.goto .done else a

end Attach

/-- `lastOpened m f` is the identity of the last open of `f` through manager `m`
that returned.  It is bookkeeping for specifications: no step looks at it. -/
structure Process where
  managers : Nat → CacheState
  table : OnFileOpenDedupMap
  now : Nat
  attaches : List Attach
  lastOpened : Nat → String → Option FileIdentity

inductive ProcessAct where
  | attach (ctx : ReaderContext) (info : InodeInfo) (usePageCache : Bool)
  | run (i : Nat)
  | manager (m : Nat) (a : Act)
  | advance (dt : Nat)
  deriving DecidableEq, Repr

/-- Managers learn of opens from `attach_cache` only.  A manager that is created
again over the same directories is another manager. -/
def Act.internal : Act → Bool
  | .onFileOpen _ _ => false
  | .restart => false
  | _ => true

namespace Process

variable (o : Nat → CacheManagerOptions)

def setManager (s : Process) (m : Nat) (c : CacheState) : Process :=
  { s with managers := fun m' => if m' = m then c else s.managers m' }

def setAttach (s : Process) (i : Nat) (a : Attach) : Process :=
  { s with attaches := s.attaches.set i a }

def returns (s : Process) (i m : Nat) (a : Attach) : Process :=
  { s.setAttach i (a.goto .done) with
    lastOpened := fun m' f => if m' = m ∧ f = a.cacheFileId then some a.identity
      else s.lastOpened m' f }

def attachStep (s : Process) (i m : Nat) (a : Attach) : Option Process :=
  match a.pc with
  | .check =>
    if s.table.skips s.now a.dedupKey then some (s.returns i m a)
    else
      (step (o m) (s.managers m) (.onFileOpen a.cacheFileId a.identity)).map fun c =>
        (s.setManager m c).setAttach i (a.goto (.opening (s.managers m).tasks.length))
  | .opening j =>
    if (s.managers m).tasks[j]? = some (.onFileOpen a.cacheFileId a.identity .done) then
      some (s.setAttach i (a.goto .insert))
    else none
  | .insert => some ({ s with table := s.table.record s.now a.dedupKey }.returns i m a)
  | .done => none

def step (s : Process) : ProcessAct → Option Process
  | .attach ctx info usePageCache =>
    some { s with attaches := s.attaches ++ [.start ctx info usePageCache] }
  | .run i =>
    match s.attaches[i]? with
    | none => none
    | some a => a.manager.bind fun m => s.attachStep o i m a
  | .manager m a =>
    if a.internal then (CacheState.step (o m) (s.managers m) a).map (s.setManager m) else none
  | .advance dt => some { s with now := s.now + dt }

def fresh (managers : Nat → LocalCacheManager) : Process :=
  ⟨fun m => ⟨managers m, []⟩, ∅, 0, [], fun _ _ => none⟩

/-! ## Opens of one manager -/

section Manager

variable {o : CacheManagerOptions} {c c' : CacheState} {a : Act} {f : String} {id : FileIdentity}

theorem versions_of_step (ha : a.internal = true) (hs : CacheState.step o c a = some c') :
    c'.mgr.versions f = c.mgr.versions f ∨ ∃ (i : Nat) (id : FileIdentity) (pc : OpenPc),
      c.tasks[i]? = some (.onFileOpen f id pc) ∧ pc ≠ .done ∧ c'.mgr.versions f = some id := by
  cases step_inv hs with
  | call _ hm _ _ => exact .inl (congrFun hm.versions f)
  | @run i ok order t hi hlive hen =>
    obtain ⟨hv, -⟩ | ⟨id, pc, rfl, -, hv, -⟩ := (Task.next_effect _ _ _ _ t).tables_at f
    · exact .inl hv
    · exact .inr ⟨i, id, pc, hi, of_decide_eq_false hlive, hv⟩
  | restart => cases ha
  | _ => exact .inl rfl

theorem versions_of_returns {ok : Bool} {order : List Nat} {m : LocalCacheManager} {pc : OpenPc}
    (h : (onFileOpenStep o ok f id order m pc).2 = .done) :
    pc = .done ∨ (onFileOpenStep o ok f id order m pc).1.versions f = some id := by
  cases pc with
  | check =>
    simp only [onFileOpenStep] at h ⊢
    split at h
    · next id' hid =>
      split at h
      · next heq => exact .inr (by simp only [if_pos heq]; exact heq ▸ hid)
      · cases h
    · cases h
  | record =>
    simp only [onFileOpenStep] at h ⊢
    split at h
    · next id' hid =>
      split at h
      · next heq => exact .inr (by simp only [if_pos heq]; exact heq ▸ hid)
      · cases h
    · exact .inr (if_pos rfl)
  | invalidate pc =>
    simp only [onFileOpenStep] at h
    split at h <;> cases h
  | setVersion => exact .inr (if_pos rfl)
  | done => exact .inl rfl

/-- An open of a manager was in flight before, or has returned before, and records
its identity when it returns. -/
theorem open_of_step (ha : a.internal = true) (hs : CacheState.step o c a = some c')
    {j : Nat} {pc' : OpenPc} (h : c'.tasks[j]? = some (.onFileOpen f id pc')) :
    ∃ pc, c.tasks[j]? = some (.onFileOpen f id pc) ∧ (pc = .done → pc' = .done) ∧
      (pc' = .done → pc = .done ∨ c'.mgr.versions f = some id) := by
  have hstays : c.tasks[j]? = some (.onFileOpen f id pc') → ∃ pc,
      c.tasks[j]? = some (.onFileOpen f id pc) ∧ (pc = .done → pc' = .done) ∧
      (pc' = .done → pc = .done ∨ c'.mgr.versions f = some id) :=
    fun hold => ⟨pc', hold, fun hdone => hdone, .inl⟩
  have hcalled : ∀ t, c'.tasks = c.tasks ++ [t] → (∀ pc, t ≠ .onFileOpen f id pc) →
      c.tasks[j]? = some (.onFileOpen f id pc') := by
    intro t htasks hne
    rw [htasks, getElem?_append] at h
    split at h
    · exact h
    · exact absurd (mem_singleton.1 (mem_of_getElem? h)).symm (hne pc')
  cases step_inv hs with
  | @call _ t _ ht _ _ _ =>
    refine hstays (hcalled t rfl fun pc hpc => ?_)
    subst hpc
    cases a with
    | onFileOpen g id' => cases ha
    | getBytes p offset len =>
      simp only [call] at ht
      split at ht <;> cases ht
    | _ => cases ht
  | @run i ok order t hi hlive hen =>
    simp only [advance, getElem?_set] at h
    split at h
    · next hij =>
      subst hij
      split at h
      · obtain ⟨pc, rfl, hpc⟩ := Task.next_open (some.inj h)
        refine ⟨pc, hi, ?_, ?_⟩
        · rintro rfl
          exact hpc.symm
        · rintro rfl
          exact versions_of_returns hpc
      · cases h
    · exact hstays h
  | reap _ => exact hstays (hcalled _ rfl fun _ => Task.noConfusion)
  | restart => cases ha
  | _ => exact hstays h

end Manager

variable {o : Nat → CacheManagerOptions} {s s' : Process} {f : String} {id : FileIdentity}
  {m i : Nat} {a : Attach} {pc : AttachPc}

structure Recorded (s : Process) : Prop where
  same : ∀ a ∈ s.attaches, ∀ b ∈ s.attaches, ∀ m f, a.InFlight m f → b.InFlight m f →
    a.identity = b.identity
  owned : ∀ (m j : Nat) (f : String) (id : FileIdentity) (pc : OpenPc),
    (s.managers m).tasks[j]? = some (.onFileOpen f id pc) → pc ≠ .done →
    ∃ a ∈ s.attaches, a.pc = .opening j ∧ a.InFlight m f ∧ a.identity = id
  told : ∀ a ∈ s.attaches, ∀ m f, a.InFlight m f → a.pc = .insert ∨ (∃ j, a.pc = .opening j ∧
      (s.managers m).tasks[j]? = some (.onFileOpen f a.identity .done)) →
    (s.managers m).mgr.versions f = some a.identity
  last : ∀ m f id, s.lastOpened m f = some id → (s.managers m).mgr.versions f = some id ∨
    ∃ a ∈ s.attaches, a.InFlight m f ∧ a.identity ≠ id

theorem recorded_fresh (managers : Nat → LocalCacheManager) : Recorded (fresh managers) where
  same := by intro a ha; cases ha
  owned := by intro m j f id pc h; cases h
  told := by intro a ha; cases ha
  last := by intro m f id h; cases h

theorem inFlight_of_mem_set (hi : s.attaches[i]? = some a) (hlive : a.pc ≠ .done) {b : Attach}
    (hb : b ∈ s.attaches.set i (a.goto pc)) (hfl : b.InFlight m f) :
    ∃ b' ∈ s.attaches, b'.InFlight m f ∧ b'.identity = b.identity := by
  obtain rfl | ⟨j, -, hj⟩ := eq_or_other_of_mem_set hb
  · exact ⟨a, mem_of_getElem? hi, ⟨hlive, hfl.2⟩, rfl⟩
  · exact ⟨b, mem_of_getElem? hj, hfl, rfl⟩

theorem Recorded.same_set (h : Recorded s) (hi : s.attaches[i]? = some a) (hlive : a.pc ≠ .done)
    (pc : AttachPc) : ∀ b ∈ s.attaches.set i (a.goto pc), ∀ b' ∈ s.attaches.set i (a.goto pc),
      ∀ m f, b.InFlight m f → b'.InFlight m f → b.identity = b'.identity := by
  intro b hb b' hb' m f hfl hfl'
  obtain ⟨c, hc, hcfl, hcid⟩ := inFlight_of_mem_set hi hlive hb hfl
  obtain ⟨c', hc', hcfl', hcid'⟩ := inFlight_of_mem_set hi hlive hb' hfl'
  rw [← hcid, ← hcid']
  exact h.same c hc c' hc' m f hcfl hcfl'

theorem other_set (hi : s.attaches[i]? = some a) (hpc : pc ≠ .done)
    (h : ∃ b ∈ s.attaches, b.InFlight m f ∧ b.identity ≠ id) :
    ∃ b ∈ s.attaches.set i (a.goto pc), b.InFlight m f ∧ b.identity ≠ id :=
  exists_mem_set hi h (fun hb => ⟨⟨hpc, hb.1.2⟩, hb.2⟩) fun _ hb => hb

/-! ## Steps -/

section

variable (h : Recorded s) (hi : s.attaches[i]? = some a) (hfl : a.InFlight m a.cacheFileId)
include h hi hfl

theorem Recorded.returns (hpc : ∀ j, a.pc ≠ .opening j)
    (hv : (s.managers m).mgr.versions a.cacheFileId = some a.identity) (table : OnFileOpenDedupMap) :
    Recorded ({ s with table := table }.returns i m a) where
  same := h.same_set hi hfl.1 .done
  owned := by
    intro m' j f id pc hj hlive
    refine exists_mem_set hi (h.owned m' j f id pc hj hlive) (fun hb => ?_) fun _ hb => hb
    exact absurd hb.1 (hpc j)
  told := by
    intro b hb m' f hbfl hbpc
    obtain rfl | ⟨j, -, hj⟩ := eq_or_other_of_mem_set hb
    · exact absurd rfl hbfl.1
    · exact h.told b (mem_of_getElem? hj) m' f hbfl hbpc
  last := by
    intro m' f id hid
    simp only [Process.returns] at hid
    split at hid
    · next heq =>
      obtain ⟨rfl, rfl⟩ := heq
      cases hid
      exact .inl hv
    · next hne =>
      refine (h.last m' f id hid).imp_right fun hother => ?_
      refine exists_mem_set hi hother (fun hb => ?_) fun _ hb => hb
      have hm : m' = m := some.inj (hb.1.2.1.symm.trans hfl.2.1)
      exact absurd ⟨hm, hb.1.2.2.symm⟩ hne

theorem Recorded.skip_version (hlast : s.lastOpened m a.cacheFileId = some a.identity) :
    (s.managers m).mgr.versions a.cacheFileId = some a.identity := by
  obtain hv | ⟨b, hb, hbfl, hne⟩ := h.last m _ _ hlast
  · exact hv
  · exact absurd (h.same b hb a (mem_of_getElem? hi) m _ hbfl hfl) hne

theorem Recorded.opens (hpc : a.pc = .check) {c : CacheState}
    (hc : CacheState.step (o m) (s.managers m) (.onFileOpen a.cacheFileId a.identity) = some c) :
    Recorded ((s.setManager m c).setAttach i
      (a.goto (.opening (s.managers m).tasks.length))) := by
  have htasks : c.tasks = (s.managers m).tasks ++ [.onFileOpen a.cacheFileId a.identity .check] := by
    cases hc
    rfl
  have hversions : c.mgr.versions = (s.managers m).mgr.versions := by
    cases hc
    by_cases hw : (s.managers m).mgr.window a.cacheFileId = some a.identity
    · simp only [if_pos hw]
    · simp only [if_neg hw]
      rfl
  -- the open tasks of all managers are those of before and the new one
  have hold : ∀ (m' j : Nat) (f : String) (id : FileIdentity) (pc : OpenPc),
      ((s.setManager m c).managers m').tasks[j]? = some (.onFileOpen f id pc) →
      (s.managers m').tasks[j]? = some (.onFileOpen f id pc) ∨
        m' = m ∧ j = (s.managers m).tasks.length ∧ f = a.cacheFileId ∧ id = a.identity ∧
          pc = .check := by
    intro m' j f id pc hj
    simp only [setManager] at hj
    split at hj
    · next hm =>
      subst hm
      rw [htasks, getElem?_append] at hj
      split at hj
      · exact .inl hj
      · next hlen =>
        have hj' : j - (s.managers m').tasks.length = 0 := by
          have := (List.getElem?_eq_some_iff.1 hj).1
          simp only [length_singleton] at this
          omega
        rw [hj'] at hj
        cases hj
        exact .inr ⟨rfl, by omega, rfl, rfl, rfl⟩
    · exact .inl hj
  have hsame : ∀ m', ((s.setManager m c).managers m').mgr.versions =
      (s.managers m').mgr.versions := by
    intro m'
    simp only [setManager]
    split
    · next hm => rw [hm, hversions]
    · rfl
  refine ⟨h.same_set hi hfl.1 _, ?_, ?_, ?_⟩
  · intro m' j f id pc hj hlive
    obtain hj | ⟨rfl, rfl, rfl, rfl, -⟩ := hold m' j f id pc hj
    · refine exists_mem_set hi (h.owned m' j f id pc hj hlive) (fun hb => ?_) fun _ hb => hb
      cases hpc.symm.trans hb.1
    · exact ⟨_, mem_set_self hi, rfl, ⟨AttachPc.noConfusion, hfl.2⟩, rfl⟩
  · intro b hb m' f hbfl hbpc
    show ((s.setManager m c).managers m').mgr.versions f = _
    rw [hsame]
    obtain rfl | ⟨k, -, hk⟩ := eq_or_other_of_mem_set hb
    · -- its task has only started
      obtain hbpc | ⟨j, hbpc, hj⟩ := hbpc
      · cases hbpc
      · cases hbpc
        have hm : m = m' := some.inj (hfl.2.1.symm.trans hbfl.2.1)
        obtain hj | ⟨-, -, -, -, hdone⟩ := hold m' _ f _ _ hj
        · rw [hm, getElem?_eq_none (Nat.le_refl _)] at hj
          cases hj
        · cases hdone
    · refine h.told b (mem_of_getElem? hk) m' f hbfl (hbpc.imp_right ?_)
      rintro ⟨j, hbpc, hj⟩
      obtain hj | ⟨-, -, -, -, hdone⟩ := hold m' j f _ _ hj
      · exact ⟨j, hbpc, hj⟩
      · cases hdone
  · intro m' f id hid
    show ((s.setManager m c).managers m').mgr.versions f = some id ∨ _
    rw [hsame]
    exact (h.last m' f id hid).imp_right fun hother =>
      other_set hi AttachPc.noConfusion hother

theorem Recorded.opened {j : Nat} (hpc : a.pc = .opening j)
    (hj : (s.managers m).tasks[j]? = some (.onFileOpen a.cacheFileId a.identity .done)) :
    Recorded (s.setAttach i (a.goto .insert)) where
  same := h.same_set hi hfl.1 .insert
  owned := by
    intro m' k f id pc hk hlive
    refine exists_mem_set hi (h.owned m' k f id pc hk hlive) (fun hb => ?_) fun _ hb => hb
    cases hpc.symm.trans hb.1
    cases hfl.2.1.symm.trans hb.2.1.2.1
    cases hj.symm.trans hk
    exact absurd rfl hlive
  told := by
    intro b hb m' f hbfl hbpc
    obtain rfl | ⟨k, -, hk⟩ := eq_or_other_of_mem_set hb
    · cases hfl.2.1.symm.trans hbfl.2.1
      obtain rfl := hbfl.2.2
      exact h.told a (mem_of_getElem? hi) m _ hfl (.inr ⟨j, hpc, hj⟩)
    · exact h.told b (mem_of_getElem? hk) m' f hbfl hbpc
  last := by
    intro m' f id hid
    exact (h.last m' f id hid).imp_right fun hother => other_set hi AttachPc.noConfusion hother

end

/-- A manager works on.  A version changes only to the identity of an open in
flight, and that is the identity of every open in flight. -/
theorem Recorded.manager (h : Recorded s) {b : Act} (hb : b.internal = true) {c : CacheState}
    (hc : CacheState.step (o m) (s.managers m) b = some c) : Recorded (s.setManager m c) := by
  have hversions : ∀ f, c.mgr.versions f = (s.managers m).mgr.versions f ∨
      ∃ a ∈ s.attaches, a.InFlight m f ∧ c.mgr.versions f = some a.identity := by
    intro f
    refine (versions_of_step hb hc).imp_right ?_
    rintro ⟨k, id, pc, hk, hlive, hv⟩
    obtain ⟨a, ha, -, hfl, hid⟩ := h.owned m k f id pc hk hlive
    exact ⟨a, ha, hfl, hid.symm ▸ hv⟩
  refine ⟨h.same, ?_, ?_, ?_⟩
  · intro m' j f id pc' hj hlive
    simp only [setManager] at hj
    split at hj
    · next hm =>
      subst hm
      obtain ⟨pc, hpc, hdone, -⟩ := open_of_step hb hc hj
      exact h.owned m' j f id pc hpc fun hd => hlive (hdone hd)
    · exact h.owned m' j f id pc' hj hlive
  · intro a ha m' f hfl hpc
    simp only [setManager] at hpc ⊢
    split at hpc
    · next hm =>
      subst hm
      rw [if_pos rfl]
      -- what was recorded before is still there
      have hkept : (s.managers m').mgr.versions f = some a.identity →
          c.mgr.versions f = some a.identity := by
        intro hv
        obtain heq | ⟨a', ha', hfl', hv'⟩ := hversions f
        · rw [heq, hv]
        · rw [hv', h.same a' ha' a ha m' f hfl' hfl]
      obtain hpc | ⟨j, hpc, hj⟩ := hpc
      · exact hkept (h.told a ha m' f hfl (.inl hpc))
      · obtain ⟨pc, hold, -, hreturned⟩ := open_of_step hb hc hj
        obtain rfl | hv := hreturned rfl
        · exact hkept (h.told a ha m' f hfl (.inr ⟨j, hpc, hold⟩))
        · exact hv
    · next hm =>
      rw [if_neg hm]
      exact h.told a ha m' f hfl hpc
  · intro m' f id hid
    show (if m' = m then c else s.managers m').mgr.versions f = some id ∨ _
    by_cases hm : m' = m
    · subst hm
      rw [if_pos rfl]
      obtain heq | ⟨a, ha, hfl, hv⟩ := hversions f
      · rw [heq]
        exact h.last m' f id hid
      · by_cases hida : a.identity = id
        · exact .inl (hida ▸ hv)
        · exact .inr ⟨a, ha, hfl, hida⟩
    · rw [if_neg hm]
      exact h.last m' f id hid

/-! ## Runs -/

/-- Opens of one file through one manager overlap only where their identities
agree. -/
def OpensAgree (s : Process) : ProcessAct → Prop
  | .attach ctx info usePageCache => ∀ m ∈ (Attach.start ctx info usePageCache).manager,
    ∀ b ∈ s.attaches, b.InFlight m (Attach.start ctx info usePageCache).cacheFileId →
      b.identity = (Attach.start ctx info usePageCache).identity
  | _ => True

instance (act : ProcessAct) : Decidable (s.OpensAgree act) := by
  cases act <;> unfold OpensAgree <;> infer_instance

/-- An open that finds its key in the table has the identity of the last open of
its file through its manager. -/
def SkipsRepeat (s : Process) : ProcessAct → Prop
  | .run i => ∀ a ∈ s.attaches[i]?, a.pc = .check → s.table.skips s.now a.dedupKey = true →
    ∀ m ∈ a.manager, s.lastOpened m a.cacheFileId = some a.identity
  | _ => True

instance (act : ProcessAct) : Decidable (s.SkipsRepeat act) := by
  cases act <;> unfold SkipsRepeat <;> infer_instance

def TellsManager (s : Process) (act : ProcessAct) : Prop := s.OpensAgree act ∧ s.SkipsRepeat act

instance (act : ProcessAct) : Decidable (s.TellsManager act) :=
  inferInstanceAs (Decidable (_ ∧ _))

theorem Recorded.attach (h : Recorded s) (hnew : ∀ b ∈ s.attaches, ∀ m f, a.InFlight m f →
    b.InFlight m f → b.identity = a.identity)
    (hpc : a.pc = .check ∨ a.pc = .done) :
    Recorded { s with attaches := s.attaches ++ [a] } where
  same := by
    intro b hb b' hb' m f hfl hfl'
    obtain hb | hb := mem_append.1 hb
    · obtain hb' | hb' := mem_append.1 hb'
      · exact h.same b hb b' hb' m f hfl hfl'
      · cases mem_singleton.1 hb'
        exact hnew b hb m f hfl' hfl
    · cases mem_singleton.1 hb
      obtain hb' | hb' := mem_append.1 hb'
      · exact (hnew b' hb' m f hfl hfl').symm
      · cases mem_singleton.1 hb'
        rfl
  owned := by
    intro m j f id pc hj hlive
    obtain ⟨b, hb, hrest⟩ := h.owned m j f id pc hj hlive
    exact ⟨b, mem_append_left _ hb, hrest⟩
  told := by
    intro b hb m f hfl hbpc
    obtain hb | hb := mem_append.1 hb
    · exact h.told b hb m f hfl hbpc
    · cases mem_singleton.1 hb
      obtain hpc | hpc := hpc <;> rw [hpc] at hbpc
      · obtain hbpc | ⟨j, hbpc, -⟩ := hbpc <;> cases hbpc
      · obtain hbpc | ⟨j, hbpc, -⟩ := hbpc <;> cases hbpc
  last := by
    intro m f id hid
    refine (h.last m f id hid).imp_right ?_
    rintro ⟨b, hb, hrest⟩
    exact ⟨b, mem_append_left _ hb, hrest⟩

theorem Recorded.run (h : Recorded s) (hskips : s.SkipsRepeat (.run i))
    (hs : Process.step o s (.run i) = some s') : Recorded s' ∧
    ∀ a m, s'.attaches[i]? = some a → a.pc = .done → a.manager = some m →
      (s'.managers m).mgr.versions a.cacheFileId = some a.identity := by
  simp only [step] at hs
  split at hs
  · cases hs
  next a hi =>
  obtain ⟨m, hm, hs⟩ := bind_eq_some_iff.1 hs
  have hself : ∀ a', (s.attaches.set i a')[i]? = some a' := by
    intro a'
    rw [getElem?_set_self (List.getElem?_eq_some_iff.1 hi).1]
  -- what the state after a return shows of the open
  have hreturned : (s.managers m).mgr.versions a.cacheFileId = some a.identity →
      ∀ b m', (s.attaches.set i (a.goto .done))[i]? = some b → b.pc = .done →
        b.manager = some m' → (s.managers m').mgr.versions b.cacheFileId = some b.identity := by
    intro hv b m' hb _ hbm
    rw [hself] at hb
    cases hb
    cases hm.symm.trans hbm
    exact hv
  have hmoves : ∀ pc, pc ≠ .done → ∀ c : Nat → CacheState, ∀ b m',
      (s.attaches.set i (a.goto pc))[i]? = some b → b.pc = .done → b.manager = some m' →
      (c m').mgr.versions b.cacheFileId = some b.identity := by
    intro pc hpc c b m' hb hdone _
    rw [hself] at hb
    cases hb
    exact absurd hdone hpc
  unfold attachStep at hs
  split at hs
  · next hpc =>
    have hfl : a.InFlight m a.cacheFileId := ⟨hpc ▸ AttachPc.noConfusion, hm, rfl⟩
    split at hs
    · next hskip =>
      cases hs
      have hv := h.skip_version hi hfl (hskips a hi hpc hskip m hm)
      refine ⟨h.returns hi hfl (fun j hj => ?_) hv s.table, hreturned hv⟩
      cases hpc.symm.trans hj
    · obtain ⟨c, hc, rfl⟩ := map_eq_some_iff.1 hs
      exact ⟨h.opens hi hfl hpc hc, hmoves _ AttachPc.noConfusion _⟩
  · next j hpc =>
    have hfl : a.InFlight m a.cacheFileId := ⟨hpc ▸ AttachPc.noConfusion, hm, rfl⟩
    split at hs
    · next hj =>
      cases hs
      exact ⟨h.opened hi hfl hpc hj, hmoves _ AttachPc.noConfusion _⟩
    · cases hs
  · next hpc =>
    have hfl : a.InFlight m a.cacheFileId := ⟨hpc ▸ AttachPc.noConfusion, hm, rfl⟩
    cases hs
    have hv := h.told a (mem_of_getElem? hi) m _ hfl (.inl hpc)
    refine ⟨h.returns hi hfl (fun j hj => ?_) hv _, hreturned hv⟩
    cases hpc.symm.trans hj
  · cases hs

theorem Recorded.step (h : Recorded s) {act : ProcessAct} (hc : s.TellsManager act)
    (hs : Process.step o s act = some s') : Recorded s' := by
  cases act with
  | attach ctx info usePageCache =>
    cases hs
    refine h.attach ?_ ?_
    · intro b hb m f hfl hbfl
      obtain rfl := hfl.2.2
      exact hc.1 m hfl.2.1 b hb hbfl
    · simp only [Attach.start]
      split
      · exact .inr rfl
      · exact .inl rfl
  | run i => exact (h.run hc.2 hs).1
  | manager m b =>
    simp only [Process.step] at hs
    split at hs
    · next hb =>
      obtain ⟨c, hc, rfl⟩ := map_eq_some_iff.1 hs
      exact h.manager hb hc
    · cases hs
  | advance dt =>
    cases hs
    exact ⟨h.same, h.owned, h.told, h.last⟩

/-- When an open through `attach_cache` returns, its manager has recorded the
identity that was opened. -/
theorem attach_records_identity (o : Nat → CacheManagerOptions)
    (managers : Nat → LocalCacheManager) {acts : List ProcessAct} {i : Nat}
    (hrun : Guarded (step o) TellsManager (fresh managers) (acts ++ [.run i]) s)
    (hi : s.attaches[i]? = some a) (hdone : a.pc = .done) (hm : a.manager = some m) :
    (s.managers m).mgr.versions a.cacheFileId = some a.identity := by
  obtain ⟨s₁, hrun₁, hc, hs⟩ := hrun.last_step
  have h : Recorded s₁ :=
    hrun₁.invariant (fun _ _ _ h hc hs => h.step hc hs) (recorded_fresh managers)
  exact (h.run hc.2 hs).2 a m hi hdone hm

def smallContext (m : Nat) : ReaderContext := ⟨some m, false, 4⟩

def inode (mtime : Int) : InodeInfo := ⟨some 7, some 1, some mtime⟩

/-- Open number `i` is made through manager `m` and told to it, where its task has
number `j` and takes `n` steps. -/
def opensFully (m i j n : Nat) (mtime : Int) : List ProcessAct :=
  [.attach (smallContext m) (inode mtime) true, .run i] ++
    replicate n (.manager m (.run j true [])) ++ [.run i]

theorem attach_records_identity_changed : ∃ s a, Guarded (step fun _ => tinyOptions) TellsManager
      (fresh fun _ => (CacheState.fresh CacheState.tinyOptions).mgr)
      (opensFully 0 0 0 2 1 ++ [.run 0] ++ opensFully 0 1 1 3 2 ++ [.run 1]) s ∧
    s.attaches[1]? = some a ∧ a.identity = ⟨1, 2⟩ ∧
    (s.managers 0).mgr.versions "7" = some ⟨1, 2⟩ := by
  obtain ⟨s, hrun, hi⟩ : ∃ s, Guarded (step fun _ => tinyOptions) TellsManager
      (fresh fun _ => (CacheState.fresh CacheState.tinyOptions).mgr)
      (opensFully 0 0 0 2 1 ++ [.run 0] ++ opensFully 0 1 1 3 2 ++ [.run 1]) s ∧
      s.attaches[1]? = some ⟨smallContext 0, inode 2, true, .done⟩ :=
    Guarded.exists_of_replay (by decide +kernel)
  exact ⟨s, _, hrun, hi, rfl, attach_records_identity _ _ hrun hi rfl rfl⟩

/-- The file changes and changes back.  The third open finds the key of the first
one, so its manager keeps the identity of the second. -/
theorem returning_identity_skipped : ∃ s, Guarded (step fun _ => tinyOptions) (fun _ _ => True)
      (fresh fun _ => (CacheState.fresh CacheState.tinyOptions).mgr)
      (opensFully 0 0 0 2 1 ++ [.run 0] ++ opensFully 0 1 1 3 2 ++ [.run 1] ++
        [.attach (smallContext 0) (inode 1) true, .run 2]) s ∧
    s.attaches[2]? = some ⟨smallContext 0, inode 1, true, .done⟩ ∧
    (s.managers 0).mgr.versions "7" = some ⟨1, 2⟩ :=
  Guarded.exists_of_replay (by decide +kernel)

end Process

end GooseFS
