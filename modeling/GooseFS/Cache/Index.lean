import Mathlib.Data.List.Dedup
import GooseFS.Cache.Residency

/-!
# The index of resident pages

`invalidate` finds the pages of a file in the index, so a resident page that is
not listed there outlives every invalidation.  A put lists its page after it has
admitted it, and a removal unlists it after the entry is gone, both under the page
lock.  The reaper unlists an evicted page outside the lock, and without a look at
the cache: a page that was admitted again before the reaper gets to it loses its
listing for good (`reaper_unlists_readmitted_page`).

`Indexed` is what holds as long as the reaper unlists only pages that are not
resident (`ReapsGone`): a resident page is listed, or the put that has admitted it
is about to list it.
-/

namespace GooseFS

open Lib LocalCacheManager

def LocalCacheManager.pending (m : LocalCacheManager) : List ReapTask := m.leaving ++ m.reapQueue

namespace Task

variable {o : CacheManagerOptions} {ok : Bool} {order : List Nat} {m : LocalCacheManager}
  {p : PageId} {t : Task}

def admitting : Task → Option PageId
  | .put p _ _ .recheck => some p
  | .put p _ _ .readIndex => some p
  | .put p _ _ .readVersion => some p
  | .put p _ _ (.index _) => some p
  | _ => none

def putting : Task → Option PageId
  | .put _ _ _ (.done _) => none
  | .put p _ _ _ => some p
  | _ => none

def unlists : Task → Option ReapTask
  | .reap task .index => some task
  | _ => none

theorem unlists_eq {task : ReapTask} (h : t.unlists = some task) : t = .reap task .index := by
  unfold unlists at h
  split at h <;> cases h
  rfl

theorem putting_of_admitting (h : t.admitting = some p) : t.putting = some p := by
  unfold admitting at h
  split at h <;> first | exact h | cases h

theorem next_putting (h : (t.next o ok order m).2.putting = some p) : t.putting = some p := by
  cases t with
  | put q fill permit pc =>
    have hq : q = p := by
      revert h
      simp only [next, putting]
      split <;> intro h <;> cases h
      · next heq => cases heq; rfl
    cases pc with
    | done result => cases h
    | _ => exact congrArg some hq
  | _ => cases h

theorem Effect.pending {m' : LocalCacheManager} (h : Effect o ok m t m') :
    m'.pending = m.pending := by
  obtain hsame | ⟨f, id, pc, -, -, hl, hq, -, -⟩ := h.tables
  · rw [LocalCacheManager.pending, hsame.leaving, hsame.reapQueue, LocalCacheManager.pending]
  · rw [LocalCacheManager.pending, hl, hq, LocalCacheManager.pending]

theorem next_admitting (h : t.admitting = some p) (hres : m.contains (o.allocate p.fileId) p = true) :
    (t.next o ok order m).2.admitting = some p ∨ (t.next o ok order m).1.Listed p := by
  cases t with
  | put q fill permit pc =>
    cases pc with
    | recheck =>
      cases h
      refine .inl ?_
      simp only [next, putStep, if_pos hres]
      rfl
    | readIndex =>
      cases h
      simp only [next, putStep]
      split <;> exact .inl rfl
    | readVersion =>
      cases h
      exact .inl rfl
    | index id =>
      cases h
      exact .inr ((putStep_listed _ _ _ _).2 (.inl ⟨rfl, id, rfl⟩))
    | _ => cases h
  | _ => cases h

end Task

namespace CacheState

open GooseFS.Task

variable {o : CacheManagerOptions} {s s' : CacheState} {dir i : Nat} {fd : FileDir} {fill : Fill}
  {m : LocalCacheManager} {p : PageId} {a : Act} {e : PageInfo} {id : FileIdentity} {ok : Bool}
  {order : List Nat} {t : Task} {ts : List Task}

/-! ## Placement -/

/-- Everything of a page is in the directory of its file. -/
structure Placed (o : CacheManagerOptions) (s : CacheState) : Prop where
  caches : ∀ dir p e, s.mgr.caches dir p = some e → dir = o.allocate p.fileId
  pages : ∀ dir p fill, s.mgr.page dir p = some fill → dir = o.allocate p.fileId
  identities : ∀ dir f id, s.mgr.identity dir f = some id → dir = o.allocate f
  pending : ∀ task ∈ s.mgr.pending, task.dirIndex = o.allocate task.pageId.fileId
  reaping : ∀ task pc, .reap task pc ∈ s.tasks → task.dirIndex = o.allocate task.pageId.fileId

theorem placed_fresh : Placed o (fresh o) where
  caches := by intro dir p e h; cases h
  pages := by intro dir p fill h; cases h
  identities := by intro dir f id h; cases h
  pending := by intro task h; cases h
  reaping := by intro task pc h; cases h

theorem Placed.congr (h : Placed o s) (hc : m.caches = s.mgr.caches) (hd : m.dirs = s.mgr.dirs)
    (hpending : ∀ task ∈ m.pending, task ∈ s.mgr.pending)
    (hts : ∀ task pc, .reap task pc ∈ ts →
      (∃ pc, .reap task pc ∈ s.tasks) ∨ task ∈ s.mgr.pending) : Placed o ⟨m, ts⟩ where
  caches dir p e he := h.caches dir p e (hc ▸ he)
  pages dir p fill hp := by
    rw [page, hd] at hp
    exact h.pages dir p fill hp
  identities dir f id hid := by
    rw [identity, hd] at hid
    exact h.identities dir f id hid
  pending task ht := h.pending task (hpending task ht)
  reaping task pc ht := by
    obtain ⟨pc, hpc⟩ | hpc := hts task pc ht
    · exact h.reaping task pc hpc
    · exact h.pending task hpc

theorem Placed.next (h : Placed o s) (hi : s.tasks[i]? = some t) :
    Placed o (s.moved o ok order i t) where
  caches dir p e he := by
    have heff := next_effect o ok order s.mgr t
    obtain heq | ⟨-, hnone | ⟨fill, permit, -, hdir, -⟩⟩ := heff.caches dir p
    · exact h.caches dir p e (heq ▸ he)
    · rw [hnone] at he
      cases he
    · exact hdir
  pages dir p fill hp := by
    have heff := next_effect o ok order s.mgr t
    obtain heq | ⟨-, hnone⟩ | ⟨fill', permit, -, hdir, -⟩ := heff.page dir p
    · exact h.pages dir p fill (heq ▸ hp)
    · rw [hnone] at hp
      cases hp
    · exact hdir
  identities dir f id hid := by
    have heff := next_effect o ok order s.mgr t
    obtain heq | hnone | ⟨p, fill, permit, id', -, -, hdir, -⟩ := heff.identity dir f
    · exact h.identities dir f id (heq ▸ hid)
    · rw [hnone] at hid
      cases hid
    · exact hdir
  pending task htask := by
    have heff := next_effect o ok order s.mgr t
    exact h.pending task (heff.pending ▸ htask)
  reaping task pc hmem := by
    obtain heq | ⟨j, -, hj⟩ := eq_or_other_of_mem_set hmem
    · obtain ⟨pc₀, rfl, -⟩ := next_reap heq.symm
      exact h.reaping task pc₀ (List.mem_of_getElem? hi)
    · exact h.reaping task pc (List.mem_of_getElem? hj)

theorem Placed.evict (h : Placed o s) (hres : s.mgr.caches dir p = some e) :
    Placed o (s.evict dir p) where
  caches dir' q e' he := by
    exact h.caches dir' q e' (caches_of_evict he)
  pages := h.pages
  identities := h.identities
  pending task htask := by
    have htask' : task ∈ (s.mgr.leaving ++ [⟨p, dir⟩]) ++ s.mgr.reapQueue := htask
    simp only [List.mem_append, List.mem_singleton] at htask'
    obtain (htask | rfl) | htask := htask'
    · exact h.pending task (List.mem_append.2 (.inl htask))
    · exact h.caches dir p e hres
    · exact h.pending task (List.mem_append.2 (.inr htask))
  reaping := h.reaping

theorem pending_onLeave {task : ReapTask} (hi : s.mgr.leaving[i]? = some task) :
    ∀ u ∈ (s.onLeave i task).mgr.pending, u ∈ s.mgr.pending := by
  intro u hu
  have hu' : u ∈ s.mgr.leaving.eraseIdx i ++ (if s.mgr.reapQueue.length < reapQueueCap then
    s.mgr.reapQueue ++ [task] else s.mgr.reapQueue) := hu
  obtain hu | hu := List.mem_append.1 hu'
  · exact List.mem_append.2 (.inl (List.mem_of_mem_eraseIdx hu))
  · refine List.mem_append.2 ?_
    split at hu
    · obtain hu | hu := List.mem_append.1 hu
      · exact .inr hu
      · exact .inl (List.mem_singleton.1 hu ▸ List.mem_of_getElem? hi)
    · exact .inr hu

/-! ## Restart -/

theorem lookup_livePages (h : (livePages o fd).lookup i = some fill) :
    fd.pages.lookup i = some fill := by
  have hmem : Sigma.mk i fill ∈ (livePages o fd).entries := AList.mem_lookup_iff.1 h
  exact AList.mem_lookup_iff.2 (List.mem_filter.1 hmem).1

theorem lookup_restoreDir (h : (restoreDir o fd).pages.lookup i = some fill) :
    fd.pages.lookup i = some fill ∧ (restoreDir o fd).identity = fd.identity ∧
      fd.identity ≠ none := by
  unfold restoreDir at h ⊢
  split at h
  · cases h
  · next id hid =>
    split at h
    · cases h
    · next hlive =>
      rw [if_neg hlive]
      exact ⟨lookup_livePages h, hid.symm, hid ▸ Option.some_ne_none id⟩

theorem identity_restoreDir (h : (restoreDir o fd).identity = some id) : fd.identity = some id := by
  unfold restoreDir at h
  split at h
  · cases h
  · next id' hid =>
    split at h <;> cases h
    exact hid

theorem page_restore (h : (restore o m).page dir p = some fill) : m.page dir p = some fill := by
  simp only [page, restore] at h
  split at h
  · exact (lookup_restoreDir h).1
  · exact h

theorem identity_restore {f : String} (h : (restore o m).identity dir f = some id) :
    m.identity dir f = some id := by
  simp only [identity, restore] at h
  split at h
  · exact identity_restoreDir h
  · exact h

theorem listed_restore (h : (restore o m).caches dir p = some e) : (restore o m).Listed p := by
  simp only [restore] at h
  split at h
  · next hdir =>
    obtain ⟨fill, hfill, -⟩ := Option.map_eq_some_iff.1 h
    simp only [Listed, restore, List.mem_dedup, List.mem_flatMap, List.mem_range]
    refine ⟨dir, hdir, ?_⟩
    rw [if_pos hdir, ← AList.mem_keys, ← AList.lookup_isSome, hfill]
    rfl
  · cases h

theorem Placed.restore (h : Placed o s) : Placed o ⟨restore o s.mgr, []⟩ where
  caches dir p e he := h.pages dir p e.fill (page_restore ((sane_restore s.mgr).sound dir p e he))
  pages dir p fill hp := h.pages dir p fill (page_restore hp)
  identities dir f id hid := h.identities dir f id (identity_restore hid)
  pending := by intro task ht; cases ht
  reaping := by intro task pc ht; cases ht

theorem Placed.step (h : Placed o s) (hs : step o s a = some s') : Placed o s' := by
  cases step_inv hs with
  | rejected => exact h
  | @call a t m ht hm _ _ =>
    have hpending : m.pending = s.mgr.pending := by
      rw [LocalCacheManager.pending, hm.leaving, hm.reapQueue, LocalCacheManager.pending]
    refine h.congr hm.caches hm.dirs (fun u hu => hpending ▸ hu) fun u pc hu => .inl ⟨pc, ?_⟩
    obtain hu | hu := List.mem_append.1 hu
    · exact hu
    · cases List.mem_singleton.1 hu
      cases a <;> cases ht
  | run hi _ _ => exact (h.next hi).congr rfl rfl (fun _ ht => ht) fun _ pc ht => .inl ⟨pc, ht⟩
  | evict he => exact h.evict he
  | leave hi => exact h.congr rfl rfl (pending_onLeave hi) fun _ pc ht => .inl ⟨pc, ht⟩
  | @reap task rest hq =>
    have hpending : s.mgr.pending = s.mgr.leaving ++ task :: rest :=
      congrArg (s.mgr.leaving ++ ·) hq
    refine h.congr rfl rfl (fun u hu => ?_) fun u pc hu => ?_
    · have hu' : u ∈ s.mgr.leaving ++ rest := hu
      rw [hpending]
      simp only [List.mem_append, List.mem_cons] at hu' ⊢
      exact hu'.imp_right .inr
    · obtain hu | hu := List.mem_append.1 hu
      · exact .inl ⟨pc, hu⟩
      · cases List.mem_singleton.1 hu
        rw [hpending]
        exact .inr (List.mem_append.2 (.inr List.mem_cons_self))
  | advance => exact h.congr rfl rfl (fun _ ht => ht) fun _ pc ht => .inl ⟨pc, ht⟩
  | restart => exact h.restore

/-- In every run a get that has found a page reads the bytes of the put that admitted
it, whatever is evicted, reaped or put while it comes to read them, and no page has
files in two directories. -/
theorem lookups_stay_valid (o : CacheManagerOptions) {C : CacheState → Act → Prop} {ls : List Act}
    {s : CacheState} (hrun : Guarded (CacheState.step o) C (fresh o) ls s) :
    (∀ p offset len info, .get p offset len (.read info) ∈ s.tasks →
      s.mgr.page (o.allocate p.fileId) p = some info.fill) ∧
    ∀ dir dir' p fill fill', s.mgr.page dir p = some fill → s.mgr.page dir' p = some fill' →
      dir = dir' := by
  obtain ⟨hsane, hplaced⟩ : Sane o s ∧ Placed o s :=
    hrun.invariant (fun _ _ _ (h : Sane o _ ∧ Placed o _) _ hs => ⟨h.1.step hs, h.2.step hs⟩)
      ⟨sane_fresh, placed_fresh⟩
  constructor
  · intro p offset len info ht
    exact (hsane.outlines _ ht).get_read p offset len info rfl
  · intro dir dir' p fill fill' h h'
    rw [hplaced.pages dir p fill h, hplaced.pages dir' p fill' h']

/-- The page is evicted after the get has found it. -/
theorem lookups_stay_valid_evicted : ∃ s : CacheState,
    s.mgr.caches 0 ⟨"f", 0⟩ = none ∧ s.mgr.page 0 ⟨"f", 0⟩ = some ⟨[1], ⟨1, 1⟩⟩ := by
  obtain ⟨s, hrun, hget, hgone⟩ : ∃ s, Guarded (CacheState.step tinyOptions) (fun _ _ => True)
      (fresh tinyOptions) (.put ⟨"f", 0⟩ ⟨[1], ⟨1, 1⟩⟩ :: takes 0 9 ++
        .getBytes ⟨"f", 0⟩ 0 1 :: takes 1 2 ++ [.evict 0 ⟨"f", 0⟩]) s ∧
      .get ⟨"f", 0⟩ 0 1 (.read ⟨0, [1], ⟨1, 1⟩⟩) ∈ s.tasks ∧ s.mgr.caches 0 ⟨"f", 0⟩ = none :=
    Guarded.exists_of_replay (by decide +kernel)
  exact ⟨s, hgone, (lookups_stay_valid _ hrun).1 _ _ _ _ hget⟩

/-! ## Completeness -/

def reaps (s : CacheState) : Act → Option ReapTask
  | .run i _ _ => s.tasks[i]?.bind Task.unlists
  | _ => none

def ReapsGone (s : CacheState) (a : Act) : Prop :=
  ∀ task ∈ s.reaps a, s.mgr.contains task.dirIndex task.pageId = false

instance (a : Act) : Decidable (s.ReapsGone a) :=
  inferInstanceAs (Decidable (∀ task ∈ s.reaps a, _))

def Indexed (s : CacheState) : Prop :=
  ∀ dir p e, s.mgr.caches dir p = some e → s.mgr.Listed p ∨ ∃ t ∈ s.tasks, t.admitting = some p

def Quiet (s : CacheState) : Prop := (∀ t ∈ s.tasks, t.finished = true) ∧ s.mgr.reapQueue = []

instance : Decidable s.Quiet := inferInstanceAs (Decidable (_ ∧ _))

theorem Indexed.congr (h : Indexed s) (hc : m.caches = s.mgr.caches) (hb : m.byFile = s.mgr.byFile)
    (hts : ∀ t ∈ s.tasks, t ∈ ts) : Indexed ⟨m, ts⟩ := by
  intro dir p e he
  obtain hl | ⟨t, ht, hadm⟩ := h dir p e (hc ▸ he)
  · refine .inl ?_
    rw [Listed, hb]
    exact hl
  · exact .inr ⟨t, hts t ht, hadm⟩

theorem Indexed.next (h : Indexed s) (hsane : Sane o s) (hplaced : Placed o s)
    (hi : s.tasks[i]? = some t)
    (hgone : ∀ task, t = .reap task .index → s.mgr.caches task.dirIndex task.pageId = none) :
    Indexed (s.moved o ok order i t) := by
  intro dir p e he
  have heff := next_effect o ok order s.mgr t
  obtain heq | ⟨-, hnone | ⟨fill, permit, rfl, -⟩⟩ := heff.caches dir p
  · have hold : s.mgr.caches dir p = some e := heq ▸ he
    have hdir : dir = o.allocate p.fileId := hplaced.caches dir p e hold
    obtain hl | hadm := h dir p e hold
    · -- whoever unlists the page has seen that it is gone
      obtain hiff | ⟨fill, permit, id, -, hl'⟩ | ⟨hr | ⟨dir', rfl⟩, -⟩ := heff.listed p
      · exact .inl (hiff.2 hl)
      · exact .inl hl'
      · rw [hdir, (hsane.outlines.get hi).removed p .index hr rfl] at hold
        cases hold
      · have hdir' : dir' = o.allocate p.fileId :=
          hplaced.reaping ⟨p, dir'⟩ .index (List.mem_of_getElem? hi)
        rw [hdir, ← hdir', hgone _ rfl] at hold
        cases hold
    · have hres : s.mgr.contains (o.allocate p.fileId) p = true := by
        rw [contains, ← hdir, hold]
        rfl
      by_cases hl' : (t.next o ok order s.mgr).1.Listed p
      · exact .inl hl'
      · refine .inr (exists_mem_set hi hadm (fun ht => ?_) fun u hu => hu)
        exact (next_admitting ht hres).resolve_right hl'
  · rw [hnone] at he
    cases he
  · exact .inr ⟨_, mem_set_self hi, rfl⟩

theorem Indexed.step (h : Indexed s) (hsane : Sane o s) (hplaced : Placed o s)
    (hgone : s.ReapsGone a) (hs : CacheState.step o s a = some s') : Indexed s' := by
  have happ : ∀ (u : Task), ∀ t ∈ s.tasks, t ∈ s.tasks ++ [u] :=
    fun u t ht => List.mem_append.2 (.inl ht)
  cases step_inv hs with
  | rejected => exact h
  | call _ hm _ _ => exact h.congr hm.caches hm.byFile (happ _)
  | run hi _ _ =>
    refine (h.next hsane hplaced hi ?_).congr rfl rfl fun _ ht => ht
    rintro task rfl
    refine (s.mgr.contains_eq_false _ _).1 (hgone task ?_)
    rw [reaps, hi]
    rfl
  | @evict dir p _ _ =>
    intro dir' q e he
    exact h dir' q e (caches_of_evict he)
  | leave _ | advance => exact h.congr rfl rfl fun _ ht => ht
  | reap _ => exact h.congr rfl rfl (happ _)
  | restart =>
    intro dir p e he
    exact .inl (listed_restore he)

end CacheState

end GooseFS
