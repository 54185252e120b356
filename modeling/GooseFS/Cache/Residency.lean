import GooseFS.Lib.Tasks
import GooseFS.Lib.Transition
import GooseFS.Cache.Steps

/-!
# Resident pages and their files

An evicted page loses its entry at once and its file later, when the reaper gets
to it.  In between the page may be admitted again, so the reaper may meet a file
that a newer put has written.

`Sane` is what carries a page over this: two tasks are never inside the critical
sections of one page lock unless both read (`Excludes`), every task finds what
its program counter says about its page (`Outline`), and a resident page has the
file of the put that admitted it (`Sound`).  `no_zombie_pages` is the last part,
for every run.
-/

namespace GooseFS

open Lib LocalCacheManager Option

namespace Task

variable {o : CacheManagerOptions} {ok : Bool} {order : List Nat} {m m' : LocalCacheManager}
  {t : Task}

def Starts : Task → Prop
  | .put _ _ _ pc => pc = .start
  | .get _ _ _ pc => pc = .lock ∨ pc = .done
  | .delete _ pc => pc = .lock
  | .invalidate _ pc => pc = .snapshot
  | .onFileOpen _ _ pc => pc = .check
  | .reap _ pc => pc = .index

theorem Starts.writing (h : t.Starts) : t.writing = none := by
  cases t with
  | get p offset len pc => obtain rfl | rfl := h <;> rfl
  | _ => cases h; rfl

theorem Starts.reading (h : t.Starts) : t.reading = none := by
  cases t with
  | get p offset len pc => obtain rfl | rfl := h <;> rfl
  | _ => rfl

theorem Starts.removal (h : t.Starts) : t.removal = none := by
  cases t with
  | get p offset len pc => obtain rfl | rfl := h <;> rfl
  | _ => cases h; rfl

/-- Nothing that `u` holds is in the way of what `t` holds for writing. -/
def Excludes (o : CacheManagerOptions) (t u : Task) : Prop :=
  ∀ p q, t.writing = some p → u.writing = some q ∨ u.reading = some q →
    o.pageLockIndex q ≠ o.pageLockIndex p

/-! ## Outlines -/

structure Outline (o : CacheManagerOptions) (m : LocalCacheManager) (t : Task) : Prop where
  put_store : ∀ p fill permit, t = .put p fill permit .store →
    m.caches (o.allocate p.fileId) p = none
  put_insert : ∀ p fill permit, t = .put p fill permit .insert →
    m.page (o.allocate p.fileId) p = some fill
  get_read : ∀ p offset len info, t = .get p offset len (.read info) →
    m.page (o.allocate p.fileId) p = some info.fill
  reap_store : ∀ task fileEmpty, t = .reap task (.store fileEmpty) →
    m.caches task.dirIndex task.pageId = none
  removed : ∀ p r, t.removal = some (p, r) → r.finished = false →
    m.caches (o.allocate p.fileId) p = none

def Sound (m : LocalCacheManager) : Prop :=
  ∀ dir p e, m.caches dir p = some e → m.page dir p = some e.fill

theorem Starts.outline (h : t.Starts) : Outline o m t where
  put_store := by rintro p fill permit rfl; cases h
  put_insert := by rintro p fill permit rfl; cases h
  get_read := by rintro p offset len info rfl; cases h <;> contradiction
  reap_store := by rintro task fileEmpty rfl; cases h
  removed := by
    intro p r hr
    rw [h.removal] at hr
    cases hr

/-- An outline depends only on pages whose lock the task holds, and dropping their
entries does not break it. -/
theorem Outline.stable {u : Task} (h : Outline o m u)
    (hc : ∀ p dir, u.writing = some p ∨ u.reading = some p →
      m'.caches dir p = m.caches dir p ∨ m'.caches dir p = none)
    (hp : ∀ p dir, u.writing = some p ∨ u.reading = some p → m'.page dir p = m.page dir p) :
    Outline o m' u where
  put_store p fill permit hu := by
    have hold := h.put_store p fill permit hu
    exact (hc p _ (.inl (hu ▸ rfl))).elim (fun heq => heq.trans hold) id
  put_insert p fill permit hu := by
    rw [hp p _ (.inl (hu ▸ rfl))]
    exact h.put_insert p fill permit hu
  get_read p offset len info hu := by
    rw [hp p _ (.inr (hu ▸ rfl))]
    exact h.get_read p offset len info hu
  reap_store task fileEmpty hu := by
    have hold := h.reap_store task fileEmpty hu
    exact (hc task.pageId _ (.inl (hu ▸ rfl))).elim (fun heq => heq.trans hold) id
  removed p r hr hlive := by
    have hold := h.removed p r hr hlive
    exact (hc p _ (.inl (writing_of_removal hr hlive))).elim (fun heq => heq.trans hold) id

theorem Outline.not_resident (h : Outline o m t) {dir : Nat} {p : PageId} (hd : t.Deletes o dir p) :
    m.caches dir p = none := by
  obtain ⟨r, hr, hlive, rfl⟩ | ⟨fileEmpty, rfl⟩ := hd
  · exact h.removed p r hr hlive
  · exact h.reap_store _ _ rfl

theorem next_sound (hs : Sound m) (h : Outline o m t) : Sound (t.next o ok order m).1 := by
  intro dir p e he
  have heff := next_effect o ok order m t
  obtain heq | ⟨-, hnone | ⟨fill, permit, rfl, rfl, hsome⟩⟩ := heff.caches dir p
  · rw [heq] at he
    obtain hpage | ⟨hd, -⟩ | ⟨fill, permit, rfl, rfl, -⟩ := heff.page dir p
    · rw [hpage]
      exact hs dir p e he
    · rw [h.not_resident hd] at he
      cases he
    · rw [h.put_store p fill permit rfl] at he
      cases he
  · rw [hnone] at he
    cases he
  · -- the entry that the put admits is the file it has written
    rw [hsome] at he
    cases he
    exact h.put_insert p fill permit rfl

theorem next_outline (hs : Sound m) (h : Outline o m t) :
    Outline o (t.next o ok order m).1 (t.next o ok order m).2 where
  put_store p fill permit hn := by
    obtain ⟨pc, rfl, hpc⟩ := next_put hn
    obtain ⟨rfl, hnone⟩ := putStep_eq_store hpc
    exact hnone
  put_insert p fill permit hn := by
    obtain ⟨pc, rfl, hpc⟩ := next_put hn
    obtain ⟨rfl, rfl⟩ := putStep_eq_insert hpc
    exact (m.page_writePage _ _ p p fill).trans (if_pos ⟨rfl, rfl⟩)
  get_read p offset len info hn := by
    obtain ⟨pc, rfl, hpc⟩ := next_get hn
    obtain ⟨rfl, hentry⟩ := getStep_eq_read hpc
    have hm : (Task.next o ok order m (.get p offset len .lookup)).1 = m := by
      simp only [next, getStep, hentry]
    rw [hm]
    exact hs _ p info hentry
  reap_store task fileEmpty hn := by
    obtain ⟨pc, rfl, hpc⟩ := next_reap hn
    obtain ⟨rfl, hnone⟩ := reapOneStep_eq_store hpc
    exact hnone
  removed p r hr hlive := by
    obtain ⟨r₀, hr₀, rfl⟩ | ⟨-, -, hm⟩ := next_removal hr
    · have hlive₀ : r₀.finished = false := by
        cases r₀ with
        | done => cases hlive
        | _ => rfl
      have hold := h.removed p r₀ hr₀ hlive₀
      have heff := next_effect o ok order m t
      obtain heq | ⟨-, hnone | ⟨fill, permit, rfl, -⟩⟩ := heff.caches (o.allocate p.fileId) p
      · rw [heq, hold]
      · exact hnone
      · cases hr₀
    · rw [hm]
      exact if_pos ⟨rfl, rfl⟩

end Task

namespace CacheState

open GooseFS.Task

variable {o : CacheManagerOptions} {s s' : CacheState} {a : Act} {t : Task}

/-! ## Runs -/

/-- Task `i`, which is `t`, has taken its next step. -/
abbrev moved (o : CacheManagerOptions) (s : CacheState) (ok : Bool) (order : List Nat) (i : Nat)
    (t : Task) : CacheState :=
  ⟨(t.next o ok order s.mgr).1, s.tasks.set i (t.next o ok order s.mgr).2⟩

def call : Act → Option Task
  | .put p fill => some (.put p fill false .start)
  | .scheduleFill p fill => some (.put p fill true .start)
  | .getBytes p offset len => some (.get p offset len (if len = 0 then .done else .lock))
  | .delete p => some (.delete p .lock)
  | .invalidate f => some (.invalidate f .snapshot)
  | .onFileOpen f id => some (.onFileOpen f id .check)
  | _ => none

theorem starts_of_call (h : call a = some t) : t.Starts := by
  cases a with
  | getBytes p offset len =>
    cases h
    by_cases hlen : len = 0
    · exact .inr (if_pos hlen)
    · exact .inl (if_neg hlen)
  | _ => cases h <;> rfl

/-- Two managers agree on the pages, the index, the versions and the evictions. -/
structure SamePages (m m' : LocalCacheManager) : Prop where
  caches : m'.caches = m.caches
  dirs : m'.dirs = m.dirs
  byFile : m'.byFile = m.byFile
  versions : m'.versions = m.versions
  leaving : m'.leaving = m.leaving
  reapQueue : m'.reapQueue = m.reapQueue

/-- What an action can do.  A call leaves the pages alone, and closes the window of
a file that it opens with another identity. -/
inductive Step (o : CacheManagerOptions) (s : CacheState) : Act → CacheState → Prop
  | rejected {p : PageId} {fill : Fill} : Step o s (.scheduleFill p fill) s
  | call {a : Act} {t : Task} {m : LocalCacheManager} : call a = some t → SamePages s.mgr m →
    (∀ f id, a = .onFileOpen f id → ∀ g, m.window g =
      if g = f ∧ s.mgr.window f ≠ some id then none else s.mgr.window g) →
    ((∀ f id, a ≠ .onFileOpen f id) → m.window = s.mgr.window) → Step o s a ⟨m, s.tasks ++ [t]⟩
  | run {i : Nat} {ok : Bool} {order : List Nat} {t : Task} : s.tasks[i]? = some t →
    t.finished = false → s.Enabled o t order → Step o s (.run i ok order)
      (s.advance i (t.next o ok order s.mgr).1 (t.next o ok order s.mgr).2)
  | evict {dir : Nat} {p : PageId} {e : PageInfo} : s.mgr.caches dir p = some e →
    Step o s (.evict dir p) (s.evict dir p)
  | leave {i : Nat} {task : ReapTask} : s.mgr.leaving[i]? = some task →
    Step o s (.leave i) (s.onLeave i task)
  | reap {task : ReapTask} {rest : List ReapTask} : s.mgr.reapQueue = task :: rest →
    Step o s .reap ⟨{ s.mgr with reapQueue := rest }, s.tasks ++ [.reap task .index]⟩
  | advance {dt : Nat} :
    Step o s (.advance dt) { s with mgr := { s.mgr with now := s.mgr.now + dt } }
  | restart : Step o s .restart ⟨restore o s.mgr, []⟩

theorem step_inv (h : step o s a = some s') : Step o s a s' := by
  cases a with
  | scheduleFill p fill =>
    simp only [step] at h
    split at h <;> cases h
    · exact .rejected
    · exact .call rfl ⟨rfl, rfl, rfl, rfl, rfl, rfl⟩ (by simp) fun _ => rfl
  | onFileOpen f id =>
    cases h
    by_cases hw : s.mgr.window f = some id
    · refine .call rfl ?_ ?_ fun hne => absurd rfl (hne f id)
      · simp only [if_pos hw]
        exact ⟨rfl, rfl, rfl, rfl, rfl, rfl⟩
      · rintro f' id' heq g
        cases heq
        simp [hw]
    · refine .call rfl ?_ ?_ fun hne => absurd rfl (hne f id)
      · simp only [if_neg hw]
        exact ⟨rfl, rfl, rfl, rfl, rfl, rfl⟩
      · rintro f' id' heq g
        cases heq
        simp [hw, setWindow]
  | run i ok order =>
    simp only [step] at h
    split at h
    · cases h
    · next t ht =>
      split at h <;> cases h
      next hrun => exact .run ht hrun.1 hrun.2
  | evict dir p =>
    simp only [step] at h
    split at h <;> cases h
    next hres =>
    obtain ⟨e, he⟩ := isSome_iff_exists.1 hres
    exact .evict he
  | leave i =>
    simp only [step] at h
    split at h <;> cases h
    next hi => exact .leave hi
  | reap =>
    simp only [step] at h
    split at h
    · cases h
    · next hq =>
      split at h <;> cases h
      exact .reap hq
  | advance dt =>
    cases h
    exact .advance
  | restart =>
    cases h
    exact .restart
  | _ =>
    cases h
    exact .call rfl ⟨rfl, rfl, rfl, rfl, rfl, rfl⟩ (by simp) fun _ => rfl

/-- The state of the cache is consistent for pages. -/
structure Sane (o : CacheManagerOptions) (s : CacheState) : Prop where
  exclusive : Apart (Excludes o) s.tasks
  outlines : Asserted (Outline o) s.mgr s.tasks
  sound : Sound s.mgr

theorem caches_of_evict {dir dir' : Nat} {p q : PageId} {e : PageInfo}
    (he : (s.evict dir p).mgr.caches dir' q = some e) : s.mgr.caches dir' q = some e := by
  have he' : (s.mgr.setEntry dir p none).caches dir' q = some e := he
  rw [setEntry_caches] at he'
  split at he'
  · cases he'
  · exact he'

section

variable (h : Sane o s)
include h

theorem Sane.not_writing {i j : Nat} {u : Task} {p : PageId} (hi : s.tasks[i]? = some t)
    (hj : s.tasks[j]? = some u) (hne : j ≠ i) (hu : u.writing = some p ∨ u.reading = some p) :
    t.writing ≠ some p :=
  fun ht => h.exclusive hne.symm hi hj p p ht hu rfl

theorem Sane.congr {m : LocalCacheManager} (hc : m.caches = s.mgr.caches) (hd : m.dirs = s.mgr.dirs) :
    Sane o ⟨m, s.tasks⟩ where
  exclusive := h.exclusive
  outlines := by
    intro u hu
    refine (h.outlines u hu).stable (fun p dir _ => .inl ?_) fun p dir _ => ?_
    · rw [hc]
    · rw [page, hd, page]
  sound := by
    intro dir p e he
    rw [page, hd]
    rw [hc] at he
    exact h.sound dir p e he

theorem Sane.spawn (ht : t.Starts) : Sane o (s.spawn t) where
  exclusive := by
    refine h.exclusive.append fun u => ⟨?_, ?_⟩
    · intro p q hp
      rw [ht.writing] at hp
      cases hp
    · intro p q _ hq
      rw [ht.writing, ht.reading] at hq
      cases hq <;> contradiction
  outlines := h.outlines.append (fun _ hu => hu) ht.outline
  sound := h.sound

theorem Sane.next {i : Nat} {ok : Bool} {order : List Nat} (hi : s.tasks[i]? = some t)
    (hen : s.Enabled o t order) : Sane o (s.moved o ok order i t) where
  exclusive := by
    refine h.exclusive.set fun j u hne hj => ⟨?_, ?_⟩
    · intro p q hp hq
      obtain hp | hp := next_writing hp
      · exact h.exclusive hne.symm hi hj p q hp hq
      · obtain ⟨hw, hr⟩ := hen.1 p hp u (List.mem_of_getElem? hj)
        intro heq
        obtain hq | hq := hq
        · exact hw (by rw [hq, map_some, heq])
        · exact hr (by rw [hq, map_some, heq])
    · intro p q hp hq
      have hblock : u.writing.map o.pageLockIndex ≠ some (o.pageLockIndex q) →
          o.pageLockIndex q ≠ o.pageLockIndex p := by
        intro hmap heq
        rw [hp, map_some, heq] at hmap
        exact hmap rfl
      obtain hq | hq := hq
      · obtain hq | hq := next_writing hq
        · exact h.exclusive hne hj hi p q hp (.inl hq)
        · exact hblock (hen.1 q hq u (List.mem_of_getElem? hj)).1
      · obtain hq | hq := next_reading hq
        · exact h.exclusive hne hj hi p q hp (.inr hq)
        · exact hblock (hen.2.1 q hq u (List.mem_of_getElem? hj))
  outlines := by
    have heff := next_effect o ok order s.mgr t
    refine h.outlines.set (next_outline h.sound (h.outlines.get hi)) fun j u hne hj hu => ?_
    refine hu.stable (fun p dir hp => ?_) fun p dir hp => ?_
    · obtain heq | ⟨hw, -⟩ := heff.caches dir p
      · exact .inl heq
      · exact absurd hw (h.not_writing hi hj hne hp)
    · obtain heq | ⟨hd, -⟩ | ⟨fill, permit, rfl, -⟩ := heff.page dir p
      · exact heq
      · exact absurd hd.writing (h.not_writing hi hj hne hp)
      · exact absurd rfl (h.not_writing hi hj hne hp)
  sound := next_sound h.sound (h.outlines.get hi)

theorem Sane.evict (dir : Nat) (p : PageId) : Sane o (s.evict dir p) where
  exclusive := h.exclusive
  outlines := by
    intro u hu
    refine (h.outlines u hu).stable (fun q dir' _ => ?_) fun q dir' _ => rfl
    by_cases hq : dir' = dir ∧ q = p
    · exact .inr (if_pos hq)
    · exact .inl (if_neg hq)
  sound := fun dir' q e he => h.sound dir' q e (caches_of_evict he)

end

theorem sane_restore (m : LocalCacheManager) : Sane o ⟨restore o m, []⟩ where
  exclusive := by
    intro i j t u _ ht
    cases ht
  outlines := by
    intro t ht
    cases ht
  sound := by
    intro dir p e he
    simp only [restore] at he
    split at he
    · next hdir =>
      obtain ⟨fill, hfill, rfl⟩ := map_eq_some_iff.1 he
      simp only [page, restore, if_pos hdir]
      exact hfill
    · cases he

theorem sane_fresh : Sane o (fresh o) where
  exclusive := by
    intro i j t u _ ht
    cases ht
  outlines := by
    intro t ht
    cases ht
  sound := by
    intro dir p e he
    cases he

theorem Sane.step (h : Sane o s) (hs : step o s a = some s') : Sane o s' := by
  cases step_inv hs with
  | rejected => exact h
  | call ht hm _ _ => exact (h.spawn (starts_of_call ht)).congr hm.caches hm.dirs
  | run hi _ hen => exact (h.next hi hen).congr rfl rfl
  | @evict dir p e _ => exact h.evict dir p
  | leave _ | advance => exact h.congr rfl rfl
  | @reap task rest _ =>
    have ht : Starts (.reap task .index) := rfl
    exact (h.spawn ht).congr rfl rfl
  | restart => exact sane_restore s.mgr

/-- Whenever a page is resident, its file exists and holds the bytes of the put
that admitted it.  This needs no assumption on the outcomes of store operations,
nor that the page lock is free. -/
theorem no_zombie_pages (o : CacheManagerOptions) {ls : List Act} {s : CacheState}
    (hrun : Guarded (CacheState.step o) (fun _ _ => True) (fresh o) ls s)
    {dir : Nat} {p : PageId} {e : PageInfo} (he : s.mgr.caches dir p = some e) :
    s.mgr.page dir p = some e.fill := by
  have hsane : Sane o s := hrun.invariant (fun _ _ _ h _ hs => h.step hs) sane_fresh
  exact hsane.sound dir p e he

/-- One directory, pages of four bytes, one lock for each page index. -/
def tinyOptions : CacheManagerOptions where
  pageSize := 4
  numDirs := 1
  dirs_pos := by decide
  ttl := none
  asyncWriteThreads := 1
  hashFile _ := 0
  hashPage p := p.pageIndex

def takes (i n : Nat) : List Act := List.replicate n (.run i true [])

/-- The reaper has started on the evicted page when it is put again. -/
def readmission (p : PageId) (old new : Fill) : List Act :=
  .put p old :: takes 0 9 ++ [.evict 0 p, .leave 0, .reap, .run 1 true []] ++
    .put p new :: takes 2 9 ++ takes 1 2

theorem no_zombie_pages_readmission : ∃ s,
    Guarded (CacheState.step tinyOptions) (fun _ _ => True) (fresh tinyOptions)
      (readmission ⟨"f", 0⟩ ⟨[1], ⟨1, 1⟩⟩ ⟨[2], ⟨1, 2⟩⟩) s ∧
    s.mgr.page 0 ⟨"f", 0⟩ = some ⟨[2], ⟨1, 2⟩⟩ := by
  obtain ⟨s, hrun, he⟩ : ∃ s, Guarded (CacheState.step tinyOptions) (fun _ _ => True)
      (fresh tinyOptions) (readmission ⟨"f", 0⟩ ⟨[1], ⟨1, 1⟩⟩ ⟨[2], ⟨1, 2⟩⟩) s ∧
      s.mgr.caches 0 ⟨"f", 0⟩ = some ⟨0, [2], ⟨1, 2⟩⟩ :=
    Guarded.exists_of_replay (by decide +kernel)
  exact ⟨s, hrun, no_zombie_pages tinyOptions hrun he⟩

end CacheState

end GooseFS
