import GooseFS.Cache.Coherence

/-!
# Page files and sidecars on disk

Which page files and sidecars can be on disk, when nothing that should remove them
is lost: evictions reach the reaper, deletes of the store succeed, and the reaper
unlists a page only while it is neither resident nor locked (`Diligent`).  Then a
page file belongs to a resident page, to an eviction on its way, or to a call that
is in the middle of writing or removing it, and a sidecar to a listed page or to a
call that is about to delete it (`Accounted`).
-/

namespace GooseFS

open Lib LocalCacheManager List Option

namespace Task

variable {o : CacheManagerOptions} {ok : Bool} {order : List Nat} {m : LocalCacheManager}
  {dir : Nat} {e : PageInfo} {f : String} {p : PageId} {t : Task} {x : PageId × RemovedPc}
  {pc : InvalidatePc} {r : RemovedPc}

def removedOwning : PageId × RemovedPc → Option PageId
  | (p, .index) => some p
  | (p, .store _) => some p
  | _ => none

/-- The page whose file the task is in the middle of writing or removing. -/
def owning : Task → Option PageId
  | .put p _ _ .insert => some p
  | .reap task (.lock _) => some task.pageId
  | .reap task (.check _) => some task.pageId
  | .reap task (.store _) => some task.pageId
  | t => t.removal.bind removedOwning

def removedSweeping : PageId × RemovedPc → Option String
  | (p, .store true) => some p.fileId
  | (p, .identity) => some p.fileId
  | _ => none

def sweeping : Task → Option String
  | .reap task (.lock true) => some task.pageId.fileId
  | .reap task (.check true) => some task.pageId.fileId
  | .reap task (.store true) => some task.pageId.fileId
  | .reap task .identity => some task.pageId.fileId
  | t => t.removal.bind removedSweeping

def removedErasing : PageId × RemovedPc → Bool
  | (_, .store _) => true
  | (_, .identity) => true
  | _ => false

def erasing : Task → Bool
  | .reap _ (.store _) => true
  | .reap _ .identity => true
  | t => t.removal.any removedErasing

theorem owning_cases (h : t.owning = some p) : (∃ fill permit, t = .put p fill permit .insert) ∨
    (∃ dir b, t = .reap ⟨p, dir⟩ (.lock b) ∨ t = .reap ⟨p, dir⟩ (.check b) ∨
      t = .reap ⟨p, dir⟩ (.store b)) ∨
    ∃ r, t.removal = some (p, r) ∧ (r = .index ∨ ∃ b, r = .store b) := by
  unfold owning at h
  split at h
  · cases h
    exact .inl ⟨_, _, rfl⟩
  · cases h
    exact .inr (.inl ⟨_, _, .inl rfl⟩)
  · cases h
    exact .inr (.inl ⟨_, _, .inr (.inl rfl)⟩)
  · cases h
    exact .inr (.inl ⟨_, _, .inr (.inr rfl)⟩)
  · obtain ⟨⟨q, r⟩, hr, hq⟩ := bind_eq_some_iff.1 h
    cases r with
    | index => cases hq; exact .inr (.inr ⟨_, hr, .inl rfl⟩)
    | store b => cases hq; exact .inr (.inr ⟨_, hr, .inr ⟨b, rfl⟩⟩)
    | identity | done => cases hq

theorem owning_of_removal (h : t.removal = some x) : t.owning = removedOwning x := by
  unfold owning
  split
  · cases h
  · cases h
  · cases h
  · cases h
  · rw [h, bind_some]

theorem sweeping_of_removal (h : t.removal = some x) : t.sweeping = removedSweeping x := by
  unfold sweeping
  split
  · cases h
  · cases h
  · cases h
  · cases h
  · rw [h, bind_some]

theorem erasing_of_removal (h : t.removal = some x) : t.erasing = removedErasing x := by
  unfold erasing
  split
  · cases h
  · cases h
  · rw [h, any_some]

theorem sweeping_cases (h : t.sweeping = some f) :
    (∃ task, t = .reap task (.lock true) ∨ t = .reap task (.check true) ∨
      t = .reap task (.store true) ∨ t = .reap task .identity) ∨
    ∃ p r, t.removal = some (p, r) ∧ p.fileId = f ∧ (r = .store true ∨ r = .identity) := by
  unfold sweeping at h
  split at h
  · exact .inl ⟨_, .inl rfl⟩
  · exact .inl ⟨_, .inr (.inl rfl)⟩
  · exact .inl ⟨_, .inr (.inr (.inl rfl))⟩
  · exact .inl ⟨_, .inr (.inr (.inr rfl))⟩
  · obtain ⟨⟨q, r⟩, hr, hq⟩ := bind_eq_some_iff.1 h
    cases r with
    | index | done => cases hq
    | identity => cases hq; exact .inr ⟨q, _, hr, rfl, .inr rfl⟩
    | store b =>
      cases b with
      | false => cases hq
      | true => cases hq; exact .inr ⟨q, _, hr, rfl, .inl rfl⟩

/-! ## Forward steps -/

theorem invalidateRemoval_forward (o : CacheManagerOptions) (ok : Bool) (order : List Nat)
    (m : LocalCacheManager) (h : invalidateRemoval f pc = some (p, r)) :
    (invalidateStep o ok f order m pc).1 = (removedStep o ok p m r).1 ∧
      ((removedStep o ok p m r).2.finished = true ∨
        invalidateRemoval f (invalidateStep o ok f order m pc).2 =
            some (p, (removedStep o ok p m r).2) ∧
          (invalidateStep o ok f order m pc).2 ≠ .done) := by
  unfold invalidateRemoval at h
  split at h
  · next i pc rest =>
    cases h
    refine ⟨rfl, ?_⟩
    by_cases hfin : (removedStep o ok ⟨f, i⟩ m r).2.finished = true
    · exact .inl hfin
    · refine .inr ?_
      have hstep : (invalidateStep o ok f order m (.deleting i (.removed r) rest)).2 =
          .deleting i (.removed (removedStep o ok ⟨f, i⟩ m r).2) rest := if_neg hfin
      rw [hstep]
      exact ⟨rfl, InvalidatePc.noConfusion⟩
  · cases h

theorem removal_forward (o : CacheManagerOptions) (ok : Bool) (order : List Nat)
    (m : LocalCacheManager) (h : t.removal = some (p, r)) :
    (t.next o ok order m).1 = (removedStep o ok p m r).1 ∧
      ((removedStep o ok p m r).2.finished = true ∨
        (t.next o ok order m).2.removal = some (p, (removedStep o ok p m r).2)) := by
  unfold removal at h
  split at h
  · cases h
    exact ⟨rfl, .inr rfl⟩
  · cases h
    exact ⟨rfl, .inr rfl⟩
  · obtain ⟨hm, hpc⟩ := invalidateRemoval_forward o ok order m h
    exact ⟨hm, hpc.imp_right And.left⟩
  · next f id pc =>
    obtain ⟨hm, hpc⟩ := invalidateRemoval_forward o ok order m h
    refine ⟨hm, hpc.imp_right fun ⟨hr, hne⟩ => ?_⟩
    simp only [next, onFileOpenStep, if_neg hne]
    exact hr
  · cases h

section

variable (hold : m.caches dir p = some e)
include hold

theorem eq_of_setEntry_none {dir' : Nat} {q : PageId}
    (hnew : (m.setEntry dir' q none).caches dir p = none) : p = q := by
  rw [setEntry_caches] at hnew
  split at hnew
  · next h => exact h.2
  · cases hold.symm.trans hnew

theorem invalidateStep_dropped (hnew : (invalidateStep o ok f order m pc).1.caches dir p = none) :
    invalidateRemoval f (invalidateStep o ok f order m pc).2 = some (p, .index) ∧
      (invalidateStep o ok f order m pc).2 ≠ .done := by
  cases pc with
  | snapshot | done => cases hold.symm.trans hnew
  | deleting i pc rest =>
    cases pc with
    | lock | missing => cases hold.symm.trans hnew
    | removed r =>
      have hsame : (removedStep o ok ⟨f, i⟩ m r).1.caches dir p = none := hnew
      rw [removedStep_caches] at hsame
      cases hold.symm.trans hsame
    | remove =>
      simp only [invalidateStep, deleteStep] at hnew ⊢
      split at hnew
      · next hc =>
        cases eq_of_setEntry_none hold hnew
        rw [if_pos hc]
        exact ⟨rfl, InvalidatePc.noConfusion⟩
      · cases hold.symm.trans hnew

theorem next_dropped (hnew : (t.next o ok order m).1.caches dir p = none) :
    (t.next o ok order m).2.removal = some (p, .index) := by
  cases t with
  | put q fill permit pc =>
    have hput : (putStep o ok q fill m pc).1.caches dir p = none := hnew
    rw [putStep_caches] at hput
    split at hput
    · rw [setEntry_caches] at hput
      split at hput
      · cases hput
      · cases hold.symm.trans hput
    · cases hold.symm.trans hput
  | reap task pc =>
    have hsame : (reapOneStep ok task m pc).1.caches dir p = none := hnew
    rw [reapOneStep_caches] at hsame
    cases hold.symm.trans hsame
  | get q offset len pc =>
    cases pc with
    | expireRemove =>
      cases eq_of_setEntry_none hold hnew
      rfl
    | expired r =>
      have hsame : (removedStep o ok q m r).1.caches dir p = none := hnew
      rw [removedStep_caches] at hsame
      cases hold.symm.trans hsame
    | lookup | read info | expireLookup =>
      simp only [next, getStep] at hnew
      split at hnew <;> cases hold.symm.trans hnew
    | _ => cases hold.symm.trans hnew
  | delete q pc =>
    cases pc with
    | lock | missing => cases hold.symm.trans hnew
    | removed r =>
      have hsame : (removedStep o ok q m r).1.caches dir p = none := hnew
      rw [removedStep_caches] at hsame
      cases hold.symm.trans hsame
    | remove =>
      simp only [next, deleteStep] at hnew ⊢
      split at hnew
      · next hc =>
        cases eq_of_setEntry_none hold hnew
        rw [if_pos hc]
        rfl
      · cases hold.symm.trans hnew
  | invalidate f pc => exact (invalidateStep_dropped hold hnew).1
  | onFileOpen f id pc =>
    cases pc with
    | check | record =>
      simp only [next, onFileOpenStep] at hnew
      split at hnew
      · split at hnew <;> cases hold.symm.trans hnew
      · cases hold.symm.trans hnew
    | invalidate pc =>
      obtain ⟨hr, hne⟩ := invalidateStep_dropped hold hnew
      simp only [next, onFileOpenStep, if_neg hne]
      exact hr
    | setVersion | done => cases hold.symm.trans hnew

end

theorem admitting_of_next (h : (t.next o ok order m).2.admitting = some p) :
    t.admitting = some p ∨ ∃ fill permit, t = .put p fill permit .insert := by
  cases t with
  | put q fill permit pc =>
    have hq : q = p := by
      have hp := putting_of_admitting h
      revert hp
      simp only [next, putting]
      split <;> intro hp <;> cases hp
      next heq =>
      cases heq
      rfl
    subst hq
    cases pc with
    | insert => exact .inr ⟨fill, permit, rfl⟩
    | recheck | readIndex | readVersion | index id => exact .inl rfl
    | start | lookup =>
      simp only [next, putStep] at h
      split at h <;> cases h
    | store => cases ok <;> cases h
    | _ => cases h
  | _ => cases h

theorem removal_of_admitting (h : t.admitting = some p) : t.removal = none := by
  unfold admitting at h
  split at h <;> first | rfl | cases h

theorem putStep_eq_identity {fill : Fill} {pc : PutPc} {id : FileIdentity}
    (h : (putStep o ok p fill m pc).2 = .identity id) : pc = .index (some id) := by
  cases pc with
  | index id' =>
    cases id' with
    | none => cases h
    | some id' => cases h; rfl
  | start | lookup | recheck | readIndex =>
    simp only [putStep] at h
    split at h <;> cases h
  | store => cases ok <;> cases h
  | _ => cases h

theorem next_owning (order : List Nat) (m : LocalCacheManager) (h : t.owning = some p)
    (hok : t.erasing = true → ok = true)
    (hdir : ∀ task pc, t = .reap task pc → task.dirIndex = o.allocate task.pageId.fileId) :
    (t.next o ok order m).2.owning = some p ∨
      (∃ e, (t.next o ok order m).1.caches (o.allocate p.fileId) p = some e) ∨
      (t.next o ok order m).1.page (o.allocate p.fileId) p = none := by
  obtain ⟨fill, permit, rfl⟩ | ⟨dir, b, rfl | rfl | rfl⟩ | ⟨r, hr, rfl | ⟨b, rfl⟩⟩ := owning_cases h
  · exact .inr (.inl ⟨_, if_pos ⟨rfl, rfl⟩⟩)
  · exact .inl rfl
  · have hdir' : dir = o.allocate p.fileId := hdir _ _ rfl
    subst hdir'
    simp only [next, reapOneStep]
    split
    · next hc => exact .inr (.inl (isSome_iff_exists.1 hc))
    · exact .inl rfl
  · have hdir' : dir = o.allocate p.fileId := hdir _ _ rfl
    subst hdir'
    cases hok rfl
    exact .inr (.inr ((m.page_deletePage _ _ p p).trans (if_pos ⟨rfl, rfl⟩)))
  · obtain ⟨-, hfin | hr'⟩ := removal_forward o ok order m hr
    · cases hfin
    · exact .inl (owning_of_removal hr')
  · obtain ⟨hm, -⟩ := removal_forward o ok order m hr
    cases hok (erasing_of_removal hr)
    rw [hm]
    exact .inr (.inr ((m.page_deletePage _ _ p p).trans (if_pos ⟨rfl, rfl⟩)))

/-- A task that is about to delete a sidecar does so, unless it is the reaper and
finds its page resident. -/
theorem next_sweeping (order : List Nat) (m : LocalCacheManager) (h : t.sweeping = some f)
    (hok : t.erasing = true → ok = true)
    (hdir : ∀ task pc, t = .reap task pc → task.dirIndex = o.allocate task.pageId.fileId) :
    (t.next o ok order m).2.sweeping = some f ∨
      (t.next o ok order m).1.identity (o.allocate f) f = none ∨
      ∃ task, t = .reap task (.check true) ∧ task.pageId.fileId = f ∧
        m.contains task.dirIndex task.pageId = true := by
  obtain ⟨task, rfl | rfl | rfl | rfl⟩ | ⟨p, r, hr, rfl, rfl | rfl⟩ := sweeping_cases h
  · exact .inl h
  · by_cases hc : m.contains task.dirIndex task.pageId = true
    · exact .inr (.inr ⟨task, rfl, some.inj h, hc⟩)
    · refine .inl ?_
      simp only [next, reapOneStep, if_neg hc]
      exact h
  · exact .inl h
  · have hdir' := hdir _ _ rfl
    cases h
    cases hok rfl
    refine .inr (.inl ?_)
    show (reapOneStep true task m .identity).1.identity _ _ = none
    rw [reapOneStep_identity, if_pos ⟨rfl, rfl, hdir'.symm, rfl⟩]
  · obtain ⟨-, hfin | hr'⟩ := removal_forward o ok order m hr
    · cases hfin
    · exact .inl (sweeping_of_removal hr')
  · obtain ⟨hm, -⟩ := removal_forward o ok order m hr
    cases hok (erasing_of_removal hr)
    rw [hm, removedStep_identity, if_pos ⟨rfl, rfl, rfl, rfl⟩]
    exact .inr (.inl rfl)

theorem unindex_listed (h : m.Listed p) :
    (m.unindex p).2 = true ∨ ∃ q, q.fileId = p.fileId ∧ (m.unindex p).1.Listed q := by
  have hne : m.byFile p.fileId ≠ [] := ne_nil_of_mem h
  simp only [unindex, if_neg hne]
  by_cases hset : (m.byFile p.fileId).filter (· ≠ p.pageIndex) = []
  · exact .inl (decide_eq_true hset)
  · obtain ⟨i, hi⟩ := exists_mem_of_ne_nil _ hset
    refine .inr ⟨⟨p.fileId, i⟩, rfl, ?_⟩
    simp only [Listed, setIndex, if_true]
    exact hi

theorem next_unlisted (o : CacheManagerOptions) (ok : Bool) (order : List Nat) (hl : m.Listed p)
    (h : t.removal = some (p, .index) ∨ ∃ dir, t = .reap ⟨p, dir⟩ .index) :
    (t.next o ok order m).2.sweeping = some p.fileId ∨
      ∃ q, q.fileId = p.fileId ∧ (t.next o ok order m).1.Listed q := by
  obtain hr | ⟨dir, rfl⟩ := h
  · obtain ⟨hm, hfin | hr'⟩ := removal_forward o ok order m hr
    · cases hfin
    · obtain hempty | hq := unindex_listed hl
      · refine .inl ((sweeping_of_removal hr').trans ?_)
        simp only [removedStep, hempty, removedSweeping]
      · rw [hm]
        exact .inr hq
  · obtain hempty | hq := unindex_listed hl
    · refine .inl ?_
      simp only [next, reapOneStep, hempty, sweeping]
    · exact .inr hq

end Task

namespace CacheState

open GooseFS.Task

variable {o : CacheManagerOptions} {s s' : CacheState} {p : PageId}

/-! ## Nothing is lost -/

/-- An eviction that leaves the cache finds room in the queue. -/
def QueueHasRoom (s : CacheState) : Act → Prop
  | .leave _ => s.mgr.reapQueue.length < reapQueueCap
  | _ => True

instance (a : Act) : Decidable (s.QueueHasRoom a) :=
  match a with
  | .leave _ => inferInstanceAs (Decidable (_ < _))
  | .put .. | .scheduleFill .. | .getBytes .. | .delete .. | .invalidate .. | .onFileOpen ..
  | .run .. | .evict .. | .reap | .advance .. | .restart => isTrue trivial

def DeletesSucceed (s : CacheState) : Act → Prop
  | .run i ok _ => ∀ t ∈ s.tasks[i]?, t.erasing = true → ok = true
  | _ => True

instance (a : Act) : Decidable (s.DeletesSucceed a) :=
  match a with
  | .run _ _ _ => inferInstanceAs (Decidable (∀ _ ∈ _, _ → _))
  | .put .. | .scheduleFill .. | .getBytes .. | .delete .. | .invalidate .. | .onFileOpen ..
  | .evict .. | .leave .. | .reap | .advance .. | .restart => isTrue trivial

def Diligent (o : CacheManagerOptions) (s : CacheState) (a : Act) : Prop :=
  s.ReapsFree o a ∧ s.QueueHasRoom a ∧ s.DeletesSucceed a

instance (a : Act) : Decidable (s.Diligent o a) := inferInstanceAs (Decidable (_ ∧ _ ∧ _))

/-- The page is resident, or its eviction is on the way to the reaper. -/
def Kept (o : CacheManagerOptions) (s : CacheState) (p : PageId) : Prop :=
  (∃ e, s.mgr.caches (o.allocate p.fileId) p = some e) ∨ ⟨p, o.allocate p.fileId⟩ ∈ s.mgr.pending ∨
    ∃ t ∈ s.tasks, t.unlists = some ⟨p, o.allocate p.fileId⟩

structure Accounted (o : CacheManagerOptions) (s : CacheState) : Prop where
  admitted : ∀ t ∈ s.tasks, ∀ p, t.admitting = some p → s.Kept o p
  listed : ∀ p, s.mgr.Listed p → s.Kept o p ∨ ∃ t ∈ s.tasks, t.removal = some (p, .index)
  files : ∀ p fill, s.mgr.page (o.allocate p.fileId) p = some fill →
    s.Kept o p ∨ ∃ t ∈ s.tasks, t.owning = some p
  labels : ∀ p fill permit id, .put p fill permit (.identity id) ∈ s.tasks → s.mgr.Listed p
  sidecars : ∀ f id, s.mgr.identity (o.allocate f) f = some id →
    (∃ p, p.fileId = f ∧ s.mgr.Listed p) ∨ ∃ t ∈ s.tasks, t.sweeping = some f

theorem accounted_fresh : Accounted o (fresh o) where
  admitted := by intro t ht; cases ht
  listed := by intro p hp; cases hp
  files := by intro p fill hp; cases hp
  labels := by intro p fill permit id ht; cases ht
  sidecars := by intro f id hid; cases hid

section Next

variable {i : Nat} {t : Task} {ok : Bool} {order : List Nat} {p : PageId} {fill : Fill}
  {id : FileIdentity} {u : Task}

theorem Kept.next (h : s.Kept o p) (ok : Bool) (order : List Nat) (hi : s.tasks[i]? = some t) :
    (s.moved o ok order i t).Kept o p ∨ (t.next o ok order s.mgr).2.removal = some (p, .index) ∨
      t.unlists = some ⟨p, o.allocate p.fileId⟩ := by
  have heff := next_effect o ok order s.mgr t
  obtain ⟨e, he⟩ | hpending | hreap := h
  · cases hnew : (t.next o ok order s.mgr).1.caches (o.allocate p.fileId) p with
    | some e' => exact .inl (.inl ⟨e', hnew⟩)
    | none => exact .inr (.inl (next_dropped he hnew))
  · refine .inl (.inr (.inl ?_))
    show _ ∈ (t.next o ok order s.mgr).1.pending
    rw [heff.pending]
    exact hpending
  · by_cases ht : t.unlists = some ⟨p, o.allocate p.fileId⟩
    · exact .inr (.inr ht)
    · exact .inl (.inr (.inr (exists_mem_set hi hreap (fun h => absurd h ht) fun _ h => h)))

theorem Waits.not_unlists (h : Waits o s t) (hu : u ∈ s.tasks) (hw : u.writing = some p) (dir : Nat) :
    t.unlists ≠ some ⟨p, dir⟩ := by
  intro hr
  refine ((h _ hr).2 u hu).1 ?_
  rw [hw, map_some]

theorem Sane.not_removing (h : Sane o s) (hi : s.tasks[i]? = some t) (hen : s.Enabled o t order)
    {j : Nat} (hj : s.tasks[j]? = some u) (hji : j ≠ i) (hu : u.writing = some p) :
    (t.next o ok order s.mgr).2.removal ≠ some (p, .index) := by
  intro hr
  obtain hw | hacq := next_writing (writing_of_removal hr rfl)
  · exact h.not_writing hi hj hji (.inl hu) hw
  · refine (hen.1 p hacq u (mem_of_getElem? hj)).1 ?_
    rw [hu, map_some]

variable (h : Accounted o s)
include h

theorem Accounted.admitted_next (hsane : Sane o s) (hi : s.tasks[i]? = some t)
    (hen : s.Enabled o t order) (hwaits : Waits o s t) (hu : u ∈ (s.moved o ok order i t).tasks)
    (hadm : u.admitting = some p) : (s.moved o ok order i t).Kept o p := by
  obtain rfl | ⟨j, hji, hj⟩ := eq_or_other_of_mem_set hu
  · obtain hold | ⟨fill, permit, rfl⟩ := admitting_of_next hadm
    · obtain hkept | hr | hr := (h.admitted t (mem_of_getElem? hi) p hold).next ok order hi
      · exact hkept
      · cases (removal_of_admitting hadm).symm.trans hr
      · cases unlists_eq hr
        cases hold
    · exact .inl ⟨_, if_pos ⟨rfl, rfl⟩⟩
  · have hmem : u ∈ s.tasks := mem_of_getElem? hj
    obtain hkept | hr | hr := (h.admitted u hmem p hadm).next ok order hi
    · exact hkept
    · exact absurd hr (hsane.not_removing hi hen hj hji (writing_of_admitting hadm))
    · exact absurd hr (hwaits.not_unlists hmem (writing_of_admitting hadm) _)

theorem Accounted.listed_next (hi : s.tasks[i]? = some t)
    (hp : (s.moved o ok order i t).mgr.Listed p) : (s.moved o ok order i t).Kept o p ∨
      ∃ u ∈ (s.moved o ok order i t).tasks, u.removal = some (p, .index) := by
  have heff := next_effect o ok order s.mgr t
  have hkeep : s.Kept o p → t.unlists ≠ some ⟨p, o.allocate p.fileId⟩ →
      (s.moved o ok order i t).Kept o p ∨
        ∃ u ∈ (s.moved o ok order i t).tasks, u.removal = some (p, .index) := by
    intro hkept hne
    obtain hkept' | hr | hr := hkept.next ok order hi
    · exact .inl hkept'
    · exact .inr ⟨_, mem_set_self hi, hr⟩
    · exact absurd hr hne
  obtain hiff | ⟨fill, permit, id, rfl, -⟩ | ⟨-, hno⟩ := heff.listed p
  · have hunlisted : t.removal ≠ some (p, .index) ∧ ∀ dir, t.unlists ≠ some ⟨p, dir⟩ := by
      refine ⟨fun hr => ?_, fun dir hr => ?_⟩
      · obtain ⟨hm, -⟩ := removal_forward o ok order s.mgr hr
        have hp' : (t.next o ok order s.mgr).1.Listed p := hp
        rw [hm, removedStep_listed] at hp'
        exact hp'.1 ⟨rfl, rfl⟩
      · cases unlists_eq hr
        exact ((reapOneStep_listed _ _ _).1 hp).1 ⟨rfl, rfl⟩
    obtain hkept | hr := h.listed p (hiff.1 hp)
    · exact hkeep hkept (hunlisted.2 _)
    · exact .inr (exists_mem_set hi hr (fun hr => absurd hr hunlisted.1) fun _ hr => hr)
  · exact hkeep (h.admitted _ (mem_of_getElem? hi) p rfl) (by simp [unlists])
  · exact absurd hp hno

theorem Accounted.files_next (hplaced : Placed o s) (hi : s.tasks[i]? = some t)
    (hok : t.erasing = true → ok = true)
    (hp : (s.moved o ok order i t).mgr.page (o.allocate p.fileId) p = some fill) :
    (s.moved o ok order i t).Kept o p ∨
      ∃ u ∈ (s.moved o ok order i t).tasks, u.owning = some p := by
  have heff := next_effect o ok order s.mgr t
  by_cases hsame : s.mgr.page (o.allocate p.fileId) p = some fill
  · obtain hkept | ⟨u, hu, hown⟩ := h.files p fill hsame
    · obtain hkept' | hr | hr := hkept.next ok order hi
      · exact .inl hkept'
      · exact .inr ⟨_, mem_set_self hi, owning_of_removal hr⟩
      · cases unlists_eq hr
        exact .inr ⟨_, mem_set_self hi, rfl⟩
    · by_cases ht : t.owning = some p
      · have hdir : ∀ task pc, t = .reap task pc →
            task.dirIndex = o.allocate task.pageId.fileId := by
          rintro task pc rfl
          exact hplaced.reaping task pc (mem_of_getElem? hi)
        obtain hown' | hres | hnone := next_owning order s.mgr ht hok hdir
        · exact .inr ⟨_, mem_set_self hi, hown'⟩
        · exact .inl (.inl hres)
        · cases hp.symm.trans hnone
      · exact .inr (exists_mem_set hi ⟨u, hu, hown⟩ (fun h => absurd h ht) fun _ h => h)
  · obtain heq | ⟨-, hnone⟩ | ⟨fill', permit, rfl, -, -⟩ := heff.page (o.allocate p.fileId) p
    · exact absurd (heq.symm.trans hp) hsame
    · cases hp.symm.trans hnone
    · cases ok with
      | false => exact absurd hp hsame
      | true => exact .inr ⟨_, mem_set_self hi, rfl⟩

theorem Accounted.labels_next (hsane : Sane o s) (hi : s.tasks[i]? = some t) (hwaits : Waits o s t)
    {permit : Bool} (hmem : .put p fill permit (.identity id) ∈ (s.moved o ok order i t).tasks) :
    (s.moved o ok order i t).mgr.Listed p := by
  obtain heq | ⟨j, hji, hj⟩ := eq_or_other_of_mem_set hmem
  · obtain ⟨pc, rfl, hpc⟩ := next_put heq.symm
    obtain rfl := putStep_eq_identity hpc
    exact (putStep_listed _ _ _ _).2 (.inl ⟨rfl, _, rfl⟩)
  · have heff := next_effect o ok order s.mgr t
    have hold : s.mgr.Listed p := h.labels p fill permit id (mem_of_getElem? hj)
    obtain hiff | ⟨fill', permit', id', -, hl⟩ | ⟨hr | ⟨dir, rfl⟩, -⟩ := heff.listed p
    · exact hiff.2 hold
    · exact hl
    · exact absurd (writing_of_removal hr rfl) (hsane.not_writing hi hj hji (.inl rfl))
    · exact absurd rfl (hwaits.not_unlists (mem_of_getElem? hj) rfl dir)

theorem Accounted.sidecars_next (hsane : Sane o s) (hplaced : Placed o s) (hindexed : Indexed s)
    (hi : s.tasks[i]? = some t) (hok : t.erasing = true → ok = true) {f : String}
    (hid : (s.moved o ok order i t).mgr.identity (o.allocate f) f = some id) :
    (∃ p, p.fileId = f ∧ (s.moved o ok order i t).mgr.Listed p) ∨
      ∃ u ∈ (s.moved o ok order i t).tasks, u.sweeping = some f := by
  have heff := next_effect o ok order s.mgr t
  obtain heq | hnone | ⟨p, fill, permit, id', rfl, rfl, -, -⟩ := heff.identity (o.allocate f) f
  · obtain ⟨p, rfl, hp⟩ | ⟨u, hu, hsweep⟩ := h.sidecars f id (heq.symm.trans hid)
    · obtain hiff | ⟨fill, permit, id', -, hl⟩ | ⟨hr, -⟩ := heff.listed p
      · exact .inl ⟨p, rfl, hiff.2 hp⟩
      · exact .inl ⟨p, rfl, hl⟩
      · obtain hsweep | ⟨q, hq, hl⟩ := next_unlisted o ok order hp hr
        · exact .inr ⟨_, mem_set_self hi, hsweep⟩
        · exact .inl ⟨q, hq, hl⟩
    · by_cases ht : t.sweeping = some f
      · have hdir : ∀ task pc, t = .reap task pc →
            task.dirIndex = o.allocate task.pageId.fileId := by
          rintro task pc rfl
          exact hplaced.reaping task pc (mem_of_getElem? hi)
        obtain hsweep' | hnone | ⟨task, rfl, hf, hc⟩ :=
          next_sweeping order s.mgr ht hok hdir
        · exact .inr ⟨_, mem_set_self hi, hsweep'⟩
        · cases hid.symm.trans hnone
        · -- the reaper finds its page resident, and holds its lock, so the page is listed
          obtain ⟨e, he⟩ := isSome_iff_exists.1 hc
          have hl : s.mgr.Listed task.pageId := by
            refine (hindexed _ _ e he).resolve_right ?_
            rintro ⟨u, hu, hadm⟩
            obtain ⟨j, hj⟩ := getElem?_of_mem hu
            have hji : j ≠ i := by
              rintro rfl
              rw [hi] at hj
              cases hj
              cases hadm
            exact hsane.not_writing hi hj hji (.inl (writing_of_admitting hadm)) rfl
          exact .inl ⟨task.pageId, hf, (reapOneStep_listed _ _ _).2 ⟨by simp, hl⟩⟩
      · exact .inr (exists_mem_set hi ⟨u, hu, hsweep⟩ (fun h => absurd h ht) fun _ h => h)
  · cases hid.symm.trans hnone
  · have hl : s.mgr.Listed p := h.labels p fill permit id' (mem_of_getElem? hi)
    exact .inl ⟨p, rfl, (putStep_listed _ _ _ _).2 (.inr hl)⟩

theorem Accounted.next (hsane : Sane o s) (hplaced : Placed o s) (hindexed : Indexed s)
    (hi : s.tasks[i]? = some t) (hen : s.Enabled o t order) (hwaits : Waits o s t)
    (hok : t.erasing = true → ok = true) : Accounted o (s.moved o ok order i t) where
  admitted _ hu _ := h.admitted_next hsane hi hen hwaits hu
  listed _ := h.listed_next hi
  files _ _ := h.files_next hplaced hi hok
  labels _ _ _ _ := h.labels_next hsane hi hwaits
  sidecars _ _ := h.sidecars_next hsane hplaced hindexed hi hok

end Next

theorem Kept.mono (h : s.Kept o p)
    (hcaches : ∀ e, s.mgr.caches (o.allocate p.fileId) p = some e →
      (∃ e', s'.mgr.caches (o.allocate p.fileId) p = some e') ∨
        ⟨p, o.allocate p.fileId⟩ ∈ s'.mgr.pending)
    (hpending : ∀ task ∈ s.mgr.pending, task ∈ s'.mgr.pending ∨ .reap task .index ∈ s'.tasks)
    (hold : ∀ t ∈ s.tasks, t ∈ s'.tasks) : s'.Kept o p := by
  obtain ⟨e, he⟩ | hp | ⟨t, ht, hu⟩ := h
  · exact (hcaches e he).imp_right .inl
  · exact .inr ((hpending _ hp).imp_right fun hr => ⟨_, hr, rfl⟩)
  · exact .inr (.inr ⟨t, hold t ht, hu⟩)

theorem Accounted.mono (h : Accounted o s)
    (hcaches : ∀ p e, s.mgr.caches (o.allocate p.fileId) p = some e →
      (∃ e', s'.mgr.caches (o.allocate p.fileId) p = some e') ∨
        ⟨p, o.allocate p.fileId⟩ ∈ s'.mgr.pending)
    (hdirs : s'.mgr.dirs = s.mgr.dirs) (hbyFile : s'.mgr.byFile = s.mgr.byFile)
    (hpending : ∀ task ∈ s.mgr.pending, task ∈ s'.mgr.pending ∨ .reap task .index ∈ s'.tasks)
    (hnew : ∀ t ∈ s'.tasks, t ∈ s.tasks ∨ t.Starts) (hold : ∀ t ∈ s.tasks, t ∈ s'.tasks) :
    Accounted o s' := by
  have hkept : ∀ p, s.Kept o p → s'.Kept o p :=
    fun p hp => hp.mono (hcaches p) hpending hold
  have hlisted : ∀ p, s'.mgr.Listed p ↔ s.mgr.Listed p := by
    intro p
    rw [Listed, hbyFile, Listed]
  refine ⟨?_, ?_, ?_, ?_, ?_⟩
  · intro t ht p hadm
    obtain ht | hstart := hnew t ht
    · exact hkept p (h.admitted t ht p hadm)
    · cases t with
      | put q fill permit pc => cases hstart; cases hadm
      | _ => cases hadm
  · intro p hp
    obtain hk | ⟨t, ht, hr⟩ := h.listed p ((hlisted p).1 hp)
    · exact .inl (hkept p hk)
    · exact .inr ⟨t, hold t ht, hr⟩
  · intro p fill hp
    rw [page, hdirs] at hp
    obtain hk | ⟨t, ht, hr⟩ := h.files p fill hp
    · exact .inl (hkept p hk)
    · exact .inr ⟨t, hold t ht, hr⟩
  · intro p fill permit id ht
    obtain ht | hstart := hnew _ ht
    · exact (hlisted p).2 (h.labels p fill permit id ht)
    · cases hstart
  · intro f id hid
    rw [identity, hdirs] at hid
    obtain ⟨p, hp, hl⟩ | ⟨t, ht, hr⟩ := h.sidecars f id hid
    · exact .inl ⟨p, hp, (hlisted p).2 hl⟩
    · exact .inr ⟨t, hold t ht, hr⟩

theorem caches_restore {m : LocalCacheManager} {dir : Nat} {fill : Fill} (hdir : dir < o.numDirs)
    (h : (restore o m).page dir p = some fill) : ∃ e, (restore o m).caches dir p = some e := by
  simp only [page, restore, if_pos hdir] at h
  simp only [restore, if_pos hdir, h, map_some]
  exact ⟨_, rfl⟩

theorem live_of_identity {fd : FileDir} {id : FileIdentity}
    (h : (restoreDir o fd).identity = some id) :
    ∃ i fill, (restoreDir o fd).pages.lookup i = some fill := by
  unfold restoreDir at h ⊢
  split at h
  · cases h
  · split at h
    · cases h
    · next hlive =>
      obtain ⟨⟨i, fill⟩, hmem⟩ := exists_mem_of_ne_nil _ hlive
      rw [if_neg hlive]
      exact ⟨i, fill, AList.mem_lookup_iff.2 hmem⟩

theorem accounted_restore (hplaced : Placed o s) : Accounted o ⟨restore o s.mgr, []⟩ where
  admitted := by intro t ht; cases ht
  listed := by
    intro p hp
    have hplaced' := hplaced.restore
    simp only [Listed, restore, mem_dedup, mem_flatMap, mem_range] at hp
    obtain ⟨dir, hdir, hkey⟩ := hp
    rw [← AList.mem_keys, ← AList.lookup_isSome, isSome_iff_exists] at hkey
    obtain ⟨fill, hfill⟩ := hkey
    have hpage : (restore o s.mgr).page dir p = some fill := hfill
    obtain rfl := hplaced'.pages dir p fill hpage
    exact .inl (.inl (caches_restore hdir hpage))
  files := by
    intro p fill hp
    exact .inl (.inl (caches_restore (o.allocate_lt p.fileId) hp))
  labels := by intro p fill permit id ht; cases ht
  sidecars := by
    intro f id hid
    simp only [identity, restore, if_pos (o.allocate_lt f)] at hid
    obtain ⟨i, fill, hfill⟩ := live_of_identity hid
    have hpage : (restore o s.mgr).page (o.allocate f) ⟨f, i⟩ = some fill := by
      simp only [page, restore, if_pos (o.allocate_lt f)]
      exact hfill
    obtain ⟨e, he⟩ := caches_restore (o.allocate_lt f) hpage
    exact .inl ⟨⟨f, i⟩, rfl, listed_restore he⟩

theorem Accounted.step (h : Accounted o s) (hsane : Sane o s) (hplaced : Placed o s)
    (hindexed : Indexed s) {a : Act} (hd : s.Diligent o a)
    (hs : CacheState.step o s a = some s') : Accounted o s' := by
  obtain ⟨hreaps, hroom, hdeletes⟩ := hd
  cases step_inv hs with
  | rejected => exact h
  | call ht hm _ _ =>
    refine h.mono (fun p e he => .inl ⟨e, hm.caches ▸ he⟩) hm.dirs hm.byFile ?_ ?_ ?_
    · intro task htask
      refine .inl ?_
      rw [pending, hm.leaving, hm.reapQueue]
      exact htask
    · intro u hu
      refine (mem_append.1 hu).imp_right fun hu => ?_
      exact mem_singleton.1 hu ▸ starts_of_call ht
    · exact fun u hu => mem_append.2 (.inl hu)
  | @run i ok order t hi hlive hen =>
    have hmoved : Accounted o (s.moved o ok order i t) :=
      h.next hsane hplaced hindexed hi hen (hreaps.waits hi) (hdeletes t hi)
    exact hmoved.mono (fun p e he => .inl ⟨e, he⟩) rfl rfl (fun _ ht => .inl ht)
      (fun _ ht => .inl ht) fun _ ht => ht
  | @evict dir p e he =>
    have hpending : (s.evict dir p).mgr.pending =
        (s.mgr.leaving ++ [⟨p, dir⟩]) ++ s.mgr.reapQueue := rfl
    refine h.mono (fun q e' he' => ?_) rfl rfl ?_ (fun _ ht => .inl ht) fun _ ht => ht
    · by_cases hq : o.allocate q.fileId = dir ∧ q = p
      · obtain ⟨rfl, rfl⟩ := hq
        rw [hpending]
        exact .inr (by simp)
      · exact .inl ⟨e', (if_neg hq).trans he'⟩
    · intro task htask
      rw [hpending]
      rw [pending] at htask
      refine .inl ?_
      simp only [mem_append] at htask ⊢
      exact htask.imp_left .inl
  | @leave i task hi =>
    refine h.mono (fun p e he => .inl ⟨e, he⟩) rfl rfl ?_ (fun _ ht => .inl ht) fun _ ht => ht
    intro task' htask'
    have hpending : (s.onLeave i task).mgr.pending =
        s.mgr.leaving.eraseIdx i ++ (s.mgr.reapQueue ++ [task]) :=
      congrArg (s.mgr.leaving.eraseIdx i ++ ·) (if_pos hroom)
    rw [hpending]
    refine .inl ?_
    obtain hl | hq := mem_append.1 htask'
    · obtain ⟨j, hj⟩ := getElem?_of_mem hl
      by_cases hji : j = i
      · subst hji
        cases hi.symm.trans hj
        simp
      · exact mem_append.2 (.inl (mem_eraseIdx_iff_getElem?.2 ⟨j, hji, hj⟩))
    · simp [hq]
  | @reap task rest hq =>
    refine h.mono (fun p e he => .inl ⟨e, he⟩) rfl rfl ?_ ?_ ?_
    · intro task' htask'
      have hpending : s.mgr.pending = s.mgr.leaving ++ task :: rest :=
        congrArg (s.mgr.leaving ++ ·) hq
      rw [hpending] at htask'
      obtain hl | hl := mem_append.1 htask'
      · exact .inl (mem_append.2 (.inl hl))
      · obtain rfl | hl := mem_cons.1 hl
        · exact .inr (mem_append.2 (.inr mem_cons_self))
        · exact .inl (mem_append.2 (.inr hl))
    · intro u hu
      refine (mem_append.1 hu).imp_right fun hu => ?_
      cases mem_singleton.1 hu
      exact rfl
    · exact fun u hu => mem_append.2 (.inl hu)
  | advance =>
    exact h.mono (fun p e he => .inl ⟨e, he⟩) rfl rfl (fun _ ht => .inl ht)
      (fun _ ht => .inl ht) fun _ ht => ht
  | restart => exact accounted_restore hplaced

end CacheState

end GooseFS
