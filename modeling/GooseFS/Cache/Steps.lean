import GooseFS.Cache.Manager

/-!
# What a step of the cache manager touches

`Task.next_effect` lists what one step of a task can do to the manager.  The
frame lemmas after it are read off that list: an entry is admitted only by a put,
a page file is written only by a put, and entries and page files of a page change
only under the write lock of that page.  The index has no such rule, since the
reaper updates it outside the page lock.
-/

namespace GooseFS

open Lib Option LocalCacheManager

theorem PageId.eq_iff {p p' : PageId} :
    p' = p ↔ p'.fileId = p.fileId ∧ p'.pageIndex = p.pageIndex := by
  cases p; cases p'
  simp

namespace LocalCacheManager

variable (m : LocalCacheManager) (dir dir' : Nat) (p p' : PageId) (f f' : String)

@[simp] theorem setEntry_caches (e : Option PageInfo) : (m.setEntry dir p e).caches dir' p' =
    if dir' = dir ∧ p' = p then e else m.caches dir' p' := rfl

theorem contains_eq_false : m.contains dir p = false ↔ m.caches dir p = none := by
  rw [contains, isSome_eq_false_iff, isNone_iff_eq_none]

@[simp] theorem unindex_caches : (m.unindex p).1.caches = m.caches := by
  unfold unindex
  split <;> rfl

/-! ## Page files -/

theorem page_setDir (fd : FileDir) : (m.setDir dir f fd).page dir' p' =
    if dir' = dir ∧ p'.fileId = f then fd.pages.lookup p'.pageIndex else m.page dir' p' := by
  unfold page setDir
  by_cases hfile : dir' = dir ∧ p'.fileId = f
  · simp only [if_pos hfile]
  · simp only [if_neg hfile]

theorem page_setPages {pages : AList fun _ : Nat => Fill}
    (h : ∀ i, i ≠ p.pageIndex → pages.lookup i = (m.dirs dir p.fileId).pages.lookup i) :
    (m.setDir dir p.fileId { m.dirs dir p.fileId with pages }).page dir' p' =
      if dir' = dir ∧ p' = p then pages.lookup p.pageIndex else m.page dir' p' := by
  rw [page_setDir]
  by_cases hfile : dir' = dir ∧ p'.fileId = p.fileId
  · obtain ⟨rfl, hf⟩ := hfile
    by_cases hindex : p'.pageIndex = p.pageIndex
    · obtain rfl : p' = p := PageId.eq_iff.2 ⟨hf, hindex⟩
      simp
    · simp [PageId.eq_iff, hf, hindex, page, h]
  · rw [if_neg hfile, if_neg fun h => hfile ⟨h.1, congrArg PageId.fileId h.2⟩]

theorem page_writePage (fill : Fill) : (m.writePage dir p fill).page dir' p' =
    if dir' = dir ∧ p' = p then some fill else m.page dir' p' := by
  rw [writePage, page_setPages _ _ _ _ _ fun i hi => AList.lookup_insert_ne hi, AList.lookup_insert]

theorem page_deletePage : (m.deletePage dir p).page dir' p' =
    if dir' = dir ∧ p' = p then none else m.page dir' p' := by
  rw [deletePage, page_setPages _ _ _ _ _ fun i hi => AList.lookup_erase_ne hi, AList.lookup_erase]

theorem page_setDir_identity (id : Option FileIdentity) :
    (m.setDir dir f { m.dirs dir f with identity := id }).page dir' p' = m.page dir' p' := by
  rw [page_setDir]
  split
  case isTrue h =>
    obtain ⟨rfl, rfl⟩ := h
    rfl
  case isFalse => rfl

@[simp] theorem page_writeIdentity (id : FileIdentity) :
    (m.writeIdentity dir f id).page dir' p' = m.page dir' p' :=
  m.page_setDir_identity dir dir' p' f (some id)

@[simp] theorem page_deleteIdentity : (m.deleteIdentity dir f).page dir' p' = m.page dir' p' :=
  m.page_setDir_identity dir dir' p' f none

@[simp] theorem unindex_dirs : (m.unindex p).1.dirs = m.dirs := by
  unfold unindex
  split <;> rfl

@[simp] theorem page_unindex : (m.unindex p).1.page dir' p' = m.page dir' p' := by
  rw [page, unindex_dirs, page]

theorem identity_setDir (fd : FileDir) : (m.setDir dir f fd).identity dir' f' =
    if dir' = dir ∧ f' = f then fd.identity else m.identity dir' f' := by
  unfold identity setDir
  by_cases hfile : dir' = dir ∧ f' = f
  · simp only [if_pos hfile]
  · simp only [if_neg hfile]

theorem identity_setDir_pages (pages : AList fun _ : Nat => Fill) :
    (m.setDir dir f { m.dirs dir f with pages := pages }).identity dir' f' =
      m.identity dir' f' := by
  rw [identity_setDir]
  split
  case isTrue h =>
    obtain ⟨rfl, rfl⟩ := h
    rfl
  case isFalse => rfl

theorem listed_index : (m.index p).Listed p' ↔ p' = p ∨ m.Listed p' := by
  unfold Listed index setIndex
  by_cases hf : p'.fileId = p.fileId
  · by_cases hl : m.Listed p
    · simp only [hf, if_true, if_pos hl]
      refine ⟨.inr, fun h => h.elim (fun h => ?_) id⟩
      exact h ▸ hl
    · simp only [hf, if_true, if_neg hl, List.mem_cons, PageId.eq_iff, true_and]
  · simp only [if_neg hf]
    exact ⟨.inr, fun h => h.resolve_left fun h => hf (congrArg PageId.fileId h)⟩

theorem listed_unindex : (m.unindex p).1.Listed p' ↔ p' ≠ p ∧ m.Listed p' := by
  unfold Listed unindex
  by_cases hf : p'.fileId = p.fileId
  · by_cases he : m.byFile p.fileId = []
    · simp [hf, he]
    · simp [he, hf, setIndex, PageId.eq_iff, and_comm]
  · have hne : p' ≠ p := fun h => hf (congrArg PageId.fileId h)
    split
    · exact ⟨fun h => ⟨hne, h⟩, fun h => h.2⟩
    · simp [setIndex, hf, hne]

end LocalCacheManager

namespace Task

variable {o : CacheManagerOptions} {ok : Bool} {order : List Nat} {m : LocalCacheManager}
  {f : String} {fill : Fill} {p : PageId} {pc : InvalidatePc} {r : RemovedPc} {t : Task}

/-! ## Removals

Four operations remove a page, and go through the same steps after its entry is
gone. -/

def invalidateRemoval (f : String) : InvalidatePc → Option (PageId × RemovedPc)
  | .deleting i (.removed pc) _ => some (⟨f, i⟩, pc)
  | _ => none

def removal : Task → Option (PageId × RemovedPc)
  | .get p _ _ (.expired pc) => some (p, pc)
  | .delete p (.removed pc) => some (p, pc)
  | .invalidate f pc => invalidateRemoval f pc
  | .onFileOpen f _ (.invalidate pc) => invalidateRemoval f pc
  | _ => none

theorem writing_of_invalidateRemoval (h : invalidateRemoval f pc = some (p, r))
    (hr : r.finished = false) : invalidating f pc = some p := by
  unfold invalidateRemoval at h
  split at h
  · cases h
    simp [invalidating, DeletePc.locked, DeletePc.finished, hr]
  · cases h

theorem writing_of_removal (h : t.removal = some (p, r)) (hr : r.finished = false) :
    t.writing = some p := by
  unfold removal at h
  split at h
  · cases h
    simp [writing, hr]
  · cases h
    simp [writing, DeletePc.locked, DeletePc.finished, hr]
  · exact writing_of_invalidateRemoval h hr
  · exact writing_of_invalidateRemoval h hr
  · cases h

/-! ## The effect of a step -/

/-- What a step of `t` can do to the manager. -/
inductive Effect (o : CacheManagerOptions) (ok : Bool) (m : LocalCacheManager) (t : Task) :
    LocalCacheManager → Prop
  | none : Effect o ok m t m
  | put {p : PageId} {fill : Fill} {permit : Bool} {pc : PutPc} :
    t = .put p fill permit pc → Effect o ok m t (putStep o ok p fill m pc).1
  | drop {p : PageId} :
    t.writing = some p → Effect o ok m t (m.setEntry (o.allocate p.fileId) p none)
  | removed {p : PageId} {pc : RemovedPc} :
    t.removal = some (p, pc) → Effect o ok m t (removedStep o ok p m pc).1
  | reap {task : ReapTask} {pc : ReapPc} :
    t = .reap task pc → Effect o ok m t (reapOneStep ok task m pc).1
  | opened {f : String} {id : FileIdentity} {pc : OpenPc} :
    t = .onFileOpen f id pc → m.versions f = some id → Effect o ok m t (m.setWindow f (some id))
  | recorded {f : String} {id : FileIdentity} {pc : OpenPc} :
    t = .onFileOpen f id pc → pc = .setVersion ∨ m.versions f = .none →
      Effect o ok m t ((m.setVersion f id).setWindow f (some id))

theorem invalidateStep_effect (hw : t.writing = invalidating f pc)
    (hr : t.removal = invalidateRemoval f pc) :
    Effect o ok m t (invalidateStep o ok f order m pc).1 := by
  cases pc with
  | snapshot | done => exact .none
  | deleting i pc rest =>
    cases pc with
    | lock | missing => exact .none
    | removed r => exact .removed hr
    | remove =>
      simp only [invalidateStep, deleteStep]
      split
      · exact .drop hw
      · exact .none

theorem next_effect (o : CacheManagerOptions) (ok : Bool) (order : List Nat)
    (m : LocalCacheManager) (t : Task) : Effect o ok m t (t.next o ok order m).1 := by
  cases t with
  | put p fill permit pc => exact .put rfl
  | reap task pc => exact .reap rfl
  | get p offset len pc =>
    cases pc with
    | lookup | read info | expireLookup =>
      simp only [next, getStep]
      split <;> exact .none
    | expireRemove => exact .drop rfl
    | expired pc => exact .removed rfl
    | lock | ret bytes source | expireLock | done => exact .none
  | delete p pc =>
    cases pc with
    | lock | missing => exact .none
    | removed pc => exact .removed rfl
    | remove =>
      simp only [next, deleteStep]
      split
      · exact .drop rfl
      · exact .none
  | invalidate f pc => exact invalidateStep_effect rfl rfl
  | onFileOpen f id pc =>
    cases pc with
    | check =>
      simp only [next, onFileOpenStep]
      split
      · split
        · next h heq => exact .opened rfl (heq ▸ h)
        · exact .none
      · exact .none
    | record =>
      simp only [next, onFileOpenStep]
      split
      · split
        · next h heq => exact .opened rfl (heq ▸ h)
        · exact .none
      · next h => exact .recorded rfl (.inr h)
    | invalidate pc => exact invalidateStep_effect rfl rfl
    | setVersion => exact .recorded rfl (.inl rfl)
    | done => exact .none

/-! ## Frame lemmas -/

theorem removedStep_caches (p : PageId) (r : RemovedPc) :
    (removedStep o ok p m r).1.caches = m.caches := by
  cases r with
  | index => exact m.unindex_caches p
  | store fileEmpty | identity => cases ok <;> rfl
  | done => rfl

variable (task : ReapTask)

theorem reapOneStep_caches (pc : ReapPc) : (reapOneStep ok task m pc).1.caches = m.caches := by
  cases pc with
  | index => exact m.unindex_caches task.pageId
  | store fileEmpty | identity => cases ok <;> rfl
  | lock fileEmpty | check fileEmpty | done => rfl

theorem putStep_caches (p : PageId) (fill : Fill) (pc : PutPc) :
    (putStep o ok p fill m pc).1.caches =
      if pc = .insert then (m.setEntry (o.allocate p.fileId) p (some ⟨m.now, fill⟩)).caches
      else m.caches := by
  cases pc with
  | store | identity id => cases ok <;> rfl
  | index id => cases id <;> rfl
  | _ => rfl

variable (q : PageId) {len offset : Nat}

theorem putStep_page (fill : Fill) (pc : PutPc) (dir : Nat) (p : PageId) :
    (putStep o ok q fill m pc).1.page dir p = m.page dir p ∨
      p = q ∧ pc = .store ∧ dir = o.allocate q.fileId ∧
        (putStep o ok q fill m pc).1.page dir p = some fill := by
  cases pc with
  | store =>
    cases ok with
    | false => exact .inl rfl
    | true =>
      have hpage := m.page_writePage (o.allocate q.fileId) dir q p fill
      by_cases h : dir = o.allocate q.fileId ∧ p = q
      · exact .inr ⟨h.2, rfl, h.1, hpage.trans (if_pos h)⟩
      · exact .inl (hpage.trans (if_neg h))
  | index id => cases id <;> exact .inl rfl
  | identity id =>
    cases ok with
    | false => exact .inl rfl
    | true => exact .inl (m.page_writeIdentity _ dir p _ id)
  | _ => exact .inl rfl

theorem deletePage_page (dir' dir : Nat) (p : PageId) :
    (if ok then m.deletePage dir' q else m).page dir p = m.page dir p ∨
      p = q ∧ dir = dir' ∧ (if ok then m.deletePage dir' q else m).page dir p = none := by
  cases ok with
  | false => exact .inl rfl
  | true =>
    have hpage := m.page_deletePage dir' dir q p
    by_cases h : dir = dir' ∧ p = q
    · exact .inr ⟨h.2, h.1, hpage.trans (if_pos h)⟩
    · exact .inl (hpage.trans (if_neg h))

theorem deleteIdentity_page (dir' : Nat) (f : String) (dir : Nat) (p : PageId) :
    (if ok then m.deleteIdentity dir' f else m).page dir p = m.page dir p := by
  cases ok with
  | false => rfl
  | true => exact m.page_deleteIdentity dir' dir p f

theorem removedStep_page (r : RemovedPc) (dir : Nat) (p : PageId) :
    (removedStep o ok q m r).1.page dir p = m.page dir p ∨
      p = q ∧ r.finished = false ∧ dir = o.allocate q.fileId ∧
        (removedStep o ok q m r).1.page dir p = none := by
  cases r with
  | index => exact .inl (m.page_unindex dir q p)
  | store fileEmpty =>
    exact (deletePage_page q _ dir p).imp_right fun ⟨hp, hdir, hnone⟩ => ⟨hp, rfl, hdir, hnone⟩
  | identity => exact .inl (deleteIdentity_page _ _ dir p)
  | done => exact .inl rfl

theorem reapOneStep_page (pc : ReapPc) (dir : Nat) (p : PageId) :
    (reapOneStep ok task m pc).1.page dir p = m.page dir p ∨
      p = task.pageId ∧ dir = task.dirIndex ∧ (∃ fileEmpty, pc = .store fileEmpty) ∧
        (reapOneStep ok task m pc).1.page dir p = none := by
  cases pc with
  | index => exact .inl (m.page_unindex dir task.pageId p)
  | store fileEmpty =>
    exact (deletePage_page task.pageId _ dir p).imp_right
      fun ⟨hp, hdir, hnone⟩ => ⟨hp, hdir, ⟨fileEmpty, rfl⟩, hnone⟩
  | identity => exact .inl (deleteIdentity_page _ _ dir p)
  | lock fileEmpty | check fileEmpty | done => exact .inl rfl

theorem putStep_listed (fill : Fill) (pc : PutPc) (p : PageId) :
    (putStep o ok q fill m pc).1.Listed p ↔ (p = q ∧ ∃ id, pc = .index id) ∨ m.Listed p := by
  cases pc with
  | index id => cases id <;> simp [putStep, listed_index]
  | store | identity id => cases ok <;> exact (or_iff_right (by simp)).symm
  | _ => exact (or_iff_right (by simp)).symm

theorem removedStep_listed (r : RemovedPc) (p : PageId) :
    (removedStep o ok q m r).1.Listed p ↔ ¬ (p = q ∧ r = .index) ∧ m.Listed p := by
  cases r with
  | index => simp [removedStep, listed_unindex]
  | store fileEmpty | identity => cases ok <;> exact (and_iff_right (by simp)).symm
  | done => exact (and_iff_right (by simp)).symm

theorem reapOneStep_listed (pc : ReapPc) (p : PageId) :
    (reapOneStep ok task m pc).1.Listed p ↔ ¬ (p = task.pageId ∧ pc = .index) ∧ m.Listed p := by
  cases pc with
  | index => simp [reapOneStep, listed_unindex]
  | store fileEmpty | identity => cases ok <;> exact (and_iff_right (by simp)).symm
  | _ => exact (and_iff_right (by simp)).symm

/-- The tables that only opens and the eviction change are the same. -/
structure SameTables (m m' : LocalCacheManager) : Prop where
  versions : m'.versions = m.versions
  window : m'.window = m.window
  leaving : m'.leaving = m.leaving
  reapQueue : m'.reapQueue = m.reapQueue

theorem SameTables.rfl : SameTables m m := ⟨Eq.refl _, Eq.refl _, Eq.refl _, Eq.refl _⟩

theorem SameTables.unindex (p : PageId) : SameTables m (m.unindex p).1 := by
  unfold LocalCacheManager.unindex
  split <;> exact ⟨Eq.refl _, Eq.refl _, Eq.refl _, Eq.refl _⟩

theorem putStep_sameTables (p : PageId) (fill : Fill) (pc : PutPc) :
    SameTables m (putStep o ok p fill m pc).1 := by
  cases pc with
  | store | identity id => cases ok <;> exact ⟨Eq.refl _, Eq.refl _, Eq.refl _, Eq.refl _⟩
  | index id => cases id <;> exact ⟨Eq.refl _, Eq.refl _, Eq.refl _, Eq.refl _⟩
  | insert => exact ⟨Eq.refl _, Eq.refl _, Eq.refl _, Eq.refl _⟩
  | _ => exact .rfl

theorem removedStep_sameTables (p : PageId) (r : RemovedPc) :
    SameTables m (removedStep o ok p m r).1 := by
  cases r with
  | index => exact .unindex p
  | store fileEmpty | identity => cases ok <;> exact ⟨Eq.refl _, Eq.refl _, Eq.refl _, Eq.refl _⟩
  | done => exact .rfl

theorem reapOneStep_sameTables (pc : ReapPc) : SameTables m (reapOneStep ok task m pc).1 := by
  cases pc with
  | index => exact .unindex task.pageId
  | store fileEmpty | identity => cases ok <;> exact ⟨Eq.refl _, Eq.refl _, Eq.refl _, Eq.refl _⟩
  | _ => exact .rfl

theorem putStep_identity (fill : Fill) (pc : PutPc) (dir : Nat) (f : String) :
    (putStep o ok q fill m pc).1.identity dir f = m.identity dir f ∨
      ∃ id, pc = .identity id ∧ f = q.fileId ∧ dir = o.allocate q.fileId ∧
        (putStep o ok q fill m pc).1.identity dir f = some id := by
  cases pc with
  | store =>
    cases ok with
    | false => exact .inl rfl
    | true => exact .inl (m.identity_setDir_pages _ dir _ f _)
  | index id => cases id <;> exact .inl rfl
  | identity id =>
    cases ok with
    | false => exact .inl rfl
    | true =>
      have hid := m.identity_setDir (o.allocate q.fileId) dir q.fileId f
        { m.dirs (o.allocate q.fileId) q.fileId with identity := some id }
      by_cases h : dir = o.allocate q.fileId ∧ f = q.fileId
      · exact .inr ⟨id, rfl, h.2, h.1, hid.trans (if_pos h)⟩
      · exact .inl (hid.trans (if_neg h))
  | _ => exact .inl rfl

theorem deletePage_identity (dir' dir : Nat) (f : String) :
    (if ok then m.deletePage dir' q else m).identity dir f = m.identity dir f := by
  cases ok with
  | false => rfl
  | true => exact m.identity_setDir_pages dir' dir q.fileId f _

theorem deleteIdentity_identity (dir' : Nat) (f' : String) (dir : Nat) (f : String) :
    (if ok then m.deleteIdentity dir' f' else m).identity dir f =
      if ok = true ∧ dir = dir' ∧ f = f' then none else m.identity dir f := by
  cases ok with
  | false => rfl
  | true =>
    simp only [true_and]
    exact m.identity_setDir dir' dir f' f { m.dirs dir' f' with identity := none }

theorem removedStep_identity (r : RemovedPc) (dir : Nat) (f : String) :
    (removedStep o ok q m r).1.identity dir f =
      if r = .identity ∧ ok = true ∧ dir = o.allocate q.fileId ∧ f = q.fileId then none
      else m.identity dir f := by
  cases r with
  | index =>
    rw [if_neg fun h => RemovedPc.noConfusion h.1]
    exact congrArg FileDir.identity (congrFun (congrFun (m.unindex_dirs q) dir) f)
  | store fileEmpty =>
    rw [if_neg fun h => RemovedPc.noConfusion h.1]
    exact deletePage_identity q _ dir f
  | identity =>
    simp only [true_and]
    exact deleteIdentity_identity _ _ dir f
  | done => rw [if_neg fun h => RemovedPc.noConfusion h.1, removedStep]

theorem reapOneStep_identity (pc : ReapPc) (dir : Nat) (f : String) :
    (reapOneStep ok task m pc).1.identity dir f =
      if pc = .identity ∧ ok = true ∧ dir = task.dirIndex ∧ f = task.pageId.fileId then none
      else m.identity dir f := by
  cases pc with
  | index =>
    rw [if_neg fun h => ReapPc.noConfusion h.1]
    exact congrArg FileDir.identity (congrFun (congrFun (m.unindex_dirs task.pageId) dir) f)
  | store fileEmpty =>
    rw [if_neg fun h => ReapPc.noConfusion h.1]
    exact deletePage_identity task.pageId _ dir f
  | identity =>
    simp only [true_and]
    exact deleteIdentity_identity _ _ dir f
  | lock fileEmpty | check fileEmpty
  | done => rw [if_neg fun h => ReapPc.noConfusion h.1, reapOneStep]

/-- The next step of the task may delete the file of `p` in `dir`. -/
def Deletes (o : CacheManagerOptions) (t : Task) (dir : Nat) (p : PageId) : Prop :=
  (∃ r, t.removal = some (p, r) ∧ r.finished = false ∧ dir = o.allocate p.fileId) ∨
    ∃ fileEmpty, t = .reap ⟨p, dir⟩ (.store fileEmpty)

theorem Deletes.writing {dir : Nat} (h : t.Deletes o dir p) : t.writing = some p := by
  obtain ⟨r, hr, hlive, -⟩ | ⟨fileEmpty, rfl⟩ := h
  · exact writing_of_removal hr hlive
  · rfl

namespace Effect

variable {t : Task} {m' : LocalCacheManager}

variable (h : Effect o ok m t m')
include h

theorem caches (dir : Nat) (p : PageId) : m'.caches dir p = m.caches dir p ∨
    t.writing = some p ∧ (m'.caches dir p = .none ∨ ∃ fill permit, t = .put p fill permit .insert ∧
      dir = o.allocate p.fileId ∧ m'.caches dir p = some ⟨m.now, fill⟩) := by
  cases h with
  | none | opened | recorded => exact .inl rfl
  | removed _ => exact .inl (by rw [removedStep_caches])
  | reap _ => exact .inl (by rw [reapOneStep_caches])
  | @drop q hq =>
    by_cases h : dir = o.allocate q.fileId ∧ p = q
    · exact .inr ⟨h.2 ▸ hq, .inl (if_pos h)⟩
    · exact .inl (if_neg h)
  | @put q fill permit pc ht =>
    rw [putStep_caches]
    by_cases hpc : pc = .insert
    · subst ht hpc
      by_cases h : dir = o.allocate q.fileId ∧ p = q
      · obtain ⟨rfl, rfl⟩ := h
        exact .inr ⟨rfl, .inr ⟨fill, permit, rfl, rfl, if_pos ⟨rfl, rfl⟩⟩⟩
      · exact .inl (if_neg h)
    · exact .inl (by rw [if_neg hpc])

theorem page (dir : Nat) (p : PageId) : m'.page dir p = m.page dir p ∨
    (t.Deletes o dir p ∧ m'.page dir p = .none) ∨ ∃ fill permit, t = .put p fill permit .store ∧
      dir = o.allocate p.fileId ∧ m'.page dir p = some fill := by
  cases h with
  | none | opened | recorded | drop _ => exact .inl rfl
  | @removed q r hr =>
    obtain heq | ⟨rfl, hlive, hdir, hnone⟩ := removedStep_page q r dir p
    · exact .inl heq
    · exact .inr (.inl ⟨.inl ⟨r, hr, hlive, hdir⟩, hnone⟩)
  | @reap task pc ht =>
    obtain heq | ⟨rfl, rfl, ⟨fileEmpty, rfl⟩, hnone⟩ := reapOneStep_page task pc dir p
    · exact .inl heq
    · exact .inr (.inl ⟨.inr ⟨fileEmpty, ht⟩, hnone⟩)
  | @put q fill permit pc ht =>
    obtain heq | ⟨rfl, rfl, hdir, hsome⟩ := putStep_page q fill pc dir p
    · exact .inl heq
    · exact .inr (.inr ⟨fill, permit, ht, hdir, hsome⟩)

theorem identity (dir : Nat) (f : String) :
    m'.identity dir f = m.identity dir f ∨ m'.identity dir f = .none ∨
    ∃ p fill permit id, t = .put p fill permit (.identity id) ∧ f = p.fileId ∧
      dir = o.allocate f ∧ m'.identity dir f = some id := by
  cases h with
  | none | opened | recorded | drop _ => exact .inl rfl
  | removed _ =>
    rw [removedStep_identity]
    split
    · exact .inr (.inl rfl)
    · exact .inl rfl
  | reap _ =>
    rw [reapOneStep_identity]
    split
    · exact .inr (.inl rfl)
    · exact .inl rfl
  | @put q fill permit pc ht =>
    obtain heq | ⟨id, rfl, rfl, hdir, hsome⟩ := putStep_identity q fill pc dir f
    · exact .inl heq
    · exact .inr (.inr ⟨q, fill, permit, id, ht, rfl, hdir, hsome⟩)

theorem listed (p : PageId) : (m'.Listed p ↔ m.Listed p) ∨
    (∃ fill permit id, t = .put p fill permit (.index id) ∧ m'.Listed p) ∨
    ((t.removal = some (p, .index) ∨ ∃ dir, t = .reap ⟨p, dir⟩ .index) ∧ ¬ m'.Listed p) := by
  cases h with
  | none | opened | recorded | drop _ => exact .inl Iff.rfl
  | @removed q r hr =>
    rw [removedStep_listed]
    by_cases h : p = q ∧ r = .index
    · obtain ⟨rfl, rfl⟩ := h
      exact .inr (.inr ⟨.inl hr, fun h => h.1 ⟨rfl, rfl⟩⟩)
    · exact .inl (and_iff_right h)
  | @reap task pc ht =>
    rw [reapOneStep_listed]
    by_cases h : p = task.pageId ∧ pc = .index
    · obtain ⟨rfl, rfl⟩ := h
      exact .inr (.inr ⟨.inr ⟨task.dirIndex, ht⟩, fun h => h.1 ⟨rfl, rfl⟩⟩)
    · exact .inl (and_iff_right h)
  | @put q fill permit pc ht =>
    rw [putStep_listed]
    by_cases h : p = q ∧ ∃ id, pc = .index id
    · obtain ⟨rfl, id, rfl⟩ := h
      exact .inr (.inl ⟨fill, permit, id, ht, .inl ⟨rfl, id, rfl⟩⟩)
    · exact .inl (or_iff_right h)

theorem tables : SameTables m m' ∨ ∃ f id pc, t = .onFileOpen f id pc ∧
    (m.versions f = some id ∨ pc = .setVersion ∨ m.versions f = .none) ∧
    m'.leaving = m.leaving ∧ m'.reapQueue = m.reapQueue ∧
    (∀ g, m'.versions g = if g = f then some id else m.versions g) ∧
    ∀ g, m'.window g = if g = f then some id else m.window g := by
  cases h with
  | none => exact .inl .rfl
  | drop _ => exact .inl ⟨rfl, rfl, rfl, rfl⟩
  | removed _ => exact .inl (removedStep_sameTables _ _)
  | reap _ => exact .inl (reapOneStep_sameTables _ _)
  | put _ => exact .inl (putStep_sameTables _ _ _)
  | @opened f id pc ht hv =>
    refine .inr ⟨f, id, pc, ht, .inl hv, rfl, rfl, fun g => ?_, fun g => rfl⟩
    by_cases hg : g = f
    · rw [if_pos hg, hg]
      exact hv
    · rw [if_neg hg]
      rfl
  | @recorded f id pc ht hpc =>
    exact .inr ⟨f, id, pc, ht, .inr hpc, rfl, rfl, fun g => rfl, fun g => rfl⟩

theorem tables_at (f : String) : (m'.versions f = m.versions f ∧ m'.window f = m.window f) ∨
    ∃ id pc, t = .onFileOpen f id pc ∧
      (m.versions f = some id ∨ pc = .setVersion ∨ m.versions f = .none) ∧
      m'.versions f = some id ∧ m'.window f = some id := by
  obtain hsame | ⟨g, id, pc, ht, hpc, -, -, hv, hw⟩ := h.tables
  · exact .inl ⟨congrFun hsame.versions f, congrFun hsame.window f⟩
  · by_cases hfg : f = g
    · subst hfg
      exact .inr ⟨id, pc, ht, hpc, (hv f).trans (if_pos rfl), (hw f).trans (if_pos rfl)⟩
    · exact .inl ⟨(hv f).trans (if_neg hfg), (hw f).trans (if_neg hfg)⟩

end Effect

/-! ## Locks and removals across a step -/

@[simp] theorem invalidating_next (f : String) (l : List Nat) :
    invalidating f (.next l) = none := by
  cases l <;> rfl

@[simp] theorem invalidateRemoval_next (f : String) (l : List Nat) :
    invalidateRemoval f (.next l) = none := by
  cases l <;> rfl

theorem invalidating_step (h : invalidating f (invalidateStep o ok f order m pc).2 = some p) :
    invalidating f pc = some p ∨ invalidateAcquires f pc = some p := by
  cases pc with
  | snapshot => simp [invalidateStep] at h
  | done => simp [invalidateStep, invalidating] at h
  | deleting i pc rest =>
    simp only [invalidateStep] at h
    split at h
    · simp at h
    · obtain ⟨hlocked, rfl⟩ : _ ∧ (⟨f, i⟩ : PageId) = p := by simpa [invalidating] using h
      cases pc with
      | lock => exact .inr rfl
      | remove => exact .inl rfl
      | missing => cases hlocked
      | removed r =>
        cases r with
        | done => cases hlocked
        | _ => exact .inl rfl

def onPage : Task → Option PageId
  | .put p _ _ _ => some p
  | .get p _ _ _ => some p
  | .delete p _ => some p
  | .reap task _ => some task.pageId
  | _ => none

theorem eq_of_writing {q : PageId} (hq : t.onPage = some q) (h : t.writing = some p) : p = q := by
  cases t with
  | put _ _ _ pc | reap _ pc => cases pc <;> cases h <;> exact some.inj hq
  | delete _ pc =>
    simp only [writing] at h
    split at h <;> cases h
    exact some.inj hq
  | get _ _ _ pc =>
    simp only [writing] at h
    split at h
    · exact some.inj (h ▸ hq)
    · exact some.inj (h ▸ hq)
    · split at h <;> cases h
      exact some.inj hq
    · cases h
  | invalidate _ _ | onFileOpen _ _ _ => cases hq

theorem next_writing (h : (t.next o ok order m).2.writing = some p) :
    t.writing = some p ∨ t.acquires = some p := by
  cases t with
  | put q fill permit pc =>
    obtain rfl := eq_of_writing rfl h
    cases pc with
    | start =>
      simp only [next, putStep] at h
      split at h <;> cases h
    | lock => exact .inr rfl
    | done result => cases h
    | _ => exact .inl rfl
  | get q offset len pc =>
    obtain rfl := eq_of_writing rfl h
    cases pc with
    | lookup | read info =>
      simp only [next, getStep] at h
      split at h
      · cases h
      · split at h <;> cases h
    | expireLock => exact .inr rfl
    | expireLookup | expireRemove => exact .inl rfl
    | expired r =>
      cases r with
      | done => cases h
      | _ => exact .inl rfl
    | _ => cases h
  | delete q pc =>
    obtain rfl := eq_of_writing rfl h
    cases pc with
    | lock => exact .inr rfl
    | remove => exact .inl rfl
    | missing => cases h
    | removed r =>
      cases r with
      | done => cases h
      | _ => exact .inl rfl
  | reap task pc =>
    obtain rfl := eq_of_writing rfl h
    cases pc with
    | lock fileEmpty => exact .inr rfl
    | check fileEmpty | store fileEmpty => exact .inl rfl
    | _ => cases h
  | invalidate f pc => exact invalidating_step h
  | onFileOpen f id pc =>
    cases pc with
    | check | record =>
      simp only [next, onFileOpenStep] at h
      split at h
      · split at h <;> cases h
      · cases h
    | invalidate pc =>
      simp only [next, onFileOpenStep] at h
      split at h
      · cases h
      · exact invalidating_step h
    | setVersion | done => cases h

theorem next_reading (h : (t.next o ok order m).2.reading = some p) :
    t.reading = some p ∨ t.acquiresRead = some p := by
  cases t with
  | get q offset len pc =>
    obtain rfl : q = p := by
      revert h
      simp only [next, reading]
      split <;> intro h <;> cases h <;> rfl
    cases pc with
    | lock => exact .inr rfl
    | lookup | read info => exact .inl rfl
    | expireLookup =>
      simp only [next, getStep] at h
      split at h
      · cases h
      · split at h <;> cases h
    | _ => cases h
  | _ => cases h

theorem invalidateRemoval_step
    (h : invalidateRemoval f (invalidateStep o ok f order m pc).2 = some (p, r)) :
    (∃ r₀, invalidateRemoval f pc = some (p, r₀) ∧ r = (removedStep o ok p m r₀).2) ∨
      r = .index ∧ invalidating f pc = some p ∧
        (invalidateStep o ok f order m pc).1 = m.setEntry (o.allocate p.fileId) p none := by
  cases pc with
  | snapshot => simp [invalidateStep] at h
  | done => simp [invalidateStep, invalidateRemoval] at h
  | deleting i pc rest =>
    simp only [invalidateStep] at h
    split at h
    · simp at h
    · cases pc with
      | lock | missing => cases h
      | removed r₀ =>
        cases h
        exact .inl ⟨r₀, rfl, rfl⟩
      | remove =>
        simp only [deleteStep] at h
        split at h
        · next hc =>
          cases h
          refine .inr ⟨rfl, rfl, ?_⟩
          simp only [invalidateStep, deleteStep, if_pos hc]
        · cases h

theorem next_removal (h : (t.next o ok order m).2.removal = some (p, r)) :
    (∃ r₀, t.removal = some (p, r₀) ∧ r = (removedStep o ok p m r₀).2) ∨
      r = .index ∧ t.writing = some p ∧
        (t.next o ok order m).1 = m.setEntry (o.allocate p.fileId) p none := by
  cases t with
  | put q fill permit pc | reap task pc => cases h
  | invalidate f pc => exact invalidateRemoval_step h
  | get q offset len pc =>
    cases pc with
    | lookup | read info | expireLookup =>
      simp only [next, getStep] at h
      split at h
      · cases h
      · split at h <;> cases h
    | expireRemove =>
      cases h
      exact .inr ⟨rfl, rfl, rfl⟩
    | expired r₀ =>
      cases h
      exact .inl ⟨r₀, rfl, rfl⟩
    | _ => cases h
  | delete q pc =>
    cases pc with
    | removed r₀ =>
      cases h
      exact .inl ⟨r₀, rfl, rfl⟩
    | remove =>
      simp only [next, deleteStep] at h
      split at h
      · next hc =>
        cases h
        refine .inr ⟨rfl, rfl, ?_⟩
        simp only [next, deleteStep, if_pos hc]
      · cases h
    | _ => cases h
  | onFileOpen f id pc =>
    cases pc with
    | check | record =>
      simp only [next, onFileOpenStep] at h
      split at h
      · split at h <;> cases h
      · cases h
    | invalidate pc =>
      simp only [next, onFileOpenStep] at h
      split at h
      · cases h
      · exact invalidateRemoval_step h
    | setVersion | done => cases h

/-! ## The task a step comes from -/

theorem next_put {permit : Bool} {pc' : PutPc}
    (h : (t.next o ok order m).2 = .put p fill permit pc') :
    ∃ pc, t = .put p fill permit pc ∧ (putStep o ok p fill m pc).2 = pc' := by
  cases t with
  | put q fill' permit' pc =>
    cases h
    exact ⟨pc, rfl, rfl⟩
  | _ => cases h

theorem putStep_eq_store {pc : PutPc} (h : (putStep o ok p fill m pc).2 = .store) :
    pc = .lookup ∧ m.caches (o.allocate p.fileId) p = none := by
  cases pc with
  | lookup =>
    simp only [putStep] at h
    split at h
    · cases h
    · next hc => exact ⟨rfl, (m.contains_eq_false _ p).1 (Bool.not_eq_true _ ▸ hc)⟩
  | start | recheck | readIndex =>
    simp only [putStep] at h
    split at h <;> cases h
  | store => cases ok <;> cases h
  | index id => cases id <;> cases h
  | _ => cases h

theorem putStep_eq_insert {pc : PutPc} (h : (putStep o ok p fill m pc).2 = .insert) :
    pc = .store ∧ ok = true := by
  cases pc with
  | store =>
    cases ok with
    | true => exact ⟨rfl, rfl⟩
    | false => cases h
  | start | lookup | recheck | readIndex =>
    simp only [putStep] at h
    split at h <;> cases h
  | index id => cases id <;> cases h
  | _ => cases h

theorem next_get {pc' : GetPc} (h : (t.next o ok order m).2 = .get p offset len pc') :
    ∃ pc, t = .get p offset len pc ∧ (getStep o ok p offset len m pc).2 = pc' := by
  cases t with
  | get q offset' len' pc =>
    cases h
    exact ⟨pc, rfl, rfl⟩
  | _ => cases h

theorem getStep_eq_read {pc : GetPc} {info : PageInfo}
    (h : (getStep o ok p offset len m pc).2 = .read info) :
    pc = .lookup ∧ m.caches (o.allocate p.fileId) p = some info := by
  cases pc with
  | lookup =>
    simp only [getStep] at h
    split at h
    · cases h
    · next hc =>
      split at h <;> cases h
      exact ⟨rfl, hc⟩
  | read info | expireLookup =>
    simp only [getStep] at h
    split at h
    · cases h
    · split at h <;> cases h
  | _ => cases h

theorem next_reap {task : ReapTask} {pc' : ReapPc} (h : (t.next o ok order m).2 = .reap task pc') :
    ∃ pc, t = .reap task pc ∧ (reapOneStep ok task m pc).2 = pc' := by
  cases t with
  | reap task' pc =>
    cases h
    exact ⟨pc, rfl, rfl⟩
  | _ => cases h

theorem reapOneStep_eq_store {task : ReapTask} {pc : ReapPc} {fileEmpty : Bool}
    (h : (reapOneStep ok task m pc).2 = .store fileEmpty) :
    pc = .check fileEmpty ∧ m.caches task.dirIndex task.pageId = none := by
  cases pc with
  | check fileEmpty =>
    simp only [reapOneStep] at h
    split at h <;> cases h
    next hc => exact ⟨rfl, (m.contains_eq_false _ _).1 (Bool.not_eq_true _ ▸ hc)⟩
  | store fileEmpty => cases fileEmpty <;> cases h
  | _ => cases h

end Task

end GooseFS
