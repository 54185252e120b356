import GooseFS.Cache.Invalidate

/-!
# Coherence with file identities

The window of a file is open from the return of an open until an open with another
identity starts.  While it is open, everything that is cached, being put or being
served for the file should have been fetched under its identity (`Current`).
While it is closed, the opens in flight get to every page that a get can still
serve (`Closed`).

The code does not see to all of this by itself.  A fill that was scheduled before
an open with another identity may finish after it, and is served then
(`late_fill_served`).  `Disciplined` is what the callers and the scheduler have to
keep: fills carry the identity of the open window, an open with another identity
starts when no put of the file and no other such open is in flight, and the reaper
unlists a page only while it is neither resident nor locked.
-/

namespace GooseFS

open Lib List Option

def OpenPc.Handles : OpenPc → Nat → Prop
  | .invalidate pc, i => pc.Handles i
  | .setVersion, _ => False
  | _, _ => True

namespace Task

variable {o : CacheManagerOptions} {ok : Bool} {order : List Nat} {m : LocalCacheManager}
  {f : String} {id : FileIdentity} {p : PageId} {t : Task} {fill : Fill} {pc' : OpenPc}

def serving : Task → Option (PageId × Fill)
  | .get p _ _ (.read info) => some (p, info.fill)
  | .get p _ _ (.ret _ (some fill)) => some (p, fill)
  | _ => none

def opening : Task → Option (String × FileIdentity)
  | .onFileOpen _ _ .done => none
  | .onFileOpen f id _ => some (f, id)
  | _ => none

theorem reading_of_serving (h : t.serving = some (p, fill)) : t.reading = some p := by
  unfold serving at h
  split at h <;> cases h <;> rfl

theorem removal_of_reading (h : t.reading = some p) : t.removal = none := by
  cases t with
  | get q offset len pc =>
    cases pc with
    | expired r => cases h
    | _ => rfl
  | _ => cases h

theorem writing_of_admitting (h : t.admitting = some p) : t.writing = some p := by
  unfold admitting at h
  split at h <;> first | exact h | cases h

theorem next_opening (h : (t.next o ok order m).2.opening = some (f, id)) :
    t.opening = some (f, id) := by
  cases t with
  | onFileOpen g id' pc =>
    have hid : (g, id') = (f, id) := by
      revert h
      simp only [next, opening]
      split <;> intro h
      · cases h
      · next heq =>
        cases heq
        exact some.inj h
      · next hne => exact absurd rfl (hne _ _ _)
    cases pc with
    | done => cases h
    | _ => exact congrArg some hid
  | _ => cases h

theorem next_open (h : (t.next o ok order m).2 = .onFileOpen f id pc') :
    ∃ pc, t = .onFileOpen f id pc ∧ (onFileOpenStep o ok f id order m pc).2 = pc' := by
  cases t with
  | onFileOpen g id' pc =>
    cases h
    exact ⟨pc, rfl, rfl⟩
  | _ => cases h

theorem onFileOpenStep_handles {pc : OpenPc} (h : (onFileOpenStep o ok f id order m pc).2 = pc') :
    (∃ ipc, pc = .invalidate ipc) ∨ ∀ i, pc'.Handles i := by
  subst h
  cases pc with
  | invalidate ipc => exact .inl ⟨ipc, rfl⟩
  | check | record =>
    refine .inr fun i => ?_
    simp only [onFileOpenStep]
    split
    · split <;> trivial
    · trivial
  | setVersion | done => exact .inr fun i => trivial

theorem next_opening_or_returns (h : t.opening = some (f, id)) :
    (t.next o ok order m).2.opening = some (f, id) ∨
      (t.next o ok order m).1.window f = some id := by
  cases t with
  | onFileOpen g id' pc =>
    cases pc with
    | done => cases h
    | check =>
      cases h
      simp only [next, onFileOpenStep]
      split
      · split
        · exact .inr (if_pos rfl)
        · exact .inl rfl
      · exact .inl rfl
    | record =>
      cases h
      simp only [next, onFileOpenStep]
      split
      · split
        · exact .inr (if_pos rfl)
        · exact .inl rfl
      · exact .inr (if_pos rfl)
    | invalidate pc =>
      cases h
      simp only [next, onFileOpenStep]
      split <;> exact .inl rfl
    | setVersion =>
      cases h
      exact .inr (if_pos rfl)
  | _ => cases h

theorem starts_serving (h : t.Starts) : t.serving = none := by
  cases t with
  | get p offset len pc => obtain rfl | rfl := h <;> rfl
  | _ => rfl

theorem next_serving (hout : Outline o m t) (h : (t.next o ok order m).2.serving = some (p, fill)) :
    t.serving = some (p, fill) ∨ t.reading = some p ∧
      ∃ info, m.caches (o.allocate p.fileId) p = some info ∧ info.fill = fill := by
  cases t with
  | get q offset len pc =>
    cases pc with
    | lookup =>
      simp only [next, getStep] at h
      split at h
      · cases h
      · next info hinfo =>
        split at h <;> cases h
        exact .inr ⟨rfl, info, hinfo, rfl⟩
    | read info =>
      simp only [next, getStep, hout.get_read q offset len info rfl] at h
      split at h <;> cases h
      exact .inl rfl
    | expireLookup =>
      simp only [next, getStep] at h
      split at h
      · cases h
      · split at h <;> cases h
    | _ => cases h
  | _ => cases h

end Task

namespace CacheState

open GooseFS.Task

variable {o : CacheManagerOptions} {s s' : CacheState} {f : String} {id : FileIdentity}
  {m : LocalCacheManager}

def FillsCurrent (s : CacheState) : Act → Prop
  | .put p fill => s.mgr.window p.fileId = some fill.origin
  | .scheduleFill p fill => s.mgr.window p.fileId = some fill.origin
  | _ => True

instance (a : Act) : Decidable (s.FillsCurrent a) := by
  cases a <;> unfold FillsCurrent <;> infer_instance

/-- An open that closes the window finds no put of the file in flight, and only
opens with its own identity. -/
def OpensAlone (s : CacheState) : Act → Prop
  | .onFileOpen f id => s.mgr.window f = some id ∨ ∀ t ∈ s.tasks,
    (∀ p ∈ t.putting, p.fileId ≠ f) ∧ ∀ x ∈ t.opening, x.1 = f → x.2 = id
  | _ => True

instance (a : Act) : Decidable (s.OpensAlone a) := by
  cases a <;> unfold OpensAlone <;> infer_instance

/-- The reaper unlists a page only while it is not resident and its lock is free. -/
def ReapsFree (o : CacheManagerOptions) (s : CacheState) (a : Act) : Prop :=
  ∀ task ∈ s.reaps a, s.mgr.contains task.dirIndex task.pageId = false ∧ ∀ t ∈ s.tasks,
    t.writing.map o.pageLockIndex ≠ some (o.pageLockIndex task.pageId) ∧
      t.reading.map o.pageLockIndex ≠ some (o.pageLockIndex task.pageId)

instance (a : Act) : Decidable (s.ReapsFree o a) :=
  inferInstanceAs (Decidable (∀ task ∈ s.reaps a, _))

def Disciplined (o : CacheManagerOptions) (s : CacheState) (a : Act) : Prop :=
  s.FillsCurrent a ∧ s.OpensAlone a ∧ s.ReapsFree o a ∧ a ≠ .restart

instance (a : Act) : Decidable (s.Disciplined o a) := inferInstanceAs (Decidable (_ ∧ _ ∧ _ ∧ _))

theorem ReapsFree.gone {a : Act} (h : s.ReapsFree o a) : s.ReapsGone a :=
  fun task ht => (h task ht).1

def Waits (o : CacheManagerOptions) (s : CacheState) (t : Task) : Prop :=
  ∀ task, t.unlists = some task → s.mgr.caches task.dirIndex task.pageId = none ∧ ∀ u ∈ s.tasks,
    u.writing.map o.pageLockIndex ≠ some (o.pageLockIndex task.pageId) ∧
      u.reading.map o.pageLockIndex ≠ some (o.pageLockIndex task.pageId)

theorem ReapsFree.waits {i : Nat} {ok : Bool} {order : List Nat} {t : Task}
    (h : s.ReapsFree o (.run i ok order)) (hi : s.tasks[i]? = some t) : Waits o s t := by
  intro task ht
  have hfree := h task (by rw [reaps, hi]; exact ht)
  exact ⟨(s.mgr.contains_eq_false _ _).1 hfree.1, hfree.2⟩

def Exposed (s : CacheState) (p : PageId) : Prop :=
  (∃ dir e, s.mgr.caches dir p = some e) ∨ ∃ t ∈ s.tasks, ∃ fill, t.serving = some (p, fill)

/-- Everything of `f` has the identity of its open window. -/
structure Current (s : CacheState) (f : String) (id : FileIdentity) : Prop where
  version : s.mgr.versions f = some id
  resident : ∀ dir p e, p.fileId = f → s.mgr.caches dir p = some e → e.fill.origin = id
  puts : ∀ p fill permit pc, .put p fill permit pc ∈ s.tasks → p.fileId = f →
    (Task.put p fill permit pc).putting = some p → fill.origin = id
  serving : ∀ t ∈ s.tasks, ∀ p fill, t.serving = some (p, fill) → p.fileId = f → fill.origin = id
  opens : ∀ t ∈ s.tasks, ∀ id', t.opening = some (f, id') → id' = id

/-- The window of `f` is closed, and the opens in flight get to every exposed page. -/
structure Closed (s : CacheState) (f : String) : Prop where
  noPuts : NoPuts f s
  opens : ∀ t ∈ s.tasks, ∀ id, t.opening = some (f, id) → s.mgr.versions f ≠ some id
  agree : ∀ t ∈ s.tasks, ∀ u ∈ s.tasks, ∀ id id', t.opening = some (f, id) →
    u.opening = some (f, id') → id' = id
  handles : ∀ id pc, .onFileOpen f id pc ∈ s.tasks → ∀ p, p.fileId = f → s.Exposed p →
    pc.Handles p.pageIndex
  unseen : s.mgr.versions f = none → ∀ p, p.fileId = f → ¬ s.Exposed p
  opened : s.mgr.versions f = none ∨ ∃ t ∈ s.tasks, ∃ id, t.opening = some (f, id)

structure Coherent (o : CacheManagerOptions) (s : CacheState) : Prop where
  sane : Sane o s
  placed : Placed o s
  indexed : Indexed s
  served : ∀ t ∈ s.tasks, ∀ p fill, t.serving = some (p, fill) → s.mgr.Listed p
  current : ∀ f id, s.mgr.window f = some id → Current s f id
  closed : ∀ f, s.mgr.window f = none → Closed s f

theorem coherent_fresh : Coherent o (fresh o) where
  sane := sane_fresh
  placed := placed_fresh
  indexed := by intro dir p e he; cases he
  served := by intro t ht; cases ht
  current := by intro f id h; cases h
  closed := by
    intro f _
    refine ⟨?_, ?_, ?_, ?_, ?_, .inl rfl⟩
    · intro t ht; cases ht
    · intro t ht; cases ht
    · intro t ht; cases ht
    · intro id pc ht; cases ht
    · rintro - p - (⟨dir, e, he⟩ | ⟨t, ht, -⟩)
      · cases he
      · cases ht

/-! ## Steps of a task -/

section Next

variable {i : Nat} {t : Task} {ok : Bool} {order : List Nat} {p : PageId}

theorem NoPuts.exposed_next (h : NoPuts f s) (hsane : Sane o s) (hi : s.tasks[i]? = some t)
    (hp : p.fileId = f) (hexp : (s.moved o ok order i t).Exposed p) : s.Exposed p := by
  obtain ⟨dir, e, he⟩ | ⟨u, hu, fill, hserving⟩ := hexp
  · exact .inl ⟨dir, e, h.caches_some ok order hi hp he⟩
  · obtain rfl | ⟨j, -, hj⟩ := eq_or_other_of_mem_set hu
    · obtain hold | ⟨-, info, hinfo, -⟩ := next_serving (hsane.outlines.get hi) hserving
      · exact .inr ⟨t, mem_of_getElem? hi, fill, hold⟩
      · exact .inl ⟨_, info, hinfo⟩
    · exact .inr ⟨u, mem_of_getElem? hj, fill, hserving⟩

/-- A page that a get has found stays listed: whoever unlists it would need its
lock, and the reaper waits for it. -/
theorem Coherent.served_next (h : Coherent o s) (hi : s.tasks[i]? = some t)
    (hwaits : Waits o s t) :
    ∀ u ∈ s.tasks.set i (t.next o ok order s.mgr).2, ∀ p fill, u.serving = some (p, fill) →
      (t.next o ok order s.mgr).1.Listed p := by
  intro u hu p fill hserving
  have heff := next_effect o ok order s.mgr t
  obtain rfl | ⟨j, hji, hj⟩ := eq_or_other_of_mem_set hu
  · have hmem : t ∈ s.tasks := mem_of_getElem? hi
    have hold : t.reading = some p ∧ s.mgr.Listed p := by
      obtain hold | ⟨hreading, info, hinfo, -⟩ := next_serving (h.sane.outlines.get hi) hserving
      · exact ⟨reading_of_serving hold, h.served t hmem p fill hold⟩
      · refine ⟨hreading, (h.indexed _ p info hinfo).resolve_right ?_⟩
        rintro ⟨u, hu, hadm⟩
        obtain ⟨j, hj⟩ := getElem?_of_mem hu
        have hij : i ≠ j := by
          rintro rfl
          rw [hi] at hj
          cases hj
          cases t <;> first | cases hreading | cases hadm
        exact h.sane.not_writing hj hi hij (.inr hreading) (writing_of_admitting hadm)
    obtain hiff | ⟨fill', permit, id, -, hl⟩ | ⟨hr | ⟨dir, rfl⟩, -⟩ := heff.listed p
    · exact hiff.2 hold.2
    · exact hl
    · rw [removal_of_reading hold.1] at hr
      cases hr
    · cases hold.1
  · have hold : s.mgr.Listed p := h.served u (mem_of_getElem? hj) p fill hserving
    have hreading : u.reading = some p := reading_of_serving hserving
    obtain hiff | ⟨fill', permit, id, -, hl⟩ | ⟨hr | ⟨dir, rfl⟩, -⟩ := heff.listed p
    · exact hiff.2 hold
    · exact hl
    · exact absurd (writing_of_removal hr rfl) (h.sane.not_writing hi hj hji (.inr hreading))
    · refine absurd ?_ ((hwaits _ rfl).2 u (mem_of_getElem? hj)).2
      rw [hreading, map_some]

theorem Current.next (h : Current s f id) (hsane : Sane o s) (hi : s.tasks[i]? = some t)
    (hversion : (t.next o ok order s.mgr).1.versions f = some id) :
    Current (s.moved o ok order i t) f id where
  version := hversion
  resident dir p e hp he := by
    have heff := next_effect o ok order s.mgr t
    obtain heq | ⟨-, hnone | ⟨fill, permit, rfl, -, hsome⟩⟩ := heff.caches dir p
    · exact h.resident dir p e hp (heq ▸ he)
    · rw [hnone] at he
      cases he
    · rw [hsome] at he
      cases he
      exact h.puts p fill permit .insert (mem_of_getElem? hi) hp rfl
  puts p fill permit pc hmem hp hputting := by
    obtain heq | ⟨j, -, hj⟩ := eq_or_other_of_mem_set hmem
    · obtain ⟨pc₀, rfl, -⟩ := next_put heq.symm
      rw [heq] at hputting
      exact h.puts p fill permit pc₀ (mem_of_getElem? hi) hp (next_putting hputting)
    · exact h.puts p fill permit pc (mem_of_getElem? hj) hp hputting
  serving u hu p fill hserving hp := by
    obtain rfl | ⟨j, -, hj⟩ := eq_or_other_of_mem_set hu
    · obtain hold | ⟨-, info, hinfo, rfl⟩ := next_serving (hsane.outlines.get hi) hserving
      · exact h.serving t (mem_of_getElem? hi) p fill hold hp
      · exact h.resident _ p info hp hinfo
    · exact h.serving u (mem_of_getElem? hj) p fill hserving hp
  opens u hu id' hopening := by
    obtain rfl | ⟨j, -, hj⟩ := eq_or_other_of_mem_set hu
    · exact h.opens t (mem_of_getElem? hi) id' (next_opening hopening)
    · exact h.opens u (mem_of_getElem? hj) id' hopening

variable (h : Closed s f) (hsane : Sane o s)
include h hsane

theorem Closed.returns {pc : OpenPc} (hi : s.tasks[i]? = some (.onFileOpen f id pc))
    (hpc : pc ≠ .done) (hdone : pc = .setVersion ∨ s.mgr.versions f = none)
    (hversion : (Task.next o ok order s.mgr (.onFileOpen f id pc)).1.versions f = some id) :
    Current (s.moved o ok order i (.onFileOpen f id pc)) f id := by
  have hmem : .onFileOpen f id pc ∈ s.tasks := mem_of_getElem? hi
  have hopening : (Task.onFileOpen f id pc).opening = some (f, id) := by
    cases pc with
    | done => exact absurd rfl hpc
    | _ => rfl
  have hnone : ∀ p, p.fileId = f → ¬ s.Exposed p := by
    intro p hp hexp
    obtain rfl | hv := hdone
    · exact h.handles id _ hmem p hp hexp
    · exact h.unseen hv p hp hexp
  have hnone' : ∀ p, p.fileId = f → ¬ (s.moved o ok order i (.onFileOpen f id pc)).Exposed p :=
    fun p hp hexp => hnone p hp (h.noPuts.exposed_next hsane hi hp hexp)
  refine ⟨hversion, ?_, ?_, ?_, ?_⟩
  · intro dir p e hp he
    exact absurd (.inl ⟨dir, e, he⟩) (hnone' p hp)
  · intro p fill permit pc' hput hp hputting
    have hnoPuts : NoPuts f (s.moved o ok order i (.onFileOpen f id pc)) := h.noPuts.next hi
    exact absurd hp (hnoPuts _ hput p hputting)
  · intro u hu p fill hserving hp
    exact absurd (.inr ⟨u, hu, fill, hserving⟩) (hnone' p hp)
  · intro u hu id' hu'
    obtain rfl | ⟨j, -, hj⟩ := eq_or_other_of_mem_set hu
    · exact h.agree _ hmem _ hmem id id' hopening (next_opening hu')
    · exact h.agree _ hmem u (mem_of_getElem? hj) id id' hopening hu'

theorem Closed.handles_invalidate (hplaced : Placed o s) (hindexed : Indexed s)
    (hserved : ∀ t ∈ s.tasks, ∀ p fill, t.serving = some (p, fill) → s.mgr.Listed p)
    {pc : InvalidatePc} (hi : s.tasks[i]? = some (.onFileOpen f id (.invalidate pc)))
    (hen : s.Enabled o (.onFileOpen f id (.invalidate pc)) order) (hp : p.fileId = f)
    (hexp : Exposed (s.moved o ok order i (.onFileOpen f id (.invalidate pc))) p) :
    (invalidateStep o ok f order s.mgr pc).2.Handles p.pageIndex := by
  refine invalidateStep_handles (fun k => s.Exposed ⟨f, k⟩)
    (fun k => Exposed (s.moved o ok order i (.onFileOpen f id (.invalidate pc))) ⟨f, k⟩)
    ?_ ?_ ?_ ?_ _ ?_
  · intro k hk
    exact h.noPuts.exposed_next hsane hi rfl hk
  · rintro rfl k hk
    have hlisted : s.mgr.Listed ⟨f, k⟩ := by
      obtain ⟨dir, e, he⟩ | ⟨u, hu, fill, hserving⟩ := hk
      · exact h.noPuts.listed hindexed rfl he
      · exact hserved u hu _ fill hserving
    exact (hen.2.2 f rfl).mem_iff.2 hlisted
  · rintro j rest rfl (⟨dir, e, he⟩ | ⟨u, hu, fill, hserving⟩)
    · have hdir : dir = o.allocate f :=
        hplaced.caches dir ⟨f, j⟩ e (h.noPuts.caches_some ok order hi rfl he)
      subst hdir
      cases he.symm.trans (invalidateStep_remove order rest)
    · -- a get that serves the page would hold its lock
      obtain rfl | ⟨k, hk, hj⟩ := eq_or_other_of_mem_set hu
      · cases hserving
      · exact hsane.not_writing hi hj hk (.inr (reading_of_serving hserving)) rfl
  · intro k hk
    exact h.handles id _ (mem_of_getElem? hi) ⟨f, k⟩ rfl hk
  · subst hp
    exact hexp

theorem Closed.next (hplaced : Placed o s) (hindexed : Indexed s)
    (hserved : ∀ t ∈ s.tasks, ∀ p fill, t.serving = some (p, fill) → s.mgr.Listed p)
    (hi : s.tasks[i]? = some t) (hen : s.Enabled o t order)
    (hversion : (t.next o ok order s.mgr).1.versions f = s.mgr.versions f)
    (hwindow : (t.next o ok order s.mgr).1.window f = none) :
    Closed (s.moved o ok order i t) f where
  noPuts := h.noPuts.next hi
  opens u hu id hopening := by
    show (t.next o ok order s.mgr).1.versions f ≠ some id
    rw [hversion]
    obtain rfl | ⟨j, -, hj⟩ := eq_or_other_of_mem_set hu
    · exact h.opens t (mem_of_getElem? hi) id (next_opening hopening)
    · exact h.opens u (mem_of_getElem? hj) id hopening
  agree := by
    have hback : ∀ u ∈ s.tasks.set i (t.next o ok order s.mgr).2, ∀ id,
        u.opening = some (f, id) → ∃ v ∈ s.tasks, v.opening = some (f, id) := by
      intro u hu id hopening
      obtain rfl | ⟨j, -, hj⟩ := eq_or_other_of_mem_set hu
      · exact ⟨t, mem_of_getElem? hi, next_opening hopening⟩
      · exact ⟨u, mem_of_getElem? hj, hopening⟩
    intro u hu v hv id id' hu' hv'
    obtain ⟨u₀, hu₀, hu₀'⟩ := hback u hu id hu'
    obtain ⟨v₀, hv₀, hv₀'⟩ := hback v hv id' hv'
    exact h.agree u₀ hu₀ v₀ hv₀ id id' hu₀' hv₀'
  handles id pc hmem p hp hexp := by
    have hexp₀ : s.Exposed p := h.noPuts.exposed_next hsane hi hp hexp
    obtain heq | ⟨j, -, hj⟩ := eq_or_other_of_mem_set hmem
    · obtain ⟨pc₀, rfl, hpc⟩ := next_open heq.symm
      obtain ⟨ipc, rfl⟩ | htrivial := onFileOpenStep_handles hpc
      · have hown := h.handles_invalidate hsane hplaced hindexed hserved hi hen hp hexp
        simp only [onFileOpenStep] at hpc
        split at hpc
        · next hdone =>
          rw [hdone] at hown
          exact hown.elim
        · exact hpc ▸ hown
      · exact htrivial p.pageIndex
    · exact h.handles id pc (mem_of_getElem? hj) p hp hexp₀
  unseen hv p hp hexp :=
    h.unseen (hversion ▸ hv) p hp (h.noPuts.exposed_next hsane hi hp hexp)
  opened := by
    obtain hv | hopen := h.opened
    · exact .inl (hversion.trans hv)
    · obtain ⟨u, hu, id, hopening⟩ := hopen
      refine .inr (exists_mem_set hi ⟨u, hu, id, hopening⟩ ?_ fun _ hv => hv)
      rintro ⟨id, hid⟩
      refine ⟨id, (next_opening_or_returns hid).resolve_right ?_⟩
      rw [hwindow]
      exact (some_ne_none id).symm

end Next

/-! ## Steps of the system -/

/-- A new task that is in order while the window of `f` is open. -/
structure Suits (f : String) (id : FileIdentity) (t : Task) : Prop where
  puts : ∀ p fill permit pc, t = .put p fill permit pc → t.putting = some p → p.fileId = f →
    fill.origin = id
  serving : t.serving = none
  opens : ∀ id', t.opening = some (f, id') → id' = id

/-- A new task that does not matter while the window of `f` is closed. -/
structure Idle (f : String) (t : Task) : Prop where
  puts : ∀ p, t.putting = some p → p.fileId ≠ f
  serving : t.serving = none
  opens : ∀ id pc, t ≠ .onFileOpen f id pc

theorem Current.mono (h : Current s f id) (hversion : s'.mgr.versions f = s.mgr.versions f)
    (hcaches : ∀ dir p e, s'.mgr.caches dir p = some e → s.mgr.caches dir p = some e)
    (hnew : ∀ t ∈ s'.tasks, t ∈ s.tasks ∨ Suits f id t) : Current s' f id where
  version := hversion.trans h.version
  resident dir p e hp he := h.resident dir p e hp (hcaches dir p e he)
  puts p fill permit pc hmem hp hputting := by
    obtain hold | hsuits := hnew _ hmem
    · exact h.puts p fill permit pc hold hp hputting
    · exact hsuits.puts p fill permit pc rfl hputting hp
  serving t ht p fill hserving hp := by
    obtain hold | hsuits := hnew t ht
    · exact h.serving t hold p fill hserving hp
    · rw [hsuits.serving] at hserving
      cases hserving
  opens t ht id' hopening := by
    obtain hold | hsuits := hnew t ht
    · exact h.opens t hold id' hopening
    · exact hsuits.opens id' hopening

theorem Exposed.mono {p : PageId} (h : s'.Exposed p)
    (hcaches : ∀ dir p e, s'.mgr.caches dir p = some e → s.mgr.caches dir p = some e)
    (hnew : ∀ t ∈ s'.tasks, t ∈ s.tasks ∨ t.serving = none) : s.Exposed p := by
  obtain ⟨dir, e, he⟩ | ⟨t, ht, fill, hserving⟩ := h
  · exact .inl ⟨dir, e, hcaches dir p e he⟩
  · obtain hold | hnone := hnew t ht
    · exact .inr ⟨t, hold, fill, hserving⟩
    · rw [hnone] at hserving
      cases hserving

theorem Closed.mono (h : Closed s f) (hversion : s'.mgr.versions f = s.mgr.versions f)
    (hcaches : ∀ dir p e, s'.mgr.caches dir p = some e → s.mgr.caches dir p = some e)
    (hnew : ∀ t ∈ s'.tasks, t ∈ s.tasks ∨ Idle f t) (hold : ∀ t ∈ s.tasks, t ∈ s'.tasks) :
    Closed s' f := by
  have hopening : ∀ t ∈ s'.tasks, ∀ id, t.opening = some (f, id) → t ∈ s.tasks := by
    intro t ht id hid
    refine (hnew t ht).resolve_right fun hidle => ?_
    cases t with
    | onFileOpen g id' pc =>
      cases pc with
      | done => cases hid
      | _ => cases hid; exact hidle.opens _ _ rfl
    | _ => cases hid
  have hexposed : ∀ p, s'.Exposed p → s.Exposed p :=
    fun p hp => hp.mono hcaches fun t ht => (hnew t ht).imp_right Idle.serving
  refine ⟨?_, ?_, ?_, ?_, ?_, ?_⟩
  · intro t ht p hp
    obtain hmem | hidle := hnew t ht
    · exact h.noPuts t hmem p hp
    · exact hidle.puts p hp
  · intro t ht id hid
    rw [hversion]
    exact h.opens t (hopening t ht id hid) id hid
  · intro t ht u hu id id' hid hid'
    exact h.agree t (hopening t ht id hid) u (hopening u hu id' hid') id id' hid hid'
  · intro id pc hmem p hp hexp
    obtain hmem | hidle := hnew _ hmem
    · exact h.handles id pc hmem p hp (hexposed p hexp)
    · exact absurd rfl (hidle.opens id pc)
  · intro hv p hp hexp
    exact h.unseen (hversion ▸ hv) p hp (hexposed p hexp)
  · obtain hv | ⟨t, ht, id, hid⟩ := h.opened
    · exact .inl (hversion.trans hv)
    · exact .inr ⟨t, hold t ht, id, hid⟩

section

variable (h : Coherent o s)
include h

theorem Coherent.closes (hm : SamePages s.mgr m) (hother : s.mgr.window f ≠ some id)
    (halone : ∀ t ∈ s.tasks, (∀ p ∈ t.putting, p.fileId ≠ f) ∧
      ∀ x ∈ t.opening, x.1 = f → x.2 = id) :
    Closed ⟨m, s.tasks ++ [.onFileOpen f id .check]⟩ f := by
  have hsame : ∀ t ∈ s.tasks, ∀ id', t.opening = some (f, id') → id' = id :=
    fun t ht id' hid => (halone t ht).2 (f, id') hid rfl
  have hsame' : ∀ t ∈ s.tasks ++ [Task.onFileOpen f id .check], ∀ id',
      t.opening = some (f, id') → id' = id := by
    intro t ht id' hid
    obtain ht | ht := mem_append.1 ht
    · exact hsame t ht id' hid
    · cases mem_singleton.1 ht
      cases hid
      rfl
  have hversion : s.mgr.versions f ≠ some id := by
    cases hw : s.mgr.window f with
    | some id₁ =>
      rw [(h.current f id₁ hw).version]
      exact fun heq => hother (hw.trans heq)
    | none =>
      obtain hv | ⟨t, ht, id₂, hid⟩ := (h.closed f hw).opened
      · rw [hv]
        exact (some_ne_none id).symm
      · exact hsame t ht id₂ hid ▸ (h.closed f hw).opens t ht id₂ hid
  have hexposed : ∀ p, Exposed ⟨m, s.tasks ++ [.onFileOpen f id .check]⟩ p → s.Exposed p := by
    intro p hp
    refine hp.mono (fun dir p e he => hm.caches ▸ he) fun t ht => ?_
    obtain ht | ht := mem_append.1 ht
    · exact .inl ht
    · cases mem_singleton.1 ht
      exact .inr rfl
  refine ⟨?_, ?_, ?_, ?_, ?_, .inr ⟨_, mem_append.2 (.inr mem_cons_self), id, rfl⟩⟩
  · intro t ht p hp
    obtain ht | ht := mem_append.1 ht
    · exact (halone t ht).1 p hp
    · cases mem_singleton.1 ht
      cases hp
  · intro t ht id' hid
    rw [hsame' t ht id' hid, hm.versions]
    exact hversion
  · intro t ht u hu id₁ id₂ hid₁ hid₂
    rw [hsame' t ht id₁ hid₁, hsame' u hu id₂ hid₂]
  · intro id' pc hmem p hp hexp
    obtain hmem | hmem := mem_append.1 hmem
    · cases hw : s.mgr.window f with
      | none => exact (h.closed f hw).handles id' pc hmem p hp (hexposed p hexp)
      | some id₁ =>
        -- an open in flight would have both identities
        cases pc with
        | done => trivial
        | _ =>
          have h₁ := (h.current f id₁ hw).opens _ hmem id' rfl
          have h₂ := hsame _ hmem id' rfl
          exact absurd (hw.trans (congrArg some (h₁.symm.trans h₂))) hother
    · cases mem_singleton.1 hmem
      trivial
  · intro hv p hp hexp
    rw [hm.versions] at hv
    cases hw : s.mgr.window f with
    | none => exact (h.closed f hw).unseen hv p hp (hexposed p hexp)
    | some id₁ =>
      rw [(h.current f id₁ hw).version] at hv
      cases hv

theorem Coherent.next {i : Nat} {t : Task} {ok : Bool} {order : List Nat}
    (hi : s.tasks[i]? = some t) (hlive : t.finished = false) (hen : s.Enabled o t order)
    (hwaits : Waits o s t) : Coherent o (s.moved o ok order i t) where
  sane := h.sane.next hi hen
  placed := h.placed.next hi
  indexed := h.indexed.next h.sane h.placed hi fun task ht => (hwaits task (ht ▸ rfl)).1
  served := h.served_next hi hwaits
  current f id hw := by
    have heff := next_effect o ok order s.mgr t
    obtain ⟨hv, hw'⟩ | ⟨id', pc, rfl, hpc, hv, hw'⟩ := heff.tables_at f
    · have hcur := h.current f id (hw' ▸ hw)
      exact hcur.next h.sane hi (hv.trans hcur.version)
    · cases hw'.symm.trans hw
      have hdone : pc ≠ .done := by
        rintro rfl
        cases hlive
      have hopening : (Task.onFileOpen f id pc).opening = some (f, id) := by
        cases pc with
        | done => exact absurd rfl hdone
        | _ => rfl
      cases hold : s.mgr.window f with
      | some id₁ =>
        have hcur := h.current f id₁ hold
        cases hcur.opens _ (mem_of_getElem? hi) id hopening
        exact hcur.next h.sane hi hv
      | none =>
        have hclosed := h.closed f hold
        have hne := hclosed.opens _ (mem_of_getElem? hi) id hopening
        exact hclosed.returns h.sane hi hdone (hpc.resolve_left hne) hv
  closed f hw := by
    have heff := next_effect o ok order s.mgr t
    obtain ⟨hv, hw'⟩ | ⟨id', pc, rfl, -, -, hw'⟩ := heff.tables_at f
    · exact (h.closed f (hw'.symm.trans hw)).next h.sane h.placed h.indexed h.served hi hen hv hw
    · cases hw'.symm.trans hw

theorem Coherent.mono (hsane : Sane o s') (hplaced : Placed o s') (hindexed : Indexed s')
    (hlisted : s'.mgr.byFile = s.mgr.byFile) (hversions : s'.mgr.versions = s.mgr.versions)
    (hwindow : s'.mgr.window = s.mgr.window)
    (hcaches : ∀ dir p e, s'.mgr.caches dir p = some e → s.mgr.caches dir p = some e)
    (hnew : ∀ t ∈ s'.tasks, t ∈ s.tasks ∨
      t.putting = none ∧ t.serving = none ∧ ∀ f id pc, t ≠ .onFileOpen f id pc)
    (hold : ∀ t ∈ s.tasks, t ∈ s'.tasks) : Coherent o s' where
  sane := hsane
  placed := hplaced
  indexed := hindexed
  served t ht p fill hserving := by
    rw [LocalCacheManager.Listed, hlisted]
    obtain ht | ⟨-, hnone, -⟩ := hnew t ht
    · exact h.served t ht p fill hserving
    · rw [hnone] at hserving
      cases hserving
  current f id hw := by
    refine (h.current f id (hwindow ▸ hw)).mono (congrFun hversions f) hcaches fun t ht => ?_
    refine (hnew t ht).imp_right fun hnot => ⟨?_, hnot.2.1, ?_⟩
    · intro p fill permit pc _ hp
      rw [hnot.1] at hp
      cases hp
    · intro id' hid
      cases t with
      | onFileOpen g id pc => exact absurd rfl (hnot.2.2 g id pc)
      | _ => cases hid
  closed f hw := by
    refine (h.closed f (hwindow ▸ hw)).mono (congrFun hversions f) hcaches (fun t ht => ?_) hold
    refine (hnew t ht).imp_right fun hnot => ⟨?_, hnot.2.1, hnot.2.2 f⟩
    intro p hp
    rw [hnot.1] at hp
    cases hp

theorem Coherent.put (hm : SamePages s.mgr m) (hwindow : m.window = s.mgr.window) {p : PageId}
    {fill : Fill} {permit : Bool} (hfill : s.mgr.window p.fileId = some fill.origin)
    (hsane : Sane o ⟨m, s.tasks ++ [.put p fill permit .start]⟩)
    (hplaced : Placed o ⟨m, s.tasks ++ [.put p fill permit .start]⟩)
    (hindexed : Indexed ⟨m, s.tasks ++ [.put p fill permit .start]⟩) :
    Coherent o ⟨m, s.tasks ++ [.put p fill permit .start]⟩ where
  sane := hsane
  placed := hplaced
  indexed := hindexed
  served t ht q fill' hserving := by
    rw [LocalCacheManager.Listed, hm.byFile]
    obtain ht | ht := mem_append.1 ht
    · exact h.served t ht q fill' hserving
    · cases mem_singleton.1 ht
      cases hserving
  current f id hw := by
    have hold : s.mgr.window f = some id := hwindow ▸ hw
    refine (h.current f id hold).mono (congrFun hm.versions f)
      (fun dir p e he => hm.caches ▸ he) fun t ht => ?_
    refine (mem_append.1 ht).imp_right fun ht => ?_
    cases mem_singleton.1 ht
    refine ⟨?_, rfl, ?_⟩
    · intro q fill' permit' pc hput _ hq
      cases hput
      exact some.inj ((hq ▸ hfill).symm.trans hold)
    · intro id' hid
      cases hid
  closed f hw := by
    have hold : s.mgr.window f = none := hwindow ▸ hw
    refine (h.closed f hold).mono (congrFun hm.versions f) (fun dir p e he => hm.caches ▸ he)
      (fun t ht => ?_) fun t ht => mem_append.2 (.inl ht)
    refine (mem_append.1 ht).imp_right fun ht => ?_
    cases mem_singleton.1 ht
    refine ⟨?_, rfl, fun _ _ => Task.noConfusion⟩
    intro q hq
    cases hq
    rintro rfl
    cases hfill.symm.trans hold

theorem Coherent.open (hm : SamePages s.mgr m)
    (hwindow : ∀ g, m.window g =
      if g = f ∧ s.mgr.window f ≠ some id then none else s.mgr.window g)
    (halone : s.OpensAlone (.onFileOpen f id))
    (hsane : Sane o ⟨m, s.tasks ++ [.onFileOpen f id .check]⟩)
    (hplaced : Placed o ⟨m, s.tasks ++ [.onFileOpen f id .check]⟩)
    (hindexed : Indexed ⟨m, s.tasks ++ [.onFileOpen f id .check]⟩) :
    Coherent o ⟨m, s.tasks ++ [.onFileOpen f id .check]⟩ where
  sane := hsane
  placed := hplaced
  indexed := hindexed
  served t ht q fill' hserving := by
    rw [LocalCacheManager.Listed, hm.byFile]
    obtain ht | ht := mem_append.1 ht
    · exact h.served t ht q fill' hserving
    · cases mem_singleton.1 ht
      cases hserving
  current g id₁ hw := by
    have hw' : m.window g = some id₁ := hw
    rw [hwindow g] at hw'
    split at hw'
    · cases hw'
    · next hsame =>
      refine (h.current g id₁ hw').mono (congrFun hm.versions g)
        (fun dir p e he => hm.caches ▸ he) fun t ht => ?_
      refine (mem_append.1 ht).imp_right fun ht => ?_
      cases mem_singleton.1 ht
      refine ⟨fun _ _ _ _ => Task.noConfusion, rfl, ?_⟩
      intro id' hid
      cases hid
      have hid : s.mgr.window f = some id := by
        by_contra hne
        exact hsame ⟨rfl, hne⟩
      exact some.inj (hid.symm.trans hw')
  closed g hw := by
    have hw' : m.window g = none := hw
    rw [hwindow g] at hw'
    by_cases hcloses : g = f ∧ s.mgr.window f ≠ some id
    · obtain ⟨rfl, hne⟩ := hcloses
      exact h.closes hm hne (halone.resolve_left hne)
    · rw [if_neg hcloses] at hw'
      refine (h.closed g hw').mono (congrFun hm.versions g) (fun dir p e he => hm.caches ▸ he)
        (fun t ht => ?_) fun t ht => mem_append.2 (.inl ht)
      refine (mem_append.1 ht).imp_right fun ht => ?_
      cases mem_singleton.1 ht
      refine ⟨?_, rfl, ?_⟩
      · intro p hp
        cases hp
      · intro id' pc heq
        cases heq
        refine hcloses ⟨rfl, ?_⟩
        rw [hw']
        exact (some_ne_none id).symm

theorem Coherent.step {a : Act} (hd : s.Disciplined o a) (hs : CacheState.step o s a = some s') :
    Coherent o s' := by
  obtain ⟨hfills, hopens, hreaps, hrestart⟩ := hd
  have hsane := h.sane.step hs
  have hplaced := h.placed.step hs
  have hindexed := h.indexed.step h.sane h.placed hreaps.gone hs
  cases step_inv hs with
  | rejected => exact h
  | @call a t m ht hm hopen hother =>
    cases a with
    | put p fill | scheduleFill p fill =>
      cases ht
      exact h.put hm (hother (by simp)) hfills hsane hplaced hindexed
    | onFileOpen f id =>
      cases ht
      exact h.open hm (hopen f id rfl) hopens hsane hplaced hindexed
    | _ =>
      refine h.mono hsane hplaced hindexed hm.byFile hm.versions (hother (by simp))
        (fun dir p e he => hm.caches ▸ he) (fun u hu => ?_)
        fun u hu => mem_append.2 (.inl hu)
      refine (mem_append.1 hu).imp_right fun hu => ?_
      cases mem_singleton.1 hu
      have hserving := starts_serving (starts_of_call ht)
      cases ht <;> exact ⟨rfl, hserving, fun _ _ _ => Task.noConfusion⟩
  | @run i ok order t hi hlive hen =>
    have hmoved : Coherent o (s.moved o ok order i t) := h.next hi hlive hen (hreaps.waits hi)
    exact hmoved.mono hsane hplaced hindexed rfl rfl rfl (fun _ _ _ he => he)
      (fun _ ht => .inl ht) fun _ ht => ht
  | @evict dir p _ _ =>
    refine h.mono hsane hplaced hindexed rfl rfl rfl (fun dir' q e he => ?_)
      (fun _ ht => .inl ht) fun _ ht => ht
    exact caches_of_evict he
  | leave _ | advance =>
    exact h.mono hsane hplaced hindexed rfl rfl rfl (fun _ _ _ he => he)
      (fun _ ht => .inl ht) fun _ ht => ht
  | reap _ =>
    refine h.mono hsane hplaced hindexed rfl rfl rfl (fun _ _ _ he => he) (fun u hu => ?_)
      fun u hu => mem_append.2 (.inl hu)
    refine (mem_append.1 hu).imp_right fun hu => ?_
    cases mem_singleton.1 hu
    exact ⟨rfl, rfl, fun _ _ _ => Task.noConfusion⟩
  | restart => exact absurd rfl hrestart

end

/-- In every disciplined run, a get that returns bytes while the window of its file
is open returns bytes that were fetched under the identity of the window. -/
theorem get_returns_current (o : CacheManagerOptions) {ls : List Act} {s : CacheState}
    (hrun : Guarded (CacheState.step o) (Disciplined o) (fresh o) ls s)
    {p : PageId} {offset len : Nat} {bytes : Bytes} {fill : Fill} {id : FileIdentity}
    (hget : .get p offset len (.ret bytes (some fill)) ∈ s.tasks)
    (hwindow : s.mgr.window p.fileId = some id) : fill.origin = id := by
  have hcoherent : Coherent o s := hrun.invariant (fun _ _ _ h hd hs => h.step hd hs) coherent_fresh
  exact (hcoherent.current p.fileId id hwindow).serving _ hget p fill rfl rfl

/-- The file is opened, cached, opened with another identity and cached again. -/
def overwritten (id₁ id₂ : FileIdentity) : List Act :=
  .onFileOpen "f" id₁ :: takes 0 2 ++ .put ⟨"f", 0⟩ ⟨[1], id₁⟩ :: takes 1 10 ++
    [.onFileOpen "f" id₂, .run 2 true [], .run 2 true [0]] ++ takes 2 6 ++
    .put ⟨"f", 0⟩ ⟨[2], id₂⟩ :: takes 3 10 ++ .getBytes ⟨"f", 0⟩ 0 1 :: takes 4 3

theorem get_returns_current_overwritten : ∃ s,
    Guarded (CacheState.step tinyOptions) (Disciplined tinyOptions) (fresh tinyOptions)
      (overwritten ⟨1, 1⟩ ⟨1, 2⟩) s ∧ s.mgr.window "f" = some ⟨1, 2⟩ ∧
    ∃ fill, .get ⟨"f", 0⟩ 0 1 (.ret [2] (some fill)) ∈ s.tasks ∧ fill.origin = ⟨1, 2⟩ := by
  obtain ⟨s, hrun, hget, hwindow⟩ : ∃ s, Guarded (CacheState.step tinyOptions)
      (Disciplined tinyOptions) (fresh tinyOptions) (overwritten ⟨1, 1⟩ ⟨1, 2⟩) s ∧
      .get ⟨"f", 0⟩ 0 1 (.ret [2] (some ⟨[2], ⟨1, 2⟩⟩)) ∈ s.tasks ∧
      s.mgr.window "f" = some ⟨1, 2⟩ :=
    Guarded.exists_of_replay (by decide +kernel)
  exact ⟨s, hrun, hwindow, _, hget, get_returns_current tinyOptions hrun hget hwindow⟩

/-- A fill is scheduled, the file is opened with another identity, and the fill
finishes. -/
def lateFill (id₁ id₂ : FileIdentity) : List Act :=
  .onFileOpen "f" id₁ :: takes 0 2 ++
    [.scheduleFill ⟨"f", 0⟩ ⟨[1], id₁⟩, .onFileOpen "f" id₂] ++ takes 2 3 ++ takes 1 10 ++
    .getBytes ⟨"f", 0⟩ 0 1 :: takes 3 3

/-- The late fill is cached and served under the new identity. -/
theorem late_fill_served : ∃ s,
    Guarded (CacheState.step tinyOptions) (fun _ _ => True) (fresh tinyOptions)
      (lateFill ⟨1, 1⟩ ⟨1, 2⟩) s ∧ s.mgr.window "f" = some ⟨1, 2⟩ ∧
    .get ⟨"f", 0⟩ 0 1 (.ret [1] (some ⟨[1], ⟨1, 1⟩⟩)) ∈ s.tasks :=
  Guarded.exists_of_replay (by decide +kernel)

end CacheState

end GooseFS
