import GooseFS.Cache.Index

/-!
# Invalidation of a file

An invalidation copies the index entry of its file and deletes the pages of the
copy one by one.  `InvalidatePc.Handles` says which pages it still gets to, and
`invalidateStep_handles` that it passes no page over: a page it no longer handles
was missing or removed when its turn came.

With the index complete this gives the main result, `resident_pages_listed`: where
the reaper unlists only pages that are not resident, a quiet cache lists every
resident page, and an invalidation that starts there returns and leaves no page of
its file.
-/

namespace GooseFS

open Lib List CacheState

def InvalidatePc.Handles : InvalidatePc → Nat → Prop
  | .snapshot, _ => True
  | .deleting j pc rest, i => (i = j ∧ (pc = .lock ∨ pc = .remove)) ∨ i ∈ rest
  | .done, _ => False

theorem InvalidatePc.handles_next (l : List Nat) (i : Nat) :
    (InvalidatePc.next l).Handles i ↔ i ∈ l := by
  cases l with
  | nil => exact ⟨False.elim, fun h => absurd h not_mem_nil⟩
  | cons j rest =>
    rw [mem_cons]
    exact or_congr_left (and_iff_left (.inl rfl))

variable {f : String} {m : LocalCacheManager} {o : CacheManagerOptions} {ok : Bool}

/-- Every page that is live before a step and after it stays handled.  The page
whose turn it is must not survive its removal, and the copy of the index must have
every live page. -/
theorem invalidateStep_handles {order : List Nat} {pc : InvalidatePc} (live live' : Nat → Prop)
    (hmono : ∀ i, live' i → live i) (hsnapshot : pc = .snapshot → ∀ i, live i → i ∈ order)
    (hremove : ∀ j rest, pc = .deleting j .remove rest → ¬ live' j) (h : ∀ i, live i → pc.Handles i)
    (i : Nat) (hi : live' i) : (invalidateStep o ok f order m pc).2.Handles i := by
  cases pc with
  | snapshot => exact (InvalidatePc.handles_next order i).2 (hsnapshot rfl i (hmono i hi))
  | done => exact (h i (hmono i hi)).elim
  | deleting j pc rest =>
    have hold := h i (hmono i hi)
    cases pc with
    | lock => exact hold.imp_left fun ⟨hij, _⟩ => ⟨hij, .inr rfl⟩
    | missing =>
      have hrest : i ∈ rest := hold.resolve_left (by simp)
      exact (InvalidatePc.handles_next rest i).2 hrest
    | remove =>
      have hrest : i ∈ rest := hold.resolve_left fun ⟨hij, _⟩ => hremove j rest rfl (hij ▸ hi)
      simp only [invalidateStep]
      split
      · exact (InvalidatePc.handles_next rest i).2 hrest
      · exact .inr hrest
    | removed r =>
      have hrest : i ∈ rest := hold.resolve_left (by simp)
      simp only [invalidateStep]
      split
      · exact (InvalidatePc.handles_next rest i).2 hrest
      · exact .inr hrest

theorem invalidateStep_remove (order rest : List Nat) {j : Nat} :
    (invalidateStep o ok f order m (.deleting j .remove rest)).1.caches
      (o.allocate f) ⟨f, j⟩ = none := by
  simp only [invalidateStep, deleteStep]
  split
  · exact if_pos ⟨rfl, rfl⟩
  · next hc => exact (m.contains_eq_false _ _).1 (Bool.not_eq_true _ ▸ hc)

namespace CacheState

open GooseFS.Task

variable {o : CacheManagerOptions} {s s' : CacheState} {f : String} {i : Nat} {a : Act} {p : PageId}
  {t : Task} {dir : Nat} {e : PageInfo} {m : LocalCacheManager} {ok : Bool} {order : List Nat}
  {pc : InvalidatePc}

/-! ## No page survives -/

def NoPuts (f : String) (s : CacheState) : Prop :=
  ∀ t ∈ s.tasks, ∀ p, t.putting = some p → p.fileId ≠ f

/-- The action may bring pages of `f` back. -/
def Refills (f : String) : Act → Prop
  | .put p _ => p.fileId = f
  | .scheduleFill p _ => p.fileId = f
  | .restart => True
  | _ => False

theorem fileId_of_call (h : call a = some t) (ht : t.putting = some p) : Refills p.fileId a := by
  cases a with
  | put q fill | scheduleFill q fill => cases h; cases ht; exact rfl
  | _ => cases h <;> cases ht

theorem NoPuts.next (h : NoPuts f s) (hi : s.tasks[i]? = some t) :
    NoPuts f ⟨m, s.tasks.set i (t.next o ok order s.mgr).2⟩ := by
  intro u hu p hp
  obtain rfl | ⟨j, -, hj⟩ := eq_or_other_of_mem_set hu
  · exact h t (mem_of_getElem? hi) p (next_putting hp)
  · exact h u (mem_of_getElem? hj) p hp

theorem NoPuts.append (h : NoPuts f s) (ht : call a = some t) (ha : ¬ Refills f a) :
    NoPuts f ⟨m, s.tasks ++ [t]⟩ := by
  intro u hu p hp
  obtain hu | hu := mem_append.1 hu
  · exact h u hu p hp
  · cases mem_singleton.1 hu
    intro hpf
    exact ha (hpf ▸ fileId_of_call ht hp)

theorem NoPuts.caches_some (h : NoPuts f s) (ok : Bool) (order : List Nat)
    (hi : s.tasks[i]? = some t) (hp : p.fileId = f)
    (he : (t.next o ok order s.mgr).1.caches dir p = some e) : s.mgr.caches dir p = some e := by
  have heff := next_effect o ok order s.mgr t
  obtain heq | ⟨-, hnone | ⟨fill, permit, rfl, -⟩⟩ := heff.caches dir p
  · exact heq ▸ he
  · rw [hnone] at he
    cases he
  · exact absurd hp (h _ (mem_of_getElem? hi) p rfl)

theorem NoPuts.listed (h : NoPuts f s) (hindex : Indexed s) (hp : p.fileId = f)
    (he : s.mgr.caches dir p = some e) : s.mgr.Listed p := by
  refine (hindex dir p e he).resolve_right ?_
  rintro ⟨t, ht, hadm⟩
  exact h t ht p (putting_of_admitting hadm) hp

/-- Task `i` is an invalidation of `f` that still gets to every resident page. -/
structure Clearing (o : CacheManagerOptions) (f : String) (i : Nat) (s : CacheState) : Prop where
  sane : Sane o s
  placed : Placed o s
  indexed : Indexed s
  noPuts : NoPuts f s
  task : ∃ pc, s.tasks[i]? = some (.invalidate f pc) ∧ ∀ dir p e, p.fileId = f →
    s.mgr.caches dir p = some e → pc.Handles p.pageIndex

theorem Clearing.task_next (h : Clearing o f i s) {k : Nat} (hk : s.tasks[k]? = some t)
    (hen : s.Enabled o t order) :
    ∃ pc, (s.tasks.set k (t.next o ok order s.mgr).2)[i]? = some (.invalidate f pc) ∧
      ∀ dir p e, p.fileId = f → (t.next o ok order s.mgr).1.caches dir p = some e →
        pc.Handles p.pageIndex := by
  obtain ⟨pc, hi, hh⟩ := h.task
  have hmono : ∀ dir p e, p.fileId = f → (t.next o ok order s.mgr).1.caches dir p = some e →
      s.mgr.caches dir p = some e := fun dir p e hp he => h.noPuts.caches_some ok order hk hp he
  by_cases hki : k = i
  · subst hki
    rw [hi] at hk
    cases hk
    refine ⟨(invalidateStep o ok f order s.mgr pc).2, ?_, ?_⟩
    · rw [getElem?_set_self (List.getElem?_eq_some_iff.1 hi).1]
      rfl
    · intro dir p e hp he
      refine invalidateStep_handles (fun i => ∃ dir e, s.mgr.caches dir ⟨f, i⟩ = some e)
        (fun i => ∃ dir e, (invalidateStep o ok f order s.mgr pc).1.caches dir ⟨f, i⟩ = some e)
        ?_ ?_ ?_ ?_ _ ?_
      · rintro i ⟨dir, e, he⟩
        exact ⟨dir, e, hmono dir _ e rfl he⟩
      · rintro rfl i ⟨dir, e, he⟩
        exact (hen.2.2 f rfl).mem_iff.2 (h.noPuts.listed h.indexed rfl he)
      · rintro j rest rfl ⟨dir, e, he⟩
        have hdir : dir = o.allocate f := h.placed.caches dir _ e (hmono dir _ e rfl he)
        rw [hdir, invalidateStep_remove] at he
        cases he
      · rintro i ⟨dir, e, he⟩
        exact hh dir _ e rfl he
      · subst hp
        exact ⟨dir, e, he⟩
  · refine ⟨pc, ?_, fun dir p e hp he => hh dir p e hp (hmono dir p e hp he)⟩
    rw [getElem?_set_ne hki, hi]

theorem Clearing.step (h : Clearing o f i s) (hgone : s.ReapsGone a) (ha : ¬ Refills f a)
    (hs : step o s a = some s') : Clearing o f i s' where
  sane := h.sane.step hs
  placed := h.placed.step hs
  indexed := h.indexed.step h.sane h.placed hgone hs
  noPuts := by
    cases step_inv hs with
    | call ht _ _ _ => exact h.noPuts.append ht ha
    | run hi _ _ => exact h.noPuts.next hi
    | reap _ =>
      intro u hu p hp
      obtain hu | hu := mem_append.1 hu
      · exact h.noPuts u hu p hp
      · cases mem_singleton.1 hu
        cases hp
    | restart => exact absurd trivial ha
    | _ => exact h.noPuts
  task := by
    obtain ⟨pc, hi, hh⟩ := h.task
    have hlt : i < s.tasks.length := (List.getElem?_eq_some_iff.1 hi).1
    cases step_inv hs with
    | call _ hm _ _ =>
      refine ⟨pc, by rw [getElem?_append_left hlt, hi], ?_⟩
      rw [hm.caches]
      exact hh
    | run hk _ hen => exact h.task_next hk hen
    | @evict dir p _ _ =>
      refine ⟨pc, hi, fun dir' q e hq he => ?_⟩
      exact hh dir' q e hq (caches_of_evict he)
    | reap _ => exact ⟨pc, by rw [getElem?_append_left hlt, hi], hh⟩
    | restart => exact absurd trivial ha
    | _ => exact ⟨pc, hi, hh⟩

/-! ## An invalidation that runs alone returns -/

theorem writing_of_finished (h : t.finished = true) : t.writing = none ∧ t.reading = none := by
  cases t with
  | put p fill permit pc =>
    cases pc with
    | done result => exact ⟨rfl, rfl⟩
    | _ => cases h
  | get p offset len pc =>
    have hpc : pc = .done ∨ pc = .expired .done := by simpa [finished] using h
    obtain rfl | rfl := hpc <;> exact ⟨rfl, rfl⟩
  | delete p pc =>
    have hpc : pc.finished = true := h
    refine ⟨?_, rfl⟩
    cases pc with
    | removed r => simp [writing, DeletePc.locked, hpc]
    | missing => rfl
    | _ => cases hpc
  | invalidate f pc | onFileOpen f id pc | reap task pc =>
    have hpc : pc = .done := by simpa [finished] using h
    exact hpc ▸ ⟨rfl, rfl⟩

def deleteRank : DeletePc → Nat
  | .lock => 6
  | .remove => 5
  | .removed .index => 4
  | .removed (.store _) => 3
  | .removed .identity => 2
  | .removed .done => 1
  | .missing => 1

/-- A bound on the steps that an invalidation has left when its file has `n` pages. -/
def invalidateRank (n : Nat) : InvalidatePc → Nat
  | .snapshot => 6 * n + 1
  | .deleting _ pc rest => 6 * rest.length + deleteRank pc
  | .done => 0

theorem deleteRank_lt (p : PageId) (m : LocalCacheManager) (pc : DeletePc) :
    (deleteStep o true p m pc).2.finished = true ∨
      deleteRank (deleteStep o true p m pc).2 < deleteRank pc := by
  cases pc with
  | lock => exact .inr (Nat.lt_succ_self 5)
  | missing => exact .inl rfl
  | remove =>
    simp only [deleteStep]
    split
    · exact .inr (Nat.lt_succ_self 4)
    · exact .inl rfl
  | removed r =>
    cases r with
    | index => exact .inr (Nat.lt_succ_self 3)
    | store fileEmpty =>
      cases fileEmpty with
      | true => exact .inr (Nat.lt_succ_self 2)
      | false => exact .inl rfl
    | identity | done => exact .inl rfl

theorem invalidateRank_next (n : Nat) (l : List Nat) :
    invalidateRank n (.next l) = 6 * l.length := by
  cases l with
  | nil => rfl
  | cons i rest =>
    simp only [InvalidatePc.next, invalidateRank, deleteRank, length_cons]
    omega

theorem invalidateRank_lt (m : LocalCacheManager) (n : Nat) (hpc : pc ≠ .done) :
    invalidateRank n (invalidateStep o true f (m.byFile f) m pc).2 <
      invalidateRank (m.byFile f).length pc := by
  cases pc with
  | done => exact absurd rfl hpc
  | snapshot =>
    show invalidateRank n (.next (m.byFile f)) < _
    rw [invalidateRank_next]
    exact Nat.lt_succ_self _
  | deleting i pc rest =>
    have hpos : 0 < deleteRank pc := by
      cases pc with
      | removed r => cases r <;> exact Nat.succ_pos _
      | _ => exact Nat.succ_pos _
    simp only [invalidateStep]
    split
    · rw [invalidateRank_next]
      exact Nat.lt_add_of_pos_right hpos
    · next hlive =>
      have hlt := (deleteRank_lt ⟨f, i⟩ m pc).resolve_left hlive
      simp only [invalidateRank]
      omega

theorem enabled_alone (hi : s.tasks[i]? = some (.invalidate f pc))
    (halone : ∀ j t, j ≠ i → s.tasks[j]? = some t → t.finished = true) :
    s.Enabled o (.invalidate f pc) (s.mgr.byFile f) := by
  refine ⟨?_, ?_, ?_⟩
  · intro p hp t ht
    obtain ⟨j, hj⟩ := getElem?_of_mem ht
    have hfree : t.writing = none ∧ t.reading = none := by
      by_cases hji : j = i
      · subst hji
        rw [hi] at hj
        cases hj
        have hp' : invalidateAcquires f pc = some p := hp
        unfold invalidateAcquires at hp'
        split at hp'
        · exact ⟨rfl, rfl⟩
        · cases hp'
      · exact writing_of_finished (halone j t hji hj)
    rw [hfree.1, hfree.2]
    exact ⟨by simp, by simp⟩
  · intro p hp
    cases hp
  · intro g hg
    cases pc with
    | snapshot =>
      cases hg
      exact Perm.refl _
    | _ => cases hg

def Undisturbed (f : String) (s : CacheState) (a : Act) : Prop := s.ReapsGone a ∧ ¬ Refills f a

theorem invalidate_returns (n : Nat) : ∀ {s : CacheState} {pc : InvalidatePc},
    invalidateRank (s.mgr.byFile f).length pc ≤ n → s.tasks[i]? = some (.invalidate f pc) →
    (∀ j t, j ≠ i → s.tasks[j]? = some t → t.finished = true) →
    ∃ ls s', Guarded (step o)
        (fun s a => Undisturbed f s a ∧ ∃ order, a = .run i true order) s ls s' ∧
      s'.tasks[i]? = some (.invalidate f .done) := by
  induction n with
  | zero =>
    intro s pc hn hi _
    have hpc : pc = .done := by
      cases pc with
      | done => rfl
      | snapshot => simp [invalidateRank] at hn
      | deleting j pc rest =>
        cases pc with
        | removed r => cases r <;> simp [invalidateRank, deleteRank] at hn
        | _ => simp [invalidateRank, deleteRank] at hn
    exact ⟨[], s, .nil s, hpc ▸ hi⟩
  | succ n ih =>
    intro s pc hn hi halone
    by_cases hpc : pc = .done
    · exact ⟨[], s, .nil s, hpc ▸ hi⟩
    · have hfinished : (Task.invalidate f pc).finished = false := by simp [finished, hpc]
      have hstep : step o s (.run i true (s.mgr.byFile f)) =
          some (s.advance i (invalidateStep o true f (s.mgr.byFile f) s.mgr pc).1
            (.invalidate f (invalidateStep o true f (s.mgr.byFile f) s.mgr pc).2)) := by
        simp only [step, hi]
        exact if_pos ⟨hfinished, enabled_alone hi halone⟩
      have hcond : Undisturbed f s (.run i true (s.mgr.byFile f)) := by
        refine ⟨?_, fun h => h⟩
        intro task htask
        rw [reaps, hi] at htask
        cases htask
      have hlt : i < s.tasks.length := (List.getElem?_eq_some_iff.1 hi).1
      obtain ⟨ls, s', hrun, hdone⟩ := ih
        (s := s.advance i (invalidateStep o true f (s.mgr.byFile f) s.mgr pc).1
          (.invalidate f (invalidateStep o true f (s.mgr.byFile f) s.mgr pc).2))
        (Nat.le_of_lt_succ (Nat.lt_of_lt_of_le (invalidateRank_lt s.mgr _ hpc) hn))
        (getElem?_set_self hlt) fun j t hji hj => halone j t hji
          ((getElem?_set_ne (Ne.symm hji)).symm.trans hj)
      exact ⟨_, s', .cons ⟨hcond, _, rfl⟩ hstep hrun, hdone⟩

/-! ## Completeness of the index -/

theorem Quiet.noPuts (h : s.Quiet) (f : String) : NoPuts f s := by
  intro t ht p hp
  have hfinished := h.1 t ht
  cases t with
  | put q fill permit pc =>
    cases pc with
    | done result => cases hp
    | _ => cases hfinished
  | _ => cases hp

theorem clearing_start (hsane : Sane o s) (hplaced : Placed o s) (hindexed : Indexed s)
    (hnoPuts : NoPuts f s) :
    Clearing o f s.tasks.length (s.spawn (.invalidate f .snapshot)) := by
  have hspawn : step o s (.invalidate f) = some (s.spawn (.invalidate f .snapshot)) :=
    rfl
  have hcall : call (.invalidate f) = some (.invalidate f .snapshot) := rfl
  refine ⟨hsane.step hspawn, hplaced.step hspawn, hindexed.step hsane hplaced ?_ hspawn, ?_, ?_⟩
  · intro task h
    cases h
  · exact hnoPuts.append hcall fun h => h
  · exact ⟨.snapshot, getElem?_concat_length, fun _ _ _ _ _ => trivial⟩

theorem Quiet.invalidate_returns (h : s.Quiet) (f : String) :
    ∃ ls s', Guarded (step o) (Undisturbed f) s (.invalidate f :: ls) s' ∧
      s'.tasks[s.tasks.length]? = some (.invalidate f .done) := by
  have halone : ∀ j t, j ≠ s.tasks.length →
      (s.spawn (.invalidate f .snapshot)).tasks[j]? = some t → t.finished = true := by
    intro j t hj ht
    have hlt : j < s.tasks.length := by
      have hlen := (List.getElem?_eq_some_iff.1 ht).1
      simp only [spawn, length_append, length_singleton] at hlen
      omega
    rw [spawn, getElem?_append_left hlt] at ht
    exact h.1 t (mem_of_getElem? ht)
  obtain ⟨ls, s', hrun, hdone⟩ := CacheState.invalidate_returns (o := o) _ (Nat.le_refl _)
    (getElem?_concat_length) halone
  have hcond : Undisturbed f s (.invalidate f) := by
    refine ⟨?_, fun h => h⟩
    intro task htask
    cases htask
  exact ⟨ls, s', .cons hcond rfl (hrun.mono fun _ _ h => h.1), hdone⟩

/-- Where the reaper unlists only pages that are not resident, a quiet cache lists
every resident page.  So an invalidation of a file that starts there returns when
it runs, and whatever runs with it, leaves no page of the file resident unless
pages of the file are put meanwhile. -/
theorem resident_pages_listed (o : CacheManagerOptions) {ls : List Act} {s : CacheState}
    (hrun : Guarded (step o) ReapsGone (fresh o) ls s) (hquiet : s.Quiet) :
    (∀ dir p e, s.mgr.caches dir p = some e → s.mgr.Listed p) ∧
    ∀ f, (∃ ls' s', Guarded (step o) (Undisturbed f) s (.invalidate f :: ls') s' ∧
        s'.tasks[s.tasks.length]? = some (.invalidate f .done)) ∧
      ∀ ls' s', Guarded (step o) (Undisturbed f) s (.invalidate f :: ls') s' →
        s'.tasks[s.tasks.length]? = some (.invalidate f .done) →
        ∀ dir p, p.fileId = f → s'.mgr.caches dir p = none := by
  obtain ⟨hsane, hplaced, hindexed⟩ : Sane o s ∧ Placed o s ∧ Indexed s := by
    refine hrun.invariant
      (fun s a s' (h : Sane o s ∧ Placed o s ∧ Indexed s) hgone hs => ?_)
      ⟨sane_fresh, placed_fresh, ?_⟩
    · exact ⟨h.1.step hs, h.2.1.step hs, h.2.2.step h.1 h.2.1 hgone hs⟩
    · intro dir p e he
      cases he
  refine ⟨fun dir p e he => (hquiet.noPuts p.fileId).listed hindexed rfl he, fun f => ?_⟩
  refine ⟨hquiet.invalidate_returns f, ?_⟩
  intro ls' s' hrun' hdone dir p hp
  cases hrun' with
  | cons _ hs hrest =>
    cases hs
    have hend := hrest.invariant
      (fun s a s' (h : Clearing o f _ s) hc hs => h.step hc.1 hc.2 hs)
      (clearing_start hsane hplaced hindexed (hquiet.noPuts f))
    obtain ⟨pc, hpc, hh⟩ := hend.task
    rw [hdone] at hpc
    cases hpc
    rw [Option.eq_none_iff_forall_ne_some]
    intro e he
    exact hh dir p e hp he

/-- Two pages are put, the first is evicted, and the reaper is done with it. -/
def evictedThenReaped (fill : Fill) : List Act :=
  .put ⟨"f", 0⟩ fill :: takes 0 9 ++ .put ⟨"f", 1⟩ fill :: takes 1 8 ++
    [.evict 0 ⟨"f", 0⟩, .leave 0, .reap] ++ takes 2 4

theorem resident_pages_listed_after_reap : ∃ s,
    Guarded (step tinyOptions) ReapsGone (fresh tinyOptions)
      (evictedThenReaped ⟨[1], ⟨1, 1⟩⟩) s ∧ s.Quiet ∧
    s.mgr.caches 0 ⟨"f", 1⟩ = some ⟨0, [1], ⟨1, 1⟩⟩ ∧ s.mgr.Listed ⟨"f", 1⟩ := by
  obtain ⟨s, hrun, hquiet, he⟩ : ∃ s, Guarded (step tinyOptions) ReapsGone
      (fresh tinyOptions) (evictedThenReaped ⟨[1], ⟨1, 1⟩⟩) s ∧ s.Quiet ∧
      s.mgr.caches 0 ⟨"f", 1⟩ = some ⟨0, [1], ⟨1, 1⟩⟩ :=
    Guarded.exists_of_replay (by decide +kernel)
  exact ⟨s, hrun, hquiet, he, (resident_pages_listed tinyOptions hrun hquiet).1 0 _ _ he⟩

/-- A page is evicted and put again before the reaper gets to the eviction. -/
def readmittedThenReaped (fill : Fill) : List Act :=
  .put ⟨"f", 0⟩ fill :: takes 0 9 ++ [.evict 0 ⟨"f", 0⟩, .leave 0, .reap] ++
    .put ⟨"f", 0⟩ fill :: takes 2 8 ++ takes 1 3

/-- The reaper unlists the page that was admitted again, and nothing is left that
would list it. -/
theorem reaper_unlists_readmitted_page : ∃ s,
    Guarded (step tinyOptions) (fun _ _ => True) (fresh tinyOptions)
      (readmittedThenReaped ⟨[1], ⟨1, 1⟩⟩) s ∧ s.Quiet ∧ s.mgr.pending = [] ∧
    s.mgr.caches 0 ⟨"f", 0⟩ = some ⟨0, [1], ⟨1, 1⟩⟩ ∧ ¬ s.mgr.Listed ⟨"f", 0⟩ :=
  Guarded.exists_of_replay (by decide +kernel)

end CacheState

end GooseFS
