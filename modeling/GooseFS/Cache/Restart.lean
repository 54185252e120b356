import GooseFS.Cache.Files

/-!
# Restart

A restart trusts the identity sidecar of a file for every page file beside it.
The sidecar is written with the first page of a file and deleted with the last
one, so pages of two identities may meet under one sidecar: when an open with
another identity leaves a page file or the sidecar behind.  An evicted page is
enough, since the invalidation finds it listed but not resident, and passes it
over (`evicted_page_keeps_sidecar`).

`Sheltered` excludes this: an open with another identity has its file to itself,
with no eviction of the file under way, and nothing that should be removed is lost.
-/

namespace GooseFS

open Lib LocalCacheManager List Option CacheState

namespace Task

variable {o : CacheManagerOptions} {ok : Bool} {order : List Nat} {m : LocalCacheManager}
  {p : PageId} {t : Task} {f : String} {id : FileIdentity}

@[simp] theorem next_file (t : Task) : (t.next o ok order m).2.file = t.file := by
  cases t <;> rfl

theorem putStep_eq_index {fill : Fill} {pc : PutPc}
    (h : (putStep o ok p fill m pc).2 = .index (some id)) :
    pc = .readVersion ∧ m.versions p.fileId = some id := by
  cases pc with
  | readVersion =>
    simp only [putStep, PutPc.index.injEq] at h
    exact ⟨rfl, h⟩
  | index id' => cases id' <;> cases h
  | start | lookup | recheck | readIndex =>
    simp only [putStep] at h
    split at h <;> cases h
  | store => cases ok <;> cases h
  | _ => cases h

theorem file_of_putting (h : t.putting = some p) : t.file = p.fileId ∧ t.finished = false := by
  unfold putting at h
  split at h <;> cases h
  next pc hpc =>
  refine ⟨rfl, ?_⟩
  cases pc with
  | done result => exact absurd rfl (hpc result)
  | _ => rfl

theorem file_of_opening (h : t.opening = some (f, id)) : t.file = f ∧ t.finished = false := by
  unfold opening at h
  split at h <;> cases h
  next hpc => exact ⟨rfl, decide_eq_false hpc⟩

theorem file_of_removal {r : RemovedPc} (h : t.removal = some (p, r)) (hr : r.finished = false) :
    t.file = p.fileId ∧ t.finished = false := by
  unfold removal at h
  split at h
  · cases h
    refine ⟨rfl, ?_⟩
    cases r with
    | done => cases hr
    | _ => rfl
  · cases h
    exact ⟨rfl, hr⟩
  · unfold invalidateRemoval at h
    split at h <;> cases h
    exact ⟨rfl, rfl⟩
  · unfold invalidateRemoval at h
    split at h <;> cases h
    exact ⟨rfl, rfl⟩
  · cases h

theorem file_of_owning (h : t.owning = some p) : t.file = p.fileId ∧ t.finished = false := by
  obtain ⟨fill, permit, rfl⟩ | ⟨dir, b, rfl | rfl | rfl⟩ | ⟨r, hr, rfl | ⟨b, rfl⟩⟩ := owning_cases h
  · exact ⟨rfl, rfl⟩
  · exact ⟨rfl, rfl⟩
  · exact ⟨rfl, rfl⟩
  · exact ⟨rfl, rfl⟩
  · exact file_of_removal hr rfl
  · exact file_of_removal hr rfl

theorem file_of_sweeping (h : t.sweeping = some f) : t.file = f ∧ t.finished = false := by
  obtain ⟨task, rfl | rfl | rfl | rfl⟩ | ⟨p, r, hr, rfl, rfl | rfl⟩ := sweeping_cases h
  · exact ⟨some.inj h, rfl⟩
  · exact ⟨some.inj h, rfl⟩
  · exact ⟨some.inj h, rfl⟩
  · exact ⟨some.inj h, rfl⟩
  · exact file_of_removal hr rfl
  · exact file_of_removal hr rfl

end Task

namespace CacheState

open GooseFS.Task

variable {o : CacheManagerOptions} {s s' : CacheState} {f : String} {id : FileIdentity} {a : Act}
  {m : LocalCacheManager} {t : Task} {α β : Type}

def Closing (s : CacheState) (f : String) : Prop :=
  s.mgr.window f = none ∧ ∃ t ∈ s.tasks, t.opening.map Prod.fst = some f

instance : Decidable (s.Closing f) := inferInstanceAs (Decidable (_ ∧ _))

def concerns : Act → Option String
  | .evict _ p => some p.fileId
  | a => (call a).map Task.file

/-- An open with another identity starts when nothing of its file is in flight. -/
def OpensSettled (s : CacheState) : Act → Prop
  | .onFileOpen f id => s.mgr.window f = some id ∨
    (∀ t ∈ s.tasks, t.file = f → t.finished = true) ∧ ∀ task ∈ s.mgr.pending, task.pageId.fileId ≠ f
  | _ => True

instance (a : Act) : Decidable (s.OpensSettled a) :=
  match a with
  | .onFileOpen _ _ => inferInstanceAs (Decidable (_ ∨ (∀ _ ∈ _, _ → _) ∧ ∀ _ ∈ _, _))
  | .put .. | .scheduleFill .. | .getBytes .. | .delete .. | .invalidate .. | .run ..
  | .evict .. | .leave .. | .reap | .advance .. | .restart => isTrue trivial

def LeavesOpens (s : CacheState) (a : Act) : Prop := ∀ f ∈ concerns a, ¬ s.Closing f

instance (a : Act) : Decidable (s.LeavesOpens a) :=
  inferInstanceAs (Decidable (∀ f ∈ concerns a, _))

def Sheltered (o : CacheManagerOptions) (s : CacheState) (a : Act) : Prop :=
  s.FillsCurrent a ∧ s.OpensSettled a ∧ s.LeavesOpens a ∧ s.Diligent o a

instance (a : Act) : Decidable (s.Sheltered o a) := inferInstanceAs (Decidable (_ ∧ _ ∧ _ ∧ _))

theorem Sheltered.disciplined (h : s.Sheltered o a) (ha : a ≠ .restart) : s.Disciplined o a := by
  refine ⟨h.1, ?_, h.2.2.2.1, ha⟩
  cases a with
  | onFileOpen f id =>
    refine h.2.1.imp_right fun ⟨hfinished, _⟩ t ht => ⟨fun p hp hf => ?_, ?_⟩
    · obtain ⟨hfile, hlive⟩ := file_of_putting hp
      cases hlive.symm.trans (hfinished t ht (hfile.trans hf))
    · rintro ⟨g, id'⟩ hx rfl
      obtain ⟨hfile, hlive⟩ := file_of_opening hx
      cases hlive.symm.trans (hfinished t ht hfile)
  | _ => exact trivial

/-- All that is on disk for `f`, or about to be, has the identity of the window. -/
structure Stamped (o : CacheManagerOptions) (s : CacheState) (f : String) (id : FileIdentity) :
    Prop where
  pages : ∀ p fill, p.fileId = f → s.mgr.page (o.allocate p.fileId) p = some fill → fill.origin = id
  sidecar : ∀ id', s.mgr.identity (o.allocate f) f = some id' → id' = id
  labels : ∀ p fill permit id', p.fileId = f →
    .put p fill permit (.index (some id')) ∈ s.tasks ∨ .put p fill permit (.identity id') ∈ s.tasks →
    id' = id

/-- An open with another identity has its file to itself. -/
structure Alone (s : CacheState) (f : String) : Prop where
  tasks : ∀ (i j : Nat) (t u : Task), i ≠ j → s.tasks[i]? = some t → t.opening.map Prod.fst = some f →
    s.tasks[j]? = some u → u.file = f → u.finished = true
  pending : ∀ task ∈ s.mgr.pending, task.pageId.fileId ≠ f

structure Restartable (o : CacheManagerOptions) (s : CacheState) : Prop where
  coherent : Coherent o s
  accounted : Accounted o s
  stamped : ∀ f id, s.mgr.window f = some id → Stamped o s f id
  uniform : ∀ p id fill, s.mgr.identity (o.allocate p.fileId) p.fileId = some id →
    s.mgr.page (o.allocate p.fileId) p = some fill → fill.origin = id
  unseen : ∀ f, s.mgr.versions f = none → s.mgr.identity (o.allocate f) f = none ∧
    ∀ p, p.fileId = f → s.mgr.page (o.allocate p.fileId) p = none
  alone : ∀ f, s.Closing f → s.Alone f

theorem restartable_fresh : Restartable o (fresh o) where
  coherent := coherent_fresh
  accounted := accounted_fresh
  stamped := by intro f id h; cases h
  uniform := by intro p id fill h; cases h
  unseen := fun f _ => ⟨rfl, fun p _ => rfl⟩
  alone := by
    rintro f ⟨-, t, ht, -⟩
    cases ht

/-! ## Steps of a task -/

section Next

variable {i : Nat} {t : Task} {ok : Bool} {order : List Nat} {dir : Nat}

theorem Stamped.next (h : Stamped o s f id) (hcur : Current s f id) (hi : s.tasks[i]? = some t) :
    Stamped o (s.moved o ok order i t) f id where
  pages p fill hp hpage := by
    have heff := next_effect o ok order s.mgr t
    obtain heq | ⟨-, hnone⟩ | ⟨fill', permit, rfl, -, hsome⟩ := heff.page (o.allocate p.fileId) p
    · exact h.pages p fill hp (heq.symm.trans hpage)
    · cases hnone.symm.trans hpage
    · cases hsome.symm.trans hpage
      exact hcur.puts p fill permit .store (mem_of_getElem? hi) hp rfl
  sidecar id' hid := by
    have heff := next_effect o ok order s.mgr t
    obtain heq | hnone | ⟨p, fill, permit, id'', rfl, rfl, -, hsome⟩ :=
      heff.identity (o.allocate f) f
    · exact h.sidecar id' (heq.symm.trans hid)
    · cases hnone.symm.trans hid
    · cases hsome.symm.trans hid
      exact h.labels p fill permit id' rfl (.inr (mem_of_getElem? hi))
  labels p fill permit id' hp hmem := by
    obtain hmem | hmem := hmem
    · obtain heq | ⟨j, -, hj⟩ := eq_or_other_of_mem_set hmem
      · obtain ⟨pc, rfl, hpc⟩ := next_put heq.symm
        obtain ⟨rfl, hv⟩ := putStep_eq_index hpc
        rw [hp, hcur.version] at hv
        exact (some.inj hv).symm
      · exact h.labels p fill permit id' hp (.inl (mem_of_getElem? hj))
    · obtain heq | ⟨j, -, hj⟩ := eq_or_other_of_mem_set hmem
      · obtain ⟨pc, rfl, hpc⟩ := next_put heq.symm
        obtain rfl := putStep_eq_identity hpc
        exact h.labels p fill permit id' hp (.inl (mem_of_getElem? hi))
      · exact h.labels p fill permit id' hp (.inr (mem_of_getElem? hj))

theorem NoPuts.page_some (h : NoPuts f s) (ok : Bool) (order : List Nat) (hi : s.tasks[i]? = some t)
    {p : PageId} {fill : Fill} (hp : p.fileId = f)
    (hpage : (t.next o ok order s.mgr).1.page dir p = some fill) :
    s.mgr.page dir p = some fill := by
  have heff := next_effect o ok order s.mgr t
  obtain heq | ⟨-, hnone⟩ | ⟨fill', permit, rfl, -, -⟩ := heff.page dir p
  · exact heq.symm.trans hpage
  · cases hnone.symm.trans hpage
  · exact absurd hp (h _ (mem_of_getElem? hi) p rfl)

theorem NoPuts.identity_some (h : NoPuts f s) (ok : Bool) (order : List Nat)
    (hi : s.tasks[i]? = some t) (hid : (t.next o ok order s.mgr).1.identity dir f = some id) :
    s.mgr.identity dir f = some id := by
  have heff := next_effect o ok order s.mgr t
  obtain heq | hnone | ⟨p, fill, permit, id', rfl, rfl, -, -⟩ := heff.identity dir f
  · exact heq.symm.trans hid
  · cases hnone.symm.trans hid
  · exact absurd rfl (h _ (mem_of_getElem? hi) p rfl)

theorem Restartable.empty (h : Restartable o s) {pc : OpenPc}
    (hi : s.tasks[i]? = some (.onFileOpen f id pc)) (hwindow : s.mgr.window f = none)
    (hpc : pc = .setVersion ∨ s.mgr.versions f = none) :
    s.mgr.identity (o.allocate f) f = none ∧
      ∀ p, p.fileId = f → s.mgr.page (o.allocate p.fileId) p = none := by
  obtain rfl | hv := hpc
  · have halone : s.Alone f := h.alone f ⟨hwindow, _, mem_of_getElem? hi, rfl⟩
    have hclosed := h.coherent.closed f hwindow
    -- whoever is in flight on the file is the open itself
    have hopen : ∀ u ∈ s.tasks, u.file = f → u.finished = false →
        u = .onFileOpen f id .setVersion := by
      intro u hu hfile hlive
      obtain ⟨j, hj⟩ := getElem?_of_mem hu
      by_cases hij : i = j
      · subst hij
        exact some.inj (hj.symm.trans hi)
      · cases hlive.symm.trans (halone.tasks i j _ u hij hi rfl hj hfile)
    have hkept : ∀ p, p.fileId = f → ¬ s.Kept o p := by
      rintro p hp (⟨e, he⟩ | hpending | ⟨u, hu, hreap⟩)
      · exact hclosed.handles id _ (mem_of_getElem? hi) p hp (.inl ⟨_, e, he⟩)
      · exact halone.pending _ hpending hp
      · cases unlists_eq hreap
        cases hopen _ hu hp rfl
    have hlisted : ∀ p, p.fileId = f → ¬ s.mgr.Listed p := by
      intro p hp hl
      obtain hk | ⟨u, hu, hr⟩ := h.accounted.listed p hl
      · exact hkept p hp hk
      · obtain ⟨hfile, hlive⟩ := file_of_removal hr rfl
        cases hopen u hu (hfile.trans hp) hlive
        cases hr
    refine ⟨?_, fun p hp => ?_⟩
    · rw [eq_none_iff_forall_ne_some]
      intro id' hid
      obtain ⟨p, hp, hl⟩ | ⟨u, hu, hsweep⟩ := h.accounted.sidecars f id' hid
      · exact hlisted p hp hl
      · obtain ⟨hfile, hlive⟩ := file_of_sweeping hsweep
        cases hopen u hu hfile hlive
        cases hsweep
    · rw [eq_none_iff_forall_ne_some]
      intro fill hpage
      obtain hk | ⟨u, hu, hown⟩ := h.accounted.files p fill hpage
      · exact hkept p hp hk
      · obtain ⟨hfile, hlive⟩ := file_of_owning hown
        cases hopen u hu (hfile.trans hp) hlive
        cases hown
  · exact h.unseen f hv

theorem Restartable.stamped_next (h : Restartable o s) (hi : s.tasks[i]? = some t)
    (hlive : t.finished = false)
    (hwindow : (s.moved o ok order i t).mgr.window f = some id) :
    Stamped o (s.moved o ok order i t) f id := by
  have heff := next_effect o ok order s.mgr t
  obtain ⟨-, hw⟩ | ⟨id', pc, rfl, hpc, -, hw⟩ := heff.tables_at f
  · have hold : s.mgr.window f = some id := hw.symm.trans hwindow
    exact (h.stamped f id hold).next (h.coherent.current f id hold) hi
  · cases hw.symm.trans hwindow
    have hopening : (Task.onFileOpen f id pc).opening = some (f, id) := by
      cases pc with
      | done => cases hlive
      | _ => rfl
    cases hold : s.mgr.window f with
    | some id₁ =>
      have hcur := h.coherent.current f id₁ hold
      cases hcur.opens _ (mem_of_getElem? hi) id hopening
      exact (h.stamped f id hold).next hcur hi
    | none =>
      have hclosed := h.coherent.closed f hold
      have hne := hclosed.opens _ (mem_of_getElem? hi) id hopening
      obtain ⟨hid, hpages⟩ := h.empty hi hold (hpc.resolve_left hne)
      refine ⟨?_, ?_, ?_⟩
      · intro p fill hp hpage
        cases (hpages p hp).symm.trans (hclosed.noPuts.page_some ok order hi hp hpage)
      · intro id' hid'
        cases hid.symm.trans (hclosed.noPuts.identity_some ok order hi hid')
      · intro p fill permit id' hp hmem
        have hnoPuts : NoPuts f (s.moved o ok order i (.onFileOpen f id pc)) :=
          hclosed.noPuts.next hi
        obtain hmem | hmem := hmem
        · exact absurd hp (hnoPuts _ hmem p rfl)
        · exact absurd hp (hnoPuts _ hmem p rfl)

theorem Alone.next (h : s.Alone f) (hi : s.tasks[i]? = some t) (hlive : t.finished = false) :
    (s.moved o ok order i t).Alone f where
  tasks a b x u hab ha hopening hb hfile := by
    have hx : ∃ x₀, s.tasks[a]? = some x₀ ∧ x₀.opening.map Prod.fst = some f := by
      rw [getElem?_set] at ha
      split at ha
      · next heq =>
        subst heq
        split at ha <;> cases ha
        obtain ⟨⟨g, id⟩, hg, rfl⟩ := map_eq_some_iff.1 hopening
        exact ⟨t, hi, map_eq_some_iff.2 ⟨(g, id), next_opening hg, rfl⟩⟩
      · exact ⟨x, ha, hopening⟩
    obtain ⟨x₀, hx₀, hopening₀⟩ := hx
    rw [getElem?_set] at hb
    split at hb
    · next heq =>
      subst heq
      split at hb <;> cases hb
      rw [next_file] at hfile
      cases hlive.symm.trans (h.tasks a i x₀ t hab hx₀ hopening₀ hi hfile)
    · exact h.tasks a b x₀ u hab hx₀ hopening₀ hb hfile
  pending task htask := by
    have heff := next_effect o ok order s.mgr t
    exact h.pending task (heff.pending ▸ htask)

theorem Restartable.next (h : Restartable o s) (hi : s.tasks[i]? = some t)
    (hlive : t.finished = false) (hcoherent : Coherent o (s.moved o ok order i t))
    (haccounted : Accounted o (s.moved o ok order i t)) :
    Restartable o (s.moved o ok order i t) := by
  have heff := next_effect o ok order s.mgr t
  have hclosed : ∀ f, (s.moved o ok order i t).mgr.window f = none → s.mgr.window f = none := by
    intro f hw
    obtain ⟨-, hw'⟩ | ⟨id, pc, -, -, -, hw'⟩ := heff.tables_at f
    · exact hw'.symm.trans hw
    · cases hw'.symm.trans hw
  refine ⟨hcoherent, haccounted, fun f id => h.stamped_next hi hlive, ?_, ?_, ?_⟩
  · intro p id fill hid hpage
    cases hw : (s.moved o ok order i t).mgr.window p.fileId with
    | some id₀ =>
      have hst : Stamped o (s.moved o ok order i t) p.fileId id₀ := h.stamped_next hi hlive hw
      exact (hst.pages p fill rfl hpage).trans (hst.sidecar id hid).symm
    | none =>
      have hnoPuts := (h.coherent.closed p.fileId (hclosed _ hw)).noPuts
      exact h.uniform p id fill (hnoPuts.identity_some ok order hi hid)
        (hnoPuts.page_some ok order hi rfl hpage)
  · intro f hv
    have hv₀ : s.mgr.versions f = none := by
      obtain ⟨hv', -⟩ | ⟨id, pc, -, -, hv', -⟩ := heff.tables_at f
      · exact hv'.symm.trans hv
      · cases hv'.symm.trans hv
    have hw₀ : s.mgr.window f = none := by
      rw [eq_none_iff_forall_ne_some]
      intro id hw
      cases hv₀.symm.trans (h.coherent.current f id hw).version
    have hnoPuts := (h.coherent.closed f hw₀).noPuts
    obtain ⟨hid, hpages⟩ := h.unseen f hv₀
    refine ⟨?_, fun p hp => ?_⟩
    · rw [eq_none_iff_forall_ne_some]
      intro id hid'
      cases hid.symm.trans (hnoPuts.identity_some ok order hi hid')
    · rw [eq_none_iff_forall_ne_some]
      intro fill hpage
      cases (hpages p hp).symm.trans (hnoPuts.page_some ok order hi hp hpage)
  · rintro f ⟨hw, u, hu, hopening⟩
    refine (h.alone f ⟨hclosed f hw, ?_⟩).next hi hlive
    obtain rfl | ⟨j, -, hj⟩ := eq_or_other_of_mem_set hu
    · obtain ⟨⟨g, id⟩, hg, rfl⟩ := map_eq_some_iff.1 hopening
      exact ⟨t, mem_of_getElem? hi, map_eq_some_iff.2 ⟨(g, id), next_opening hg, rfl⟩⟩
    · exact ⟨u, mem_of_getElem? hj, hopening⟩

end Next

/-! ## Steps of the system -/

theorem Restartable.mono (h : Restartable o s) (hcoherent : Coherent o s')
    (haccounted : Accounted o s') (hdirs : s'.mgr.dirs = s.mgr.dirs)
    (hversions : s'.mgr.versions = s.mgr.versions)
    (hwindow : ∀ f id, s'.mgr.window f = some id → s.mgr.window f = some id)
    (hnew : ∀ t ∈ s'.tasks, t ∈ s.tasks ∨ t.Starts) (halone : ∀ f, s'.Closing f → s'.Alone f) :
    Restartable o s' where
  coherent := hcoherent
  accounted := haccounted
  stamped f id hw := by
    have hst := h.stamped f id (hwindow f id hw)
    refine ⟨?_, ?_, ?_⟩
    · intro p fill hp hpage
      rw [page, hdirs] at hpage
      exact hst.pages p fill hp hpage
    · intro id' hid
      rw [identity, hdirs] at hid
      exact hst.sidecar id' hid
    · intro p fill permit id' hp hmem
      refine hst.labels p fill permit id' hp (hmem.imp (fun hm => ?_) fun hm => ?_)
      · exact (hnew _ hm).resolve_right fun hstart => by cases hstart
      · exact (hnew _ hm).resolve_right fun hstart => by cases hstart
  uniform p id fill hid hpage := by
    rw [identity, hdirs] at hid
    rw [page, hdirs] at hpage
    exact h.uniform p id fill hid hpage
  unseen f hv := by
    obtain ⟨hid, hpages⟩ := h.unseen f (hversions ▸ hv)
    rw [identity, hdirs]
    refine ⟨hid, fun p hp => ?_⟩
    rw [page, hdirs]
    exact hpages p hp
  alone := halone

theorem Alone.append (h : s.Alone f) (ht : t.file ≠ f)
    (hpending : ∀ task ∈ m.pending, task ∈ s.mgr.pending) : Alone ⟨m, s.tasks ++ [t]⟩ f where
  tasks i j x u hij hi hopening hj hfile := by
    have hnew : ∀ (k : Nat) (y : Task), (s.tasks ++ [t])[k]? = some y → y.file = f →
        s.tasks[k]? = some y := by
      intro k y hk hy
      by_cases hlt : k < s.tasks.length
      · rwa [getElem?_append_left hlt] at hk
      · rw [getElem?_append_right (Nat.le_of_not_lt hlt)] at hk
        cases mem_singleton.1 (mem_of_getElem? hk)
        exact absurd hy ht
    have hx : x.file = f := by
      obtain ⟨⟨g, id⟩, hg, rfl⟩ := map_eq_some_iff.1 hopening
      exact (file_of_opening hg).1
    exact h.tasks i j x u hij (hnew i x hi hx) hopening (hnew j u hj hfile) hfile
  pending task htask := h.pending task (hpending task htask)

theorem alone_of_settled (hfinished : ∀ u ∈ s.tasks, u.file = f → u.finished = true)
    (hpending : ∀ task ∈ m.pending, task.pageId.fileId ≠ f) : Alone ⟨m, s.tasks ++ [t]⟩ f where
  tasks i j x u hij hi hopening hj hfile := by
    have hold : ∀ (k : Nat) (y : Task), (s.tasks ++ [t])[k]? = some y → k ≠ s.tasks.length →
        y ∈ s.tasks := by
      intro k y hk hne
      by_cases hlt : k < s.tasks.length
      · rw [getElem?_append_left hlt] at hk
        exact mem_of_getElem? hk
      · have hlen := (List.getElem?_eq_some_iff.1 hk).1
        rw [length_append, length_singleton] at hlen
        omega
    by_cases hjlast : j = s.tasks.length
    · obtain ⟨⟨g, id⟩, hg, rfl⟩ := map_eq_some_iff.1 hopening
      obtain ⟨hxfile, hlive⟩ := file_of_opening hg
      have hx := hfinished x (hold i x hi fun hi' => hij (hi'.trans hjlast.symm)) hxfile
      cases hlive.symm.trans hx
    · exact hfinished u (hold j u hj hjlast) hfile
  pending := hpending

theorem Restartable.alone_call (h : Restartable o s) (ht : call a = some t) (hm : SamePages s.mgr m)
    (hsettled : s.OpensSettled a) (hleaves : s.LeavesOpens a)
    (hopen : ∀ f id, a = .onFileOpen f id → ∀ g, m.window g =
      if g = f ∧ s.mgr.window f ≠ some id then none else s.mgr.window g)
    (hother : (∀ f id, a ≠ .onFileOpen f id) → m.window = s.mgr.window)
    (hclosing : Closing ⟨m, s.tasks ++ [t]⟩ f) : Alone ⟨m, s.tasks ++ [t]⟩ f := by
  have hpending : m.pending = s.mgr.pending := by
    rw [pending, hm.leaving, hm.reapQueue, pending]
  have hconcerns : concerns a = some t.file := by
    cases a with
    | evict dir p => cases ht
    | _ => exact congrArg (Option.map Task.file) ht
  by_cases hold : s.Closing f
  · refine (h.alone f hold).append ?_ fun task htask => hpending ▸ htask
    rintro rfl
    exact hleaves t.file hconcerns hold
  · -- the window closes with this call
    have ha : ∃ id, a = .onFileOpen f id ∧ s.mgr.window f ≠ some id := by
      obtain ⟨hw, u, hu, hopening⟩ := hclosing
      by_cases hany : ∃ g id, a = .onFileOpen g id
      · obtain ⟨g, id, rfl⟩ := hany
        have hw' : m.window f = none := hw
        rw [hopen g id rfl f] at hw'
        by_cases hg : f = g ∧ s.mgr.window g ≠ some id
        · obtain ⟨rfl, hne⟩ := hg
          exact ⟨id, rfl, hne⟩
        · rw [if_neg hg] at hw'
          obtain hu | hu := mem_append.1 hu
          · exact absurd ⟨hw', u, hu, hopening⟩ hold
          · cases ht
            cases mem_singleton.1 hu
            cases hopening
            exact absurd ⟨rfl, by rw [hw']; exact (some_ne_none id).symm⟩ hg
      · have hsame : m.window = s.mgr.window := hother fun g id heq => hany ⟨g, id, heq⟩
        obtain hu | hu := mem_append.1 hu
        · exact absurd ⟨hsame ▸ hw, u, hu, hopening⟩ hold
        · cases mem_singleton.1 hu
          cases a with
          | onFileOpen g id => exact absurd ⟨g, id, rfl⟩ hany
          | _ => cases ht <;> cases hopening
    obtain ⟨id, rfl, hne⟩ := ha
    obtain ⟨hfinished, hpend⟩ := hsettled.resolve_left hne
    exact alone_of_settled hfinished fun task htask => hpend task (hpending ▸ htask)

/-! ### The restart itself -/

theorem foldl_orElse (g : α → Option β) (l : List α) (v : Option β) :
    l.foldl (fun v x => g x <|> v) v = none ↔ v = none ∧ ∀ x ∈ l, g x = none := by
  induction l generalizing v with
  | nil => simp
  | cons x l ih =>
    rw [foldl_cons, ih]
    cases hg : g x with
    | none | some y => simp [hg]

theorem mem_of_foldl_orElse {g : α → Option β} {y : β} :
    ∀ {l : List α} {v : Option β}, l.foldl (fun v x => g x <|> v) v = some y →
      v = some y ∨ ∃ x ∈ l, g x = some y := by
  intro l
  induction l with
  | nil => exact fun h => .inl h
  | cons x l ih =>
    intro v h
    obtain hv | ⟨z, hz, hgz⟩ := ih h
    · have hv' : (g x <|> v) = some y := hv
      cases hg : g x with
      | none =>
        rw [hg] at hv'
        exact .inl hv'
      | some y' =>
        rw [hg] at hv'
        cases hv'
        exact .inr ⟨x, mem_cons_self, hg⟩
    · exact .inr ⟨z, mem_cons_of_mem x hz, hgz⟩

theorem versions_restore (h : Placed o s) (f : String) :
    (restore o s.mgr).versions f = (restore o s.mgr).identity (o.allocate f) f := by
  have hplaced := h.restore
  cases hv : (restore o s.mgr).versions f with
  | none =>
    have hall := ((foldl_orElse _ _ _).1 hv).2 (o.allocate f) (mem_range.2 (o.allocate_lt f))
    exact hall.symm
  | some id =>
    obtain hnone | ⟨dir, -, hid⟩ := mem_of_foldl_orElse hv
    · cases hnone
    · obtain rfl := hplaced.identities dir f id hid
      exact hid.symm

theorem identity_of_page_restore {p : PageId} {fill : Fill}
    (h : (restore o m).page (o.allocate p.fileId) p = some fill) :
    ∃ id, (restore o m).identity (o.allocate p.fileId) p.fileId = some id := by
  simp only [page, identity, restore,
    if_pos (o.allocate_lt p.fileId)] at h ⊢
  obtain ⟨-, hid, hne⟩ := lookup_restoreDir h
  rw [hid]
  exact ne_none_iff_exists'.1 hne

theorem Restartable.restore (h : Restartable o s) : Restartable o ⟨restore o s.mgr, []⟩ := by
  have hplaced := h.coherent.placed.restore
  have hversions := versions_restore h.coherent.placed
  have huniform : ∀ p id fill,
      (CacheState.restore o s.mgr).identity (o.allocate p.fileId) p.fileId = some id →
      (CacheState.restore o s.mgr).page (o.allocate p.fileId) p = some fill → fill.origin = id :=
    fun p id fill hid hpage => h.uniform p id fill (identity_restore hid) (page_restore hpage)
  have hresident : ∀ dir p e, (CacheState.restore o s.mgr).caches dir p = some e →
      (CacheState.restore o s.mgr).page (o.allocate p.fileId) p = some e.fill := by
    intro dir p e he
    obtain rfl := hplaced.caches dir p e he
    exact (sane_restore s.mgr).sound _ p e he
  refine ⟨⟨sane_restore s.mgr, hplaced, ?_, ?_, ?_, ?_⟩, accounted_restore h.coherent.placed,
    ?_, huniform, ?_, ?_⟩
  · intro dir p e he
    exact .inl (listed_restore he)
  · intro t ht
    cases ht
  · intro f id hw
    have hid : (CacheState.restore o s.mgr).identity (o.allocate f) f = some id :=
      (hversions f).symm.trans hw
    refine ⟨hw, ?_, ?_, ?_, ?_⟩
    · rintro dir p e rfl he
      exact huniform p id e.fill hid (hresident dir p e he)
    · intro p fill permit pc ht
      cases ht
    · intro t ht
      cases ht
    · intro t ht
      cases ht
  · intro f hw
    refine ⟨?_, ?_, ?_, ?_, ?_, .inl hw⟩
    · intro t ht
      cases ht
    · intro t ht
      cases ht
    · intro t ht
      cases ht
    · intro id pc ht
      cases ht
    · rintro - p rfl (⟨dir, e, he⟩ | ⟨t, ht, -⟩)
      · obtain ⟨id, hid⟩ := identity_of_page_restore (hresident dir p e he)
        cases hw.symm.trans ((hversions p.fileId).trans hid)
      · cases ht
  · intro f id hw
    have hid : (CacheState.restore o s.mgr).identity (o.allocate f) f = some id :=
      (hversions f).symm.trans hw
    refine ⟨?_, ?_, ?_⟩
    · rintro p fill rfl hpage
      exact huniform p id fill hid hpage
    · intro id' hid'
      exact some.inj (hid'.symm.trans hid)
    · intro p fill permit id' _ ht
      cases ht <;> contradiction
  · intro f hv
    have hid : (CacheState.restore o s.mgr).identity (o.allocate f) f = none :=
      (hversions f).symm.trans hv
    refine ⟨hid, ?_⟩
    rintro p rfl
    rw [eq_none_iff_forall_ne_some]
    intro fill hpage
    obtain ⟨id, hid'⟩ := identity_of_page_restore hpage
    cases hid.symm.trans hid'
  · rintro f ⟨-, t, ht, -⟩
    cases ht

theorem Restartable.step (h : Restartable o s) (hshelter : s.Sheltered o a)
    (hs : step o s a = some s') : Restartable o s' := by
  have haccounted := h.accounted.step h.coherent.sane h.coherent.placed h.coherent.indexed
    hshelter.2.2.2 hs
  by_cases ha : a = .restart
  · subst ha
    cases hs
    exact h.restore
  have hcoherent := h.coherent.step (hshelter.disciplined ha) hs
  obtain ⟨-, hsettled, hleaves, hdiligent⟩ := hshelter
  cases step_inv hs with
  | rejected => exact h
  | @call a t m ht hm hopen hother =>
    refine h.mono hcoherent haccounted hm.dirs hm.versions ?_ ?_
      fun f => h.alone_call ht hm hsettled hleaves hopen hother
    · intro f id hw
      have hw' : m.window f = some id := hw
      by_cases hany : ∃ g id', a = .onFileOpen g id'
      · obtain ⟨g, id', rfl⟩ := hany
        rw [hopen g id' rfl f] at hw'
        split at hw'
        · cases hw'
        · exact hw'
      · rwa [hother fun g id' heq => hany ⟨g, id', heq⟩] at hw'
    · intro u hu
      refine (mem_append.1 hu).imp_right fun hu => ?_
      exact mem_singleton.1 hu ▸ starts_of_call ht
  | @run i ok order t hi hlive hen =>
    have hmoved : Restartable o (s.moved o ok order i t) := by
      have hwaits := hdiligent.1.waits hi
      refine h.next hi hlive (h.coherent.next hi hlive hen hwaits) ?_
      exact h.accounted.next h.coherent.sane h.coherent.placed h.coherent.indexed hi hen hwaits
        (hdiligent.2.2 t hi)
    exact hmoved.mono hcoherent haccounted rfl rfl (fun _ _ hw => hw) (fun _ ht => .inl ht)
      fun f hclosing => ⟨(hmoved.alone f hclosing).tasks, (hmoved.alone f hclosing).pending⟩
  | @evict dir p e he =>
    refine h.mono hcoherent haccounted rfl rfl (fun _ _ hw => hw) (fun _ ht => .inl ht) ?_
    intro f hclosing
    have hold := h.alone f hclosing
    refine ⟨hold.tasks, fun task htask => ?_⟩
    have htask' : task ∈ (s.mgr.leaving ++ [⟨p, dir⟩]) ++ s.mgr.reapQueue := htask
    simp only [mem_append, mem_singleton] at htask'
    obtain (htask | rfl) | htask := htask'
    · exact hold.pending task (mem_append.2 (.inl htask))
    · rintro rfl
      exact hleaves p.fileId rfl hclosing
    · exact hold.pending task (mem_append.2 (.inr htask))
  | leave hi =>
    refine h.mono hcoherent haccounted rfl rfl (fun _ _ hw => hw) (fun _ ht => .inl ht) ?_
    intro f hclosing
    have hold := h.alone f hclosing
    exact ⟨hold.tasks, fun task htask => hold.pending task (pending_onLeave hi task htask)⟩
  | @reap task rest hq =>
    have hpending : s.mgr.pending = s.mgr.leaving ++ task :: rest :=
      congrArg (s.mgr.leaving ++ ·) hq
    refine h.mono hcoherent haccounted rfl rfl (fun _ _ hw => hw) ?_ ?_
    · intro u hu
      refine (mem_append.1 hu).imp_right fun hu => ?_
      cases mem_singleton.1 hu
      exact rfl
    · rintro f ⟨hw, u, hu, hopening⟩
      have hold : s.Closing f := by
        obtain hu | hu := mem_append.1 hu
        · exact ⟨hw, u, hu, hopening⟩
        · cases mem_singleton.1 hu
          cases hopening
      refine (h.alone f hold).append ?_ fun task' htask' => ?_
      · refine (h.alone f hold).pending task ?_
        rw [hpending]
        simp
      · have htask'' : task' ∈ s.mgr.leaving ++ rest := htask'
        rw [hpending]
        simp only [mem_append, mem_cons] at htask'' ⊢
        exact htask''.imp_right .inr
  | advance =>
    exact h.mono hcoherent haccounted rfl rfl (fun _ _ hw => hw) (fun _ ht => .inl ht)
      fun f hclosing => ⟨(h.alone f hclosing).tasks, (h.alone f hclosing).pending⟩
  | restart => exact absurd rfl ha

/-- In every sheltered run, whatever a restart would cache of a file was filled
under the identity that the restart would record for it. -/
theorem restart_records_origin (o : CacheManagerOptions) {ls : List Act} {s : CacheState}
    (hrun : Guarded (step o) (Sheltered o) (fresh o) ls s)
    {dir : Nat} {p : PageId} {e : PageInfo}
    (he : (restore o s.mgr).caches dir p = some e) :
    (restore o s.mgr).versions p.fileId = some e.fill.origin := by
  have h : Restartable o s := hrun.invariant (fun _ _ _ h hsh hs => h.step hsh hs) restartable_fresh
  have hrestored := h.restore
  obtain rfl := hrestored.coherent.placed.caches dir p e he
  have hpage := hrestored.coherent.sane.sound _ p e he
  obtain ⟨id, hid⟩ := identity_of_page_restore hpage
  rw [versions_restore h.coherent.placed, hrestored.uniform p id e.fill hid hpage]
  exact hid

theorem restart_records_origin_overwritten : ∃ s,
    Guarded (step tinyOptions) (Sheltered tinyOptions) (fresh tinyOptions)
      (overwritten ⟨1, 1⟩ ⟨1, 2⟩) s ∧
    (restore tinyOptions s.mgr).versions "f" = some ⟨1, 2⟩ := by
  obtain ⟨s, hrun, he⟩ : ∃ s, Guarded (step tinyOptions) (Sheltered tinyOptions)
      (fresh tinyOptions) (overwritten ⟨1, 1⟩ ⟨1, 2⟩) s ∧
      (restore tinyOptions s.mgr).caches 0 ⟨"f", 0⟩ = some ⟨0, [2], ⟨1, 2⟩⟩ :=
    Guarded.exists_of_replay (by decide +kernel)
  exact ⟨s, hrun, restart_records_origin tinyOptions hrun he⟩

/-- A page is evicted, the file is opened with another identity before the reaper
gets to the page, and another page is put. -/
def evictedThenOverwritten (id₁ id₂ : FileIdentity) : List Act :=
  .onFileOpen "f" id₁ :: takes 0 2 ++ .put ⟨"f", 0⟩ ⟨[1], id₁⟩ :: takes 1 10 ++
    [.evict 0 ⟨"f", 0⟩, .leave 0, .onFileOpen "f" id₂, .run 2 true [], .run 2 true [0]] ++
    takes 2 3 ++ .put ⟨"f", 1⟩ ⟨[2], id₂⟩ :: takes 3 8

/-- The invalidation passes the evicted page over, so the file keeps its sidecar,
and a restart records the old identity for the new page. -/
theorem evicted_page_keeps_sidecar : ∃ s,
    Guarded (step tinyOptions) (fun _ _ => True) (fresh tinyOptions)
      (evictedThenOverwritten ⟨1, 1⟩ ⟨1, 2⟩) s ∧ (∀ t ∈ s.tasks, t.finished = true) ∧
    (restore tinyOptions s.mgr).caches 0 ⟨"f", 1⟩ = some ⟨0, [2], ⟨1, 2⟩⟩ ∧
    (restore tinyOptions s.mgr).versions "f" = some ⟨1, 1⟩ :=
  Guarded.exists_of_replay (by decide +kernel)

end CacheState

end GooseFS
