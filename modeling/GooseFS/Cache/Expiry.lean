import GooseFS.Cache.Residency

/-!
# Expiry

A get that finds an entry older than the time to live drops the read lock, takes
the write lock and looks the page up again; only what is expired then is removed.
Between the two looks the page may be deleted, evicted and put again.

`expiry_spares_newer` traces a run back.  A get that returns bytes returns those
of an entry that had not expired when the get looked it up.  While a get removes a
page, the entry and the file that are still there belong to the entry it has found
expired under the write lock, and nothing else has acted under that lock since.
-/

namespace GooseFS

open Lib List CacheState

namespace Task

variable {o : CacheManagerOptions} {ok : Bool} {m : LocalCacheManager} {p : PageId}
  {offset len : Nat} {pc : GetPc}

def expiring : Task → Bool
  | .get _ _ _ .expireRemove => true
  | .get _ _ _ (.expired pc) => !pc.finished
  | _ => false

theorem writing_of_expiring (h : expiring (.get p offset len pc) = true) :
    writing (.get p offset len pc) = some p := by
  cases pc with
  | expireRemove => rfl
  | expired r => exact if_neg (by simpa [expiring] using h)
  | _ => cases h

theorem getStep_to_read {info : PageInfo} (h : (getStep o ok p offset len m pc).2 = .read info) :
    pc = .lookup ∧ m.caches (o.allocate p.fileId) p = some info ∧ m.expired o.ttl info = false := by
  obtain ⟨rfl, hentry⟩ := getStep_eq_read h
  refine ⟨rfl, hentry, ?_⟩
  simp only [getStep, hentry] at h
  split at h
  · cases h
  · next hexp => exact Bool.eq_false_iff.mpr hexp

theorem getStep_to_ret {bytes : Bytes} {fill : Fill}
    (h : (getStep o ok p offset len m pc).2 = .ret bytes (some fill)) :
    (∃ info, pc = .read info) ∧ m.page (o.allocate p.fileId) p = some fill ∧
      bytes = slice fill.bytes offset len := by
  cases pc with
  | lookup | expireLookup =>
    simp only [getStep] at h
    split at h
    · cases h
    · split at h <;> cases h
  | read info =>
    simp only [getStep] at h
    split at h
    · cases h
    · next hpage =>
      split at h <;> cases h
      exact ⟨⟨info, rfl⟩, hpage, rfl⟩
  | _ => cases h

/-- A get goes on with a removal, or begins one after it has found its page expired
under the write lock. -/
theorem getStep_to_expiring
    (h : expiring (.get p offset len (getStep o ok p offset len m pc).2) = true) :
    expiring (.get p offset len pc) = true ∨ pc = .expireLookup ∧
      (getStep o ok p offset len m pc).1 = m ∧
      ∃ e, m.caches (o.allocate p.fileId) p = some e ∧ m.expired o.ttl e = true := by
  cases pc with
  | lookup | read info =>
    simp only [getStep] at h
    split at h
    · cases h
    · split at h <;> cases h
  | expireLookup =>
    cases he : m.caches (o.allocate p.fileId) p with
    | none =>
      simp only [getStep, he] at h
      cases h
    | some e =>
      simp only [getStep, he] at h ⊢
      split at h
      · next hexp => exact .inr ⟨trivial, trivial, e, rfl, hexp⟩
      · cases h
  | expireRemove => exact .inl rfl
  | expired r =>
    cases r with
    | done => cases h
    | _ => exact .inl rfl
  | _ => cases h

end Task

namespace CacheState

open GooseFS.Task

variable {o : CacheManagerOptions} {s s' : CacheState} {p : PageId} {offset len : Nat} {a : Act}
  {dir i : Nat} {e : PageInfo} {ls : List Act}

/-! ## One step -/

theorem task_of_step {t' : Task} (hs : step o s a = some s') (h : s'.tasks[i]? = some t') :
    s.tasks[i]? = some t' ∨ t'.Starts ∨
      ∃ ok order t, a = .run i ok order ∧ s.tasks[i]? = some t ∧ t' = (t.next o ok order s.mgr).2 ∧
        s' = s.advance i (t.next o ok order s.mgr).1 t' := by
  have hspawn : ∀ {u : Task}, (s.tasks ++ [u])[i]? = some t' → u.Starts →
      s.tasks[i]? = some t' ∨ t'.Starts := by
    intro u hu hstarts
    rw [getElem?_append] at hu
    split at hu
    · exact .inl hu
    · have hmem : t' ∈ [u] := mem_of_getElem? hu
      rw [mem_singleton] at hmem
      exact .inr (hmem ▸ hstarts)
  cases step_inv hs with
  | rejected | evict _ | leave _ | advance => exact .inl h
  | call ht _ _ _ => exact (hspawn h (starts_of_call ht)).imp_right .inl
  | @run j ok order t hj _ _ =>
    by_cases hij : j = i
    · subst hij
      have hself : t' = (t.next o ok order s.mgr).2 := by
        have hset : (s.tasks.set j (t.next o ok order s.mgr).2)[j]? = some t' := h
        rw [getElem?_set_self (List.getElem?_eq_some_iff.mp hj).1] at hset
        exact (Option.some.inj hset).symm
      exact .inr (.inr ⟨ok, order, t, rfl, hj, hself, by rw [hself]⟩)
    · refine .inl ?_
      have hset : (s.tasks.set j (t.next o ok order s.mgr).2)[i]? = some t' := h
      rwa [getElem?_set_ne hij] at hset
  | @reap task rest _ =>
    have hstarts : Starts (.reap task .index) := rfl
    exact (hspawn h hstarts).imp_right .inl
  | restart => cases h

theorem get_of_step {pc' : GetPc} (hs : step o s a = some s')
    (hnew : s.tasks[i]? ≠ some (.get p offset len pc'))
    (h : s'.tasks[i]? = some (.get p offset len pc')) (hstarts : pc' ≠ .lock ∧ pc' ≠ .done) :
    ∃ ok order pc, a = .run i ok order ∧ s.tasks[i]? = some (.get p offset len pc) ∧
      (getStep o ok p offset len s.mgr pc).2 = pc' ∧
      s' = s.advance i (getStep o ok p offset len s.mgr pc).1 (.get p offset len pc') := by
  obtain hold | hst | ⟨ok, order, t, ha, ht, hnext, hs'⟩ := task_of_step hs h
  · exact absurd hold hnew
  · exact (Or.elim hst hstarts.1 hstarts.2).elim
  · obtain ⟨pc, rfl, hpc⟩ := next_get hnext.symm
    exact ⟨ok, order, pc, ha, ht, hpc, hs'⟩

theorem createdAt_of_step (hs : step o s a = some s') (hnew : s.mgr.caches dir p ≠ some e)
    (h : s'.mgr.caches dir p = some e) : s.mgr.now = e.createdAt := by
  cases step_inv hs with
  | rejected | leave _ | reap _ | advance => exact absurd h hnew
  | call _ hm _ _ =>
    rw [hm.caches] at h
    exact absurd h hnew
  | @run i ok order t _ _ _ =>
    have h' : (t.next o ok order s.mgr).1.caches dir p = some e := h
    have heff := next_effect o ok order s.mgr t
    obtain heq | ⟨-, hnone | ⟨fill, permit, -, -, hsome⟩⟩ := heff.caches dir p
    · rw [heq] at h'
      exact absurd h' hnew
    · rw [hnone] at h'
      cases h'
    · rw [hsome] at h'
      cases h'
      rfl
  | @evict dir' q e' _ =>
    exact absurd (caches_of_evict h) hnew
  | restart =>
    have h' : (restore o s.mgr).caches dir p = some e := h
    simp only [restore] at h'
    split at h'
    · obtain ⟨fill, -, rfl⟩ := Option.map_eq_some_iff.mp h'
      rfl
    · cases h'

theorem page_of_expiring_step {pc : GetPc} (h : Sane o s) (hs : step o s a = some s')
    (hi : s.tasks[i]? = some (.get p offset len pc)) (hexp : expiring (.get p offset len pc) = true)
    (ha : a ≠ .restart) (dir : Nat) :
    (s'.mgr.caches dir p = s.mgr.caches dir p ∨ s'.mgr.caches dir p = none) ∧
      (s'.mgr.page dir p = s.mgr.page dir p ∨ s'.mgr.page dir p = none) := by
  have hheld : writing (.get p offset len pc) = some p := writing_of_expiring hexp
  have hsame : ∀ {m : LocalCacheManager}, m.caches = s.mgr.caches → m.dirs = s.mgr.dirs →
      (m.caches dir p = s.mgr.caches dir p ∨ m.caches dir p = none) ∧
        (m.page dir p = s.mgr.page dir p ∨ m.page dir p = none) := by
    intro m hc hd
    refine ⟨.inl (by rw [hc]), .inl ?_⟩
    rw [LocalCacheManager.page, hd, LocalCacheManager.page]
  cases step_inv hs with
  | rejected | leave _ | reap _ | advance => exact hsame rfl rfl
  | call _ hm _ _ => exact hsame hm.caches hm.dirs
  | @run j ok order t hj _ _ =>
    -- only a put adds to a page, and a put that could would hold its lock
    have hput : ∀ fill permit pc', t = .put p fill permit pc' → t.writing ≠ some p := by
      intro fill permit pc' ht hw
      by_cases hij : i = j
      · subst hij
        rw [hi] at hj
        rw [ht] at hj
        cases hj
      · exact h.not_writing hj hi hij (.inl hheld) hw
    have heff := next_effect o ok order s.mgr t
    constructor
    · obtain heq | ⟨hw, hnone | ⟨fill, permit, ht, -⟩⟩ := heff.caches dir p
      · exact .inl heq
      · exact .inr hnone
      · exact absurd hw (hput fill permit _ ht)
    · obtain heq | ⟨-, hnone⟩ | ⟨fill, permit, ht, -⟩ := heff.page dir p
      · exact .inl heq
      · exact .inr hnone
      · exact absurd (ht ▸ rfl) (hput fill permit _ ht)
  | @evict dir' q e _ =>
    refine ⟨?_, .inl rfl⟩
    by_cases hq : dir = dir' ∧ p = q
    · exact .inr (if_pos hq)
    · exact .inl (if_neg hq)
  | restart => exact absurd rfl ha

/-! ## Runs -/

abbrev Run (o : CacheManagerOptions) (ls : List Act) (s : CacheState) : Prop :=
  Guarded (step o) (fun _ _ => True) (fresh o) ls s

theorem Run.sane (h : Run o ls s) : Sane o s :=
  h.invariant (fun _ _ _ hs _ hstep => hs.step hstep) sane_fresh

/-- A run has admitted the entry `e` of `p` at the time that `e` says. -/
def Admitted (o : CacheManagerOptions) (ls : List Act) (dir : Nat) (p : PageId) (e : PageInfo) :
    Prop :=
  ∃ pre s₀ a s₁ post, ls = pre ++ a :: post ∧ Run o pre s₀ ∧ step o s₀ a = some s₁ ∧
    s₀.mgr.caches dir p ≠ some e ∧ s₁.mgr.caches dir p = some e ∧ s₀.mgr.now = e.createdAt

theorem Run.admitted (h : Run o ls s) (he : s.mgr.caches dir p = some e) :
    Admitted o ls dir p e := by
  have hfresh : ¬ (fresh o).mgr.caches dir p = some e := by
    intro h0
    cases h0
  obtain ⟨pre, s₀, a, s₁, post, hls, hentry⟩ :=
    h.exists_entered (fun s => s.mgr.caches dir p = some e) hfresh he
  exact ⟨pre, s₀, a, s₁, post, hls, hentry.before, hentry.moves, hentry.outside, hentry.inside,
    createdAt_of_step hentry.moves hentry.outside hentry.inside⟩

/-- No task but `i` takes a step under the write lock of `p`. -/
def LockKept (i : Nat) (p : PageId) (s : CacheState) (a : Act) : Prop :=
  ∀ j ok order t, a = .run j ok order → s.tasks[j]? = some t → t.writing = some p → j = i

/-- Task `i` is a get of `p` that removes the page. -/
def Expiring (i : Nat) (p : PageId) (offset len : Nat) (s : CacheState) : Prop :=
  ∃ pc, s.tasks[i]? = some (.get p offset len pc) ∧ expiring (.get p offset len pc) = true

theorem Expiring.lockKept (hsane : Sane o s) (h : Expiring i p offset len s) :
    LockKept i p s a := by
  obtain ⟨pc, hi, hexp⟩ := h
  intro j ok order t _ hj hw
  by_contra hne
  exact hsane.not_writing hj hi (Ne.symm hne) (.inl (writing_of_expiring hexp)) hw

theorem expiring_of_step (hs : step o s a = some s') (hnew : ¬ Expiring i p offset len s)
    (h : Expiring i p offset len s') :
    s.tasks[i]? = some (.get p offset len .expireLookup) ∧ s'.mgr.caches = s.mgr.caches ∧
      ∃ e, s.mgr.caches (o.allocate p.fileId) p = some e ∧ s.mgr.expired o.ttl e = true := by
  obtain ⟨pc', hi', hexp⟩ := h
  have hfirst : pc' ≠ .lock ∧ pc' ≠ .done := by
    constructor <;> rintro rfl <;> cases hexp
  obtain ⟨ok, order, pc, -, hi, hpc, rfl⟩ :=
    get_of_step hs (fun hold => hnew ⟨pc', hold, hexp⟩) hi' hfirst
  obtain hold | ⟨rfl, hm, hfound⟩ := getStep_to_expiring (hpc ▸ hexp)
  · exact absurd ⟨pc, hi, hold⟩ hnew
  · exact ⟨hi, congrArg LocalCacheManager.caches hm, hfound⟩

/-- Nothing is left of `p` but the entry `e` and its file. -/
structure OnlyLeft (dir : Nat) (p : PageId) (e : PageInfo) (s : CacheState) : Prop where
  entry : s.mgr.caches dir p = some e ∨ s.mgr.caches dir p = none
  file : s.mgr.page dir p = some e.fill ∨ s.mgr.page dir p = none

theorem OnlyLeft.step (h : OnlyLeft dir p e s) (hsane : Sane o s) (hat : Expiring i p offset len s)
    (hs : step o s a = some s') (hat' : Expiring i p offset len s') :
    OnlyLeft dir p e s' := by
  obtain ⟨pc, hi, hexp⟩ := hat
  have hnot : a ≠ .restart := by
    rintro rfl
    obtain ⟨pc', hi', -⟩ := hat'
    cases hs
    cases hi'
  obtain ⟨hcaches, hpage⟩ := page_of_expiring_step hsane hs hi hexp hnot dir
  constructor
  · obtain heq | hnone := hcaches
    · rw [heq]
      exact h.entry
    · exact .inr hnone
  · obtain heq | hnone := hpage
    · rw [heq]
      exact h.file
    · exact .inr hnone

theorem Expiring.onlyLeft
    (hrun : Guarded (step o) (fun s _ => True ∧ Expiring i p offset len s) s ls s')
    (hsane : Sane o s) (hc : s.mgr.caches dir p = some e) (hend : Expiring i p offset len s') :
    OnlyLeft dir p e s' := by
  let Inv : CacheState → Prop := fun s =>
    Sane o s ∧ (Expiring i p offset len s → OnlyLeft dir p e s)
  have hstart : Inv s := ⟨hsane, fun _ => ⟨.inl hc, .inl (hsane.sound dir p e hc)⟩⟩
  have hinv : Inv s' := by
    refine hrun.invariant ?_ hstart
    rintro s₁ a s₂ ⟨hsane₁, hleft⟩ ⟨-, hat⟩ hs
    exact ⟨hsane₁.step hs, (hleft hat).step hsane₁ hat hs⟩
  exact hinv.2 hend

theorem Run.found {info : PageInfo} (h : Run o ls s)
    (hi : s.tasks[i]? = some (.get p offset len (.read info))) :
    ∃ pre s₁, pre <+: ls ∧ Run o pre s₁ ∧ s₁.tasks[i]? = some (.get p offset len .lookup) ∧
      s₁.mgr.caches (o.allocate p.fileId) p = some info ∧ s₁.mgr.expired o.ttl info = false := by
  have hfresh : ¬ (fresh o).tasks[i]? = some (.get p offset len (.read info)) := by
    intro h0
    cases h0
  obtain ⟨pre, s₁, a, s₂, post, hls, hentry⟩ := h.exists_entered
    (fun s => s.tasks[i]? = some (.get p offset len (.read info))) hfresh hi
  obtain ⟨ok, order, pc, -, hpc, hnext, -⟩ :=
    get_of_step hentry.moves hentry.outside hentry.inside ⟨by simp, by simp⟩
  obtain ⟨rfl, hcaches, hexp⟩ := getStep_to_read hnext
  exact ⟨pre, s₁, ⟨a :: post, hls.symm⟩, hentry.before, hpc, hcaches, hexp⟩

theorem Run.read {bytes : Bytes} {fill : Fill} (h : Run o ls s)
    (hi : s.tasks[i]? = some (.get p offset len (.ret bytes (some fill)))) :
    ∃ pre s₁ info, pre <+: ls ∧ Run o pre s₁ ∧
      s₁.tasks[i]? = some (.get p offset len (.read info)) ∧ info.fill = fill ∧
      bytes = slice fill.bytes offset len := by
  have hfresh : ¬ (fresh o).tasks[i]? = some (.get p offset len (.ret bytes (some fill))) := by
    intro h0
    cases h0
  obtain ⟨pre, s₁, a, s₂, post, hls, hentry⟩ := h.exists_entered
    (fun s => s.tasks[i]? = some (.get p offset len (.ret bytes (some fill)))) hfresh hi
  obtain ⟨ok, order, pc, -, hpc, hnext, -⟩ :=
    get_of_step hentry.moves hentry.outside hentry.inside ⟨by simp, by simp⟩
  obtain ⟨⟨info, rfl⟩, hpage, hbytes⟩ := getStep_to_ret hnext
  -- the read lock has kept the file as it was at the lookup
  have hfill : s₁.mgr.page (o.allocate p.fileId) p = some info.fill :=
    ((Run.sane hentry.before).outlines.get hpc).get_read p offset len info rfl
  rw [hpage] at hfill
  exact ⟨pre, s₁, info, ⟨a :: post, hls.symm⟩, hentry.before, hpc, (Option.some.inj hfill).symm,
    hbytes⟩

/-- In every run, a get serves only the bytes of an entry that had not expired when it
was looked up, and a get that removes an expired page removes an entry and a file
that it has found expired under the write lock, in a state since which no other task has
acted under that lock. -/
theorem expiry_spares_newer (o : CacheManagerOptions) {ls : List Act} {s : CacheState}
    (hrun : Guarded (step o) (fun _ _ => True) (fresh o) ls s) (i : Nat) (p : PageId)
    (offset len : Nat) :
    (∀ bytes fill, s.tasks[i]? = some (.get p offset len (.ret bytes (some fill))) →
      ∃ pre s₁ info, pre <+: ls ∧ Run o pre s₁ ∧ s₁.tasks[i]? = some (.get p offset len .lookup) ∧
        s₁.mgr.caches (o.allocate p.fileId) p = some info ∧
        Admitted o pre (o.allocate p.fileId) p info ∧ s₁.mgr.expired o.ttl info = false ∧
        info.fill = fill ∧ bytes = slice fill.bytes offset len) ∧
    (Expiring i p offset len s → ∃ pre s₁ a s₂ post e, ls = pre ++ a :: post ∧ Run o pre s₁ ∧
        s₁.tasks[i]? = some (.get p offset len .expireLookup) ∧ step o s₁ a = some s₂ ∧
        s₁.mgr.caches (o.allocate p.fileId) p = some e ∧
        Admitted o pre (o.allocate p.fileId) p e ∧ s₁.mgr.expired o.ttl e = true ∧
        Guarded (step o) (LockKept i p) s₂ post s ∧
        OnlyLeft (o.allocate p.fileId) p e s) := by
  constructor
  · intro bytes fill hi
    obtain ⟨mid, s₂, info, hmid, hrun₂, hread, hfill, hbytes⟩ := Run.read hrun hi
    obtain ⟨pre, s₁, hpre, hrun₁, hlookup, hcaches, hexp⟩ := hrun₂.found hread
    exact ⟨pre, s₁, info, hpre.trans hmid, hrun₁, hlookup, hcaches, hrun₁.admitted hcaches, hexp,
      hfill, hbytes⟩
  · intro hend
    have hfresh : ¬ Expiring i p offset len (fresh o) := by
      rintro ⟨pc, h0, -⟩
      cases h0
    obtain ⟨pre, s₁, a, s₂, post, hls, hentry⟩ := hrun.exists_entered _ hfresh hend
    obtain ⟨hi, hc, e, he, hexp⟩ := expiring_of_step hentry.moves hentry.outside hentry.inside
    have hsane₂ : Sane o s₂ := (Run.sane hentry.before).step hentry.moves
    have hkept : Guarded (step o) (LockKept i p) s₂ post s := by
      refine hentry.after.mono_of_reached fun _ s₃ a' hmid hat => ?_
      have hsane₃ : Sane o s₃ := hmid.invariant (fun _ _ _ h _ hstep => h.step hstep) hsane₂
      exact hat.2.lockKept hsane₃
    have hleft : OnlyLeft (o.allocate p.fileId) p e s :=
      Expiring.onlyLeft hentry.after hsane₂ (hc ▸ he) hend
    exact ⟨pre, s₁, a, s₂, post, e, hls, hentry.before, hi, hentry.moves, he,
      Run.admitted hentry.before he, hexp, hkept, hleft⟩

def shortLived : CacheManagerOptions := { tinyOptions with ttl := some 10 }

/-- Two pages are put, and eleven ticks later a get finds the first one expired. -/
def firstLook : List Act :=
  .put ⟨"f", 0⟩ ⟨[1], ⟨1, 1⟩⟩ :: takes 0 9 ++ .put ⟨"f", 1⟩ ⟨[1], ⟨1, 1⟩⟩ :: takes 1 8 ++
    .advance 11 :: .getBytes ⟨"f", 0⟩ 0 1 :: takes 2 2

/-- The page is deleted and put again before the get looks a second time.  Then one more
get has read the page, and another is about to remove the other page. -/
def secondLook : List Act :=
  .delete ⟨"f", 0⟩ :: takes 3 4 ++ .put ⟨"f", 0⟩ ⟨[2], ⟨1, 1⟩⟩ :: takes 4 8 ++ takes 2 2 ++
    .getBytes ⟨"f", 0⟩ 0 1 :: takes 5 3 ++ .getBytes ⟨"f", 1⟩ 0 1 :: takes 6 4

theorem expiry_spares_newer_page :
    (∃ s₀, Guarded (step shortLived) (fun _ _ => True) (fresh shortLived) firstLook s₀ ∧
      s₀.tasks[2]? = some (.get ⟨"f", 0⟩ 0 1 .expireLock)) ∧
    ∃ s, Guarded (step shortLived) (fun _ _ => True) (fresh shortLived)
        (firstLook ++ secondLook) s ∧
      s.tasks[2]? = some (.get ⟨"f", 0⟩ 0 1 .done) ∧
      s.mgr.page 0 ⟨"f", 0⟩ = some ⟨[2], ⟨1, 1⟩⟩ ∧
      (∃ pre s₁ info, Run shortLived pre s₁ ∧ s₁.mgr.caches 0 ⟨"f", 0⟩ = some info ∧
        s₁.mgr.expired (some 10) info = false ∧ info.fill = ⟨[2], ⟨1, 1⟩⟩) ∧
      ∃ pre s₁ e, Run shortLived pre s₁ ∧ s₁.mgr.caches 0 ⟨"f", 1⟩ = some e ∧
        s₁.mgr.expired (some 10) e = true ∧ OnlyLeft 0 ⟨"f", 1⟩ e s := by
  refine ⟨Guarded.exists_of_replay (by decide +kernel), ?_⟩
  obtain ⟨s, hrun, hspares, hpage, hserves, hremoves⟩ : ∃ s,
      Guarded (step shortLived) (fun _ _ => True) (fresh shortLived)
        (firstLook ++ secondLook) s ∧
      s.tasks[2]? = some (.get ⟨"f", 0⟩ 0 1 .done) ∧
      s.mgr.page 0 ⟨"f", 0⟩ = some ⟨[2], ⟨1, 1⟩⟩ ∧
      s.tasks[5]? = some (.get ⟨"f", 0⟩ 0 1 (.ret [2] (some ⟨[2], ⟨1, 1⟩⟩))) ∧
      s.tasks[6]? = some (.get ⟨"f", 1⟩ 0 1 .expireRemove) :=
    Guarded.exists_of_replay (by decide +kernel)
  obtain ⟨pre, s₁, info, -, hpre, -, hinfo, -, hfresh, hfill, -⟩ :=
    (expiry_spares_newer shortLived hrun 5 ⟨"f", 0⟩ 0 1).1 [2] ⟨[2], ⟨1, 1⟩⟩ hserves
  obtain ⟨pre', s₂, -, -, -, e, -, hpre', -, -, he, -, hexp, -, hleft⟩ :=
    (expiry_spares_newer shortLived hrun 6 ⟨"f", 1⟩ 0 1).2 ⟨_, hremoves, rfl⟩
  exact ⟨s, hrun, hspares, hpage, ⟨pre, s₁, info, hpre, hinfo, hfresh, hfill⟩, pre', s₂, e, hpre', he,
    hexp, hleft⟩

end CacheState

end GooseFS
