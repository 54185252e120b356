import GooseFS.Client.WorkerPool

/-!
# Single-flight reconnects

What the calls on a worker pool guarantee one another.  A caller of
`reconnect_if_stale` never gets the generation back that it has observed.  The
generations of a channel advance as long as its mutex is shared: `invalidate` removes
the mutex from the map, and a call that still holds it inserts its client after the
next holder of a new mutex has inserted a later one (`reconnect_lost`).  The callers
that observed one generation share a handshake as long as its client stays: once a
later reconnect has removed the client and failed, the next of them finds no client and
connects again.
-/

namespace GooseFS

open Lib List WorkerClientPool

theorem WorkerPc.fetched_of_droppedLock {pc : WorkerPc} {slot : Nat}
    (h : pc.droppedLock = some slot) : pc.fetched = none := by
  cases pc <;> first | rfl | cases h

namespace WorkerPc.Step

variable {size : Nat} {addr : String} {observed : Option Nat} {m m' : WorkerClientPool}
  {pc pc' : WorkerPc} {x : WorkerInput} {c l slot : Nat} {key : ChannelKey}

/-! ## What a step changes -/

variable (h : Step size addr observed m pc x m' pc')
include h

theorem installed : m'.installed = m.installed ∨ ∃ slot l c, pc = .insert slot l c ∧
      m'.installed = m.installed ++ [((addr, slot), c)] := by
  cases h with
  | insert => exact .inr ⟨_, _, _, rfl, rfl⟩
  | connected =>
    left
    cases observed <;> rfl
  | _ => exact .inl rfl

theorem mem_installed {y : ChannelKey × Nat} (hy : y ∈ m.installed) : y ∈ m'.installed := by
  obtain heq | ⟨_, _, _, -, heq⟩ := h.installed
  · exact heq ▸ hy
  · exact heq ▸ mem_append_left _ hy

theorem clients (hc : m'.clients key = some c) :
    m.clients key = some c ∨ ∃ slot l, pc = .insert slot l c ∧ key = (addr, slot) := by
  cases h with
  | @remove slot =>
    left
    by_cases hkey : key = (addr, slot)
    · simp [WorkerClientPool.removeClient, hkey] at hc
    · simpa [WorkerClientPool.removeClient, hkey] using hc
  | @insert slot l generation =>
    by_cases hkey : key = (addr, slot)
    · have hc' : generation = c := by simpa [insertClient, hkey] using hc
      exact .inr ⟨slot, l, by rw [hc'], hkey⟩
    · left
      simpa [insertClient, hkey] using hc
  | dropClients =>
    left
    simp only [removeClients] at hc
    split at hc
    · cases hc
    · exact hc
  | connected =>
    left
    cases observed <;> exact hc
  | _ => exact .inl hc

theorem nextGeneration_le : m.nextGeneration ≤ m'.nextGeneration := by
  cases h with
  | stamp => exact Nat.le_succ _
  | connected => cases observed <;> exact Nat.le_refl _
  | _ => exact Nat.le_refl _

theorem epochs_le (a : String) : m.epochs a ≤ m'.epochs a := by
  cases h with
  | dropClients =>
    by_cases ha : a = addr
    · simp [removeClients, ha]
    · simp [removeClients, ha]
  | connected => cases observed <;> exact Nat.le_refl _
  | _ => exact Nat.le_refl _

theorem handshakes :
    m'.handshakes = m.handshakes ∨ ∃ slot l epoch g, pc = .connecting slot l epoch ∧
      observed = some g ∧ m'.handshakes = m.handshakes ++ [⟨(addr, slot), epoch, g⟩] := by
  cases h with
  | connected =>
    cases observed with
    | none => exact .inl rfl
    | some g => exact .inr ⟨_, _, _, g, rfl, rfl, rfl⟩
  | _ => exact .inl rfl

theorem reconnectLocks (hl : m.reconnectLocks key = some l) :
    m'.reconnectLocks key = some l ∨ ∃ slot, pc.droppedLock = some slot ∧ key = (addr, slot) := by
  cases h with
  | @create slot _ hnone =>
    left
    have hkey : key ≠ (addr, slot) := by
      rintro rfl
      rw [hnone] at hl
      cases hl
    simpa [hkey] using hl
  | @dropLock slot =>
    by_cases hkey : key = (addr, slot)
    · exact .inr ⟨slot, rfl, hkey⟩
    · left
      simpa [removeLock, hkey] using hl
  | connected =>
    left
    cases observed <;> exact hl
  | _ => exact .inl hl

theorem mutexes (hl : m.mutexes[l]? = some true) :
    m'.mutexes[l]? = some true ∨ ∃ slot r, pc = .unlock slot l r := by
  have hlt := (List.getElem?_eq_some_iff.1 hl).1
  cases h with
  | create =>
    left
    exact (getElem?_append_left hlt).trans hl
  | @lock _ l' _ hfree =>
    left
    have hne : l' ≠ l := by
      rintro rfl
      rw [hl] at hfree
      cases hfree
    exact (getElem?_set_ne hne).trans hl
  | @unlock slot l' r =>
    by_cases hll : l' = l
    · subst hll
      exact .inr ⟨slot, r, rfl⟩
    · exact .inl ((getElem?_set_ne hll).trans hl)
  | connected =>
    left
    cases observed <;> exact hl
  | _ => exact .inl hl

theorem stamped (hc : pc'.stamped = some (slot, c)) :
    c = m.nextGeneration ∧ m' = m.stamp ∧ ∃ l, pc = .stamp slot l := by
  cases h with
  | stamp =>
    cases hc
    exact ⟨rfl, rfl, _, rfl⟩
  | _ => cases hc

theorem result (hc : pc'.result = some c) :
    pc.result = some c ∨ (∃ slot, m.clients (addr, slot) = some c) ∨
      ∃ slot l, pc = .insert slot l c := by
  cases h with
  | loadHit hload | coalesce hload =>
    cases hc
    exact .inr (.inl ⟨_, hload⟩)
  | insert =>
    cases hc
    exact .inr (.inr ⟨_, _, rfl⟩)
  | unlock => exact .inl hc
  | _ => cases hc

theorem length_mutexes_le : m.mutexes.length ≤ m'.mutexes.length := by
  cases h with
  | create => simp
  | lock => simp [WorkerClientPool.lock]
  | unlock => simp [WorkerClientPool.unlock]
  | connected => cases observed <;> exact Nat.le_refl _
  | _ => exact Nat.le_refl _

theorem reconnectLocks_new (hl : m'.reconnectLocks key = some l) : m.reconnectLocks key = some l ∨
      l = m.mutexes.length ∧ l < m'.mutexes.length ∧ ∃ slot stale, pc = .lockFor slot stale ∧
        key = (addr, slot) := by
  cases h with
  | @create slot stale hnone =>
    by_cases hkey : key = (addr, slot)
    · have hl' : m.mutexes.length = l := by simpa [hkey] using hl
      exact .inr ⟨hl'.symm, by simp [hl'], slot, stale, rfl, hkey⟩
    · left
      simpa [hkey] using hl
  | @dropLock slot =>
    left
    by_cases hkey : key = (addr, slot)
    · simp [removeLock, hkey] at hl
    · simpa [removeLock, hkey] using hl
  | connected =>
    left
    cases observed <;> exact hl
  | _ => exact .inl hl

theorem fetched (hf : pc'.fetched = some (slot, l)) :
    pc.fetched = some (slot, l) ∨ m'.reconnectLocks (addr, slot) = some l := by
  cases h with
  | fetch hl =>
    cases hf
    exact .inr hl
  | create =>
    cases hf
    exact .inr (by simp)
  | lock | coalesce | miss | stale | remove | connected | refused | stamp
  | insert => exact .inl hf
  | _ => cases hf

theorem holds (hh : pc'.holds = true) : pc'.fetched = pc.fetched ∧
      ((pc.holds = true ∧ ∀ slot l r, pc ≠ .unlock slot l r) ∨
        ∃ slot l, pc.fetched = some (slot, l) ∧ m.mutexes[l]? = some false ∧
          m'.mutexes[l]? = some true) := by
  cases h with
  | @lock slot l stale hfree =>
    have hlt := (List.getElem?_eq_some_iff.1 hfree).1
    exact ⟨rfl, .inr ⟨slot, l, rfl, hfree, getElem?_set_self hlt⟩⟩
  | coalesce | miss | stale | remove | connected | refused | stamp
  | insert => exact ⟨rfl, .inl ⟨rfl, fun _ _ _ heq => by cases heq⟩⟩
  | _ => cases hh

theorem clients_kept (hc : m.clients key = some c) :
    m'.clients key = some c ∨ m.epochs key.1 < m'.epochs key.1 ∨
      ∃ slot, key = (addr, slot) ∧ (pc'.replacing = some slot ∨
        ∃ c', pc.stamped = some (slot, c') ∧ m'.clients key = some c') := by
  cases h with
  | @remove slot =>
    by_cases hkey : key = (addr, slot)
    · exact .inr (.inr ⟨slot, hkey, .inl rfl⟩)
    · left
      simpa [WorkerClientPool.removeClient, hkey] using hc
  | @insert slot l generation =>
    by_cases hkey : key = (addr, slot)
    · refine .inr (.inr ⟨slot, hkey, .inr ⟨generation, rfl, ?_⟩⟩)
      simp [insertClient, hkey]
    · left
      simpa [insertClient, hkey] using hc
  | dropClients =>
    by_cases haddr : key.1 = addr
    · refine .inr (.inl ?_)
      simp [removeClients, haddr]
    · left
      simpa [removeClients, haddr] using hc
  | connected =>
    left
    cases observed <;> exact hc
  | _ => exact .inl hc

theorem replacing (hr : pc.replacing = some slot) : pc'.replacing = some slot ∨ x = .refused ∨
      ∃ c, pc.stamped = some (slot, c) ∧ m'.clients (addr, slot) = some c := by
  cases h with
  | connected | stamp => exact .inl hr
  | refused => exact .inr (.inl rfl)
  | @insert slot' l generation =>
    cases hr
    exact .inr (.inr ⟨generation, rfl, by simp [insertClient]⟩)
  | _ => cases hr

end WorkerPc.Step

namespace WorkerCall

variable {size : Nat} {m m' : WorkerClientPool} {t t' : WorkerCall} {x : WorkerInput}

theorem step_of_next (h : t.next size m x = some (m', t')) :
    ∃ pc', t' = { t with pc := pc' } ∧ t.pc.Step size t.addr t.observed m x m' pc' := by
  obtain ⟨⟨m₁, pc'⟩, hout, heq⟩ := Option.map_eq_some_iff.1 h
  cases heq
  exact ⟨pc', rfl, WorkerPc.step_of_next hout⟩

theorem pc_of_start (h : t.start = true) :
    t.pc = .nextSlot ∧ t.observed = none ∨ t.pc = .dropClients ∧ t.observed = none ∨
      t.pc = .scan := by
  obtain ht | ht | ⟨-, ht⟩ := of_decide_eq_true h
  · rw [ht]
    exact .inl ⟨rfl, rfl⟩
  · rw [ht]
    exact .inr (.inl ⟨rfl, rfl⟩)
  · rw [ht]
    exact .inr (.inr rfl)

end WorkerCall

/-! ## Generations -/

/-- The clients of the map have been inserted, with generations handed out before. -/
structure WorkerClientPool.Numbered (m : WorkerClientPool) : Prop where
  pos : 0 < m.nextGeneration
  installed : ∀ y ∈ m.installed, 0 < y.2 ∧ y.2 < m.nextGeneration
  clients : ∀ key c, m.clients key = some c → (key, c) ∈ m.installed

namespace WorkerCall

/-- A generation that is about to be inserted has not been inserted before. -/
structure Stamped (m : WorkerClientPool) (t : WorkerCall) : Prop where
  stamped : ∀ slot c, t.pc.stamped = some (slot, c) →
    0 < c ∧ c < m.nextGeneration ∧ ∀ y ∈ m.installed, y.2 ≠ c
  result : ∀ c, t.pc.result = some c → ∃ y ∈ m.installed, y.2 = c

def StampedApart (t u : WorkerCall) : Prop :=
  ∀ v w, t.pc.stamped = some v → u.pc.stamped = some w → v.2 ≠ w.2

end WorkerCall

namespace WorkerCalls

variable {n : Nat} {p : WorkerCalls} {as : List WorkerAct} {C : WorkerCalls → WorkerAct → Prop}

theorem numbered_of_step {size : Nat} {m m' : WorkerClientPool} {t : WorkerCall} {x : WorkerInput}
    {pc' : WorkerPc} (hm : m.Numbered) (ht : t.Stamped m)
    (hstep : t.pc.Step size t.addr t.observed m x m' pc') : m'.Numbered where
  pos := Nat.lt_of_lt_of_le hm.pos hstep.nextGeneration_le
  installed := by
    intro y hy
    have hle := hstep.nextGeneration_le
    obtain heq | ⟨slot, l, c, hpc, heq⟩ := hstep.installed
    · rw [heq] at hy
      have hold := hm.installed y hy
      omega
    · rw [heq] at hy
      obtain hy | hy := mem_append.1 hy
      · have hold := hm.installed y hy
        omega
      · cases mem_singleton.1 hy
        have hnew := ht.stamped slot c (by rw [hpc]; rfl)
        omega
  clients := by
    intro key c hc
    obtain hold | ⟨slot, l, hpc, rfl⟩ := hstep.clients hc
    · exact hstep.mem_installed (hm.clients key c hold)
    · rw [hpc] at hstep
      cases hstep
      exact mem_append_right _ mem_cons_self

theorem numbered_run (h : Guarded (step n) C init as p) :
    p.Holds WorkerClientPool.Numbered (fun m t => t.Stamped m) WorkerCall.StampedApart := by
  refine Pool.Holds.run ?_ ?_ ?_ h (.init ⟨Nat.one_pos, by simp [new], fun _ _ hc => by cases hc⟩)
  · intro t u htu v w hv hw
    exact (htu w v hw hv).symm
  · intro p t hp _ hstart
    have hpc : t.pc.stamped = none ∧ t.pc.result = none := by
      obtain ⟨hpc, -⟩ | ⟨hpc, -⟩ | hpc := WorkerCall.pc_of_start hstart <;> rw [hpc] <;>
        exact ⟨rfl, rfl⟩
    refine ⟨⟨fun slot c hc => ?_, fun c hc => ?_⟩, fun u v w hv => ?_⟩
    · rw [hpc.1] at hc
      cases hc
    · rw [hpc.2] at hc
      cases hc
    · rw [hpc.1] at hv
      cases hv
  · intro p i x t m' t' hp _ hi hnext
    obtain ⟨pc', rfl, hstep⟩ := WorkerCall.step_of_next hnext
    have hown := hp.tasks.get hi
    refine ⟨numbered_of_step hp.shared hown hstep, ⟨?_, ?_⟩, fun j u hne hj => ⟨⟨?_, ?_⟩, ?_⟩⟩
    · intro slot c hc
      obtain ⟨rfl, rfl, -⟩ := hstep.stamped hc
      refine ⟨hp.shared.pos, Nat.lt_succ_self _, fun y hy heq => ?_⟩
      have hlt := (hp.shared.installed y hy).2
      omega
    · intro c hc
      obtain hc | ⟨slot, hc⟩ | ⟨slot, l, hpc⟩ := hstep.result hc
      · obtain ⟨y, hy, hyc⟩ := hown.result c hc
        exact ⟨y, hstep.mem_installed hy, hyc⟩
      · exact ⟨_, hstep.mem_installed (hp.shared.clients _ c hc), rfl⟩
      · rw [hpc] at hstep
        cases hstep
        exact ⟨_, mem_append_right _ mem_cons_self, rfl⟩
    · intro slot c hc
      obtain ⟨hpos, hlt, hnew⟩ := (hp.tasks.get hj).stamped slot c hc
      refine ⟨hpos, Nat.lt_of_lt_of_le hlt hstep.nextGeneration_le, fun y hy => ?_⟩
      obtain heq | ⟨slot', l, c', hpc, heq⟩ := hstep.installed
      · exact hnew y (heq ▸ hy)
      · rw [heq] at hy
        obtain hy | hy := mem_append.1 hy
        · exact hnew y hy
        · cases mem_singleton.1 hy
          exact hp.apart (Ne.symm hne) hi hj (slot', c') (slot, c) (by rw [hpc]; rfl) hc
    · intro c hc
      obtain ⟨y, hy, hyc⟩ := (hp.tasks.get hj).result c hc
      exact ⟨y, hstep.mem_installed hy, hyc⟩
    · intro v w hv hw
      obtain ⟨hv, -, -⟩ := hstep.stamped hv
      have hlt := ((hp.tasks.get hj).stamped w.1 w.2 hw).2.1
      omega

end WorkerCalls

/-! ## What a reconnect returns -/

namespace WorkerPc

def Serves (size : Nat) : WorkerPc → Nat → Prop
  | .nextSlot, slot => slot < size
  | .load slot', slot => slot = slot'
  | .lockFor slot' false, slot => slot = slot'
  | .wait slot' false _, slot => slot = slot'
  | .recheck slot' false _, slot => slot = slot'
  | _, _ => False

end WorkerPc

/-- A caller of `reconnect_if_stale` keeps clear of the generation that it passed: no
other call inserts it any more. -/
structure WorkerCall.Shuns (size : Nat) (m : WorkerClientPool) (t : WorkerCall) (g : Nat) :
    Prop where
  lt : g < m.nextGeneration
  inserted : g = 0 ∨ ∃ y ∈ m.installed, y.2 = g
  serves : ∀ slot, t.pc.Serves size slot → m.clients (t.addr, slot) ≠ some g
  stamped : ∀ slot c, t.pc.stamped = some (slot, c) → g < c
  result : t.pc.result ≠ some g

namespace WorkerCalls

variable {n : Nat} {p : WorkerCalls} {as : List WorkerAct} {g size : Nat} {m m' : WorkerClientPool}
  {pc' : WorkerPc} {t : WorkerCall} {x : WorkerInput}

theorem clients_ne_of_step {key : ChannelKey} (ht : t.Stamped m)
    (hstep : t.pc.Step size t.addr t.observed m x m' pc') (hg : g = 0 ∨ ∃ y ∈ m.installed, y.2 = g)
    (hne : m.clients key ≠ some g) : m'.clients key ≠ some g := by
  intro hc
  obtain hold | ⟨slot, l, hpc, -⟩ := hstep.clients hc
  · exact hne hold
  · obtain ⟨hpos, -, hnew⟩ := ht.stamped slot g (by rw [hpc]; rfl)
    obtain rfl | ⟨y, hy, hyg⟩ := hg
    · exact Nat.lt_irrefl 0 hpos
    · exact hnew y hy hyg

theorem shuns_of_step (hsize : 0 < size) (hg : t.observed = some g) (ht : t.Stamped m)
    (hown : t.Shuns size m g) (hstep : t.pc.Step size t.addr t.observed m x m' pc') :
    WorkerCall.Shuns size m' { t with pc := pc' } g where
  lt := Nat.lt_of_lt_of_le hown.lt hstep.nextGeneration_le
  inserted := hown.inserted.imp_right fun ⟨y, hy, hyg⟩ => ⟨y, hstep.mem_installed hy, hyg⟩
  serves := by
    intro slot hserves
    refine clients_ne_of_step ht hstep hown.inserted ?_
    have hclear := hown.serves
    generalize t.pc = pc at hstep hclear
    cases hstep with
    | @nextSlot rr slot' hlt =>
      obtain rfl : slot = slot' := hserves
      exact hclear slot (hlt hsize)
    | scanMiss hobs hmiss =>
      cases hobs.symm.trans hg
      exact hmiss slot hserves
    | loadMiss => exact hclear slot hserves
    | @fetch _ _ stale | @create _ stale | @lock _ _ stale =>
      cases stale with
      | false => exact hclear slot hserves
      | true => cases hserves
    | _ => cases hserves
  stamped := by
    intro slot c hc
    obtain ⟨rfl, -, -⟩ := hstep.stamped hc
    exact hown.lt
  result := by
    intro hr
    have hclear := hown.serves
    have hresult := hown.result
    have hstamped := hown.stamped
    generalize t.pc = pc at hstep hclear hresult hstamped
    cases hstep with
    | loadHit hload =>
      cases hr
      exact hclear _ rfl hload
    | @coalesce slot l c stale hload hlt =>
      cases hr
      cases stale with
      | false => exact hclear _ rfl hload
      | true => exact Nat.lt_irrefl _ (hlt rfl _ hg)
    | insert =>
      cases hr
      exact Nat.lt_irrefl _ (hstamped _ _ rfl)
    | unlock => exact hresult hr
    | _ => cases hr

theorem shuns_run (h : Guarded (step n) Observed init as p) :
    ∀ t ∈ p.tasks, ∀ g, t.observed = some g → t.Shuns (poolSize n) p.shared g := by
  have hnumbered : Guarded (step n) (fun p a => p.Observed a ∧
      p.Holds WorkerClientPool.Numbered (fun m t => t.Stamped m) WorkerCall.StampedApart)
      init as p :=
    h.mono_of_reached fun pre p a hpre hc => ⟨hc, numbered_run hpre⟩
  have hsize : 0 < poolSize n := Nat.lt_of_lt_of_le Nat.one_pos (Nat.le_max_right _ _)
  refine (Pool.Holds.run (G := fun _ => True) (R := fun _ _ => True)
    (A := fun m t => ∀ g, t.observed = some g → t.Shuns (poolSize n) m g)
    (fun _ _ _ => trivial) ?_ ?_ hnumbered (.init trivial)).tasks
  · rintro p t hp ⟨hobserved, hnum⟩ hstart
    refine ⟨fun g hg => ?_, fun _ => trivial⟩
    obtain ⟨-, hnone⟩ | ⟨-, hnone⟩ | hpc := WorkerCall.pc_of_start hstart
    · rw [hnone] at hg
      cases hg
    · rw [hnone] at hg
      cases hg
    have hknown : g = 0 ∨ ∃ y ∈ p.shared.installed, y.2 = g :=
      (hobserved g hg).imp_right fun ⟨u, hu, hug⟩ => (hnum.tasks u hu).result g hug
    refine ⟨?_, hknown, ?_, ?_, ?_⟩
    · obtain rfl | ⟨y, hy, rfl⟩ := hknown
      · exact hnum.shared.pos
      · exact (hnum.shared.installed y hy).2
    · rw [hpc]
      exact fun _ hserves => by cases hserves
    · rw [hpc]
      exact fun _ _ hc => by cases hc
    · rw [hpc]
      exact fun hc => by cases hc
  · rintro p i x t m' t' hp ⟨-, hnum⟩ hi hnext
    obtain ⟨pc', rfl, hstep⟩ := WorkerCall.step_of_next hnext
    refine ⟨trivial, fun g hg => ?_, fun j u hne hj => ⟨fun g hg => ?_, trivial⟩⟩
    · exact shuns_of_step hsize hg (hnum.tasks.get hi) (hp.tasks.get hi g hg) hstep
    · have hu := hp.tasks.get hj g hg
      exact {
        lt := Nat.lt_of_lt_of_le hu.lt hstep.nextGeneration_le
        inserted := hu.inserted.imp_right fun ⟨y, hy, hyg⟩ => ⟨y, hstep.mem_installed hy, hyg⟩
        serves := fun slot hs =>
          clients_ne_of_step (hnum.tasks.get hi) hstep hu.inserted (hu.serves slot hs)
        stamped := hu.stamped
        result := hu.result }

end WorkerCalls

/-! ## One call at a time on a channel -/

structure WorkerClientPool.Ordered (m : WorkerClientPool) : Prop where
  locks_inj : ∀ key key' l, m.reconnectLocks key = some l → m.reconnectLocks key' = some l →
    key = key'
  locks_lt : ∀ key l, m.reconnectLocks key = some l → l < m.mutexes.length
  advance : m.installed.Pairwise fun y z => y.1 = z.1 → y.2 < z.2

namespace WorkerCall

/-- The mutex of a call is the one in the map, and what it is about to insert is later
than all that its channel has had. -/
structure InTurn (m : WorkerClientPool) (t : WorkerCall) : Prop where
  fetched : ∀ slot l, t.pc.fetched = some (slot, l) → m.reconnectLocks (t.addr, slot) = some l
  held : ∀ slot l, t.pc.holds = true → t.pc.fetched = some (slot, l) → m.mutexes[l]? = some true
  stamped : ∀ slot c, t.pc.stamped = some (slot, c) → ∀ y ∈ m.installed, y.1 = (t.addr, slot) →
    y.2 < c

def LockedApart (t u : WorkerCall) : Prop := ∀ key, t.locked = some key → u.locked ≠ some key

variable {t u : WorkerCall} {m m' : WorkerClientPool} {x : WorkerInput} {pc' : WorkerPc}
  {size : Nat} {c slot : Nat}

theorem locked_eq_some {key : ChannelKey} (h : t.locked = some key) :
    t.pc.holds = true ∧ ∃ slot l, t.pc.fetched = some (slot, l) ∧ key = (t.addr, slot) := by
  unfold locked at h
  split at h
  · next hh =>
    obtain ⟨⟨slot, l⟩, hf, rfl⟩ := Option.map_eq_some_iff.1 h
    exact ⟨hh, slot, l, hf, rfl⟩
  · cases h

theorem locked_of_replacing (h : t.pc.replacing = some slot) : t.locked = some (t.addr, slot) := by
  unfold locked
  cases hpc : t.pc <;> rw [hpc] at h <;> cases h <;> rfl

theorem replacing_of_stamped (h : t.pc.stamped = some (slot, c)) : t.pc.replacing = some slot := by
  cases hpc : t.pc <;> rw [hpc] at h <;> cases h
  rfl

theorem locked_of_stamped (h : t.pc.stamped = some (slot, c)) :
    t.locked = some (t.addr, slot) := locked_of_replacing (replacing_of_stamped h)

theorem inTurn_of_step (hm : m.Numbered) (ht : t.InTurn m)
    (hstep : t.pc.Step size t.addr t.observed m x m' pc') :
    InTurn m' { t with pc := pc' } where
  fetched := by
    intro slot l hf
    obtain hf | hl := hstep.fetched hf
    · obtain hl | ⟨slot', hdrop, -⟩ := hstep.reconnectLocks (ht.fetched slot l hf)
      · exact hl
      · -- `invalidate` has fetched no mutex
        rw [WorkerPc.fetched_of_droppedLock hdrop] at hf
        cases hf
    · exact hl
  held := by
    intro slot l hh hf
    obtain ⟨hsame, ⟨hholds, hne⟩ | ⟨slot', l', hf', -, hheld⟩⟩ := hstep.holds hh
    · obtain hheld | ⟨slot', r, hpc⟩ := hstep.mutexes (ht.held slot l hholds (hsame ▸ hf))
      · exact hheld
      · exact (hne slot' l r hpc).elim
    · cases hf.symm.trans (hsame.trans hf')
      exact hheld
  stamped := by
    intro slot c hc y hy _
    obtain ⟨rfl, rfl, -⟩ := hstep.stamped hc
    exact (hm.installed y hy).2

theorem InTurn.of_other (hm : m.Ordered) (hu : u.InTurn m) (ht : t.InTurn m)
    (hapart : LockedApart t u)
    (hkept : ∀ slot, t.pc.droppedLock = some slot → u.fetchedKey ≠ some (t.addr, slot))
    (hstep : t.pc.Step size t.addr t.observed m x m' pc') : u.InTurn m' where
  fetched := by
    intro slot l hf
    obtain hl | ⟨slot', hdrop, hkey⟩ := hstep.reconnectLocks (hu.fetched slot l hf)
    · exact hl
    · refine (hkept slot' hdrop ?_).elim
      rw [fetchedKey, hf, ← hkey]
      rfl
  held := by
    intro slot l hh hf
    obtain hheld | ⟨slot', r, hpc⟩ := hstep.mutexes (hu.held slot l hh hf)
    · exact hheld
    · -- the call that unlocks holds another mutex
      have hlock := ht.fetched slot' l (by rw [hpc]; rfl)
      have hkey := hm.locks_inj _ _ l hlock (hu.fetched slot l hf)
      refine (hapart (t.addr, slot') (by rw [locked, hpc]; rfl) ?_).elim
      rw [locked, if_pos hh, hf, hkey]
      rfl
  stamped := by
    intro slot c hc y hy hkey
    obtain heq | ⟨slot', l, c', hpc, heq⟩ := hstep.installed
    · exact hu.stamped slot c hc y (heq ▸ hy) hkey
    · rw [heq] at hy
      obtain hy | hy := mem_append.1 hy
      · exact hu.stamped slot c hc y hy hkey
      · cases mem_singleton.1 hy
        replace hkey : (t.addr, slot') = (u.addr, slot) := hkey
        have hlocked : t.locked = some (t.addr, slot') := by rw [locked, hpc]; rfl
        exact (hapart _ hlocked (hkey ▸ locked_of_stamped hc)).elim

theorem lockedApart_of_step (ht : t.InTurn m) (hu : u.InTurn m) (hapart : LockedApart t u)
    (hstep : t.pc.Step size t.addr t.observed m x m' pc') :
    LockedApart { t with pc := pc' } u := by
  intro key hkey hukey
  obtain ⟨hh, slot, l, hf, rfl⟩ := locked_eq_some hkey
  obtain ⟨hsame, ⟨hholds, -⟩ | ⟨slot', l', hf', hfree, -⟩⟩ := hstep.holds hh
  · refine hapart (t.addr, slot) ?_ hukey
    rw [locked, if_pos hholds, ← hsame, hf]
    rfl
  · -- the mutex is free, so that the other call is not in the section
    cases hf.symm.trans (hsame.trans hf')
    obtain ⟨huh, slot₂, l₂, huf, heq⟩ := locked_eq_some hukey
    have hlock := hu.fetched slot₂ l₂ huf
    have hown := ht.fetched slot l hf'
    rw [← heq] at hlock
    cases hown.symm.trans hlock
    rw [hu.held slot₂ l huh huf] at hfree
    cases hfree

end WorkerCall

namespace WorkerCalls

variable {n : Nat} {p : WorkerCalls} {as : List WorkerAct}

theorem ordered_of_step {size : Nat} {m m' : WorkerClientPool} {t : WorkerCall} {x : WorkerInput}
    {pc' : WorkerPc} (hm : m.Ordered) (ht : t.InTurn m)
    (hstep : t.pc.Step size t.addr t.observed m x m' pc') : m'.Ordered where
  locks_inj := by
    intro key key' l hl hl'
    obtain hl | ⟨hnew, -, slot, stale, hpc, hkey⟩ := hstep.reconnectLocks_new hl
    · obtain hl' | ⟨hnew, -⟩ := hstep.reconnectLocks_new hl'
      · exact hm.locks_inj key key' l hl hl'
      · have hlt := hm.locks_lt key l hl
        omega
    · obtain hl' | ⟨-, -, slot', stale', hpc', hkey'⟩ := hstep.reconnectLocks_new hl'
      · have hlt := hm.locks_lt key' l hl'
        omega
      · cases hpc.symm.trans hpc'
        exact hkey.trans hkey'.symm
  locks_lt := by
    intro key l hl
    obtain hl | ⟨-, hlt, -⟩ := hstep.reconnectLocks_new hl
    · exact Nat.lt_of_lt_of_le (hm.locks_lt key l hl) hstep.length_mutexes_le
    · exact hlt
  advance := by
    obtain heq | ⟨slot, l, c, hpc, heq⟩ := hstep.installed
    · exact heq ▸ hm.advance
    · rw [heq]
      refine pairwise_append.2 ⟨hm.advance, pairwise_singleton _ _, ?_⟩
      intro y hy z hz hkey
      cases mem_singleton.1 hz
      exact ht.stamped slot c (by rw [hpc]; rfl) y hy hkey

theorem ordered_run (h : Guarded (step n) LocksKept init as p) :
    p.Holds WorkerClientPool.Ordered (fun m t => t.InTurn m) WorkerCall.LockedApart := by
  have hnumbered : Guarded (step n) (fun p a => p.LocksKept a ∧ p.shared.Numbered) init as p :=
    h.mono_of_reached fun pre p a hpre hc => ⟨hc, (numbered_run hpre).shared⟩
  refine Pool.Holds.run ?_ ?_ ?_ hnumbered (.init ⟨fun _ _ _ hl => (by cases hl),
    fun _ _ hl => (by cases hl), Pairwise.nil⟩)
  · intro t u htu key hu ht
    exact htu key ht hu
  · rintro p t hp - hstart
    have hpc : t.pc.fetched = none ∧ t.pc.stamped = none ∧ t.locked = none := by
      unfold WorkerCall.locked
      obtain ⟨hpc, -⟩ | ⟨hpc, -⟩ | hpc := WorkerCall.pc_of_start hstart <;> rw [hpc] <;>
        exact ⟨rfl, rfl, rfl⟩
    refine ⟨⟨fun slot l hf => ?_, fun slot l _ hf => ?_, fun slot c hc => ?_⟩, fun u key hkey => ?_⟩
    · rw [hpc.1] at hf
      cases hf
    · rw [hpc.1] at hf
      cases hf
    · rw [hpc.2.1] at hc
      cases hc
    · rw [hpc.2.2] at hkey
      cases hkey
  · rintro p i x t m' t' hp ⟨hkept, hnum⟩ hi hnext
    obtain ⟨pc', rfl, hstep⟩ := WorkerCall.step_of_next hnext
    have hown := hp.tasks.get hi
    refine ⟨ordered_of_step hp.shared hown hstep, WorkerCall.inTurn_of_step hnum hown hstep,
      fun j u hne hj => ⟨?_, ?_⟩⟩
    · refine (hp.tasks.get hj).of_other hp.shared hown (hp.apart (Ne.symm hne) hi hj) ?_ hstep
      exact fun slot hdrop => hkept t hi slot hdrop u (mem_of_getElem? hj)
    · exact WorkerCall.lockedApart_of_step hown (hp.tasks.get hj)
        (hp.apart (Ne.symm hne) hi hj) hstep

end WorkerCalls

/-! ## One handshake for each observed generation -/

structure WorkerClientPool.Recorded (m : WorkerClientPool) : Prop where
  nodup : m.handshakes.Nodup
  epoch_le : ∀ h ∈ m.handshakes, h.epoch ≤ m.epochs h.key.1
  observed_lt : ∀ h ∈ m.handshakes, h.observed < m.nextGeneration

namespace WorkerCall

/-- A call that goes for a handshake is the first of those that observed its
generation. -/
structure First (m : WorkerClientPool) (t : WorkerCall) : Prop where
  removing : ∀ slot l g, t.pc = .removeClient slot l → t.observed = some g →
    ⟨(t.addr, slot), m.epochs t.addr, g⟩ ∉ m.handshakes
  connecting : ∀ slot l epoch, t.pc = .connecting slot l epoch → epoch ≤ m.epochs t.addr ∧
    ∀ g, t.observed = some g → ⟨(t.addr, slot), epoch, g⟩ ∉ m.handshakes
  stamped : ∀ slot c, t.pc.stamped = some (slot, c) → ∀ h ∈ m.handshakes,
    h.key = (t.addr, slot) → h.observed < c

variable {t u : WorkerCall} {m m' : WorkerClientPool} {x : WorkerInput} {pc' : WorkerPc}
  {size : Nat}

theorem mem_handshakes_of_other (hapart : LockedApart t u)
    (hstep : t.pc.Step size t.addr t.observed m x m' pc') {h : Handshake}
    (hlocked : u.locked = some h.key) (hmem : h ∈ m'.handshakes) : h ∈ m.handshakes := by
  obtain heq | ⟨slot, l, epoch, g, hpc, -, heq⟩ := hstep.handshakes
  · exact heq ▸ hmem
  · rw [heq] at hmem
    obtain hmem | hmem := mem_append.1 hmem
    · exact hmem
    · cases mem_singleton.1 hmem
      exact (hapart _ (by rw [locked, hpc]; rfl) hlocked).elim

theorem First.of_other (hm : m.Recorded) (hu : u.First m) (hapart : LockedApart t u)
    (hstep : t.pc.Step size t.addr t.observed m x m' pc') : u.First m' where
  removing := by
    intro slot l g hpc hg hmem
    have hold := mem_handshakes_of_other hapart hstep (by rw [locked, hpc]; rfl) hmem
    -- the handshake is of the epoch before the step, which is then the epoch after it
    have hepoch : m'.epochs u.addr = m.epochs u.addr :=
      Nat.le_antisymm (hm.epoch_le _ hold) (hstep.epochs_le u.addr)
    rw [hepoch] at hold
    exact hu.removing slot l g hpc hg hold
  connecting := by
    intro slot l epoch hpc
    obtain ⟨hle, hnew⟩ := hu.connecting slot l epoch hpc
    refine ⟨Nat.le_trans hle (hstep.epochs_le u.addr), fun g hg hmem => ?_⟩
    exact hnew g hg (mem_handshakes_of_other hapart hstep (by rw [locked, hpc]; rfl) hmem)
  stamped := by
    intro slot c hc h hmem hkey
    refine hu.stamped slot c hc h ?_ hkey
    exact mem_handshakes_of_other hapart hstep (hkey ▸ locked_of_stamped hc) hmem

end WorkerCall

namespace WorkerCalls

variable {n : Nat} {p : WorkerCalls} {as : List WorkerAct} {i size : Nat} {m' : WorkerClientPool}
  {pc' : WorkerPc} {t : WorkerCall} {x : WorkerInput}

/-- After a handshake of the current epoch, its channel has a later client than the one
observed, or a call is about to insert one. -/
def Covered (p : WorkerCalls) : Prop :=
  ∀ h ∈ p.shared.handshakes, h.epoch = p.shared.epochs h.key.1 →
    (∃ c, p.shared.clients h.key = some c ∧ h.observed < c) ∨
      ∃ u ∈ p.tasks, ∃ slot, u.pc.replacing = some slot ∧ h.key = (u.addr, slot)

theorem not_mem_handshakes {slot l g : Nat} {stale : Bool} (hcovered : p.Covered)
    (hapart : Apart WorkerCall.LockedApart p.tasks) (hi : p.tasks[i]? = some t)
    (hpc : t.pc = .recheck slot stale l)
    (hclient : ∀ c, p.shared.clients (t.addr, slot) = some c → c ≤ g) :
    ⟨(t.addr, slot), p.shared.epochs t.addr, g⟩ ∉ p.shared.handshakes := by
  intro hmem
  obtain ⟨c, hc, hlt⟩ | ⟨u, hu, slot', hr, hkey⟩ := hcovered _ hmem rfl
  · exact Nat.not_le_of_lt hlt (hclient c hc)
  · obtain ⟨j, hj⟩ := getElem?_of_mem hu
    by_cases hji : j = i
    · subst hji
      cases hi.symm.trans hj
      rw [hpc] at hr
      cases hr
    · have hlocked := WorkerCall.locked_of_replacing hr
      rw [← hkey] at hlocked
      exact hapart (Ne.symm hji) hi hj _ (by rw [WorkerCall.locked, hpc]; rfl) hlocked

theorem first_of_step (hcovered : p.Covered) (hapart : Apart WorkerCall.LockedApart p.tasks)
    (hm : p.shared.Recorded) (hi : p.tasks[i]? = some t) (ht : t.First p.shared)
    (hstep : t.pc.Step size t.addr t.observed p.shared x m' pc') :
    WorkerCall.First m' { t with pc := pc' } where
  removing := by
    rintro slot l g rfl hg
    generalize hpc : t.pc = pc at hstep
    cases hstep with
    | stale hle =>
      have hnew := not_mem_handshakes hcovered hapart hi hpc fun c hc => hle c g hc hg
      exact hnew
  connecting := by
    rintro slot l epoch rfl
    generalize hpc : t.pc = pc at hstep
    cases hstep with
    | miss hnone =>
      have hnew (g : Nat) := not_mem_handshakes (g := g) hcovered hapart hi hpc fun c hc => by
        rw [hnone] at hc
        cases hc
      exact ⟨Nat.le_refl _, fun g _ => hnew g⟩
    | remove => exact ⟨Nat.le_refl _, fun g hg => ht.removing slot l g hpc hg⟩
  stamped := by
    intro slot c hc h hmem _
    obtain ⟨rfl, rfl, -⟩ := hstep.stamped hc
    exact hm.observed_lt h hmem

theorem recorded_of_step {m : WorkerClientPool} (hm : m.Recorded) (ht : t.First m)
    (hobserved : ∀ g, t.observed = some g → g < m.nextGeneration)
    (hstep : t.pc.Step size t.addr t.observed m x m' pc') : m'.Recorded := by
  have hgen := hstep.nextGeneration_le
  obtain heq | ⟨slot, l, epoch, g, hpc, hg, heq⟩ := hstep.handshakes
  · refine ⟨heq ▸ hm.nodup, fun h hmem => ?_, fun h hmem => ?_⟩
    · exact Nat.le_trans (hm.epoch_le h (heq ▸ hmem)) (hstep.epochs_le _)
    · exact Nat.lt_of_lt_of_le (hm.observed_lt h (heq ▸ hmem)) hgen
  · obtain ⟨hle, hnew⟩ := ht.connecting slot l epoch hpc
    refine ⟨?_, fun h hmem => ?_, fun h hmem => ?_⟩
    · rw [heq]
      refine nodup_append.2 ⟨hm.nodup, pairwise_singleton _ _, ?_⟩
      rintro h hmem _ hsingle rfl
      cases mem_singleton.1 hsingle
      exact hnew g hg hmem
    · rw [heq] at hmem
      refine Nat.le_trans ?_ (hstep.epochs_le _)
      obtain hmem | hmem := mem_append.1 hmem
      · exact hm.epoch_le h hmem
      · cases mem_singleton.1 hmem
        exact hle
    · rw [heq] at hmem
      refine Nat.lt_of_lt_of_le ?_ hgen
      obtain hmem | hmem := mem_append.1 hmem
      · exact hm.observed_lt h hmem
      · cases mem_singleton.1 hmem
        exact hobserved g hg

theorem covered_of_step (hcovered : p.Covered) (hm : p.shared.Recorded)
    (hlasts : p.ReplacementsLast (.run i x)) (hi : p.tasks[i]? = some t) (ht : t.First p.shared)
    (hstep : t.pc.Step size t.addr t.observed p.shared x m' pc') :
    Covered ⟨m', p.tasks.set i { t with pc := pc' }⟩ := by
  have hself : { t with pc := pc' } ∈ p.tasks.set i { t with pc := pc' } := mem_set_self hi
  intro h hmem hepoch
  have hold : h ∈ p.shared.handshakes ∨ ∃ slot, pc'.replacing = some slot ∧
      h.key = (t.addr, slot) := by
    obtain heq | ⟨slot, l, epoch, g, hpc, -, heq⟩ := hstep.handshakes
    · exact .inl (heq ▸ hmem)
    · replace hmem : h ∈ m'.handshakes := hmem
      rw [heq] at hmem
      obtain hmem | hmem := mem_append.1 hmem
      · exact .inl hmem
      · cases mem_singleton.1 hmem
        rw [hpc] at hstep
        cases hstep with
        | connected => exact .inr ⟨slot, rfl, rfl⟩
        | refused => simp at heq
  obtain hold | ⟨slot, hr, hkey⟩ := hold
  swap
  · exact .inr ⟨_, hself, slot, hr, hkey⟩
  have hnow : h.epoch = p.shared.epochs h.key.1 :=
    Nat.le_antisymm (hm.epoch_le h hold) (hepoch ▸ hstep.epochs_le h.key.1)
  obtain ⟨c, hc, hlt⟩ | ⟨u, hu, slot, hr, hkey⟩ := hcovered h hold hnow
  · obtain hc' | hnew | ⟨slot, hkey, hr | ⟨c', hc', hclient⟩⟩ := hstep.clients_kept hc
    · exact .inl ⟨c, hc', hlt⟩
    · -- an invalidation starts a new epoch
      have hsame : h.epoch = m'.epochs h.key.1 := hepoch
      omega
    · exact .inr ⟨_, hself, slot, hr, hkey⟩
    · exact .inl ⟨c', hclient, ht.stamped slot c' hc' h hold hkey⟩
  · obtain ⟨j, hj⟩ := getElem?_of_mem hu
    by_cases hji : j = i
    · subst hji
      cases hi.symm.trans hj
      obtain hr' | rfl | ⟨c, hc, hclient⟩ := hstep.replacing hr
      · exact .inr ⟨_, hself, slot, hr', hkey⟩
      · refine (hlasts t hi slot hr h hold hkey ?_).elim
        rw [hnow, hkey]
      · exact .inl ⟨c, hkey ▸ hclient, ht.stamped slot c hc h hold hkey⟩
    · have hmem' : (p.tasks.set i { t with pc := pc' })[j]? = some u := by
        rw [getElem?_set_ne (Ne.symm hji), hj]
      exact .inr ⟨u, mem_of_getElem? hmem', slot, hr, hkey⟩

def Flights (p : WorkerCalls) : Prop :=
  p.Holds WorkerClientPool.Recorded (fun m t => t.First m) (fun _ _ => True) ∧ p.Covered

theorem flights_run (h : Guarded (step n) Settled init as p) : p.Flights := by
  have hall : Guarded (step n) (fun p a => p.ReplacementsLast a ∧
      (∀ t ∈ p.tasks, ∀ g, t.observed = some g → g < p.shared.nextGeneration) ∧
      Apart WorkerCall.LockedApart p.tasks) init as p := by
    refine h.mono_of_reached fun pre p a hpre hc => ⟨hc.2.2, fun t ht g hg => ?_, ?_⟩
    · exact (shuns_run (hpre.mono fun _ _ hc => hc.1) t ht g hg).lt
    · exact (ordered_run (hpre.mono fun _ _ hc => hc.2.1)).apart
  refine hall.invariant ?_ ⟨.init ⟨nodup_nil, ?_, ?_⟩, ?_⟩
  · rintro p a p' ⟨hp, hcovered⟩ ⟨hlasts, hobserved, hapart⟩ hmove
    obtain ⟨t, rfl, hstart, rfl⟩ | ⟨i, x, t, m', t', rfl, hi, hnext, rfl⟩ :=
      Pool.step_cases hmove
    · refine ⟨hp.spawn ?_ fun _ => ⟨trivial, trivial⟩, fun h hmem hepoch => ?_⟩
      · obtain ⟨hpc, -⟩ | ⟨hpc, -⟩ | hpc := WorkerCall.pc_of_start hstart <;>
          exact ⟨by simp [hpc], by simp [hpc], by simp [hpc, WorkerPc.stamped]⟩
      · obtain hclient | ⟨u, hu, hr⟩ := hcovered h hmem hepoch
        · exact .inl hclient
        · exact .inr ⟨u, mem_append_left _ hu, hr⟩
    · obtain ⟨pc', rfl, hstep⟩ := WorkerCall.step_of_next hnext
      have hown := hp.tasks.get hi
      refine ⟨hp.move (fun _ _ _ => trivial) ?_ ?_ fun j u hne hj => ⟨?_, trivial⟩, ?_⟩
      · exact recorded_of_step hp.shared hown (hobserved t (mem_of_getElem? hi)) hstep
      · exact first_of_step hcovered hapart hp.shared hi hown hstep
      · exact (hp.tasks.get hj).of_other hp.shared (hapart (Ne.symm hne) hi hj) hstep
      · exact covered_of_step hcovered hp.shared hlasts hi hown hstep
  · exact fun h hmem => (not_mem_nil hmem).elim
  · exact fun h hmem => (not_mem_nil hmem).elim
  · exact fun h hmem => (not_mem_nil hmem).elim

/-- Where the generations passed were observed, `reconnect_if_stale` returns another one.
Where no mutex is removed that a call has fetched, the generations of each channel
advance.  Where besides no handshake fails on a channel that was replaced since the last
invalidation, at most one succeeds for each channel and observed generation between two
invalidations. -/
theorem reconnect_single_flight (n : Nat) (as : List WorkerAct) (p : WorkerCalls) :
    (Guarded (step n) Observed init as p → p.ReturnsFresh) ∧
      (Guarded (step n) LocksKept init as p → p.GenerationsAdvance) ∧
      (Guarded (step n) Settled init as p → p.OneHandshake) :=
  ⟨fun h t ht g hg => (shuns_run h t ht g hg).result, fun h => (ordered_run h).shared.advance,
    fun h => (flights_run h).1.shared.nodup⟩

def goes (i k : Nat) : List WorkerAct := replicate k (.run i .go)

/-- `acquire` on a channel without a client. -/
def connects (i : Nat) (addr : String) : List WorkerAct :=
  [.spawn (.acquire addr)] ++ goes i 5 ++ [.run i .connected] ++ goes i 3

/-- Two callers have observed the first client.  One reconnects, and the other waits for its
mutex and gets the same client. -/
def sharedReconnect : List WorkerAct :=
  connects 0 "w1:9203" ++
    [.spawn (.reconnectIfStale "w1:9203" 1), .spawn (.reconnectIfStale "w1:9203" 1)] ++
    goes 1 5 ++ goes 2 2 ++ [.run 1 .connected] ++ goes 1 3 ++ goes 2 3 ++
    [.spawn (.invalidate "w1:9203")] ++ goes 3 4

theorem reconnect_single_flight_sharedReconnect :
    ∃ p, Guarded (step 1) Settled init sharedReconnect p ∧
      p.tasks.map (fun t => t.pc.result) = [some 1, some 2, some 2, none] ∧
      p.ReturnsFresh ∧ p.GenerationsAdvance ∧ p.OneHandshake := by
  obtain ⟨p, hrun, hresult⟩ : ∃ p, Guarded (step 1) Settled init sharedReconnect p ∧
        p.tasks.map (fun t => t.pc.result) = [some 1, some 2, some 2, none] :=
    Guarded.exists_of_replay (by decide +kernel)
  obtain ⟨hfresh, hadvance, hone⟩ := reconnect_single_flight 1 sharedReconnect p
  exact ⟨p, hrun, hresult, hfresh (hrun.mono fun _ _ hc => hc.1),
    hadvance (hrun.mono fun _ _ hc => hc.2.1), hone hrun⟩

/-- The first call connects while the address is invalidated.  The second one finds no
mutex, and its client is inserted before that of the first. -/
def lostMutex : List WorkerAct :=
  [.spawn (.acquire "w1:9203")] ++ goes 0 5 ++ [.spawn (.invalidate "w1:9203")] ++ goes 1 4 ++
    [.spawn (.acquire "w1:9203")] ++ goes 2 5 ++ [.run 0 .connected] ++ goes 0 1 ++
    [.run 2 .connected] ++ goes 2 2 ++ goes 0 1

/-- A caller replaces the first client.  The handshake for the second one fails, and the
next caller that has observed the first client connects once more. -/
def failedReconnect : List WorkerAct :=
  connects 0 "w1:9203" ++
    [.spawn (.reconnectIfStale "w1:9203" 1)] ++ goes 1 5 ++ [.run 1 .connected] ++ goes 1 3 ++
    [.spawn (.reconnectIfStale "w1:9203" 2)] ++ goes 2 5 ++ [.run 2 .refused] ++ goes 2 1 ++
    [.spawn (.reconnectIfStale "w1:9203" 1)] ++ goes 3 5 ++ [.run 3 .connected]

theorem reconnect_lost :
    (∃ p, Guarded (step 1) (fun _ _ => True) init lostMutex p ∧ ¬ p.GenerationsAdvance) ∧
      ∃ p, Guarded (step 1) (fun _ _ => True) init failedReconnect p ∧ ¬ p.OneHandshake := by
  constructor
  · obtain ⟨p, hrun, hinstalled⟩ : ∃ p, Guarded (step 1) (fun _ _ => True) init lostMutex p ∧
          p.shared.installed = [(("w1:9203", 0), 2), (("w1:9203", 0), 1)] :=
      Guarded.exists_of_replay (by decide +kernel)
    refine ⟨p, hrun, fun hadvance => ?_⟩
    rw [GenerationsAdvance, hinstalled] at hadvance
    revert hadvance
    decide
  · obtain ⟨p, hrun, hhandshakes⟩ : ∃ p, Guarded (step 1) (fun _ _ => True) init failedReconnect p ∧
          p.shared.handshakes = [⟨("w1:9203", 0), 0, 1⟩, ⟨("w1:9203", 0), 0, 1⟩] :=
      Guarded.exists_of_replay (by decide +kernel)
    refine ⟨p, hrun, fun hone => ?_⟩
    rw [OneHandshake, hhandshakes] at hone
    revert hone
    decide

end WorkerCalls

end GooseFS
