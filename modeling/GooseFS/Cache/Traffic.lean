import GooseFS.Cache.Custody

/-!
# What an operation does to the requests

A step of an operation closes descriptors, adds one request, or gives up one request,
completed or not.  Only the rings push requests and lose descriptors.
-/

namespace GooseFS

open Lib

structure Closes (m m' : UringState) : Prop where
  requests : m'.requests = m.requests
  lost : m'.lost = m.lost
  log : ∃ ds : List Nat, m'.log = m.log ++ ds.map .closed

namespace Closes

variable {m m' m'' : UringState}

theorem of_same_log (hrequests : m'.requests = m.requests) (hlost : m'.lost = m.lost)
    (hlog : m'.log = m.log) : Closes m m' :=
  ⟨hrequests, hlost, [], by rw [hlog, List.map_nil, List.append_nil]⟩

theorem refl (m : UringState) : Closes m m := of_same_log rfl rfl rfl

theorem trans (h₁ : Closes m m') (h₂ : Closes m' m'') : Closes m m'' := by
  obtain ⟨ds₁, hlog₁⟩ := h₁.log
  obtain ⟨ds₂, hlog₂⟩ := h₂.log
  refine ⟨h₂.requests.trans h₁.requests, h₂.lost.trans h₁.lost, ds₁ ++ ds₂, ?_⟩
  rw [hlog₂, hlog₁, List.map_append, List.append_assoc]

theorem closeNow (m : UringState) (fd : Nat) : Closes m (m.closeNow fd) := ⟨rfl, rfl, [fd], rfl⟩

theorem openNow (m : UringState) : Closes m m.openNow := of_same_log rfl rfl rfl

theorem clone (m : UringState) (fd : Nat) : Closes m (m.clone fd) := of_same_log rfl rfl rfl

theorem insertEntry (m : UringState) (key : FdKey) (fd : Nat) : Closes m (m.insertEntry key fd) :=
  of_same_log rfl rfl rfl

theorem dropRef (m : UringState) (fd : Nat) : Closes m (m.dropRef fd) := by
  unfold UringState.dropRef
  split
  · exact ⟨rfl, rfl, [fd], rfl⟩
  · exact of_same_log rfl rfl rfl

theorem removeEntry (m : UringState) (key : FdKey) : Closes m (m.removeEntry key) := by
  unfold UringState.removeEntry
  split
  · exact refl m
  · next e _ =>
    have herase : Closes m { m with cache := m.cache.erase e } := of_same_log rfl rfl rfl
    exact herase.trans (dropRef _ e.2)

end Closes

/-- What a step of an operation at `pc` does to the requests. -/
inductive Sends (pc : UringPc) (x : UringInput) (m m' : UringState) : Prop where
  | closes (h : Closes m m')
  | request (q : IoRequest) (hq : q.live = true ∨ ∃ fd, q.op = .close fd)
      (hrequests : m'.requests = m.requests ++ [q]) (hlost : m'.lost = m.lost)
      (hlog : m'.log = m.log)
  | gaveUp (r : Nat) (q : IoRequest) (hr : m.requests[r]? = some q)
      (hwhy : q.completed = true ∨ (x = .timeout ∧ pc.hands.awaits = some r))
      (hm' : m' = m.setRequest r { q with live := false })

namespace UringCall

variable {rings r length : Nat} {m m' : UringState} {c : UringCall} {op : UringOp} {x : UringInput}
  {pc pc' ok err : UringPc} {k : Nat → UringPc}

theorem sends_of_submits (h : submits rings m op length x k = some (m', pc')) :
    Sends pc x m m' := by
  obtain ⟨full, -, hout⟩ := Option.map_eq_some_iff.1 h
  cases hout
  refine .request _ (Or.inl ?_) rfl rfl rfl
  cases full <;> rfl

theorem sends_of_awaits (h : awaits m r x ok err = some (m', pc'))
    (hpc : pc.hands.awaits = some r) : Sends pc x m m' := by
  obtain ⟨q, hr, hm', -, hwhy⟩ := awaits_cases h
  exact .gaveUp r q hr (hwhy.imp_right fun hx => ⟨hx, hpc⟩) hm'

theorem sends_of_awaitsFd (h : awaitsFd m r x k err = some (m', pc'))
    (hpc : pc.hands.awaits = some r) : Sends pc x m m' := by
  obtain ⟨q, hr, hm', -, hwhy⟩ := awaitsFd_cases h
  exact .gaveUp r q hr (hwhy.imp_right fun hx => ⟨hx, hpc⟩) hm'

theorem closes_of_opensNow (h : opensNow m x k err = some (m', pc')) : Closes m m' := by
  obtain ⟨success, -, hout⟩ := Option.map_eq_some_iff.1 h
  split at hout <;> cases hout
  · exact .openNow m
  · exact .refl m

theorem closes_of_succeeds {k : Bool → UringPc}
    (h : (x.succeeds.map fun success => (m, k success)) = some (m', pc')) : Closes m m' := by
  obtain ⟨success, -, hout⟩ := Option.map_eq_some_iff.1 h
  cases hout
  exact .refl m

theorem sends_of_close {fd : Nat} {k : UringPc}
    (h : (x.isFull.map fun full => (m.closeFdBackground rings fd full, k)) = some (m', pc')) :
    Sends pc x m m' := by
  obtain ⟨full, -, hout⟩ := Option.map_eq_some_iff.1 h
  cases hout
  cases full
  · exact .request _ (Or.inr ⟨fd, rfl⟩) rfl rfl rfl
  · exact .closes ⟨rfl, rfl, [fd], rfl⟩

theorem sends_of_next (h : c.next rings m x = some (m', pc')) : Sends c.pc x m m' := by
  unfold next at h
  cases hpc : c.pc with
  | lookup =>
    simp only [hpc] at h
    split at h <;> cases h
    · exact .closes (.refl m)
    · exact .closes (.clone m _)
    · exact .closes (.clone m _)
  | remove k =>
    simp only [hpc] at h
    split at h <;> cases h
    exact .closes (.removeEntry m _)
  | drop fd k =>
    simp only [hpc] at h
    split at h <;> cases h
    exact .closes (.dropRef m fd)
  | readHit fd | readPage fd =>
    simp only [hpc] at h
    split at h
    · exact .closes (closes_of_succeeds h)
    · exact sends_of_submits h
  | waitHit fd r | waitRead fd r | waitWrite fd r
  | waitUnlink r => exact sends_of_awaits (by simpa only [hpc] using h) rfl
  | dirLookup =>
    simp only [hpc] at h
    split at h <;> cases h
    · exact .closes (.refl m)
    · exact .closes (.clone m _)
  | openDir | openPage dir =>
    simp only [hpc] at h
    split at h
    · exact .closes (closes_of_opensNow h)
    · exact sends_of_submits h
  | waitDir r | waitPage dir r
  | waitTmp r => exact sends_of_awaitsFd (by simpa only [hpc] using h) rfl
  | insertDir fd =>
    simp only [hpc] at h
    split at h <;> cases h
    · exact .closes ((Closes.closeNow m fd).trans (.clone _ _))
    · exact .closes ((Closes.insertEntry m _ fd).trans (.clone _ _))
  | insertPage fd =>
    simp only [hpc] at h
    split at h <;> cases h
    exact .closes ((Closes.removeEntry m _).trans (.insertEntry _ _ fd))
  | close fd stored => exact sends_of_close (by simpa only [hpc] using h)
  | openTmp | write fd | unlink => exact sends_of_submits (by simpa only [hpc] using h)
  | rename => exact .closes (closes_of_succeeds (by simpa only [hpc] using h))
  | finished =>
    simp only [hpc] at h
    cases h

theorem not_isRing_of_next (h : c.next rings m x = some (m', pc')) : x.isRing = false := by
  have hring (y : UringInput) (hy : y.isRing = true) : c.next rings m y = none := by
    have hinput : y.isFull = none ∧ y.isTimeout = none ∧ y.succeeds = none := by
      cases y <;> first | exact ⟨rfl, rfl, rfl⟩ | cases hy
    have hother : y ≠ .go ∧ y ≠ .expired := by
      constructor <;> rintro rfl <;> cases hy
    unfold next
    cases c.pc <;> simp [submits, awaits, awaitsFd, opensNow, hinput, hother]
  cases hx : x.isRing with
  | false => rfl
  | true => cases (hring x hx).symm.trans h

end UringCall

end GooseFS
