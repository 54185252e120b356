import GooseFS.Cache.UringDriver

/-!
# Who has a descriptor

Every descriptor that the kernel has handed out is in exactly one place: a request
carries it, an operation owns it, its handles are shared by a cache and by readers, it
is closed, or it is lost.  The invariant counts these places.  `Hands` is what a task
holds, and `Handover` says that a step moves things between the shared state and the hands
of the task that takes it, so that the sums do not change.
-/

namespace GooseFS

open Lib List Option UringState IoRequest

def share (o : Option Nat) (d : Nat) : Int := if o = some d then 1 else 0

@[simp] theorem share_none (d : Nat) : share none d = 0 := rfl

theorem share_nonneg (o : Option Nat) (d : Nat) : 0 ≤ share o d := by
  unfold share
  split <;> decide

theorem share_self (d : Nat) : share (some d) d = 1 := if_pos rfl

theorem share_of_ne {d d' : Nat} (h : d ≠ d') : share (some d) d' = 0 :=
  if_neg fun heq => h (some.inj heq)

/-! ## Places -/

def IoRequest.carried (q : IoRequest) : Option Nat :=
  match q.op, q.stage with
  | .openAt, .completed (.ok fd) => if q.live then fd else none
  | .write fd, _ => if q.live then some fd else none
  | .close _, .completed _ => none
  | .close fd, _ => some fd
  | _, _ => none

namespace UringState

variable (m : UringState)

def held (d : Nat) : Int :=
  tally (fun q => share q.carried d) m.requests + (if 0 < m.refs d then 1 else 0) +
    m.log.count (.closed d) + m.lost.count d

def opened (d : Nat) : Int := if d < m.nextFd then 1 else 0

def liveAt (r : Nat) : Int := if (m.requests[r]?.any fun q => q.live) then 1 else 0

def entries (d : Nat) : Int := tally (fun e => share (some e.2) d) m.cache

theorem requests_nonneg (d : Nat) : 0 ≤ tally (fun q => share q.carried d) m.requests :=
  tally_nonneg fun q _ => share_nonneg q.carried d

theorem entries_nonneg (d : Nat) : 0 ≤ m.entries d := tally_nonneg fun _ _ => share_nonneg _ d

end UringState

/-- What a task holds: a descriptor of its own, the request that it waits for, and a handle
of a cached descriptor. -/
structure Hands where
  owned : Option Nat
  awaits : Option Nat
  cloned : Option Nat

namespace Hands

def empty : Hands := ⟨none, none, none⟩

end Hands

namespace UringPc

def hands : UringPc → Hands
  | .remove (.expired fd) => ⟨none, none, some fd⟩
  | .remove (.readFailed fd) => ⟨none, none, some fd⟩
  | .drop fd (.readPage fd') => ⟨some fd', none, some fd⟩
  | .drop fd _ => ⟨none, none, some fd⟩
  | .readHit fd => ⟨none, none, some fd⟩
  | .waitHit fd r => ⟨none, some r, some fd⟩
  | .waitDir r => ⟨none, some r, none⟩
  | .insertDir fd => ⟨some fd, none, none⟩
  | .openPage dir => ⟨none, none, some dir⟩
  | .waitPage dir r => ⟨none, some r, some dir⟩
  | .readPage fd => ⟨some fd, none, none⟩
  | .waitRead fd r => ⟨some fd, some r, none⟩
  | .insertPage fd => ⟨some fd, none, none⟩
  | .close fd _ => ⟨some fd, none, none⟩
  | .waitTmp r => ⟨none, some r, none⟩
  | .write fd => ⟨some fd, none, none⟩
  | .waitWrite _ r => ⟨none, some r, none⟩
  | .waitUnlink r => ⟨none, some r, none⟩
  | _ => .empty

def awaitedOp : UringPc → Option UringOp
  | .waitHit fd _ => some (.read fd)
  | .waitDir _ => some .openAt
  | .waitPage _ _ => some .openAt
  | .waitRead fd _ => some (.read fd)
  | .waitTmp _ => some .openAt
  | .waitWrite fd _ => some (.write fd)
  | .waitUnlink _ => some .unlinkAt
  | _ => none

end UringPc

namespace UringTask

def hands : UringTask → Hands
  | .call c => c.pc.hands
  | _ => .empty

def awaitedOp : UringTask → Option UringOp
  | .call c => c.pc.awaitedOp
  | _ => none

end UringTask

/-- A step that moves things between the shared state and the hands of a task. -/
structure Handover (m : UringState) (h : Hands) (m' : UringState) (h' : Hands) : Prop where
  fds : ∀ d, m'.held d + share h'.owned d + m.opened d = m.held d + share h.owned d + m'.opened d
  live : ∀ r, m'.liveAt r + share h.awaits r = m.liveAt r + share h'.awaits r
  refs : ∀ d, (m'.refs d : Int) + m.entries d + share h.cloned d =
    m.refs d + m'.entries d + share h'.cloned d
  ops : ∀ (r : Nat) (q : IoRequest), m.requests[r]? = some q →
    ∃ q', m'.requests[r]? = some q' ∧ q'.op = q.op
  entries : (∀ d, m.entries d ≤ 1) → ∀ d, m'.entries d ≤ 1

namespace Handover

variable {m m' m'' : UringState} {h h' h'' : Hands} {o o' w w' c : Option Nat}
  {r d : Nat}

theorem refl (m : UringState) (h : Hands) : Handover m h m h where
  fds := fun _ => rfl
  live := fun _ => rfl
  refs := fun d => by omega
  ops := fun _ q hq => ⟨q, hq, rfl⟩
  entries := id

theorem trans (h₁ : Handover m h m' h') (h₂ : Handover m' h' m'' h'') : Handover m h m'' h'' where
  fds := by
    intro d
    have := h₁.fds d
    have := h₂.fds d
    omega
  live := by
    intro r
    have := h₁.live r
    have := h₂.live r
    omega
  refs := by
    intro d
    have := h₁.refs d
    have := h₂.refs d
    omega
  ops := by
    intro r q hq
    obtain ⟨q', hq', hop⟩ := h₁.ops r q hq
    obtain ⟨q'', hq'', hop'⟩ := h₂.ops r q' hq'
    exact ⟨q'', hq'', hop'.trans hop⟩
  entries := fun hle => h₂.entries (h₁.entries hle)

/-! ## Requests -/

section Requests

variable {q q' : IoRequest}

section

variable (hr : m.requests[r]? = some q)
include hr

theorem held_setRequest (d : Nat) :
    (m.setRequest r q').held d = m.held d - share q.carried d + share q'.carried d := by
  simp only [held, setRequest, tally_set _ hr]
  omega

theorem liveAt_setRequest (i : Nat) :
    (m.setRequest r q').liveAt i = if i = r then (if q'.live then 1 else 0) else m.liveAt i := by
  have hlt := (List.getElem?_eq_some_iff.1 hr).1
  by_cases hi : i = r
  · subst hi
    rw [if_pos rfl]
    simp [liveAt, setRequest, hlt]
  · rw [if_neg hi]
    simp [liveAt, setRequest, getElem?_set_ne (Ne.symm hi)]

theorem liveAt_of_live : m.liveAt r = if q.live then 1 else 0 := by
  simp [liveAt, hr]

theorem ops_setRequest (hop : q'.op = q.op) (i : Nat) (u : IoRequest) (hu : m.requests[i]? = some u) :
    ∃ u', (m.setRequest r q').requests[i]? = some u' ∧ u'.op = u.op := by
  have hlt := (List.getElem?_eq_some_iff.1 hr).1
  by_cases hi : i = r
  · subst hi
    cases hr.symm.trans hu
    exact ⟨q', getElem?_set_self hlt, hop⟩
  · exact ⟨u, (getElem?_set_ne (Ne.symm hi)).trans hu, rfl⟩

theorem of_setRequest (hop : q'.op = q.op)
    (hfds : ∀ d, share q'.carried d + share o' d = share q.carried d + share o d)
    (hlive : ∀ i, (m.setRequest r q').liveAt i + share w i = m.liveAt i + share w' i) :
    Handover m ⟨o, w, c⟩ (m.setRequest r q') ⟨o', w', c⟩ where
  fds := by
    intro d
    have := hfds d
    rw [held_setRequest hr]
    simp only [opened, setRequest]
    omega
  live := hlive
  refs := fun _ => rfl
  ops := ops_setRequest hr hop
  entries := id

theorem settle (hlive : q.live = true)
    (hfds : ∀ d, share ({ q with live := false } : IoRequest).carried d + share o' d =
      share q.carried d + share o d) :
    Handover m ⟨o, some r, c⟩ (m.setRequest r { q with live := false }) ⟨o', none, c⟩ := by
  refine of_setRequest hr rfl hfds fun i => ?_
  rw [liveAt_setRequest hr]
  by_cases hi : i = r
  · subst hi
    rw [liveAt_of_live hr, hlive, share_self]
    simp
  · rw [if_neg hi, share_of_ne (Ne.symm hi)]
    simp

theorem move (hop : q'.op = q.op) (hlive : q'.live = q.live) (hcarried : q'.carried = q.carried) :
    Handover m .empty (m.setRequest r q') .empty := by
  refine of_setRequest hr hop (fun d => by rw [hcarried]) fun i => ?_
  rw [liveAt_setRequest hr]
  by_cases hi : i = r
  · subst hi
    rw [liveAt_of_live hr, hlive]
    simp
  · rw [if_neg hi]

end

theorem held_append (d : Nat) : ({ m with requests := m.requests ++ [q] } : UringState).held d =
      m.held d + share q.carried d := by
  simp only [held, tally_append]
  omega

theorem liveAt_append (i : Nat) : ({ m with requests := m.requests ++ [q] } : UringState).liveAt i =
      m.liveAt i + if i = m.requests.length ∧ q.live = true then 1 else 0 := by
  unfold liveAt
  by_cases hi : i = m.requests.length
  · subst hi
    simp
  · by_cases hlt : i < m.requests.length
    · simp [getElem?_append_left hlt, hi]
    · have hnone : (m.requests ++ [q])[i]? = none := by
        rw [getElem?_eq_none]
        simp
        omega
      have hnone' : m.requests[i]? = none := by
        rw [getElem?_eq_none]
        omega
      simp [hnone, hnone', hi]

theorem append (hfds : ∀ d, share q.carried d + share o' d = share o d)
    (hlive : ∀ i, (if i = m.requests.length ∧ q.live = true then (1 : Int) else 0) + share w i =
      share w' i) :
    Handover m ⟨o, w, c⟩ { m with requests := m.requests ++ [q] } ⟨o', w', c⟩ where
  fds := by
    intro d
    have := hfds d
    rw [held_append]
    simp only [opened]
    omega
  live := by
    intro i
    have := hlive i
    rw [liveAt_append]
    simp only
    omega
  refs := fun _ => rfl
  ops := by
    intro i u hu
    exact ⟨u, (getElem?_append_left (List.getElem?_eq_some_iff.1 hu).1).trans hu, rfl⟩
  entries := id

theorem select (m : UringState) (h : Hands) (selector : Nat) :
    Handover m h { m with threadSelector := selector } h :=
  ⟨fun _ => rfl, fun _ => rfl, fun d => (refl m h).refs d, fun _ q hq => ⟨q, hq, rfl⟩, id⟩

/-- A submitted `Write` takes the descriptor along. -/
def passed (op : UringOp) : Option Nat :=
  match op with
  | .write fd => some fd
  | _ => none

theorem submit (rings : Nat) (op : UringOp) (length : Nat) (full : Bool)
    (hop : ∀ fd, op ≠ .close fd) (hown : ∀ d, share (passed op) d + share o' d = share o d) :
    Handover m ⟨o, none, c⟩ (m.submit rings op length full)
      ⟨o', some m.requests.length, c⟩ := by
  refine trans (append (fun d => ?_) fun i => ?_) (select _ _ _)
  · rw [← hown d]
    cases full <;> cases op with
    | close fd => exact (hop fd rfl).elim
    | _ => rfl
  · have hlive : (if full then
        (⟨op, length, 0, .channel (m.threadSelector % rings), true⟩ : IoRequest).fail else
        ⟨op, length, 0, .channel (m.threadSelector % rings), true⟩).live = true := by
      cases full <;> rfl
    rw [hlive]
    by_cases hi : i = m.requests.length
    · subst hi
      simp [share]
    · simp [share, hi, Ne.symm hi]

end Requests

theorem of_same_requests (hreq : m'.requests = m.requests)
    (hfds : ∀ d, m'.held d + share h'.owned d + m.opened d =
      m.held d + share h.owned d + m'.opened d)
    (hrefs : ∀ d, (m'.refs d : Int) + m.entries d + share h.cloned d =
      m.refs d + m'.entries d + share h'.cloned d)
    (hentries : (∀ d, m.entries d ≤ 1) → ∀ d, m'.entries d ≤ 1)
    (hw : h'.awaits = h.awaits) : Handover m h m' h' where
  fds := hfds
  live := by
    intro r
    rw [hw]
    simp only [liveAt, hreq]
  refs := hrefs
  ops := by
    intro r q hq
    exact ⟨q, hreq ▸ hq, rfl⟩
  entries := hentries

theorem count_closed_append (l : List FdEvent) (fd d : Nat) :
    ((l ++ [FdEvent.closed fd]).count (.closed d) : Int) =
      l.count (.closed d) + share (some fd) d := by
  by_cases hd : fd = d
  · subst hd
    simp [share_self]
  · simp [share_of_ne hd, count_append, hd]

theorem closeNow (fd : Nat) : Handover m ⟨some fd, w, c⟩ (m.closeNow fd) ⟨none, w, c⟩ := by
  refine of_same_requests rfl (fun d => ?_) (fun d => rfl) id rfl
  have := count_closed_append m.log fd d
  simp only [UringState.held, UringState.closeNow, UringState.record, UringState.opened, share_none]
  omega

theorem closeFdBackground (rings fd : Nat) (full : Bool) :
    Handover m ⟨some fd, none, c⟩ (m.closeFdBackground rings fd full) ⟨none, none, c⟩ := by
  cases full with
  | true => exact (select m _ _).trans (closeNow fd)
  | false =>
    refine (select m _ (m.threadSelector + 1)).trans (append (fun d => Int.add_zero _) fun i => ?_)
    simp

theorem opened_succ (hnext : m'.nextFd = m.nextFd + 1) (d : Nat) :
    m'.opened d = m.opened d + share (some m.nextFd) d := by
  unfold opened
  rw [hnext]
  obtain hlt | rfl | hgt := Nat.lt_trichotomy d m.nextFd
  · rw [share_of_ne (by omega), if_pos hlt, if_pos (by omega)]
    rfl
  · rw [share_self, if_pos (by omega), if_neg (by omega)]
    rfl
  · rw [share_of_ne (by omega), if_neg (by omega), if_neg (by omega)]
    rfl

theorem openNow : Handover m ⟨none, w, c⟩ m.openNow ⟨some m.nextFd, w, c⟩ := by
  refine of_same_requests rfl (fun d => ?_) (fun d => rfl) id rfl
  have hheld : m.openNow.held d = m.held d := rfl
  have hopened : m.openNow.opened d = m.opened d + share (some m.nextFd) d := opened_succ rfl d
  rw [hheld, hopened, share_none]
  dsimp only
  omega

/-! ## Handles -/

theorem clone (hpos : 0 < m.refs d) : Handover m ⟨o, w, none⟩ (m.clone d) ⟨o, w, some d⟩ := by
  have hrefs (d' : Nat) : ((m.clone d).refs d' : Int) = m.refs d' + share (some d) d' := by
    by_cases hd : d' = d
    · subst hd
      simp [clone, share_self]
    · simp [UringState.clone, hd, share_of_ne (Ne.symm hd)]
  refine of_same_requests rfl (fun d' => ?_) (fun d' => ?_) id rfl
  · have hsame : (0 < (m.clone d).refs d') ↔ 0 < m.refs d' := by
      by_cases hd : d' = d
      · subst hd
        simp [clone, hpos]
      · simp [UringState.clone, hd]
    have hheld : (m.clone d).held d' = m.held d' := by
      simp only [held, hsame]
      rfl
    rw [hheld]
    rfl
  · rw [hrefs, share_none]
    simp only [UringState.entries, UringState.clone]
    omega

theorem held_dropRef (hpos : 0 < m.refs d) (d' : Nat) : (m.dropRef d).held d' = m.held d' := by
  unfold dropRef
  by_cases hd : d' = d
  · subst hd
    split
    · next hone =>
      simp [UringState.held, UringState.closeNow, UringState.record, hone]
      omega
    · next hne =>
      have hlt : 0 < m.refs d' - 1 := by omega
      simp [held, hlt, hpos]
  · have hne : d ≠ d' := Ne.symm hd
    split
    · simp [UringState.held, UringState.closeNow, UringState.record, hd, hne, count_append]
    · simp [held, hd]

theorem refs_dropRef (hpos : 0 < m.refs d) (d' : Nat) :
    ((m.dropRef d).refs d' : Int) = m.refs d' - share (some d) d' := by
  have hrefs : (m.dropRef d).refs = Function.update m.refs d (m.refs d - 1) := by
    unfold dropRef
    split <;> rfl
  rw [hrefs]
  by_cases hd : d' = d
  · subst hd
    rw [Function.update_self, share_self]
    omega
  · rw [Function.update_of_ne hd, share_of_ne (Ne.symm hd)]
    omega

theorem dropRef_requests (m : UringState) (d : Nat) : (m.dropRef d).requests = m.requests := by
  unfold dropRef
  split <;> rfl

theorem dropRef_opened (m : UringState) (d d' : Nat) : (m.dropRef d).opened d' = m.opened d' := by
  unfold dropRef
  split <;> rfl

theorem dropRef_entries (m : UringState) (d d' : Nat) :
    (m.dropRef d).entries d' = m.entries d' := by
  unfold dropRef
  split <;> rfl

theorem dropRef (hpos : 0 < m.refs d) : Handover m ⟨o, w, some d⟩ (m.dropRef d) ⟨o, w, none⟩ := by
  refine of_same_requests (dropRef_requests m d) (fun d' => ?_) (fun d' => ?_) ?_ rfl
  · rw [held_dropRef hpos, dropRef_opened]
  · rw [refs_dropRef hpos, dropRef_entries, share_none]
    dsimp only
    omega
  · intro hle d'
    rw [dropRef_entries]
    exact hle d'

theorem removeEntry (hcached : ∀ e ∈ m.cache, 0 < m.refs e.2) (key : FdKey) :
    Handover m h (m.removeEntry key) h := by
  unfold UringState.removeEntry
  split
  · exact refl m h
  · next e he =>
    have hmem : e ∈ m.cache := mem_of_find?_eq_some he
    have hpos := hcached e hmem
    have hentries (d : Nat) : ({ m with cache := m.cache.erase e } : UringState).entries d =
        m.entries d - share (some e.2) d := by
      simp only [UringState.entries]
      exact tally_erase _ hmem
    refine of_same_requests (dropRef_requests _ _) (fun d => ?_) (fun d => ?_) ?_ rfl
    · have hheld : (({ m with cache := m.cache.erase e } : UringState).dropRef e.2).held d =
          m.held d := held_dropRef (m := { m with cache := m.cache.erase e }) hpos d
      rw [hheld, dropRef_opened]
      rfl
    · rw [refs_dropRef (m := { m with cache := m.cache.erase e }) hpos, dropRef_entries, hentries]
      simp only
      omega
    · intro hle d
      rw [dropRef_entries, hentries]
      have := hle d
      have := share_nonneg (some e.2) d
      omega

theorem insertEntry (key : FdKey) (hrefs : m.refs d = 0) (hentries : m.entries d = 0) :
    Handover m ⟨some d, w, c⟩ (m.insertEntry key d) ⟨none, w, c⟩ := by
  have hnew (d' : Nat) : (m.insertEntry key d).entries d' = m.entries d' + share (some d) d' := by
    simp only [UringState.entries, UringState.insertEntry, tally, map_cons, sum_cons]
    omega
  refine of_same_requests rfl (fun d' => ?_) (fun d' => ?_) (fun hle d' => ?_) rfl
  · by_cases hd : d' = d
    · subst hd
      simp [held, insertEntry, opened, hrefs, share_self]
      omega
    · have hheld : (m.insertEntry key d).held d' = m.held d' := by
        simp [UringState.held, UringState.insertEntry, hd]
      rw [hheld, share_of_ne (Ne.symm hd)]
      rfl
  · rw [hnew]
    by_cases hd : d' = d
    · subst hd
      simp [insertEntry, hrefs, share_self]
      omega
    · simp [UringState.insertEntry, hd, share_of_ne (Ne.symm hd)]
  · rw [hnew]
    by_cases hd : d' = d
    · subst hd
      rw [hentries, share_self]
      decide
    · rw [share_of_ne (Ne.symm hd)]
      have := hle d'
      omega

theorem refs_removeEntry_le (m : UringState) (key : FdKey) (d : Nat) :
    (m.removeEntry key).refs d ≤ m.refs d := by
  unfold UringState.removeEntry UringState.dropRef
  split
  · exact Nat.le_refl _
  · next e _ =>
    by_cases hd : d = e.2
    · subst hd
      split <;> simp [UringState.closeNow, UringState.record]
    · split <;> simp [UringState.closeNow, UringState.record, hd]

theorem replaceEntry (hcached : ∀ e ∈ m.cache, 0 < m.refs e.2) (key : FdKey)
    (hrefs : m.refs d = 0) (hentries : m.entries d = 0) :
    Handover m ⟨some d, w, c⟩ ((m.removeEntry key).insertEntry key d) ⟨none, w, c⟩ := by
  have hremove : Handover m ⟨some d, w, c⟩ (m.removeEntry key) ⟨some d, w, c⟩ :=
    removeEntry hcached key
  have hle := refs_removeEntry_le m key d
  have hrefs' : (m.removeEntry key).refs d = 0 := by omega
  refine hremove.trans (insertEntry key hrefs' ?_)
  have := hremove.refs d
  omega

theorem lose (fd : Nat) :
    Handover m ⟨some fd, w, c⟩ { m with lost := m.lost ++ [fd] } ⟨none, w, c⟩ := by
  refine of_same_requests rfl (fun d => ?_) (fun d => rfl) id rfl
  have hcount : ((m.lost ++ [fd]).count d : Int) = m.lost.count d + share (some fd) d := by
    by_cases hd : fd = d
    · subst hd
      simp [share_self]
    · simp [share_of_ne hd, count_append, hd]
  simp only [held, opened, share_none]
  omega

theorem record (e : FdEvent) (he : ∀ fd, e ≠ .closed fd) : Handover m h (m.record e) h := by
  refine of_same_requests rfl (fun d => ?_) (fun d => (refl m h).refs d) id rfl
  have hcount : (m.log ++ [e]).count (.closed d) = m.log.count (.closed d) := by
    simp [count_append, he d]
  have hheld : (m.record e).held d = m.held d := by
    simp only [UringState.held, UringState.record, hcount]
    rfl
  rw [hheld]
  rfl

end Handover

/-! ## Steps -/

structure Ready (m : UringState) (t : UringTask) : Prop where
  awaited : ∀ r op, t.hands.awaits = some r → t.awaitedOp = some op →
    ∃ q, m.requests[r]? = some q ∧ q.op = op ∧ q.live = true
  cloned : ∀ d, t.hands.cloned = some d → 0 < m.refs d
  cached : ∀ e ∈ m.cache, 0 < m.refs e.2
  owned : ∀ d, t.hands.owned = some d → m.refs d = 0 ∧ m.entries d = 0

def Awaited (m : UringState) (t : UringTask) : Prop :=
  ∀ r op, t.hands.awaits = some r → t.awaitedOp = some op → ∃ q, m.requests[r]? = some q ∧ q.op = op

namespace UringCall

variable {rings r length : Nat} {m m' : UringState} {c : UringCall} {op : UringOp} {x : UringInput}
  {pc pc' ok err : UringPc} {c₀ : Option Nat} {k : Nat → UringPc} {o o' : Option Nat}

def Moves (m : UringState) (pc : UringPc) (m' : UringState) (pc' : UringPc) : Prop :=
  Handover m pc.hands m' pc'.hands ∧ ∀ r op, pc'.hands.awaits = some r → pc'.awaitedOp = some op →
    ∃ q, m'.requests[r]? = some q ∧ q.op = op

theorem Moves.of_not_waiting (h : Handover m pc.hands m' pc'.hands) (hpc : pc'.awaitedOp = none) :
    Moves m pc m' pc' := by
  refine ⟨h, fun r op _ hop => ?_⟩
  rw [hpc] at hop
  cases hop

theorem submits_moves (h : submits rings m op length x k = some (m', pc'))
    (hown : ∀ d, share (Handover.passed op) d + share o' d = share o d)
    (hpc : pc.hands = ⟨o, none, c₀⟩ := by rfl)
    (hk : ∀ r, (k r).hands = ⟨o', some r, c₀⟩ := by exact fun _ => rfl)
    (hkop : ∀ r, (k r).awaitedOp = some op := by exact fun _ => rfl)
    (hop : ∀ fd, op ≠ .close fd := by simp) : Moves m pc m' pc' := by
  obtain ⟨full, -, hout⟩ := map_eq_some_iff.1 h
  cases hout
  rw [Moves, hpc, hk]
  refine ⟨Handover.submit rings op length full hop hown, ?_⟩
  rintro r op' ⟨⟩ hop'
  cases (hkop _).symm.trans hop'
  refine ⟨_, getElem?_concat_length, ?_⟩
  cases full <;> rfl

theorem eq_timeout_of_isTimeout (h : x.isTimeout = some true) : x = .timeout := by
  cases x <;> first | rfl | cases h

theorem awaits_cases (h : awaits m r x ok err = some (m', pc')) :
    ∃ q, m.requests[r]? = some q ∧ m' = m.setRequest r { q with live := false } ∧
      (pc' = ok ∨ pc' = err) ∧ (q.completed = true ∨ x = .timeout) := by
  obtain ⟨timeout, hx, h⟩ := bind_eq_some_iff.1 h
  obtain ⟨⟨m₁, res⟩, hawait, hout⟩ := map_eq_some_iff.1 h
  obtain ⟨q, hq, rfl, -, hcompleted⟩ := await_cases hawait
  have hwhy := hcompleted.imp_right fun htimeout => eq_timeout_of_isTimeout (htimeout ▸ hx)
  refine ⟨q, hq, ?_⟩
  split at hout <;> cases hout
  · exact ⟨rfl, .inl rfl, hwhy⟩
  · exact ⟨rfl, .inr rfl, hwhy⟩

theorem awaitsFd_cases (h : awaitsFd m r x k err = some (m', pc')) :
    ∃ q, m.requests[r]? = some q ∧ m' = m.setRequest r { q with live := false } ∧
      ((∃ fd, q.stage = .completed (.ok (some fd)) ∧ pc' = k fd) ∨
        (∀ fd, q.stage ≠ .completed (.ok (some fd))) ∧ pc' = err) ∧
      (q.completed = true ∨ x = .timeout) := by
  obtain ⟨timeout, hx, h⟩ := bind_eq_some_iff.1 h
  obtain ⟨⟨m₁, res⟩, hawait, hout⟩ := map_eq_some_iff.1 h
  obtain ⟨q, hq, rfl, hres, hcompleted⟩ := await_cases hawait
  have hwhy := hcompleted.imp_right fun htimeout => eq_timeout_of_isTimeout (htimeout ▸ hx)
  refine ⟨q, hq, ?_⟩
  split at hout
  · next fd hfd =>
    cases hout
    exact ⟨rfl, .inl ⟨fd, (hres _).2 hfd, rfl⟩, hwhy⟩
  · next hne =>
    cases hout
    exact ⟨rfl, .inr ⟨fun fd hstage => hne fd ((hres _).1 hstage), rfl⟩, hwhy⟩

theorem awaits_moves (h : awaits m r x ok err = some (m', pc'))
    (hq : ∃ q, m.requests[r]? = some q ∧ q.op = op ∧ q.live = true)
    (hown : ∀ d, share o' d = share (Handover.passed op) d + share o d)
    (hpc : pc.hands = ⟨o, some r, c₀⟩ := by rfl) (hok : ok.hands = ⟨o', none, c₀⟩ := by rfl)
    (herr : err.hands = ⟨o', none, c₀⟩ := by rfl) (hokop : ok.awaitedOp = none := by rfl)
    (herrop : err.awaitedOp = none := by rfl) (hop : ∀ fd, op ≠ .close fd := by simp)
    (hopen : op ≠ .openAt := by simp) : Moves m pc m' pc' := by
  obtain ⟨q, hr, rfl, hlive⟩ := hq
  obtain ⟨q', hr', rfl, hpc', -⟩ := awaits_cases h
  cases hr.symm.trans hr'
  have hhands : pc'.hands = ⟨o', none, c₀⟩ := by
    obtain rfl | rfl := hpc'
    · exact hok
    · exact herr
  refine Moves.of_not_waiting ?_ ?_
  · rw [hpc, hhands]
    refine Handover.settle hr hlive fun d => ?_
    have hcarried : q.carried = Handover.passed q.op ∧
        ({ q with live := false } : IoRequest).carried = none := by
      unfold carried
      cases hqop : q.op with
      | openAt => exact (hopen hqop).elim
      | close fd => exact (hop fd hqop).elim
      | write fd => simp [hlive, Handover.passed]
      | _ => exact ⟨rfl, rfl⟩
    rw [hcarried.1, hcarried.2, share_none, hown]
    omega
  · obtain rfl | rfl := hpc'
    · exact hokop
    · exact herrop

theorem awaitsFd_moves (h : awaitsFd m r x k err = some (m', pc'))
    (hq : ∃ q, m.requests[r]? = some q ∧ q.op = .openAt ∧ q.live = true)
    (hpc : pc.hands = ⟨none, some r, c₀⟩ := by rfl)
    (hk : ∀ fd, (k fd).hands = ⟨some fd, none, c₀⟩ := by exact fun _ => rfl)
    (herr : err.hands = ⟨none, none, c₀⟩ := by rfl)
    (hkop : ∀ fd, (k fd).awaitedOp = none := by exact fun _ => rfl)
    (herrop : err.awaitedOp = none := by rfl) : Moves m pc m' pc' := by
  obtain ⟨q, hr, hop, hlive⟩ := hq
  obtain ⟨q', hr', rfl, hcases, -⟩ := awaitsFd_cases h
  cases hr.symm.trans hr'
  have hdropped : ({ q with live := false } : IoRequest).carried = none := by
    simp only [carried, hop]
    split <;> simp_all
  obtain ⟨fd, hstage, rfl⟩ | ⟨hstage, rfl⟩ := hcases
  · refine Moves.of_not_waiting ?_ (hkop fd)
    rw [hpc, hk]
    refine Handover.settle hr hlive fun d => ?_
    rw [hdropped, carried, hop, hstage]
    simp [hlive]
  · refine Moves.of_not_waiting ?_ herrop
    rw [hpc, herr]
    refine Handover.settle hr hlive fun d => ?_
    have hnone : q.carried = none := by
      simp only [carried, hop]
      cases hs : q.stage with
      | completed result =>
        cases result with
        | error e => rfl
        | ok o =>
          cases o with
          | none => exact ite_self none
          | some fd => exact (hstage fd hs).elim
      | _ => rfl
    rw [hdropped, hnone]

theorem opensNow_moves (h : opensNow m x k err = some (m', pc'))
    (hpc : pc.hands = ⟨none, none, c₀⟩ := by rfl)
    (hk : ∀ fd, (k fd).hands = ⟨some fd, none, c₀⟩ := by exact fun _ => rfl)
    (herr : err.hands = ⟨none, none, c₀⟩ := by rfl)
    (hkop : ∀ fd, (k fd).awaitedOp = none := by exact fun _ => rfl)
    (herrop : err.awaitedOp = none := by rfl) : Moves m pc m' pc' := by
  obtain ⟨success, -, hout⟩ := map_eq_some_iff.1 h
  cases success with
  | true =>
    cases hout
    refine Moves.of_not_waiting ?_ (hkop _)
    rw [hpc, hk]
    exact Handover.openNow
  | false =>
    cases hout
    refine Moves.of_not_waiting ?_ herrop
    rw [hpc, herr]
    exact Handover.refl _ _

theorem Moves.stay (hpc : pc.hands = pc'.hands := by rfl)
    (hop : pc'.awaitedOp = none := by rfl) : Moves m pc m pc' := by
  refine Moves.of_not_waiting ?_ hop
  rw [hpc]
  exact Handover.refl _ _

theorem refs_pos_of_lookup (hready : Ready m (.call c)) {key : FdKey} {fd : Nat}
    (h : m.lookup key = some fd) : 0 < m.refs fd := by
  obtain ⟨e, he, rfl⟩ := map_eq_some_iff.1 h
  exact hready.cached e (mem_of_find?_eq_some he)

theorem moves_of_next (hready : Ready m (.call c)) (h : c.next rings m x = some (m', pc')) :
    Moves m c.pc m' pc' := by
  have hawaited : ∀ r op, c.pc.hands.awaits = some r → c.pc.awaitedOp = some op →
    ∃ q, m.requests[r]? = some q ∧ q.op = op ∧ q.live = true := hready.awaited
  have hcloned : ∀ d, c.pc.hands.cloned = some d → 0 < m.refs d := hready.cloned
  have howned : ∀ d, c.pc.hands.owned = some d → m.refs d = 0 ∧ m.entries d = 0 := hready.owned
  unfold next at h
  generalize c.pc = pc at h hawaited hcloned howned
  split at h
  · -- lookup
    split at h
    · cases h
      exact .stay
    · next hfd =>
      cases h
      exact .of_not_waiting (Handover.clone (refs_pos_of_lookup hready hfd)) rfl
    · next hfd =>
      cases h
      exact .of_not_waiting (Handover.clone (refs_pos_of_lookup hready hfd)) rfl
    · cases h
  · -- remove
    next k =>
    split at h
    · cases h
      refine .of_not_waiting ?_ (by cases k <;> rfl)
      cases k <;> exact Handover.removeEntry hready.cached _
    · cases h
  · -- drop
    next fd k =>
    split at h
    · cases h
      refine .of_not_waiting ?_ (by cases k <;> rfl)
      have hpos := hcloned fd (by cases k <;> rfl)
      cases k <;> exact Handover.dropRef hpos
    · cases h
  · -- readHit
    split at h
    · obtain ⟨success, -, hout⟩ := map_eq_some_iff.1 h
      cases success <;> cases hout <;> exact .stay
    · exact submits_moves h fun _ => Int.zero_add _
  · -- waitHit
    exact awaits_moves h (hawaited _ _ rfl rfl) fun _ => (Int.zero_add _).symm
  · -- dirLookup
    split at h
    · cases h
      exact .stay
    · next hdir =>
      cases h
      exact .of_not_waiting (Handover.clone (refs_pos_of_lookup hready hdir)) rfl
    · cases h
  · -- openDir
    split at h
    · exact opensNow_moves h
    · exact submits_moves h fun _ => Int.zero_add _
  · -- waitDir
    exact awaitsFd_moves h (hawaited _ _ rfl rfl)
  · -- insertDir
    next fd =>
    obtain ⟨hrefs, hentries⟩ := howned fd rfl
    split at h
    · next hdir =>
      cases h
      have hpos := refs_pos_of_lookup hready hdir
      exact .of_not_waiting ((Handover.closeNow fd).trans (Handover.clone hpos)) rfl
    · cases h
      refine .of_not_waiting ((Handover.insertEntry _ hrefs hentries).trans
        (Handover.clone ?_)) rfl
      simp [insertEntry]
    · cases h
  · -- openPage
    split at h
    · exact opensNow_moves h
    · exact submits_moves h fun _ => Int.zero_add _
  · -- waitPage
    exact awaitsFd_moves h (hawaited _ _ rfl rfl)
  · -- readPage
    split at h
    · obtain ⟨success, -, hout⟩ := map_eq_some_iff.1 h
      cases success <;> cases hout <;> exact .stay
    · exact submits_moves h fun _ => Int.zero_add _
  · -- waitRead
    exact awaits_moves h (hawaited _ _ rfl rfl) fun _ => (Int.zero_add _).symm
  · -- insertPage
    next fd =>
    obtain ⟨hrefs, hentries⟩ := howned fd rfl
    split at h
    · cases h
      exact .of_not_waiting (Handover.replaceEntry hready.cached _ hrefs hentries) rfl
    · cases h
  · -- close
    next fd stored =>
    obtain ⟨full, -, hout⟩ := map_eq_some_iff.1 h
    cases hout
    refine .of_not_waiting ?_ (by cases stored <;> rfl)
    cases stored <;> exact Handover.closeFdBackground rings fd full
  · -- openTmp
    exact submits_moves h fun _ => Int.zero_add _
  · -- waitTmp
    exact awaitsFd_moves h (hawaited _ _ rfl rfl)
  · -- write: the request takes the descriptor
    exact submits_moves h fun _ => Int.add_zero _
  · -- waitWrite: and gives it back
    exact awaits_moves h (hawaited _ _ rfl rfl) fun _ => (Int.add_zero _).symm
  · -- rename
    obtain ⟨success, -, hout⟩ := map_eq_some_iff.1 h
    cases success <;> cases hout <;> exact .stay
  · -- unlink
    exact submits_moves h fun _ => Int.zero_add _
  · -- waitUnlink
    exact awaits_moves h (hawaited _ _ rfl rfl) fun _ => (Int.zero_add _).symm
  · -- finished
    cases h

end UringCall

/-! ## Steps of the rings -/

namespace UringTask

variable {rings k r : Nat} {m m' : UringState} {q : IoRequest} {t t' : UringTask} {x : UringInput}
  {fd : Nat} {result : Except Nat (Option Nat)}

theorem carried_close (hop : q.op = .close fd) (hstage : q.completed = false) :
    q.carried = some fd := by
  unfold completed at hstage
  cases hs : q.stage <;> simp_all [carried]

theorem carried_closed (hop : q.op = .close fd) :
    ({ q with stage := .completed result } : IoRequest).carried = none := by
  simp [carried, hop]

theorem handover_close (hr : m.requests[r]? = some q) (hop : q.op = .close fd)
    (hstage : q.completed = false) :
    Handover m .empty (m.setRequest r { q with stage := .completed result })
      ⟨some fd, none, none⟩ := by
  refine Handover.of_setRequest hr rfl (fun d => ?_) fun i => ?_
  · rw [carried_closed hop, carried_close hop hstage, share_none]
    omega
  · rw [Handover.liveAt_setRequest hr]
    split
    · next hi => rw [hi, Handover.liveAt_of_live hr]
    · rfl

/-- What a request carries does not depend on where it is, as long as it is not completed
and is not a `Close`. -/
theorem carried_stage {stage : RequestStage} {transferred : Nat} (hop : ∀ fd, q.op ≠ .close fd)
    (hstage : q.completed = false)
    (hnew : ∀ fd, stage = .completed (.ok (some fd)) → q.op ≠ .openAt) :
    ({ q with stage := stage, transferred := transferred } : IoRequest).carried = q.carried := by
  unfold completed at hstage
  simp only [carried]
  cases hqop : q.op with
  | close fd => exact (hop fd hqop).elim
  | openAt =>
    have hold : ∀ result, q.stage ≠ .completed result := by
      intro result heq
      rw [heq] at hstage
      cases hstage
    cases stage with
    | completed result =>
      cases result with
      | error e => cases hs : q.stage <;> first | rfl | exact (hold _ hs).elim
      | ok o =>
        cases o with
        | none => cases hs : q.stage <;> first | exact ite_self none | exact (hold _ hs).elim
        | some fd => exact (hnew fd rfl hqop).elim
    | _ => cases hs : q.stage <;> first | rfl | exact (hold _ hs).elim
  | _ => rfl

section

variable (hr : m.requests[r]? = some q)
include hr

theorem handover_of_pushes {full : Bool} (hstage : q.completed = false) (h : m.Pushes k r q full m') :
    Handover m .empty m' .empty := by
  cases h with
  | failed full hop | other hop =>
    exact Handover.move hr rfl rfl (carried_stage hop hstage fun fd heq => by cases heq)
  | lost fd hop => exact (handover_close hr hop hstage).trans (Handover.lose fd)
  | write fd hop =>
    have hcarried : ({ q with stage := .submitted k } : IoRequest).carried = q.carried :=
      carried_stage (by simp [hop]) hstage (by simp)
    have hmove : Handover m .empty (m.setRequest r { q with stage := .submitted k }) .empty :=
      Handover.move hr rfl rfl hcarried
    exact hmove.trans (Handover.record _ fun _ heq => by cases heq)
  | close fd hop =>
    have hcarried : ({ q with stage := .submitted k } : IoRequest).carried = q.carried := by
      rw [carried_close hop hstage]
      simp [carried, hop]
    have hmove : Handover m .empty (m.setRequest r { q with stage := .submitted k }) .empty :=
      Handover.move hr rfl rfl hcarried
    exact hmove.trans (Handover.record _ fun _ heq => by cases heq)

/-- An `OpenAt` succeeds: its request takes the descriptor if it is live, and so does no one
otherwise. -/
theorem handover_open (hop : q.op = .openAt) (hstage : q.completed = false) :
    Handover m .empty (m.openNow.setRequest r { q with stage := .completed (.ok (some m.nextFd)) })
      ⟨if q.live = true then none else some m.nextFd, none, none⟩ := by
  have hnone : q.carried = none := by
    unfold completed at hstage
    simp only [carried, hop]
    cases hs : q.stage <;> simp_all
  have hr' : m.openNow.requests[r]? = some q := hr
  refine Handover.openNow.trans (Handover.of_setRequest hr' rfl (fun d => ?_) fun i => ?_)
  · rw [hnone]
    simp only [carried, hop]
    cases q.live <;> simp
  · rw [Handover.liveAt_setRequest hr']
    split
    · next hi => rw [hi, Handover.liveAt_of_live hr']
    · rfl

theorem handover_of_reaps {result : Except Nat Nat} (hstage : q.completed = false)
    (h : m.Reaps r q result m') : Handover m .empty m' .empty := by
  cases h with
  | closed result answer fd hop =>
    exact (handover_close hr hop hstage).trans (Handover.closeNow fd)
  | opened n hop hlive =>
    have hopen := handover_open hr hop hstage
    rw [if_pos hlive] at hopen
    exact hopen
  | orphaned n hop hlive =>
    have hopen := handover_open hr hop hstage
    rw [if_neg (by rw [hlive]; exact Bool.false_ne_true)] at hopen
    exact hopen.trans (Handover.lose m.nextFd)
  | moved result stage transferred hop hfd hopen =>
    exact Handover.move hr rfl rfl
      (carried_stage hop hstage fun fd heq => (hfd fd heq).elim)

end

theorem handover_next (hready : Ready m t) (h : t.next rings m x = some (m', t')) :
    Handover m t.hands m' t'.hands ∧ Awaited m' t' := by
  cases takes_of_next h with
  | call hcall => exact UringCall.moves_of_next hready hcall
  | push hr hqueued hx hpush =>
    exact ⟨handover_of_pushes hr (not_completed_of_queued hqueued) hpush,
      fun r op hr => by cases hr⟩
  | reap hr hstage hreap =>
    exact ⟨handover_of_reaps hr (by rw [completed, hstage]) hreap, fun r op hr => by cases hr⟩
  | evict key => exact ⟨Handover.removeEntry hready.cached key, fun r op hr => by cases hr⟩

end UringTask

end GooseFS
