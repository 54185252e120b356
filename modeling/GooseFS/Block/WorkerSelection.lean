import Mathlib.Data.List.Perm.Subperm
import GooseFS.Lib.Greedy
import GooseFS.Block.RingLookup

/-!
# What the selection loops select

Both loops go through the positions that a ring has for the attempts of a block.
They stop as soon as they have visited as many positions as there are workers.
On a ring of the list this loses nothing: by then every position has been visited,
and a position that was passed over once is passed over every time.  So the loop
for one worker finds the first one that is accepted
(`consistentHashSelectFromRing_eq`), and the loop for several ones is a greedy
selection (`consistentHashSelectNFromRing_eq`), cut off at the count.
-/

namespace GooseFS.Router

open Lib List Option

/-! ## Attempts -/

def attemptIndex (blockId : Int64) (ring : HashRing) (attempt : Nat) : Option Nat :=
  ringCeilingWorkerIndex ring (Murmur3.guavaLongInt blockId (Int32.ofNat attempt))

def attemptsFrom (blockId : Int64) (ring : HashRing) (attempt left : Nat) : List Nat :=
  (range' attempt left).filterMap (attemptIndex blockId ring)

def attempts (blockId : Int64) (ring : HashRing) : List Nat :=
  attemptsFrom blockId ring 0 hashPolicyMaxAttempts

section Attempts

variable {blockId : Int64} {ring : HashRing} {workers : List WorkerInfo} {attempt left idx : Nat}

theorem attemptsFrom_nil : attemptsFrom blockId [] attempt left = [] :=
  filterMap_eq_nil_iff.mpr fun _ _ => rfl

theorem attemptsFrom_succ (h : attemptIndex blockId ring attempt = some idx) :
    attemptsFrom blockId ring attempt (left + 1) =
      idx :: attemptsFrom blockId ring (attempt + 1) left := by
  rw [attemptsFrom, range'_succ, filterMap_cons, h]
  rfl

theorem attemptIndex_lt (hring : RingOf workers ring)
    (h : attemptIndex blockId ring attempt = some idx) : idx < workers.length := by
  obtain ⟨key, hnode, _⟩ := (ringCeilingWorkerIndex_eq_some_iff hring.ascending).mp h
  exact hring.lt _ hnode

theorem lt_of_mem_attemptsFrom (hring : RingOf workers ring)
    (h : idx ∈ attemptsFrom blockId ring attempt left) : idx < workers.length := by
  obtain ⟨k, _, hk⟩ := mem_filterMap.mp h
  exact attemptIndex_lt hring hk

end Attempts

def workersAt (workers : List WorkerInfo) (positions : List Nat) : List WorkerInfo :=
  positions.filterMap (workers[·]?)

variable {workers : List WorkerInfo}

theorem workersAt_cons {idx : Nat} (hlt : idx < workers.length) (positions : List Nat) :
    workersAt workers (idx :: positions) = workers[idx] :: workersAt workers positions := by
  rw [workersAt, filterMap_cons, getElem?_eq_getElem hlt]
  rfl

theorem length_workersAt {positions : List Nat} (hlt : ∀ idx ∈ positions, idx < workers.length) :
    (workersAt workers positions).length = positions.length := by
  rw [workersAt, filterMap_length_eq_length]
  intro idx hidx
  rw [getElem?_eq_getElem (hlt idx hidx)]
  rfl

/-- The positions of a list that a loop has been at, all of which are spent. -/
structure Visited (workers : List WorkerInfo) (spent : Nat → Prop) (visited : List Nat) : Prop where
  nodup : visited.Nodup
  lt : ∀ idx ∈ visited, idx < workers.length
  spent : ∀ idx ∈ visited, spent idx

namespace Visited

variable {workers : List WorkerInfo} {spent spent' : Nat → Prop} {visited : List Nat} {idx : Nat}

theorem nil : Visited workers spent [] :=
  ⟨nodup_nil, fun _ h => (not_mem_nil h).elim, fun _ h => (not_mem_nil h).elim⟩

theorem insert (h : Visited workers spent visited) (hlt : idx < workers.length)
    (hmono : ∀ i, spent i → spent' i) (hidx : spent' idx) :
    Visited workers spent' (visited.insert idx) where
  nodup := h.nodup.insert
  lt i hi := by
    rcases mem_insert_iff.mp hi with rfl | hi
    · exact hlt
    · exact h.lt i hi
  spent i hi := by
    rcases mem_insert_iff.mp hi with rfl | hi
    · exact hidx
    · exact hmono i (h.spent i hi)

theorem spent_of_full (h : Visited workers spent visited)
    (hfull : workers.length ≤ visited.length) (hidx : idx < workers.length) : spent idx := by
  have hsub : visited.Subperm (range workers.length) :=
    subperm_of_subset h.nodup fun i hi => mem_range.mpr (h.lt i hi)
  have hperm := hsub.perm_of_length_le (by rw [length_range]; exact hfull)
  exact h.spent idx (hperm.mem_iff.mpr (mem_range.mpr hidx))

end Visited

section Select

variable {blockId : Int64} {workers : List WorkerInfo} {ring : HashRing} {isFailed : String → Bool}
  {skipFailed : Bool} {left attempt count idx : Nat} {w : WorkerInfo}

def accepts (isFailed : String → Bool) (skipFailed : Bool) (w : WorkerInfo) : Bool :=
  !skipFailed || w.address.any fun addr => !isFailed (workerAddrKey addr)

theorem selectLoop_attempt {visited : List Nat} (hopen : ¬workers.length ≤ visited.length)
    (hidx : attemptIndex blockId ring attempt = some idx) (hw : workers[idx]? = some w) :
    selectLoop blockId workers ring isFailed skipFailed (left + 1) attempt visited =
      if accepts isFailed skipFailed w then some w
      else selectLoop blockId workers ring isFailed skipFailed left (attempt + 1)
        (visited.insert idx) := by
  unfold attemptIndex at hidx
  rw [selectLoop, if_neg hopen, hidx]
  simp only [hw, accepts]
  cases skipFailed with
  | false => rfl
  | true =>
    obtain ⟨_, _ | addr, _⟩ := w
    · rfl
    · rfl

theorem selectLoop_eq (hring : RingOf workers ring) : ∀ (left attempt : Nat) (visited : List Nat),
      Visited workers (fun idx => ∀ w, workers[idx]? = some w →
        accepts isFailed skipFailed w = false) visited →
      selectLoop blockId workers ring isFailed skipFailed left attempt visited =
        (workersAt workers (attemptsFrom blockId ring attempt left)).find?
          (accepts isFailed skipFailed) := by
  intro left
  induction left with
  | zero => exact fun _ _ _ => rfl
  | succ left ih =>
    intro attempt visited hvisited
    by_cases hfull : workers.length ≤ visited.length
    · rw [selectLoop, if_pos hfull]
      refine (find?_eq_none.mpr fun w hw => ?_).symm
      obtain ⟨idx, hmem, hw⟩ := mem_filterMap.mp hw
      rw [hvisited.spent_of_full hfull (lt_of_mem_attemptsFrom hring hmem) w hw]
      exact Bool.false_ne_true
    · cases hidx : attemptIndex blockId ring attempt with
      | none =>
        obtain rfl := ringCeilingWorkerIndex_eq_none hidx
        rw [selectLoop, if_neg hfull, attemptsFrom_nil]
        rfl
      | some idx =>
        have hlt := attemptIndex_lt hring hidx
        have hw : workers[idx]? = some workers[idx] := getElem?_eq_getElem hlt
        rw [selectLoop_attempt hfull hidx hw, attemptsFrom_succ hidx, workersAt_cons hlt,
          find?_cons]
        cases haccepts : accepts isFailed skipFailed workers[idx] with
        | true => rfl
        | false =>
          refine ih (attempt + 1) _ (hvisited.insert hlt (fun _ h => h) fun w hw' => ?_)
          exact some.inj (hw.symm.trans hw') ▸ haccepts

theorem consistentHashSelectFromRing_eq (hring : RingOf workers ring) :
    consistentHashSelectFromRing blockId workers ring isFailed skipFailed =
      (workersAt workers (attempts blockId ring)).find? (accepts isFailed skipFailed) := by
  unfold consistentHashSelectFromRing
  split
  case isTrue hempty =>
    rcases hempty with rfl | rfl
    · rw [attempts, attemptsFrom_nil]
      rfl
    · refine (find?_eq_none.mpr fun w hw => ?_).symm
      obtain ⟨idx, _, hw⟩ := mem_filterMap.mp hw
      cases hw
  case isFalse => exact selectLoop_eq hring _ _ _ Visited.nil

/-! ## Several workers -/

def addressAt (workers : List WorkerInfo) (idx : Nat) : Option WorkerNetAddress :=
  workers[idx]?.bind WorkerInfo.address

def hostAt (workers : List WorkerInfo) (idx : Nat) : String :=
  ((addressAt workers idx).bind WorkerNetAddress.host).getD ""

/-- A position is admitted next to the chosen ones if its worker has an address, has
not failed, and is not on the host of a chosen one. -/
def admits (workers : List WorkerInfo) (isFailed : String → Bool) (skipFailed : Bool)
    (chosen : List Nat) (idx : Nat) : Bool :=
  idx ∉ chosen &&
    ((addressAt workers idx).any fun addr => !(skipFailed && isFailed (workerAddrKey addr))) &&
    (hostAt workers idx = "" || hostAt workers idx ∉ chosen.map (hostAt workers))

theorem spends_admits : Spends (admits workers isFailed skipFailed) where
  stays := by
    intro chosen idx h y
    simp only [admits, Bool.and_eq_false_iff, Bool.or_eq_false_iff, decide_eq_false_iff_not,
      Decidable.not_not, map_append, mem_append] at h ⊢
    tauto
  once := by
    intro chosen idx _
    simp [admits]

def eligible (blockId : Int64) (workers : List WorkerInfo) (ring : HashRing)
    (isFailed : String → Bool) (skipFailed : Bool) : List Nat :=
  greedy (admits workers isFailed skipFailed) [] (attempts blockId ring)

def Selection.visit (workers : List WorkerInfo) (isFailed : String → Bool) (skipFailed : Bool)
    (s : Selection) (idx : Nat) : Selection :=
  if admits workers isFailed skipFailed s.idxs idx then
    { selected := s.selected ++ workers[idx]?.toList, idxs := s.idxs ++ [idx]
      hosts := if hostAt workers idx ≠ "" then s.hosts ++ [hostAt workers idx] else s.hosts
      visited := s.visited.insert idx }
  else { s with visited := s.visited.insert idx }

/-- The selected workers and their hosts are those of the chosen positions. -/
structure Tracks (workers : List WorkerInfo) (isFailed : String → Bool) (skipFailed : Bool)
    (s : Selection) : Prop where
  selected : s.selected = workersAt workers s.idxs
  hosts : ∀ host, host ≠ "" → (host ∈ s.hosts ↔ host ∈ s.idxs.map (hostAt workers))
  lt : ∀ idx ∈ s.idxs, idx < workers.length
  visited : Visited workers (fun idx => admits workers isFailed skipFailed s.idxs idx = false)
    s.visited

variable {s : Selection}

section

variable (h : Tracks workers isFailed skipFailed s)
include h

theorem Tracks.length_selected : s.selected.length = s.idxs.length := by
  rw [h.selected, length_workersAt h.lt]

theorem Tracks.visit (hlt : idx < workers.length) :
    Tracks workers isFailed skipFailed (s.visit workers isFailed skipFailed idx) := by
  unfold Selection.visit
  split
  case isTrue hadmits =>
    exact {
      selected := by
        rw [workersAt, filterMap_append, ← workersAt, ← workersAt, ← h.selected,
          workersAt_cons hlt, getElem?_eq_getElem hlt]
        rfl
      hosts := fun host hhost => by
        rw [map_append, mem_append, ← h.hosts host hhost]
        by_cases hempty : hostAt workers idx = ""
        · simp [hempty, hhost]
        · simp [hempty]
      lt := fun i hi => by
        rcases mem_append.mp hi with hi | hi
        · exact h.lt i hi
        · exact mem_singleton.mp hi ▸ hlt
      visited := h.visited.insert hlt (fun _ hi => spends_admits.stays hi idx)
        (spends_admits.once hadmits) }
  case isFalse hrefused =>
    exact { h with
      visited := h.visited.insert hlt (fun _ hi => hi) (Bool.eq_false_iff.mpr hrefused) }

theorem selectNLoop_attempt
    (hopen : ¬(count ≤ s.selected.length ∨ workers.length ≤ s.visited.length))
    (hidx : attemptIndex blockId ring attempt = some idx) (hw : workers[idx]? = some w) :
    selectNLoop blockId workers ring isFailed count skipFailed (left + 1) attempt s =
      selectNLoop blockId workers ring isFailed count skipFailed left (attempt + 1)
        (s.visit workers isFailed skipFailed idx) := by
  unfold attemptIndex at hidx
  rw [selectNLoop, if_neg hopen, hidx]
  simp only [hw]
  by_cases hchosen : idx ∈ s.idxs
  · rw [if_pos hchosen, Selection.visit, if_neg (by simp [admits, hchosen])]
  rw [if_neg hchosen]
  cases haddr : w.address with
  | none =>
    have hnone : addressAt workers idx = none := by rw [addressAt, hw, bind_some, haddr]
    rw [Selection.visit, if_neg (by simp [admits, hnone])]
  | some addr =>
    have hsome : addressAt workers idx = some addr := by
      rw [addressAt, hw, bind_some, haddr]
    have hhost : hostAt workers idx = addr.host.getD "" := by rw [hostAt, hsome, bind_some]
    simp only [← hhost]
    by_cases hpassed : skipFailed ∧ isFailed (workerAddrKey addr) = true ∨
        hostAt workers idx ≠ "" ∧ hostAt workers idx ∈ s.hosts
    · rw [if_pos hpassed, Selection.visit, if_neg]
      rcases hpassed with ⟨hskip, hfailed⟩ | ⟨hne, hmem⟩
      · simp [admits, hsome, hskip, hfailed]
      · have hused := (h.hosts _ hne).mp hmem
        simp [admits, hne, hused]
    · obtain ⟨hhealthy, hfree⟩ := not_or.mp hpassed
      have hunused : hostAt workers idx = "" ∨
          hostAt workers idx ∉ s.idxs.map (hostAt workers) := by
        by_cases hne : hostAt workers idx = ""
        · exact .inl hne
        · exact .inr fun hmem => hfree ⟨hne, (h.hosts _ hne).mpr hmem⟩
      have hadmits : admits workers isFailed skipFailed s.idxs idx = true := by
        simp only [admits, hsome, any_some, Bool.and_eq_true, Bool.or_eq_true,
          Bool.not_eq_true', decide_eq_true_eq]
        exact ⟨⟨hchosen, Bool.eq_false_iff.mpr fun hfailed => hhealthy (by simpa using hfailed)⟩,
          hunused⟩
      rw [if_neg hpassed, Selection.visit, if_pos hadmits, hw]
      rfl

end

theorem selectNLoop_eq (hring : RingOf workers ring) :
    ∀ (left attempt : Nat) (s : Selection), Tracks workers isFailed skipFailed s →
      s.idxs.length ≤ count →
      selectNLoop blockId workers ring isFailed count skipFailed left attempt s =
        workersAt workers ((greedy (admits workers isFailed skipFailed) s.idxs
          (attemptsFrom blockId ring attempt left)).take count) := by
  intro left
  induction left with
  | zero =>
    intro attempt s h hcount
    exact h.selected.trans (congrArg _ (take_of_length_le hcount).symm)
  | succ left ih =>
    intro attempt s h hcount
    by_cases hdone : count ≤ s.selected.length
    · have hlen : s.idxs.length = count := Nat.le_antisymm hcount (h.length_selected ▸ hdone)
      rw [selectNLoop, if_pos (.inl hdone), ← hlen,
        ← prefix_iff_eq_take.mp prefix_greedy, h.selected]
    by_cases hfull : workers.length ≤ s.visited.length
    · rw [selectNLoop, if_pos (.inr hfull), greedy_eq_self fun idx hmem =>
        h.visited.spent_of_full hfull (lt_of_mem_attemptsFrom hring hmem),
        take_of_length_le hcount, h.selected]
    cases hidx : attemptIndex blockId ring attempt with
    | none =>
      obtain rfl := ringCeilingWorkerIndex_eq_none hidx
      rw [selectNLoop, if_neg (not_or.mpr ⟨hdone, hfull⟩), attemptsFrom_nil, greedy,
        take_of_length_le hcount]
      exact h.selected
    | some idx =>
      have hlt := attemptIndex_lt hring hidx
      have hw : workers[idx]? = some workers[idx] := getElem?_eq_getElem hlt
      have hidxs : (s.visit workers isFailed skipFailed idx).idxs =
          if admits workers isFailed skipFailed s.idxs idx then s.idxs ++ [idx] else s.idxs := by
        unfold Selection.visit
        split
        · rfl
        · rfl
      rw [selectNLoop_attempt h (not_or.mpr ⟨hdone, hfull⟩) hidx hw, attemptsFrom_succ hidx,
        greedy, ← hidxs]
      refine ih (attempt + 1) _ (h.visit hlt) ?_
      rw [hidxs]
      have hless : s.idxs.length < count := h.length_selected ▸ Nat.lt_of_not_le hdone
      split
      · rw [length_append]
        exact hless
      · exact hcount

theorem consistentHashSelectNFromRing_eq (hring : RingOf workers ring) :
    consistentHashSelectNFromRing blockId workers ring isFailed count skipFailed =
      workersAt workers ((eligible blockId workers ring isFailed skipFailed).take count) := by
  unfold consistentHashSelectNFromRing
  split
  case isTrue hempty =>
    rcases hempty with rfl | rfl | rfl
    · rfl
    · rw [eligible, attempts, attemptsFrom_nil, greedy, take_nil]
      rfl
    · exact (filterMap_eq_nil_iff.mpr fun _ _ => rfl).symm
  case isFalse =>
    refine selectNLoop_eq hring _ _ _ ⟨rfl, fun host _ => ?_, fun _ h => ?_, Visited.nil⟩
      (Nat.zero_le count)
    · exact Iff.rfl
    · exact (not_mem_nil h).elim

theorem eligible_lt (hring : RingOf workers ring)
    (h : idx ∈ eligible blockId workers ring isFailed skipFailed) : idx < workers.length :=
  lt_of_mem_attemptsFrom hring ((mem_of_mem_greedy h).resolve_left not_mem_nil)

theorem nodup_eligible : (eligible blockId workers ring isFailed skipFailed).Nodup := by
  refine nodup_greedy nodup_nil fun chosen idx hadmits hmem => ?_
  simp [admits, hmem] at hadmits

/-- The eligible positions, or those of failed workers where there are none. -/
def ranking (blockId : Int64) (workers : List WorkerInfo) (ring : HashRing)
    (isFailed : String → Bool) : List Nat :=
  if eligible blockId workers ring isFailed true = [] then
    eligible blockId workers ring isFailed false
  else eligible blockId workers ring isFailed true

theorem nodup_ranking : (ranking blockId workers ring isFailed).Nodup := by
  unfold ranking
  split
  · exact nodup_eligible
  · exact nodup_eligible

theorem workersAt_take_eq_nil {positions : List Nat} (hlt : ∀ idx ∈ positions, idx < workers.length)
    (hcount : 0 < count) : workersAt workers (positions.take count) = [] ↔ positions = [] := by
  have htake : ∀ idx ∈ positions.take count, idx < workers.length := fun idx hidx =>
    hlt idx (mem_of_mem_take hidx)
  have hlen := length_workersAt htake
  rw [← length_eq_zero_iff, ← length_eq_zero_iff, hlen, length_take]
  omega

theorem selectWorkers_eq (hring : RingOf workers ring) (hcount : 0 < count) :
    selectWorkers blockId workers ring isFailed count =
      if workers = [] then .error noWorkersRegistered
      else if ranking blockId workers ring isFailed = [] then .error (noSuitableWorker blockId)
      else .ok (workersAt workers ((ranking blockId workers ring isFailed).take count)) := by
  have hnil : ∀ skipFailed,
      consistentHashSelectNFromRing blockId workers ring isFailed count skipFailed = [] ↔
        eligible blockId workers ring isFailed skipFailed = [] := fun skipFailed => by
    rw [consistentHashSelectNFromRing_eq hring]
    exact workersAt_take_eq_nil (fun _ => eligible_lt hring) hcount
  unfold selectWorkers ranking
  rw [if_neg (Nat.ne_of_gt hcount)]
  split
  case isTrue => rfl
  split
  case h_1 hnone =>
    rw [if_pos ((hnil true).mp hnone)]
    split
    case h_1 hnone' => rw [if_pos ((hnil false).mp hnone')]
    case h_2 hsome =>
      rw [if_neg fun h => hsome ((hnil false).mpr h), consistentHashSelectNFromRing_eq hring]
  case h_2 hsome =>
    have hne := fun h => hsome ((hnil true).mpr h)
    rw [if_neg hne, if_neg hne, consistentHashSelectNFromRing_eq hring]

end Select

end GooseFS.Router
