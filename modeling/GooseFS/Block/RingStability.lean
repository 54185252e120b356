import Mathlib.Data.List.Flatten
import GooseFS.Lib.ListOrder
import GooseFS.Block.RouterView

/-!
# What the ring of a list selects

The hash ring holds, for each virtual node of each worker, the position of the
worker in the list.  Where no two virtual nodes share a key, the entry that a
lookup finds is the cyclic ceiling of its target among the keys of all workers
(`ringWorker_eq_some_iff`), which says nothing about positions.  So the order of
the list does not matter, and a worker that joins or leaves takes or gives up only
the targets that its own keys are nearest to (`hashSelected_stable`).

This needs the address of the worker.  One that joins without an address is skipped
where failed workers are, and moves blocks between the other workers
(`hashSelected_disturbed`).
-/

namespace GooseFS.Router

open Lib List Router.WorkerInfo State

/-! ## The keys of the workers -/

def WorkerInfo.nodeKeys (w : WorkerInfo) : List Int64 :=
  (range w.virtualNodes.toUInt32.toNat).map fun vn =>
    Murmur3.guavaLongInt (w.id.getD 0) (Int32.ofNat vn)

section Spread

variable {workers : List WorkerInfo}

/-- Every worker has an id, and no two virtual nodes share a key. -/
structure Spread (workers : List WorkerInfo) : Prop where
  ids : ∀ w ∈ workers, w.id ≠ none
  keys : (workers.flatMap nodeKeys).Nodup

instance (workers : List WorkerInfo) : Decidable (Spread workers) :=
  decidable_of_iff ((∀ w ∈ workers, w.id ≠ none) ∧ (workers.flatMap nodeKeys).Nodup)
    ⟨fun h => ⟨h.1, h.2⟩, fun h => ⟨h.ids, h.keys⟩⟩

theorem ringEntries_eq (hids : ∀ w ∈ workers, w.id ≠ none) : ringEntries workers =
    workers.zipIdx.flatMap fun entry => entry.1.nodeKeys.map fun key => (key, entry.2) := by
  unfold ringEntries
  refine flatMap_congr fun entry hentry => ?_
  have hmem : entry.1 ∈ workers :=
    mem_of_getElem? (mem_zipIdx_iff_getElem?.mp hentry)
  obtain ⟨id, hid⟩ := Option.ne_none_iff_exists'.mp (hids entry.1 hmem)
  rw [nodeKeys, map_map, hid]
  rfl

theorem ringEntries_keys (hids : ∀ w ∈ workers, w.id ≠ none) :
    (ringEntries workers).map Prod.fst = workers.flatMap nodeKeys := by
  rw [ringEntries_eq hids, map_flatMap]
  have hfst : (fun entry : WorkerInfo × Nat =>
      (entry.1.nodeKeys.map fun key => (key, entry.2)).map Prod.fst) =
        fun entry => entry.1.nodeKeys := by
    funext entry
    rw [map_map]
    exact map_id _
  have hzip : workers.flatMap nodeKeys =
      (workers.zipIdx.map Prod.fst).flatMap nodeKeys := by rw [zipIdx_map_fst]
  rw [hfst, hzip, flatMap_map]

theorem mem_buildHashRing (h : Spread workers) {key : Int64} {idx : Nat} :
    (key, idx) ∈ buildHashRing workers ↔ ∃ w, workers[idx]? = some w ∧ key ∈ w.nodeKeys := by
  have hentries : (key, idx) ∈ ringEntries workers ↔
      ∃ w, workers[idx]? = some w ∧ key ∈ w.nodeKeys := by
    rw [ringEntries_eq h.ids, mem_flatMap]
    constructor
    · rintro ⟨entry, hentry, hmem⟩
      obtain ⟨key', hkey', heq⟩ := mem_map.mp hmem
      cases heq
      exact ⟨entry.1, mem_zipIdx_iff_getElem?.mp hentry, hkey'⟩
    · rintro ⟨w, hw, hkey⟩
      exact ⟨(w, idx), mem_zipIdx_iff_getElem?.mpr hw, mem_map.mpr ⟨key, hkey, rfl⟩⟩
  rw [buildHashRing_eq, Std.TreeMap.mem_toList_iff_getElem?_eq_some, ← hentries]
  constructor
  · intro hring
    rcases mem_of_inserted hring with hmem | hempty
    · exact hmem
    · rw [Std.TreeMap.getElem?_emptyc] at hempty
      cases hempty
  · exact inserted_of_mem (ringEntries_keys h.ids ▸ h.keys)

end Spread

def ringWorker (workers : List WorkerInfo) (target : Int64) : Option WorkerInfo :=
  (ringCeilingWorkerIndex (buildHashRing workers) target).bind fun idx => workers[idx]?

def allKeys (workers : List WorkerInfo) : Set Int64 :=
  {key | key ∈ workers.flatMap nodeKeys}

section RingWorker

variable {workers workers' : List WorkerInfo} {w : WorkerInfo} {target : Int64}

theorem keySet_buildHashRing (h : Spread workers) :
    keySet (buildHashRing workers) = allKeys workers := by
  refine Set.ext fun key => ?_
  constructor
  · intro hkey
    obtain ⟨⟨_, idx⟩, hnode, rfl⟩ := mem_map.mp hkey
    obtain ⟨w, hw, hmem⟩ := (mem_buildHashRing h).mp hnode
    exact mem_flatMap.mpr ⟨w, mem_of_getElem? hw, hmem⟩
  · intro hkey
    obtain ⟨w, hw, hmem⟩ := mem_flatMap.mp hkey
    obtain ⟨idx, hidx⟩ := mem_iff_getElem?.mp hw
    exact mem_map.mpr ⟨(key, idx), (mem_buildHashRing h).mpr ⟨w, hidx, hmem⟩, rfl⟩

theorem ringWorker_eq_some_iff (h : Spread workers) : ringWorker workers target = some w ↔
      w ∈ workers ∧ ∃ key ∈ w.nodeKeys, IsCeiling (allKeys workers) target key := by
  rw [ringWorker, Option.bind_eq_some_iff]
  constructor
  · rintro ⟨idx, hidx, hw⟩
    obtain ⟨key, hnode, hceil⟩ :=
      (ringCeilingWorkerIndex_eq_some_iff (buildHashRing_ascending workers)).mp hidx
    obtain ⟨v, hv, hkey⟩ := (mem_buildHashRing h).mp hnode
    obtain rfl : v = w := Option.some.inj (hv.symm.trans hw)
    exact ⟨mem_of_getElem? hw, key, hkey, keySet_buildHashRing h ▸ hceil⟩
  · rintro ⟨hw, key, hkey, hceil⟩
    obtain ⟨idx, hidx⟩ := mem_iff_getElem?.mp hw
    refine ⟨idx, (ringCeilingWorkerIndex_eq_some_iff (buildHashRing_ascending workers)).mpr
      ⟨key, (mem_buildHashRing h).mpr ⟨w, hidx, hkey⟩, ?_⟩, hidx⟩
    rw [keySet_buildHashRing h]
    exact hceil

theorem ringWorker_eq_none (h : ringWorker workers target = none) : buildHashRing workers = [] := by
  cases hidx : ringCeilingWorkerIndex (buildHashRing workers) target with
  | none => exact ringCeilingWorkerIndex_eq_none hidx
  | some idx =>
    obtain ⟨key, hnode, _⟩ :=
      (ringCeilingWorkerIndex_eq_some_iff (buildHashRing_ascending workers)).mp hidx
    rw [ringWorker, hidx, Option.bind_some, getElem?_eq_getElem (buildHashRing_lt hnode)] at h
    cases h

theorem ringWorker_perm (h : Spread workers) (hperm : workers.Perm workers') :
    ringWorker workers = ringWorker workers' := by
  have hkeys := hperm.flatMap_right nodeKeys
  have h' : Spread workers' :=
    ⟨fun w hw => h.ids w (hperm.mem_iff.mpr hw), hkeys.nodup_iff.mp h.keys⟩
  have hsets : allKeys workers = allKeys workers' := Set.ext fun key => hkeys.mem_iff
  funext target
  refine Option.ext fun w => ?_
  rw [ringWorker_eq_some_iff h, ringWorker_eq_some_iff h', hperm.mem_iff, hsets]

theorem ringWorker_insert {pre post : List WorkerInfo} (h : Spread (pre ++ w :: post)) :
    ringWorker (pre ++ w :: post) target = some w ∨
      ringWorker (pre ++ w :: post) target = ringWorker (pre ++ post) target := by
  have hmem : ∀ v, v ∈ pre ++ w :: post ↔ v = w ∨ v ∈ pre ++ post := by
    intro v
    rw [mem_append, mem_cons, mem_append]
    tauto
  have hsub : (pre ++ post).Sublist (pre ++ w :: post) :=
    (Sublist.refl pre).append (sublist_cons_self w post)
  have hless : Spread (pre ++ post) :=
    ⟨fun v hv => h.ids v ((hmem v).mpr (.inr hv)), h.keys.sublist (hsub.flatMap _)⟩
  have hkeys : allKeys (pre ++ post) ⊆ allKeys (pre ++ w :: post) :=
    fun key hkey => (hsub.flatMap _).subset hkey
  cases hworker : ringWorker (pre ++ w :: post) target with
  | some v =>
    obtain ⟨hv, key, hkey, hceil⟩ := (ringWorker_eq_some_iff h).mp hworker
    rcases (hmem v).mp hv with rfl | hv
    · exact .inl rfl
    · have hmemKeys : key ∈ allKeys (pre ++ post) := mem_flatMap.mpr ⟨v, hv, hkey⟩
      exact .inr ((ringWorker_eq_some_iff hless).mpr
        ⟨hv, key, hkey, hceil.anti hkeys hmemKeys⟩).symm
  | none =>
    refine .inr (Eq.symm (Option.eq_none_iff_forall_ne_some.mpr fun v hv => ?_))
    -- a ring with a node for some worker has one for every target
    obtain ⟨hv, key, hkey, _⟩ := (ringWorker_eq_some_iff hless).mp hv
    obtain ⟨idx, hidx⟩ := mem_iff_getElem?.mp ((hmem v).mpr (.inr hv))
    have hnode := (mem_buildHashRing h).mpr ⟨v, hidx, hkey⟩
    rw [ringWorker_eq_none hworker] at hnode
    exact not_mem_nil hnode

end RingWorker

/-! ## The worker of a block -/

/-- The worker that a list has for a block while no worker has failed. -/
def hashSelected (blockId : Int64) (workers : List WorkerInfo) (skipFailed : Bool) :
    Option WorkerInfo :=
  consistentHashSelectFromRing blockId workers (buildHashRing workers) (fun _ => false) skipFailed

theorem hashSelected_eq (blockId : Int64) (workers : List WorkerInfo) (skipFailed : Bool) :
    hashSelected blockId workers skipFailed =
      ((range' 0 hashPolicyMaxAttempts).filterMap fun attempt =>
        ringWorker workers (Murmur3.guavaLongInt blockId (Int32.ofNat attempt))).find?
          (accepts (fun _ => false) skipFailed) := by
  rw [hashSelected, consistentHashSelectFromRing_eq (ringOf_buildHashRing workers), workersAt,
    attempts, attemptsFrom, filterMap_filterMap]
  rfl

theorem accepts_of_address {skipFailed : Bool} {w : WorkerInfo}
    (h : skipFailed = true → w.address ≠ none) : accepts (fun _ => false) skipFailed w = true := by
  cases skipFailed with
  | false => rfl
  | true =>
    obtain ⟨addr, haddr⟩ := Option.ne_none_iff_exists'.mp (h rfl)
    rw [accepts, haddr]
    rfl

/-- A worker that joins a list takes over a block or leaves it where it was, a worker that
leaves gives up no blocks but its own, and the order of the list does not matter. -/
theorem hashSelected_stable (blockId : Int64) (skipFailed : Bool) :
    (∀ (pre post : List WorkerInfo) (w : WorkerInfo), Spread (pre ++ w :: post) →
      (skipFailed = true → w.address ≠ none) →
      (hashSelected blockId (pre ++ w :: post) skipFailed =
          hashSelected blockId (pre ++ post) skipFailed ∨
        hashSelected blockId (pre ++ w :: post) skipFailed = some w) ∧
      (hashSelected blockId (pre ++ post) skipFailed ≠
          hashSelected blockId (pre ++ w :: post) skipFailed →
        hashSelected blockId (pre ++ w :: post) skipFailed = some w)) ∧
    ∀ workers workers' : List WorkerInfo, Spread workers → workers.Perm workers' →
      hashSelected blockId workers' skipFailed = hashSelected blockId workers skipFailed := by
  constructor
  · intro pre post w h haddr
    have hstable : hashSelected blockId (pre ++ w :: post) skipFailed = some w ∨
        hashSelected blockId (pre ++ w :: post) skipFailed =
          hashSelected blockId (pre ++ post) skipFailed := by
      rw [hashSelected_eq, hashSelected_eq]
      exact find?_filterMap_of_eq_or (accepts_of_address haddr) fun _ => ringWorker_insert h
    exact ⟨hstable.symm, fun hne => hstable.resolve_right fun heq => hne heq.symm⟩
  · intro workers workers' h hperm
    rw [hashSelected_eq, hashSelected_eq, ringWorker_perm h hperm]

theorem hashSelected_stable_joined : Spread ([here] ++ there :: []) ∧ there.address ≠ none ∧
    hashSelected 9 ([here] ++ there :: []) true = hashSelected 9 [here] true ∧
    hashSelected 23 ([here] ++ there :: []) true = some there ∧
    hashSelected 23 [there, here] true =
      hashSelected 23 ([here] ++ there :: []) true := by
  have hspread : Spread ([here] ++ there :: []) := by decide +kernel
  have haddr : there.address ≠ none := by decide +kernel
  have hkept := (hashSelected_stable 9 true).1 [here] [] there hspread fun _ => haddr
  have htaken := (hashSelected_stable 23 true).1 [here] [] there hspread fun _ => haddr
  refine ⟨hspread, haddr, ?_, ?_, ?_⟩
  · exact hkept.1.resolve_right (by decide +kernel)
  · exact htaken.2 (by decide +kernel)
  · exact (hashSelected_stable 23 true).2 _ _ hspread (List.Perm.swap _ _ [])

/-- Where failed workers are skipped, so is one without an address: it takes over the first
attempt of the block, and the second one goes to another worker than the first did before. -/
theorem hashSelected_disturbed : Spread [here, there, noAddress] ∧
    [here, there, noAddress].Pairwise (fun w w' => w.id ≠ w'.id) ∧
    hashSelected 23 [here, there] true = some there ∧
    hashSelected 23 [here, there, noAddress] true = some here := by
  decide +kernel

end GooseFS.Router
