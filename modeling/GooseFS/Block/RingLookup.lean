import GooseFS.Lib.CyclicCeiling
import GooseFS.Block.HashRing

/-!
# Rings of virtual nodes

What `build_hash_ring` returns for a list: keys in ascending order, and positions
of the list (`ringOf_buildHashRing`).  The code looks a target up by a binary
search, which on such a ring finds the same entry as the lookup of the model
(`ringCeilingWorkerIndex_of_searched`).
-/

namespace GooseFS.Router

open Lib List

/-! ## The entries of a ring -/

section Insertion

variable {key : Int64} {idx : Nat}

theorem mem_of_inserted : ∀ {entries : List (Int64 × Nat)} {ring : Std.TreeMap Int64 Nat},
    (entries.foldl (fun ring e => ring.insert e.1 e.2) ring)[key]? = some idx →
      (key, idx) ∈ entries ∨ ring[key]? = some idx := by
  intro entries
  induction entries with
  | nil => exact fun h => .inr h
  | cons e rest ih =>
    intro ring h
    rcases ih h with hmem | hold
    · exact .inl (mem_cons_of_mem _ hmem)
    · rw [Std.TreeMap.getElem?_insert] at hold
      split at hold
      case isTrue heq =>
        have hkey : e.1 = key := Std.LawfulEqCmp.eq_of_compare heq
        exact .inl (mem_cons.mpr (.inl (Prod.ext hkey.symm (Option.some.inj hold).symm)))
      case isFalse => exact .inr hold

theorem getElem?_of_not_inserted : ∀ {entries : List (Int64 × Nat)}
    {ring : Std.TreeMap Int64 Nat}, key ∉ entries.map Prod.fst →
      (entries.foldl (fun ring e => ring.insert e.1 e.2) ring)[key]? = ring[key]? := by
  intro entries
  induction entries with
  | nil => exact fun _ => rfl
  | cons e rest ih =>
    intro ring hnot
    obtain ⟨hne, hrest⟩ := not_or.mp (mem_cons.not.mp hnot)
    rw [foldl_cons, ih hrest, Std.TreeMap.getElem?_insert, if_neg]
    exact fun heq => hne (Std.LawfulEqCmp.eq_of_compare heq).symm

theorem inserted_of_mem : ∀ {entries : List (Int64 × Nat)} {ring : Std.TreeMap Int64 Nat},
    (entries.map Prod.fst).Nodup → (key, idx) ∈ entries →
      (entries.foldl (fun ring e => ring.insert e.1 e.2) ring)[key]? = some idx := by
  intro entries
  induction entries with
  | nil => exact fun _ hmem => (not_mem_nil hmem).elim
  | cons e rest ih =>
    intro ring hnodup hmem
    obtain ⟨hnot, hrest⟩ := nodup_cons.mp hnodup
    rcases mem_cons.mp hmem with rfl | hmem
    · rw [foldl_cons, getElem?_of_not_inserted hnot, Std.TreeMap.getElem?_insert_self]
    · exact ih hrest hmem

end Insertion

def ringEntries (workers : List WorkerInfo) : List (Int64 × Nat) :=
  workers.zipIdx.flatMap fun entry =>
    (range entry.1.virtualNodes.toUInt32.toNat).map fun vn =>
      (Murmur3.guavaLongInt (entry.1.id.getD (Int64.ofNat entry.2)) (Int32.ofNat vn), entry.2)

section Ring

variable {workers : List WorkerInfo}

theorem buildHashRing_eq (workers : List WorkerInfo) : buildHashRing workers =
    ((ringEntries workers).foldl (fun ring e => ring.insert e.1 e.2)
      (∅ : Std.TreeMap Int64 Nat)).toList := by
  unfold buildHashRing ringEntries
  rw [foldl_flatMap]
  congr 2
  funext ring entry
  rw [foldl_map]
  rfl

theorem buildHashRing_ascending (workers : List WorkerInfo) :
    AscendingKeys (buildHashRing workers) :=
  Std.TreeMap.ordered_keys_toList.imp fun h => Std.compare_eq_lt.mp h

theorem buildHashRing_lt {node : Int64 × Nat} (h : node ∈ buildHashRing workers) :
    node.2 < workers.length := by
  rw [buildHashRing_eq] at h
  rcases mem_of_inserted (Std.TreeMap.mem_toList_iff_getElem?_eq_some.mp h) with hmem | hempty
  · obtain ⟨entry, hentry, hnode⟩ := mem_flatMap.mp hmem
    obtain ⟨vn, _, heq⟩ := mem_map.mp hnode
    have hidx : entry.2 = node.2 := congrArg Prod.snd heq
    rw [← hidx]
    exact (List.getElem?_eq_some_iff.mp (mem_zipIdx_iff_getElem?.mp hentry)).1
  · rw [Std.TreeMap.getElem?_emptyc] at hempty
    cases hempty

end Ring

/-- A ring whose positions are those of a list, sorted by key. -/
structure RingOf (workers : List WorkerInfo) (ring : HashRing) : Prop where
  ascending : AscendingKeys ring
  lt : ∀ node ∈ ring, node.2 < workers.length

theorem ringOf_buildHashRing (workers : List WorkerInfo) : RingOf workers (buildHashRing workers) :=
  ⟨buildHashRing_ascending workers, fun _ => buildHashRing_lt⟩

variable {ring : HashRing} {target : Int64}

theorem ringCeilingWorkerIndex_eq_some_iff (hasc : AscendingKeys ring) {idx : Nat} :
    ringCeilingWorkerIndex ring target = some idx ↔
      ∃ key, (key, idx) ∈ ring ∧ IsCeiling (keySet ring) target key := by
  constructor
  · intro h
    obtain ⟨node, hnode, rfl⟩ := Option.map_eq_some_iff.mp h
    obtain ⟨hmem, hceil⟩ := cyclicCeiling_spec hasc hnode
    exact ⟨node.1, hmem, hceil⟩
  · rintro ⟨key, hmem, hceil⟩
    obtain ⟨node, hnode⟩ := cyclicCeiling_ne_none (ne_nil_of_mem hmem) (t := target)
    obtain ⟨hmem', hceil'⟩ := cyclicCeiling_spec hasc hnode
    have heq : node = (key, idx) := hasc.eq_of_key_eq hmem' hmem (hceil'.unique hceil)
    exact congrArg (Option.map Prod.snd) (heq ▸ hnode)

theorem ringCeilingWorkerIndex_of_getElem? {i : Nat} {node : Int64 × Nat}
    (hget : ring[i]? = some node) (hnode : target ≤ node.1)
    (hbelow : ∀ before ∈ ring.take i, before.1 < target) :
    ringCeilingWorkerIndex ring target = some node.2 := by
  obtain ⟨hlt, rfl⟩ := List.getElem?_eq_some_iff.mp hget
  have hfind : (ring.find? fun node => target ≤ node.1) = some ring[i] := by
    refine find?_eq_some_iff_getElem.mpr ⟨decide_eq_true hnode, i, hlt, rfl, fun j hj => ?_⟩
    have hmem : ring[j] ∈ ring.take i := mem_take_iff_getElem.mpr ⟨j, by omega, rfl⟩
    simpa using hbelow _ hmem
  rw [ringCeilingWorkerIndex, hfind]
  rfl

/-- What a binary search in a slice that is sorted by key returns: an index of the target,
or the one at which it would be inserted. -/
def Searched (ring : HashRing) (target : Int64) : Except Nat Nat → Prop
  | .ok i => ring[i]?.map Prod.fst = some target
  | .error i => (∀ node ∈ ring.take i, node.1 < target) ∧ ∀ node ∈ ring.drop i, target < node.1

/-- `ring_ceiling_worker_index` after the search. -/
def searchedWorkerIndex (ring : HashRing) : Except Nat Nat → Option Nat
  | .ok i => ring[i]?.map Prod.snd
  | .error i => if i < ring.length then ring[i]?.map Prod.snd else ring.head?.map Prod.snd

theorem ringCeilingWorkerIndex_of_searched (hasc : AscendingKeys ring) {result : Except Nat Nat}
    (h : Searched ring target result) :
    searchedWorkerIndex ring result = ringCeilingWorkerIndex ring target := by
  cases result with
  | ok i =>
    obtain ⟨node, hget, rfl⟩ := Option.map_eq_some_iff.mp h
    rw [searchedWorkerIndex, hget]
    refine (ringCeilingWorkerIndex_of_getElem? hget (Std.le_refl _) fun before hbefore => ?_).symm
    obtain ⟨j, hj, rfl⟩ := mem_take_iff_getElem.mp hbefore
    obtain ⟨hlt, rfl⟩ := List.getElem?_eq_some_iff.mp hget
    exact pairwise_iff_getElem.mp hasc j i (by omega) hlt (by omega)
  | error i =>
    rw [searchedWorkerIndex]
    split
    case isTrue hlt =>
      have hget := getElem?_eq_getElem hlt
      have hmem : ring[i] ∈ ring.drop i := by
        rw [drop_eq_getElem_cons hlt]
        exact mem_cons_self
      rw [hget]
      exact (ringCeilingWorkerIndex_of_getElem? hget (Std.le_of_lt (h.2 _ hmem)) h.1).symm
    case isFalse hge =>
      have hbelow := h.1
      rw [take_of_length_le (Nat.le_of_not_lt hge)] at hbelow
      have hnone : (ring.find? fun node => target ≤ node.1) = none :=
        find?_eq_none.mpr fun node hnode => by simpa using hbelow node hnode
      rw [ringCeilingWorkerIndex, hnone]
      rfl

theorem ringCeilingWorkerIndex_eq_none (h : ringCeilingWorkerIndex ring target = none) :
    ring = [] := by
  by_contra hne
  obtain ⟨node, hnode⟩ := cyclicCeiling_ne_none hne (t := target)
  have hsome : ringCeilingWorkerIndex ring target = some node.2 :=
    congrArg (Option.map Prod.snd) hnode
  rw [hsome] at h
  cases h

end GooseFS.Router
