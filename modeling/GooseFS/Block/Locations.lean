import GooseFS.Lib.Checked
import GooseFS.Block.ReadFailover
import GooseFS.IO.BlockIds

/-!
# Probing for block locations

The master often does not know which workers have a block.  `enrich_file_block_locations`
asks the workers themselves: it selects candidates for each block, turns the map from blocks
to candidates into one from workers to blocks, asks every worker once about its blocks, and
puts the answers together block by block.  A worker that cannot be reached or whose call
fails says nothing; an answer says for each block that was asked about whether it is there.

`enrich_locations` is about all candidates, all answers and all orders in which the hash
maps are walked.  A block for which some worker has answered gets the workers that have
reported it, each once.  A block for which none has keeps the locations of the master, and
so does a block without a valid id.
-/

namespace GooseFS.Router

open Lib List Std.TreeMap

/-- A block location as it is stored, with the address of the worker. -/
structure WorkerLocation extends BlockLocation where
  workerAddress : Option WorkerNetAddress
  deriving DecidableEq, Repr

structure BlockInfo where
  blockId : Option Int64
  length : Option Int64
  locations : List WorkerLocation
  deriving DecidableEq, Repr

structure FileBlockInfo where
  blockInfo : Option BlockInfo
  offset : Option Int64
  deriving DecidableEq, Repr

structure FileInfo where
  folder : Option Bool
  length : Option Int64
  blockSizeBytes : Option Int64
  blockIds : List Int64
  fileBlockInfos : List FileBlockInfo
  inGooseFsPercentage : Option Int32
  deriving DecidableEq, Repr

def FileBlockInfo.blockId (e : FileBlockInfo) : Option Int64 := e.blockInfo.bind BlockInfo.blockId

def FileBlockInfo.validId (e : FileBlockInfo) : Option Int64 := e.blockId.filter (0 < ·)

def FileBlockInfo.pair (e : FileBlockInfo) : Option (Int64 × Int64) :=
  e.validId.map fun id => (e.offset.getD 0, id)

def FileInfo.ensureBlockIdsFromFileBlockInfos (fi : FileInfo) : FileInfo :=
  if fi.blockIds ≠ [] ∨ fi.fileBlockInfos = [] then fi
  else
    let pairs := (fi.fileBlockInfos.filterMap FileBlockInfo.pair).mergeSort fun a b => a.1 ≤ b.1
    { fi with blockIds := pairs.map Prod.snd }

/-- The percentage, or `none` where the sum of the block lengths overflows. -/
def FileInfo.percentage (fi : FileInfo) : Option Int32 :=
  let fileLength := fi.length.getD 0
  if fileLength = 0 then some 100
  else do
    let cacheSize ← fi.fileBlockInfos.foldlM (fun cacheSize e =>
      match e.blockInfo with
      | none => some cacheSize
      | some bi =>
        if bi.locations = [] then some cacheSize
        else checkedI64 (cacheSize + max (bi.length.getD 0).toInt 0)) 0
    some (Int32.ofInt (min (Int.tdiv (saturateI64 (cacheSize * 100)) fileLength.toInt) 100))

/-- `recompute_in_goosefs_percentage`.  A sum that overflows ends the call here. -/
def FileInfo.recomputeInGoosefsPercentage (fi : FileInfo) : FileInfo :=
  match fi.percentage with
  | some percentage => { fi with inGooseFsPercentage := some percentage }
  | none => fi

/-! ## Probing -/

/-- `block_id → cached_bytes`, in the order in which the map is walked. -/
structure CachedBytes where
  entries : List (Int64 × Int64)
  distinct : (entries.map Prod.fst).Nodup

/-- The candidates of a block, and what a worker answers at its endpoint: each worker is asked
once. -/
structure ProbeEnv where
  select : Int64 → Nat → Except Error (List WorkerInfo)
  acquire : String → Except Error Unit
  checkBlocks : String → Except Error CachedBytes

def WorkerRouterView.probeEnv (v : WorkerRouterView) (now : Nat)
    (acquire : String → Except Error Unit) (checkBlocks : String → Except Error CachedBytes) :
    ProbeEnv :=
  ⟨fun blockId count => (v.selectWorkers now blockId count).1, acquire, checkBlocks⟩

structure ProbedLocations where
  locations : Std.TreeMap Int64 (List WorkerLocation)
  probedOk : Std.TreeSet Int64

inductive WorkerCheckOutcome where
  | ok (worker : WorkerInfo) (queried : List Int64) (cachedBytes : CachedBytes)
  | failed

abbrev BlockSet := Std.TreeSet Int64

abbrev WorkerToBlocks := Std.TreeMap String (WorkerInfo × BlockSet)

/-- The orders in which the hash maps and sets are walked. -/
structure HashOrders where
  blocks : List (Int64 × List WorkerInfo) → List (Int64 × List WorkerInfo)
  workers : List (String × WorkerInfo × BlockSet) → List (String × WorkerInfo × BlockSet)
  ids : List Int64 → List Int64
  blocks_perm : ∀ l, (blocks l).Perm l
  workers_perm : ∀ l, (workers l).Perm l
  ids_perm : ∀ l, (ids l).Perm l

section Probe

variable (env : ProbeEnv) (orders : HashOrders) (checkCount : Nat)

def blockToWorkers (blockIds : List Int64) : Std.TreeMap Int64 (List WorkerInfo) :=
  blockIds.foldl (fun m blockId =>
    match env.select blockId checkCount with
    | .ok workers => m.insert blockId workers
    | .error _ => m) ∅

def addCandidate (blockId : Int64) (m : WorkerToBlocks) (w : WorkerInfo) : WorkerToBlocks :=
  match w.address with
  | none => m
  | some addr =>
    let key := rpcEndpoint addr
    match m[key]? with
    | some (worker, ids) => m.insert key (worker, ids.insert blockId)
    | none => m.insert key (w, (∅ : BlockSet).insert blockId)

def workerToBlocks (candidates : List (Int64 × List WorkerInfo)) : WorkerToBlocks :=
  candidates.foldl (fun m c => c.2.foldl (addCandidate c.1) m) ∅

def checkWorker (endpoint : String) (worker : WorkerInfo) (queried : List Int64) :
    WorkerCheckOutcome :=
  match env.acquire endpoint with
  | .error _ => .failed
  | .ok () =>
    match env.checkBlocks endpoint with
    | .error _ => .failed
    | .ok cachedBytes => .ok worker queried cachedBytes

def markProbed (p : ProbedLocations) (blockId : Int64) : ProbedLocations :=
  ⟨p.locations.insert blockId (p.locations[blockId]?.getD []), p.probedOk.insert blockId⟩

def addLocation (loc : WorkerLocation) (p : ProbedLocations) (entry : Int64 × Int64) :
    ProbedLocations :=
  if entry.2 ≤ 0 then p
  else { p with
    locations := p.locations.insert entry.1 (p.locations[entry.1]?.getD [] ++ [loc]) }

def absorb (p : ProbedLocations) : WorkerCheckOutcome → ProbedLocations
  | .failed => p
  | .ok worker queried cachedBytes =>
    cachedBytes.entries.foldl (addLocation ⟨⟨worker.id⟩, worker.address⟩)
      (queried.foldl markProbed p)

def fetchBlockLocations (blockIds : List Int64) : ProbedLocations :=
  let candidates := orders.blocks (blockToWorkers env checkCount blockIds).toList
  let tasks := orders.workers (workerToBlocks candidates).toList
  let outcomes := tasks.map fun task => checkWorker env task.1 task.2.1 (orders.ids task.2.2.toList)
  outcomes.foldl absorb ⟨∅, ∅⟩

def applyTo (probed : ProbedLocations) (e : FileBlockInfo) : FileBlockInfo :=
  match e.blockInfo with
  | none => e
  | some bi =>
    match bi.blockId with
    | none => e
    | some blockId =>
      if blockId ∈ probed.probedOk then
        { e with blockInfo := some { bi with locations := probed.locations[blockId]?.getD [] } }
      else e

def applyProbedLocations (fi : FileInfo) (probed : ProbedLocations) : FileInfo :=
  FileInfo.recomputeInGoosefsPercentage
    { fi with fileBlockInfos := fi.fileBlockInfos.map (applyTo probed) }

def enrichFileBlockLocations (fi : FileInfo) : FileInfo :=
  let fi := fi.ensureBlockIdsFromFileBlockInfos
  if checkCount = 0 ∨ fi.fileBlockInfos = [] then fi
  else
    let blockIds := fi.fileBlockInfos.filterMap FileBlockInfo.validId
    if blockIds = [] then fi
    else applyProbedLocations fi (fetchBlockLocations env orders checkCount blockIds)

end Probe

def WorkerInfo.endpoint (w : WorkerInfo) : Option String := w.address.map rpcEndpoint

def WorkerInfo.location (w : WorkerInfo) : WorkerLocation := ⟨⟨w.id⟩, w.address⟩

def ProbeEnv.answer (env : ProbeEnv) (endpoint : String) : Option CachedBytes :=
  match env.acquire endpoint, env.checkBlocks endpoint with
  | .ok (), .ok cachedBytes => some cachedBytes
  | _, _ => none

def ProbeEnv.queried (env : ProbeEnv) (checkCount : Nat) (blockId : Int64) : List WorkerInfo :=
  if checkCount = 0 then []
  else
    match env.select blockId checkCount with
    | .ok workers => workers.filter fun w => w.address.isSome
    | .error _ => []

def ProbeEnv.Answered (env : ProbeEnv) (w : WorkerInfo) : Prop :=
  ∃ e ∈ w.endpoint, (env.answer e).isSome = true

def ProbeEnv.Reported (env : ProbeEnv) (w : WorkerInfo) (blockId : Int64) : Prop :=
  ∃ e ∈ w.endpoint, ∃ cached ∈ env.answer e, ∃ bytes, (blockId, bytes) ∈ cached.entries ∧ 0 < bytes

theorem checkWorker_eq (env : ProbeEnv) (endpoint : String) (worker : WorkerInfo)
    (queried : List Int64) : checkWorker env endpoint worker queried =
      match env.answer endpoint with
      | some cachedBytes => .ok worker queried cachedBytes
      | none => .failed := by
  unfold checkWorker ProbeEnv.answer
  cases env.acquire endpoint with
  | error e => rfl
  | ok u =>
    cases env.checkBlocks endpoint with
    | error e | ok cachedBytes => rfl

/-! ## From blocks to workers -/

theorem getElem?_blockToWorkers (env : ProbeEnv) (checkCount : Nat) (blockIds : List Int64)
    (b : Int64) : (blockToWorkers env checkCount blockIds)[b]? =
      if b ∈ blockIds then (env.select b checkCount).toOption else none := by
  have hfold : ∀ (ids : List Int64) (m : Std.TreeMap Int64 (List WorkerInfo)),
      (ids.foldl (fun m blockId =>
        match env.select blockId checkCount with
        | .ok workers => m.insert blockId workers
        | .error _ => m) m)[b]? =
        (if b ∈ ids then (env.select b checkCount).toOption else none).or m[b]? := by
    intro ids
    induction ids with
    | nil =>
      intro m
      rfl
    | cons id ids ih =>
      intro m
      rw [foldl_cons, ih]
      by_cases hid : id = b
      · subst hid
        cases hselect : env.select id checkCount with
        | ok workers =>
          simp only [mem_cons, true_or, if_true, getElem?_insert_self]
          split <;> rfl
        | error e => simp [Except.toOption]
      · have hmem : b ∈ id :: ids ↔ b ∈ ids := by
          rw [mem_cons, or_iff_right (Ne.symm hid)]
        simp only [hmem]
        cases env.select id checkCount with
        | ok workers =>
          simp only [Std.TreeMap.getElem?_insert, Std.LawfulEqCmp.compare_eq_iff_eq, if_neg hid]
        | error e => rfl
  rw [blockToWorkers, hfold, getElem?_emptyc, Option.or_none]

/-- The map has, for each endpoint that was asked, a worker there and the blocks it was asked
about. -/
structure Indexed (asks : List (Int64 × WorkerInfo)) (m : WorkerToBlocks) : Prop where
  worker : ∀ e w ids, m[e]? = some (w, ids) → w.endpoint = some e ∧ ∃ b, (b, w) ∈ asks
  ids : ∀ e w ids, m[e]? = some (w, ids) → ∀ b, b ∈ ids ↔ ∃ w', (b, w') ∈ asks ∧ w'.endpoint = some e
  complete : ∀ b w e, (b, w) ∈ asks → w.endpoint = some e → (m[e]?).isSome = true

section Index

variable {asks : List (Int64 × WorkerInfo)} {m : WorkerToBlocks} {b : Int64} {w : WorkerInfo}

theorem Indexed.insert (h : Indexed asks m) {first : WorkerInfo} {key : String} {ids : BlockSet}
    (hw : w.endpoint = some key) (hfirst : first.endpoint = some key)
    (hasked : ∃ b', (b', first) ∈ asks ++ [(b, w)])
    (hids : ∀ b', b' ∈ ids ↔ b' = b ∨ ∃ w', (b', w') ∈ asks ∧ w'.endpoint = some key) :
    Indexed (asks ++ [(b, w)]) (m.insert key (first, ids)) := by
  have hget : ∀ e, (m.insert key (first, ids))[e]? = if key = e then some (first, ids) else m[e]? := by
    intro e
    simp only [Std.TreeMap.getElem?_insert, Std.LawfulEqCmp.compare_eq_iff_eq]
  have hmem : ∀ b' w', (b', w') ∈ asks ++ [(b, w)] ↔ (b', w') ∈ asks ∨ b' = b ∧ w' = w := by
    intro b' w'
    rw [mem_append, mem_singleton, Prod.mk.injEq]
  refine ⟨?_, ?_, ?_⟩
  · intro e w' ids' he
    rw [hget] at he
    split at he
    · next hkey =>
      cases he
      exact ⟨hkey ▸ hfirst, hasked⟩
    · obtain ⟨hend, b', hb'⟩ := h.worker e w' ids' he
      exact ⟨hend, b', mem_append_left _ hb'⟩
  · intro e w' ids' he b'
    rw [hget] at he
    split at he
    · next hkey =>
      subst hkey
      cases he
      rw [hids]
      constructor
      · rintro (rfl | ⟨w'', hw'', hend⟩)
        · exact ⟨w, (hmem _ _).mpr (.inr ⟨rfl, rfl⟩), hw⟩
        · exact ⟨w'', (hmem _ _).mpr (.inl hw''), hend⟩
      · rintro ⟨w'', hw'', hend⟩
        rcases (hmem _ _).mp hw'' with hold | ⟨rfl, rfl⟩
        · exact .inr ⟨w'', hold, hend⟩
        · exact .inl rfl
    · next hkey =>
      rw [h.ids e w' ids' he b']
      constructor
      · rintro ⟨w'', hw'', hend⟩
        exact ⟨w'', (hmem _ _).mpr (.inl hw''), hend⟩
      · rintro ⟨w'', hw'', hend⟩
        rcases (hmem _ _).mp hw'' with hold | ⟨rfl, rfl⟩
        · exact ⟨w'', hold, hend⟩
        · exact absurd (Option.some.inj (hw.symm.trans hend)) hkey
  · intro b' w' e hw' hend
    rw [hget]
    split
    · rfl
    · next hkey =>
      rcases (hmem _ _).mp hw' with hold | ⟨rfl, rfl⟩
      · exact h.complete b' w' e hold hend
      · exact absurd (Option.some.inj (hw.symm.trans hend)) hkey

theorem Indexed.skip (h : Indexed asks m) (hw : w.endpoint = none) :
    Indexed (asks ++ [(b, w)]) m := by
  have hmem : ∀ b' w' e, w'.endpoint = some e →
      ((b', w') ∈ asks ++ [(b, w)] ↔ (b', w') ∈ asks) := by
    intro b' w' e hend
    rw [mem_append, mem_singleton, Prod.mk.injEq, or_iff_left]
    rintro ⟨_, rfl⟩
    rw [hw] at hend
    cases hend
  refine ⟨?_, ?_, ?_⟩
  · intro e w' ids he
    obtain ⟨hend, b', hb'⟩ := h.worker e w' ids he
    exact ⟨hend, b', mem_append_left _ hb'⟩
  · intro e w' ids he b'
    rw [h.ids e w' ids he b']
    constructor
    · rintro ⟨w'', hw'', hend⟩
      exact ⟨w'', (hmem _ _ _ hend).mpr hw'', hend⟩
    · rintro ⟨w'', hw'', hend⟩
      exact ⟨w'', (hmem _ _ _ hend).mp hw'', hend⟩
  · intro b' w' e hw' hend
    exact h.complete b' w' e ((hmem _ _ _ hend).mp hw') hend

theorem Indexed.addCandidate (h : Indexed asks m) (b : Int64) (w : WorkerInfo) :
    Indexed (asks ++ [(b, w)]) (addCandidate b m w) := by
  unfold Router.addCandidate
  cases haddr : w.address with
  | none =>
    refine h.skip ?_
    rw [WorkerInfo.endpoint, haddr]
    rfl
  | some addr =>
    have hw : w.endpoint = some (rpcEndpoint addr) := by
      rw [WorkerInfo.endpoint, haddr]
      rfl
    simp only
    cases hget : m[rpcEndpoint addr]? with
    | some entry =>
      obtain ⟨first, ids⟩ := entry
      obtain ⟨hfirst, b', hb'⟩ := h.worker _ _ _ hget
      refine h.insert hw hfirst ⟨b', mem_append_left _ hb'⟩ fun b'' => ?_
      rw [Std.TreeSet.mem_insert, Std.LawfulEqCmp.compare_eq_iff_eq, eq_comm, h.ids _ _ _ hget]
    | none =>
      refine h.insert hw hw ⟨b, mem_append_right _ mem_cons_self⟩ fun b'' => ?_
      rw [Std.TreeSet.mem_insert, Std.LawfulEqCmp.compare_eq_iff_eq, eq_comm]
      refine or_congr_right ⟨fun hmem => absurd hmem Std.TreeSet.not_mem_emptyc, ?_⟩
      rintro ⟨w', hw', hend⟩
      have hsome := h.complete b'' w' _ hw' hend
      rw [hget] at hsome
      cases hsome

def asksOf (candidates : List (Int64 × List WorkerInfo)) : List (Int64 × WorkerInfo) :=
  candidates.flatMap fun c => c.2.map fun w => (c.1, w)

theorem indexed_workerToBlocks (candidates : List (Int64 × List WorkerInfo)) :
    Indexed (asksOf candidates) (workerToBlocks candidates) := by
  have hinner : ∀ (b : Int64) (ws : List WorkerInfo) (asks : List (Int64 × WorkerInfo))
      (m : WorkerToBlocks), Indexed asks m →
      Indexed (asks ++ ws.map fun w => (b, w)) (ws.foldl (Router.addCandidate b) m) := by
    intro b ws
    induction ws with
    | nil =>
      intro asks m h
      rw [map_nil, append_nil]
      exact h
    | cons w ws ih =>
      intro asks m h
      have hrest := ih _ _ (h.addCandidate b w)
      rwa [append_assoc, singleton_append] at hrest
  have houter : ∀ (cs : List (Int64 × List WorkerInfo)) (asks : List (Int64 × WorkerInfo))
      (m : WorkerToBlocks), Indexed asks m → Indexed (asks ++ asksOf cs)
        (cs.foldl (fun m c => c.2.foldl (Router.addCandidate c.1) m) m) := by
    intro cs
    induction cs with
    | nil =>
      intro asks m h
      rw [asksOf, flatMap_nil, append_nil]
      exact h
    | cons c cs ih =>
      intro asks m h
      have hrest := ih _ _ (hinner c.1 c.2 asks m h)
      rwa [append_assoc] at hrest
  have hempty : Indexed [] ∅ := by
    refine ⟨?_, ?_, ?_⟩
    · intro e w ids he
      rw [getElem?_emptyc] at he
      cases he
    · intro e w ids he
      rw [getElem?_emptyc] at he
      cases he
    · intro b w e hw
      cases hw
  exact houter candidates [] ∅ hempty

end Index

/-! ## From answers to locations -/

def ProbedLocations.at (p : ProbedLocations) (b : Int64) : List WorkerLocation :=
  p.locations[b]?.getD []

def WorkerCheckOutcome.adds (b : Int64) : WorkerCheckOutcome → List WorkerLocation
  | .failed => []
  | .ok worker _ cachedBytes =>
    (cachedBytes.entries.filter fun entry => entry.1 = b ∧ 0 < entry.2).map fun _ => worker.location

def WorkerCheckOutcome.Covers (b : Int64) : WorkerCheckOutcome → Prop
  | .failed => False
  | .ok _ queried _ => b ∈ queried

section Answers

variable {p : ProbedLocations} {b : Int64}

theorem at_markProbed (id : Int64) : (markProbed p id).at b = p.at b := by
  show ((p.locations.insert id _)[b]?).getD [] = _
  simp only [Std.TreeMap.getElem?_insert, Std.LawfulEqCmp.compare_eq_iff_eq]
  split
  · next hid =>
    subst hid
    rfl
  · rfl

theorem mem_probedOk_markProbed (id : Int64) :
    b ∈ (markProbed p id).probedOk ↔ b ∈ p.probedOk ∨ b = id := by
  show b ∈ p.probedOk.insert id ↔ _
  rw [Std.TreeSet.mem_insert, Std.LawfulEqCmp.compare_eq_iff_eq, or_comm, eq_comm]

theorem at_addLocation (loc : WorkerLocation) (entry : Int64 × Int64) :
    (addLocation loc p entry).at b = p.at b ++ if entry.1 = b ∧ 0 < entry.2 then [loc] else [] := by
  unfold addLocation
  split
  case isTrue hle =>
    have hnot : ¬0 < entry.2 := Int64.not_lt.mpr hle
    rw [if_neg fun h => hnot h.2, append_nil]
  case isFalse hle =>
    have hpos : 0 < entry.2 := Int64.not_le.mp hle
    show ((p.locations.insert entry.1 _)[b]?).getD [] = _
    simp only [Std.TreeMap.getElem?_insert, Std.LawfulEqCmp.compare_eq_iff_eq]
    split
    · next hid =>
      subst hid
      rw [if_pos ⟨rfl, hpos⟩]
      rfl
    · next hid =>
      rw [if_neg fun h => hid h.1, append_nil]
      rfl

theorem probedOk_addLocation (loc : WorkerLocation) (entry : Int64 × Int64) :
    (addLocation loc p entry).probedOk = p.probedOk := by
  unfold addLocation
  split <;> rfl

theorem at_absorb (o : WorkerCheckOutcome) : (absorb p o).at b = p.at b ++ o.adds b := by
  cases o with
  | failed => exact (append_nil _).symm
  | ok worker queried cachedBytes =>
    have hmark : ∀ (ids : List Int64) (p : ProbedLocations),
        (ids.foldl markProbed p).at b = p.at b := by
      intro ids
      induction ids with
      | nil =>
        intro p
        rfl
      | cons id ids ih =>
        intro p
        rw [foldl_cons, ih, at_markProbed]
    have hadd : ∀ (entries : List (Int64 × Int64)) (p : ProbedLocations),
        (entries.foldl (addLocation worker.location) p).at b =
          p.at b ++ (entries.filter fun entry => entry.1 = b ∧ 0 < entry.2).map
            fun _ => worker.location := by
      intro entries
      induction entries with
      | nil =>
        intro p
        exact (append_nil _).symm
      | cons entry entries ih =>
        intro p
        rw [foldl_cons, ih, at_addLocation, append_assoc, filter_cons]
        by_cases hentry : entry.1 = b ∧ 0 < entry.2
        · rw [if_pos hentry, if_pos (decide_eq_true hentry)]
          rfl
        · rw [if_neg hentry, if_neg (by simpa using hentry)]
          rfl
    show (cachedBytes.entries.foldl (addLocation worker.location) (queried.foldl markProbed p)).at b
      = _
    rw [hadd, hmark]
    rfl

theorem mem_probedOk_absorb (o : WorkerCheckOutcome) :
    b ∈ (absorb p o).probedOk ↔ b ∈ p.probedOk ∨ o.Covers b := by
  cases o with
  | failed => exact (or_iff_left fun h => h).symm
  | ok worker queried cachedBytes =>
    have hadd : ∀ (entries : List (Int64 × Int64)) (p : ProbedLocations),
        (entries.foldl (addLocation worker.location) p).probedOk = p.probedOk := by
      intro entries
      induction entries with
      | nil =>
        intro p
        rfl
      | cons entry entries ih =>
        intro p
        rw [foldl_cons, ih, probedOk_addLocation]
    have hmark : ∀ (ids : List Int64) (p : ProbedLocations),
        b ∈ (ids.foldl markProbed p).probedOk ↔ b ∈ p.probedOk ∨ b ∈ ids := by
      intro ids
      induction ids with
      | nil =>
        intro p
        simp
      | cons id ids ih =>
        intro p
        rw [foldl_cons, ih, mem_probedOk_markProbed, mem_cons, or_assoc]
    show b ∈ (cachedBytes.entries.foldl (addLocation worker.location)
      (queried.foldl markProbed p)).probedOk ↔ _
    rw [hadd, hmark]
    rfl

theorem at_foldl_absorb (outcomes : List WorkerCheckOutcome) (p : ProbedLocations) :
    (outcomes.foldl absorb p).at b = p.at b ++ outcomes.flatMap (WorkerCheckOutcome.adds b) := by
  induction outcomes generalizing p with
  | nil => exact (append_nil _).symm
  | cons o outcomes ih =>
    rw [foldl_cons, ih, at_absorb, flatMap_cons, append_assoc]

theorem mem_probedOk_foldl_absorb (outcomes : List WorkerCheckOutcome) (p : ProbedLocations) :
    b ∈ (outcomes.foldl absorb p).probedOk ↔ b ∈ p.probedOk ∨ ∃ o ∈ outcomes, o.Covers b := by
  induction outcomes generalizing p with
  | nil => simp
  | cons o outcomes ih =>
    rw [foldl_cons, ih, mem_probedOk_absorb, exists_mem_cons_iff, or_assoc]

end Answers

/-! ## One block -/

section Block

variable {env : ProbeEnv} {orders : HashOrders} {checkCount : Nat} {blockIds : List Int64}
  {b : Int64} {e : String} {w : WorkerInfo} {loc : WorkerLocation}

def ProbeEnv.asks (env : ProbeEnv) (checkCount : Nat) (blockIds : List Int64) :
    List (Int64 × WorkerInfo) :=
  blockIds.flatMap fun b => (env.queried checkCount b).map fun w => (b, w)

theorem mem_asks : (b, w) ∈ env.asks checkCount blockIds ↔
    b ∈ blockIds ∧ w ∈ env.queried checkCount b := by
  unfold ProbeEnv.asks
  simp only [mem_flatMap, mem_map, Prod.mk.injEq]
  constructor
  · rintro ⟨_, hb, _, hw, rfl, rfl⟩
    exact ⟨hb, hw⟩
  · rintro ⟨hb, hw⟩
    exact ⟨b, hb, w, hw, rfl, rfl⟩

theorem mem_queried (hcount : checkCount ≠ 0) : w ∈ env.queried checkCount b ↔
      ∃ workers, env.select b checkCount = .ok workers ∧ w ∈ workers ∧ w.address.isSome = true := by
  unfold ProbeEnv.queried
  rw [if_neg hcount]
  cases env.select b checkCount with
  | ok workers | error e => simp

/-- The candidates with an address are the workers that are asked, in whatever order the map is
walked. -/
theorem mem_asksOf (hcount : checkCount ≠ 0) (hend : w.endpoint = some e) :
    (b, w) ∈ asksOf (orders.blocks (blockToWorkers env checkCount blockIds).toList) ↔
      (b, w) ∈ env.asks checkCount blockIds := by
  have haddr : w.address.isSome = true := by
    unfold WorkerInfo.endpoint at hend
    rw [← Option.isSome_map (f := rpcEndpoint), hend]
    rfl
  rw [mem_asks, mem_queried hcount]
  unfold asksOf
  simp only [mem_flatMap, mem_map, Prod.mk.injEq]
  constructor
  · rintro ⟨⟨b', workers⟩, hc, w', hw, rfl, rfl⟩
    have hget := mem_toList_iff_getElem?_eq_some.mp ((orders.blocks_perm _).mem_iff.mp hc)
    rw [getElem?_blockToWorkers] at hget
    split at hget
    · next hb =>
      cases hselect : env.select b' checkCount with
      | ok workers' =>
        rw [hselect] at hget
        cases hget
        exact ⟨hb, workers, rfl, hw, haddr⟩
      | error e =>
        rw [hselect] at hget
        cases hget
    · cases hget
  · rintro ⟨hb, workers, hselect, hw, _⟩
    refine ⟨(b, workers), (orders.blocks_perm _).mem_iff.mpr ?_, w, hw, rfl, rfl⟩
    rw [mem_toList_iff_getElem?_eq_some, getElem?_blockToWorkers, if_pos hb, hselect]
    rfl

def ProbeEnv.DistinctEndpoints (env : ProbeEnv) (checkCount : Nat) (blockIds : List Int64) : Prop :=
  ∀ a ∈ env.asks checkCount blockIds, ∀ a' ∈ env.asks checkCount blockIds,
    a.2.endpoint = a'.2.endpoint → a.2 = a'.2

def ProbeEnv.AnswersQueried (env : ProbeEnv) (checkCount : Nat) (blockIds : List Int64) : Prop :=
  ∀ a ∈ env.asks checkCount blockIds, ∀ e ∈ a.2.endpoint, ∀ cached ∈ env.answer e,
    ∀ entry ∈ cached.entries, ∃ a' ∈ env.asks checkCount blockIds,
      a'.1 = entry.1 ∧ a'.2.endpoint = some e

def probeTasks (env : ProbeEnv) (orders : HashOrders) (checkCount : Nat) (blockIds : List Int64) :
    List (String × WorkerInfo × BlockSet) :=
  orders.workers (workerToBlocks (orders.blocks
    (blockToWorkers env checkCount blockIds).toList)).toList

def probeOutcome (env : ProbeEnv) (orders : HashOrders)
    (task : String × WorkerInfo × BlockSet) : WorkerCheckOutcome :=
  checkWorker env task.1 task.2.1 (orders.ids task.2.2.toList)

theorem fetchBlockLocations_eq : fetchBlockLocations env orders checkCount blockIds =
    ((probeTasks env orders checkCount blockIds).map (probeOutcome env orders)).foldl absorb
      ⟨∅, ∅⟩ := rfl

theorem probeTasks_spec (hcount : checkCount ≠ 0) {ids : BlockSet}
    (h : (e, w, ids) ∈ probeTasks env orders checkCount blockIds) :
    w.endpoint = some e ∧ (∃ b, (b, w) ∈ env.asks checkCount blockIds) ∧
      ∀ b, b ∈ ids ↔ ∃ w', (b, w') ∈ env.asks checkCount blockIds ∧ w'.endpoint = some e := by
  have hindex := indexed_workerToBlocks (orders.blocks (blockToWorkers env checkCount blockIds).toList)
  have hget := mem_toList_iff_getElem?_eq_some.mp ((orders.workers_perm _).mem_iff.mp h)
  obtain ⟨hend, b, hb⟩ := hindex.worker e w ids hget
  refine ⟨hend, ⟨b, (mem_asksOf hcount hend).mp hb⟩, fun b' => ?_⟩
  rw [hindex.ids e w ids hget]
  constructor
  · rintro ⟨w', hw', hend'⟩
    exact ⟨w', (mem_asksOf hcount hend').mp hw', hend'⟩
  · rintro ⟨w', hw', hend'⟩
    exact ⟨w', (mem_asksOf hcount hend').mpr hw', hend'⟩

theorem exists_probeTask (hcount : checkCount ≠ 0) (hask : (b, w) ∈ env.asks checkCount blockIds)
    (hend : w.endpoint = some e) :
    ∃ w' ids, (e, w', ids) ∈ probeTasks env orders checkCount blockIds := by
  have hindex := indexed_workerToBlocks (orders.blocks (blockToWorkers env checkCount blockIds).toList)
  have hsome := hindex.complete b w e ((mem_asksOf hcount hend).mpr hask) hend
  obtain ⟨⟨w', ids⟩, hget⟩ := Option.isSome_iff_exists.mp hsome
  exact ⟨w', ids, (orders.workers_perm _).mem_iff.mpr
    (mem_toList_iff_getElem?_eq_some.mpr hget)⟩

theorem covers_probeOutcome (task : String × WorkerInfo × BlockSet) :
    (probeOutcome env orders task).Covers b ↔ (env.answer task.1).isSome = true ∧ b ∈ task.2.2 := by
  rw [probeOutcome, checkWorker_eq]
  cases env.answer task.1 with
  | none => simp [WorkerCheckOutcome.Covers]
  | some cached =>
    show b ∈ orders.ids task.2.2.toList ↔ _
    rw [(orders.ids_perm _).mem_iff]
    simp

theorem mem_adds_probeOutcome (task : String × WorkerInfo × BlockSet) :
    loc ∈ (probeOutcome env orders task).adds b ↔ loc = task.2.1.location ∧
        ∃ cached ∈ env.answer task.1, ∃ bytes, (b, bytes) ∈ cached.entries ∧ 0 < bytes := by
  rw [probeOutcome, checkWorker_eq]
  cases env.answer task.1 with
  | none => simp [WorkerCheckOutcome.adds]
  | some cached =>
    simp only [WorkerCheckOutcome.adds, mem_map, mem_filter, decide_eq_true_eq,
      Option.mem_def, Option.some.injEq, exists_eq_left']
    constructor
    · rintro ⟨⟨id, bytes⟩, ⟨hmem, rfl, hpos⟩, rfl⟩
      exact ⟨rfl, bytes, hmem, hpos⟩
    · rintro ⟨rfl, bytes, hmem, hpos⟩
      exact ⟨(b, bytes), ⟨hmem, rfl, hpos⟩, rfl⟩

theorem mem_probedOk_fetchBlockLocations (hcount : checkCount ≠ 0) :
    b ∈ (fetchBlockLocations env orders checkCount blockIds).probedOk ↔
      ∃ w, (b, w) ∈ env.asks checkCount blockIds ∧ env.Answered w := by
  rw [fetchBlockLocations_eq, mem_probedOk_foldl_absorb, or_iff_right Std.TreeSet.not_mem_emptyc]
  constructor
  · rintro ⟨o, ho, hcovers⟩
    obtain ⟨⟨e, w, ids⟩, htask, rfl⟩ := mem_map.mp ho
    obtain ⟨hanswer, hb⟩ := (covers_probeOutcome _).mp hcovers
    obtain ⟨w', hask, hend⟩ := ((probeTasks_spec hcount htask).2.2 b).mp hb
    exact ⟨w', hask, e, hend, hanswer⟩
  · rintro ⟨w, hask, e, hend, hanswer⟩
    obtain ⟨w', ids, htask⟩ := exists_probeTask hcount hask hend
    refine ⟨_, mem_map_of_mem htask, (covers_probeOutcome _).mpr ⟨hanswer, ?_⟩⟩
    exact ((probeTasks_spec hcount htask).2.2 b).mpr ⟨w, hask, hend⟩

theorem mem_at_fetchBlockLocations (hcount : checkCount ≠ 0)
    (hdistinct : env.DistinctEndpoints checkCount blockIds)
    (hanswers : env.AnswersQueried checkCount blockIds) :
    loc ∈ (fetchBlockLocations env orders checkCount blockIds).at b ↔
      ∃ w, (b, w) ∈ env.asks checkCount blockIds ∧ env.Reported w b ∧ loc = w.location := by
  have hempty : ProbedLocations.at ⟨∅, ∅⟩ b = [] := by
    rw [ProbedLocations.at, getElem?_emptyc]
    rfl
  rw [fetchBlockLocations_eq, at_foldl_absorb, hempty, nil_append, mem_flatMap]
  constructor
  · rintro ⟨o, ho, hloc⟩
    obtain ⟨⟨e, w, ids⟩, htask, rfl⟩ := mem_map.mp ho
    obtain ⟨rfl, cached, hcached, bytes, hmem, hpos⟩ := (mem_adds_probeOutcome _).mp hloc
    obtain ⟨hend, ⟨b', hb'⟩, _⟩ := probeTasks_spec hcount htask
    -- the worker was asked about the block that it reports
    obtain ⟨⟨b'', w'⟩, hask, rfl, hend'⟩ := hanswers _ hb' e hend cached hcached _ hmem
    have hsame : w' = w := hdistinct _ hask _ hb' (hend'.trans hend.symm)
    subst hsame
    exact ⟨w', hask, ⟨e, hend, cached, hcached, bytes, hmem, hpos⟩, rfl⟩
  · rintro ⟨w, hask, ⟨e, hend, cached, hcached, bytes, hmem, hpos⟩, rfl⟩
    obtain ⟨w', ids, htask⟩ : ∃ w' ids, (e, w', ids) ∈ probeTasks env orders checkCount blockIds :=
      exists_probeTask hcount hask hend
    obtain ⟨hend', ⟨b', hb'⟩, _⟩ := probeTasks_spec hcount htask
    have hsame : w' = w := hdistinct _ hb' _ hask (hend'.trans hend.symm)
    subst hsame
    exact ⟨_, mem_map_of_mem htask,
      (mem_adds_probeOutcome _).mpr ⟨rfl, cached, hcached, bytes, hmem, hpos⟩⟩

theorem nodup_adds (o : WorkerCheckOutcome) : (o.adds b).Nodup := by
  cases o with
  | failed => exact nodup_nil
  | ok worker queried cachedBytes =>
    have hsub : ((cachedBytes.entries.filter fun entry => entry.1 = b ∧ 0 < entry.2).map
        Prod.fst).Nodup := cachedBytes.distinct.sublist (filter_sublist.map _)
    have hall : (cachedBytes.entries.filter fun entry => entry.1 = b ∧ 0 < entry.2).map Prod.fst =
        replicate (cachedBytes.entries.filter fun entry =>
          entry.1 = b ∧ 0 < entry.2).length b := by
      refine map_eq_replicate_iff.mpr fun entry hentry => ?_
      exact (of_decide_eq_true (mem_filter.mp hentry).2).1
    rw [hall, nodup_replicate] at hsub
    rw [WorkerCheckOutcome.adds, map_const', nodup_replicate]
    exact hsub

theorem nodup_at_fetchBlockLocations (hcount : checkCount ≠ 0) :
    ((fetchBlockLocations env orders checkCount blockIds).at b).Nodup := by
  have hempty : ProbedLocations.at ⟨∅, ∅⟩ b = [] := by
    rw [ProbedLocations.at, getElem?_emptyc]
    rfl
  rw [fetchBlockLocations_eq, at_foldl_absorb, hempty, nil_append, nodup_flatMap]
  refine ⟨fun o _ => nodup_adds o, ?_⟩
  rw [pairwise_map]
  have hkeys : (probeTasks env orders checkCount blockIds).Pairwise fun t t' => t.1 ≠ t'.1 := by
    refine ((orders.workers_perm _).pairwise_iff fun h => Ne.symm h).mpr ?_
    refine distinct_keys_toList.imp fun h heq => h ?_
    exact Std.LawfulEqCmp.compare_eq_iff_eq.mpr heq
  refine hkeys.imp_of_mem ?_
  rintro ⟨e, w, ids⟩ ⟨e', w', ids'⟩ ht ht' hne
  intro loc hloc hloc'
  have hw := ((mem_adds_probeOutcome _).mp hloc).1
  have hw' := ((mem_adds_probeOutcome _).mp hloc').1
  have haddr : w.address = w'.address := congrArg WorkerLocation.workerAddress (hw.symm.trans hw')
  refine hne (Option.some.inj ?_)
  calc some e = w.endpoint := (probeTasks_spec hcount ht).1.symm
    _ = w'.endpoint := congrArg (Option.map rpcEndpoint) haddr
    _ = some e' := (probeTasks_spec hcount ht').1

end Block

/-! ## The file -/

/-- What the locations of a block are to become, given its valid id if it has one. -/
def ProbeEnv.Settles (env : ProbeEnv) (checkCount : Nat) (id : Option Int64)
    (before after : List WorkerLocation) : Prop :=
  (∀ b ∈ id, (∃ w ∈ env.queried checkCount b, env.Answered w) → after.Nodup ∧ ∀ loc, loc ∈ after ↔
      ∃ w ∈ env.queried checkCount b, env.Reported w b ∧ loc = w.location) ∧
  ((∀ b ∈ id, ¬∃ w ∈ env.queried checkCount b, env.Answered w) → after = before)

structure ProbeEnv.Enriched (env : ProbeEnv) (checkCount : Nat) (before after : FileBlockInfo) :
    Prop where
  offset : after.offset = before.offset
  absent : before.blockInfo = none → after.blockInfo = none
  present : ∀ bi, before.blockInfo = some bi → ∃ locations,
    after.blockInfo = some { bi with locations := locations } ∧
      env.Settles checkCount before.validId bi.locations locations

section File

variable {env : ProbeEnv} {orders : HashOrders} {checkCount : Nat} {fi : FileInfo}
  {e : FileBlockInfo}

@[simp]
theorem fileBlockInfos_ensureBlockIds (fi : FileInfo) :
    fi.ensureBlockIdsFromFileBlockInfos.fileBlockInfos = fi.fileBlockInfos := by
  unfold FileInfo.ensureBlockIdsFromFileBlockInfos
  split <;> rfl

@[simp]
theorem fileBlockInfos_recompute (fi : FileInfo) :
    fi.recomputeInGoosefsPercentage.fileBlockInfos = fi.fileBlockInfos := by
  unfold FileInfo.recomputeInGoosefsPercentage
  split <;> rfl

theorem ProbeEnv.Enriched.refl
    (h : ∀ b ∈ e.validId, ¬∃ w ∈ env.queried checkCount b, env.Answered w) :
    env.Enriched checkCount e e where
  offset := rfl
  absent := id
  present := by
    intro bi hbi
    refine ⟨bi.locations, hbi, ?_, fun _ => rfl⟩
    intro b hb hanswered
    exact absurd hanswered (h b hb)

theorem applyTo_cases (probed : ProbedLocations) (e : FileBlockInfo) :
    ((∀ b ∈ e.blockId, b ∉ probed.probedOk) ∧ applyTo probed e = e) ∨
      ∃ bi b, e.blockInfo = some bi ∧ bi.blockId = some b ∧ b ∈ probed.probedOk ∧
        applyTo probed e = { e with blockInfo := some { bi with locations := probed.at b } } := by
  unfold applyTo
  cases hinfo : e.blockInfo with
  | none => exact .inl ⟨by simp [FileBlockInfo.blockId, hinfo], rfl⟩
  | some bi =>
    simp only
    cases hid : bi.blockId with
    | none => exact .inl ⟨by simp [FileBlockInfo.blockId, hinfo, hid], rfl⟩
    | some b =>
      simp only
      by_cases hprobed : b ∈ probed.probedOk
      · rw [if_pos hprobed]
        exact .inr ⟨bi, b, rfl, hid, hprobed, by rw [hid]; rfl⟩
      · rw [if_neg hprobed]
        exact .inl ⟨by simpa [FileBlockInfo.blockId, hinfo, hid] using hprobed, rfl⟩

theorem enriched_applyTo (hcount : checkCount ≠ 0)
    (hdistinct : env.DistinctEndpoints checkCount (fi.fileBlockInfos.filterMap FileBlockInfo.validId))
    (hanswers : env.AnswersQueried checkCount (fi.fileBlockInfos.filterMap FileBlockInfo.validId))
    (he : e ∈ fi.fileBlockInfos) :
    env.Enriched checkCount e (applyTo (fetchBlockLocations env orders checkCount
      (fi.fileBlockInfos.filterMap FileBlockInfo.validId)) e) := by
  let probed := fetchBlockLocations env orders checkCount
    (fi.fileBlockInfos.filterMap FileBlockInfo.validId)
  have hok : ∀ b, b ∈ probed.probedOk ↔ b ∈ fi.fileBlockInfos.filterMap FileBlockInfo.validId ∧
        ∃ w ∈ env.queried checkCount b, env.Answered w := by
    intro b
    rw [mem_probedOk_fetchBlockLocations hcount]
    simp only [mem_asks, and_assoc, exists_and_left]
  show env.Enriched checkCount e (applyTo probed e)
  obtain ⟨hnot, hsame⟩ | ⟨bi, b, hinfo, hid, hprobed, hafter⟩ := applyTo_cases probed e
  · -- an entry that is not in the set keeps its locations, and rightly so
    rw [hsame]
    refine .refl fun b hb hanswered => ?_
    have hid : e.blockId = some b := (Option.filter_eq_some_iff.mp hb).1
    exact hnot b hid ((hok b).mpr ⟨mem_filterMap.mpr ⟨e, he, hb⟩, hanswered⟩)
  · rw [hafter]
    obtain ⟨hmem, hanswered⟩ := (hok b).mp hprobed
    have hvalid : e.validId = some b := by
      have hb : e.blockId = some b := by
        rw [FileBlockInfo.blockId, hinfo, Option.bind_some, hid]
      obtain ⟨e', _, he'⟩ := mem_filterMap.mp hmem
      have hpos : (0 : Int64) < b := of_decide_eq_true (Option.filter_eq_some_iff.mp he').2
      exact Option.filter_eq_some_iff.mpr ⟨hb, decide_eq_true hpos⟩
    refine ⟨rfl, ?_, ?_⟩
    · intro hnone
      cases hinfo.symm.trans hnone
    · intro bi' hbi'
      cases hinfo.symm.trans hbi'
      refine ⟨probed.at b, rfl, ?_, ?_⟩
      · intro b' hb' _
        cases hvalid.symm.trans hb'
        refine ⟨nodup_at_fetchBlockLocations hcount, fun loc => ?_⟩
        rw [mem_at_fetchBlockLocations hcount hdistinct hanswers]
        simp only [mem_asks, hmem, true_and]
      · intro hnone
        exact absurd hanswered (hnone b hvalid)

/-- After probing, the locations of a block about which a worker has answered are the workers
that have reported it, each once, and all other locations are those of the master. -/
theorem enrich_locations (env : ProbeEnv) (orders : HashOrders) (checkCount : Nat) (fi : FileInfo)
    (hdistinct : env.DistinctEndpoints checkCount (fi.fileBlockInfos.filterMap FileBlockInfo.validId))
    (hanswers : env.AnswersQueried checkCount (fi.fileBlockInfos.filterMap FileBlockInfo.validId)) :
    List.Forall₂ (env.Enriched checkCount) fi.fileBlockInfos
      (enrichFileBlockLocations env orders checkCount fi).fileBlockInfos := by
  unfold enrichFileBlockLocations
  simp only [fileBlockInfos_ensureBlockIds]
  split
  case isTrue hnone =>
    rw [fileBlockInfos_ensureBlockIds]
    refine List.forall₂_same.mpr fun e he => .refl fun b _ => ?_
    rcases hnone with hzero | hnil
    · rw [ProbeEnv.queried, if_pos hzero]
      simp
    · rw [hnil] at he
      cases he
  case isFalse hsome =>
    have hcount : checkCount ≠ 0 := fun h => hsome (Or.inl h)
    split
    case isTrue hnil =>
      rw [fileBlockInfos_ensureBlockIds]
      refine List.forall₂_same.mpr fun e he => .refl fun b hb => ?_
      have hmem : b ∈ fi.fileBlockInfos.filterMap FileBlockInfo.validId :=
        List.mem_filterMap.mpr ⟨e, he, hb⟩
      rw [hnil] at hmem
      cases hmem
    case isFalse =>
      rw [applyProbedLocations, fileBlockInfos_recompute]
      simp only [fileBlockInfos_ensureBlockIds]
      rw [List.forall₂_map_right_iff]
      exact List.forall₂_same.mpr fun e he => enriched_applyTo hcount hdistinct hanswers he

end File

/-! Three blocks, of which one has no valid id.  One worker has the first block, and the other
one cannot be reached. -/

def smallReply : CachedBytes := ⟨[(36, 0), (35, 64)], by decide⟩

def smallProbe : ProbeEnv :=
  (WorkerRouterView.fromWorkers [State.here, State.there] 60).probeEnv 0
    (fun endpoint => if endpoint = "here:9203" then .ok () else .error (.internal "unreachable"))
    fun _ => .ok smallReply

def masterLocation : WorkerLocation := ⟨⟨some 7⟩, none⟩

def smallFile : FileInfo where
  folder := none
  length := some 128
  blockSizeBytes := some 64
  blockIds := []
  fileBlockInfos := [⟨some ⟨some 35, some 64, [masterLocation]⟩, some 0⟩,
    ⟨some ⟨some 36, some 64, [masterLocation]⟩, some 64⟩, ⟨some ⟨some 0, none, [masterLocation]⟩, none⟩]
  inGooseFsPercentage := none

def sameOrders : HashOrders where
  blocks := id
  workers := id
  ids := id
  blocks_perm := fun _ => Perm.refl _
  workers_perm := fun _ => Perm.refl _
  ids_perm := fun _ => Perm.refl _

theorem enrich_locations_small : List.Forall₂ (smallProbe.Enriched 2) smallFile.fileBlockInfos
      (enrichFileBlockLocations smallProbe sameOrders 2 smallFile).fileBlockInfos ∧
    (enrichFileBlockLocations smallProbe sameOrders 2 smallFile).fileBlockInfos.map
        (fun e => e.blockInfo.map BlockInfo.locations) =
      [some [State.here.location], some [], some [masterLocation]] ∧
    (enrichFileBlockLocations smallProbe sameOrders 2 smallFile).inGooseFsPercentage = some 50 := by
  have hdistinct : smallProbe.DistinctEndpoints 2
      (smallFile.fileBlockInfos.filterMap FileBlockInfo.validId) := by
    unfold ProbeEnv.DistinctEndpoints
    decide +kernel
  have hanswers : smallProbe.AnswersQueried 2
      (smallFile.fileBlockInfos.filterMap FileBlockInfo.validId) := by
    have hall : ∀ a ∈ smallProbe.asks 2 (smallFile.fileBlockInfos.filterMap FileBlockInfo.validId),
        ∀ e ∈ a.2.endpoint, ∀ cached ∈ smallProbe.answer e, cached.entries.all fun entry =>
          (smallProbe.asks 2 (smallFile.fileBlockInfos.filterMap FileBlockInfo.validId)).any
            fun a' => a'.1 = entry.1 ∧ a'.2.endpoint = some e := by
      decide +kernel
    intro a ha e he cached hcached entry hentry
    simpa only [List.any_eq_true, decide_eq_true_eq] using
      List.all_eq_true.mp (hall a ha e he cached hcached) entry hentry
  exact ⟨enrich_locations smallProbe sameOrders 2 smallFile hdistinct hanswers, by decide +kernel⟩

end GooseFS.Router
