import GooseFS.IO.CacheDurability
import GooseFS.IO.Cleanup

/-!
# Numbers of blocks

The id of a block packs the container of its file with the number of blocks that were
committed before it, in 24 bits.  The writer numbers its blocks by their place
(`numbered_invariant`), whatever fails on the way, so the ids of a file are different
and `block_sequence_number` gives the places back until the number no longer fits
(`block_ids_iff`).
-/

namespace GooseFS

open Lib GoosefsFileWriter CacheM Session

theorem and_sequenceMask (x : UInt64) : (x &&& 0xffffff).toNat = x.toNat % 2 ^ 24 := by
  rw [UInt64.toNat_and]
  exact Nat.and_two_pow_sub_one_eq_mod x.toNat 24

theorem sequence_toNat (i : Nat) : (UInt64.ofNat i &&& 0xffffff).toNat = i % 2 ^ 24 := by
  rw [and_sequenceMask, UInt64.toNat_ofNat']
  exact Nat.mod_mod_of_dvd i (Nat.pow_dvd_pow 2 (by decide))

theorem container_mod (containerId : Int64) : (containerId <<< 24).toUInt64.toNat % 2 ^ 24 = 0 := by
  have h : (containerId <<< 24).toUInt64.toNat = (containerId.toBitVec <<< 24).toNat := rfl
  rw [h, BitVec.toNat_shiftLeft, Nat.shiftLeft_eq,
    Nat.mod_mod_of_dvd _ (Nat.pow_dvd_pow 2 (by decide)), Nat.mul_mod_left]

theorem blockSequenceNumber_computeBlockId (fileId : Int64) (i : Nat) :
    blockSequenceNumber (computeBlockId fileId i) = i % 2 ^ 24 := by
  have hid : (computeBlockId fileId i).toUInt64 =
      (((fileId >>> 24) &&& 0xffffffffff) <<< 24).toUInt64 ||| (UInt64.ofNat i &&& 0xffffff) := rfl
  rw [blockSequenceNumber, and_sequenceMask, hid, UInt64.toNat_or, Nat.or_mod_two_pow,
    container_mod, Nat.zero_or, sequence_toNat, Nat.mod_mod]

theorem computeBlockId_mod (fileId : Int64) (i : Nat) :
    computeBlockId fileId (i % 2 ^ 24) = computeBlockId fileId i := by
  have hseq : UInt64.ofNat (i % 2 ^ 24) &&& 0xffffff = UInt64.ofNat i &&& 0xffffff := by
    refine UInt64.toNat_inj.mp ?_
    rw [sequence_toNat, sequence_toNat, Nat.mod_mod]
  rw [computeBlockId, computeBlockId, hseq]

/-! ## The blocks of a writer -/

namespace CacheSide

variable {setup : WriterSetup} {env : CacheEnv} {c c' : CacheSide} {e : Error}
  {a : ActiveBlockWriter}

def assignedIds (c : CacheSide) : List Int64 :=
  c.committedBlockIds ++ (c.currentBlockWriter.map ActiveBlockWriter.blockId).toList

def Numbered (setup : WriterSetup) (c : CacheSide) : Prop :=
  ∀ i id, c.assignedIds[i]? = some id → id = setup.blockId i

theorem Numbered.mono (hc : c.Numbered setup) (h : c'.assignedIds <+: c.assignedIds) :
    c'.Numbered setup := by
  intro i id hi
  obtain ⟨rest, hrest⟩ := h
  refine hc i id ?_
  rw [← hrest, List.getElem?_append_left (List.getElem?_eq_some_iff.mp hi).1, hi]

theorem Numbered.of_eq (hc : c.Numbered setup) (h : c'.assignedIds = c.assignedIds) :
    c'.Numbered setup :=
  hc.mono (h ▸ List.prefix_rfl)

theorem assignedIds_of_none (h : c.currentBlockWriter = none) :
    c.assignedIds = c.committedBlockIds := by
  rw [assignedIds, h]
  exact List.append_nil _

theorem assignedIds_of_some (h : c.currentBlockWriter = some a) :
    c.assignedIds = c.committedBlockIds ++ [a.blockId] := by
  rw [assignedIds, h]
  rfl

theorem committed_initial (c : CacheSide) : c.committedBlockIds <+: c.assignedIds :=
  List.prefix_append _ _

theorem Numbered.opens {ids : List Int64} (hc : c.Numbered setup) (hids : c.assignedIds = ids)
    (hids' : c'.assignedIds = ids ++ [a.blockId]) (ha : a.blockId = setup.blockId ids.length) :
    c'.Numbered setup := by
  intro i id hi
  rw [hids', List.getElem?_append] at hi
  split at hi
  · exact hc i id (hids ▸ hi)
  · have hlast : i = ids.length := by
      have hlt := (List.getElem?_eq_some_iff.mp hi).1
      rw [List.length_singleton] at hlt
      omega
    rw [hlast, Nat.sub_self] at hi
    cases hi
    rw [hlast, ha]

theorem Step.numbered (h : Step setup env c c') (hc : c.Numbered setup) : c'.Numbered setup := by
  cases h with
  | block hs =>
    cases hs with
    | fill n pending hcurrent
    | perform hcurrent _ => exact hc.of_eq (assignedIds_of_some hcurrent).symm
  | discard _ => exact hc.mono (by rw [assignedIds_of_none rfl]; exact c.committed_initial)
  | commit n hcurrent _ _ =>
    exact hc.of_eq ((assignedIds_of_none rfl).trans (assignedIds_of_some hcurrent).symm)
  | @opens c₁ a plan hnone hplan hopen =>
    obtain ⟨hframe, hblock⟩ := (openBlock_sat (K := AnyRequests) trivial _ hplan).ok rfl hopen
    refine hc.opens (a := a) (assignedIds_of_none hnone) ?_ hblock.blockId
    rw [assignedIds_of_some rfl]
    exact congrArg (· ++ [a.blockId]) hframe.ids

theorem Refuses.numbered {op : ReplicaOp} (h : Refuses env op e c c') (hc : c.Numbered setup) :
    c'.Numbered setup := by
  cases h with
  | intro hcurrent _ => exact hc.of_eq (assignedIds_of_some hcurrent).symm

theorem numbered_invariant (setup : WriterSetup) : CacheInvariant setup (Numbered setup) where
  ticks := fun _ _ h => h
  step := fun _ _ _ hc h => h.numbered hc
  refuses := fun _ _ _ _ _ hc h => h.numbered hc
  fails := by
    intro env c op e c' hc h
    cases h with
    | plan _ _ => exact hc
    | openBlock hnone hplan hopen =>
      have hframe : c.Frame c' := openBlock_frame hopen
      exact hc.of_eq (by rw [assignedIds, assignedIds, hframe.ids, hframe.current])
    | send hrefuses => exact hrefuses.numbered hc
    | abandon hrefuses _ =>
      refine (hrefuses.numbered hc).mono ?_
      rw [assignedIds_of_none rfl]
      exact List.prefix_append _ _
    | close hcurrent _ =>
      exact hc.of_eq ((assignedIds_of_none rfl).trans (assignedIds_of_some hcurrent).symm)
    | commitLocation _ _ _ _ =>
      exact hc.mono (by rw [assignedIds_of_none rfl]; exact c.committed_initial)
  tornDown := by
    intro c blacklist hc
    refine hc.mono ?_
    rw [assignedIds_of_none (c.tornDown_current blacklist), tornDown_committedBlockIds]
    exact c.committed_initial

/-- The ids are different, and each gives back how many blocks were committed before. -/
structure IdsRecover (c : CacheSide) : Prop where
  nodup : c.assignedIds.Nodup
  sequence : ∀ i id, c.assignedIds[i]? = some id → blockSequenceNumber id = i

theorem Numbered.idsRecover_iff (hc : c.Numbered setup) :
    c.IdsRecover ↔ c.assignedIds.length ≤ 2 ^ 24 := by
  have hnumber : ∀ i id, c.assignedIds[i]? = some id → blockSequenceNumber id = i % 2 ^ 24 :=
    fun i id hi => hc i id hi ▸ blockSequenceNumber_computeBlockId _ i
  have hpos : 0 < 2 ^ 24 := Nat.two_pow_pos 24
  -- only that the limit is positive matters from here on
  generalize 2 ^ 24 = limit at hnumber hpos ⊢
  constructor
  · intro h
    by_contra hmany
    have hget := List.getElem?_eq_getElem (Nat.lt_of_not_le hmany)
    have hmod := (hnumber _ _ hget).symm.trans (h.sequence _ _ hget)
    rw [Nat.mod_self] at hmod
    omega
  · intro hfew
    have hback : ∀ i id, c.assignedIds[i]? = some id → blockSequenceNumber id = i := by
      intro i id hi
      have hlt := (List.getElem?_eq_some_iff.mp hi).1
      exact (hnumber i id hi).trans (Nat.mod_eq_of_lt (Nat.lt_of_lt_of_le hlt hfew))
    refine ⟨List.nodup_iff_injective_get.mpr fun i j hij => Fin.ext ?_, hback⟩
    have hi := hback i _ (List.getElem?_eq_getElem i.isLt)
    have hj := hback j _ (List.getElem?_eq_getElem j.isLt)
    exact hi.symm.trans ((congrArg blockSequenceNumber hij).trans hj)

end CacheSide

namespace Session

theorem numbered_create {setup : WriterSetup} {env₀ : CallEnv} {w₀ : GoosefsFileWriter}
    (hcreate : create setup env₀ = .ok w₀) : w₀.cache.Numbered setup := by
  obtain ⟨b, u, rfl, _⟩ := create_spec hcreate
  intro i id hi
  cases hi

/-- In every state that an open writer passes through, also in the middle of a call. -/
theorem block_ids_iff {setup : WriterSetup} {env₀ : CallEnv} {w₀ : GoosefsFileWriter}
    {env : CacheEnv} {s : Session} {calls : List Call} {c : CacheSide} {n : Nat}
    (hcreate : create setup env₀ = .ok w₀)
    (hrun : Guarded (next setup) (fun _ _ => True) ⟨w₀, []⟩ calls s)
    (hopen : ¬s.writer.Ended) (hcall : { s.writer.cache with ticks := n }.Reaches setup env c) :
    c.IdsRecover ↔ c.assignedIds.length ≤ 2 ^ 24 := by
  have hP := CacheSide.numbered_invariant setup
  have hs : s.writer.cache.Numbered setup := (hP.run hrun (numbered_create hcreate)).resolve_left hopen
  exact (hP.reaches hcall (hP.ticks _ n hs)).idsRecover_iff

/-- The cache side after five bytes in blocks of four, as the next call finds it. -/
def twoBlocks : CacheSide := { smallWritten.writer.cache with ticks := 0 }

theorem block_ids_small : twoBlocks.assignedIds.length = 2 ∧ twoBlocks.IdsRecover := by
  have hlen : twoBlocks.assignedIds.length = 2 := by decide +kernel
  have hcreate : create (smallSetup 5) goodEnv = .ok (fresh (smallSetup 5)) := rfl
  have hrun : Guarded (next (smallSetup 5)) (fun _ _ => True)
      ⟨fresh (smallSetup 5), []⟩ [.write goodEnv [1, 2, 3, 4, 5]] smallWritten :=
    .cons trivial rfl (.nil _)
  have hopen : ¬smallWritten.writer.Ended := by decide +kernel
  have hcall : CacheSide.Reaches (smallSetup 5) goodEnv.cache twoBlocks twoBlocks := .refl
  refine ⟨hlen, (block_ids_iff hcreate hrun hopen hcall).mpr ?_⟩
  rw [hlen]
  exact Nat.le_self_pow (by decide) 2

/-! ## More blocks than numbers

A file with blocks of one byte on one worker: each write of a byte closes the block that
is open and opens the next one. -/

def byteSetup : WriterSetup := { smallSetup 1 with blockSizeBytes := some 1 }

def emptyBlock (id : Int64) : ActiveBlockWriter :=
  let addr : WorkerNetAddress := ⟨some "worker", some 9203⟩
  ⟨[⟨0, GrpcBlockWriter.openStream id, 1, rpcEndpoint addr, addr⟩], id, 1, 0, [], false, 1⟩

/-- The byte is sent when the block is closed. -/
def byteBlock (id : Int64) : ActiveBlockWriter :=
  { emptyBlock id with bytesWritten := 1, pendingChunk := [0] }

theorem openBlock_byte (c : CacheSide) (id : Int64) :
    openBlock byteSetup oneReplica.cache id ⟨2, 2, 2⟩ c = .ok (emptyBlock id)
        { c with ticks := c.ticks + 1 + 1, events := c.events ++ [.opened id 1] } := rfl

section

variable (ids : List Int64) (id : Int64) (opened : Bool) (ticks : Nat) (events : List CacheEvent)

theorem closeCurrentBlock_byte : ∃ loc ticks' events',
    closeCurrentBlock byteSetup oneReplica.cache true
        ⟨ids, some (byteBlock id), opened, ticks, events⟩ =
      .ok loc ⟨ids ++ [id], none, opened, ticks', events'⟩ := ⟨_, _, _, rfl⟩

theorem ensureBlock_byte : ∃ ticks' events', ensureBlock byteSetup oneReplica.cache
        ⟨ids, some (byteBlock id), opened, ticks, events⟩ =
      .ok () ⟨ids ++ [id], some (emptyBlock (byteSetup.blockId (ids ++ [id]).length)), true, ticks',
        events'⟩ := by
  obtain ⟨loc, ticks', events', hclose⟩ := closeCurrentBlock_byte ids id opened ticks events
  have hfull : needsFreshBlock (some (byteBlock id).remaining) = true := rfl
  have hplan : byteSetup.plan = .ok ⟨2, 2, 2⟩ := rfl
  simp only [ensureBlock, openNextBlock, closeFullBlock, bind, EStateM.bind,
    get_apply, modify_apply, Option.map_some, hfull, if_true, discard, Functor.mapConst,
    Function.comp, EStateM.map, Option.isSome_some, hclose, hplan, openBlock_byte]
  exact ⟨_, _, rfl⟩

theorem writeToCacheStream_byte : ∃ ticks' events',
    writeToCacheStream byteSetup oneReplica.cache [0]
        ⟨ids, some (byteBlock id), opened, ticks, events⟩ =
      .ok () ⟨ids ++ [id], some (byteBlock (byteSetup.blockId (ids ++ [id]).length)), true, ticks',
        events'⟩ := by
  obtain ⟨ticks', events', hopen⟩ := ensureBlock_byte ids id opened ticks events
  refine ⟨ticks', events', ?_⟩
  generalize byteSetup.blockId (ids ++ [id]).length = id' at hopen ⊢
  simp only [writeToCacheStream, List.length_singleton, CacheM.writeLoop, bind, EStateM.bind,
    if_neg (List.cons_ne_nil _ _), hopen, get_apply]
  rfl

end

/-- `n` blocks are committed, and the one that is open is full. -/
structure Filling (n : Nat) (s : Session) : Prop where
  cancelled : s.writer.cancelled = false
  closed : s.writer.closed = false
  shouldCache : s.writer.shouldCache = true
  ufsWriteEnabled : s.writer.ufsWriteEnabled = false
  routerNeedsInit : s.writer.routerNeedsInit = false
  committed : s.writer.cache.committedBlockIds.length = n
  current : ∃ id, s.writer.cache.currentBlockWriter = some (byteBlock id)

theorem Filling.write {n : Nat} {s : Session} (h : s.Filling n) :
    ∃ s', next byteSetup s (.write oneReplica [0]) = some s' ∧ s'.Filling (n + 1) := by
  obtain ⟨⟨total, crc, _, _, _, _, _, completed, ⟨ids, _, opened, ticks, events⟩, ufs, master⟩,
    accepted⟩ := s
  obtain ⟨rfl, rfl, rfl, rfl, rfl, rfl, id, rfl⟩ := h
  obtain ⟨ticks', events', hwrite⟩ := writeToCacheStream_byte ids id opened 0 events
  refine ⟨⟨⟨total + 1, byteSetup.config.writerChecksumType.update crc [0], false, false, true, false,
    false, completed, ⟨ids ++ [id], some (byteBlock (byteSetup.blockId (ids ++ [id]).length)), true,
    ticks', events'⟩, ufs, master⟩, accepted ++ [0]⟩, ?_, rfl, rfl, rfl, rfl, rfl,
    List.length_append, _, rfl⟩
  simp only [next, after, GoosefsFileWriter.write, begin, bind, EStateM.bind, get_apply,
    modify_apply, ensureRouterInit, writeToCache, if_true, attempt, onCache, zoom, hwrite,
    Bool.false_eq_true, or_self, if_false, List.cons_ne_nil, pure, EStateM.pure, writeToUfs]
  rfl

theorem Filling.writes (k : Nat) : ∀ {n : Nat} {s : Session}, s.Filling n → ∃ calls s',
    Guarded (next byteSetup) (fun _ _ => True) s calls s' ∧ s'.Filling (n + k) := by
  induction k with
  | zero => exact fun {_ s} h => ⟨[], s, .nil s, h⟩
  | succ k ih =>
    intro n s h
    obtain ⟨s₁, hnext, h₁⟩ := h.write
    obtain ⟨calls, s', hrun, h'⟩ := ih h₁
    refine ⟨_, s', .cons trivial hnext hrun, ?_⟩
    rwa [Nat.add_right_comm] at h'

end Session

/-- The first 2²⁴ blocks of a file are committed, and the next one has the id of the first. -/
theorem block_id_wraps : ∃ calls s, create byteSetup oneReplica = .ok (fresh byteSetup) ∧
    Guarded (next byteSetup) (fun _ _ => True) ⟨fresh byteSetup, []⟩ calls s ∧
    ¬s.writer.Ended ∧
    s.writer.cache.assignedIds.length = 2 ^ 24 + 1 ∧
    ∃ id, s.writer.cache.assignedIds[0]? = some id ∧
      s.writer.cache.assignedIds[2 ^ 24]? = some id ∧ blockSequenceNumber id = 0 := by
  have hcreate : create byteSetup oneReplica = .ok (fresh byteSetup) := rfl
  obtain ⟨s₁, hfirst, h₁⟩ : ∃ s₁ : Session,
      next byteSetup ⟨fresh byteSetup, []⟩
        (.write oneReplica [0]) = some s₁ ∧ s₁.Filling 0 :=
    ⟨_, rfl, rfl, rfl, rfl, rfl, rfl, rfl, byteSetup.blockId 0, rfl⟩
  obtain ⟨calls, s, hrun, h⟩ := h₁.writes (2 ^ 24)
  have hrun' := Guarded.cons (C := fun _ _ => True) trivial hfirst hrun
  have hopen : ¬s.writer.Ended := by
    rw [GoosefsFileWriter.Ended, h.cancelled, h.closed]
    decide
  obtain ⟨id, hid⟩ := h.current
  have hlen : s.writer.cache.assignedIds.length = 2 ^ 24 + 1 := by
    rw [CacheSide.assignedIds_of_some hid, List.length_append, h.committed, Nat.zero_add]
    rfl
  have hnumbered : s.writer.cache.Numbered byteSetup :=
    ((CacheSide.numbered_invariant byteSetup).run hrun'
      (numbered_create hcreate)).resolve_left hopen
  have hget : ∀ i < 2 ^ 24 + 1, s.writer.cache.assignedIds[i]? = some (byteSetup.blockId i) := by
    intro i hi
    rw [← hlen] at hi
    have hsome := List.getElem?_eq_getElem hi
    rw [hsome, hnumbered i _ hsome]
  have hsame : byteSetup.blockId (2 ^ 24) = byteSetup.blockId 0 := by
    have hmod := computeBlockId_mod (byteSetup.fileId.getD 0) (2 ^ 24)
    rw [Nat.mod_self] at hmod
    exact hmod.symm
  refine ⟨_, s, hcreate, hrun', hopen, hlen, byteSetup.blockId 0, hget 0 (Nat.succ_pos _), ?_, ?_⟩
  · rw [hget _ (Nat.lt_succ_self _), hsame]
  · exact blockSequenceNumber_computeBlockId _ 0

end GooseFS
