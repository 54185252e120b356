import GooseFS.IO.FileReader

/-!
# Correctness of whole-file and range reads

A block id that is not positive makes the reader step over the block, on
purpose and without an error.  What a read stands for is therefore
`resolvedPart`: the bytes of the range whose block resolves, in order.  When
every block of the range resolves that is the range itself.

The proof goes from the inside out: one segment, the loop over planned
segments, a range, one step of `read_next_block` with or without the cache, and
the loop of `read_all`.  Each step has the same two halves, that a successful
result is the right one and that a run without a failed segment read succeeds.
-/

namespace GooseFS

open Lib List

def FileInfo.blockIdOf (fi : FileInfo) (index : Nat) : Int :=
  (fi.assignedBlockId index).getD (fi.blockIds.getD index (-1))

def FileInfo.Resolves (fi : FileInfo) (index : Nat) : Prop := 0 < fi.blockIdOf index

/-- `fi` is the metadata of `file`, and the ids it gives are those of the blocks
that the workers hold in `store`. -/
structure Describes (fi : FileInfo) (store : Int → Bytes) (file : Bytes) : Prop where
  length : fi.fileLength = file.length
  blockSize : 0 < fi.blockSize
  blocks : ∀ i, fi.Resolves i → store (fi.blockIdOf i) = slice file (i * fi.blockSize) fi.blockSize

instance (fi : FileInfo) (index : Nat) : Decidable (fi.Resolves index) :=
  inferInstanceAs (Decidable (0 < _))

def FileInfo.AllResolve (fi : FileInfo) : Prop :=
  ∀ x, x < fi.fileLength → fi.Resolves (x / fi.blockSize)

/-- The bytes of `[off, off + n)` whose block resolves. -/
def resolvedPart (fi : FileInfo) (file : Bytes) (off n : Nat) : Bytes :=
  (range n).filterMap fun k =>
    if fi.Resolves ((off + k) / fi.blockSize) then file[off + k]? else none

/-- The bytes a request names: a worker is told the id of the block, not its
place in the file. -/
def SegmentRequest.bytes (store : Int → Bytes) (req : SegmentRequest) : Bytes :=
  slice (store req.blockId) req.plan.offsetInBlock req.plan.length

/-- The streams of a segment read deliver nothing but the front of the bytes
they were opened for. -/
def SegmentRun.Honest (store : Int → Bytes) (run : SegmentRun) : Prop :=
  ∀ req s, run.stream req = .ok s ∨ run.freshStream req = .ok s →
    ChunkSource.directBytes s.frames <+: req.bytes store

def SegmentRun.Serves (store : Int → Bytes) (run : SegmentRun) : Prop :=
  ∀ req, (req.bytes store).length = req.plan.length → ∃ b, run.readSegment req = .ok b

/-- Workers return the requested bytes or fail, and a non-empty cache reply
holds true bytes. -/
structure ReadWorld.Honest (w : ReadWorld) (store : Int → Bytes) (file : Bytes)
    (cache : Option PageCache) : Prop where
  workers : ∀ n, (w.workers n).Honest store
  cache : ∀ c ∈ cache, ∀ n, TrueCache file c.pageSize (w.cache n)

/-! ## The resolved part of a range -/

section Resolved

variable {fi : FileInfo} {store : Int → Bytes} {file : Bytes} {off : Nat} {p : BlockReadPlan}

theorem resolvedPart_zero (off : Nat) : resolvedPart fi file off 0 = [] := rfl

theorem resolvedPart_append (off m n : Nat) :
    resolvedPart fi file off m ++ resolvedPart fi file (off + m) n =
      resolvedPart fi file off (m + n) := by
  simp only [resolvedPart, range_add, filterMap_append, filterMap_map]
  congr 1
  refine filterMap_congr fun k _ => ?_
  simp only [Function.comp_apply, Nat.add_assoc]

theorem resolvedPart_of_resolves {n : Nat}
    (h : ∀ x, off ≤ x → x < off + n → fi.Resolves (x / fi.blockSize)) :
    resolvedPart fi file off n = slice file off n := by
  rw [slice_eq_filterMap]
  refine filterMap_congr fun k hk => if_pos (h _ (Nat.le_add_right _ _) ?_)
  exact Nat.add_lt_add_left (mem_range.mp hk) off

theorem resolvedPart_of_not_resolves {n : Nat}
    (h : ∀ x, off ≤ x → x < off + n → ¬ fi.Resolves (x / fi.blockSize)) :
    resolvedPart fi file off n = [] := by
  refine filterMap_eq_nil_iff.mpr fun k hk => if_neg (h _ (Nat.le_add_right _ _) ?_)
  exact Nat.add_lt_add_left (mem_range.mp hk) off

theorem resolvedPart_sublist (off n : Nat) :
    (resolvedPart fi file off n).Sublist (slice file off n) := by
  have hsub : ((range n).filter fun k => fi.Resolves ((off + k) / fi.blockSize)).Sublist (range n) :=
    filter_sublist
  rw [slice_eq_filterMap]
  refine Sublist.trans (Eq.subst ?_ (Sublist.refl _)) (hsub.filterMap fun k => file[off + k]?)
  simp only [filterMap_filter, decide_eq_true_eq, resolvedPart]

theorem resolvedPart_length_eq {n : Nat} : (resolvedPart fi file off n).length = n ↔
      ∀ x, off ≤ x → x < off + n → x < file.length ∧ fi.Resolves (x / fi.blockSize) := by
  have hall := countP_eq_length (l := range n) (p := fun k =>
    (if fi.Resolves ((off + k) / fi.blockSize) then file[off + k]? else none).isSome)
  rw [length_range, ← length_filterMap_eq_countP] at hall
  refine hall.trans ⟨fun h x hx hlt => ?_, fun h k hk => ?_⟩
  · have hx' := h (x - off) (mem_range.mpr (by omega))
    rw [Nat.add_sub_cancel' hx] at hx'
    split at hx'
    case isTrue hres => exact ⟨by simpa using hx', hres⟩
    case isFalse => cases hx'
  · obtain ⟨hlt, hres⟩ := h (off + k) (Nat.le_add_right _ _) (by
      have := mem_range.mp hk
      omega)
    rw [if_pos hres, getElem?_eq_getElem hlt]
    rfl

theorem resolvedPart_clamp (off n : Nat) :
    resolvedPart fi file off (min n (file.length - off)) = resolvedPart fi file off n := by
  by_cases h : n ≤ file.length - off
  · rw [Nat.min_eq_left h]
  · have hsplit : n = (file.length - off) + (n - (file.length - off)) := by omega
    have hpast : ∀ m, resolvedPart fi file (off + (file.length - off)) m = [] := fun m => by
      have hsub : (resolvedPart fi file (off + (file.length - off)) m).Sublist _ :=
        resolvedPart_sublist _ m
      rw [slice_eq_nil_of_le (by omega)] at hsub
      exact sublist_nil.mp hsub
    rw [Nat.min_eq_right (by omega)]
    conv => rhs; rw [hsplit]
    rw [← resolvedPart_append, hpast, append_nil]

/-- What the planner promises of a segment of this file. -/
structure Planned (fi : FileInfo) (file : Bytes) (p : BlockReadPlan) : Prop where
  inBlock : p.offsetInBlock + p.length ≤ fi.blockSize
  pos : 0 < p.length
  blockId : p.blockId = fi.blockIds.getD p.blockIndex (-1)
  inFile : (p.seg fi.blockSize).1 + p.length ≤ file.length

theorem Planned.blockIdOf (hp : Planned fi file p) :
    fi.blockIdOf p.blockIndex = fi.resolveBlockId p := by
  rw [FileInfo.blockIdOf, FileInfo.resolveBlockId, hp.blockId]

theorem Planned.resolves_iff (hp : Planned fi file p) :
    fi.Resolves p.blockIndex ↔ 0 < fi.resolveBlockId p := by
  rw [FileInfo.Resolves, hp.blockIdOf]

theorem Planned.div_eq (hp : Planned fi file p) {x : Nat} (hx : (p.seg fi.blockSize).1 ≤ x)
    (hlt : x < (p.seg fi.blockSize).1 + p.length) : x / fi.blockSize = p.blockIndex := by
  have hin := hp.inBlock
  simp only [BlockReadPlan.seg] at hx hlt
  refine Nat.div_eq_of_lt_le (by omega) ?_
  rw [Nat.add_one_mul]
  omega

/-- The bytes of a planned segment, if its block resolves. -/
def FileInfo.partOf (fi : FileInfo) (file : Bytes) (p : BlockReadPlan) : Bytes :=
  resolvedPart fi file (p.seg fi.blockSize).1 p.length

theorem Planned.partOf_eq (hp : Planned fi file p) : fi.partOf file p =
      if 0 < fi.resolveBlockId p then slice file (p.seg fi.blockSize).1 p.length else [] := by
  by_cases h : 0 < fi.resolveBlockId p
  · rw [if_pos h]
    exact resolvedPart_of_resolves fun x hx hlt => hp.div_eq hx hlt ▸ hp.resolves_iff.mpr h
  · rw [if_neg h]
    exact resolvedPart_of_not_resolves fun x hx hlt hres =>
      h (hp.resolves_iff.mp (hp.div_eq hx hlt ▸ hres))

theorem Planned.request_bytes (hfi : Describes fi store file) (hp : Planned fi file p)
    (hid : 0 < fi.resolveBlockId p) (positioned : Bool) :
    (⟨fi.resolveBlockId p, p, positioned⟩ : SegmentRequest).bytes store =
      slice file (p.seg fi.blockSize).1 p.length := by
  have hblock := hfi.blocks p.blockIndex (hp.resolves_iff.mpr hid)
  rw [hp.blockIdOf] at hblock
  rw [SegmentRequest.bytes, hblock, slice_slice hp.inBlock]
  rfl

theorem planned_of_mem (hfi : Describes fi store file) {len : Nat}
    (hp : p ∈ BlockMapper.planRead fi off len) : Planned fi file p := by
  obtain ⟨hin, hpos, hid⟩ := BlockMapper.planRead_mem hfi.blockSize hp
  have hbounds := (BlockMapper.planRead_tiles hfi.blockSize off len).mem_bounds
    (p.seg fi.blockSize) (mem_map_of_mem hp)
  have hlen := hfi.length
  refine ⟨hin, hpos, hid, ?_⟩
  have hseg : (p.seg fi.blockSize).2 = p.length := rfl
  rw [hseg] at hbounds
  omega

theorem planRead_resolvedPart (hfi : Describes fi store file) (off len : Nat) :
    (BlockMapper.planRead fi off len).flatMap (fi.partOf file) =
      resolvedPart fi file off (min len (file.length - off)) := by
  have htiles := (BlockMapper.planRead_tiles hfi.blockSize off len).flatMap_of_append
    (f := resolvedPart fi file) resolvedPart_zero resolvedPart_append
  rw [flatMap_map, Nat.add_sub_cancel_left, hfi.length] at htiles
  exact htiles

end Resolved

/-! ## Segments and ranges -/

theorem IoState.Clean.of_append {io : IoState} {o : Except Error Bytes}
    (h : ({ io with outcomes := io.outcomes ++ [o] } : IoState).Clean) :
    io.Clean ∧ ∃ b, o = .ok b :=
  ⟨fun o' ho' => h o' (mem_append_left _ ho'), h o (mem_append_right _ (mem_singleton_self o))⟩

theorem IoState.Clean.append {io : IoState} (h : io.Clean) (data : Bytes) :
    ({ io with outcomes := io.outcomes ++ [.ok data] } : IoState).Clean :=
  forall_mem_append.mpr ⟨h, forall_mem_singleton.mpr ⟨data, rfl⟩⟩

theorem SegmentRun.readSegment_ok {store : Int → Bytes} {run : SegmentRun}
    (hrun : run.Honest store) {req : SegmentRequest} {b : Bytes}
    (hin : (req.bytes store).length = req.plan.length) (h : run.readSegment req = .ok b) :
    b = req.bytes store := by
  have hread : ∀ opened : SegmentRequest → Except Error ReadStream,
      (∀ s, opened req = .ok s → run.stream req = .ok s ∨ run.freshStream req = .ok s) →
        tryReadBlock opened req = .ok b → b = req.bytes store := fun opened hopened hb =>
    GrpcBlockReader.positionedRead_ok hin
      (fun s hs => hrun req s (hopened s hs)) hb
  rw [readSegment] at h
  cases hconn : run.connect with
  | error e => simp [hconn, bind, Except.bind] at h
  | ok w =>
    cases hfirst : tryReadBlock run.stream req with
    | ok d =>
      have hd : d = b := by simpa [hconn, hfirst, bind, Except.bind] using h
      exact hread run.stream (fun s hs => .inl hs) (hd ▸ hfirst)
    | error e =>
      by_cases hauth : e.isAuthenticationFailed
      · cases hre : run.rpcReconnect with
        | error e' => simp [hconn, hfirst, hauth, hre, bind, Except.bind] at h
        | ok w' =>
          have hsecond : tryReadBlock run.freshStream req = .ok b := by
            simpa [hconn, hfirst, hauth, hre, bind, Except.bind] using h
          exact hread run.freshStream (fun s hs => .inr hs) hsecond
      · simp [hconn, hfirst, hauth, bind, Except.bind] at h

namespace GoosefsFileReader

section Range

variable {w : ReadWorld} {fi : FileInfo} {store : Int → Bytes} {file : Bytes}
  (hfi : Describes fi store file) (hw : ∀ n, (w.workers n).Honest store)
include hfi hw

theorem readPlans_spec (positioned : Bool) :
    ∀ {plans : List BlockReadPlan} (buf : Bytes) (io : IoState), (∀ p ∈ plans, Planned fi file p) →
        (∀ b, (readPlans w fi positioned plans buf io).1 = .ok b →
          b = buf ++ plans.flatMap (fi.partOf file)) ∧
        ((readPlans w fi positioned plans buf io).2.Clean →
          io.Clean ∧ ∃ b, (readPlans w fi positioned plans buf io).1 = .ok b) ∧
        ((∀ n, (w.workers n).Serves store) → io.Clean →
          (readPlans w fi positioned plans buf io).2.Clean) := by
  intro plans
  induction plans with
  | nil =>
    intro buf io _
    refine ⟨fun b h => ?_, fun h => ⟨h, buf, rfl⟩, fun _ h => h⟩
    cases h
    rw [flatMap_nil, append_nil]
  | cons p rest ih =>
    intro buf io hplans
    have hp := hplans p (mem_cons_self ..)
    have hrest : ∀ q ∈ rest, Planned fi file q := fun q hq => hplans q (mem_cons_of_mem _ hq)
    rw [flatMap_cons, hp.partOf_eq]
    by_cases hid : fi.resolveBlockId p ≤ 0
    · -- the block does not resolve and contributes nothing
      rw [readPlans, if_pos hid, if_neg (by omega), nil_append]
      exact ih buf io hrest
    · have hbytes := hp.request_bytes hfi (by omega) positioned
      have hlen := slice_length_of_le hp.inFile
      rw [readPlans, if_neg hid, if_pos (by omega)]
      cases hout : (w.workers io.outcomes.length).readSegment
          ⟨fi.resolveBlockId p, p, positioned⟩ with
      | error e =>
        simp only [readSegment, hout]
        refine ⟨by simp, fun hclean => ?_, fun hserve _ => ?_⟩
        · obtain ⟨_, b, hb⟩ := hclean.of_append
          cases hb
        · obtain ⟨data, hdata⟩ := hserve io.outcomes.length
            ⟨fi.resolveBlockId p, p, positioned⟩ (hbytes ▸ hlen)
          cases hout.symm.trans hdata
      | ok data =>
        have hdata : data = slice file (p.seg fi.blockSize).1 p.length :=
          hbytes ▸ SegmentRun.readSegment_ok (hw _) (hbytes ▸ hlen) hout
        have hne : data ≠ [] := by
          have hpos := hp.pos
          exact ne_nil_of_length_pos (by rw [hdata]; omega)
        simp only [readSegment, hout, if_neg hne]
        obtain ⟨hok, hclean, hserves⟩ := ih (buf ++ data)
          { io with outcomes := io.outcomes ++ [.ok data] } hrest
        refine ⟨fun b hb => ?_, fun hb => ?_, fun hserve hio => hserves hserve (hio.append data)⟩
        · rw [hok b hb, ← hdata, append_assoc]
        · obtain ⟨hio, hsome⟩ := hclean hb
          exact ⟨hio.of_append.1, hsome⟩

theorem readFileRange_spec (positioned : Bool) (a e : Nat) (io : IoState) :
    (∀ b, (readFileRange w fi positioned a e io).1 = .ok b → b = resolvedPart fi file a (e - a)) ∧
    ((readFileRange w fi positioned a e io).2.Clean →
      io.Clean ∧ ∃ b, (readFileRange w fi positioned a e io).1 = .ok b) ∧
    ((∀ n, (w.workers n).Serves store) → io.Clean →
      (readFileRange w fi positioned a e io).2.Clean) := by
  rw [readFileRange]
  by_cases hle : e ≤ a
  · rw [if_pos hle, Nat.sub_eq_zero_of_le hle, resolvedPart_zero]
    refine ⟨fun b h => ?_, fun h => ⟨h, [], rfl⟩, fun _ h => h⟩
    cases h
    rfl
  · rw [if_neg hle]
    have hplans : ∀ p ∈ BlockMapper.planRead fi a (e - a), Planned fi file p :=
      fun p hp => planned_of_mem hfi hp
    have hspec := readPlans_spec hfi hw positioned [] io hplans
    rw [planRead_resolvedPart hfi, resolvedPart_clamp, nil_append] at hspec
    exact hspec

theorem readRange_true : TrueSource file (readRange w fi) := by
  intro io a e b hb
  rw [(readFileRange_spec hfi hw true a e io).1 b hb]
  exact resolvedPart_sublist a (e - a)

theorem readRange_full (hall : fi.AllResolve) : FullSource file IoState.Clean (readRange w fi) := by
  intro io a e hclean
  obtain ⟨hok, hsome, _⟩ := readFileRange_spec hfi hw true a e io
  obtain ⟨hio, b, hb⟩ := hsome hclean
  refine ⟨hio, fun hlt hle => ?_⟩
  have hlen := hfi.length
  have hpart : resolvedPart fi file a (e - a) = slice file a (e - a) :=
    resolvedPart_of_resolves fun x hx hxe => hall x (by omega)
  rw [← hpart, ← hok b hb]
  exact hb

end Range

/-! ## The reader's own loop -/

section Loop

variable {w : ReadWorld} {store : Int → Bytes} {file : Bytes} {r : GoosefsFileReader}

theorem fetch_spec (hfi : Describes r.fileInfo store file)
    (hw : w.Honest store file r.cache) {p : BlockReadPlan}
    (hp : Planned r.fileInfo file p) (hid : 0 < r.fileInfo.resolveBlockId p) (io : IoState) :
    (∀ b, (fetch w r p io).1 = .ok b → b = r.fileInfo.partOf file p) ∧
    ((fetch w r p io).2.Clean → r.cache = none ∨ r.fileInfo.AllResolve →
      io.Clean ∧ ∃ b, (fetch w r p io).1 = .ok b) ∧
    (r.cache = none → (∀ n, (w.workers n).Serves store) → io.Clean → (fetch w r p io).2.Clean) := by
  have hlen : (p.seg r.fileInfo.blockSize).1 + p.length - (p.seg r.fileInfo.blockSize).1 =
      p.length := Nat.add_sub_cancel_left ..
  rw [fetch]
  cases hcache : r.cache with
  | none =>
    have hspec := readFileRange_spec hfi hw.workers false (p.seg r.fileInfo.blockSize).1
      ((p.seg r.fileInfo.blockSize).1 + p.length) io
    rw [hlen] at hspec
    exact ⟨hspec.1, fun hclean _ => hspec.2.1 hclean, fun _ => hspec.2.2⟩
  | some c =>
    have htrue := hw.cache c (by rw [hcache]; rfl) io.batches
    have hle : (p.seg r.fileInfo.blockSize).1 ≤ (p.seg r.fileInfo.blockSize).1 + p.length :=
      Nat.le_add_right _ _
    simp only [hfi.length]
    refine ⟨fun b hb => ?_, fun hclean hres => ?_, nofun⟩
    · have hslice := readThroughCache_ok htrue (readRange_true hfi hw.workers) hle hp.inFile hb
      rw [hslice, hlen, hp.partOf_eq, if_pos hid]
    · have hall : r.fileInfo.AllResolve := hres.resolve_left (by simp)
      have hfull := readThroughCache_full htrue (readRange_full hfi hw.workers hall) hle hp.inFile
        hclean
      exact ⟨hfull.1, _, hfull.2⟩

theorem skipInvalid_spec (hplans : ∀ p ∈ r.plans, Planned r.fileInfo file p) :
    ∀ {fuel i j : Nat} {o : Option BlockReadPlan}, r.plans.length < fuel + i →
      skipInvalid r fuel i = (j, o) →
        match o with
        | none => (r.plans.drop i).flatMap (r.fileInfo.partOf file) = []
        | some p => p ∈ r.plans ∧ 0 < r.fileInfo.resolveBlockId p ∧ i ≤ j ∧
            (r.plans.drop i).flatMap (r.fileInfo.partOf file) =
              r.fileInfo.partOf file p ++ (r.plans.drop (j + 1)).flatMap (r.fileInfo.partOf file) := by
  intro fuel
  induction fuel with
  | zero =>
    intro i j o hfuel h
    cases h
    rw [drop_eq_nil_of_le (by omega), flatMap_nil]
  | succ fuel ih =>
    intro i j o hfuel h
    rw [skipInvalid] at h
    cases hget : r.plans[i]? with
    | none =>
      rw [hget] at h
      cases h
      rw [drop_eq_nil_of_le (List.getElem?_eq_none_iff.mp hget), flatMap_nil]
    | some p =>
      obtain ⟨hi, hpi⟩ := List.getElem?_eq_some_iff.mp hget
      have hmem : p ∈ r.plans := hpi ▸ List.getElem_mem hi
      have hdrop : r.plans.drop i = p :: r.plans.drop (i + 1) := by
        rw [drop_eq_getElem_cons hi, hpi]
      simp only [hget] at h
      rw [hdrop, flatMap_cons]
      by_cases hid : r.fileInfo.resolveBlockId p ≤ 0
      · rw [if_pos hid] at h
        rw [(hplans p hmem).partOf_eq, if_neg (by omega), nil_append]
        have hnext := ih (by omega) h
        cases o with
        | none => exact hnext
        | some q => exact ⟨hnext.1, hnext.2.1, by have := hnext.2.2.1; omega, hnext.2.2.2⟩
      · rw [if_neg hid] at h
        cases h
        exact ⟨hmem, by omega, Nat.le_refl _, rfl⟩

theorem readAllLoop_spec : ∀ {fuel : Nat} {r : GoosefsFileReader} (buf : Bytes) (io : IoState),
    Describes r.fileInfo store file → w.Honest store file r.cache →
    (∀ p ∈ r.plans, Planned r.fileInfo file p) → r.plans.length < fuel + r.currentPlanIndex →
      (∀ b, (readAllLoop w fuel r buf io).1 = .ok b →
        b = buf ++ (r.plans.drop r.currentPlanIndex).flatMap (r.fileInfo.partOf file)) ∧
      ((readAllLoop w fuel r buf io).2.2.Clean → r.cache = none ∨ r.fileInfo.AllResolve →
        io.Clean ∧ ∃ b, (readAllLoop w fuel r buf io).1 = .ok b) ∧
      (r.cache = none → (∀ n, (w.workers n).Serves store) → io.Clean →
        (readAllLoop w fuel r buf io).2.2.Clean) := by
  intro fuel
  induction fuel with
  | zero =>
    intro r buf io _ _ _ hfuel
    refine ⟨fun b h => ?_, fun h _ => ⟨h, buf, rfl⟩, fun _ _ h => h⟩
    cases h
    rw [drop_eq_nil_of_le (by omega), flatMap_nil, append_nil]
  | succ fuel ih =>
    intro r buf io hfi hw hplans hfuel
    rw [readAllLoop, readNextBlock]
    rcases hskip : skipInvalid r (r.plans.length + 1) r.currentPlanIndex with ⟨j, o⟩
    have hnext := skipInvalid_spec hplans (by omega) hskip
    cases o with
    | none =>
      simp only at hnext ⊢
      refine ⟨fun b h => ?_, fun h _ => ⟨h, buf, rfl⟩, fun _ _ h => h⟩
      cases h
      rw [hnext, append_nil]
    | some p =>
      obtain ⟨hmem, hid, hij, hflat⟩ := hnext
      obtain ⟨hok, hclean, hserves⟩ := fetch_spec hfi hw (hplans p hmem) hid io
      rcases hfetch : fetch w r p io with ⟨_ | data, io₁⟩
      · rw [hfetch] at hclean hserves
        simp only [hfetch]
        refine ⟨by simp, fun hc hres => ?_, hserves⟩
        obtain ⟨_, b, hb⟩ := hclean hc hres
        cases hb
      · rw [hfetch] at hok hclean hserves
        simp only [hfetch]
        obtain ⟨hok', hclean', hserves'⟩ := ih
          (r := { r with totalBytesRead := r.totalBytesRead + data.length
                         currentPlanIndex := j + 1 })
          (buf ++ data) io₁ hfi hw hplans (by simp only; omega)
        refine ⟨fun b hb => ?_, fun hc hres => ?_, fun hnone hserve hio =>
          hserves' hnone hserve (hserves hnone hserve hio)⟩
        · rw [hok' b hb, hok data rfl, hflat, append_assoc]
        · obtain ⟨hio₁, hsome⟩ := hclean' hc hres
          exact ⟨(hclean hio₁ hres).1, hsome⟩

end Loop

/-! ## Whole reads -/

section Whole

variable {w : ReadWorld} {fi : FileInfo} {store : Int → Bytes} {file : Bytes}
  {cache : Option PageCache} {path : String}
  {range : Option (Nat × Nat)} {workersEmpty : Bool}

theorem readAll_spec {off len : Nat} (hfi : Describes fi store file)
    (hw : w.Honest store file cache) (io : IoState) :
    (∀ b, (readAll w (build fi off len cache) io).1 = .ok b →
      b = resolvedPart fi file off (min len (file.length - off))) ∧
    ((readAll w (build fi off len cache) io).2.2.Clean → cache = none ∨ fi.AllResolve →
      ∃ b, (readAll w (build fi off len cache) io).1 = .ok b) ∧
    (cache = none → (∀ n, (w.workers n).Serves store) → io.Clean →
      (readAll w (build fi off len cache) io).2.2.Clean) := by
  obtain ⟨hok, hclean, hserves⟩ := readAllLoop_spec (r := build fi off len cache) [] io hfi hw
    (fun p hp => planned_of_mem hfi hp) (Nat.lt_succ_self _)
  refine ⟨fun b hb => ?_, fun hc hres => (hclean hc hres).2, hserves⟩
  have hb' := hok b hb
  rw [nil_append, build, drop_zero, planRead_resolvedPart hfi] at hb'
  exact hb'

theorem openInner_eq {r : GoosefsFileReader}
    (h : openInner fi path workersEmpty range cache = .ok r) :
    r = build fi (range.getD (0, fi.fileLength)).1 (range.getD (0, fi.fileLength)).2 cache := by
  rw [openInner, FileInfo.rejectDirectory] at h
  by_cases hdir : fi.folder.getD false
  · simp [hdir, bind, Except.bind] at h
  · cases workersEmpty
    · simp [hdir, bind, Except.bind] at h
      exact h.symm
    · simp [hdir, bind, Except.bind] at h

def clampedRange (file : Bytes) (range : Option (Nat × Nat)) : Nat × Nat :=
  let off := (range.getD (0, file.length)).1
  (off, min (range.getD (0, file.length)).2 (file.length - off))

theorem openAndReadAll_spec (hfi : Describes fi store file) (hw : w.Honest store file cache) :
    (∀ b, (openAndReadAll w fi path workersEmpty range cache).1 = .ok b →
      b = resolvedPart fi file (clampedRange file range).1 (clampedRange file range).2) ∧
    (∀ r, openInner fi path workersEmpty range cache = .ok r →
      (openAndReadAll w fi path workersEmpty range cache).2.Clean → cache = none ∨ fi.AllResolve →
          (openAndReadAll w fi path workersEmpty range cache).1 =
            .ok (resolvedPart fi file (clampedRange file range).1 (clampedRange file range).2)) := by
  rw [openAndReadAll]
  cases hopen : openInner fi path workersEmpty range cache with
  | error e => exact ⟨by simp, by simp⟩
  | ok r =>
    have hr := openInner_eq hopen
    rw [hfi.length] at hr
    subst hr
    obtain ⟨hok, hsome, _⟩ := readAll_spec hfi hw IoState.start
    refine ⟨fun b hb => hok b hb, fun _ _ hclean hres => ?_⟩
    obtain ⟨b, hb⟩ := hsome hclean hres
    exact hb.trans (congrArg Except.ok (hok b hb))

end Whole

/-! ## Workers that do not fail -/

section Serves

variable {w : ReadWorld} {store : Int → Bytes} {file : Bytes} {fi : FileInfo}

/-- A direct read whose workers do not fail returns the resolved part of the
range it asks for, provided that the file can be opened. -/
theorem openAndReadAll_serves {path : String} {workersEmpty : Bool} {range : Option (Nat × Nat)}
    (hfi : Describes fi store file) (hw : w.Honest store file none)
    (hserve : ∀ n, (w.workers n).Serves store) {r : GoosefsFileReader}
    (hopen : openInner fi path workersEmpty range none = .ok r) :
    (openAndReadAll w fi path workersEmpty range none).1 =
      .ok (resolvedPart fi file (clampedRange file range).1 (clampedRange file range).2) := by
  refine (openAndReadAll_spec hfi hw).2 r hopen ?_ (.inl rfl)
  rw [openAndReadAll, hopen, openInner_eq hopen]
  exact (readAll_spec hfi hw IoState.start).2.2 rfl hserve (forall_mem_nil _)

end Serves

/-- Workers that answer every request with one frame of exactly the bytes asked
for, and a cache that is always empty. -/
def exactWorld (store : Int → Bytes) : ReadWorld :=
  let serve : SegmentRequest → Except Error ReadStream := fun req =>
    .ok ⟨[], [.ok ⟨some ⟨some (req.bytes store)⟩⟩]⟩
  { workers := fun _ =>
      { select := .ok (some "worker:9203"), acquire := .ok (), reconnect := .ok (),
        retrySelect := .ok none, retryAcquire := .ok (), stream := serve, rpcReconnect := .ok (),
        freshStream := serve }
    cache := fun _ _ => [] }

theorem exactWorld_honest (store : Int → Bytes) (file : Bytes) (cache : Option PageCache) :
    (exactWorld store).Honest store file cache where
  workers := by
    intro n req s hs
    have hs' : s = ⟨[], [.ok ⟨some ⟨some (req.bytes store)⟩⟩]⟩ := by
      rcases hs with hs | hs
      · exact (Except.ok.inj hs).symm
      · exact (Except.ok.inj hs).symm
    rw [hs']
    simp [ChunkSource.directBytes, ReadResponse.payload]
  cache := by
    intro c _ n reqs r hr
    simp [exactWorld] at hr

theorem exactWorld_serves (store : Int → Bytes) (n : Nat) :
    ((exactWorld store).workers n).Serves store := by
  intro req hin
  have hbytes : ChunkSource.directBytes [.ok ⟨some ⟨some (req.bytes store)⟩⟩] =
      req.bytes store := by
    simp [ChunkSource.directBytes, ReadResponse.payload]
  have hread : SegmentRun.tryReadBlock ((exactWorld store).workers n).stream req = .ok _ :=
    GrpcBlockReader.positionedRead_complete (by rw [hbytes, hin])
  rw [SegmentRun.readSegment, hread]
  exact ⟨_, rfl⟩

def smallInfo : FileInfo :=
  { folder := some false, length := some 5, blockSizeBytes := some 2, blockIds := [7, 8, 9],
    fileBlockInfos := [] }

def smallStore (id : Int) : Bytes := if id = 7 then [1, 2] else if id = 8 then [3, 4] else [5]

theorem smallInfo_describes : Describes smallInfo smallStore [1, 2, 3, 4, 5] := by
  refine ⟨rfl, by decide, fun i hi => ?_⟩
  match i with
  | 0 => rfl
  | 1 => rfl
  | 2 => rfl

end GoosefsFileReader

end GooseFS
