import Mathlib.Data.List.AList
import Mathlib.Data.List.Induction
import Mathlib.Data.Option.Basic
import GooseFS.IO.FileInStream
import GooseFS.Lib.ListOrder

/-!
# Block ids

A file lists its blocks twice: `block_ids` in the order of the blocks, and
`file_block_infos` with an offset and possibly an id for each block.  The reader,
the stream and the Python binding each look a block up in their own way: by
position in one list or the other, by offset, or by position after sorting.

`resolvers_agree_iff` says for which files the three always find the same id, and
the one that is listed for the offset: those without any valid id in
`file_block_infos`, and those that are `Ordered`.
-/

namespace GooseFS

open Lib List GoosefsFileInStream

namespace FileBlockInfo

def blockId (e : FileBlockInfo) : Option Int := e.blockInfo.bind BlockInfo.blockId

def validId (e : FileBlockInfo) : Option Int := e.blockId.filter (0 < ·)

def pair (e : FileBlockInfo) : Option (Int × Int) :=
  e.validId.map fun id => (e.offset.getD 0, id)

end FileBlockInfo

open FileBlockInfo

def idsByOffset (infos : List FileBlockInfo) : List Int :=
  ((infos.filterMap pair).mergeSort fun a b => a.1 ≤ b.1).map Prod.snd

def FileInfo.ensureBlockIds (fi : FileInfo) : FileInfo :=
  if fi.blockIds ≠ [] ∨ fi.fileBlockInfos = [] then fi
  else { fi with blockIds := idsByOffset fi.fileBlockInfos }

/-- The map of `URIStatus::from_proto`: the last entry of each id. -/
def blockInfoMap (infos : List FileBlockInfo) : AList fun _ : Int => FileBlockInfo :=
  infos.foldl (fun m e => match e.blockId with | none => m | some id => m.insert id e) ∅

def blockInfoValues (infos : List FileBlockInfo) : List FileBlockInfo :=
  (blockInfoMap infos).entries.map Sigma.snd

/-- `URIStatus::from_proto`.  The map may be walked in any order. -/
structure URIStatus.FromProto (fi : FileInfo) (status : URIStatus) : Prop where
  blockIds : status.blockIds = fi.ensureBlockIds.blockIds
  blockSizeBytes : (status.blockSizeBytes : Int) = fi.blockSizeBytes.getD 0
  blockInfos : status.blockInfos.Perm (blockInfoValues fi.fileBlockInfos)

/-- `resolve_block_id` of the Python binding; the length it returns with the id is
left out. -/
def URIStatus.resolveBlockId (status : URIStatus) (blockIndex : Nat) (path : String) :
    Except String Int :=
  let fbiIds := idsByOffset status.blockInfos
  let blockIds := if fbiIds ≠ [] then fbiIds else status.blockIds
  if blockIds = [] then .error s!"path {repr path} has no blocks (empty file or directory)"
  else
    match blockIds[blockIndex]? with
    | some id => .ok id
    | none => .error
        s!"block_index={blockIndex} out of range (file {repr path} has {blockIds.length} block(s))"

def URIStatus.pythonBlockId (status : URIStatus) (i : Nat) (path : String) : Option Int :=
  (status.resolveBlockId i path).toOption.filter (0 < ·)

def FileInfo.readerBlockId (fi : FileInfo) (i : Nat) : Option Int :=
  (some (fi.ensureBlockIds.resolveBlockId
    ⟨fi.ensureBlockIds.blockIds.getD i (-1), i, 0, 0⟩)).filter (0 < ·)

def GoosefsFileInStream.streamBlockId (st : GoosefsFileInStream) (i : Nat) : Option Int :=
  (st.blockIdAt i).toOption

/-! ## What they compute -/

def validAt (ids : List Int) (i : Nat) : Option Int := ids[i]?.filter (0 < ·)

theorem FileInfo.readerBlockId_eq (fi : FileInfo) (i : Nat) : fi.readerBlockId i =
    (fi.fileBlockInfos[i]?.bind validId <|> validAt fi.ensureBlockIds.blockIds i) := by
  have hinfos : fi.ensureBlockIds.fileBlockInfos = fi.fileBlockInfos := by
    unfold ensureBlockIds
    split <;> rfl
  have hassigned : fi.ensureBlockIds.assignedBlockId i = fi.fileBlockInfos[i]?.bind validId := by
    rw [assignedBlockId, hinfos]
    cases fi.fileBlockInfos[i]? <;> rfl
  unfold readerBlockId resolveBlockId
  rw [hassigned]
  cases h : fi.fileBlockInfos[i]?.bind validId with
  | none =>
    simp only [Option.getD_none, validAt, getD_eq_getElem?_getD]
    cases fi.ensureBlockIds.blockIds[i]? <;> rfl
  | some id =>
    obtain ⟨e, -, hid⟩ := Option.bind_eq_some_iff.1 h
    have hpos : 0 < id := of_decide_eq_true (Option.filter_eq_some_iff.1 hid).2
    simp only [Option.getD_some, Option.filter_some, decide_eq_true hpos]
    rfl

theorem GoosefsFileInStream.streamBlockId_eq (st : GoosefsFileInStream) (i : Nat) :
    st.streamBlockId i = (validAt st.status.blockIds i <|>
      ((st.status.blockInfos.find? fun e => e.offset = some (st.blockStart i : Int)).bind
        validId)) := by
  unfold streamBlockId blockIdAt validAt
  cases st.status.blockIds[i]?.filter (0 < ·) with
  | some id => rfl
  | none =>
    simp only
    cases st.status.blockInfos.find? fun e => e.offset = some (st.blockStart i : Int) with
    | none => rfl
    | some e =>
      simp only [Option.bind_some, validId, FileBlockInfo.blockId]
      cases e.blockInfo.bind BlockInfo.blockId with
      | none => rfl
      | some id =>
        by_cases hpos : 0 < id
        · simp [hpos, Except.toOption, Option.filter]
        · simp [hpos, Except.toOption, Option.filter]

theorem pos_of_mem_idsByOffset {infos : List FileBlockInfo} {id : Int}
    (h : id ∈ idsByOffset infos) : 0 < id := by
  obtain ⟨p, hp, rfl⟩ := mem_map.1 h
  obtain ⟨e, -, he⟩ := mem_filterMap.1 (mem_mergeSort.1 hp)
  obtain ⟨id, hid, rfl⟩ := Option.map_eq_some_iff.1 he
  exact of_decide_eq_true (Option.filter_eq_some_iff.1 hid).2

theorem URIStatus.pythonBlockId_eq (status : URIStatus) (i : Nat) (path : String) :
    status.pythonBlockId i path =
      if idsByOffset status.blockInfos ≠ [] then (idsByOffset status.blockInfos)[i]?
      else validAt status.blockIds i := by
  have hlist : ∀ ids : List Int,
      (if ids = [] then .error s!"path {repr path} has no blocks (empty file or directory)"
      else match ids[i]? with
        | some id => .ok id
        | none => .error
          s!"block_index={i} out of range (file {repr path} has {ids.length} block(s))" :
        Except String Int).toOption = ids[i]? := by
    intro ids
    split
    · next hnil =>
      rw [hnil]
      rfl
    · cases ids[i]? <;> rfl
  unfold pythonBlockId resolveBlockId
  rw [hlist]
  split
  · cases h : (idsByOffset status.blockInfos)[i]? with
    | none => rfl
    | some id =>
      have hpos := pos_of_mem_idsByOffset (mem_of_getElem? h)
      rw [Option.filter_some, if_pos (decide_eq_true hpos)]
  · rfl

/-! ## The block-info map -/

section Map

variable {infos : List FileBlockInfo} {e d : FileBlockInfo} {k : Int}

theorem lookup_blockInfoMap (h : (blockInfoMap infos).lookup k = some e) :
    e ∈ infos ∧ e.blockId = some k := by
  induction infos using reverseRecOn with
  | nil => cases h
  | append_singleton rest x ih =>
    rw [blockInfoMap, foldl_append] at h
    have hrest : (blockInfoMap rest).lookup k = some e → e ∈ rest ++ [x] ∧ e.blockId = some k :=
      fun hold => ⟨mem_append_left _ (ih hold).1, (ih hold).2⟩
    simp only [foldl_cons, foldl_nil] at h
    split at h
    · exact hrest h
    · next id hid =>
      by_cases hk : k = id
      · rw [hk, AList.lookup_insert] at h
        cases h
        exact ⟨mem_append_right _ mem_cons_self, hk ▸ hid⟩
      · rw [AList.lookup_insert_ne hk] at h
        exact hrest h

theorem lookup_blockInfoMap_isSome (he : e ∈ infos) (hk : e.blockId = some k) :
    ((blockInfoMap infos).lookup k).isSome := by
  induction infos using reverseRecOn with
  | nil => cases he
  | append_singleton rest x ih =>
    rw [blockInfoMap, foldl_append]
    simp only [foldl_cons, foldl_nil]
    obtain he | he := mem_append.1 he
    · split
      · exact ih he
      · next id hid =>
        by_cases hne : k = id
        · rw [hne, AList.lookup_insert]
          rfl
        · rw [AList.lookup_insert_ne hne]
          exact ih he
    · cases mem_singleton.1 he
      rw [hk, AList.lookup_insert]
      rfl

theorem mem_blockInfoValues :
    e ∈ blockInfoValues infos ↔ ∃ k, (blockInfoMap infos).lookup k = some e := by
  constructor
  · intro h
    obtain ⟨⟨k, e'⟩, hmem, rfl⟩ := mem_map.1 h
    exact ⟨k, AList.mem_lookup_iff.2 hmem⟩
  · rintro ⟨k, hk⟩
    exact mem_map.2 ⟨⟨k, e⟩, AList.mem_lookup_iff.1 hk, rfl⟩

theorem mem_of_mem_blockInfoValues (h : e ∈ blockInfoValues infos) : e ∈ infos := by
  obtain ⟨k, hk⟩ := mem_blockInfoValues.1 h
  exact (lookup_blockInfoMap hk).1

theorem exists_mem_blockInfoValues (he : e ∈ infos) (hk : e.blockId = some k) :
    ∃ d ∈ blockInfoValues infos, d.blockId = some k := by
  obtain ⟨d, hd⟩ := Option.isSome_iff_exists.1 (lookup_blockInfoMap_isSome he hk)
  exact ⟨d, mem_blockInfoValues.2 ⟨k, hd⟩, (lookup_blockInfoMap hd).2⟩

theorem nodup_blockInfoValues : ((blockInfoValues infos).map blockId).Nodup := by
  have hkeys : (blockInfoValues infos).map blockId = (blockInfoMap infos).keys.map some := by
    rw [blockInfoValues, AList.keys, keys, map_map, map_map]
    refine map_congr_left fun s hs => ?_
    exact (lookup_blockInfoMap (AList.mem_lookup_iff.2 hs)).2
  rw [hkeys]
  exact (blockInfoMap infos).keys_nodup.map (Option.some_injective _)

end Map

/-! ## Valid ids of the map -/

section ValidIds

variable {infos values : List FileBlockInfo} {e d : FileBlockInfo} {k : Int}

theorem blockId_of_validId (h : e.validId = some k) : e.blockId = some k :=
  (Option.filter_eq_some_iff.1 h).1

theorem validId_congr (h : d.blockId = e.blockId) : d.validId = e.validId := by
  rw [validId, validId, h]

theorem map_snd_pairs : (infos.filterMap pair).map Prod.snd = infos.filterMap validId := by
  rw [map_filterMap]
  refine filterMap_congr fun e _ => ?_
  unfold pair
  cases e.validId <;> rfl

theorem mem_pairs_iff {p : Int × Int} : p ∈ infos.filterMap pair ↔
    ∃ e ∈ infos, e.validId = some p.2 ∧ e.offset.getD 0 = p.1 := by
  rw [mem_filterMap]
  constructor
  · rintro ⟨e, he, hp⟩
    obtain ⟨id, hid, rfl⟩ := Option.map_eq_some_iff.1 hp
    exact ⟨e, he, hid, rfl⟩
  · rintro ⟨e, he, hid, hoff⟩
    refine ⟨e, he, ?_⟩
    rw [pair, hid, Option.map_some, hoff]

theorem mem_validIds_values :
    k ∈ (blockInfoValues infos).filterMap validId ↔ k ∈ infos.filterMap validId := by
  rw [mem_filterMap, mem_filterMap]
  constructor
  · rintro ⟨e, he, hk⟩
    exact ⟨e, mem_of_mem_blockInfoValues he, hk⟩
  · rintro ⟨e, he, hk⟩
    obtain ⟨d, hd, hdk⟩ := exists_mem_blockInfoValues he (blockId_of_validId hk)
    exact ⟨d, hd, (validId_congr (hdk.trans (blockId_of_validId hk).symm)).trans hk⟩

theorem nodup_validIds_values : ((blockInfoValues infos).filterMap validId).Nodup := by
  have hmap : (blockInfoValues infos).filterMap validId =
      ((blockInfoValues infos).map blockId).filterMap fun o => o.filter (0 < ·) := by
    rw [filterMap_map]
    rfl
  rw [hmap]
  refine nodup_blockInfoValues.filterMap fun o o' id ho ho' => ?_
  rw [(Option.filter_eq_some_iff.1 ho).1, (Option.filter_eq_some_iff.1 ho').1]

theorem length_validIds_values : ((blockInfoValues infos).filterMap validId).length =
    (infos.filterMap validId).dedup.length := by
  refine Perm.length_eq ?_
  rw [perm_ext_iff_of_nodup nodup_validIds_values (nodup_dedup _)]
  intro k
  rw [mem_validIds_values, mem_dedup]

theorem pairs_perm (hnodup : (infos.filterMap validId).Nodup)
    (hperm : values.Perm (blockInfoValues infos)) :
    (values.filterMap pair).Perm (infos.filterMap pair) := by
  refine (hperm.filterMap pair).trans ?_
  have hinfos : (infos.filterMap pair).Nodup := by
    rw [← map_snd_pairs] at hnodup
    exact hnodup.of_map _
  have hvalues : ((blockInfoValues infos).filterMap pair).Nodup := by
    have hmap : (((blockInfoValues infos).filterMap pair).map Prod.snd).Nodup := by
      rw [map_snd_pairs]
      exact nodup_validIds_values
    exact hmap.of_map _
  rw [perm_ext_iff_of_nodup hvalues hinfos]
  intro p
  constructor
  · intro hp
    obtain ⟨e, he, hrest⟩ := mem_pairs_iff.1 hp
    exact mem_pairs_iff.2 ⟨e, mem_of_mem_blockInfoValues he, hrest⟩
  · intro hp
    obtain ⟨e, he, hid, hoff⟩ := mem_pairs_iff.1 hp
    obtain ⟨d, hd, hdid⟩ := exists_mem_blockInfoValues he (blockId_of_validId hid)
    have hdvalid : d.validId = some p.2 :=
      (validId_congr (hdid.trans (blockId_of_validId hid).symm)).trans hid
    -- the entry of the map with this id is the one of the list
    have hmem : (d.offset.getD 0, p.2) ∈ infos.filterMap pair :=
      mem_pairs_iff.2 ⟨d, mem_of_mem_blockInfoValues hd, hdvalid, rfl⟩
    rw [← map_snd_pairs] at hnodup
    have heq : (d.offset.getD 0, p.2) = p := inj_on_of_nodup_map hnodup hmem hp rfl
    exact mem_pairs_iff.2 ⟨d, hd, hdvalid, congrArg Prod.fst heq⟩

theorem length_idsByOffset : (idsByOffset infos).length = (infos.filterMap validId).length := by
  rw [idsByOffset, length_map, length_mergeSort, ← map_snd_pairs, length_map]

end ValidIds

/-! ## Files for which they agree -/

namespace FileInfo

/-- The resolvers find one id for block `i`, whatever the order of the maps. -/
def ResolversAgree (fi : FileInfo) (toStream : URIStatus → GoosefsFileInStream) (i : Nat) : Prop :=
  (∀ status : URIStatus, status.FromProto fi →
    fi.readerBlockId i = (toStream status).streamBlockId i) ∧
  ∀ (status : URIStatus) (path : String), status.FromProto fi →
    fi.readerBlockId i = status.pythonBlockId i path

def ResolvesListed (fi : FileInfo) (i : Nat) : Prop :=
  ∀ e ∈ fi.fileBlockInfos, ∀ id, e.validId = some id →
    e.offset = some (i * fi.blockSizeBytes.getD 0) → fi.readerBlockId i = some id

/-- The valid entries of `file_block_infos` come first, in the order of their
offsets and with different ids; one that starts where block `k` does is at place
`k`.  `block_ids` has no other valid id, and where it has none for a valid entry,
that entry can be found by its offset. -/
structure Ordered (fi : FileInfo) : Prop where
  front : Front validId fi.fileBlockInfos
  increasing : (fi.fileBlockInfos.filterMap pair).Pairwise fun a b => a.1 < b.1
  distinct : (fi.fileBlockInfos.filterMap validId).Nodup
  placed : ∀ (i : Nat) e, fi.fileBlockInfos[i]? = some e → e.validId ≠ none →
    ∀ k : Nat, e.offset = some (k * fi.blockSizeBytes.getD 0) → k = i
  listed : ∀ (i : Nat) id, validAt fi.blockIds i = some id →
    fi.fileBlockInfos[i]?.bind validId = some id
  found : fi.blockIds ≠ [] → ∀ (i : Nat) e, fi.fileBlockInfos[i]? = some e → e.validId ≠ none →
    validAt fi.blockIds i = none → e.offset = some (i * fi.blockSizeBytes.getD 0) ∧
      ∀ d ∈ blockInfoValues fi.fileBlockInfos,
        d.offset = some (i * fi.blockSizeBytes.getD 0) → d.validId ≠ none

section Ordered

variable {fi : FileInfo} {values : List FileBlockInfo} {i : Nat} {e : FileBlockInfo} {id : Int}
  {infos : List FileBlockInfo}

theorem Ordered.idsByOffset_values (h : fi.Ordered)
    (hperm : values.Perm (blockInfoValues fi.fileBlockInfos)) :
    idsByOffset values = fi.fileBlockInfos.filterMap validId := by
  have hsort : (values.filterMap pair).mergeSort (keyLe Prod.fst) = fi.fileBlockInfos.filterMap pair :=
    mergeSort_eq_of_pairwise_lt (pairs_perm h.distinct hperm) h.increasing
  rw [← map_snd_pairs, ← hsort]
  rfl

theorem Ordered.blockIds_eq (h : fi.Ordered) (hnil : fi.blockIds = []) :
    fi.ensureBlockIds.blockIds = fi.fileBlockInfos.filterMap validId := by
  unfold ensureBlockIds
  split
  · next hcond =>
    obtain hne | hinfos := hcond
    · exact absurd hnil hne
    · rw [hnil, hinfos]
      rfl
  · have hsort : (fi.fileBlockInfos.filterMap pair).mergeSort (keyLe Prod.fst) =
        fi.fileBlockInfos.filterMap pair :=
      mergeSort_eq_of_pairwise_lt (Perm.refl _) h.increasing
    rw [← map_snd_pairs]
    conv_rhs => rw [← hsort]
    rfl

theorem blockIds_of_ne_nil (hne : fi.blockIds ≠ []) : fi.ensureBlockIds.blockIds = fi.blockIds := by
  rw [ensureBlockIds, if_pos (Or.inl hne)]

theorem validAt_validIds (infos : List FileBlockInfo) (i : Nat) :
    validAt (infos.filterMap validId) i = (infos.filterMap validId)[i]? := by
  unfold validAt
  cases h : (infos.filterMap validId)[i]? with
  | none => rfl
  | some id =>
    obtain ⟨e, -, he⟩ := mem_filterMap.1 (mem_of_getElem? h)
    rw [Option.filter_some, if_pos (Option.filter_eq_some_iff.1 he).2]

theorem Ordered.validAt_blockIds (h : fi.Ordered)
    (hid : validAt fi.ensureBlockIds.blockIds i = some id) :
    (fi.fileBlockInfos.filterMap validId)[i]? = some id := by
  by_cases hnil : fi.blockIds = []
  · rw [h.blockIds_eq hnil, validAt_validIds] at hid
    exact hid
  · rw [blockIds_of_ne_nil hnil] at hid
    rw [getElem?_filterMap_of_front h.front]
    exact h.listed i id hid

theorem Ordered.readerBlockId_eq (h : fi.Ordered) :
    fi.readerBlockId i = (fi.fileBlockInfos.filterMap validId)[i]? := by
  rw [FileInfo.readerBlockId_eq, ← getElem?_filterMap_of_front h.front]
  cases hi : (fi.fileBlockInfos.filterMap validId)[i]? with
  | some id => rfl
  | none =>
    cases hv : validAt fi.ensureBlockIds.blockIds i with
    | none => rfl
    | some id => cases hi.symm.trans (h.validAt_blockIds hv)

theorem Ordered.at_offset (h : fi.Ordered) (he : e ∈ fi.fileBlockInfos) (hid : e.validId = some id)
    (hoff : e.offset = some (i * fi.blockSizeBytes.getD 0)) :
    (fi.fileBlockInfos.filterMap validId)[i]? = some id := by
  obtain ⟨j, hj⟩ := getElem?_of_mem he
  have hvalid : e.validId ≠ none := by
    rw [hid]
    exact Option.some_ne_none id
  rw [h.placed j e hj hvalid i hoff, getElem?_filterMap_of_front h.front, hj]
  exact hid

theorem place_unique (hfront : Front validId infos) (hdistinct : (infos.filterMap validId).Nodup)
    {i j : Nat} {d : FileBlockInfo} (hi : infos[i]? = some e) (hj : infos[j]? = some d)
    (he : e.validId = some id) (hd : d.validId = some id) : i = j := by
  have hei : (infos.filterMap validId)[i]? = some id := by
    rw [getElem?_filterMap_of_front hfront, hi]
    exact he
  have hdj : (infos.filterMap validId)[j]? = some id := by
    rw [getElem?_filterMap_of_front hfront, hj]
    exact hd
  exact (getElem?_inj (List.getElem?_eq_some_iff.1 hei).1 hdistinct).1 (hei.trans hdj.symm)

theorem mem_values_of_distinct (hfront : Front validId infos)
    (hdistinct : (infos.filterMap validId).Nodup) (he : e ∈ infos) (hid : e.validId = some id) :
    e ∈ blockInfoValues infos := by
  obtain ⟨d, hd, hdid⟩ := exists_mem_blockInfoValues he (blockId_of_validId hid)
  have hdvalid := (validId_congr (hdid.trans (blockId_of_validId hid).symm)).trans hid
  obtain ⟨i, hi⟩ := getElem?_of_mem he
  obtain ⟨j, hj⟩ := getElem?_of_mem (mem_of_mem_blockInfoValues hd)
  have hij := place_unique hfront hdistinct hi hj hid hdvalid
  subst hij
  cases hi.symm.trans hj
  exact hd

theorem Ordered.found_of_validAt (h : fi.Ordered) (hv : validAt fi.ensureBlockIds.blockIds i = none)
    (hi : fi.fileBlockInfos[i]? = some e) (hid : e.validId = some id) :
    e.offset = some (i * fi.blockSizeBytes.getD 0) ∧ ∀ d ∈ blockInfoValues fi.fileBlockInfos,
        d.offset = some (i * fi.blockSizeBytes.getD 0) → d.validId ≠ none := by
  have hvalid : e.validId ≠ none := by
    rw [hid]
    exact Option.some_ne_none id
  by_cases hnil : fi.blockIds = []
  · rw [h.blockIds_eq hnil, validAt_validIds, getElem?_filterMap_of_front h.front, hi] at hv
    exact absurd hv hvalid
  · rw [blockIds_of_ne_nil hnil] at hv
    exact h.found hnil i e hi hvalid hv

theorem Ordered.streamBlockId_eq (h : fi.Ordered) {st : GoosefsFileInStream}
    (hst : st.status.FromProto fi) :
    st.streamBlockId i = (fi.fileBlockInfos.filterMap validId)[i]? := by
  have hstart : (st.blockStart i : Int) = i * fi.blockSizeBytes.getD 0 := by
    rw [blockStart, Int.natCast_mul, hst.blockSizeBytes]
  rw [GoosefsFileInStream.streamBlockId_eq, hst.blockIds, hstart]
  cases hv : validAt fi.ensureBlockIds.blockIds i with
  | some id => exact (h.validAt_blockIds hv).symm
  | none =>
    have hplace : ∀ id, (fi.fileBlockInfos.filterMap validId)[i]? = some id →
        ∃ e, fi.fileBlockInfos[i]? = some e ∧ e.validId = some id := by
      intro id hid
      rw [getElem?_filterMap_of_front h.front] at hid
      exact Option.bind_eq_some_iff.1 hid
    cases hfind : st.status.blockInfos.find? fun e =>
        e.offset = some (i * fi.blockSizeBytes.getD 0) with
    | none =>
      refine (Option.eq_none_iff_forall_ne_some.2 fun id hid => ?_).symm
      obtain ⟨e, hi, he⟩ := hplace id hid
      have hmem : e ∈ st.status.blockInfos := hst.blockInfos.symm.subset
        (mem_values_of_distinct h.front h.distinct (mem_of_getElem? hi) he)
      exact find?_eq_none.1 hfind e hmem (decide_eq_true (h.found_of_validAt hv hi he).1)
    | some d =>
      have hd := hst.blockInfos.subset (mem_of_find?_eq_some hfind)
      have hoff : d.offset = some (i * fi.blockSizeBytes.getD 0) := by
        have hfound := find?_some hfind
        exact of_decide_eq_true hfound
      show d.validId = _
      cases hdid : d.validId with
      | some id => exact (h.at_offset (mem_of_mem_blockInfoValues hd) hdid hoff).symm
      | none =>
        refine (Option.eq_none_iff_forall_ne_some.2 fun id hid => ?_).symm
        obtain ⟨e, hi, he⟩ := hplace id hid
        exact (h.found_of_validAt hv hi he).2 d hd hoff hdid

theorem Ordered.pythonBlockId_eq (h : fi.Ordered) (hne : fi.fileBlockInfos.filterMap validId ≠ [])
    {status : URIStatus} (hst : status.FromProto fi) (path : String) :
    status.pythonBlockId i path = (fi.fileBlockInfos.filterMap validId)[i]? := by
  rw [URIStatus.pythonBlockId_eq, h.idsByOffset_values hst.blockInfos, if_pos hne]

end Ordered

section Bare

variable {fi : FileInfo} {i : Nat}

theorem blockIds_of_bare (h : ∀ e ∈ fi.fileBlockInfos, e.validId = none) :
    fi.ensureBlockIds.blockIds = fi.blockIds := by
  unfold ensureBlockIds
  split
  · rfl
  · next hcond =>
    have hnil : fi.fileBlockInfos.filterMap pair = [] := by
      rw [filterMap_eq_nil_iff]
      intro e he
      rw [pair, h e he]
      rfl
    have hids : fi.blockIds = [] := by
      by_contra hne
      exact hcond (Or.inl hne)
    show idsByOffset _ = _
    rw [idsByOffset, hnil, hids, mergeSort_nil, map_nil]

theorem agree_of_bare (h : ∀ e ∈ fi.fileBlockInfos, e.validId = none)
    {toStream : URIStatus → GoosefsFileInStream} (hstream : ∀ s, (toStream s).status = s) :
    fi.ResolversAgree toStream i ∧ fi.ResolvesListed i := by
  have hreader : fi.readerBlockId i = validAt fi.blockIds i := by
    rw [FileInfo.readerBlockId_eq, blockIds_of_bare h]
    cases hi : fi.fileBlockInfos[i]? with
    | none => rfl
    | some e =>
      rw [Option.bind_some, h e (mem_of_getElem? hi)]
      rfl
  refine ⟨⟨fun status hst => ?_, fun status path hst => ?_⟩, fun e he id hid => ?_⟩
  · rw [hreader, streamBlockId_eq, hstream, hst.blockIds, blockIds_of_bare h]
    cases validAt fi.blockIds i with
    | some id => rfl
    | none =>
      refine (Option.bind_eq_none_iff.2 fun d hd => ?_).symm
      have hmem := hst.blockInfos.subset (mem_of_find?_eq_some hd)
      exact h d (mem_of_mem_blockInfoValues hmem)
  · have hnil : idsByOffset status.blockInfos = [] := by
      refine eq_nil_of_length_eq_zero ?_
      rw [length_idsByOffset, length_eq_zero_iff, filterMap_eq_nil_iff]
      intro d hd
      exact h d (mem_of_mem_blockInfoValues (hst.blockInfos.subset hd))
    rw [hreader, URIStatus.pythonBlockId_eq, if_neg (not_not_intro hnil), hst.blockIds,
      blockIds_of_bare h]
  · cases (h e he).symm.trans hid

end Bare

/-! ## What agreement requires -/

section Agree

variable {fi : FileInfo} {toStream : URIStatus → GoosefsFileInStream} {values : List FileBlockInfo}

def statusOf (fi : FileInfo) (values : List FileBlockInfo) : URIStatus :=
  ⟨0, (fi.blockSizeBytes.getD 0).toNat, fi.ensureBlockIds.blockIds, values⟩

theorem statusOf_fromProto (hbs : 0 ≤ fi.blockSizeBytes.getD 0)
    (hperm : values.Perm (blockInfoValues fi.fileBlockInfos)) : (fi.statusOf values).FromProto fi :=
  ⟨rfl, Int.toNat_of_nonneg hbs, hperm⟩

theorem readerBlockId_of_valid {i : Nat} {id : Int}
    (h : fi.fileBlockInfos[i]?.bind validId = some id) : fi.readerBlockId i = some id := by
  rw [FileInfo.readerBlockId_eq, h]
  rfl

variable (hbs : 0 ≤ fi.blockSizeBytes.getD 0)
include hbs

theorem python_of_agree (hagree : ∀ i, fi.ResolversAgree toStream i)
    (hvalid : fi.fileBlockInfos.filterMap validId ≠ [])
    (hperm : values.Perm (blockInfoValues fi.fileBlockInfos)) (i : Nat) :
    fi.readerBlockId i = (idsByOffset values)[i]? := by
  have hne : idsByOffset values ≠ [] := by
    intro hnil
    have hlen : (idsByOffset values).length = (values.filterMap validId).length :=
      length_idsByOffset
    rw [hnil, (hperm.filterMap validId).length_eq, length_validIds_values] at hlen
    have hdedup := eq_nil_of_length_eq_zero hlen.symm
    obtain ⟨k, hk⟩ := exists_mem_of_ne_nil _ hvalid
    rw [← mem_dedup, hdedup] at hk
    cases hk
  have hpy := (hagree i).2 _ "" (statusOf_fromProto hbs hperm)
  rw [URIStatus.pythonBlockId_eq] at hpy
  rw [hpy]
  exact if_pos hne

theorem front_of_agree (hagree : ∀ i, fi.ResolversAgree toStream i)
    (hvalid : fi.fileBlockInfos.filterMap validId ≠ []) :
    Front validId fi.fileBlockInfos ∧ (fi.fileBlockInfos.filterMap validId).Nodup := by
  have hlt : ∀ (i : Nat) id, fi.fileBlockInfos[i]?.bind validId = some id →
      i < (fi.fileBlockInfos.filterMap validId).dedup.length := by
    intro i id hid
    have hpy := python_of_agree hbs hagree hvalid (Perm.refl _) i
    rw [readerBlockId_of_valid hid] at hpy
    have hi := (List.getElem?_eq_some_iff.1 hpy.symm).1
    rwa [length_idsByOffset, length_validIds_values] at hi
  have hsub := dedup_sublist (fi.fileBlockInfos.filterMap validId)
  have hdedup : (fi.fileBlockInfos.filterMap validId).dedup = fi.fileBlockInfos.filterMap validId :=
    hsub.eq_of_length_le (length_filterMap_le hlt)
  refine ⟨front_of_lt fun i id hid => ?_, dedup_eq_self.1 hdedup⟩
  exact Nat.lt_of_lt_of_le (hlt i id hid) hsub.length_le

theorem increasing_of_agree (hagree : ∀ i, fi.ResolversAgree toStream i)
    (hvalid : fi.fileBlockInfos.filterMap validId ≠ []) :
    (fi.fileBlockInfos.filterMap pair).Pairwise fun a b => a.1 < b.1 := by
  obtain ⟨hfront, hdistinct⟩ := front_of_agree hbs hagree hvalid
  have hnodup : ((fi.fileBlockInfos.filterMap pair).map Prod.snd).Nodup := by
    rw [map_snd_pairs]
    exact hdistinct
  have hsort : ∀ values : List FileBlockInfo, values.Perm (blockInfoValues fi.fileBlockInfos) →
      (values.filterMap pair).mergeSort (keyLe Prod.fst) = fi.fileBlockInfos.filterMap pair := by
    intro values hperm
    have hpairs := pairs_perm hdistinct hperm
    refine eq_of_perm_of_map_eq ((mergeSort_perm _ _).trans hpairs) ?_ hnodup
    rw [map_snd_pairs]
    refine ext_getElem? fun i => ?_
    show (idsByOffset values)[i]? = _
    cases hi : (fi.fileBlockInfos.filterMap validId)[i]? with
    | some id =>
      rw [getElem?_filterMap_of_front hfront] at hi
      rw [← python_of_agree hbs hagree hvalid hperm, readerBlockId_of_valid hi]
    | none =>
      rw [List.getElem?_eq_none_iff, length_idsByOffset, ← map_snd_pairs, length_map,
        hpairs.length_eq]
      rw [List.getElem?_eq_none_iff, ← map_snd_pairs, length_map] at hi
      exact hi
  refine pairwise_lt_of_mergeSort (hnodup.of_map _) (hsort _ (Perm.refl _)) ?_
  rw [← filterMap_reverse]
  exact hsort _ (reverse_perm _)

theorem ordered_of_agree (hstream : ∀ s, (toStream s).status = s)
    (hagree : ∀ i, fi.ResolversAgree toStream i) (hlisted : ∀ i, fi.ResolvesListed i)
    (hvalid : fi.fileBlockInfos.filterMap validId ≠ []) : fi.Ordered := by
  obtain ⟨hfront, hdistinct⟩ := front_of_agree hbs hagree hvalid
  have hincreasing := increasing_of_agree hbs hagree hvalid
  -- the reader finds valid entries only
  have hreader : ∀ (i : Nat) id, fi.readerBlockId i = some id →
      fi.fileBlockInfos[i]?.bind validId = some id := by
    intro i id hid
    rw [python_of_agree hbs hagree hvalid (Perm.refl _)] at hid
    have hsort : ((blockInfoValues fi.fileBlockInfos).filterMap pair).mergeSort (keyLe Prod.fst) =
        fi.fileBlockInfos.filterMap pair :=
      mergeSort_eq_of_pairwise_lt (pairs_perm hdistinct (Perm.refl _)) hincreasing
    rw [← getElem?_filterMap_of_front hfront, ← map_snd_pairs, ← hsort]
    exact hid
  -- what the stream finds, in every order of the map
  have hstreamed : ∀ (i : Nat) (values : List FileBlockInfo),
      values.Perm (blockInfoValues fi.fileBlockInfos) → fi.readerBlockId i =
        (validAt fi.ensureBlockIds.blockIds i <|> ((values.find? fun e =>
          e.offset = some (i * fi.blockSizeBytes.getD 0)).bind validId)) := by
    intro i values hperm
    have hst := (hagree i).1 _ (statusOf_fromProto hbs hperm)
    rw [streamBlockId_eq, blockStart, hstream, Int.natCast_mul] at hst
    rw [hst, statusOf, Int.toNat_of_nonneg hbs]
  refine ⟨hfront, hincreasing, hdistinct, ?_, ?_, ?_⟩
  · intro i e hi hne k hoff
    obtain ⟨id, hid⟩ := Option.ne_none_iff_exists'.1 hne
    have hk := hreader k id (hlisted k e (mem_of_getElem? hi) id hid hoff)
    obtain ⟨d, hkd, hd⟩ := Option.bind_eq_some_iff.1 hk
    exact place_unique hfront hdistinct hkd hi hd hid
  · intro i id hid
    have hne : fi.blockIds ≠ [] := by
      intro hnil
      rw [hnil] at hid
      cases hid
    refine hreader i id ?_
    rw [hstreamed i _ (Perm.refl _), blockIds_of_ne_nil hne, hid]
    rfl
  · intro hne i e hi hvalidE hnone
    obtain ⟨id, hid⟩ := Option.ne_none_iff_exists'.1 hvalidE
    have hfinds : ∀ values : List FileBlockInfo, values.Perm (blockInfoValues fi.fileBlockInfos) →
        (values.find? fun e => e.offset = some (i * fi.blockSizeBytes.getD 0)).bind validId =
          some id := by
      intro values hperm
      have hst := hstreamed i values hperm
      have hrd : fi.readerBlockId i = some id := readerBlockId_of_valid (by rw [hi]; exact hid)
      rw [hrd, blockIds_of_ne_nil hne, hnone] at hst
      exact hst.symm
    constructor
    · -- the entry that is found has the id of `e`, so it is `e`
      obtain ⟨d, hd, hdid⟩ := Option.bind_eq_some_iff.1 (hfinds _ (Perm.refl _))
      obtain ⟨j, hj⟩ := getElem?_of_mem
        (mem_of_mem_blockInfoValues (mem_of_find?_eq_some hd))
      have hij := place_unique hfront hdistinct hi hj hid hdid
      subst hij
      cases hi.symm.trans hj
      have hfound := find?_some hd
      exact of_decide_eq_true hfound
    · -- in an order that begins with `d`, it is the one that is found
      intro d hd hoff hdnone
      have hfirst := hfinds (d :: (blockInfoValues fi.fileBlockInfos).erase d)
        (perm_cons_erase hd).symm
      have hfind : (d :: (blockInfoValues fi.fileBlockInfos).erase d).find? (fun e =>
          e.offset = some (i * fi.blockSizeBytes.getD 0)) = some d :=
        find?_cons_of_pos (by exact decide_eq_true hoff)
      rw [hfind, Option.bind_some, hdnone] at hfirst
      cases hfirst

end Agree

/-- The reader, the stream and the Python binding always resolve one id for every
block, and the one that is listed for its offset, exactly if `file_block_infos` has
no valid id or the file is `Ordered`. -/
theorem resolvers_agree_iff (fi : FileInfo) (hbs : 0 ≤ fi.blockSizeBytes.getD 0)
    (toStream : URIStatus → GoosefsFileInStream) (hstream : ∀ s, (toStream s).status = s) :
    (∀ i, fi.ResolversAgree toStream i ∧ fi.ResolvesListed i) ↔
      (∀ e ∈ fi.fileBlockInfos, e.validId = none) ∨ fi.Ordered := by
  constructor
  · intro h
    by_cases hnil : fi.fileBlockInfos.filterMap validId = []
    · exact Or.inl (List.filterMap_eq_nil_iff.1 hnil)
    · exact Or.inr (ordered_of_agree hbs hstream (fun i => (h i).1) (fun i => (h i).2) hnil)
  · rintro (hbare | hordered) i
    · exact agree_of_bare hbare hstream
    · by_cases hnil : fi.fileBlockInfos.filterMap validId = []
      · exact agree_of_bare (List.filterMap_eq_nil_iff.1 hnil) hstream
      · refine ⟨⟨fun status hst => ?_, fun status path hst => ?_⟩, fun e he id hid hoff => ?_⟩
        · rw [hordered.readerBlockId_eq, hordered.streamBlockId_eq (by rw [hstream]; exact hst)]
        · rw [hordered.readerBlockId_eq, hordered.pythonBlockId_eq hnil hst]
        · rw [hordered.readerBlockId_eq, hordered.at_offset he hid hoff]

/-! ### Two blocks -/

def twoBlocks (infos : List FileBlockInfo) : FileInfo :=
  { folder := none, length := some 8, blockSizeBytes := some 4, blockIds := []
    fileBlockInfos := infos }

def first : FileBlockInfo := ⟨some ⟨some 7⟩, some 0⟩

def second : FileBlockInfo := ⟨some ⟨some 9⟩, some 4⟩

def plainStream (status : URIStatus) : GoosefsFileInStream :=
  .openStream status none false ⟨0, 0⟩ 1

theorem ordered_twoBlocks : (twoBlocks [first, second]).Ordered where
  front := by
    intro e he
    cases he
  increasing := by decide
  distinct := by decide
  placed := by
    intro i e hi _ k hoff
    match i with
    | 0 =>
      cases hi
      have hk : (0 : Int) = k * 4 := Option.some.inj hoff
      omega
    | 1 =>
      cases hi
      have hk : (4 : Int) = k * 4 := Option.some.inj hoff
      omega
    | i + 2 => cases hi
  listed := by
    intro i id hid
    cases hid
  found := by
    intro hne
    exact absurd rfl hne

theorem resolvers_agree_twoBlocks : (twoBlocks [first, second]).ResolversAgree plainStream 1 ∧
      (twoBlocks [first, second]).ResolvesListed 1 :=
  (resolvers_agree_iff _ (by decide) plainStream fun _ => rfl).2 (Or.inr ordered_twoBlocks) 1

theorem idsByOffset_swapped : idsByOffset [second, first] = [7, 9] := by
  have hsort : ([(4, 9), (0, 7)] : List (Int × Int)).mergeSort (keyLe Prod.fst) =
      [(0, 7), (4, 9)] :=
    mergeSort_eq_of_pairwise_lt (Perm.swap _ _ _) (by decide)
  exact congrArg (map Prod.snd) hsort

/-- If the entries are not in the order of the blocks, the reader reads the second
block in the place of the first, while the others sort. -/
theorem reader_resolves_by_place : ∃ status : URIStatus,
    status.FromProto (twoBlocks [second, first]) ∧
    (twoBlocks [second, first]).readerBlockId 0 = some 9 ∧
    (plainStream status).streamBlockId 0 = some 7 ∧ status.pythonBlockId 0 "f" = some 7 := by
  have hids : (twoBlocks [second, first]).ensureBlockIds.blockIds = [7, 9] := idsByOffset_swapped
  refine ⟨statusOf _ [second, first], statusOf_fromProto (by decide) ?_, ?_, ?_, ?_⟩
  · exact List.Perm.swap _ _ _
  · rw [FileInfo.readerBlockId_eq]
    rfl
  · rw [streamBlockId_eq]
    show (validAt (twoBlocks [second, first]).ensureBlockIds.blockIds 0 <|> _) = _
    rw [hids]
    rfl
  · have hinfos : (statusOf (twoBlocks [second, first]) [second, first]).blockInfos =
        [second, first] := rfl
    rw [URIStatus.pythonBlockId_eq, hinfos, idsByOffset_swapped]
    rfl

end FileInfo

end GooseFS
