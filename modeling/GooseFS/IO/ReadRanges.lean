import GooseFS.IO.RangeReads
import GooseFS.IO.RangeCoalesce

/-!
# Reading many ranges at once

`read_ranges_with_context` reads each range on its own, or, with coalescing
enabled, reads the planner's merged fetches and cuts the ranges out of them.
The documentation promises the same bytes either way.

That holds for ranges that end inside the file.  A range that reaches past the
end is clamped when it is read alone; its merged fetch is clamped as well, and
then the length check on fetches turns the whole call into an error.
`coalesced_transparent_iff` is the exact condition.
-/

namespace GooseFS

open Lib RangeCoalesce GoosefsFileReader List

/-- What the calls of one `read_ranges` meet: the metadata of the file, the
state of the router, and for the `k`-th range read its own world. -/
structure RangeContext where
  fi : FileInfo
  path : String
  workersEmpty : Bool
  worlds : Nat → ReadWorld

structure CoalesceConfig where
  rangeCoalesceEnabled : Bool
  rangeCoalesceGapBytes : UInt64
  rangeCoalesceMaxBytes : UInt64
  deriving DecidableEq, Repr

namespace RangeContext

variable (ctx : RangeContext)

/-- `read_range_with_context`, as the `k`-th read of the call. -/
def readRange (k : Nat) (offset len : UInt64) : Except Error Bytes :=
  (openAndReadAll (ctx.worlds k) ctx.fi ctx.path ctx.workersEmpty
    (some (offset.toNat, len.toNat)) none).1

def readEach : List (UInt64 × UInt64) → Nat → Except Error (List Bytes)
  | [], _ => .ok []
  | (off, len) :: rest, k =>
    if len = 0 then do
      let out ← readEach rest k
      return [] :: out
    else do
      let bytes ← ctx.readRange k off len
      let out ← readEach rest (k + 1)
      return bytes :: out

def shortFetch (f : MergedFetch) (got : Nat) : Error :=
  .blockIoError s!"read_ranges: merged fetch (offset={f.offset}, len={f.len}) returned {got} bytes"

def fetchAll : List MergedFetch → Nat → Except Error (List Bytes)
  | [], _ => .ok []
  | f :: rest, k => do
    let bytes ← ctx.readRange k f.offset f.len
    if bytes.length ≠ f.len.toNat then .error (shortFetch f bytes.length)
    else do
      let out ← fetchAll rest (k + 1)
      return bytes :: out

/-- Cut one range out of its fetch.  `none` is a panic: an index out of bounds,
or a slice whose end is wrapped below its start or lies past the buffer. -/
def splice (fetchBufs : List Bytes) (s : SliceMap) : Option Bytes :=
  match s.fetchIndex with
  | none => some []
  | some k =>
    match fetchBufs[k]? with
    | none => none
    | some src =>
      let stop := s.offsetInFetch + s.len
      if s.offsetInFetch ≤ stop ∧ stop.toNat ≤ src.length then
        some (slice src s.offsetInFetch.toNat (stop.toNat - s.offsetInFetch.toNat))
      else none

def spliceFromPlan (p : CoalescePlan) (fetchBufs : List Bytes) : Option (List Bytes) :=
  p.slices.mapM (splice fetchBufs)

/-- The result of a call; `none` is a panic. -/
def readRangesWithContext (cfg : CoalesceConfig) (ranges : List (UInt64 × UInt64)) :
    Option (Except Error (List Bytes)) :=
  if cfg.rangeCoalesceEnabled then
    let p := plan ranges cfg.rangeCoalesceGapBytes cfg.rangeCoalesceMaxBytes
    match ctx.fetchAll p.fetches 0 with
    | .error e => some (.error e)
    | .ok bufs => (spliceFromPlan p bufs).map .ok
  else some (ctx.readEach ranges 0)

/-- Coalescing shows in neither the bytes nor the failures of a call. -/
def Transparent (gap maxBytes : UInt64) (ranges : List (UInt64 × UInt64)) : Prop :=
  (∀ out, ctx.readRangesWithContext ⟨true, gap, maxBytes⟩ ranges = some (.ok out) →
    ctx.readRangesWithContext ⟨false, gap, maxBytes⟩ ranges = some (.ok out)) ∧
  ((∀ out, ctx.readRangesWithContext ⟨true, gap, maxBytes⟩ ranges ≠ some (.ok out)) →
    ∃ r ∈ ranges, 0 < r.2 ∧ ∃ k e, ctx.readRange k r.1 r.2 = .error e)

/-- Workers return the requested bytes, in every read of the call. -/
structure Serves (store : Int → Bytes) (file : Bytes) : Prop where
  describes : Describes ctx.fi store file
  honest : ∀ k, (ctx.worlds k).Honest store file none
  serves : ∀ k n, ((ctx.worlds k).workers n).Serves store

theorem Serves.length_lt {ctx : RangeContext} {store : Int → Bytes} {file : Bytes}
    (hs : ctx.Serves store file) :
    file.length < 2 ^ 64 := by
  rw [← hs.describes.length, FileInfo.fileLength, asU64]
  omega

def Openable : Prop := ctx.fi.folder.getD false = false ∧ ctx.workersEmpty = false

/-! ## Single reads and fetches -/

section Reads

variable {ctx} {store : Int → Bytes} {file : Bytes}

def part (ctx : RangeContext) (file : Bytes) (offset len : UInt64) : Bytes :=
  resolvedPart ctx.fi file offset.toNat len.toNat

theorem openInner_ok (ho : ctx.Openable) (range : Option (Nat × Nat)) :
    ∃ r, openInner ctx.fi ctx.path ctx.workersEmpty range none = .ok r := by
  rw [openInner, FileInfo.rejectDirectory, ho.1, ho.2]
  exact ⟨_, rfl⟩

theorem readRange_ok (hs : ctx.Serves store file) (ho : ctx.Openable) (k : Nat) (off len : UInt64) :
    ctx.readRange k off len = .ok (ctx.part file off len) := by
  obtain ⟨r, hopen⟩ := openInner_ok ho (some (off.toNat, len.toNat))
  have hread := openAndReadAll_serves hs.describes (hs.honest k) (hs.serves k) hopen
  rw [readRange, hread]
  exact congrArg Except.ok (resolvedPart_clamp off.toNat len.toNat)

theorem readRange_error (ho : ¬ ctx.Openable) (k : Nat) (off len : UInt64) :
    ∃ e, ctx.readRange k off len = .error e := by
  rw [readRange, openAndReadAll, openInner, FileInfo.rejectDirectory]
  cases hdir : ctx.fi.folder.getD false with
  | true => exact ⟨_, rfl⟩
  | false =>
    cases hempty : ctx.workersEmpty with
    | true => exact ⟨_, rfl⟩
    | false => exact absurd ⟨hdir, hempty⟩ ho

theorem readEach_ok (hs : ctx.Serves store file) (ho : ctx.Openable) :
    ∀ (ranges : List (UInt64 × UInt64)) (k : Nat),
      ctx.readEach ranges k = .ok (ranges.map fun r => ctx.part file r.1 r.2)
  | [], _ => rfl
  | (off, len) :: rest, k => by
    rw [readEach]
    by_cases hlen : len = 0
    · rw [if_pos hlen, readEach_ok hs ho rest k, hlen]
      rfl
    · rw [if_neg hlen, readRange_ok hs ho, readEach_ok hs ho rest (k + 1)]
      rfl

theorem fetchAll_ok (hs : ctx.Serves store file) (ho : ctx.Openable) :
    ∀ {fetches : List MergedFetch} (k : Nat),
      (∀ f ∈ fetches, (ctx.part file f.offset f.len).length = f.len.toNat) →
        ctx.fetchAll fetches k = .ok (fetches.map fun f => ctx.part file f.offset f.len) := by
  intro fetches
  induction fetches with
  | nil => intro k _; rfl
  | cons f rest ih =>
    intro k hall
    have hlen := hall f (mem_cons_self ..)
    have hrest := ih (k + 1) fun g hg => hall g (mem_cons_of_mem _ hg)
    rw [fetchAll, readRange_ok hs ho, hrest]
    simp [bind, Except.bind, pure, Except.pure, hlen]

theorem fetchAll_full (hs : ctx.Serves store file) (ho : ctx.Openable) :
    ∀ {fetches : List MergedFetch} {k : Nat} {bufs : List Bytes},
      ctx.fetchAll fetches k = .ok bufs →
        ∀ f ∈ fetches, (ctx.part file f.offset f.len).length = f.len.toNat := by
  intro fetches
  induction fetches with
  | nil => intro k bufs _ f hf; cases hf
  | cons f rest ih =>
    intro k bufs h g hg
    rw [fetchAll, readRange_ok hs ho] at h
    by_cases hlen : (ctx.part file f.offset f.len).length = f.len.toNat
    · rcases mem_cons.mp hg with rfl | hg
      · exact hlen
      · cases hrest : ctx.fetchAll rest (k + 1) with
        | error e => simp [bind, Except.bind, hlen, hrest] at h
        | ok out => exact ih hrest g hg
    · simp [bind, Except.bind, hlen] at h

theorem fetchAll_error (ho : ¬ ctx.Openable) (f : MergedFetch) (rest : List MergedFetch) (k : Nat) :
    ∃ e, ctx.fetchAll (f :: rest) k = .error e := by
  obtain ⟨e, he⟩ := readRange_error ho k f.offset f.len
  exact ⟨e, by rw [fetchAll, he]; rfl⟩

end Reads

section Splice

theorem mapM_eq_some_iff {α β : Type} {f : α → Option β} : ∀ {xs : List α} {ys : List β},
    xs.mapM f = some ys ↔ Forall₂ (fun x y => f x = some y) xs ys := by
  intro xs
  induction xs with
  | nil => intro ys; cases ys <;> simp
  | cons x xs ih =>
    intro ys
    rw [mapM_cons]
    cases hx : f x with
    | none => cases ys <;> simp [hx]
    | some y =>
      cases hxs : xs.mapM f with
      | none =>
        have hno : ∀ ys, ¬ Forall₂ (fun x y => f x = some y) xs ys := fun ys h => by
          rw [ih.mpr h] at hxs
          cases hxs
        cases ys <;> simp [hx, hno]
      | some out => cases ys <;> simp [hx, hxs, ← ih]

variable {bufs : List Bytes} {k : Nat} {len off : UInt64}

theorem splice_length {b : Bytes} (h : splice bufs ⟨some k, off, len⟩ = some b) :
    b.length = len.toNat := by
  rw [splice] at h
  cases hk : bufs[k]? with
  | none => simp [hk] at h
  | some src =>
    simp only [hk] at h
    split at h
    · rename_i hcond
      have hle := UInt64.le_iff_toNat_le.mp hcond.1
      cases h
      rw [slice_length_of_le (by omega)]
      have hoff := UInt64.toNat_lt off
      have hlen := UInt64.toNat_lt len
      rw [UInt64.toNat_add] at hle ⊢
      omega
    · cases h

theorem splice_ok {src : Bytes} (hk : bufs[k]? = some src)
    (hin : off.toNat + len.toNat ≤ src.length) (hsrc : src.length < 2 ^ 64) :
    splice bufs ⟨some k, off, len⟩ = some (slice src off.toNat len.toNat) := by
  have hadd : (off + len).toNat = off.toNat + len.toNat := toNat_add_of_le hsrc hin
  have hle : off ≤ off + len := by
    rw [UInt64.le_iff_toNat_le, hadd]
    omega
  rw [splice]
  simp only [hk]
  rw [if_pos ⟨hle, by omega⟩, hadd, Nat.add_sub_cancel_left]

end Splice

/-! ## Transparency -/

section Transparency

variable {ctx} {store : Int → Bytes} {file : Bytes} {gap maxBytes : UInt64}
  {ranges : List (UInt64 × UInt64)} {out : List Bytes}

theorem readRanges_disabled (hs : ctx.Serves store file) (ho : ctx.Openable) :
    ctx.readRangesWithContext ⟨false, gap, maxBytes⟩ ranges =
      some (.ok (ranges.map fun r => ctx.part file r.1 r.2)) := by
  rw [readRangesWithContext, if_neg (by simp), readEach_ok hs ho]

theorem readRanges_enabled_ok
    (h : ctx.readRangesWithContext ⟨true, gap, maxBytes⟩ ranges = some (.ok out)) :
    ∃ bufs, ctx.fetchAll (plan ranges gap maxBytes).fetches 0 = .ok bufs ∧
      Forall₂ (fun s b => splice bufs s = some b) (plan ranges gap maxBytes).slices out := by
  rw [readRangesWithContext, if_pos rfl] at h
  cases hfetch : ctx.fetchAll (plan ranges gap maxBytes).fetches 0 with
  | error e => simp [hfetch] at h
  | ok bufs =>
    simp only [hfetch] at h
    obtain ⟨out', hsplice, hout⟩ := Option.map_eq_some_iff.mp h
    cases hout
    exact ⟨bufs, rfl, mapM_eq_some_iff.mp hsplice⟩

theorem readRanges_enabled_length
    (h : ctx.readRangesWithContext ⟨true, gap, maxBytes⟩ ranges = some (.ok out)) {i : Nat}
    {r : UInt64 × UInt64} (hr : ranges[i]? = some r) (hpos : 0 < r.2) :
    ∃ b, out[i]? = some b ∧ b.length = r.2.toNat := by
  obtain ⟨bufs, _, hall⟩ := readRanges_enabled_ok h
  obtain ⟨hlen, hslices⟩ := plan_slices_shape ranges gap maxBytes
  obtain ⟨k, off, hslice⟩ := (hslices i r hr).1 hpos
  obtain ⟨hi, hslice⟩ := List.getElem?_eq_some_iff.mp hslice
  have hi' : i < out.length := hall.length_eq ▸ hi
  have hb := hall.get hi hi'
  simp only [get_eq_getElem, hslice] at hb
  exact ⟨out[i], getElem?_eq_getElem hi', splice_length hb⟩

/-- When the ranges end inside the file and the fetches resolve, the coalesced
call returns what the single reads return. -/
theorem readRanges_enabled_eq (hs : ctx.Serves store file) (ho : ctx.Openable)
    (hin : ∀ r ∈ ranges, 0 < r.2 → r.1.toNat + r.2.toNat ≤ file.length)
    (hres : ∀ f ∈ (plan ranges gap maxBytes).fetches, ∀ x, f.offset.toNat ≤ x →
      x < f.offset.toNat + f.len.toNat → ctx.fi.Resolves (x / ctx.fi.blockSize)) :
    ctx.readRangesWithContext ⟨true, gap, maxBytes⟩ ranges =
      some (.ok (ranges.map fun r => ctx.part file r.1 r.2)) := by
  have hbound := hs.length_lt
  obtain ⟨hfetches, hplaced⟩ := plan_placed gap maxBytes hbound hin
  obtain ⟨hlen, hslices⟩ := plan_slices_shape ranges gap maxBytes
  -- each fetch is the slice of the file it names
  have hpart : ∀ f ∈ (plan ranges gap maxBytes).fetches,
      ctx.part file f.offset f.len = slice file f.offset.toNat f.len.toNat :=
    fun f hf => resolvedPart_of_resolves (hres f hf)
  have hfull : ∀ f ∈ (plan ranges gap maxBytes).fetches,
      (ctx.part file f.offset f.len).length = f.len.toNat := fun f hf => by
    rw [hpart f hf, slice_length_of_le (hfetches f hf)]
  rw [readRangesWithContext, if_pos rfl]
  simp only [fetchAll_ok hs ho 0 hfull, spliceFromPlan]
  refine congrArg (Option.map Except.ok) (mapM_eq_some_iff.mpr ?_)
  refine forall₂_iff_get.mpr ⟨by rw [length_map, hlen], fun i hi hi' => ?_⟩
  have hir : i < ranges.length := hlen ▸ hi
  have hr : ranges[i]? = some ranges[i] := getElem?_eq_getElem hir
  rw [get_eq_getElem, get_eq_getElem, getElem_map]
  by_cases hpos : 0 < ranges[i].2
  · obtain ⟨k, off, f, hslice, hf, hoff, hle⟩ := hplaced ⟨i, ranges[i].1, ranges[i].2⟩
      (mem_sortedInputs.mpr ⟨hr, hpos⟩)
    have hslice := (List.getElem?_eq_some_iff.mp hslice).2
    have hfmem := mem_of_getElem? hf
    have hsrc : ((plan ranges gap maxBytes).fetches.map fun f => ctx.part file f.offset f.len)[k]? =
        some (slice file f.offset.toNat f.len.toNat) := by
      rw [getElem?_map, hf, Option.map_some, hpart f hfmem]
    have hsrclen := slice_length_of_le (hfetches f hfmem)
    simp only at hslice hoff hle
    have hinside := hfetches f hfmem
    simp only [MergedFetch.Inside] at hinside
    rw [hslice, splice_ok hsrc (by omega) (by omega), slice_slice hle, hoff]
    refine congrArg some (Eq.symm (resolvedPart_of_resolves fun x hx hlt => ?_))
    have hx : ranges[i].1.toNat ≤ x := hx
    have hlt : x < ranges[i].1.toNat + ranges[i].2.toNat := hlt
    exact hres f hfmem x (by omega) (by omega)
  · have hzero : ranges[i].2.toNat = 0 := by
      have := UInt64.lt_iff_toNat_lt.not.mp hpos
      simpa using this
    have hslice := (List.getElem?_eq_some_iff.mp ((hslices i _ hr).2 hpos)).2
    rw [hslice, part, hzero]
    rfl

theorem transparent_of_not_openable (ho : ¬ ctx.Openable) : ctx.Transparent gap maxBytes ranges := by
  obtain ⟨hlen, hslices⟩ := plan_slices_shape ranges gap maxBytes
  by_cases hall : ∀ r ∈ ranges, ¬ 0 < r.2
  · -- nothing is read: both calls return empty buffers
    have hsorted : sortedInputs ranges = [] := eq_nil_iff_forall_not_mem.mpr fun x hx =>
      hall _ (mem_of_getElem? (mem_sortedInputs.mp hx).1) (mem_sortedInputs.mp hx).2
    have hplan : (plan ranges gap maxBytes).fetches = [] := by rw [plan, hsorted]; rfl
    have hslice : (plan ranges gap maxBytes).slices = ranges.map fun _ => emptySlice := by
      rw [plan, hsorted]; rfl
    have henabled : ctx.readRangesWithContext ⟨true, gap, maxBytes⟩ ranges =
        some (.ok (ranges.map fun _ => [])) := by
      rw [readRangesWithContext, if_pos rfl]
      simp only [hplan, fetchAll, spliceFromPlan, hslice]
      refine congrArg (Option.map Except.ok) (mapM_eq_some_iff.mpr ?_)
      exact forall₂_map_left_iff.mpr (forall₂_map_right_iff.mpr
        (forall₂_same.mpr fun r _ => rfl))
    have hdisabled : ∀ (rs : List (UInt64 × UInt64)) (k : Nat), (∀ r ∈ rs, ¬ 0 < r.2) →
        ctx.readEach rs k = .ok (rs.map fun _ => []) := by
      intro rs
      induction rs with
      | nil => intro k _; rfl
      | cons r rest ih =>
        intro k hrs
        have hzero : r.2 = 0 := by
          have := hrs r (mem_cons_self ..)
          simpa using this
        rw [readEach, if_pos hzero, ih k fun q hq => hrs q (mem_cons_of_mem _ hq)]
        rfl
    refine ⟨fun out h => ?_, fun h => absurd henabled (h _)⟩
    rw [← h, henabled, readRangesWithContext, if_neg (by simp), hdisabled ranges 0 hall]
  · push Not at hall
    obtain ⟨r, hr, hpos⟩ := hall
    obtain ⟨e, he⟩ := readRange_error ho 0 r.1 r.2
    refine ⟨fun out h => ?_, fun _ => ⟨r, hr, hpos, 0, e, he⟩⟩
    -- a non-empty range sits in a fetch, and no fetch can be read
    obtain ⟨bufs, hfetch, hforall⟩ := readRanges_enabled_ok h
    obtain ⟨i, hi, hir⟩ := getElem_of_mem hr
    obtain ⟨b, hb, hblen⟩ := readRanges_enabled_length h (getElem?_eq_getElem hi) (hir ▸ hpos)
    cases hf : (plan ranges gap maxBytes).fetches with
    | cons f rest =>
      rw [hf] at hfetch
      obtain ⟨e', he'⟩ := fetchAll_error ho f rest 0
      rw [he'] at hfetch
      cases hfetch
    | nil =>
      rw [hf] at hfetch
      cases hfetch
      obtain ⟨k, off, hslice⟩ := (hslices i _ (getElem?_eq_getElem hi)).1 (hir ▸ hpos)
      obtain ⟨his, hslice⟩ := List.getElem?_eq_some_iff.mp hslice
      have hget := hforall.get his (hforall.length_eq ▸ his)
      simp [hslice, splice] at hget

/-- Coalescing is transparent exactly when the file cannot be opened at all, or
every non-empty range ends inside the file and every merged fetch stays on
blocks with a valid id. -/
theorem transparent_iff (hs : ctx.Serves store file) :
    ctx.Transparent gap maxBytes ranges ↔ ¬ ctx.Openable ∨
      ((∀ r ∈ ranges, 0 < r.2 → r.1.toNat + r.2.toNat ≤ file.length) ∧
        ∀ f ∈ (plan ranges gap maxBytes).fetches, ∀ x, f.offset.toNat ≤ x →
          x < f.offset.toNat + f.len.toNat → ctx.fi.Resolves (x / ctx.fi.blockSize)) := by
  by_cases ho : ctx.Openable
  · constructor
    · rintro ⟨hsame, hfail⟩
      refine Or.inr ?_
      -- single reads do not fail here, so the coalesced call has succeeded
      have hok : ∃ out, ctx.readRangesWithContext ⟨true, gap, maxBytes⟩ ranges =
          some (.ok out) := by
        by_contra hno
        push Not at hno
        obtain ⟨r, _, _, k, e, he⟩ := hfail hno
        rw [readRange_ok hs ho] at he
        cases he
      obtain ⟨out, hout⟩ := hok
      have hdisabled := hsame out hout
      rw [readRanges_disabled hs ho] at hdisabled
      cases hdisabled
      refine ⟨fun r hr hpos => ?_, fun f hf x hx hlt => ?_⟩
      · obtain ⟨i, hi, hir⟩ := getElem_of_mem hr
        have hget := getElem?_eq_getElem hi
        obtain ⟨b, hb, hblen⟩ := readRanges_enabled_length hout hget (hir ▸ hpos)
        rw [getElem?_map, hget, Option.map_some, hir] at hb
        cases hb
        rw [hir] at hblen
        have hwhole := resolvedPart_length_eq.mp hblen
        have hlast := (hwhole (r.1.toNat + r.2.toNat - 1)
          (by have := UInt64.lt_iff_toNat_lt.mp hpos; simp at this; omega)
          (by have := UInt64.lt_iff_toNat_lt.mp hpos; simp at this; omega)).1
        omega
      · obtain ⟨bufs, hfetch, _⟩ := readRanges_enabled_ok hout
        exact (resolvedPart_length_eq.mp (fetchAll_full hs ho hfetch f hf) x hx hlt).2
    · rintro (hno | ⟨hin, hres⟩)
      · exact absurd ho hno
      · have heq := readRanges_enabled_eq hs ho hin hres
        refine ⟨fun out h => ?_, fun h => absurd heq (h _)⟩
        rw [readRanges_disabled hs ho, ← h, heq]
  · exact ⟨fun _ => Or.inl ho, fun _ => transparent_of_not_openable ho⟩

/-- The exact condition, and its reading for a file whose blocks all have valid
ids: every non-empty range ends inside the file. -/
theorem coalesced_transparent_iff (hs : ctx.Serves store file) (gap maxBytes : UInt64)
    (ranges : List (UInt64 × UInt64)) :
    (ctx.Transparent gap maxBytes ranges ↔ ¬ ctx.Openable ∨
      ((∀ r ∈ ranges, 0 < r.2 → r.1.toNat + r.2.toNat ≤ file.length) ∧
        ∀ f ∈ (plan ranges gap maxBytes).fetches, ∀ x, f.offset.toNat ≤ x →
          x < f.offset.toNat + f.len.toNat → ctx.fi.Resolves (x / ctx.fi.blockSize))) ∧
    (ctx.Openable → ctx.fi.AllResolve → (ctx.Transparent gap maxBytes ranges ↔
        ∀ r ∈ ranges, 0 < r.2 → r.1.toNat + r.2.toNat ≤ file.length)) := by
  refine ⟨transparent_iff hs, fun ho hall => ?_⟩
  rw [transparent_iff hs]
  constructor
  · rintro (hno | ⟨hin, _⟩)
    · exact absurd ho hno
    · exact hin
  · intro hin
    have hlen := hs.describes.length
    refine Or.inr ⟨hin, fun f hf x hx hlt => hall x ?_⟩
    have hinside : f.offset.toNat + f.len.toNat ≤ file.length :=
      (plan_placed gap maxBytes hs.length_lt hin).1 f hf
    omega

def smallContext : RangeContext :=
  { fi := smallInfo, path := "/f", workersEmpty := false,
    worlds := fun _ => exactWorld smallStore }

theorem smallContext_serves : smallContext.Serves smallStore [1, 2, 3, 4, 5] where
  describes := smallInfo_describes
  honest := fun _ => exactWorld_honest _ _ none
  serves := fun _ n => exactWorld_serves _ n

theorem coalesced_transparent_small :
    smallContext.readRangesWithContext ⟨true, 4, 100⟩ [(3, 2), (0, 2)] =
        some (.ok [[4, 5], [1, 2]]) ∧
      smallContext.Transparent 4 100 [(3, 2), (0, 2)] := by
  have hall : ∀ x, x < 5 → smallContext.fi.Resolves (x / smallContext.fi.blockSize) := by decide
  refine ⟨rfl, ?_⟩
  exact ((coalesced_transparent_iff smallContext_serves 4 100 [(3, 2), (0, 2)]).2 ⟨rfl, rfl⟩
    hall).mpr (by simp)

/-- The range `[3, 7)` of a file of five bytes, read with `[0, 2)`: alone it
gives the two bytes there are, coalesced the whole call fails. -/
theorem coalesced_fails_past_end : smallContext.Serves smallStore [1, 2, 3, 4, 5] ∧
      smallContext.readRangesWithContext ⟨false, 4, 100⟩ [(0, 2), (3, 4)] =
        some (.ok [[1, 2], [4, 5]]) ∧
      ∃ e, smallContext.readRangesWithContext ⟨true, 4, 100⟩ [(0, 2), (3, 4)] = some (.error e) :=
  ⟨smallContext_serves, rfl, _, rfl⟩

end Transparency

end RangeContext

end GooseFS
