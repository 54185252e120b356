import GooseFS.Lib.Slice
import GooseFS.Cache.PageId

/-!
# Reading through the page cache

`readThroughCache` serves `[offset, endOff)` page by page: a reply of the
expected length is used as it is, anything else reads the whole page from the
external source.  The cache is a parameter that answers the one batch request;
the source of misses is a parameter that threads its own state `σ`.  Next to the
bytes the function returns that state and the pages it handed to the cache.

Positions are natural numbers.  The source computes in `i64`, which agrees as
long as `page_size + file_length` fits.
-/

namespace GooseFS

open Lib List

/-- One page a request touches, with the part of it that is wanted. -/
structure PagePlan where
  pageIndex : Nat
  pageStart : Nat
  pageEnd : Nat
  inPageOff : Nat
  want : Nat
  deriving DecidableEq, Repr

namespace PagePlan

def pageId (fileId : String) (p : PagePlan) : PageId := ⟨fileId, p.pageIndex⟩

def request (fileId : String) (p : PagePlan) : PageReadRequest :=
  { pageId := p.pageId fileId, pageOffset := p.inPageOff, len := p.want }

def seg (p : PagePlan) : Nat × Nat := (p.pageStart + p.inPageOff, p.want)

end PagePlan

/-- The `while cur < end` loop that splits the request at page boundaries. -/
def pagePlans (pageSize fileLength endOff : Nat) : Nat → Nat → List PagePlan
  | 0, _ => []
  | fuel + 1, cur =>
    if cur < endOff then
      let pageIndex := cur / pageSize
      let pageStart := pageIndex * pageSize
      let pageEnd := min ((pageIndex + 1) * pageSize) fileLength
      let want := min endOff pageEnd - cur
      { pageIndex, pageStart, pageEnd, inPageOff := cur - pageStart, want } ::
        pagePlans pageSize fileLength endOff fuel (cur + want)
    else []

section Serve

variable {σ : Type}

/-- The miss source, `ExternalRangeReader`: reads `[offset, end)`. -/
abbrev ExternalRangeReader (σ : Type) := σ → Nat → Nat → Except Error Bytes × σ

abbrev Fills := List (PageId × Bytes)

def shortExternalRead (pageIndex got expected : Nat) : Error :=
  .internal s!"read_through_cache: short external read for page {pageIndex}: got {got} of {expected} bytes"

def zeroBytesForPage (pageIndex cur endOff : Nat) : Error :=
  .internal s!"read_through_cache: 0 bytes for page {pageIndex} (cur={cur}, end={endOff})"

def servePage (ext : ExternalRangeReader σ) (fileId : String) (endOff : Nat)
    (fillMode : FillMode) (p : PagePlan) (cachedBytes : Bytes) (s : σ) :
    Except Error Bytes × σ × Fills :=
  if cachedBytes.length = p.want then (.ok cachedBytes, s, [])
  else
    match ext s p.pageStart p.pageEnd with
    | (.error e, s) => (.error e, s, [])
    | (.ok pageBytes, s) =>
      let expected := p.pageEnd - p.pageStart
      if pageBytes.length < expected then
        (.error (shortExternalRead p.pageIndex pageBytes.length expected), s, [])
      else
        let pageBytes := if expected < pageBytes.length then slice pageBytes 0 expected else pageBytes
        let fills := if pageBytes = [] ∨ fillMode = .none then [] else [(p.pageId fileId, pageBytes)]
        let avail := pageBytes.length
        let start := min p.inPageOff avail
        let stop := min (p.inPageOff + p.want) avail
        if stop - start = 0 then
          (.error (zeroBytesForPage p.pageIndex (p.pageStart + p.inPageOff) endOff), s, fills)
        else (.ok (slice pageBytes start (stop - start)), s, fills)

def servePages (ext : ExternalRangeReader σ) (fileId : String) (endOff : Nat)
    (fillMode : FillMode) : List (PagePlan × Bytes) → σ → Except Error Bytes × σ × Fills
  | [], s => (.ok [], s, [])
  | (p, cachedBytes) :: rest, s =>
    match servePage ext fileId endOff fillMode p cachedBytes s with
    | (.error e, s, fills) => (.error e, s, fills)
    | (.ok chunk, s, fills) =>
      match servePages ext fileId endOff fillMode rest s with
      | (.error e, s, more) => (.error e, s, fills ++ more)
      | (.ok out, s, more) => (.ok (chunk ++ out), s, fills ++ more)

def readThroughCache (cached : List PageReadRequest → List Bytes) (ext : ExternalRangeReader σ)
    (fileId : String) (pageSize fileLength offset endOff : Nat) (fillMode : FillMode) (s : σ) :
    Except Error Bytes × σ × Fills :=
  let pages := pagePlans (max pageSize 1) fileLength endOff (endOff - offset) offset
  let replies := cached (pages.map (PagePlan.request fileId))
  -- a cache that answers with the wrong number of replies counts as all misses
  let replies := if replies.length = pages.length then replies else pages.map (fun _ => [])
  servePages ext fileId endOff fillMode (pages.zip replies) s

end Serve

def PagePlan.Inside (pageSize fileLength : Nat) (p : PagePlan) : Prop :=
  p.pageStart = p.pageIndex * pageSize ∧ p.pageEnd ≤ fileLength ∧ 0 < p.want ∧
    p.pageStart + p.inPageOff + p.want ≤ p.pageEnd

section Plans

variable {pageSize fileLength endOff : Nat}

theorem pagePlans_tiles (hps : 0 < pageSize) (hend : endOff ≤ fileLength) :
    ∀ (fuel cur : Nat), cur ≤ endOff → endOff - cur ≤ fuel →
      Tiles cur ((pagePlans pageSize fileLength endOff fuel cur).map PagePlan.seg) endOff ∧
        ∀ p ∈ pagePlans pageSize fileLength endOff fuel cur, p.Inside pageSize fileLength := by
  intro fuel
  induction fuel with
  | zero =>
    intro cur hle hfuel
    have hcur : cur = endOff := by omega
    exact ⟨hcur, by simp [pagePlans]⟩
  | succ fuel ih =>
    intro cur hle hfuel
    by_cases hlt : cur < endOff
    · have hstart : cur / pageSize * pageSize ≤ cur := Nat.div_mul_le_self cur pageSize
      have hstop : cur < (cur / pageSize + 1) * pageSize := by
        rw [Nat.add_one_mul]
        exact Nat.lt_div_mul_add hps
      have hwant : 0 < min endOff (min ((cur / pageSize + 1) * pageSize) fileLength) - cur := by
        omega
      obtain ⟨htiles, hmem⟩ := ih
        (cur + (min endOff (min ((cur / pageSize + 1) * pageSize) fileLength) - cur))
        (by omega) (by omega)
      rw [pagePlans, if_pos hlt]
      refine ⟨⟨by simp only; omega, hwant, htiles⟩, ?_⟩
      intro p hp
      rcases mem_cons.mp hp with rfl | hp
      · exact ⟨rfl, Nat.min_le_right _ _, hwant, by simp only; omega⟩
      · exact hmem p hp
    · have hcur : cur = endOff := by omega
      rw [pagePlans, if_neg hlt]
      exact ⟨hcur, by simp⟩

end Plans

/-! ## What is served -/

section Truth

variable {σ : Type} (file : Bytes)

/-- Every non-empty reply of the cache is the front of the bytes asked for. -/
def TrueCache (pageSize : Nat) (cached : List PageReadRequest → List Bytes) : Prop :=
  ∀ reqs : List PageReadRequest, ∀ r ∈ reqs.zip (cached reqs), r.2 ≠ [] →
    r.2 <+: slice file (r.1.pageId.pageIndex * max pageSize 1 + r.1.pageOffset) r.1.len

/-- A source that may leave bytes out but invents none and keeps their order. -/
def TrueSource (ext : ExternalRangeReader σ) : Prop :=
  ∀ s a e b, (ext s a e).1 = .ok b → b.Sublist (slice file a (e - a))

/-- A source that delivers every range inside the file unless its state turns
bad, and whose state never turns good again. -/
def FullSource (Good : σ → Prop) (ext : ExternalRangeReader σ) : Prop :=
  ∀ s a e, Good (ext s a e).2 →
    Good s ∧ (a < e → e ≤ file.length → (ext s a e).1 = .ok (slice file a (e - a)))

end Truth

section Serve

variable {σ : Type} {file : Bytes} {ext : ExternalRangeReader σ} {fileId : String}
  {pageSize endOff : Nat} {fillMode : FillMode} {Good : σ → Prop} {cachedBytes out : Bytes}
  {p : PagePlan} {s : σ} {cached : List PageReadRequest → List Bytes} {chunk : Bytes}

def HitTrue (file : Bytes) (pc : PagePlan × Bytes) : Prop :=
  pc.2.length = pc.1.want → pc.2 = slice file pc.1.seg.1 pc.1.seg.2

theorem servePage_of_page (hp : p.Inside pageSize file.length) (hmiss : cachedBytes.length ≠ p.want)
    (hext : (ext s p.pageStart p.pageEnd).1 =
      .ok (slice file p.pageStart (p.pageEnd - p.pageStart))) :
    (servePage ext fileId endOff fillMode p cachedBytes s).1 =
      .ok (slice file p.seg.1 p.seg.2) := by
  obtain ⟨_, hend, hwant, hin⟩ := hp
  have hlen : (slice file p.pageStart (p.pageEnd - p.pageStart)).length =
      p.pageEnd - p.pageStart := slice_length_of_le (by omega)
  have hres : ext s p.pageStart p.pageEnd = (_, _) := Prod.ext hext rfl
  rw [servePage, if_neg hmiss, hres]
  simp only [hlen, Nat.lt_irrefl, if_false]
  have hstart : min p.inPageOff (p.pageEnd - p.pageStart) = p.inPageOff := by omega
  have hstop : min (p.inPageOff + p.want) (p.pageEnd - p.pageStart) = p.inPageOff + p.want := by
    omega
  have hadv : p.inPageOff + p.want - p.inPageOff = p.want := by omega
  rw [hstart, hstop, hadv, if_neg (by omega), slice_slice (by omega)]
  rfl

theorem servePage_ok (hsrc : TrueSource file ext) (hp : p.Inside pageSize file.length)
    (hhit : HitTrue file (p, cachedBytes))
    (h : (servePage ext fileId endOff fillMode p cachedBytes s).1 = .ok chunk) :
    chunk = slice file p.seg.1 p.seg.2 := by
  by_cases hc : cachedBytes.length = p.want
  · rw [servePage, if_pos hc] at h
    cases h
    exact hhit hc
  · rcases hres : ext s p.pageStart p.pageEnd with ⟨_ | pageBytes, s'⟩
    · rw [servePage, if_neg hc, hres] at h
      cases h
    · have hsub := hsrc s p.pageStart p.pageEnd pageBytes (by rw [hres])
      by_cases hshort : pageBytes.length < p.pageEnd - p.pageStart
      · rw [servePage, if_neg hc, hres] at h
        simp [hshort] at h
      · -- nothing is missing, so the sublist is the whole page
        have hle := slice_length_le file p.pageStart (p.pageEnd - p.pageStart)
        have hall := hsub.eq_of_length_le (by omega)
        have hpage : (ext s p.pageStart p.pageEnd).1 =
            .ok (slice file p.pageStart (p.pageEnd - p.pageStart)) := by
          rw [hres, hall]
        have hserved := h.symm.trans (servePage_of_page hp hc hpage)
        exact Except.ok.inj hserved

theorem servePage_state (p : PagePlan) (cachedBytes : Bytes) (s : σ) :
    (servePage ext fileId endOff fillMode p cachedBytes s).2.1 =
      if cachedBytes.length = p.want then s else (ext s p.pageStart p.pageEnd).2 := by
  rw [servePage]
  by_cases hc : cachedBytes.length = p.want
  · rw [if_pos hc, if_pos hc]
  · rw [if_neg hc, if_neg hc]
    rcases ext s p.pageStart p.pageEnd with ⟨_ | pageBytes, s'⟩
    · rfl
    · simp only
      by_cases hshort : pageBytes.length < p.pageEnd - p.pageStart
      · rw [if_pos hshort]
      · rw [if_neg hshort]
        split <;> split <;> rfl

theorem servePage_full (hsrc : FullSource file Good ext) (hp : p.Inside pageSize file.length)
    (hhit : HitTrue file (p, cachedBytes))
    (hgood : Good (servePage ext fileId endOff fillMode p cachedBytes s).2.1) :
    Good s ∧ (servePage ext fileId endOff fillMode p cachedBytes s).1 =
      .ok (slice file p.seg.1 p.seg.2) := by
  rw [servePage_state] at hgood
  by_cases hc : cachedBytes.length = p.want
  · rw [if_pos hc] at hgood
    refine ⟨hgood, ?_⟩
    rw [servePage, if_pos hc]
    exact congrArg Except.ok (hhit hc)
  · rw [if_neg hc] at hgood
    obtain ⟨hgood', hpage⟩ := hsrc s p.pageStart p.pageEnd hgood
    have hin := hp.2.2.2
    have hwant := hp.2.2.1
    exact ⟨hgood', servePage_of_page hp hc (hpage (by omega) hp.2.1)⟩

theorem servePages_ok (hsrc : TrueSource file ext) :
    ∀ {pages : List (PagePlan × Bytes)} {s : σ} {out : Bytes},
      (∀ pc ∈ pages, pc.1.Inside pageSize file.length ∧ HitTrue file pc) →
      (servePages ext fileId endOff fillMode pages s).1 = .ok out →
        out = (pages.map (fun pc => pc.1.seg)).flatMap (fun g => slice file g.1 g.2) := by
  intro pages
  induction pages with
  | nil =>
    intro s out _ h
    cases h
    rfl
  | cons pc rest ih =>
    intro s out hall h
    obtain ⟨p, cachedBytes⟩ := pc
    obtain ⟨hp, hhit⟩ := hall (p, cachedBytes) (mem_cons_self ..)
    rcases hpage : servePage ext fileId endOff fillMode p cachedBytes s with ⟨_ | chunk, s₁, fills⟩
    · rw [servePages, hpage] at h
      cases h
    · have hchunk := servePage_ok hsrc hp hhit (by rw [hpage])
      rcases hrest : servePages ext fileId endOff fillMode rest s₁ with ⟨_ | out', s₂, more⟩
      · rw [servePages, hpage] at h
        simp [hrest] at h
      · have hout := ih (fun pc hpc => hall pc (mem_cons_of_mem _ hpc)) (by rw [hrest])
        rw [servePages, hpage] at h
        simp only [hrest] at h
        cases h
        rw [hchunk, hout, map_cons, flatMap_cons]

theorem servePages_full (hsrc : FullSource file Good ext) :
    ∀ {pages : List (PagePlan × Bytes)} {s : σ},
      (∀ pc ∈ pages, pc.1.Inside pageSize file.length ∧ HitTrue file pc) →
      Good (servePages ext fileId endOff fillMode pages s).2.1 →
        Good s ∧ (servePages ext fileId endOff fillMode pages s).1 =
          .ok ((pages.map (fun pc => pc.1.seg)).flatMap (fun g => slice file g.1 g.2)) := by
  intro pages
  induction pages with
  | nil => intro s _ hgood; exact ⟨hgood, rfl⟩
  | cons pc rest ih =>
    intro s hall hgood
    obtain ⟨p, cachedBytes⟩ := pc
    obtain ⟨hp, hhit⟩ := hall (p, cachedBytes) (mem_cons_self ..)
    have hfull : Good (servePage ext fileId endOff fillMode p cachedBytes s).2.1 → _ :=
      servePage_full hsrc hp hhit
    rcases hres : servePage ext fileId endOff fillMode p cachedBytes s with ⟨res, s₁, fills⟩
    rw [hres] at hfull
    rw [servePages, hres] at hgood ⊢
    cases res with
    | error e => exact absurd (hfull hgood).2 (by simp)
    | ok chunk =>
      have hrest : Good (servePages ext fileId endOff fillMode rest s₁).2.1 → _ :=
        ih (fun pc hpc => hall pc (mem_cons_of_mem _ hpc))
      rcases htail : servePages ext fileId endOff fillMode rest s₁ with ⟨res', s₂, more⟩
      rw [htail] at hrest
      simp only [htail] at hgood ⊢
      cases res' with
      | error e => exact absurd (hrest hgood).2 (by simp)
      | ok out =>
        obtain ⟨hgood₁, hout⟩ := hrest hgood
        obtain ⟨hgood₀, hchunk⟩ := hfull hgood₁
        cases hout
        cases hchunk
        exact ⟨hgood₀, rfl⟩

theorem zip_replies_true (fileId : String) (hcache : TrueCache file pageSize cached)
    {pages : List PagePlan} (hin : ∀ p ∈ pages, p.Inside (max pageSize 1) file.length)
    {replies : List Bytes}
    (hreplies : replies = if (cached (pages.map (PagePlan.request fileId))).length = pages.length
      then cached (pages.map (PagePlan.request fileId)) else pages.map (fun _ => [])) :
    (∀ pc ∈ pages.zip replies, pc.1.Inside (max pageSize 1) file.length ∧ HitTrue file pc) ∧
      (pages.zip replies).map (fun pc => pc.1.seg) = pages.map PagePlan.seg := by
  have hlen : pages.length = replies.length := by
    rw [hreplies]
    split
    · exact Eq.symm ‹_›
    · rw [length_map]
  refine ⟨?_, ?_⟩
  · rintro ⟨p, reply⟩ hpc
    have hp := hin p (of_mem_zip hpc).1
    refine ⟨hp, fun hhit => ?_⟩
    have hhit : reply.length = p.want := hhit
    have hne : reply ≠ [] := by
      rintro rfl
      have := hp.2.2.1
      simp at hhit
      omega
    rw [hreplies] at hpc
    split at hpc
    · -- the reply stands at its request's place in the batch
      have hmem : (p.request fileId, reply) ∈
          (pages.map (PagePlan.request fileId)).zip (cached (pages.map (PagePlan.request fileId))) := by
        rw [zip_map_left]
        exact mem_map_of_mem (f := Prod.map (PagePlan.request fileId) id) hpc
      have hpre := hcache _ _ hmem hne
      have hfull := (eq_slice_of_front hpre).trans (by rw [hhit])
      rw [hfull, PagePlan.seg, hp.1]
      rfl
    · have := (of_mem_zip hpc).2
      simp only [mem_map] at this
      obtain ⟨_, _, rfl⟩ := this
      exact absurd rfl hne
  · have hmap := congrArg (map PagePlan.seg) (map_fst_zip (Nat.le_of_eq hlen))
    rw [map_map] at hmap
    exact hmap

variable {offset : Nat} {cached : List PageReadRequest → List Bytes} {s : σ}

theorem readThroughCache_ok (hcache : TrueCache file pageSize cached) (hsrc : TrueSource file ext)
    (hle : offset ≤ endOff) (hend : endOff ≤ file.length)
    (h : (readThroughCache cached ext fileId pageSize file.length offset endOff
      fillMode s).1 = .ok out) : out = slice file offset (endOff - offset) := by
  have hps : 0 < max pageSize 1 := by omega
  obtain ⟨htiles, hin⟩ := pagePlans_tiles hps hend _ _ hle (Nat.le_refl _)
  obtain ⟨hall, hsegs⟩ := zip_replies_true fileId hcache hin rfl
  rw [servePages_ok hsrc hall h, hsegs, htiles.flatMap_slice]

theorem readThroughCache_full (hcache : TrueCache file pageSize cached)
    (hsrc : FullSource file Good ext) (hle : offset ≤ endOff) (hend : endOff ≤ file.length)
    (hgood : Good (readThroughCache cached ext fileId pageSize file.length offset endOff
      fillMode s).2.1) :
    Good s ∧ (readThroughCache cached ext fileId pageSize file.length offset endOff
      fillMode s).1 = .ok (slice file offset (endOff - offset)) := by
  have hps : 0 < max pageSize 1 := by omega
  obtain ⟨htiles, hin⟩ := pagePlans_tiles hps hend _ _ hle (Nat.le_refl _)
  obtain ⟨hall, hsegs⟩ := zip_replies_true fileId hcache hin rfl
  obtain ⟨hgood₀, hres⟩ := servePages_full hsrc hall hgood
  rw [hsegs, htiles.flatMap_slice] at hres
  exact ⟨hgood₀, hres⟩

/-! ## No empty answers -/

theorem servePage_ne_nil (hwant : 0 < p.want)
    (h : (servePage ext fileId endOff fillMode p cachedBytes s).1 = .ok chunk) : chunk ≠ [] := by
  rw [servePage] at h
  split at h
  case isTrue hc =>
    cases h
    exact ne_nil_of_length_pos (hc ▸ hwant)
  case isFalse hc =>
    rcases hres : ext s p.pageStart p.pageEnd with ⟨_ | pageBytes, s'⟩
    · rw [hres] at h
      cases h
    · rw [hres] at h
      simp only at h
      split at h
      · cases h
      · generalize (if p.pageEnd - p.pageStart < pageBytes.length then
          slice pageBytes 0 (p.pageEnd - p.pageStart) else pageBytes) = page at h
        split at h
        · cases h
        · -- the part handed out lies inside the page, so it has its full length
          rename_i hadv
          cases h
          refine ne_nil_of_length_pos ?_
          rw [slice_length_of_le (by omega)]
          omega

theorem servePages_cons_ne_nil (hwant : 0 < p.want) {rest : List (PagePlan × Bytes)}
    (h : (servePages ext fileId endOff fillMode ((p, cachedBytes) :: rest) s).1 = .ok out) :
    out ≠ [] := by
  rw [servePages] at h
  rcases hpage : servePage ext fileId endOff fillMode p cachedBytes s with ⟨_ | chunk, s₁, fills⟩
  · rw [hpage] at h
    cases h
  · have hchunk := servePage_ne_nil hwant (congrArg Prod.fst hpage)
    rw [hpage] at h
    rcases hrest : servePages ext fileId endOff fillMode rest s₁ with ⟨_ | tail, s₂, more⟩
    · simp [hrest] at h
    · simp only [hrest] at h
      cases h
      exact append_ne_nil_of_left_ne_nil hchunk tail

theorem readThroughCache_ne_nil {fileLength offset : Nat} (hlt : offset < endOff)
    (hend : endOff ≤ fileLength)
    (h : (readThroughCache cached ext fileId pageSize fileLength offset endOff
      fillMode s).1 = .ok out) : out ≠ [] := by
  have hps : 0 < max pageSize 1 := by omega
  obtain ⟨htiles, hin⟩ := pagePlans_tiles hps hend (endOff - offset) offset (by omega) (by omega)
  rw [readThroughCache] at h
  cases hpages : pagePlans (max pageSize 1) fileLength endOff (endOff - offset) offset with
  | nil =>
    rw [hpages] at htiles
    have : offset = endOff := htiles
    omega
  | cons p rest =>
    have hwant : 0 < p.want := (hin p (hpages ▸ mem_cons_self ..)).2.2.1
    rw [hpages] at h
    split at h
    case isTrue hlen =>
      cases hreplies : cached ((p :: rest).map (PagePlan.request fileId)) with
      | nil =>
        rw [hreplies] at hlen
        cases hlen
      | cons reply replies =>
        rw [hreplies, zip_cons_cons] at h
        exact servePages_cons_ne_nil hwant h
    case isFalse hlen =>
      rw [map_cons, zip_cons_cons] at h
      exact servePages_cons_ne_nil hwant h

end Serve

end GooseFS
