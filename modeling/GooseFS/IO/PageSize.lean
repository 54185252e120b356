import GooseFS.Config
import GooseFS.Cache.RangeRead
import GooseFS.IO.AttachCache
import GooseFS.IO.FileReader

/-!
# The page size of readers and of the cache

A reader takes the page size from the configuration as it stands, and
`read_through_cache` counts in pages of one byte if it is zero.  The options of the
cache manager replace a zero by one mebibyte, and validation does not look at it.
`one_page_size_iff`: all of them use one page size, and every page that a reader fills
is a page of the manager, exactly if the configured size is not zero.
-/

namespace GooseFS

open Lib List

def cacheFillMode (cacheFill cacheAsyncWrite : Bool) : FillMode :=
  if !cacheFill then .none else if cacheAsyncWrite then .async else .sync

def GoosefsFileInStream.openCache (c : GoosefsConfig) (cacheManager : Option Nat) (fileId : Int)
    (noCache : Bool) : Option PageCache :=
  if pageCacheEligible fileId then
    cacheManager.map fun _ =>
      ⟨toString fileId, c.clientCachePageSize,
        cacheFillMode (!noCache) c.clientCacheAsyncWriteEnabled⟩
  else none

def ReaderCache.pageCache (r : ReaderCache) : Option PageCache :=
  r.cache.map fun _ => ⟨r.cacheFileId, r.cachePageSize, cacheFillMode r.cacheFill r.cacheAsyncWrite⟩

def GoosefsConfig.readerContext (c : GoosefsConfig) (cacheManager : Option Nat) : ReaderContext :=
  ⟨cacheManager, c.clientCacheAsyncWriteEnabled, c.clientCachePageSize⟩

/-- The cache handles of the readers that a context with configuration `c` opens. -/
inductive OpenedUnder (c : GoosefsConfig) : PageCache → Prop where
  | inStream {cacheManager : Option Nat} {fileId : Int} {noCache : Bool} {handle : PageCache} :
    GoosefsFileInStream.openCache c cacheManager fileId noCache = some handle →
    OpenedUnder c handle
  | reader {cacheManager : Option Nat} {info : InodeInfo} {usePageCache : Bool}
    {built : ReaderCache} {handle : PageCache} :
    ((Attach.start (c.readerContext cacheManager) info usePageCache).reader built).pageCache =
      some handle →
    OpenedUnder c handle

theorem OpenedUnder.pageSize {c : GoosefsConfig} {handle : PageCache} (h : OpenedUnder c handle) :
    handle.pageSize = c.clientCachePageSize := by
  cases h with
  | inStream h =>
    unfold GoosefsFileInStream.openCache at h
    split at h
    · obtain ⟨_, _, rfl⟩ := Option.map_eq_some_iff.mp h
      rfl
    · cases h
  | @reader cacheManager info usePageCache built _ h =>
    obtain ⟨_, hcache, rfl⟩ := Option.map_eq_some_iff.mp h
    have hctx : (Attach.start (c.readerContext cacheManager) info usePageCache).ctx =
        c.readerContext cacheManager := by
      simp only [Attach.start]
      split <;> rfl
    unfold Attach.reader at hcache ⊢
    split at hcache
    · next heligible =>
      rw [if_pos heligible, hctx]
      rfl
    · cases hcache

/-! ## What the readers fill -/

section Fills

variable {σ : Type} {file : Bytes} {ext : ExternalRangeReader σ} {fileId : String}
  {pageSize endOff : Nat} {fillMode : FillMode} {fill : PageId × Bytes}

def pageContent (file : Bytes) (pageSize i : Nat) : Bytes :=
  slice file (i * pageSize) (min ((i + 1) * pageSize) file.length - i * pageSize)

theorem servePage_fills (hsrc : HonestSource file ext) {p : PagePlan}
    (hp : p.Inside pageSize file.length) {cachedBytes : Bytes} {s : σ}
    (h : fill ∈ (servePage ext fileId endOff fillMode p cachedBytes s).2.2) :
    fill = (p.pageId fileId, slice file p.pageStart (p.pageEnd - p.pageStart)) := by
  by_cases hmiss : cachedBytes.length = p.want
  · rw [servePage, if_pos hmiss] at h
    cases h
  · cases hext : (ext s p.pageStart p.pageEnd).1 with
    | error e =>
      rw [servePage_refused hmiss hext] at h
      cases h
    | ok b =>
      by_cases hfull : p.pageEnd - p.pageStart ≤ b.length
      · rw [servePage_read hsrc hp hmiss hext hfull] at h
        simp only [trueFills] at h
        split at h
        · cases h
        · exact mem_singleton.mp h
      · rw [servePage_short hmiss hext (Nat.lt_of_not_le hfull)] at h
        cases h

theorem servePages_fills (hsrc : HonestSource file ext) :
    ∀ {pages : List (PagePlan × Bytes)} {s : σ}, (∀ pc ∈ pages, pc.1.Inside pageSize file.length) →
      fill ∈ (servePages ext fileId endOff fillMode pages s).2.2 →
      ∃ pc ∈ pages, fill = (pc.1.pageId fileId,
        slice file pc.1.pageStart (pc.1.pageEnd - pc.1.pageStart)) := by
  intro pages
  induction pages with
  | nil =>
    intro s _ h
    cases h
  | cons pc rest ih =>
    intro s hin h
    obtain ⟨p, cachedBytes⟩ := pc
    have hp : p.Inside pageSize file.length := hin (p, cachedBytes) mem_cons_self
    have hfirst : fill ∈ (servePage ext fileId endOff fillMode p cachedBytes s).2.2 →
        ∃ pc ∈ (p, cachedBytes) :: rest, fill = (pc.1.pageId fileId,
          slice file pc.1.pageStart (pc.1.pageEnd - pc.1.pageStart)) :=
      fun hmem => ⟨(p, cachedBytes), mem_cons_self, servePage_fills hsrc hp hmem⟩
    cases hserve : servePage ext fileId endOff fillMode p cachedBytes s with
    | mk res rest' =>
      obtain ⟨s', fills⟩ := rest'
      rw [hserve] at hfirst
      cases res with
      | error e =>
        rw [servePages, hserve] at h
        exact hfirst h
      | ok chunk =>
        rw [servePages_cons_ok hserve] at h
        obtain hmem | hmem := mem_append.mp h
        · exact hfirst hmem
        · obtain ⟨pc, hpc, heq⟩ := ih (fun pc hpc => hin pc (mem_cons_of_mem _ hpc)) hmem
          exact ⟨pc, mem_cons_of_mem _ hpc, heq⟩

/-- Reading through the cache fills pages of the reader's page size.  A plan that leaves
the range of an `i64` panics before anything is read. -/
theorem readThroughCacheI64_fills (hsrc : HonestSource file ext) (hps : 0 < pageSize)
    {cached : List PageReadRequest → List Bytes} {offset : Nat} (hle : offset ≤ endOff)
    (hend : endOff ≤ file.length) (hlen : file.length < 2 ^ 63) {s s' : σ}
    {out : Except Error Bytes} {fills : Fills}
    (h : readThroughCacheI64 cached ext fileId pageSize file.length offset endOff fillMode s =
      some (out, s', fills)) (hfill : fill ∈ fills) :
    fill.1.fileId = fileId ∧ fill.2 = pageContent file pageSize fill.1.pageIndex := by
  have hfit := pagesFit_of_readThroughCacheI64 hps hend hlen h
  have hin := (pagePlans_tiles hps hend (endOff - offset) offset hle (Nat.le_refl _)).2
  rw [pagePlans_eq_touchedPages hps hend _ _ (Nat.le_refl _)] at hin
  rw [readThroughCacheI64_of_fits hps hend hlen hfit] at h
  have hserved := Option.some.inj h
  have hmem : fill ∈ (servePages ext fileId endOff fillMode
      ((touchedPages pageSize file.length offset endOff).zip
        (answers cached fileId (touchedPages pageSize file.length offset endOff))) s).2.2 := by
    rw [hserved]
    exact hfill
  obtain ⟨⟨p, reply⟩, hpc, rfl⟩ :=
    servePages_fills hsrc (fun pc hpc => hin pc.1 (of_mem_zip hpc).1) hmem
  obtain ⟨i, -, hplan⟩ := mem_map.mp (of_mem_zip hpc).1
  subst hplan
  exact ⟨rfl, rfl⟩

end Fills

/-! ## One page size -/

/-- The reader and the manager count in the same pages, and what the reader fills is the
content of a page of the manager. -/
structure OnePageSize (o : CacheManagerOptions) (handle : PageCache) : Prop where
  index : max handle.pageSize 1 = o.pageSize
  fills : ∀ (σ : Type) (file : Bytes) (cached : List PageReadRequest → List Bytes)
    (ext : ExternalRangeReader σ) (offset endOff : Nat) (s s' : σ) (out : Except Error Bytes)
    (fills : Fills), HonestSource file ext → offset ≤ endOff → endOff ≤ file.length →
    file.length < 2 ^ 63 →
    readThroughCacheI64 cached ext handle.fileId handle.pageSize file.length offset endOff
      handle.fillMode s = some (out, s', fills) →
    ∀ fill ∈ fills, fill.1.fileId = handle.fileId ∧
      fill.2 = pageContent file o.pageSize fill.1.pageIndex

/-- Every reader and the cache manager of a configuration use one page size exactly if the
configured one is not zero.  Validation does not look at it. -/
theorem one_page_size_iff (c : GoosefsConfig) (hashFile : String → Nat)
    (hashPage : PageId → Nat) :
    (∀ handle, OpenedUnder c handle →
      OnePageSize (CacheManagerOptions.fromConfig hashFile hashPage c) handle) ↔
    c.clientCachePageSize ≠ 0 := by
  constructor
  · intro h hzero
    have hopen : GoosefsFileInStream.openCache c (some 0) 1 false = some
        ⟨toString (1 : Int), c.clientCachePageSize,
          cacheFillMode true c.clientCacheAsyncWriteEnabled⟩ := rfl
    have hindex := (h _ (.inStream hopen)).index
    simp only [CacheManagerOptions.fromConfig, hzero, if_pos] at hindex
    omega
  · intro hpos handle hopened
    have hsize : handle.pageSize = c.clientCachePageSize := hopened.pageSize
    have hmanager : (CacheManagerOptions.fromConfig hashFile hashPage c).pageSize =
        handle.pageSize := by
      simp only [CacheManagerOptions.fromConfig, if_neg hpos, hsize]
    have hps : 0 < handle.pageSize := by omega
    constructor
    · rw [hmanager]
      omega
    · intro σ file cached ext offset endOff s s' out fills hsrc hle hend hlen hread fill hfill
      rw [hmanager]
      exact readThroughCacheI64_fills hsrc hps hle hend hlen hread hfill

def zeroPageSize : GoosefsConfig where
  masterAddr := "localhost:9200"
  masterAddrs := []
  blockSize := 64 * 1024 * 1024
  chunkSize := 1024 * 1024
  metricsHeartbeatInterval := 10 * 10 ^ 9
  metricsHeartbeatTimeout := 5 * 10 ^ 9
  pushgatewayEnabled := false
  metadataCacheEnabled := false
  clientCacheEnabled := true
  clientCacheUringEnabled := false
  clientCacheAsyncWriteEnabled := false
  clientCachePageSize := 0
  clientCacheDirs := ["/tmp/cache"]
  clientCacheTtlSecs := 0
  clientCacheAsyncWriteThreads := 16

/-- The configuration passes, the manager has pages of one mebibyte, and a stream fills
page 0 and page 1 with one byte each. -/
theorem zero_page_size_splits : zeroPageSize.validate ⟨true, true, true, true⟩ = .ok () ∧
    (CacheManagerOptions.fromConfig (fun _ => 0) (fun _ => 0) zeroPageSize).pageSize = 1048576 ∧
    storeRoots zeroPageSize (.fromConfig (fun _ => 0) (fun _ => 0) zeroPageSize) =
      ["/tmp/cache/1048576"] ∧
    GoosefsFileInStream.openCache zeroPageSize (some 0) 7 false = some ⟨"7", 0, .sync⟩ ∧
    readThroughCacheI64 (List.map fun _ => []) (exactSource [5, 6]) "7" 0 2 0 2 .sync () =
      some (.ok [5, 6], (), [(⟨"7", 0⟩, [5]), (⟨"7", 1⟩, [6])]) := by
  refine ⟨by decide +kernel, rfl, by decide +kernel, by decide +kernel, ?_⟩
  rfl

end GooseFS
