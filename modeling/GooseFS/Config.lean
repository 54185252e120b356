import GooseFS.Cache.Manager

/-!
# Client configuration

The part of `GoosefsConfig` that its validation and the page cache read.  Durations
are in nanoseconds.
-/

namespace GooseFS

structure CrateFeatures where
  metadataCache : Bool
  pageCache : Bool
  pageCacheIoUring : Bool
  metricsPushgateway : Bool
  deriving DecidableEq, Repr

structure GoosefsConfig where
  masterAddr : String
  masterAddrs : List String
  blockSize : Nat
  chunkSize : Nat
  metricsHeartbeatInterval : Nat
  metricsHeartbeatTimeout : Nat
  pushgatewayEnabled : Bool
  metadataCacheEnabled : Bool
  clientCacheEnabled : Bool
  clientCacheUringEnabled : Bool
  clientCacheAsyncWriteEnabled : Bool
  clientCachePageSize : Nat
  clientCacheDirs : List String
  clientCacheTtlSecs : Nat
  clientCacheAsyncWriteThreads : Nat
  deriving DecidableEq, Repr

def minMetricsHeartbeatIntervalMs : Nat := 1000

def asMillis (duration : Nat) : Nat := duration / 10 ^ 6

namespace GoosefsConfig

variable (c : GoosefsConfig)

def intervalTooShort : String :=
  let got := asMillis c.metricsHeartbeatInterval
  s!"metrics_heartbeat_interval must be >= {minMetricsHeartbeatIntervalMs}ms (got {got}ms)"

def timeoutTooShort : String :=
  let got := asMillis c.metricsHeartbeatTimeout
  s!"metrics_heartbeat_timeout must be >= 1000ms (got {got}ms)"

def timeoutTooLong : String :=
  let timeout := asMillis c.metricsHeartbeatTimeout
  let interval := asMillis c.metricsHeartbeatInterval
  s!"metrics_heartbeat_timeout ({timeout}ms) must be < metrics_heartbeat_interval ({interval}ms) to prevent in-flight RPCs from piling up across ticks"

/-- The checks in the order of the source; the first that fails gives the message. -/
def validate (features : CrateFeatures) : Except String Unit :=
  if !features.metadataCache ∧ c.metadataCacheEnabled then
    .error "metadata_cache_enabled requires the `metadata-cache` crate feature"
  else if !features.pageCache ∧ c.clientCacheEnabled then
    .error "client_cache_enabled requires the `page-cache` crate feature"
  else if !features.pageCacheIoUring ∧ c.clientCacheEnabled ∧ c.clientCacheUringEnabled then
    .error "client_cache_uring_enabled requires the `page-cache-io-uring` crate feature"
  else if !features.metricsPushgateway ∧ c.pushgatewayEnabled then
    .error "pushgateway_enabled requires the `metrics-pushgateway` crate feature"
  else if c.masterAddr = "" ∧ c.masterAddrs = [] then
    .error "at least one master address must be provided (master_addr or master_addrs)"
  else if c.masterAddrs ≠ [] ∧ "" ∈ c.masterAddrs then
    .error "master_addrs contains an empty address"
  else if c.blockSize = 0 then .error "block_size must be > 0"
  else if c.chunkSize = 0 then .error "chunk_size must be > 0"
  else if c.blockSize < c.chunkSize then .error "chunk_size must be <= block_size"
  else if c.metricsHeartbeatInterval < minMetricsHeartbeatIntervalMs * 10 ^ 6 then
    .error c.intervalTooShort
  else if c.metricsHeartbeatTimeout < 10 ^ 9 then .error c.timeoutTooShort
  else if c.metricsHeartbeatInterval ≤ c.metricsHeartbeatTimeout then .error c.timeoutTooLong
  else .ok ()

def cacheDirs : List String :=
  if c.clientCacheDirs = [] then ["/tmp/goosefs_cache"] else c.clientCacheDirs

theorem cacheDirs_ne_nil : c.cacheDirs ≠ [] := by
  unfold cacheDirs
  split
  · exact List.cons_ne_nil _ _
  · assumption

end GoosefsConfig

/-- `CacheManagerOptions::from_config`, with the hashes of the crate. -/
def CacheManagerOptions.fromConfig (hashFile : String → Nat) (hashPage : PageId → Nat)
    (c : GoosefsConfig) : CacheManagerOptions where
  pageSize := if c.clientCachePageSize = 0 then 1024 * 1024 else c.clientCachePageSize
  numDirs := c.cacheDirs.length
  dirs_pos := List.length_pos_of_ne_nil c.cacheDirs_ne_nil
  ttl := if c.clientCacheTtlSecs = 0 then none else some c.clientCacheTtlSecs
  asyncWriteThreads := max c.clientCacheAsyncWriteThreads 1
  hashFile := hashFile
  hashPage := hashPage

def storeRoots (c : GoosefsConfig) (o : CacheManagerOptions) : List String :=
  c.cacheDirs.map fun dir => dir ++ "/" ++ toString o.pageSize

end GooseFS
