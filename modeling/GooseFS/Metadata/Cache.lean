import GooseFS.Error
import GooseFS.Lib.LruCache

/-!
# Metadata cache

`MetadataCache` maps normalized paths to what the master last said about them: a
status, or that there is none, and a listing.  Both share one time of insertion.

Every answer of the master carries a `stamp`, for specifications: the number of
changes that the master had made to its file tree when it gave the answer.  No
operation looks at it.

Not in the model: the counters of hits and misses.
-/

namespace GooseFS

open Lib List Option

def isWhitespace (c : Char) : Bool :=
  let n := c.toNat
  (9 ≤ n ∧ n ≤ 13) ∨ n = 32 ∨ n = 0x85 ∨ n = 0xA0 ∨ n = 0x1680 ∨ (0x2000 ≤ n ∧ n ≤ 0x200A) ∨
    n = 0x2028 ∨ n = 0x2029 ∨ n = 0x202F ∨ n = 0x205F ∨ n = 0x3000

def trimEndMatches (P : Char → Bool) (s : List Char) : List Char := (s.reverse.dropWhile P).reverse

def trim (s : List Char) : List Char := trimEndMatches isWhitespace (s.dropWhile isWhitespace)

/-- A leading slash, and no trailing one except for the root. -/
def normalizePath (path : String) : String :=
  let trimmed := trim path.toList
  if trimmed = [] ∨ trimmed = ['/'] then "/"
  else
    let stripped := trimEndMatches (· = '/') trimmed
    if stripped = [] then "/"
    else if stripped.head? = some '/' then String.ofList stripped
    else String.ofList ('/' :: stripped)

def parentPath (path : String) : Option String :=
  let normalized := normalizePath path
  if normalized = "/" then none
  else
    -- from the last slash backwards
    match normalized.toList.reverse.dropWhile (· ≠ '/') with
    | [] => none
    | _ :: before => some (if before = [] then "/" else String.ofList before.reverse)

/-! ## The cache -/

structure StatusInfo where
  path : Option String
  completed : Option Bool
  deriving DecidableEq, Repr

def statusIsCompleted (info : StatusInfo) : Bool := info.completed.getD false

structure Answer (α : Type) where
  value : α
  stamp : Nat
  deriving DecidableEq, Repr

inductive StatusSlot where
  | present (info : StatusInfo)
  | notFound
  deriving DecidableEq, Repr

structure CachedItem where
  status : Option (Answer StatusSlot)
  dirListing : Option (Answer (List StatusInfo))
  insertedAt : Nat
  deriving DecidableEq, Repr

structure MetadataCache where
  lru : LruCache String CachedItem
  ttl : Nat
  ttl_pos : 0 < ttl

namespace MetadataCache

variable (c : MetadataCache) (now : Nat)

def expired (item : CachedItem) : Bool := c.ttl ≤ now - item.insertedAt

def retainFresh (key : String) : MetadataCache × Bool :=
  match c.lru.peek key with
  | none => (c, false)
  | some item =>
    if c.expired now item then ({ c with lru := c.lru.pop key }, false) else (c, true)

def lookup (key : String) : MetadataCache × Option CachedItem :=
  match c.retainFresh now key with
  | (c, false) => (c, none)
  | (c, true) => ({ c with lru := (c.lru.get key).1 }, (c.lru.get key).2)

/-- `none` is a miss, also where an entry holds a listing only. -/
def lookupStatus (path : String) : MetadataCache × Option (Answer StatusSlot) :=
  let out := c.lookup now (normalizePath path)
  (out.1, out.2.bind CachedItem.status)

def getListing (path : String) : MetadataCache × Option (Answer (List StatusInfo)) :=
  let out := c.lookup now (normalizePath path)
  (out.1, out.2.bind CachedItem.dirListing)

def upsert (path : String) (f : CachedItem → CachedItem) : MetadataCache :=
  match c.lru.peek (normalizePath path) with
  | some item => { c with lru := c.lru.set (normalizePath path) (f item) }
  | none => { c with lru := c.lru.put (normalizePath path) (f ⟨none, none, now⟩) }

/-- The time of insertion is that of the whole entry. -/
def putStatus (path : String) (slot : Answer StatusSlot) : MetadataCache :=
  c.upsert now path fun item => { item with status := some slot, insertedAt := now }

def insertListing (path : String) (listing : Answer (List StatusInfo)) : MetadataCache :=
  c.upsert now path fun item => { item with dirListing := some listing, insertedAt := now }

def invalidate (path : String) : MetadataCache := { c with lru := c.lru.pop (normalizePath path) }

def withParent (path : String) : List String := (parentPath path).toList ++ [path]

end MetadataCache

/-! ## Calls through the cache -/

namespace MetadataCache

variable (c : MetadataCache) (now : Nat)

/-- `get_status_through_cache` before the fetch.  An incomplete file is asked for
again. -/
def statusFromCache (path : String) (syncIntervalMs : Int) :
    MetadataCache × Option (Answer (Except Error StatusInfo)) :=
  if syncIntervalMs = 0 then (c, none)
  else
    match c.lookupStatus now path with
    | (c, some ⟨.present info, stamp⟩) =>
      (c, if statusIsCompleted info then some ⟨.ok info, stamp⟩ else none)
    | (c, some ⟨.notFound, stamp⟩) => (c, some ⟨.error (.notFound path), stamp⟩)
    | (c, none) => (c, none)

def storeStatus (path : String) (answer : Answer (Except Error StatusInfo)) : MetadataCache :=
  match answer.value with
  | .ok info => c.putStatus now path ⟨.present info, answer.stamp⟩
  | .error (.notFound _) => c.putStatus now path ⟨.notFound, answer.stamp⟩
  | .error _ => c

/-- `rpc` is the time that the fetch takes. -/
def getStatusThroughCache (rpc : Nat) (path : String) (syncIntervalMs : Int)
    (fetch : Answer (Except Error StatusInfo)) :
    MetadataCache × Answer (Except Error StatusInfo) :=
  match c.statusFromCache now path syncIntervalMs with
  | (c, some answer) => (c, answer)
  | (c, none) => (c.storeStatus (now + rpc) path fetch, fetch)

def listingFromCache (path : String) (skip : Bool) :
    MetadataCache × Option (Answer (List StatusInfo)) :=
  if skip then (c, none) else c.getListing now path

def storeListing (path : String) (skip : Bool) (answer : Answer (Except Error (List StatusInfo))) :
    MetadataCache :=
  match answer.value with
  | .ok listing => if skip then c else c.insertListing now path ⟨listing, answer.stamp⟩
  | .error _ => c

def listStatusThroughCache (rpc : Nat) (path : String) (skip : Bool)
    (fetch : Answer (Except Error (List StatusInfo))) :
    MetadataCache × Answer (Except Error (List StatusInfo)) :=
  match c.listingFromCache now path skip with
  | (c, some answer) => (c, ⟨.ok answer.value, answer.stamp⟩)
  | (c, none) => (c.storeListing (now + rpc) path skip fetch, fetch)

end MetadataCache

inductive Mutation where
  | mkdir (path : String)
  | delete (path : String)
  | rename (src dst : String)
  deriving DecidableEq, Repr

/-- The paths that a successful call drops from the cache, in this order:
`invalidate_on_success` and `invalidate_rename_on_success`. -/
def Mutation.dropped : Mutation → List String
  | .mkdir path => MetadataCache.withParent path
  | .delete path => MetadataCache.withParent path
  | .rename src dst => MetadataCache.withParent src ++ MetadataCache.withParent dst

def Mutation.keys (m : Mutation) : List String := m.dropped.map normalizePath

def Mutation.paths : Mutation → List String
  | .mkdir path => [path]
  | .delete path => [path]
  | .rename src dst => [src, dst]

/-- `key` is that of a path of the call, or of the parent of one. -/
def Mutation.Names (m : Mutation) (key : String) : Prop :=
  ∃ path ∈ m.paths, key = normalizePath path ∨ (parentPath path).map normalizePath = some key

theorem Mutation.mem_keys {m : Mutation} {key : String} : key ∈ m.keys ↔ m.Names key := by
  have hparent : ∀ path, key ∈ (MetadataCache.withParent path).map normalizePath ↔
      key = normalizePath path ∨ (parentPath path).map normalizePath = some key := by
    intro path
    rw [MetadataCache.withParent]
    cases parentPath path <;> simp [eq_comm, or_comm]
  cases m <;> simp only [keys, dropped, Names, paths, map_append, mem_append, hparent,
    mem_cons, not_mem_nil, or_false, exists_eq_or_imp, exists_eq_left]

namespace MetadataCache

variable {c : MetadataCache} {now : Nat} {key k path : String} {item : CachedItem}
  {f : CachedItem → CachedItem} {m : Mutation}

def live (c : MetadataCache) (now : Nat) (key : String) : Option CachedItem :=
  (c.lru.peek key).filter fun item => !c.expired now item

theorem lookup_snd : (c.lookup now key).2 = c.live now key := by
  unfold lookup retainFresh live
  cases h : c.lru.peek key with
  | none => rfl
  | some item =>
    by_cases he : c.expired now item = true
    · simp only [filter_some, he]
      rfl
    · simp only [if_neg he, filter_some, LruCache.get_snd, h]
      rw [if_pos (by simpa using he)]

@[simp] theorem lookup_ttl : (c.lookup now key).1.ttl = c.ttl := by
  unfold lookup retainFresh
  split
  · next heq =>
    split at heq
    · cases heq; rfl
    · split at heq <;> cases heq
      rfl
  · next heq =>
    split at heq
    · cases heq
    · split at heq <;> cases heq
      rfl

@[simp] theorem upsert_ttl : (c.upsert now path f).ttl = c.ttl := by
  unfold upsert
  split <;> rfl

theorem peek_of_lookup (h : (c.lookup now key).1.lru.peek k = some item) :
    c.lru.peek k = some item := by
  unfold lookup retainFresh at h
  split at h
  · next heq =>
    split at heq
    · cases heq; exact h
    · split at heq <;> cases heq
      rw [LruCache.peek_pop] at h
      split at h
      · cases h
      · exact h
  · next heq =>
    split at heq
    · cases heq
    · split at heq <;> cases heq
      simpa using h

/-- The entry that a write leaves at its key holds the written part and what the
entry held before; other keys gain nothing. -/
theorem peek_of_upsert (h : (c.upsert now path f).lru.peek k = some item) :
    (k = normalizePath path ∧ ∃ old, item = f old ∧
      (c.lru.peek k = some old ∨ old = ⟨none, none, now⟩)) ∨
    (k ≠ normalizePath path ∧ c.lru.peek k = some item) := by
  unfold upsert at h
  split at h
  · next old hold =>
    rw [LruCache.peek_set] at h
    split at h
    · next heq =>
      exact .inl ⟨heq, old, (some.inj h).symm, .inl (heq ▸ hold)⟩
    · next hne => exact .inr ⟨hne, h⟩
  · have h' := LruCache.peek_of_put _ h
    rw [LruCache.peek_set] at h'
    split at h'
    · next heq => exact .inl ⟨heq, _, (some.inj h').symm, .inr rfl⟩
    · next hne => exact .inr ⟨hne, h'⟩

theorem peek_invalidate : (c.invalidate path).lru.peek k =
    if k = normalizePath path then none else c.lru.peek k :=
  LruCache.peek_pop _

theorem statusFromCache_fst (c : MetadataCache) (now : Nat) (path : String) (sync : Int) :
    (c.statusFromCache now path sync).1 = c ∨
      (c.statusFromCache now path sync).1 = (c.lookup now (normalizePath path)).1 := by
  unfold statusFromCache
  split
  · exact .inl rfl
  · right
    split
    · next heq => exact (congrArg Prod.fst heq).symm
    · next heq => exact (congrArg Prod.fst heq).symm
    · next heq => exact (congrArg Prod.fst heq).symm

/-- What a lookup of a status serves: a complete file, or that there is none. -/
def servedStatus (path : String) : Answer StatusSlot → Option (Answer (Except Error StatusInfo))
  | ⟨.present info, stamp⟩ => if statusIsCompleted info then some ⟨.ok info, stamp⟩ else none
  | ⟨.notFound, stamp⟩ => some ⟨.error (.notFound path), stamp⟩

theorem statusFromCache_snd {sync : Int} (hsync : sync ≠ 0) : (c.statusFromCache now path sync).2 =
      ((c.live now (normalizePath path)).bind CachedItem.status).bind (servedStatus path) := by
  have hsnd : (c.lookupStatus now path).2 =
      (c.live now (normalizePath path)).bind CachedItem.status := by
    rw [lookupStatus, lookup_snd]
  unfold statusFromCache
  rw [if_neg hsync, ← hsnd]
  split
  · next heq =>
    rw [heq]
    rfl
  · next heq =>
    rw [heq]
    rfl
  · next heq =>
    rw [heq]
    rfl

theorem listingFromCache_fst (c : MetadataCache) (now : Nat) (path : String) (skip : Bool) :
    (c.listingFromCache now path skip).1 = c ∨
      (c.listingFromCache now path skip).1 = (c.lookup now (normalizePath path)).1 := by
  cases skip with
  | true => exact .inl rfl
  | false => exact .inr rfl

theorem listingFromCache_snd : (c.listingFromCache now path false).2 =
      (c.live now (normalizePath path)).bind CachedItem.dirListing := by
  show (c.lookup now (normalizePath path)).2.bind CachedItem.dirListing = _
  rw [lookup_snd]

end MetadataCache

end GooseFS
