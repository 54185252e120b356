import GooseFS.Lib.Tasks
import GooseFS.Lib.Transition
import GooseFS.Metadata.Cache

/-!
# Fetches and mutations in flight

The calls of one context as a transition system.  A fetch is a lookup in the
cache, the answer of the master and the insertion of the answer; a mutation is the
call to the master and one invalidation after another.  Each of these is one step,
in any order with the steps of other calls.

An answer that the master gave before a mutation may be inserted after the
mutation has invalidated the path, and is served then (`late_answer_served`).  If
no such answer is on its way when a path is invalidated (`NoLateAnswer`), the cache
serves only answers that are newer than every mutation of the path that has
returned (`cached_answer_after_mutation`).
-/

namespace GooseFS

open Lib List Option

/-! ## Calls -/

/-- `ρ` is what the call fetches, `ρ'` what the cache gives in its place. -/
inductive FetchPc (ρ ρ' : Type) where
  | lookup
  | fetch
  | insert (answer : Answer ρ)
  | cached (answer : Answer ρ')
  | fetched (answer : Answer ρ)
  deriving DecidableEq, Repr

def FetchPc.ofCache {ρ ρ' : Type} : Option (Answer ρ') → FetchPc ρ ρ'
  | some answer => .cached answer
  | none => .fetch

inductive MutatePc where
  | call
  -- `n` of the paths are dropped; `stamp` counts this mutation
  | invalidate (n stamp : Nat)
  | returned (stamp : Nat)
  | failed (e : Error)
  deriving DecidableEq, Repr

abbrev StatusResult := Except Error StatusInfo

abbrev ListingResult := Except Error (List StatusInfo)

inductive MetadataCall where
  | getStatus (path : String) (syncIntervalMs : Int) (pc : FetchPc StatusResult StatusResult)
  | listStatus (path : String) (skip : Bool) (pc : FetchPc ListingResult (List StatusInfo))
  | mutate (m : Mutation) (pc : MutatePc)
  deriving DecidableEq

/-- What the master says to the call that it answers next. -/
inductive Reply where
  | status (r : StatusResult)
  | listing (r : ListingResult)
  | mutation (r : Except Error Unit)

/-- `mutations` counts the changes that the master has made. -/
structure MetadataContext where
  cache : MetadataCache
  now : Nat
  mutations : Nat

/-- The next step of a call.  `reply` is used where the master answers. -/
def MetadataCall.next (ctx : MetadataContext) (reply : Reply) :
    MetadataCall → Option (MetadataContext × MetadataCall)
  | .getStatus path sync .lookup =>
    let out := ctx.cache.statusFromCache ctx.now path sync
    some ({ ctx with cache := out.1 }, .getStatus path sync (.ofCache out.2))
  | .getStatus path sync .fetch =>
    match reply with
    | .status r => some (ctx, .getStatus path sync (.insert ⟨r, ctx.mutations⟩))
    | _ => none
  | .getStatus path sync (.insert answer) =>
    some ({ ctx with cache := ctx.cache.storeStatus ctx.now path answer },
      .getStatus path sync (.fetched answer))
  | .listStatus path skip .lookup =>
    let out := ctx.cache.listingFromCache ctx.now path skip
    some ({ ctx with cache := out.1 }, .listStatus path skip (.ofCache out.2))
  | .listStatus path skip .fetch =>
    match reply with
    | .listing r => some (ctx, .listStatus path skip (.insert ⟨r, ctx.mutations⟩))
    | _ => none
  | .listStatus path skip (.insert answer) =>
    some ({ ctx with cache := ctx.cache.storeListing ctx.now path skip answer },
      .listStatus path skip (.fetched answer))
  | .mutate m .call =>
    match reply with
    | .mutation (.ok ()) => some ({ ctx with mutations := ctx.mutations + 1 },
        .mutate m (.invalidate 0 (ctx.mutations + 1)))
    | .mutation (.error e) => some (ctx, .mutate m (.failed e))
    | _ => none
  | .mutate m (.invalidate n stamp) =>
    match m.dropped[n]? with
    | some path => some ({ ctx with cache := ctx.cache.invalidate path },
        .mutate m (.invalidate (n + 1) stamp))
    | none => some (ctx, .mutate m (.returned stamp))
  | _ => none

structure MetadataState where
  ctx : MetadataContext
  calls : List MetadataCall

inductive MetadataAct where
  | getStatus (path : String) (syncIntervalMs : Int)
  | listStatus (path : String) (skip : Bool)
  | mutate (m : Mutation)
  | run (i : Nat) (reply : Reply)
  | advance (dt : Nat)

namespace MetadataState

def spawn (s : MetadataState) (t : MetadataCall) : MetadataState :=
  { s with calls := s.calls ++ [t] }

def step (s : MetadataState) : MetadataAct → Option MetadataState
  | .getStatus path sync => some (s.spawn (.getStatus path sync .lookup))
  | .listStatus path skip => some (s.spawn (.listStatus path skip .lookup))
  | .mutate m => some (s.spawn (.mutate m .call))
  | .run i reply =>
    match s.calls[i]? with
    | none => none
    | some t => (t.next s.ctx reply).map fun out => ⟨out.1, s.calls.set i out.2⟩
  | .advance dt => some { s with ctx := { s.ctx with now := s.ctx.now + dt } }

def fresh (c : MetadataCache) : MetadataState := ⟨⟨c, 0, 0⟩, []⟩

end MetadataState

namespace MetadataCall

def inserting : MetadataCall → Option (String × Nat)
  | .getStatus path _ (.insert answer) => some (normalizePath path, answer.stamp)
  | .listStatus path _ (.insert answer) => some (normalizePath path, answer.stamp)
  | _ => none

def cached : MetadataCall → Option (String × Nat)
  | .getStatus path _ (.cached answer) => some (normalizePath path, answer.stamp)
  | .listStatus path _ (.cached answer) => some (normalizePath path, answer.stamp)
  | _ => none

/-- The key that the next step of a mutation drops, and its stamp. -/
def dropping : MetadataCall → Option (String × Nat)
  | .mutate m (.invalidate n stamp) => m.dropped[n]?.map fun path => (normalizePath path, stamp)
  | _ => none

def invalidated : MetadataCall → List String × Nat
  | .mutate m (.invalidate n stamp) => (m.keys.take n, stamp)
  | .mutate m (.returned stamp) => (m.keys, stamp)
  | _ => ([], 0)

end MetadataCall

/-! ## Ages of answers -/

/-- The parts of an entry are not older than `n`. -/
structure CachedItem.Since (item : CachedItem) (n : Nat) : Prop where
  status : ∀ a ∈ item.status, n ≤ a.stamp
  listing : ∀ a ∈ item.dirListing, n ≤ a.stamp

namespace MetadataCache

variable {c c' : MetadataCache} {now n : Nat} {key path : String} {answer : Answer StatusResult}
  {skip : Bool}

/-- The entry of a key is not older than `n`. -/
def Since (c : MetadataCache) (key : String) (n : Nat) : Prop :=
  ∀ item, c.lru.peek key = some item → item.Since n

theorem Since.of_peek (h : c.Since key n)
    (hpeek : ∀ item, c'.lru.peek key = some item → c.lru.peek key = some item) : c'.Since key n :=
  fun item hitem => h item (hpeek item hitem)

theorem Since.lookup (h : c.Since key n) (now : Nat) (k : String) :
    (c.lookup now k).1.Since key n :=
  h.of_peek fun _ => peek_of_lookup

theorem Since.invalidate (h : c.Since key n) (path : String) : (c.invalidate path).Since key n := by
  refine h.of_peek fun item hitem => ?_
  rw [peek_invalidate] at hitem
  split at hitem
  · cases hitem
  · exact hitem

theorem since_invalidate (path : String) (n : Nat) :
    (c.invalidate path).Since (normalizePath path) n := by
  intro item hitem
  rw [peek_invalidate, if_pos rfl] at hitem
  cases hitem

section

variable (h : c.Since key n)
include h

theorem Since.upsert {f : CachedItem → CachedItem}
    (hf : normalizePath path = key → ∀ item : CachedItem, item.Since n → (f item).Since n) :
    (c.upsert now path f).Since key n := by
  intro item hitem
  obtain ⟨rfl, old, rfl, hold | rfl⟩ | ⟨-, hold⟩ := peek_of_upsert hitem
  · exact hf rfl old (h old hold)
  · refine hf rfl _ ⟨?_, ?_⟩
    · intro a ha
      cases ha
    · intro a ha
      cases ha
  · exact h item hold

theorem Since.putStatus {slot : Answer StatusSlot}
    (hslot : normalizePath path = key → n ≤ slot.stamp) :
    (c.putStatus now path slot).Since key n := by
  refine h.upsert fun hkey item hitem => ⟨?_, hitem.listing⟩
  intro a ha
  cases ha
  exact hslot hkey

theorem Since.insertListing {listing : Answer (List StatusInfo)}
    (hlisting : normalizePath path = key → n ≤ listing.stamp) :
    (c.insertListing now path listing).Since key n := by
  refine h.upsert fun hkey item hitem => ⟨hitem.status, ?_⟩
  intro a ha
  cases ha
  exact hlisting hkey

theorem Since.storeStatus (hanswer : normalizePath path = key → n ≤ answer.stamp) :
    (c.storeStatus now path answer).Since key n := by
  unfold MetadataCache.storeStatus
  split
  · exact h.putStatus hanswer
  · exact h.putStatus hanswer
  · exact h

theorem Since.storeListing {answer : Answer ListingResult}
    (hanswer : normalizePath path = key → n ≤ answer.stamp) :
    (c.storeListing now path skip answer).Since key n := by
  unfold MetadataCache.storeListing
  split
  · split
    · exact h
    · exact h.insertListing hanswer
  · exact h

theorem Since.statusFromCache {sync : Int} : (c.statusFromCache now path sync).1.Since key n := by
  obtain heq | heq := statusFromCache_fst c now path sync
  · rw [heq]
    exact h
  · rw [heq]
    exact h.lookup now _

theorem Since.listingFromCache : (c.listingFromCache now path skip).1.Since key n := by
  obtain heq | heq := listingFromCache_fst c now path skip
  · rw [heq]
    exact h
  · rw [heq]
    exact h.lookup now _

theorem Since.of_live {item : CachedItem} (hitem : c.live now key = some item) : item.Since n :=
  h item (filter_eq_some_iff.1 hitem).1

end

theorem stamp_of_servedStatus {slot : Answer StatusSlot} (h : servedStatus path slot = some answer) :
    answer.stamp = slot.stamp := by
  obtain ⟨value, stamp⟩ := slot
  cases value with
  | present info =>
    simp only [servedStatus] at h
    split at h <;> cases h
    rfl
  | notFound =>
    cases h
    rfl

theorem Since.cachedStatus (h : c.Since (normalizePath path) n) {sync : Int}
    (hout : (c.statusFromCache now path sync).2 = some answer) : n ≤ answer.stamp := by
  by_cases hsync : sync = 0
  · rw [MetadataCache.statusFromCache, if_pos hsync] at hout
    cases hout
  · rw [statusFromCache_snd hsync, bind_eq_some_iff] at hout
    obtain ⟨slot, hslot, hserved⟩ := hout
    obtain ⟨item, hitem, hstatus⟩ := bind_eq_some_iff.1 hslot
    rw [stamp_of_servedStatus hserved]
    exact (h.of_live hitem).status slot hstatus

theorem Since.cachedListing (h : c.Since (normalizePath path) n) {answer : Answer (List StatusInfo)}
    (hout : (c.listingFromCache now path skip).2 = some answer) : n ≤ answer.stamp := by
  cases skip with
  | true => cases hout
  | false =>
    rw [listingFromCache_snd] at hout
    obtain ⟨item, hitem, hlisting⟩ := bind_eq_some_iff.1 hout
    exact (h.of_live hitem).listing answer hlisting

end MetadataCache

/-! ## Steps of a call -/

namespace MetadataCall

variable {ctx ctx' : MetadataContext} {reply : Reply} {t t' : MetadataCall}

/-- What a step of a call does to the answers.  `since`: an entry stays as young as
it was and as the answer that is inserted. -/
structure Moves (ctx : MetadataContext) (t : MetadataCall) (ctx' : MetadataContext)
    (t' : MetadataCall) : Prop where
  mutations : ctx.mutations ≤ ctx'.mutations
  inserting : ∀ x ∈ t'.inserting, ctx.mutations ≤ x.2
  since : ∀ key n, ctx.cache.Since key n → (∀ x ∈ t.inserting, x.1 = key → n ≤ x.2) →
    ctx'.cache.Since key n
  stamp : t.invalidated.2 ≤ ctx.mutations → t'.invalidated.2 ≤ ctx'.mutations
  invalidated : ∀ key ∈ t'.invalidated.1,
    (key ∈ t.invalidated.1 ∧ t.invalidated.2 = t'.invalidated.2) ∨
    (t.dropping = some (key, t'.invalidated.2) ∧ ctx'.cache.Since key t'.invalidated.2)

theorem Moves.fetch (hm : ctx'.mutations = ctx.mutations)
    (hnew : t'.invalidated = ([], 0))
    (hinserting : ∀ x ∈ t'.inserting, ctx.mutations ≤ x.2)
    (hsince : ∀ key n, ctx.cache.Since key n → (∀ x ∈ t.inserting, x.1 = key → n ≤ x.2) →
      ctx'.cache.Since key n) : Moves ctx t ctx' t' where
  mutations := Nat.le_of_eq hm.symm
  inserting := hinserting
  since := hsince
  stamp _ := by
    rw [hnew]
    exact Nat.zero_le _
  invalidated := by
    intro key hkey
    rw [hnew] at hkey
    cases hkey

theorem next_moves (h : t.next ctx reply = some (ctx', t')) : Moves ctx t ctx' t' := by
  cases t with
  | getStatus path sync pc =>
    cases pc with
    | lookup =>
      cases h
      refine .fetch rfl rfl ?_ fun key n hold _ => hold.statusFromCache
      intro x hx
      cases hout : (ctx.cache.statusFromCache ctx.now path sync).2 with
      | none | some answer =>
        rw [hout] at hx
        cases hx
    | fetch =>
      cases reply with
      | status r =>
        cases h
        refine .fetch rfl rfl ?_ fun key n hold _ => hold
        intro x hx
        cases hx
        exact Nat.le_refl _
      | _ => cases h
    | insert answer =>
      cases h
      refine .fetch rfl rfl ?_ fun key n hold hx => hold.storeStatus fun hkey => hx _ rfl hkey
      intro x hx
      cases hx
    | _ => cases h
  | listStatus path skip pc =>
    cases pc with
    | lookup =>
      cases h
      refine .fetch rfl rfl ?_ fun key n hold _ => hold.listingFromCache
      intro x hx
      cases hout : (ctx.cache.listingFromCache ctx.now path skip).2 with
      | none | some answer =>
        rw [hout] at hx
        cases hx
    | fetch =>
      cases reply with
      | listing r =>
        cases h
        refine .fetch rfl rfl ?_ fun key n hold _ => hold
        intro x hx
        cases hx
        exact Nat.le_refl _
      | _ => cases h
    | insert answer =>
      cases h
      refine .fetch rfl rfl ?_ fun key n hold hx => hold.storeListing fun hkey => hx _ rfl hkey
      intro x hx
      cases hx
    | _ => cases h
  | mutate m pc =>
    cases pc with
    | call =>
      cases reply with
      | mutation r =>
        cases r with
        | ok _ =>
          cases h
          refine ⟨Nat.le_succ _, ?_, fun _ _ hold _ => hold, fun _ => Nat.le_refl _, ?_⟩
          · intro x hx
            cases hx
          · intro key hkey
            cases hkey
        | error e =>
          cases h
          refine .fetch rfl rfl ?_ fun key n hold _ => hold
          intro x hx
          cases hx
      | _ => cases h
    | invalidate n stamp =>
      simp only [next] at h
      split at h
      · next path hpath =>
        cases h
        refine ⟨Nat.le_refl _, ?_, fun _ _ hold _ => hold.invalidate path, fun hle => hle, ?_⟩
        · intro x hx
          cases hx
        · intro key hkey
          have hkeys : m.keys[n]? = some (normalizePath path) := by
            rw [Mutation.keys, getElem?_map, hpath]
            rfl
          have htake : key ∈ m.keys.take (n + 1) := hkey
          rw [take_add_one, hkeys, mem_append] at htake
          refine htake.imp (fun hmem => ⟨hmem, rfl⟩) fun hmem => ?_
          cases mem_singleton.1 hmem
          refine ⟨?_, MetadataCache.since_invalidate path stamp⟩
          simp only [dropping, hpath]
          rfl
      · next hnone =>
        cases h
        refine ⟨Nat.le_refl _, ?_, fun _ _ hold _ => hold, fun hle => hle, ?_⟩
        · intro x hx
          cases hx
        · intro key hkey
          -- every path has been dropped
          have hlen : m.keys.length ≤ n := by
            rw [Mutation.keys, length_map]
            exact getElem?_eq_none_iff.1 hnone
          refine Or.inl ⟨?_, rfl⟩
          show key ∈ m.keys.take n
          rw [take_of_length_le hlen]
          exact hkey
    | _ => cases h

theorem next_cached (h : t.next ctx reply = some (ctx', t')) {key : String} {stamp n : Nat}
    (hcached : t'.cached = some (key, stamp)) (hsince : ctx.cache.Since key n) : n ≤ stamp := by
  cases t with
  | getStatus path sync pc =>
    cases pc with
    | lookup =>
      cases h
      cases hout : (ctx.cache.statusFromCache ctx.now path sync).2 with
      | none =>
        rw [hout] at hcached
        cases hcached
      | some answer =>
        rw [hout] at hcached
        cases hcached
        exact hsince.cachedStatus hout
    | fetch => cases reply <;> cases h; cases hcached
    | insert answer =>
      cases h
      cases hcached
    | _ => cases h
  | listStatus path skip pc =>
    cases pc with
    | lookup =>
      cases h
      cases hout : (ctx.cache.listingFromCache ctx.now path skip).2 with
      | none =>
        rw [hout] at hcached
        cases hcached
      | some answer =>
        rw [hout] at hcached
        cases hcached
        exact hsince.cachedListing hout
    | fetch => cases reply <;> cases h; cases hcached
    | insert answer =>
      cases h
      cases hcached
    | _ => cases h
  | mutate m pc =>
    cases pc with
    | call =>
      cases reply with
      | mutation r => cases r <;> cases h <;> cases hcached
      | _ => cases h
    | invalidate n stamp =>
      simp only [next] at h
      split at h <;> cases h <;> cases hcached
    | _ => cases h

theorem invalidated_of_inserting {x : String × Nat} (h : t.inserting = some x) :
    t.invalidated = ([], 0) := by
  cases t with
  | mutate m pc => cases h
  | _ => rfl

end MetadataCall

namespace MetadataState

variable {s s' : MetadataState}

/-! ## Runs -/

/-- When a path is dropped, no older answer for it is about to be inserted. -/
def NoLateAnswer (s : MetadataState) : MetadataAct → Prop
  | .run i _ => ∀ t ∈ s.calls[i]?, ∀ d ∈ t.dropping, ∀ u ∈ s.calls, ∀ x ∈ u.inserting,
    x.1 = d.1 → d.2 ≤ x.2
  | _ => True

instance (act : MetadataAct) : Decidable (s.NoLateAnswer act) := by
  cases act <;> unfold NoLateAnswer <;> infer_instance

/-- Nothing of a path is older than a mutation that has dropped it. -/
structure Young (s : MetadataState) : Prop where
  stamp : ∀ t ∈ s.calls, t.invalidated.2 ≤ s.ctx.mutations
  entry : ∀ t ∈ s.calls, ∀ key ∈ t.invalidated.1, s.ctx.cache.Since key t.invalidated.2
  answer : ∀ t ∈ s.calls, ∀ key ∈ t.invalidated.1, ∀ u ∈ s.calls, ∀ x ∈ u.inserting,
    x.1 = key → t.invalidated.2 ≤ x.2

theorem young_fresh (c : MetadataCache) : Young (fresh c) where
  stamp := by intro t ht; cases ht
  entry := by intro t ht; cases ht
  answer := by intro t ht; cases ht

theorem Young.spawn (h : Young s) {t : MetadataCall} (hinserting : t.inserting = none)
    (hinvalidated : t.invalidated = ([], 0)) : Young (s.spawn t) := by
  have hcases : ∀ u ∈ (s.spawn t).calls, u ∈ s.calls ∨ u = t := fun u hu =>
    (mem_append.1 hu).imp_right mem_singleton.1
  refine ⟨?_, ?_, ?_⟩
  · intro u hu
    obtain hu | rfl := hcases u hu
    · exact h.stamp u hu
    · rw [hinvalidated]
      exact Nat.zero_le _
  · intro u hu key hkey
    obtain hu | rfl := hcases u hu
    · exact h.entry u hu key hkey
    · rw [hinvalidated] at hkey
      cases hkey
  · intro u hu key hkey v hv x hx hxkey
    obtain hu | rfl := hcases u hu
    · obtain hv | rfl := hcases v hv
      · exact h.answer u hu key hkey v hv x hx hxkey
      · rw [hinserting] at hx
        cases hx
    · rw [hinvalidated] at hkey
      cases hkey

theorem Young.run (h : Young s) {i : Nat} {reply : Reply} {t t' : MetadataCall}
    {ctx' : MetadataContext} (hlate : s.NoLateAnswer (.run i reply)) (hi : s.calls[i]? = some t)
    (hnext : t.next s.ctx reply = some (ctx', t')) : Young ⟨ctx', s.calls.set i t'⟩ := by
  have hmoves := MetadataCall.next_moves hnext
  have ht := mem_of_getElem? hi
  -- a call after the step, with the call it was before
  have hcases : ∀ u ∈ s.calls.set i t', u = t' ∨ u ∈ s.calls := fun u hu =>
    (eq_or_other_of_mem_set hu).imp_right fun ⟨_, _, hj⟩ => mem_of_getElem? hj
  have hkept : ∀ u ∈ s.calls, ∀ key ∈ u.invalidated.1, ctx'.cache.Since key u.invalidated.2 :=
    fun u hu key hkey => hmoves.since key _ (h.entry u hu key hkey) (h.answer u hu key hkey t ht)
  refine ⟨?_, ?_, ?_⟩
  · intro u hu
    obtain rfl | hu := hcases u hu
    · exact hmoves.stamp (h.stamp t ht)
    · exact Nat.le_trans (h.stamp u hu) hmoves.mutations
  · intro u hu key hkey
    obtain rfl | hu := hcases u hu
    · obtain ⟨hold, heq⟩ | ⟨-, hsince⟩ := hmoves.invalidated key hkey
      · exact heq ▸ hkept t ht key hold
      · exact hsince
    · exact hkept u hu key hkey
  · intro u hu key hkey v hv x hx hxkey
    obtain rfl | hold := hcases u hu
    · obtain rfl | hv := hcases v hv
      · rw [MetadataCall.invalidated_of_inserting hx] at hkey
        cases hkey
      · obtain ⟨hold, heq⟩ | ⟨hdrop, -⟩ := hmoves.invalidated key hkey
        · exact heq ▸ h.answer t ht key hold v hv x hx hxkey
        · exact hlate t hi _ hdrop v hv x hx hxkey
    · obtain rfl | hv := hcases v hv
      · -- the answer of this step is as new as all mutations
        exact Nat.le_trans (h.stamp u hold) (hmoves.inserting x hx)
      · exact h.answer u hold key hkey v hv x hx hxkey

theorem Young.step (h : Young s) {act : MetadataAct} (hlate : s.NoLateAnswer act)
    (hs : MetadataState.step s act = some s') : Young s' := by
  cases act with
  | run i reply =>
    simp only [MetadataState.step] at hs
    split at hs
    · cases hs
    · next t hi =>
      obtain ⟨⟨ctx', t'⟩, hnext, rfl⟩ := map_eq_some_iff.1 hs
      exact h.run hlate hi hnext
  | advance dt =>
    cases hs
    exact ⟨h.stamp, h.entry, h.answer⟩
  | _ =>
    cases hs
    exact h.spawn rfl rfl

/-- An answer from the cache for a path of a mutation that has returned, or for the
parent of one, was given by the master after that mutation. -/
theorem cached_answer_after_mutation (c : MetadataCache) {acts : List MetadataAct} {i : Nat}
    {reply : Reply} (hrun : Guarded step NoLateAnswer (fresh c) (acts ++ [.run i reply]) s)
    {t : MetadataCall} {key : String} {stamp : Nat} (hi : s.calls[i]? = some t)
    (hcached : t.cached = some (key, stamp)) {m : Mutation} {n : Nat}
    (hm : .mutate m (.returned n) ∈ s.calls) (hkey : m.Names key) : n ≤ stamp := by
  obtain ⟨s₁, hrun₁, -, hs⟩ := hrun.last_step
  have h : Young s₁ := hrun₁.invariant (fun _ _ _ h hc hs => h.step hc hs) (young_fresh c)
  simp only [step] at hs
  split at hs
  · cases hs
  next u hu =>
  obtain ⟨⟨ctx', t'⟩, hnext, rfl⟩ := Option.map_eq_some_iff.1 hs
  obtain rfl : t' = t := by
    rw [List.getElem?_set_self (List.getElem?_eq_some_iff.1 hu).1] at hi
    exact Option.some.inj hi
  obtain hm | ⟨j, -, hj⟩ := eq_or_other_of_mem_set hm
  · obtain rfl : .mutate m (.returned n) = t' := hm
    cases hcached
  · have hsince := h.entry _ (List.mem_of_getElem? hj) key (Mutation.mem_keys.mpr hkey)
    exact MetadataCall.next_cached hnext hcached hsince

def smallCache : MetadataCache := ⟨.empty 8, 1, Nat.one_pos⟩

/-- Call `i` takes a step that the master has no part in. -/
def moves (i : Nat) : MetadataAct := .run i (.mutation (.ok ()))

/-- Call `i` gets the status of the file. -/
def answers (i : Nat) : MetadataAct := .run i (.status (.ok ⟨some "/d/f", some true⟩))

/-- Call `i` deletes the file. -/
def deletes (i : Nat) : List MetadataAct :=
  .mutate (.delete "/d/f") :: replicate 4 (moves i)

/-- The status is cached, the file is deleted, and that it is gone is cached. -/
def deletedThenAsked : List MetadataAct :=
  [.getStatus "/d/f" 1, moves 0, answers 0, moves 0] ++ deletes 1 ++
    [.getStatus "/d/f" 1, moves 2, .run 2 (.status (.error (.notFound "/d/f"))), moves 2,
      .getStatus "/d/f" 1]

theorem cached_answer_after_mutation_deleted : ∃ s stamp,
    Guarded step NoLateAnswer (fresh smallCache) (deletedThenAsked ++ [moves 3]) s ∧
    s.calls[3]? = some (.getStatus "/d/f" 1 (.cached ⟨.error (.notFound "/d/f"), stamp⟩)) ∧
    1 ≤ stamp := by
  obtain ⟨s, hrun, hm, hi⟩ : ∃ s,
      Guarded step NoLateAnswer (fresh smallCache) (deletedThenAsked ++ [moves 3]) s ∧
      .mutate (.delete "/d/f") (.returned 1) ∈ s.calls ∧
      s.calls[3]? = some (.getStatus "/d/f" 1 (.cached ⟨.error (.notFound "/d/f"), 1⟩)) :=
    Guarded.exists_of_replay (by decide +kernel)
  exact ⟨s, 1, hrun, hi, cached_answer_after_mutation smallCache hrun hi rfl hm
    (Mutation.mem_keys.mp (by decide +kernel))⟩

/-- The master answers a fetch, the file is deleted, and the answer is inserted. -/
def lateAnswer : List MetadataAct :=
  [.getStatus "/d/f" 1, moves 0, answers 0] ++ deletes 1 ++ [moves 0, .getStatus "/d/f" 1, moves 2]

/-- The cache serves the status of the deleted file. -/
theorem late_answer_served : ∃ s, Guarded step (fun _ _ => True) (fresh smallCache) lateAnswer s ∧
    .mutate (.delete "/d/f") (.returned 1) ∈ s.calls ∧
    s.calls[2]? = some (.getStatus "/d/f" 1 (.cached ⟨.ok ⟨some "/d/f", some true⟩, 0⟩)) :=
  Guarded.exists_of_replay (by decide +kernel)

end MetadataState

end GooseFS
