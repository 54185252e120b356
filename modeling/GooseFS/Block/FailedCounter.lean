import GooseFS.Lib.Pool
import GooseFS.Block.RouterView

/-!
# The counter of failed workers

A router and each of its views keep the failed workers in a map and the number of
entries in a counter, so that a selection can skip the clean-up of expired entries
without looking at the map.  Each access to the map and each access to the counter is
atomic, but a call makes one after the other: `mark_failed` inserts and then adds one,
`cleanup_expired_failures` removes and then subtracts, and `clear_failed` empties the
map and then stores zero.  `FailureCalls` are the failures with the calls in flight.

The store of `clear_failed` forgets what other calls have counted or are about to
count, and a clean-up can subtract an entry that is not counted yet: the counter can
stay zero over an entry, stay above the number of entries, or wrap around
(`failedCount_drifts`).  Where neither happens (`Accounted`), the counter and the calls
in flight balance, and `failedCount_balanced` follows.
-/

namespace GooseFS.Router

open Lib List Option Failures UInt64

/-! ## Calls on the failures -/

/-- What a call of `mark_failed`, `clear_failed` or `cleanup_expired_failures` is about to
do. -/
inductive FailurePc where
  | insert (addr : WorkerNetAddress)
  | increment (key : String)
  | clear
  | storeZero
  | load
  | retain
  | subtract (removed : Nat)
  | returned
  deriving DecidableEq

namespace FailurePc

def isCall : FailurePc → Bool
  | .insert _ | .clear | .load => true
  | _ => false

/-- One access to the map or to the counter, with the clock at that moment. -/
def next (f : Failures) : FailurePc → Nat → Option (Failures × FailurePc)
  | .insert addr, now =>
    let key := workerAddrKey addr
    let map := f.failedWorkers.getD ∅
    some ({ f with failedWorkers := some (map.insert key now) },
      if map[key]?.isNone then .increment key else .returned)
  | .increment _, _ => some ({ f with failedCount := f.failedCount + 1 }, .returned)
  | .clear, _ => some ({ f with failedWorkers := f.failedWorkers.map fun _ => ∅ }, .storeZero)
  | .storeZero, _ => some ({ f with failedCount := 0 }, .returned)
  | .load, _ => some (f, if f.failedCount = 0 then .returned else .retain)
  | .retain, now =>
    match f.failedWorkers with
    | none => some (f, .returned)
    | some map =>
      let kept := map.filter fun _ failedAt => f.live now failedAt
      let removed := map.size - kept.size
      some ({ f with failedWorkers := some kept },
        if 0 < removed then .subtract removed else .returned)
  | .subtract removed, _ =>
    some ({ f with failedCount := f.failedCount - ofNat removed }, .returned)
  | .returned, _ => none

def uncounted : FailurePc → Option String
  | .increment key => some key
  | _ => none

/-- The number of entries that a call has removed and not subtracted. -/
def unsubtracted : FailurePc → Nat
  | .subtract removed => removed
  | _ => 0

end FailurePc

abbrev FailureCalls := Pool Failures FailurePc

abbrev FailureAct := PoolAct FailurePc Nat

def Failures.entries (f : Failures) : Std.TreeMap String Nat := f.failedWorkers.getD ∅

theorem Failures.lastFailure_eq (f : Failures) (key : String) :
    f.lastFailure key = f.entries[key]? := by
  unfold lastFailure entries
  cases f.failedWorkers with
  | none => exact Std.TreeMap.getElem?_emptyc.symm
  | some map => rfl

namespace FailureCalls

def init (failureTtl : Nat) : FailureCalls := ⟨.fresh failureTtl, []⟩

def step : FailureCalls → FailureAct → Option FailureCalls :=
  Pool.step FailurePc.isCall FailurePc.next

def uncounted (p : FailureCalls) : List String := p.tasks.filterMap FailurePc.uncounted

def Quiet (p : FailureCalls) : Prop := ∀ t ∈ p.tasks, t = .returned

/-- A clean-up removes no entry that is still to be counted, and where `clear_failed` stores
its zero, zero is right. -/
def AccountedAt (p : FailureCalls) (now : Nat) : FailurePc → Prop
  | .retain => ∀ key ∈ p.uncounted, (p.shared.lastFailure key).all (p.shared.live now)
  | .storeZero => p.uncounted.Perm p.shared.entries.keys ∧ ∀ t ∈ p.tasks, t.unsubtracted = 0
  | _ => True

def Accounted (p : FailureCalls) : FailureAct → Prop
  | .spawn _ => True
  | .run i now => ∀ t ∈ p.tasks[i]?, AccountedAt p now t

instance (p : FailureCalls) (now : Nat) (pc : FailurePc) : Decidable (AccountedAt p now pc) := by
  cases pc <;> unfold AccountedAt <;> infer_instance

instance (p : FailureCalls) (a : FailureAct) : Decidable (Accounted p a) := by
  cases a <;> unfold Accounted <;> infer_instance

/-! ## The balance -/

def started : FailurePc → Int
  | .insert _ => 0
  | _ => 1

def unsubtracted (p : FailureCalls) : Int := tally (fun t => (t.unsubtracted : Int)) p.tasks

/-- The counter has the value `value`, and calls of `clear_failed` have removed `lost` entries
without storing zero.  The entries `owned` are still to be counted. -/
structure Balance (p : FailureCalls) (value lost : Nat) (owned : List String) : Prop where
  count : p.shared.failedCount = ofNat value
  sum : (value : Int) + p.uncounted.length = p.shared.entries.size + p.unsubtracted + lost
  bounded : p.shared.entries.size + p.unsubtracted + lost ≤ tally started p.tasks
  nodup : owned.Nodup
  present : ∀ key ∈ owned, key ∈ p.shared.entries ∧ key ∈ p.uncounted
  covered : p.uncounted.length ≤ owned.length + lost
  cleared : lost = 0 ∨ .storeZero ∈ p.tasks

def Balanced (p : FailureCalls) : Prop := ∃ value lost owned, Balance p value lost owned

section Step

variable {p : FailureCalls} {value lost : Nat} {owned : List String} {i : Nat} {t t' : FailurePc}
  {f : Failures} {addr : WorkerNetAddress} {now : Nat}

theorem unsubtracted_nonneg (p : FailureCalls) : 0 ≤ p.unsubtracted :=
  tally_nonneg fun t _ => Int.natCast_nonneg t.unsubtracted

theorem Balance.owned_le (h : Balance p value lost owned) :
    owned.length ≤ p.shared.entries.size := by
  have hsub : owned.Subperm p.shared.entries.keys :=
    subperm_of_subset h.nodup fun key hkey => Std.TreeMap.mem_keys.mpr (h.present key hkey).1
  rw [← Std.TreeMap.length_keys]
  exact hsub.length_le

theorem Balance.unsubtracted_le (h : Balance p value lost owned) : p.unsubtracted ≤ value := by
  have howned := h.owned_le
  have hsum := h.sum
  have hcovered := h.covered
  omega

theorem unsubtracted_set (hi : p.tasks[i]? = some t) : unsubtracted ⟨f, p.tasks.set i t'⟩ =
      p.unsubtracted - t.unsubtracted + t'.unsubtracted :=
  tally_set _ hi

theorem uncounted_set (hi : p.tasks[i]? = some t) :
    (uncounted ⟨f, p.tasks.set i t'⟩ ++ t.uncounted.toList).Perm
      (p.uncounted ++ t'.uncounted.toList) :=
  filterMap_set_perm _ hi

theorem storeZero_mem_set (hi : p.tasks[i]? = some t) (ht : t ≠ .storeZero)
    (hmem : .storeZero ∈ p.tasks) : .storeZero ∈ p.tasks.set i t' := by
  obtain ⟨j, hj⟩ := getElem?_of_mem hmem
  have hne : i ≠ j := by
    rintro rfl
    exact ht (some.inj (hi.symm.trans hj))
  have hset : (p.tasks.set i t')[j]? = some .storeZero := by
    rw [getElem?_set_ne hne, hj]
  exact mem_of_getElem? hset

theorem Balance.of_step {value lost : Nat} {owned : List String} (unc : List String)
    (hi : p.tasks[i]? = some t)
    (hunc : (p.uncounted ++ t'.uncounted.toList).Perm (unc ++ t.uncounted.toList))
    (hcount : f.failedCount = ofNat value)
    (hsum : (value : Int) + unc.length =
      f.entries.size + (p.unsubtracted - t.unsubtracted + t'.unsubtracted) + lost)
    (hbounded : f.entries.size + (p.unsubtracted - t.unsubtracted + t'.unsubtracted) + lost ≤
      tally started p.tasks - started t + started t')
    (hnodup : owned.Nodup) (hpresent : ∀ key ∈ owned, key ∈ f.entries ∧ key ∈ unc)
    (hcovered : unc.length ≤ owned.length + lost)
    (hcleared : lost = 0 ∨ .storeZero ∈ p.tasks.set i t') :
    Balance ⟨f, p.tasks.set i t'⟩ value lost owned := by
  have hperm : (uncounted ⟨f, p.tasks.set i t'⟩).Perm unc := by
    have hset : (uncounted ⟨f, p.tasks.set i t'⟩ ++ t.uncounted.toList).Perm _ := uncounted_set hi
    exact (perm_append_right_iff _).mp (hset.trans hunc)
  have hunsub : unsubtracted ⟨f, p.tasks.set i t'⟩ = _ := unsubtracted_set hi
  have hstarted : tally started (p.tasks.set i t') = _ := tally_set started hi
  refine ⟨hcount, ?_, ?_, hnodup, ?_, ?_, hcleared⟩
  · rw [hperm.length_eq, hunsub]
    exact hsum
  · show (f.entries.size : Int) + _ + _ ≤ tally started (p.tasks.set i t')
    rw [hunsub, hstarted]
    exact hbounded
  · intro key hkey
    exact ⟨(hpresent key hkey).1, hperm.mem_iff.mpr (hpresent key hkey).2⟩
  · rw [hperm.length_eq]
    exact hcovered

section

variable (h : Balance p value lost owned)
include h

theorem Balance.insert_known (hi : p.tasks[i]? = some (.insert addr))
    (hkey : workerAddrKey addr ∈ p.shared.entries) : Balance ⟨{ p.shared with
      failedWorkers := some (p.shared.entries.insert (workerAddrKey addr) now) },
      p.tasks.set i .returned⟩ value lost owned := by
  have hsize : (p.shared.entries.insert (workerAddrKey addr) now).size = p.shared.entries.size := by
    rw [Std.TreeMap.size_insert, if_pos (Std.TreeMap.contains_iff_mem.mpr hkey)]
  have hsum := h.sum
  have hbounded := h.bounded
  refine Balance.of_step p.uncounted hi (Perm.refl _) h.count ?_ ?_ ?_ ?_ ?_ ?_
  · show (value : Int) + _ = ((p.shared.entries.insert _ _).size : Int) + _ + _
    simp only [hsize, FailurePc.unsubtracted]
    omega
  · show ((p.shared.entries.insert _ _).size : Int) + _ + _ ≤ _
    simp only [hsize, FailurePc.unsubtracted, started]
    omega
  · exact h.nodup
  · intro key hmem
    have hpresent := h.present key hmem
    exact ⟨Std.TreeMap.mem_insert.mpr (.inr hpresent.1), hpresent.2⟩
  · exact h.covered
  · exact h.cleared.imp_right (storeZero_mem_set hi (by simp))

theorem Balance.insert_new (hi : p.tasks[i]? = some (.insert addr))
    (hkey : workerAddrKey addr ∉ p.shared.entries) : Balance ⟨{ p.shared with
      failedWorkers := some (p.shared.entries.insert (workerAddrKey addr) now) },
      p.tasks.set i (.increment (workerAddrKey addr))⟩ value lost (workerAddrKey addr :: owned) := by
  have hsize : (p.shared.entries.insert (workerAddrKey addr) now).size =
      p.shared.entries.size + 1 := by
    rw [Std.TreeMap.size_insert, if_neg fun hc => hkey (Std.TreeMap.contains_iff_mem.mp hc)]
  have hunc : (p.uncounted ++ [workerAddrKey addr]).Perm
      ((workerAddrKey addr :: p.uncounted) ++ []) := by
    rw [append_nil]
    exact perm_append_singleton _ _
  have hsum := h.sum
  have hbounded := h.bounded
  have hcovered := h.covered
  refine Balance.of_step _ hi hunc h.count ?_ ?_ ?_ ?_ ?_ ?_
  · show (value : Int) + _ = ((p.shared.entries.insert _ _).size : Int) + _ + _
    simp only [hsize, FailurePc.unsubtracted, length_cons]
    omega
  · show ((p.shared.entries.insert _ _).size : Int) + _ + _ ≤ _
    simp only [hsize, FailurePc.unsubtracted, started]
    omega
  · exact nodup_cons.mpr ⟨fun hmem => hkey (h.present _ hmem).1, h.nodup⟩
  · intro key hmem
    rcases mem_cons.mp hmem with rfl | hmem
    · exact ⟨Std.TreeMap.mem_insert_self, mem_cons_self⟩
    · have hpresent := h.present key hmem
      exact ⟨Std.TreeMap.mem_insert.mpr (.inr hpresent.1), mem_cons_of_mem _ hpresent.2⟩
  · simp only [length_cons]
    omega
  · exact h.cleared.imp_right (storeZero_mem_set hi (by simp))

theorem Balance.increment {key : String} (hi : p.tasks[i]? = some (.increment key)) :
    Balance ⟨{ p.shared with failedCount := p.shared.failedCount + 1 }, p.tasks.set i .returned⟩
      (value + 1) lost (owned.erase key) := by
  have hkey : key ∈ p.uncounted :=
    mem_filterMap.mpr ⟨.increment key, mem_of_getElem? hi, rfl⟩
  have hunc : (p.uncounted ++ []).Perm (p.uncounted.erase key ++ [key]) := by
    rw [append_nil]
    exact (perm_cons_erase hkey).trans (perm_append_singleton key _).symm
  have hlength := length_erase_add_one hkey
  have herase : owned.length ≤ (owned.erase key).length + 1 := by
    rw [length_erase]
    split <;> omega
  have hsum := h.sum
  have hbounded := h.bounded
  have hcovered := h.covered
  refine Balance.of_step _ hi hunc ?_ ?_ ?_ ?_ ?_ ?_ ?_
  · show p.shared.failedCount + 1 = ofNat (value + 1)
    rw [ofNat_add, ← h.count]
    rfl
  · show ((value + 1 : Nat) : Int) + _ = (p.shared.entries.size : Int) + _ + _
    simp only [FailurePc.unsubtracted]
    omega
  · show (p.shared.entries.size : Int) + _ + _ ≤ _
    simp only [FailurePc.unsubtracted, started]
    omega
  · exact h.nodup.erase key
  · intro k hk
    -- another call is to count `k`
    have hne : k ≠ key := fun he => h.nodup.not_mem_erase (he ▸ hk)
    have hpresent := h.present k (mem_of_mem_erase hk)
    exact ⟨hpresent.1, (mem_erase_of_ne hne).mpr hpresent.2⟩
  · omega
  · exact h.cleared.imp_right (storeZero_mem_set hi (by simp))

end

theorem entries_clear (f : Failures) :
    entries { f with failedWorkers := f.failedWorkers.map fun _ => ∅ } = ∅ := by
  unfold entries
  cases f.failedWorkers with
  | none | some map => rfl

section

variable (h : Balance p value lost owned)
include h

theorem Balance.clear (hi : p.tasks[i]? = some .clear) :
    Balance ⟨{ p.shared with failedWorkers := p.shared.failedWorkers.map fun _ => ∅ },
      p.tasks.set i .storeZero⟩ value (lost + p.shared.entries.size) [] := by
  have howned := h.owned_le
  have hsum := h.sum
  have hbounded := h.bounded
  have hcovered := h.covered
  refine Balance.of_step p.uncounted hi (Perm.refl _) h.count ?_ ?_ ?_ ?_ ?_ ?_
  · simp only [entries_clear, Std.TreeMap.size_emptyc, FailurePc.unsubtracted]
    omega
  · simp only [entries_clear, Std.TreeMap.size_emptyc, FailurePc.unsubtracted, started]
    omega
  · exact nodup_nil
  · intro key hkey
    cases hkey
  · rw [length_nil]
    omega
  · exact .inr (mem_set_self hi)

theorem Balance.storeZero (hi : p.tasks[i]? = some .storeZero)
    (hkeys : p.uncounted.Perm p.shared.entries.keys) (hquiet : ∀ t ∈ p.tasks, t.unsubtracted = 0) :
    Balance ⟨{ p.shared with failedCount := 0 }, p.tasks.set i .returned⟩ 0 0
      p.shared.entries.keys := by
  have hzero : p.unsubtracted = 0 :=
    tally_eq_zero fun t ht => by rw [hquiet t ht, Int.natCast_zero]
  have hlength : p.uncounted.length = p.shared.entries.size := by
    rw [hkeys.length_eq, Std.TreeMap.length_keys]
  have hbounded := h.bounded
  refine Balance.of_step p.uncounted hi (Perm.refl _) rfl ?_ ?_ ?_ ?_ ?_ ?_
  · show ((0 : Nat) : Int) + _ = (p.shared.entries.size : Int) + _ + _
    simp only [FailurePc.unsubtracted]
    omega
  · show (p.shared.entries.size : Int) + _ + _ ≤ _
    simp only [FailurePc.unsubtracted, started]
    omega
  · exact Std.TreeMap.nodup_keys
  · intro key hkey
    exact ⟨Std.TreeMap.mem_of_mem_keys hkey, hkeys.mem_iff.mpr hkey⟩
  · rw [hlength, Std.TreeMap.length_keys]
    exact Nat.le_refl _
  · exact .inl rfl

theorem Balance.idle (hi : p.tasks[i]? = some t) (ht : t = .load ∨ t = .retain)
    (ht' : t' = .retain ∨ t' = .returned) :
    Balance ⟨p.shared, p.tasks.set i t'⟩ value lost owned := by
  have hsum := h.sum
  have hbounded := h.bounded
  have hnone : t.uncounted = none ∧ t.unsubtracted = 0 ∧ started t = 1 ∧ t ≠ .storeZero := by
    rcases ht with rfl | rfl <;> decide
  have hnone' : t'.uncounted = none ∧ t'.unsubtracted = 0 ∧ started t' = 1 := by
    rcases ht' with rfl | rfl <;> decide
  have hunc : (p.uncounted ++ t'.uncounted.toList).Perm (p.uncounted ++ t.uncounted.toList) := by
    rw [hnone.1, hnone'.1]
  refine Balance.of_step _ hi hunc h.count ?_ ?_ ?_ ?_ ?_ ?_
  · rw [hnone.2.1, hnone'.2.1]
    omega
  · rw [hnone.2.1, hnone'.2.1, hnone.2.2.1, hnone'.2.2]
    omega
  · exact h.nodup
  · exact h.present
  · exact h.covered
  · exact h.cleared.imp_right (storeZero_mem_set hi hnone.2.2.2)

theorem Balance.retain {map : Std.TreeMap String Nat} {now : Nat} (hi : p.tasks[i]? = some .retain)
    (hmap : p.shared.failedWorkers = some map)
    (hlive : ∀ key ∈ p.uncounted, (p.shared.lastFailure key).all (p.shared.live now))
    {kept : Std.TreeMap String Nat}
    (hkept : kept = map.filter fun _ failedAt => p.shared.live now failedAt)
    (ht' : t' = if 0 < map.size - kept.size then .subtract (map.size - kept.size)
      else .returned) : Balance ⟨{ p.shared with failedWorkers := some kept }, p.tasks.set i t'⟩
      value lost owned := by
  have hentries : p.shared.entries = map := by
    rw [entries, hmap]
    rfl
  have hle : kept.size ≤ map.size := hkept ▸ Std.TreeMap.size_filter_le_size
  have hafter : t'.uncounted = none ∧ t'.unsubtracted = map.size - kept.size ∧
      started t' = 1 := by
    rw [ht']
    split
    · exact ⟨rfl, rfl, rfl⟩
    · refine ⟨rfl, ?_, rfl⟩
      show 0 = map.size - kept.size
      omega
  have hunc : (p.uncounted ++ t'.uncounted.toList).Perm (p.uncounted ++ []) := by
    rw [hafter.1]
    exact Perm.refl _
  have hsum := h.sum
  have hbounded := h.bounded
  rw [hentries] at hsum hbounded
  refine Balance.of_step _ hi hunc h.count ?_ ?_ h.nodup ?_ h.covered ?_
  · show (value : Int) + _ = (kept.size : Int) + (_ - ((0 : Nat) : Int) + _) + _
    rw [hafter.2.1]
    omega
  · show (kept.size : Int) + (_ - ((0 : Nat) : Int) + _) + _ ≤ _ - (1 : Int) + _
    rw [hafter.2.1, hafter.2.2]
    omega
  · intro key hkey
    have hpresent := h.present key hkey
    refine ⟨?_, hpresent.2⟩
    have hmem : key ∈ map := hentries ▸ hpresent.1
    obtain ⟨failedAt, hget⟩ := isSome_iff_exists.mp (Std.TreeMap.mem_iff_isSome_getElem?.mp hmem)
    have hlast : p.shared.lastFailure key = some failedAt := by
      rw [lastFailure_eq, hentries, hget]
    have halive : p.shared.live now failedAt = true := by
      have hall := hlive key hpresent.2
      rwa [hlast] at hall
    show key ∈ kept
    rw [hkept, Std.TreeMap.mem_iff_isSome_getElem?, Std.TreeMap.getElem?_filter', hget,
      filter_some, if_pos halive]
    rfl
  · exact h.cleared.imp_right (storeZero_mem_set hi (by simp))

theorem Balance.subtract {removed : Nat} (hi : p.tasks[i]? = some (.subtract removed)) :
    Balance ⟨{ p.shared with failedCount := p.shared.failedCount - ofNat removed },
      p.tasks.set i .returned⟩ (value - removed) lost owned := by
  have hremoved : (removed : Int) ≤ p.unsubtracted :=
    le_tally (fun t _ => Int.natCast_nonneg t.unsubtracted) (mem_of_getElem? hi)
  have hvalue := h.unsubtracted_le
  have hsum := h.sum
  have hbounded := h.bounded
  refine Balance.of_step p.uncounted hi (Perm.refl _) ?_ ?_ ?_ h.nodup h.present h.covered ?_
  · show p.shared.failedCount - ofNat removed = _
    rw [ofNat_sub (by omega), ← h.count]
  · show ((value - removed : Nat) : Int) + _ = (p.shared.entries.size : Int) + _ + _
    simp only [FailurePc.unsubtracted]
    omega
  · show (p.shared.entries.size : Int) + _ + _ ≤ _
    simp only [FailurePc.unsubtracted, started]
    omega
  · exact h.cleared.imp_right (storeZero_mem_set hi (by simp))

theorem Balance.spawn (ht : t.isCall = true) :
    Balance ⟨p.shared, p.tasks ++ [t]⟩ value lost owned := by
  have hnone : t.uncounted = none ∧ t.unsubtracted = 0 ∧ 0 ≤ started t := by
    cases t <;> cases ht <;> exact ⟨rfl, rfl, by simp [started]⟩
  have hunc : uncounted ⟨p.shared, p.tasks ++ [t]⟩ = p.uncounted := by
    show (p.tasks ++ [t]).filterMap FailurePc.uncounted = _
    rw [filterMap_append, filterMap_cons, hnone.1]
    exact append_nil _
  have hunsub : unsubtracted ⟨p.shared, p.tasks ++ [t]⟩ = p.unsubtracted := by
    show tally _ (p.tasks ++ [t]) = _
    rw [tally_append, hnone.2.1]
    exact Int.add_zero _
  have hbounded := h.bounded
  refine ⟨h.count, ?_, ?_, h.nodup, ?_, ?_, ?_⟩
  · rw [hunc, hunsub]
    exact h.sum
  · rw [hunsub]
    show (p.shared.entries.size : Int) + _ + _ ≤ tally started (p.tasks ++ [t])
    rw [tally_append]
    omega
  · rw [hunc]
    exact h.present
  · rw [hunc]
    exact h.covered
  · exact h.cleared.imp_right (mem_append_left _)

end

theorem Balanced.step {p' : FailureCalls} {a : FailureAct} (h : Balanced p)
    (hacc : Accounted p a) (hstep : FailureCalls.step p a = some p') : Balanced p' := by
  obtain ⟨value, lost, owned, h⟩ := h
  rcases Pool.step_cases hstep with ⟨t, rfl, hcall, rfl⟩ | ⟨i, now, t, f, t', rfl, hi, hnext, rfl⟩
  · exact ⟨value, lost, owned, h.spawn hcall⟩
  · have hat : AccountedAt p now t := hacc t hi
    cases t with
    | insert addr =>
      by_cases hkey : workerAddrKey addr ∈ p.shared.entries
      · have hsome : p.shared.entries[workerAddrKey addr]?.isNone = false := by
          rw [isNone_eq_false_iff, ← Std.TreeMap.mem_iff_isSome_getElem?]
          exact hkey
        have hout := some.inj hnext
        rw [show (p.shared.failedWorkers.getD ∅)[workerAddrKey addr]?.isNone = false from hsome] at hout
        cases hout
        exact ⟨value, lost, owned, h.insert_known hi hkey⟩
      · have hnone : p.shared.entries[workerAddrKey addr]?.isNone = true := by
          rw [isNone_iff_eq_none, Std.TreeMap.getElem?_eq_none hkey]
        have hout := some.inj hnext
        rw [show (p.shared.failedWorkers.getD ∅)[workerAddrKey addr]?.isNone = true from hnone] at hout
        cases hout
        exact ⟨value, lost, _, h.insert_new hi hkey⟩
    | increment key =>
      cases hnext
      exact ⟨_, lost, _, h.increment hi⟩
    | clear =>
      cases hnext
      exact ⟨value, _, [], h.clear hi⟩
    | storeZero =>
      cases hnext
      exact ⟨0, 0, _, h.storeZero hi hat.1 hat.2⟩
    | load =>
      cases hnext
      refine ⟨value, lost, owned, h.idle hi (.inl rfl) ?_⟩
      split
      · exact .inr rfl
      · exact .inl rfl
    | retain =>
      rw [FailurePc.next] at hnext
      split at hnext
      · cases hnext
        exact ⟨value, lost, owned, h.idle hi (.inr rfl) (.inr rfl)⟩
      · next map hmap =>
        cases hnext
        exact ⟨value, lost, owned, h.retain hi hmap hat rfl rfl⟩
    | subtract removed =>
      cases hnext
      exact ⟨_, lost, owned, h.subtract hi⟩
    | returned => cases hnext

end Step

theorem balanced_init (failureTtl : Nat) : Balanced (init failureTtl) := by
  refine ⟨0, 0, [], rfl, ?_, ?_, nodup_nil, ?_, ?_, .inl rfl⟩
  · rfl
  · exact Int.le_refl 0
  · intro key hkey
    cases hkey
  · exact Nat.le_refl 0

variable {lost value : Nat} {owned : List String} {p : FailureCalls} {key : String}

theorem balanced_run {failureTtl : Nat} {acts : List FailureAct}
    (hrun : Guarded step Accounted (init failureTtl) acts p) : Balanced p :=
  hrun.invariant (fun _ _ _ h hacc hstep => h.step hacc hstep) (balanced_init failureTtl)

section Alone

variable (f : Failures) (ts : List FailurePc) (now : Nat)

theorem step_last (t : FailurePc) : step ⟨f, ts ++ [t]⟩ (.run ts.length now) =
    (FailurePc.next f t now).map fun out => ⟨out.1, ts ++ [out.2]⟩ := by
  simp only [step, Pool.step, getElem?_concat_length,
    set_append_right _ _ (Nat.le_refl _), Nat.sub_self, set_cons_zero]

theorem accounted_last {t : FailurePc} (hts : ∀ t ∈ ts, t = .returned) (ht : t ≠ .storeZero)
    (hcount : t.uncounted = none) : Accounted ⟨f, ts ++ [t]⟩ (.run ts.length now) := by
  intro u hu
  rw [getElem?_concat_length] at hu
  cases hu
  cases t with
  | retain =>
    intro key hkey
    obtain ⟨u, hu, hkey⟩ := mem_filterMap.mp hkey
    rcases mem_append.mp hu with hu | hu
    · rw [hts u hu] at hkey
      cases hkey
    · rw [mem_singleton.mp hu] at hkey
      cases hkey
  | storeZero => exact absurd rfl ht
  | insert | increment | clear | load | subtract | returned => trivial

theorem cleanup_alone (hts : ∀ t ∈ ts, t = .returned) :
    ∃ k, Guarded step Accounted ⟨f, ts⟩ (.spawn .load :: replicate k (.run ts.length now))
      ⟨f.cleanupExpired now, ts ++ [.returned]⟩ := by
  have hspawn : step ⟨f, ts⟩ (.spawn .load) = some ⟨f, ts ++ [.load]⟩ := rfl
  have hload := step_last f ts now .load
  have hretain := step_last f ts now .retain
  have hatLoad := accounted_last f ts now hts (show FailurePc.load ≠ _ by decide) rfl
  have hatRetain := accounted_last f ts now hts (show FailurePc.retain ≠ _ by decide) rfl
  unfold cleanupExpired
  by_cases hcount : f.failedCount = 0
  · rw [if_pos hcount]
    simp only [FailurePc.next, if_pos hcount, map_some] at hload
    exact ⟨1, .cons trivial hspawn (.cons hatLoad hload (.nil _))⟩
  · rw [if_neg hcount]
    simp only [FailurePc.next, if_neg hcount, map_some] at hload
    cases hmap : f.failedWorkers with
    | none =>
      simp only [FailurePc.next, hmap, map_some] at hretain
      exact ⟨2, .cons trivial hspawn (.cons hatLoad hload (.cons hatRetain hretain (.nil _)))⟩
    | some map =>
      simp only [FailurePc.next, hmap, map_some] at hretain ⊢
      generalize map.filter (fun _ failedAt => f.live now failedAt) = kept at hretain ⊢
      split at hretain
      case isTrue =>
        have hsubtract := step_last { f with failedWorkers := some kept } ts now
          (.subtract (map.size - kept.size))
        have hatSubtract := accounted_last { f with failedWorkers := some kept } ts now hts
          (show FailurePc.subtract (map.size - kept.size) ≠ _ by simp) rfl
        exact ⟨3, .cons trivial hspawn (.cons hatLoad hload (.cons hatRetain hretain
          (.cons hatSubtract hsubtract (.nil _))))⟩
      case isFalse hremoved =>
        -- nothing is subtracted
        rw [show map.size - kept.size = 0 by omega, show ofNat 0 = 0 from rfl, UInt64.sub_zero]
        exact ⟨2, .cons trivial hspawn (.cons hatLoad hload (.cons hatRetain hretain (.nil _)))⟩

end Alone

/-! ## Runs -/

theorem tally_started_le (ts : List FailurePc) : tally started ts ≤ ts.length := by
  induction ts with
  | nil => exact Int.le_refl 0
  | cons t ts ih =>
    have ht : started t ≤ 1 := by
      cases t <;> simp [started]
    simp only [tally, map_cons, sum_cons, length_cons] at ih ⊢
    omega

section

variable (h : Balance p value lost owned)
include h

theorem Balance.toNat_failedCount (hcalls : p.tasks.length < 2 ^ 64) :
    p.shared.failedCount.toNat = value := by
  have hsum := h.sum
  have hbounded := h.bounded
  have hstarted := tally_started_le p.tasks
  rw [h.count, toNat_ofNat', Nat.mod_eq_of_lt (by omega)]

theorem Balance.quiet (hquiet : p.Quiet) : value = p.shared.entries.size := by
  have hunc : p.uncounted = [] := by
    refine filterMap_eq_nil_iff.mpr fun t ht => ?_
    rw [hquiet t ht]
    rfl
  have hunsub : p.unsubtracted = 0 := by
    refine tally_eq_zero fun t ht => ?_
    rw [hquiet t ht]
    rfl
  have hlost : lost = 0 := by
    rcases h.cleared with hlost | hmem
    · exact hlost
    · cases hquiet _ hmem
  have hsum := h.sum
  rw [hunc, hunsub, hlost] at hsum
  simp only [length_nil] at hsum
  omega

theorem Balance.pos_of_counted (hkey : key ∈ p.shared.entries) (hcounted : key ∉ p.uncounted) :
    0 < value := by
  have hnodup : (key :: owned).Nodup :=
    nodup_cons.mpr ⟨fun hmem => hcounted (h.present key hmem).2, h.nodup⟩
  have hsub : (key :: owned).Subperm p.shared.entries.keys := by
    refine subperm_of_subset hnodup fun k hk => Std.TreeMap.mem_keys.mpr ?_
    rcases mem_cons.mp hk with rfl | hk
    · exact hkey
    · exact (h.present k hk).1
  have hlength := hsub.length_le
  rw [length_cons, Std.TreeMap.length_keys] at hlength
  have hsum := h.sum
  have hcovered := h.covered
  have hunsub := p.unsubtracted_nonneg
  omega

end

theorem live_of_cleanupExpired {f : Failures} {now failedAt : Nat}
    (hgate : f.failedCount = 0 → f.entries.size = 0)
    (hkey : (f.cleanupExpired now).lastFailure key = some failedAt) :
    f.live now failedAt = true := by
  unfold cleanupExpired at hkey
  split at hkey
  case isTrue hcount =>
    rw [lastFailure_eq, Std.TreeMap.getElem?_of_isEmpty] at hkey
    · cases hkey
    · rw [Std.TreeMap.isEmpty_eq_size_eq_zero, hgate hcount]
      rfl
  case isFalse =>
    split at hkey
    · next hnone =>
      rw [lastFailure, hnone] at hkey
      cases hkey
    · simp only [lastFailure, bind_some, Std.TreeMap.getElem?_filter', filter_eq_some_iff] at hkey
      exact hkey.2

/-- Where no clean-up and no `clear_failed` takes away what another call is still to count,
the counter never falls below what is to be subtracted, an entry that has been counted keeps
the clean-up going, and between calls the counter is the number of entries, so that the
next clean-up leaves no expired one. -/
theorem failedCount_balanced {failureTtl : Nat} {acts : List FailureAct} {p : FailureCalls}
    (hrun : Guarded step Accounted (init failureTtl) acts p) (hcalls : p.tasks.length < 2 ^ 64) :
    (∀ removed, .subtract removed ∈ p.tasks → removed ≤ p.shared.failedCount.toNat) ∧
    (∀ key ∈ p.shared.entries, key ∉ p.uncounted → p.shared.failedCount ≠ 0) ∧
    (p.Quiet → p.shared.failedCount.toNat = p.shared.entries.size ∧
      ∀ now, ∃ k p', Guarded step Accounted p
          (.spawn .load :: List.replicate k (.run p.tasks.length now)) p' ∧ p'.Quiet ∧
        ∀ key failedAt, p'.shared.lastFailure key = some failedAt →
          p'.shared.live now failedAt = true) := by
  obtain ⟨value, lost, owned, h⟩ := balanced_run hrun
  have hcount := h.toNat_failedCount hcalls
  refine ⟨?_, ?_, ?_⟩
  · intro removed hmem
    have hremoved : (removed : Int) ≤ p.unsubtracted :=
      le_tally (fun t _ => Int.natCast_nonneg t.unsubtracted) hmem
    have hvalue := h.unsubtracted_le
    omega
  · intro key hkey hcounted hzero
    have hpos := h.pos_of_counted hkey hcounted
    rw [hzero, UInt64.toNat_zero] at hcount
    omega
  · intro hquiet
    have hsize := hcount.trans (h.quiet hquiet)
    refine ⟨hsize, fun now => ?_⟩
    obtain ⟨k, hclean⟩ := cleanup_alone p.shared p.tasks now hquiet
    refine ⟨k, _, hclean, ?_, ?_⟩
    · intro t ht
      rcases List.mem_append.mp ht with ht | ht
      · exact hquiet t ht
      · exact List.mem_singleton.mp ht
    · intro key failedAt hkey
      rw [live, failureTtl_cleanupExpired]
      refine live_of_cleanupExpired (fun hzero => ?_) hkey
      rw [← hsize, hzero, UInt64.toNat_zero]

instance (p : FailureCalls) : Decidable p.Quiet := inferInstanceAs (Decidable (∀ t ∈ _, _))

def workerA : WorkerNetAddress := ⟨some "a", some 9203⟩

def workerB : WorkerNetAddress := ⟨some "b", some 9203⟩

/-- A clean-up runs while the failure of one worker is not counted yet, and another failure is
inserted while the failures are cleared. -/
def overlappingCalls : List FailureAct :=
  [.spawn (.insert workerA), .spawn (.insert workerB), .run 0 0, .run 1 50, .run 0 50, .spawn .load,
    .run 2 70, .run 2 70, .run 1 70, .run 2 70, .spawn .clear, .run 3 80, .spawn (.insert workerA),
    .run 4 90, .run 3 90, .run 4 90]

theorem failedCount_balanced_overlappingCalls :
    ∃ p, Guarded step Accounted (init 60) overlappingCalls p ∧ p.shared.entries.size = 1 ∧
      p.shared.failedCount.toNat = p.shared.entries.size := by
  obtain ⟨p, hrun, hsize, hquiet, hcalls⟩ :
      ∃ p, Guarded step Accounted (init 60) overlappingCalls p ∧
        p.shared.entries.size = 1 ∧ p.Quiet ∧ p.tasks.length = 5 :=
    Guarded.exists_of_replay (by decide +kernel)
  have hbound : p.tasks.length < 2 ^ 64 := by omega
  exact ⟨p, hrun, hsize, ((failedCount_balanced hrun hbound).2.2 hquiet).1⟩

/-- A failure is inserted and counted between the two steps of `clear_failed`: the counter is
zero over an entry, and clean-ups leave the entry after its time.  A clean-up removes an entry
that is not counted yet and would subtract more than there is.  And `clear_failed` stores its
zero before a clean-up has subtracted: the counter wraps around and stays so. -/
theorem failedCount_drifts : (∃ p, Guarded step (fun _ _ => True) (init 60)
        [.spawn .clear, .run 0 0, .spawn (.insert workerA), .run 1 0, .run 1 0, .run 0 0] p ∧
      p.Quiet ∧ p.shared.failedCount = 0 ∧ p.shared.entries.size = 1 ∧
      (p.shared.cleanupExpired 1000).entries.size = 1) ∧
    (∃ p, Guarded step (fun _ _ => True) (init 60)
        [.spawn (.insert workerA), .run 0 0, .run 0 0, .spawn (.insert workerB), .run 1 1, .spawn .load,
          .run 2 70, .run 2 70] p ∧
      .subtract 2 ∈ p.tasks ∧ p.shared.failedCount = 1) ∧
    ∃ p, Guarded step (fun _ _ => True) (init 60)
        [.spawn (.insert workerA), .run 0 0, .run 0 0, .spawn .load, .run 1 70, .run 1 70,
          .spawn .clear, .run 2 70, .run 2 70, .run 1 70] p ∧
      p.Quiet ∧ p.shared.failedCount = ofNat (2 ^ 64 - 1) ∧ p.shared.entries.size = 0 := by
  refine ⟨?_, ?_, ?_⟩ <;> exact Guarded.exists_of_replay (by decide +kernel)

end FailureCalls

end GooseFS.Router
