import GooseFS.Metrics.Heartbeat

/-!
# Counting once

Every context reports the counters of the process with a baseline of its own, and
the first report of a counter is its full value.  So a second context reports again
what the first has reported, and a report whose answer is lost is sent again as it
is (`counted_twice`).  As long as no other context has reported a counter when it is
read, no report is sent again and counters are not decremented (`OneReporter`), the
reports of a counter add up to at most its value (`reports_le_value`).
-/

namespace GooseFS

open Lib Option Function

namespace MetricsTask

def baseline (name : String) : MetricsTask → Int
  | .heartbeat _ last _ => (last name).getD 0
  | _ => 0

def pending (name : String) : MetricsTask → Int
  | .heartbeat _ _ pc => pc.pending name
  | _ => 0

theorem balance_all (name : String) (t : MetricsTask) :
    t.balance (fun _ => true) name = t.pending name - t.baseline name := by
  cases t <;> simp [balance, pending, baseline]

/-- The next step of the loop sends its report once more. -/
def resends : MetricsTask → Bool
  | .heartbeat _ _ (.sending _ _ false) => true
  | _ => false

end MetricsTask

namespace MetricsPool

/-- The deltas of a counter in everything that was sent. -/
def reported (p : MetricsPool) (name : String) : Int :=
  p.shared.sentBy (fun _ => true) name + (p.shared.resent.map fun r => deltaOf r.metrics name).sum

/-- Counters only grow, and stay where an `f64` is exact.  A heartbeat reads a counter only
while no other heartbeat, also one of a closed context, has a baseline for it, and sends
no report again. -/
def OneReporter (p : MetricsPool) : MetricsAct → Prop
  | .run _ (.inc name n) => 0 ≤ n ∧ p.shared.value name + n ≤ 2 ^ 53
  | .run i (.read name) => ∀ u ∈ p.tasks.eraseIdx i, u.baseline name = 0
  | .run i .go => ∀ t ∈ p.tasks[i]?, t.resends = false
  | _ => True

instance (p : MetricsPool) (a : MetricsAct) : Decidable (p.OneReporter a) := by
  unfold OneReporter
  split <;> infer_instance

end MetricsPool

namespace MetricsTask

variable {m m' : MetricsState} {t t' : MetricsTask} {input : MetricsInput} {h : Nat}
  {last : String → Option Int}

/-- The baselines lie between zero and the values, and a snapshot adds what is missing. -/
structure Bounded (m : MetricsState) (t : MetricsTask) : Prop where
  nonneg : ∀ name, 0 ≤ t.baseline name
  le : ∀ name, t.baseline name ≤ m.value name
  pending : ∀ name, 0 ≤ t.pending name

theorem bounded_of_zero (hm : ∀ name, 0 ≤ m.value name) (hbase : ∀ name, t.baseline name = 0)
    (hpending : ∀ name, t.pending name = 0) : t.Bounded m where
  nonneg := fun name => (hbase name).symm ▸ Int.le_refl 0
  le := fun name => (hbase name).symm ▸ hm name
  pending := fun name => (hpending name).symm ▸ Int.le_refl 0

theorem Bounded.mono (h : t.Bounded m) (hle : ∀ name, m.value name ≤ m'.value name) :
    t.Bounded m' :=
  ⟨h.nonneg, fun name => Int.le_trans (h.le name) (hle name), h.pending⟩

theorem value_of_effect (he : Effect m t input m' t') {B : Int}
    (hinc : ∀ name n, input = .inc name n → 0 ≤ n ∧ m.value name + n ≤ B) (name : String) :
    m.value name ≤ m'.value name ∧ (m.value name ≤ B → m'.value name ≤ B) := by
  obtain heq | ⟨c, n, hinput, rfl⟩ := he.counters
  · have hsame : m'.value name = m.value name := by rw [MetricsState.value, MetricsState.value, heq]
    exact ⟨Int.le_of_eq hsame.symm, fun hle => hsame ▸ hle⟩
  · obtain ⟨hn, hB⟩ := hinc c n hinput
    by_cases hname : name = c
    · subst hname
      simp only [MetricsState.value, MetricsState.inc, update_self, List.sum_append,
        List.sum_cons, List.sum_nil] at hB ⊢
      omega
    · simp [MetricsState.value, MetricsState.inc, update_of_ne hname]

theorem resent_of_next (hnext : next m t input = some (m', t')) :
    m'.resent = m.resent ∨ t.resends = true ∧ input = .go := by
  unfold next at hnext
  split at hnext
  · cases hnext
    exact .inl rfl
  · cases hnext
    exact .inl rfl
  · obtain ⟨x, -, hbeat⟩ := bind_eq_some_iff.1 hnext
    unfold beat at hbeat
    split at hbeat <;> (try split at hbeat) <;> (try split at hbeat) <;> cases hbeat <;>
      first | exact .inl rfl | exact .inr ⟨rfl, rfl⟩
  · obtain ⟨x, -, hshut⟩ := bind_eq_some_iff.1 hnext
    exact .inl (shutdown_of_shut hshut).2.2
  · obtain ⟨x, -, hdrop⟩ := map_eq_some_iff.1 hnext
    cases hdrop
    exact .inl rfl
  · cases hnext

theorem bounded_of_read {todo done : List String} {metrics : List (String × Int)} {read : String}
    (ht : (MetricsTask.heartbeat h last (.snapshot todo done metrics)).Bounded m) :
    (MetricsTask.heartbeat h (update last read (some (m.value read)))
      (.snapshot todo (done ++ [read])
        (if counterDiff last read (m.value read) = 0 then metrics
          else metrics ++ [(read, counterDiff last read (m.value read))]))).Bounded m := by
  have hbase : ∀ name, (last name).getD 0 ≤ (update last read (some (m.value read)) name).getD 0 ∧
      (update last read (some (m.value read)) name).getD 0 ≤ m.value name := by
    intro name
    have hle : (last name).getD 0 ≤ m.value name := ht.le name
    by_cases hname : name = read
    · subst hname
      rw [update_self, getD_some]
      exact ⟨hle, Int.le_refl _⟩
    · rw [update_of_ne hname]
      exact ⟨Int.le_refl _, hle⟩
  refine ⟨fun name => ?_, fun name => (hbase name).2, fun name => ?_⟩
  · exact Int.le_trans (ht.nonneg name) (hbase name).1
  · have hdelta := deltaOf_read last metrics read name (m.value read)
    have hpending : 0 ≤ deltaOf metrics name := ht.pending name
    have hgrow := (hbase name).1
    show 0 ≤ deltaOf _ name
    omega

theorem bounded_of_beat {x : HeartbeatTask} {pc : BeatPc}
    (ht : (MetricsTask.heartbeat h last pc).Bounded m)
    (hbeat : beat m h last x pc input = some (m', t')) : t'.Bounded m ∧
      ∀ name, t'.baseline name = (MetricsTask.heartbeat h last pc).baseline name ∨
        input = .read name := by
  -- a state of the loop without a snapshot in progress
  have hidle (pc' : BeatPc) (hpc : ∀ name, pc'.pending name = 0) :
      (MetricsTask.heartbeat h last pc').Bounded m :=
    ⟨ht.nonneg, ht.le, fun name => (hpc name).symm ▸ Int.le_refl 0⟩
  unfold beat at hbeat
  split at hbeat
  · cases hbeat
    exact ⟨hidle _ fun _ => rfl, fun _ => .inl rfl⟩
  · next todo done metrics read =>
    split at hbeat <;> cases hbeat
    refine ⟨bounded_of_read ht, fun name => ?_⟩
    by_cases hname : name = read
    · exact .inr (by rw [hname])
    · exact .inl (by simp only [baseline, update_of_ne hname])
  · split at hbeat
    · split at hbeat <;> cases hbeat <;> exact ⟨hidle _ fun _ => rfl, fun _ => .inl rfl⟩
    · cases hbeat
  · cases hbeat
    exact ⟨hidle _ fun _ => rfl, fun _ => .inl rfl⟩
  · cases hbeat
    exact ⟨hidle _ fun _ => rfl, fun _ => .inl rfl⟩
  · split at hbeat <;> cases hbeat <;> exact ⟨hidle _ fun _ => rfl, fun _ => .inl rfl⟩
  · cases hbeat
    exact ⟨hidle _ fun _ => rfl, fun _ => .inl rfl⟩
  · split at hbeat <;> cases hbeat <;> exact ⟨hidle _ fun _ => rfl, fun _ => .inl rfl⟩
  · cases hbeat

theorem bounded_of_next (hm : ∀ name, 0 ≤ m.value name) (ht : t.Bounded m)
    (hnext : next m t input = some (m', t')) :
    t'.Bounded m ∧ ∀ name, t'.baseline name = t.baseline name ∨ input = .read name := by
  unfold next at hnext
  split at hnext
  · cases hnext
    exact ⟨ht, fun _ => .inl rfl⟩
  · cases hnext
    exact ⟨bounded_of_zero hm (fun _ => rfl) fun _ => rfl, fun _ => .inl rfl⟩
  · obtain ⟨x, -, hbeat⟩ := bind_eq_some_iff.1 hnext
    exact bounded_of_beat ht hbeat
  · obtain ⟨x, -, hshut⟩ := bind_eq_some_iff.1 hnext
    obtain ⟨⟨before', pc', rfl⟩, -⟩ := shutdown_of_shut hshut
    exact ⟨bounded_of_zero hm (fun _ => rfl) fun _ => rfl, fun _ => .inl rfl⟩
  · obtain ⟨x, -, hdrop⟩ := map_eq_some_iff.1 hnext
    cases hdrop
    exact ⟨bounded_of_zero hm (fun _ => rfl) fun _ => rfl, fun _ => .inl rfl⟩
  · cases hnext

end MetricsTask

namespace MetricsPool

open MetricsTask

variable {p : MetricsPool} {as : List MetricsAct}

def baselinesApart (t u : MetricsTask) : Prop :=
  ∀ name, t.baseline name = 0 ∨ u.baseline name = 0

theorem bounded_run (h : Guarded step OneReporter init as p) :
    p.Holds (fun m => m.resent = [] ∧ ∀ name, 0 ≤ m.value name ∧ m.value name ≤ 2 ^ 53)
      (fun m t => t.Bounded m) baselinesApart := by
  refine Pool.Holds.run ?_ ?_ ?_ h (.init ⟨rfl, fun name => ⟨Int.le_refl 0, ?_⟩⟩)
  · exact fun t u htu name => (htu name).symm
  · intro p t hp _ hstart
    have hbase : ∀ name, t.baseline name = 0 := by
      intro name
      cases t <;> first | rfl | cases hstart
    have hpending : ∀ name, t.pending name = 0 := by
      intro name
      cases t <;> first | rfl | cases hstart
    exact ⟨bounded_of_zero (fun name => (hp.shared.2 name).1) hbase hpending, fun u name => .inl (hbase name)⟩
  · intro p i x t m' t' hp hc hi hnext
    have hvalue := value_of_effect (effect_of_next hnext) (by rintro name n rfl; exact hc)
    have hle := fun name => (hvalue name).1
    obtain ⟨ht', hbase⟩ := bounded_of_next (fun name => (hp.shared.2 name).1) (hp.tasks.get hi) hnext
    have hresent : m'.resent = [] := by
      obtain hsame | ⟨hresends, rfl⟩ := resent_of_next hnext
      · rw [hsame, hp.shared.1]
      · cases (hc t hi).symm.trans hresends
    refine ⟨⟨hresent, fun name => ⟨Int.le_trans (hp.shared.2 name).1 (hle name),
      (hvalue name).2 (hp.shared.2 name).2⟩⟩, ht'.mono hle,
      fun j u hne hj => ⟨(hp.tasks.get hj).mono hle, fun name => ?_⟩⟩
    obtain hsame | rfl := hbase name
    · rw [hsame]
      exact hp.apart (Ne.symm hne) hi hj name
    · exact .inr (hc u (List.mem_eraseIdx_iff_getElem?.2 ⟨j, hne, hj⟩))
  · show (0 : Int) ≤ 2 ^ 53
    omega

/-- In every run in which counters only grow, each counter is read by one heartbeat and no
report is sent again, the sum of the deltas reported for a counter is at most its
value. -/
theorem reports_le_value (as : List MetricsAct) (p : MetricsPool)
    (h : Guarded step OneReporter init as p) (name : String) :
    p.reported name ≤ p.shared.value name ∧ p.shared.value name ≤ 2 ^ 53 := by
  have hp := bounded_run h
  have hbalanced := balanced_run h (fun _ => true) name
  have hread : tally (fun t => - t.baseline name) p.tasks ≤
      tally (MetricsTask.balance (fun _ => true) name) p.tasks := by
    refine tally_le_tally fun t ht => ?_
    have hpending := (hp.tasks t ht).pending name
    rw [balance_all]
    omega
  have hvalue : - p.shared.value name ≤ tally (fun t => - t.baseline name) p.tasks := by
    by_cases hex : ∃ t ∈ p.tasks, t.baseline name ≠ 0
    · obtain ⟨t, ht, hne⟩ := hex
      obtain ⟨i, hi⟩ := List.getElem?_of_mem ht
      have hle := (hp.tasks t ht).le name
      rw [tally_eq_of_other hi]
      · omega
      · intro j u hji hj
        have hu := ((hp.apart (Ne.symm hji) hi hj) name).resolve_left hne
        omega
    · rw [tally_eq_zero]
      · have hm := (hp.shared.2 name).1
        omega
      · intro u hu
        have hzero : u.baseline name = 0 := by
          by_contra hne
          exact hex ⟨u, hu, hne⟩
        omega
  refine ⟨?_, (hp.shared.2 name).2⟩
  rw [reported, hp.shared.1, List.map_nil, List.sum_nil]
  omega

/-- One context reports a counter twice, a second one another counter. -/
def twoContexts : List MetricsAct :=
  [.spawn .program, .spawn .starting, .spawn .starting, .run 1 .go, .run 2 .go,
    .run 0 (.inc "Client.BytesReadLocal" 3), .run 1 .go,
    .run 1 (.read "Client.BytesReadLocal"), .run 1 .go, .run 1 .go, .run 1 .go,
    .run 0 (.inc "Client.BytesReadLocal" 4), .run 1 .go,
    .run 1 (.read "Client.BytesReadLocal"), .run 1 .go]

theorem reports_le_value_twoContexts : ∃ p, Guarded step OneReporter init twoContexts p ∧
      p.shared.reports.map Report.metrics =
        [[("Client.BytesReadLocal", 3)], [("Client.BytesReadLocal", 4)]] ∧
      p.reported "Client.BytesReadLocal" ≤ p.shared.value "Client.BytesReadLocal" := by
  obtain ⟨p, hrun, hreports⟩ : ∃ p, Guarded step OneReporter init twoContexts p ∧
        p.shared.reports.map Report.metrics =
          [[("Client.BytesReadLocal", 3)], [("Client.BytesReadLocal", 4)]] :=
    Guarded.exists_of_replay (by decide +kernel)
  exact ⟨p, hrun, hreports, (reports_le_value twoContexts p hrun "Client.BytesReadLocal").1⟩

/-- Both contexts report the counter, each its full value; or one context reports it, the
answer of the master is lost, and the report is sent again. -/
theorem counted_twice : (∃ p, Guarded step (fun _ _ => True) init
        [.spawn .program, .spawn .starting, .spawn .starting, .run 1 .go, .run 2 .go,
          .run 0 (.inc "Client.BytesReadLocal" 3), .run 1 .go,
          .run 1 (.read "Client.BytesReadLocal"), .run 1 .go, .run 2 .go,
          .run 2 (.read "Client.BytesReadLocal"), .run 2 .go] p ∧
      p.reported "Client.BytesReadLocal" = 6 ∧ p.shared.value "Client.BytesReadLocal" = 3) ∧
    ∃ p, Guarded step (fun _ _ => True) init
        [.spawn .program, .spawn .starting, .run 1 .go, .run 0 (.inc "Client.BytesReadLocal" 3),
          .run 1 .go, .run 1 (.read "Client.BytesReadLocal"), .run 1 .go, .run 1 .fail,
          .run 1 .go] p ∧
      p.reported "Client.BytesReadLocal" = 6 ∧ p.shared.value "Client.BytesReadLocal" = 3 :=
  ⟨Guarded.exists_of_replay (by decide +kernel), Guarded.exists_of_replay (by decide +kernel)⟩

end MetricsPool

end GooseFS
