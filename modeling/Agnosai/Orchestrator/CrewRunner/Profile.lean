import Mathlib.Algebra.Order.BigOperators.Group.List
import Mathlib.Algebra.Order.Group.Int
import Mathlib.Data.Int.ModEq
import Agnosai.Orchestrator.CrewRunner.Definitions
import Agnosai.Server.Prometheus
import Agnosai.Support.KeyMap

/-!
# Orchestrator — CrewRunner — Profile

What a run's results come to: the crew's profile, after `_agnosai_crew_build_profile`, the metrics,
after `_agnosai_crew_record_metrics`, and `agnosai_crew_runner_run` around them.

A result that reports a positive cost adds it to the profile's total, to the map by task and, when
it names an agent, to the map by agent. The total and an agent's sum are 64-bit sums, so they are
what they should be modulo `2 ^ 64` (`Tally`). The times and the strength of the sandbox are left
out of the profile.
-/

namespace Agnosai.CrewRunner

open TaskResult List Int64 KeyMap Option

open Prometheus (Metrics)

/-- `CrewProfile`. -/
structure Profile where
  taskCount : Nat
  costMicroUsd : Int64 := 0
  taskCost : KeyMap String Int64 := .empty
  agentCost : KeyMap String Int64 := .empty

/-- `agnosai_crew_profile_record_agent_cost`: it sums. -/
def Profile.recordAgentCost (p : Profile) (agentKey : String) (c : Int64) : Profile :=
  { p with agentCost := p.agentCost.set agentKey ((p.agentCost.lookup agentKey).getD 0 + c) }

/-- The cost a result adds: the one it reports, if that is positive. -/
def positiveCost (r : TaskResult) : Option Int64 := r.metadata.costMicroUsd.filter (0 < ·)

/-- One turn of the profile's loop. -/
def Profile.record (p : Profile) (r : TaskResult) : Profile :=
  match positiveCost r with
  | none => p
  | some c =>
    let p := { p with
      costMicroUsd := p.costMicroUsd + c
      taskCost := p.taskCost.set r.taskId c }
    match r.metadata.agent with
    | none => p
    | some agentKey => p.recordAgentCost agentKey c

variable (results : List TaskResult)

/-- `_agnosai_crew_build_profile`. -/
def buildProfile : Profile :=
  results.foldl Profile.record { taskCount := results.length }

def totalTokens (r : TaskResult) : Int64 :=
  match r.metadata.tokens with
  | none => 0
  | some counts => counts.total

/-- One turn of `_agnosai_crew_record_metrics`. -/
def recordResult (m : Metrics) (r : TaskResult) : Metrics :=
  let m := if r.status = .completed then m.recordTaskCompleted else m.recordTaskFailed
  let cost := (positiveCost r).getD 0
  if 0 < totalTokens r ∨ 0 < cost then m.recordInference (totalTokens r) cost else m

/-- `_agnosai_crew_record_metrics`. -/
def recordMetrics (m : Metrics) (results : List TaskResult) : Metrics :=
  results.foldl recordResult m

/-- `agnosai_crew_runner_run` with what it leaves in the metrics and its profile, which a run that
timed out does not have. -/
def meteredRun (env : Env) (spec : CrewSpec) (m : Metrics) :
    Except CrewError (CrewState × Option Profile) × Metrics :=
  let m := m.recordCrewStarted
  match runTasks env spec {} with
  | (.error e, _) => (.error e, m.recordCrewCompleted)
  | (.ok results, s) =>
    (.ok (finalState env spec results s, if s.timedOut then none else some (buildProfile results)),
      recordMetrics m.recordCrewCompleted results)

/-- It is the run, metered. -/
theorem meteredRun_crewRun (env : Env) (spec : CrewSpec) (m : Metrics) :
    (meteredRun env spec m).1.map Prod.fst = (crewRun env spec).1 := by
  unfold meteredRun crewRun
  cases runTasks env spec {} with
  | mk out =>
    cases out with
    | error => rfl
    | ok => rfl

/-! ### The gauge -/

theorem recordResult_active (m : Metrics) (r : TaskResult) :
    (recordResult m r).crewsActive = m.crewsActive := by
  simp only [recordResult]
  split <;> split <;> rfl

theorem recordMetrics_active (m : Metrics) (results : List TaskResult) :
    (recordMetrics m results).crewsActive = m.crewsActive := by
  induction results generalizing m with
  | nil => rfl
  | cons r results ih => exact (ih (recordResult m r)).trans (recordResult_active m r)

/-- A run gives the gauge back what it took, by every exit. -/
theorem meteredRun_active (env : Env) (spec : CrewSpec) (m : Metrics) :
    (meteredRun env spec m).2.crewsActive = m.crewsActive := by
  unfold meteredRun
  cases runTasks env spec {} with
  | mk out =>
    cases out with
    | error => rfl
    | ok results => exact recordMetrics_active _ results

/-- The metrics after a sequence of runs. -/
def afterRuns (runs : List (Env × CrewSpec)) (m : Metrics) : Metrics :=
  runs.foldl (fun m run => (meteredRun run.1 run.2 m).2) m

theorem afterRuns_active (runs : List (Env × CrewSpec)) (m : Metrics) :
    (afterRuns runs m).crewsActive = m.crewsActive := by
  induction runs generalizing m with
  | nil => rfl
  | cons run runs ih =>
    exact (ih (meteredRun run.1 run.2 m).2).trans (meteredRun_active run.1 run.2 m)

/-! ### The costs -/

/-- The costs that results add, as integers. -/
def costs : List Int := (results.filterMap positiveCost).map toInt

def withAgent : List TaskResult :=
  results.filter fun r => r.metadata.agent.isSome

variable {done results : List TaskResult} {r : TaskResult} {p : Profile} {c : Int64}

theorem costs_append : costs (done ++ results) = costs done ++ costs results := by
  rw [costs, filterMap_append, map_append]
  rfl

theorem costs_none (h : positiveCost r = none) : costs [r] = [] := by
  rw [costs, filterMap_cons_none h]
  rfl

theorem costs_some (h : positiveCost r = some c) : costs [r] = [c.toInt] := by
  rw [costs, filterMap_cons_some h]
  rfl

theorem withAgent_append : withAgent (done ++ results) = withAgent done ++ withAgent results :=
  filter_append done results

theorem positiveCost_pos (h : positiveCost r = some c) : 0 < c.toInt := by
  obtain ⟨-, hpos⟩ := filter_eq_some_iff.1 h
  exact lt_iff_toInt_lt.1 (of_decide_eq_true hpos)

theorem costs_nonneg : ∀ x ∈ costs results, 0 ≤ x := by
  intro x hx
  obtain ⟨c, hc, rfl⟩ := mem_map.1 hx
  obtain ⟨r, -, hr⟩ := mem_filterMap.1 hc
  exact le_of_lt (positiveCost_pos hr)

/-- The costs of the results with an agent are some of the costs. -/
theorem sum_withAgent_le (results : List TaskResult) :
    (costs (withAgent results)).sum ≤ (costs results).sum := by
  refine List.Sublist.sum_le_sum ?_ costs_nonneg
  exact (filter_sublist.filterMap positiveCost).map toInt

theorem toInt_add_modEq (a b : Int64) : (a + b).toInt ≡ a.toInt + b.toInt [ZMOD 2 ^ 64] := by
  rw [toInt_add]
  exact Int.bmod_emod

theorem toInt_add_of_lt {a b : Int64} (ha : 0 ≤ a.toInt) (hb : 0 ≤ b.toInt)
    (h : a.toInt + b.toInt < 2 ^ 63) : (a + b).toInt = a.toInt + b.toInt := by
  rw [toInt_add]
  exact Int.bmod_eq_of_le (by omega) (by omega)

/-- What the profile has counted of the results so far. -/
structure Tally (done : List TaskResult) (p : Profile) : Prop where
  total : p.costMicroUsd.toInt ≡ (costs done).sum [ZMOD 2 ^ 64]
  tasks : p.taskCost.sum toInt = (costs done).sum
  seen : ∀ id, p.taskCost.lookup id ≠ none → id ∈ done.map taskId
  agents : p.agentCost.sum toInt ≡ (costs (withAgent done)).sum [ZMOD 2 ^ 64]

theorem tally_start (n : Nat) : Tally [] { taskCount := n } where
  total := Int.ModEq.refl 0
  tasks := rfl
  seen _ h := absurd rfl h
  agents := Int.ModEq.refl 0

theorem record_none (h : positiveCost r = none) : p.record r = p := by
  rw [Profile.record, h]

theorem record_costMicroUsd (h : positiveCost r = some c) :
    (p.record r).costMicroUsd = p.costMicroUsd + c := by
  rw [Profile.record, h]
  dsimp only
  split <;> rfl

theorem record_taskCost (h : positiveCost r = some c) :
    (p.record r).taskCost = p.taskCost.set r.taskId c := by
  rw [Profile.record, h]
  dsimp only
  split <;> rfl

theorem record_agentCost (h : positiveCost r = some c) :
    (p.record r).agentCost = match r.metadata.agent with
      | none => p.agentCost
      | some agentKey => (p.recordAgentCost agentKey c).agentCost := by
  rw [Profile.record, h]
  dsimp only
  split <;> rfl

/-- The cost of one result, for its agent. -/
theorem costs_withAgent :
    costs (withAgent [r]) = match r.metadata.agent with
      | none => []
      | some _ => costs [r] := by
  cases h : r.metadata.agent with
  | none => simp [withAgent, h, costs]
  | some => simp [withAgent, h]

/-- What a result does to the total. -/
theorem total_record :
    (p.record r).costMicroUsd.toInt ≡ p.costMicroUsd.toInt + (costs [r]).sum [ZMOD 2 ^ 64] := by
  cases hc : positiveCost r with
  | none => rw [record_none hc, costs_none hc, sum_nil, add_zero]
  | some c =>
    rw [record_costMicroUsd hc, costs_some hc, sum_singleton]
    exact toInt_add_modEq p.costMicroUsd c

/-- What a result of a task not seen before does to the tasks. -/
theorem tasks_record (h : p.taskCost.lookup r.taskId = none) :
    (p.record r).taskCost.sum toInt = p.taskCost.sum toInt + (costs [r]).sum := by
  cases hc : positiveCost r with
  | none => rw [record_none hc, costs_none hc, sum_nil, add_zero]
  | some c =>
    have hset := sum_set toInt p.taskCost r.taskId c
    rw [h, map_none, getD_none, add_zero] at hset
    rw [record_taskCost hc, costs_some hc, sum_singleton, hset]

theorem seen_record {id : String} (h : (p.record r).taskCost.lookup id ≠ none) :
    p.taskCost.lookup id ≠ none ∨ id = r.taskId := by
  cases hc : positiveCost r with
  | none =>
    rw [record_none hc] at h
    exact .inl h
  | some =>
    rw [record_taskCost hc, lookup_set] at h
    split at h
    next hid => exact .inr hid
    next => exact .inl h

theorem lookup_map_toInt (m : KeyMap String Int64) (key : String) :
    ((m.lookup key).map toInt).getD 0 = ((m.lookup key).getD 0).toInt := by
  cases m.lookup key <;> rfl

/-- What a cost does to the agents. -/
theorem sum_recordAgentCost (agentKey : String) :
    (p.recordAgentCost agentKey c).agentCost.sum toInt ≡
      p.agentCost.sum toInt + c.toInt [ZMOD 2 ^ 64] := by
  have hset := sum_set toInt p.agentCost agentKey
    ((p.agentCost.lookup agentKey).getD 0 + c)
  have hsum := (toInt_add_modEq ((p.agentCost.lookup agentKey).getD 0) c).add_left
    (p.agentCost.sum toInt)
  rw [← hset, lookup_map_toInt, add_left_comm, add_comm] at hsum
  exact Int.ModEq.add_left_cancel' _ hsum

/-- What a result does to the agents. -/
theorem agents_record :
    (p.record r).agentCost.sum toInt ≡
      p.agentCost.sum toInt + (costs (withAgent [r])).sum [ZMOD 2 ^ 64] := by
  rw [costs_withAgent]
  cases hc : positiveCost r with
  | none =>
    rw [record_none hc, costs_none hc]
    cases r.metadata.agent <;> rw [sum_nil, add_zero]
  | some c =>
    rw [record_agentCost hc, costs_some hc]
    cases r.metadata.agent with
    | none => rw [sum_nil, add_zero]
    | some agentKey =>
      rw [sum_singleton]
      exact sum_recordAgentCost agentKey

/-- **One turn** of the profile's loop, over a result of a task not seen before. -/
theorem Tally.record (h : Tally done p) (hnew : r.taskId ∉ done.map taskId) :
    Tally (done ++ [r]) (p.record r) := by
  have hfresh : p.taskCost.lookup r.taskId = none := by
    by_contra hne
    exact hnew (h.seen r.taskId hne)
  refine ⟨?_, ?_, ?_, ?_⟩
  · rw [costs_append, sum_append]
    exact total_record.trans (h.total.add_right _)
  · rw [costs_append, sum_append, tasks_record hfresh, h.tasks]
  · intro id hid
    rw [map_append, mem_append]
    rcases seen_record hid with hid | rfl
    · exact .inl (h.seen id hid)
    · exact .inr (mem_singleton_self _)
  · rw [withAgent_append, costs_append, sum_append]
    exact agents_record.trans (h.agents.add_right _)

/-- **The loop.** -/
theorem Tally.foldl (h : Tally done p) (hnodup : ((done ++ results).map taskId).Nodup) :
    Tally (done ++ results) (results.foldl Profile.record p) := by
  induction results generalizing done p with
  | nil => rwa [append_nil]
  | cons r results ih =>
    rw [append_cons] at hnodup ⊢
    refine ih (h.record ?_) hnodup
    rw [map_append, map_append, append_assoc] at hnodup
    intro hmem
    exact (nodup_append.1 hnodup).2.2 r.taskId hmem r.taskId mem_cons_self rfl

/-! ### Without overflow -/

/-- The agents' sums are what they should be, none of them having passed `2 ^ 63`. -/
structure Exact (done : List TaskResult) (p : Profile) : Prop where
  nonneg : ∀ key v, p.agentCost.lookup key = some v → 0 ≤ v.toInt
  agents : p.agentCost.sum toInt = (costs (withAgent done)).sum

theorem exact_start (n : Nat) : Exact [] { taskCount := n } where
  nonneg _ _ h := absurd h (some_ne_none _).symm
  agents := rfl

/-- One agent's sum is at most that of all. -/
theorem lookup_le_sum {m : KeyMap String Int64}
    (hnonneg : ∀ key v, m.lookup key = some v → 0 ≤ v.toInt) (key : String) :
    0 ≤ ((m.lookup key).getD 0).toInt ∧ ((m.lookup key).getD 0).toInt ≤ m.sum toInt := by
  have hall : ∀ x ∈ m.entries.map (fun e => e.2.toInt), 0 ≤ x := by
    intro x hx
    obtain ⟨⟨k, v⟩, he, rfl⟩ := mem_map.1 hx
    exact hnonneg k v (lookup_eq_some.2 he)
  cases hk : m.lookup key with
  | none => exact ⟨le_rfl, sum_nonneg hall⟩
  | some v =>
    have hmem : v.toInt ∈ m.entries.map (fun e => e.2.toInt) :=
      mem_map.2 ⟨(key, v), lookup_eq_some.1 hk, rfl⟩
    exact ⟨hnonneg key v hk, single_le_sum hall _ hmem⟩

/-- A recorded cost adds to the sum. -/
theorem Exact.recordAgentCost (h : Exact done p) (agentKey : String) (hc : 0 ≤ c.toInt)
    (hfits : p.agentCost.sum toInt + c.toInt < 2 ^ 63) :
    (p.recordAgentCost agentKey c).agentCost.sum toInt =
        p.agentCost.sum toInt + c.toInt ∧
      ∀ key v, (p.recordAgentCost agentKey c).agentCost.lookup key = some v → 0 ≤ v.toInt := by
  obtain ⟨hold, hle⟩ := lookup_le_sum h.nonneg agentKey
  have hadd : ((p.agentCost.lookup agentKey).getD 0 + c).toInt =
      ((p.agentCost.lookup agentKey).getD 0).toInt + c.toInt :=
    toInt_add_of_lt hold hc (by omega)
  constructor
  · have hset := sum_set toInt p.agentCost agentKey
      ((p.agentCost.lookup agentKey).getD 0 + c)
    rw [lookup_map_toInt, hadd] at hset
    simp only [Profile.recordAgentCost]
    omega
  · intro key v hv
    rw [Profile.recordAgentCost, lookup_set] at hv
    split at hv
    · cases hv
      omega
    · exact h.nonneg key v hv

/-- One turn, as long as the costs so far fit. -/
theorem Exact.record (h : Exact done p) (hfits : (costs (done ++ [r])).sum < 2 ^ 63) :
    Exact (done ++ [r]) (p.record r) := by
  rw [costs_append, sum_append] at hfits
  have hle := sum_withAgent_le done
  have hsum : (costs (withAgent (done ++ [r]))).sum =
      (costs (withAgent done)).sum + (costs (withAgent [r])).sum := by
    rw [withAgent_append, costs_append, sum_append]
  rw [costs_withAgent] at hsum
  cases hc : positiveCost r with
  | none =>
    rw [record_none hc]
    refine ⟨h.nonneg, ?_⟩
    rw [costs_none hc] at hsum
    rw [hsum, h.agents]
    cases r.metadata.agent <;> rw [sum_nil, add_zero]
  | some =>
    rw [costs_some hc] at hsum hfits
    have hagent := record_agentCost (p := p) hc
    cases ha : r.metadata.agent with
    | none =>
      rw [ha] at hsum hagent
      exact ⟨hagent ▸ h.nonneg, by rw [hagent, hsum, h.agents, sum_nil, add_zero]⟩
    | some agentKey =>
      rw [ha] at hsum hagent
      rw [sum_singleton] at hsum hfits
      have hrec := h.recordAgentCost agentKey (le_of_lt (positiveCost_pos hc))
        (by rw [h.agents]; omega)
      exact ⟨hagent ▸ hrec.2, by rw [hagent, hrec.1, hsum, h.agents]⟩

theorem Exact.foldl (h : Exact done p) (hfits : (costs (done ++ results)).sum < 2 ^ 63) :
    Exact (done ++ results) (results.foldl Profile.record p) := by
  induction results generalizing done p with
  | nil => rwa [append_nil]
  | cons r results ih =>
    rw [append_cons] at hfits ⊢
    refine ih (h.record ?_) hfits
    have hrest : 0 ≤ (costs results).sum := sum_nonneg costs_nonneg
    rw [costs_append, sum_append] at hfits
    omega

/-! ### The books -/

/-- The profile's total, its tasks and its agents against the costs of the results: modulo `2 ^ 64`,
and exactly when the costs sum to less than `2 ^ 63`. -/
structure Conserved (results : List TaskResult) (p : Profile) : Prop where
  tasks : p.costMicroUsd.toInt ≡ p.taskCost.sum toInt [ZMOD 2 ^ 64]
  total : p.costMicroUsd.toInt ≡ (costs results).sum [ZMOD 2 ^ 64]
  agents : p.agentCost.sum toInt ≡ (costs (withAgent results)).sum [ZMOD 2 ^ 64]
  exact : (costs results).sum < 2 ^ 63 →
    p.costMicroUsd.toInt = p.taskCost.sum toInt ∧
      p.costMicroUsd.toInt = (costs results).sum ∧
      p.agentCost.sum toInt = (costs (withAgent results)).sum

theorem toInt_eq_of_modEq {a : Int64} {n : Int} (h : a.toInt ≡ n [ZMOD 2 ^ 64]) (hn : 0 ≤ n)
    (hlt : n < 2 ^ 63) : a.toInt = n := by
  have hle := le_toInt a
  have hlt' := toInt_lt a
  unfold Int.ModEq at h
  omega

theorem conserved_buildProfile (hnodup : (results.map taskId).Nodup) :
    Conserved results (buildProfile results) := by
  have htally : Tally results (buildProfile results) := (tally_start results.length).foldl hnodup
  refine ⟨?_, htally.total, htally.agents, fun hfits => ?_⟩
  · rw [htally.tasks]
    exact htally.total
  · have hexact : Exact results (buildProfile results) := (exact_start results.length).foldl hfits
    have htotal := toInt_eq_of_modEq htally.total (sum_nonneg costs_nonneg) hfits
    exact ⟨htotal.trans htally.tasks.symm, htotal, hexact.agents⟩

/-- The profile of a run is that of its state's results. -/
theorem meteredRun_profile {env : Env} {spec : CrewSpec} {m m' : Metrics} {st : CrewState}
    (h : meteredRun env spec m = (.ok (st, some p), m')) : p = buildProfile st.results := by
  unfold meteredRun at h
  split at h
  · cases h
  next s _ =>
    obtain ⟨hst, hp⟩ := Prod.mk.inj (Except.ok.inj (congrArg Prod.fst h))
    by_cases htimed : s.timedOut = true
    · simp [htimed] at hp
    · rw [if_neg htimed] at hp
      rw [← some.inj hp, ← hst, finalState, if_neg htimed]

/-- **The books of a run.** Where the results are of different tasks, the profile's total, its tasks
and its agents agree with their costs. Every run gives the gauge of active crews back what it took,
one after the other and, counting the runs in flight, at once. -/
theorem books_balance :
    (∀ env spec m st p m', meteredRun env spec m = (.ok (st, some p), m') →
      (st.results.map taskId).Nodup → Conserved st.results p) ∧
    (∀ runs env spec m, (meteredRun env spec (afterRuns runs m)).2.crewsActive = m.crewsActive ∧
      (afterRuns runs m).crewsActive = m.crewsActive) ∧
    (∀ as bs s t, Prometheus.machine.exec {} as = some s → Prometheus.machine.exec s bs = some t →
      (∀ k, t.thread k ≠ .idle ↔ s.thread k ≠ .idle) →
        t.metrics.crewsActive = s.metrics.crewsActive) := by
  refine ⟨fun env spec m st p m' hrun hnodup => ?_, fun runs env spec m => ?_,
    fun as bs s t => Prometheus.active_returns⟩
  · rw [meteredRun_profile hrun]
    exact conserved_buildProfile hnodup
  · have hruns := afterRuns_active runs m
    exact ⟨(meteredRun_active env spec _).trans hruns, hruns⟩

/-- An environment in which every task is answered by `writer`, at one cost. -/
def priced (cost : Int64) : Env where
  cancelled _ := false
  deadline _ := false
  outcome t :=
    { taskId := t.id, output := "done", status := .completed
      metadata := { agent := some "writer", costMicroUsd := some cost } }
  timesOut _ := false
  outcome_taskId _ := rfl
  timesOut_failed _ h := absurd h (by decide)

def twoTasks : CrewSpec where
  id := "crew"
  name := "pair"
  agents := []
  tasks := [{ id := "a", description := "first" }, { id := "b", description := "second" }]
  process := .sequential

theorem books_balance_two :
    ∃ st p m, meteredRun (priced 7) twoTasks {} = (.ok (st, some p), m) ∧
      p.costMicroUsd.toInt = 14 ∧ Conserved st.results p := by
  have hrun := books_balance.1 (priced 7) twoTasks {}
  exact ⟨_, _, _, rfl, by decide, hrun _ _ _ rfl (by decide)⟩

/-- Two costs of `2 ^ 62` make a total of `-2 ^ 63`. -/
theorem total_wraps :
    ∃ st p m, meteredRun (priced 4611686018427387904) twoTasks {} = (.ok (st, some p), m) ∧
      (st.results.map taskId).Nodup ∧
      p.costMicroUsd.toInt = -9223372036854775808 ∧
      p.taskCost.sum toInt = 9223372036854775808 ∧
      (costs st.results).sum = 9223372036854775808 :=
  ⟨_, _, _, rfl, by decide, by decide +kernel, by decide +kernel, by decide +kernel⟩

end Agnosai.CrewRunner
