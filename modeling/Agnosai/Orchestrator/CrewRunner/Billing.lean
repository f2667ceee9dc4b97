import Agnosai.Orchestrator.Answer.Outcome
import Agnosai.Orchestrator.Answer.Usage
import Agnosai.Orchestrator.CrewRunner.Dag
import Agnosai.Orchestrator.CrewRunner.Profile

/-!
# Orchestrator — CrewRunner — Billing

What a run is charged for responses that the gateway answered from its cache. Hoosh says so in the
`X-Hoosh-Cache` header, and replays the body of the original inference, its cost included. The
client keeps both, and nothing reads what the header said: a response from the cache is charged for
like any other.

A `Desk` is what executes the tasks of a crew. What a header says may depend on everything that
happened before the response.
-/

namespace Agnosai.CrewRunner

open Answer Llm ToolLoop List Int64 Prod
open Prometheus (Metrics)

/-- What executes the tasks of a crew, and what the gateway's headers say. -/
structure Desk where
  engine : Task → Engine
  registry : Option (String → Option Tool)
  redacted : String → String
  agentOf : Task → Option Agent
  header : Task → Trace → Option String

/-- The responses in a trace that follows `before`, with what their headers say of the cache. -/
def answersFrom (header : Trace → Option String) (before : Trace) :
    Trace → List (Response × Cache)
  | [] => []
  | e :: tr =>
    match e with
    | .answered r => (r, cacheOf (header before)) :: answersFrom header (before ++ [e]) tr
    | _ => answersFrom header (before ++ [e]) tr

/-- The responses that the gateway answered from its cache. -/
def replayed (answers : List (Response × Cache)) : List Response :=
  (answers.filter fun a => a.2.replayed).map fst

/-- Those that it did not. -/
def uncached (answers : List (Response × Cache)) : List Response :=
  (answers.filter fun a => !a.2.replayed).map fst

/-- The cost a result reports; a missing one is nothing. -/
def taskCost (r : TaskResult) : Int := (r.metadata.costMicroUsd.map toInt).getD 0

namespace Desk

variable (d : Desk)

variable (t : Task)

def execute : TaskResult × Trace :=
  executeTask (some (d.engine t)) d.registry d.redacted t (d.agentOf t) []

theorem execute_spec :
    Executed (d.engine t) t (d.agentOf t) (startTools d.registry (d.agentOf t)) (d.execute t) :=
  executeTask_executed (d.engine t) d.registry d.redacted t (d.agentOf t)

/-- What the runner sees of it. -/
def env (cancelled deadline : Nat → Bool) : Env where
  cancelled
  deadline
  outcome t := (d.execute t).1
  timesOut t := sawDeadline (d.execute t).2
  outcome_taskId t := (d.execute_spec t).taskId
  timesOut_failed t h hcompleted := (d.execute_spec t).inTime hcompleted (sawDeadline_iff.1 h)

/-- With one engine for all tasks it is the environment of `Answer.Outcome`. -/
theorem env_eq_taskEnv (e : Engine) (cancelled deadline : Nat → Bool) :
    { d with engine := fun _ => e }.env cancelled deadline =
      taskEnv e d.registry d.redacted d.agentOf cancelled deadline := rfl

def answers : List (Response × Cache) := answersFrom (d.header t) [] (d.execute t).2

/-- What the responses of a task cost, by the gateway's reports. -/
def reported : Int := (reportedCosts (received (d.execute t).2)).sum

/-- What those of them cost that were not from the cache. -/
def uncachedCost : Int := (reportedCosts (uncached (d.answers t))).sum

/-- The costs that the gateway reports to these tasks are prices: not negative, and less than `2 ^
63` micro-dollars in all. -/
structure Priced (ts : List Task) : Prop where
  nonneg : ∀ t ∈ ts, ∀ c ∈ reportedCosts (received (d.execute t).2), 0 ≤ c
  fits : (ts.map d.reported).sum < 2 ^ 63

/-- A response from the cache comes without a cost, or with one of 0. -/
def ReplaysFree : Prop :=
  ∀ r ∈ replayed (d.answers t), r.reportedCost = none ∨ r.reportedCost = some 0

end Desk

/-! ### A task -/

theorem answersFrom_received (header : Trace → Option String) (before tr : Trace) :
    (answersFrom header before tr).map fst = received tr := by
  induction tr generalizing before with
  | nil => rfl
  | cons e tr ih =>
    have hrest := ih (before ++ [e])
    cases e with
    | answered =>
      rw [answersFrom, map_cons, hrest]
      rfl
    | _ => exact hrest

/-- What was reported splits by the cache. -/
theorem reportedCosts_split (answers : List (Response × Cache)) :
    (reportedCosts (answers.map fst)).sum =
      (reportedCosts (uncached answers)).sum + (reportedCosts (replayed answers)).sum := by
  have hperm : (replayed answers ++ uncached answers).Perm (answers.map fst) := by
    rw [replayed, uncached, ← map_append]
    exact (filter_append_perm (fun a => a.2.replayed) answers).map fst
  have hsum := (hperm.filterMap Response.reportedCost).sum_eq
  rw [filterMap_append, sum_append] at hsum
  rw [add_comm]
  exact hsum.symm

theorem mem_reportedCosts {rs : List Response} {c : Int} :
    c ∈ reportedCosts rs ↔ ∃ r ∈ rs, r.reportedCost = some c := mem_filterMap

/-- Costs that are not negative sum to 0 when each of them is. -/
theorem reportedCosts_sum_eq_zero {rs : List Response} (hnonneg : ∀ c ∈ reportedCosts rs, 0 ≤ c) :
    (reportedCosts rs).sum = 0 ↔ ∀ r ∈ rs, r.reportedCost = none ∨ r.reportedCost = some 0 := by
  constructor
  · intro hsum r hr
    cases hcost : r.reportedCost with
    | none => exact .inl rfl
    | some c =>
      have hmem : c ∈ reportedCosts rs := mem_reportedCosts.2 ⟨r, hr, hcost⟩
      exact .inr (congrArg some (all_zero_of_le_zero_le_of_sum_eq_zero hnonneg hsum hmem))
  · intro hfree
    refine sum_eq_zero fun c hc => ?_
    obtain ⟨r, hr, hcost⟩ := mem_reportedCosts.1 hc
    rcases hfree r hr with h | h
    · rw [h] at hcost
      cases hcost
    · rw [h] at hcost
      exact (Option.some.inj hcost).symm

section Task

variable {d : Desk} {ts : List Task} {t : Task}

theorem received_execute : received (d.execute t).2 = (d.answers t).map fst :=
  (answersFrom_received (d.header t) [] (d.execute t).2).symm

theorem Desk.reported_split :
    d.reported t = d.uncachedCost t + (reportedCosts (replayed (d.answers t))).sum := by
  rw [Desk.reported, received_execute]
  exact reportedCosts_split (d.answers t)

theorem Desk.Priced.reported_nonneg (h : d.Priced ts) (ht : t ∈ ts) : 0 ≤ d.reported t :=
  sum_nonneg (h.nonneg t ht)

theorem Desk.Priced.reported_lt (h : d.Priced ts) (ht : t ∈ ts) : d.reported t < 2 ^ 63 := by
  have hall : ∀ x ∈ ts.map d.reported, 0 ≤ x := by
    intro x hx
    obtain ⟨u, hu, rfl⟩ := mem_map.1 hx
    exact h.reported_nonneg hu
  have hle := single_le_sum hall (d.reported t) (mem_map.2 ⟨t, ht, rfl⟩)
  exact lt_of_le_of_lt hle h.fits

/-- A task is charged for every response, from the cache or not. -/
theorem Desk.Priced.taskCost_eq_reported (h : d.Priced ts) (ht : t ∈ ts) :
    taskCost (d.execute t).1 = d.reported t := by
  have hcost := (d.execute_spec t).accounts.cost (h.nonneg t ht) (h.reported_lt ht)
  rw [taskCost, hcost, costOf]
  split
  next hnil => rw [Desk.reported, hnil]; rfl
  next => rfl

/-- **A task's cost.** -/
theorem Desk.Priced.taskCost_eq_uncached (h : d.Priced ts) (ht : t ∈ ts) :
    taskCost (d.execute t).1 = d.uncachedCost t ↔ d.ReplaysFree t := by
  have hnonneg : ∀ c ∈ reportedCosts (replayed (d.answers t)), 0 ≤ c := by
    intro c hc
    obtain ⟨r, hr, hcost⟩ := mem_reportedCosts.1 hc
    refine h.nonneg t ht c (mem_reportedCosts.2 ⟨r, ?_, hcost⟩)
    rw [received_execute]
    exact map_subset fst (filter_subset_self _) hr
  rw [h.taskCost_eq_reported ht, Desk.reported_split, Desk.ReplaysFree,
    ← reportedCosts_sum_eq_zero hnonneg]
  exact add_eq_left

end Task

/-! ### A run -/

variable {env : Env}

/-- What the execution of tasks adds to the costs. -/
def charge (env : Env) (ts : List Task) : Int := (ts.map fun t => (costs [env.outcome t]).sum).sum

theorem charge_append (ts us : List Task) :
    charge env (ts ++ us) = charge env ts + charge env us := by
  rw [charge, map_append, sum_append]
  rfl

theorem charge_singleton (t : Task) : charge env [t] = (costs [env.outcome t]).sum :=
  sum_singleton

/-- Between `s` and `s'` the results `rs` cost what was executed. -/
def Charged (env : Env) (s s' : Run) (rs : List TaskResult) : Prop :=
  charge env (executed s'.trace) = charge env (executed s.trace) + (costs rs).sum

variable {s : Run} {spec : CrewSpec}

theorem Charged.nil {s' : Run} (h : s'.trace = s.trace) : Charged env s s' [] := by
  rw [Charged, h]
  exact (add_zero _).symm

theorem Charged.trans {s₁ s₂ : Run} {rs rs' : List TaskResult} (h : Charged env s s₁ rs)
    (h' : Charged env s₁ s₂ rs') : Charged env s s₂ (rs ++ rs') := by
  rw [Charged, h', h, costs_append, sum_append, add_assoc]

/-- A loop head charges nothing. -/
theorem Charged.of_halt {s₀ s' : Run} {rs : List TaskResult} {b : Bool} (h : Charged env s₀ s rs)
    (hhalt : s.halt env = (b, s')) : Charged env s₀ s' rs := by
  rwa [Charged, Run.halt_trace hhalt]

variable (env)

/-- A task that is executed on the spot. -/
theorem charged_executed (s : Run) (t : Task) :
    Charged env s (((s.log (.dispatch t)).executed env t).log (.result (env.outcome t)))
      [env.outcome t] := by
  simp only [Charged, Run.log_trace, Run.executed_trace, executed_append, executed_dispatch,
    executed_execute, executed_result, append_nil, charge_append, charge_singleton]

theorem runSequential_charged (tasks : List Task) (s : Run) :
    Charged env s (runSequential env tasks s).2 (runSequential env tasks s).1 := by
  induction tasks generalizing s with
  | nil => exact .nil rfl
  | cons t ts ih =>
    rcases h : s.halt env with ⟨_ | _, s₀⟩
    · simp only [runSequential, h]
      exact ((Charged.nil rfl).of_halt h).trans ((charged_executed env s₀ t).trans (ih _))
    · simp only [runSequential, h]
      exact .nil (Run.halt_trace h)

/-- A worker that found the crew cancelled charges nothing. -/
theorem worker_charged (t : Task) (s : Run) :
    Charged env s (worker env t (s.log (.dispatch t))).2
      [(worker env t (s.log (.dispatch t))).1] := by
  unfold worker
  split
  · simp only [Charged, Run.poll_trace, Run.log_trace, executed_append, executed_dispatch,
      append_nil]
    exact (add_zero _).symm
  · simp only [Charged, Run.executed_trace, Run.poll_trace, Run.log_trace, executed_append,
      executed_dispatch, executed_execute, append_nil, charge_append, charge_singleton]

theorem dispatchAll_charged (ts : List Task) (s : Run) :
    Charged env s (dispatchAll env ts s).2 (dispatchAll env ts s).1 := by
  induction ts generalizing s with
  | nil => exact .nil rfl
  | cons t ts ih => exact (worker_charged env t s).trans (ih _)

/-- Waiting executes nothing. -/
theorem runBatch_charged (batch : List Task) (s : Run) :
    Charged env s (runBatch env batch s).2 (runBatch env batch s).1 := by
  obtain ⟨htrace, -⟩ := collectAll_trace (dispatchAll env batch s).1 (dispatchAll env batch s).2
  obtain ⟨-, hnone, -⟩ := results_only (dispatchAll env batch s).1
  have hcharged := dispatchAll_charged env batch s
  rw [Charged] at hcharged ⊢
  rw [runBatch, htrace, executed_append, hnone, append_nil]
  exact hcharged

/-- A wave charges for its results. -/
theorem runWave_charged (process : ProcessMode) (tasks : List Task)
    (results : List TaskResult) {s₀ : Run} (h : Charged env s₀ s results) :
    Charged env s₀ (runWave env process tasks results s).2
      (runWave env process tasks results s).1 := by
  unfold runWave
  split
  · refine Loop.run_rule _ waveLoop_step (I := fun w => Charged env s₀ w.run w.results)
      (Q := fun out => Charged env s₀ out.2 out.1) ?_ ?_ ?_
    · rintro w w' hw ⟨s₁, -, hs, rfl⟩
      exact (hw.of_halt hs).trans (runBatch_charged env _ s₁)
    · rintro w out hw (⟨-, rfl⟩ | ⟨s₁, -, hs, rfl⟩)
      · exact hw
      · exact hw.of_halt hs
    · exact h
  · exact h

variable {env}

variable {results : List TaskResult}

/-- A run charges for each result. -/
theorem runDag_charged
    (h : (runDag env spec s).1 = .ok results) : Charged env s (runDag env spec s).2 results := by
  unfold runDag at h ⊢
  split at h
  · cases h
  · refine (dagLoop env spec).run_rule (dagLoop_step env spec)
      (I := fun d => Charged env s d.run d.results)
      (Q := fun out => ∀ rs, out.1 = .ok rs → Charged env s out.2 rs) ?_ ?_ (Charged.nil rfl) _ h
    · rintro d d' hd ⟨s₁, hs, -, rfl⟩
      exact runWave_charged env spec.process _ _ (hd.of_halt hs)
    · intro d out hd hexit rs hrs
      cases hexit with
      | empty => cases hrs; exact hd
      | halted hs | blocked hs => cases hrs; exact hd.of_halt hs
      | deadlock => cases hrs
      | stranded hs =>
        cases hrs
        exact runWave_charged env spec.process _ _ (hd.of_halt hs)

/-- **The results of a run cost what it executed**, in every process mode. -/
theorem runTasks_charged (h : runTasks env spec {} = (.ok results, s)) :
    (costs results).sum = charge env (executed s.trace) := by
  have hcharged : Charged env {} s results := by
    unfold runTasks at h
    cases hp : spec.process with
    | parallel =>
      rw [hp] at h
      cases h
      exact runWave_charged env _ _ _ (Charged.nil rfl)
    | dag =>
      rw [hp] at h
      have hdag : Charged env {} (runDag env spec {}).2 results :=
        runDag_charged (congrArg fst h)
      rwa [show runDag env spec {} = (.ok results, s) from h] at hdag
    | sequential | hierarchical =>
      rw [hp] at h
      cases h
      exact runSequential_charged env _ _
  rw [hcharged]
  exact (zero_add _).symm

/-! ### The profile and the metric -/

theorem sum_costs_cons (r : TaskResult) (rs : List TaskResult) :
    (costs (r :: rs)).sum = (costs [r]).sum + (costs rs).sum := by
  rw [← singleton_append, costs_append, sum_append]

theorem record_cost (p : Profile) (r : TaskResult) :
    (p.record r).costMicroUsd = p.costMicroUsd + ofInt (costs [r]).sum := by
  cases hc : positiveCost r with
  | none =>
    rw [record_none hc, costs_none hc]
    exact (Int64.add_zero _).symm
  | some => rw [record_costMicroUsd hc, costs_some hc, sum_singleton, ofInt_toInt]

/-- A result adds its own cost. -/
theorem recordResult_cost (m : Metrics) (r : TaskResult) :
    (recordResult m r).costMicroUsd = m.costMicroUsd + ofInt (costs [r]).sum := by
  have hstatus : (if r.status = .completed then m.recordTaskCompleted
      else m.recordTaskFailed).costMicroUsd = m.costMicroUsd := by
    split <;> rfl
  have hcost : ofInt (costs [r]).sum = (positiveCost r).getD 0 := by
    cases hc : positiveCost r with
    | none => rw [costs_none hc]; rfl
    | some => rw [costs_some hc, sum_singleton, ofInt_toInt]; rfl
  simp only [recordResult]
  split
  · rw [Metrics.recordInference, hstatus, hcost]
  · -- with no cost to record, and no tokens
    rename_i hnone
    rw [not_or] at hnone
    cases hc : positiveCost r with
    | none => rw [hstatus, costs_none hc]; exact (Int64.add_zero _).symm
    | some c =>
      have hpos : 0 < c := lt_iff_toInt_lt.2 (positiveCost_pos hc)
      rw [hc] at hnone
      exact absurd hpos hnone.2

/-- A total that each result adds its cost to. -/
theorem foldl_cost {σ : Type} (total : σ → Int64) (record : σ → TaskResult → σ)
    (h : ∀ s r, total (record s r) = total s + ofInt (costs [r]).sum) (rs : List TaskResult)
    (s : σ) : total (rs.foldl record s) = total s + ofInt (costs rs).sum := by
  induction rs generalizing s with
  | nil => exact (Int64.add_zero _).symm
  | cons r rs ih =>
    rw [foldl_cons, ih, h, sum_costs_cons r rs, Int64.ofInt_add, Int64.add_assoc]

theorem buildProfile_cost : (buildProfile results).costMicroUsd = ofInt (costs results).sum :=
  (foldl_cost Profile.costMicroUsd Profile.record record_cost results _).trans (Int64.zero_add _)

theorem recordMetrics_cost (m : Metrics) :
    (recordMetrics m results).costMicroUsd = m.costMicroUsd + ofInt (costs results).sum :=
  foldl_cost Metrics.costMicroUsd recordResult recordResult_cost results m

/-- What a run that returns a state leaves in the profile, if it has one, and in the metric. -/
theorem meteredRun_cost {m m' : Metrics} {st : CrewState} {p : Option Profile}
    (h : meteredRun env spec m = (.ok (st, p), m')) :
    (∀ q ∈ p, q.costMicroUsd = ofInt (charge env (executed (runTasks env spec {}).2.trace))) ∧
      m'.costMicroUsd =
        m.costMicroUsd + ofInt (charge env (executed (runTasks env spec {}).2.trace)) := by
  unfold meteredRun at h
  split at h
  · cases h
  next results s hrun =>
    cases h
    rw [hrun, ← runTasks_charged hrun]
    refine ⟨fun q hq => ?_, recordMetrics_cost _⟩
    split at hq
    · cases hq
    · cases hq
      exact buildProfile_cost

/-! ### What a run is charged for -/

namespace Desk

variable (d : Desk) (cancelled deadline : Nat → Bool) (spec : CrewSpec) (m : Metrics)

/-- The tasks that a run executes. -/
def ran : List Task := CrewRunner.executed (runTasks (d.env cancelled deadline) spec {}).2.trace

/-- What the run's responses cost that were not from the cache. -/
def uncachedTotal : Int := ((d.ran cancelled deadline spec).map d.uncachedCost).sum

/-- The costs of a run count only the responses that were not from the cache. -/
structure CountsUncached : Prop where
  tasks : ∀ t ∈ d.ran cancelled deadline spec, taskCost (d.execute t).1 = d.uncachedCost t
  profile : ∀ st p m', meteredRun (d.env cancelled deadline) spec m = (.ok (st, some p), m') →
    p.costMicroUsd.toInt = d.uncachedTotal cancelled deadline spec
  metric : ∀ st p m', meteredRun (d.env cancelled deadline) spec m = (.ok (st, p), m') →
    m'.costMicroUsd = m.costMicroUsd + ofInt (d.uncachedTotal cancelled deadline spec)

end Desk

/-- The cost a result adds is the one it reports, if that is not negative. -/
theorem sum_costs_singleton {r : TaskResult} (h : 0 ≤ taskCost r) :
    (costs [r]).sum = taskCost r := by
  unfold taskCost at h ⊢
  cases hcost : r.metadata.costMicroUsd with
  | none =>
    have hnone : positiveCost r = none := by rw [positiveCost, hcost]; rfl
    rw [costs_none hnone]
    rfl
  | some c =>
    rw [hcost] at h
    by_cases hpos : 0 < c
    · have hsome : positiveCost r = some c := by
        rw [positiveCost, hcost]
        exact Option.filter_some_pos (decide_eq_true hpos)
      rw [costs_some hsome, sum_singleton]
      rfl
    · have hnone : positiveCost r = none := by
        rw [positiveCost, hcost]
        exact Option.filter_some_neg (by simpa using hpos)
      have hzero : c.toInt ≤ 0 := not_lt.1 fun hlt => hpos (lt_iff_toInt_lt.2 hlt)
      rw [costs_none hnone]
      exact (le_antisymm hzero h).symm

section Run

variable {d : Desk} {cancelled deadline : Nat → Bool} {spec : CrewSpec}

/-- A run is charged for every response, from the cache or not. -/
theorem Desk.Priced.charge_eq_reported {ts : List Task} (h : d.Priced ts) :
    charge (d.env cancelled deadline) ts = (ts.map d.reported).sum := by
  refine congrArg sum (map_congr_left fun t ht => ?_)
  have hcost := h.taskCost_eq_reported ht
  have hnonneg : 0 ≤ taskCost (d.execute t).1 := hcost ▸ h.reported_nonneg ht
  exact (sum_costs_singleton hnonneg).trans hcost

/-- Replays that are free leave the costs of the other responses. -/
theorem Desk.Priced.uncachedTotal_eq_reported (h : d.Priced (d.ran cancelled deadline spec))
    (hfree : ∀ t ∈ d.ran cancelled deadline spec, d.ReplaysFree t) :
    d.uncachedTotal cancelled deadline spec =
      ((d.ran cancelled deadline spec).map d.reported).sum := by
  refine congrArg sum (map_congr_left fun t ht => ?_)
  rw [← (h.taskCost_eq_uncached ht).2 (hfree t ht)]
  exact h.taskCost_eq_reported ht

end Run

/-- **What a run is charged for.** Where the gateway reports prices, the costs of a run's tasks, its
profile and the cost metric count only the responses that were not from the cache exactly if those
that were came without a cost, or with one of 0. -/
theorem uncached_iff (d : Desk) (cancelled deadline : Nat → Bool) (spec : CrewSpec) (m : Metrics)
    (h : d.Priced (d.ran cancelled deadline spec)) :
    d.CountsUncached cancelled deadline spec m ↔
      ∀ t ∈ d.ran cancelled deadline spec, d.ReplaysFree t := by
  constructor
  · intro hcounts t ht
    exact (h.taskCost_eq_uncached ht).1 (hcounts.tasks t ht)
  · intro hfree
    have htotal := h.uncachedTotal_eq_reported hfree
    have hcharge : charge (d.env cancelled deadline) (d.ran cancelled deadline spec) =
        d.uncachedTotal cancelled deadline spec := h.charge_eq_reported.trans htotal.symm
    refine ⟨fun t ht => (h.taskCost_eq_uncached ht).2 (hfree t ht), ?_, ?_⟩
    · intro st p m' hrun
      have hprofile := (meteredRun_cost hrun).1 p rfl
      rw [hprofile, ← Desk.ran, hcharge]
      have hnonneg : 0 ≤ d.uncachedTotal cancelled deadline spec := by
        rw [htotal]
        refine sum_nonneg fun x hx => ?_
        obtain ⟨t, ht, rfl⟩ := mem_map.1 hx
        exact h.reported_nonneg ht
      have hlt : d.uncachedTotal cancelled deadline spec < 2 ^ 63 := htotal ▸ h.fits
      exact toInt_ofInt_of_le (by omega) hlt
    · intro st p m' hrun
      have hmetric := (meteredRun_cost hrun).2
      rw [hmetric, ← Desk.ran, hcharge]

/-- A desk whose task is answered twice: first by an inference, and then from the cache. -/
def replayDesk (cost cost' : Int64) : Desk where
  engine _ :=
    twiceEngine { content := "", model := "m", costMicroUsd := cost }
      { content := "yes", model := "m", costMicroUsd := cost' }
  registry := none
  redacted := id
  agentOf _ := none
  header _ tr := some (if (received tr).isEmpty then "MISS" else "HIT")

/-- A crew of that task. -/
def replayCrew : CrewSpec where
  id := "crew"
  name := "single"
  agents := []
  tasks := [twiceTask]
  process := .sequential

/-- An inference of 4 and a replay without a cost. -/
theorem uncached_iff_replay :
    (replayDesk 4 (-1)).CountsUncached (fun _ => false) (fun _ => false) replayCrew {} ∧
      (replayDesk 4 (-1)).uncachedTotal (fun _ => false) (fun _ => false) replayCrew = 4 := by
  have hpriced : (replayDesk 4 (-1)).Priced [twiceTask] := by
    refine ⟨?_, by decide +kernel⟩
    rintro t ht
    cases mem_singleton.1 ht
    decide +kernel
  have hfree : ∀ t ∈ [twiceTask], (replayDesk 4 (-1)).ReplaysFree t := by
    rintro t ht
    cases mem_singleton.1 ht
    unfold Desk.ReplaysFree
    decide +kernel
  have hiff := uncached_iff (replayDesk 4 (-1)) (fun _ => false) (fun _ => false) replayCrew {}
  exact ⟨(hiff hpriced).2 hfree, by decide +kernel⟩

/-- An inference of 4 and its replay, with a cost of 3 in its body: 7 is charged. -/
theorem charges_replay :
    (replayDesk 4 3).uncachedTotal (fun _ => false) (fun _ => false) replayCrew = 4 ∧
      ((replayDesk 4 3).answers twiceTask).map snd = [.miss, .hit] ∧
      taskCost ((replayDesk 4 3).execute twiceTask).1 = 7 ∧
      (∃ st p m, meteredRun ((replayDesk 4 3).env (fun _ => false) fun _ => false) replayCrew {} =
        (.ok (st, some p), m) ∧ p.costMicroUsd.toInt = 7 ∧ m.costMicroUsd.toInt = 7) ∧
      ¬(replayDesk 4 3).CountsUncached (fun _ => false) (fun _ => false) replayCrew {} := by
  refine ⟨by decide +kernel, by decide +kernel, by decide +kernel,
    ⟨_, _, _, rfl, by decide +kernel, by decide +kernel⟩, fun hcounts => ?_⟩
  have htask := hcounts.tasks twiceTask (mem_singleton_self _)
  revert htask
  decide +kernel

end Agnosai.CrewRunner
