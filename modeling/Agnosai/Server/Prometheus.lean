import Mathlib.Data.Finset.Card
import Agnosai.Support.Machine

/-!
# Server — Prometheus

The process-wide metrics, after `server/prometheus.cyr`: six words that every crew run writes with
atomic operations. `crewsActive` is a gauge: a run raises it when it starts and lowers it when it
ends, by a compare-and-swap loop that never goes below zero. `machine` is that loop with any
number of runs at once. The counts are natural numbers; the two sums over inferences are 64-bit.
-/

namespace Agnosai.Prometheus

open Function

/-- `AgnosaiMetricsOff`. -/
structure Metrics where
  crewsTotal : Nat := 0
  crewsActive : Nat := 0
  tasksCompleted : Nat := 0
  tasksFailed : Nat := 0
  tokensTotal : Int64 := 0
  costMicroUsd : Int64 := 0

variable (m : Metrics)

/-- `agnosai_metrics_record_crew_started`. -/
def Metrics.recordCrewStarted : Metrics :=
  { m with crewsTotal := m.crewsTotal + 1, crewsActive := m.crewsActive + 1 }

/-- `agnosai_metrics_record_crew_completed`, when nobody else is writing: not below zero. -/
def Metrics.recordCrewCompleted : Metrics :=
  { m with crewsActive := m.crewsActive - 1 }

/-- `agnosai_metrics_record_task_completed`. -/
def Metrics.recordTaskCompleted : Metrics :=
  { m with tasksCompleted := m.tasksCompleted + 1 }

/-- `agnosai_metrics_record_task_failed`. -/
def Metrics.recordTaskFailed : Metrics :=
  { m with tasksFailed := m.tasksFailed + 1 }

/-- `agnosai_metrics_record_inference`. -/
def Metrics.recordInference (tokens costMicroUsd : Int64) : Metrics :=
  { m with
    tokensTotal := m.tokensTotal + tokens
    costMicroUsd := m.costMicroUsd + costMicroUsd }

/-! ### Runs at once -/

/-- Where a thread stands with its run. -/
inductive Phase where
  /-- It has no run. -/
  | idle
  /-- Its run has started; it may be at the head of the loop that lowers the gauge. -/
  | running
  /-- It has read the gauge, and is about to compare and swap. -/
  | loaded (cur : Nat)
  deriving Repr, DecidableEq

structure State where
  metrics : Metrics := {}
  thread : Nat → Phase := fun _ => .idle

inductive Action where
  /-- Thread `k` starts a run. -/
  | start (k : Nat)
  /-- The run of thread `k` is over, by whichever exit: it reads the gauge. -/
  | load (k : Nat)
  /-- It compares and swaps, and tries again when the gauge has moved. -/
  | cas (k : Nat)

/-- Move thread `k`. -/
def State.move (s : State) (k : Nat) (phase : Phase) : State :=
  { s with thread := update s.thread k phase }

def step (s : State) : Action → Option State
  | .start k =>
    match s.thread k with
    | .idle => some ({ s with metrics := s.metrics.recordCrewStarted }.move k .running)
    | _ => none
  | .load k =>
    match s.thread k with
    | .running =>
      if s.metrics.crewsActive = 0 then some (s.move k .idle)
      else some (s.move k (.loaded s.metrics.crewsActive))
    | _ => none
  | .cas k =>
    match s.thread k with
    | .loaded cur =>
      if s.metrics.crewsActive = cur then
        some ({ s with metrics := { s.metrics with crewsActive := cur - 1 } }.move k .idle)
      else some (s.move k .running)
    | _ => none

def machine : Machine State Action := ⟨step⟩

variable {s s' t : State} {a : Action} {as bs : List Action}

/-- `S` are the threads with a run in flight. -/
def InFlight (s : State) (S : Finset Nat) : Prop := ∀ k, k ∈ S ↔ s.thread k ≠ .idle

theorem InFlight.unique {S T : Finset Nat} (hS : InFlight s S) (hT : InFlight s T) : S = T := by
  ext k
  rw [hS k, hT k]

/-- What an action does: a run starts and the gauge rises, a run ends and the gauge goes down by one
if it can, or a thread goes on with its run. -/
theorem step_cases (h : step s a = some s') : ∃ k,
    (s.thread k = .idle ∧ s'.thread = update s.thread k .running ∧
      s'.metrics.crewsActive = s.metrics.crewsActive + 1) ∨
    (s.thread k ≠ .idle ∧ s'.thread = update s.thread k .idle ∧
      s'.metrics.crewsActive = s.metrics.crewsActive - 1) ∨
    (s.thread k ≠ .idle ∧ ∃ phase, phase ≠ .idle ∧
      s'.thread = update s.thread k phase ∧
      s'.metrics.crewsActive = s.metrics.crewsActive) := by
  cases a with
  | start k =>
    simp only [step] at h
    split at h
    next hk =>
      cases h
      exact ⟨k, .inl ⟨hk, rfl, rfl⟩⟩
    next => cases h
  | load k =>
    simp only [step] at h
    split at h
    next hk =>
      have hne : s.thread k ≠ .idle := by rw [hk]; decide
      split at h
      next hzero =>
        cases h
        exact ⟨k, .inr (.inl ⟨hne, rfl, by rw [hzero]; exact hzero⟩)⟩
      next =>
        cases h
        exact ⟨k, .inr (.inr ⟨hne, .loaded s.metrics.crewsActive, nofun, rfl, rfl⟩)⟩
    next => cases h
  | cas k =>
    simp only [step] at h
    split at h
    next hk =>
      have hne : s.thread k ≠ .idle := by rw [hk]; nofun
      split at h
      next hcur =>
        cases h
        exact ⟨k, .inr (.inl ⟨hne, rfl, by rw [hcur]; rfl⟩)⟩
      next =>
        cases h
        exact ⟨k, .inr (.inr ⟨hne, .running, nofun, rfl, rfl⟩)⟩
    next => cases h

/-- **One step.** The gauge is the number of runs in flight. -/
theorem active_step (hI : ∃ S, InFlight s S ∧ s.metrics.crewsActive = S.card)
    (h : step s a = some s') : ∃ S, InFlight s' S ∧ s'.metrics.crewsActive = S.card := by
  obtain ⟨S, hS, hcard⟩ := hI
  obtain ⟨k, ⟨hk, hthread, hactive⟩ | ⟨hk, hthread, hactive⟩ |
    ⟨hk, phase, hphase, hthread, hactive⟩⟩ := step_cases h
  · refine ⟨insert k S, fun j => ?_, ?_⟩
    · rw [Finset.mem_insert, hthread, update_apply, hS j]
      by_cases hj : j = k
      · simp [hj]
      · simp [hj]
    · rw [hactive, hcard, Finset.card_insert_of_notMem fun hmem => (hS k).1 hmem hk]
  · refine ⟨S.erase k, fun j => ?_, ?_⟩
    · rw [Finset.mem_erase, hthread, update_apply, hS j]
      by_cases hj : j = k
      · simp [hj]
      · simp [hj]
    · rw [hactive, hcard, Finset.card_erase_of_mem ((hS k).2 hk)]
  · refine ⟨S, fun j => ?_, hactive.trans hcard⟩
    rw [hthread, update_apply, hS j]
    by_cases hj : j = k
    · simp [hj, hk, hphase]
    · simp [hj]

/-- **The run.** In every interleaving the gauge is the number of runs in flight. -/
theorem active_eq (h : machine.exec {} as = some s) :
    ∃ S, InFlight s S ∧ s.metrics.crewsActive = S.card :=
  machine.exec_invariant
    ⟨∅, fun k => by simp, rfl⟩ (fun _ _ _ hI hstep => active_step hI hstep) h

/-- Whenever the same runs are in flight again, the gauge is what it was. -/
theorem active_returns (hs : machine.exec {} as = some s) (ht : machine.exec s bs = some t)
    (hsame : ∀ k, t.thread k ≠ .idle ↔ s.thread k ≠ .idle) :
    t.metrics.crewsActive = s.metrics.crewsActive := by
  obtain ⟨S, hS, hcard⟩ := active_eq hs
  obtain ⟨T, hT, hcard'⟩ := active_eq ((machine.exec_append hs).trans ht)
  have hT' : InFlight s T := fun k => (hT k).trans (hsame k)
  rw [hcard', hcard, hS.unique hT']

end Agnosai.Prometheus
