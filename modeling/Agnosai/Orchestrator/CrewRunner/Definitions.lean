import Agnosai.Core.Crew
import Agnosai.Orchestrator.Scheduler

/-!
# Orchestrator — CrewRunner — Definitions

The crew runner of `orchestrator/crew_runner.cyr`: the sequential loop, the batched wave, the DAG
loop over waves, and `agnosai_crew_runner_run`. Everything the runner does not decide itself comes
from an `Env`. It looks at the cancel flag and the clock at loop heads, in each worker and once at
the end; `Run.polls` numbers the looks, so an `Env` can raise a cancel or a deadline between any
two of them.

The workers of a batch run on their own threads; what a worker returns depends only on its own look
at the flag and on its task, so the trace puts each worker's execution right after its dispatch.
-/

namespace Agnosai.CrewRunner

/-- What the runner observes of the world during a run. -/
structure Env where
  /-- The cancel flag, at each look. -/
  cancelled : Nat → Bool
  /-- Whether the deadline has passed, at each look. -/
  deadline : Nat → Bool
  /-- What executing a task returns. -/
  outcome : Task → TaskResult
  /-- Whether the task's tool loop saw the deadline pass and raised the run's flag. -/
  timesOut : Task → Bool
  outcome_taskId : ∀ t, (outcome t).taskId = t.id
  /-- A tool loop that saw the deadline stops its task, which then fails. -/
  timesOut_failed : ∀ t, timesOut t = true → (outcome t).status ≠ .completed

/-- No cancel, and no deadline seen by the runner or by a task. -/
structure Env.Quiet (env : Env) : Prop where
  cancelled : ∀ n, env.cancelled n = false
  deadline : ∀ n, env.deadline n = false
  timesOut : ∀ t, env.timesOut t = false

inductive Step where
  | dispatch (t : Task)
  | execute (t : Task)
  | result (r : TaskResult)

/-- The runner's own state: looks taken, `AGN_CR_TIMED_OUT`, and the trace so far. -/
structure Run where
  polls : Nat := 0
  timedOut : Bool := false
  trace : List Step := []

/-- One look at the flag or the clock. -/
def Run.poll (s : Run) : Run := { s with polls := s.polls + 1 }

/-- Extend the trace. -/
def Run.log (s : Run) (e : Step) : Run := { s with trace := s.trace ++ [e] }

variable (env : Env)

/-- The check at a loop head, `agnosai_crew_runner_is_cancelled` and then
`_agnosai_crew_deadline_passed`, which raises the timed-out flag: whether to stop. -/
def Run.halt (s : Run) : Bool × Run :=
  if env.cancelled s.polls then (true, s.poll)
  else if env.deadline s.polls then (true, { s.poll with timedOut := true })
  else (false, s.poll)

/-- A task's execution, which may see the deadline in its tool loop. -/
def Run.executed (s : Run) (t : Task) : Run :=
  { s.log (.execute t) with timedOut := s.timedOut || env.timesOut t }

/-! ### One after the other -/

/-- `_agnosai_crew_run_sequential`. -/
def runSequential (env : Env) : List Task → Run → List TaskResult × Run
  | [], s => ([], s)
  | t :: ts, s =>
    match s.halt env with
    | (true, s) => ([], s)
    | (false, s) =>
      let s := (s.log (.dispatch t)).executed env t
      let r := env.outcome t
      let (rs, s) := runSequential env ts (s.log (.result r))
      (r :: rs, s)

/-! ### A wave -/

/-- The result of a job whose worker found the crew cancelled. -/
def cancelledResult (t : Task) : TaskResult :=
  { taskId := t.id, output := "crew cancelled", status := .failed }

/-- `_agnosai_crew_worker`. -/
def worker (t : Task) (s : Run) : TaskResult × Run :=
  if env.cancelled s.polls then (cancelledResult t, s.poll)
  else (env.outcome t, s.poll.executed env t)

/-- Hand each task of a batch to its worker. -/
def dispatchAll (env : Env) : List Task → Run → List TaskResult × Run
  | [], s => ([], s)
  | t :: ts, s =>
    let (r, s) := worker env t (s.log (.dispatch t))
    let (rs, s) := dispatchAll env ts s
    (r :: rs, s)

/-- Wait for a batch in dispatch order. -/
def collectAll (rs : List TaskResult) (s : Run) : Run :=
  rs.foldl (fun s r => s.log (.result r)) s

/-- A batch: everything is dispatched, then everything is waited for. -/
def runBatch (batch : List Task) (s : Run) : List TaskResult × Run :=
  let (rs, s) := dispatchAll env batch s
  (rs, collectAll rs s)

/-- Where a wave is: the jobs not dispatched, and the results so far. -/
structure WaveState where
  pending : List Task
  results : List TaskResult
  run : Run

/-- The wave's `while`, in batches of `limit`. -/
def waveLoop (limit : Nat) (hl : 0 < limit) :
    Loop WaveState (List TaskResult × Run) where
  step w :=
    match w.pending with
    | [] => .inr (w.results, w.run)
    | t :: ts =>
      match w.run.halt env with
      | (true, s) => .inr (w.results, s)
      | (false, s) =>
        let (rs, s) := runBatch env ((t :: ts).take limit) s
        .inl { pending := (t :: ts).drop limit, results := w.results ++ rs, run := s }
  measure w := w.pending.length
  decreasing {w w'} h := by
    split at h
    · cases h
    next heq =>
      split at h
      · cases h
      · cases h
        simp only [heq, List.length_drop, List.length_cons]
        omega

/-- The batch size of a wave over `n` tasks: a `max_concurrency` of 0 or less means all of them. -/
def waveLimit (process : ProcessMode) (n : Nat) : Int :=
  if process.maxConcurrency ≤ 0 then n else process.maxConcurrency

/-- `_agnosai_crew_run_wave`: `tasks`, at most `waveLimit` at once, their results after
`results`. -/
def runWave (process : ProcessMode) (tasks : List Task) (results : List TaskResult)
    (s : Run) : List TaskResult × Run :=
  if h : 0 < waveLimit process tasks.length then
    (waveLoop env (waveLimit process tasks.length).toNat (by omega)).run
      { pending := tasks, results := results, run := s }
  else (results, s)

/-! ### A DAG -/

/-- The `by_id` map: the last task of an id. -/
def byId (tasks : List Task) (id : String) : Option Task :=
  tasks.reverse.find? (·.id == id)

/-- `_agnosai_crew_deps_ready`. -/
def depsReady (t : Task) (completed : List String) : Bool :=
  t.dependencies.all (completed.contains ·)

/-- The task of an id, if its dependencies are all completed. -/
def readyTask (tasks : List Task) (completed : List String) (id : String) : Option Task :=
  (byId tasks id).filter (depsReady · completed)

/-- Where the DAG loop is. -/
structure DagState where
  remaining : List String
  completed : List String
  anyFailed : Bool
  results : List TaskResult
  run : Run

def deadlockText : String := "DAG deadlock: no ready tasks but remaining exist"

/-- The ids of the results that say `COMPLETED`. -/
def completedIds (rs : List TaskResult) : List String :=
  (rs.filter (·.status = .completed)).map TaskResult.taskId

/-- The ready front of what remains, in order. -/
def DagState.ready (d : DagState) (tasks : List Task) : List Task :=
  d.remaining.filterMap (readyTask tasks d.completed)

/-- What remains behind the ready front, in order. -/
def DagState.notReady (d : DagState) (tasks : List Task) : List String :=
  d.remaining.filter fun id => (readyTask tasks d.completed id).isNone

/-- The state once the wave over `ready` has left `out`: its new results fill the completed set, a
ready task that is not in it raises the failure flag for good, and the front is done with. -/
def DagState.settle (d : DagState) (tasks : List Task) (out : List TaskResult × Run) : DagState :=
  let completed := d.completed ++ completedIds (out.1.drop d.results.length)
  { remaining := d.notReady tasks
    completed := completed
    anyFailed := d.anyFailed || (d.ready tasks).any fun t => !completed.contains t.id
    results := out.1
    run := out.2 }

/-- A failure has stranded everything left. -/
def DagState.Stranded (d : DagState) (tasks : List Task) : Prop :=
  d.anyFailed ∧ d.remaining ≠ [] ∧ d.ready tasks = []

instance (d : DagState) (tasks : List Task) : Decidable (d.Stranded tasks) :=
  inferInstanceAs (Decidable (_ ∧ _ ∧ _))

variable (spec : CrewSpec)

/-- One round of the DAG loop, with work remaining and no reason to halt. -/
def dagRound (d : DagState) (s : Run) :
    DagState ⊕ (Except CrewError (List TaskResult) × Run) :=
  if d.ready spec.tasks = [] then
    if d.anyFailed then .inr (.ok d.results, s)
    else .inr (.error (.scheduling deadlockText), s)
  else
    let d' := d.settle spec.tasks (runWave env spec.process (d.ready spec.tasks) d.results s)
    if d'.Stranded spec.tasks then .inr (.ok d'.results, d'.run) else .inl d'

theorem length_notReady_lt {d : DagState} {tasks : List Task} (h : d.ready tasks ≠ []) :
    (d.notReady tasks).length < d.remaining.length := by
  obtain ⟨t, ht⟩ := List.exists_mem_of_ne_nil _ h
  obtain ⟨id, hid, hidt⟩ := List.mem_filterMap.1 ht
  refine List.length_filter_lt_length_iff_exists.2 ⟨id, hid, ?_⟩
  rw [hidt]
  simp

/-- The DAG's `while`. -/
def dagLoop :
    Loop DagState (Except CrewError (List TaskResult) × Run) where
  step d :=
    if d.remaining = [] then .inr (.ok d.results, d.run)
    else
      match d.run.halt env with
      | (true, s) => .inr (.ok d.results, s)
      | (false, s) => dagRound env spec d s
  measure d := d.remaining.length
  decreasing {d d'} h := by
    split at h
    · cases h
    · split at h
      · cases h
      · unfold dagRound at h
        split at h
        · split at h <;> cases h
        next hready =>
          dsimp only at h
          split at h
          · cases h
          · cases h
            exact length_notReady_lt hready

/-- `_agnosai_crew_run_dag`. -/
def runDag (s : Run) :
    Except CrewError (List TaskResult) × Run :=
  match Scheduler.sortTasks spec.tasks with
  | none => (.error .cyclicDag, s)
  | some order =>
    (dagLoop env spec).run
      { remaining := order, completed := [], anyFailed := false, results := [], run := s }

/-! ### The crew -/

/-- The results of a crew's tasks, by its process mode. Hierarchical falls back to sequential. -/
def runTasks (s : Run) :
    Except CrewError (List TaskResult) × Run :=
  match spec.process with
  | .parallel _ =>
    let (rs, s) := runWave env spec.process spec.tasks [] s
    (.ok rs, s)
  | .dag => runDag env spec s
  | .sequential | .hierarchical _ =>
    let (rs, s) := runSequential env spec.tasks s
    (.ok rs, s)

/-- The crew's final status: a timeout beats a cancel, which beats what the tasks say. -/
def finalStatus (results : List TaskResult) (s : Run) : CrewStatus :=
  if s.timedOut then .failed
  else if env.cancelled s.polls then .cancelled
  else if (∃ r ∈ results, r.status ≠ .completed) ∨ results.length < spec.tasks.length then .failed
  else .completed

/-- The state a run leaves: on a timeout, one with no results. -/
def finalState (results : List TaskResult) (s : Run) : CrewState where
  crewId := spec.id
  status := finalStatus env spec results s
  results := if s.timedOut then [] else results

/-- `agnosai_crew_runner_run`: the crew's state, or an error, and what the run did. -/
def crewRun : Except CrewError CrewState × Run :=
  match runTasks env spec {} with
  | (.error e, s) => (.error e, s)
  | (.ok results, s) => (.ok (finalState env spec results s), s.poll)

theorem crewRun_ok {env : Env} {spec : CrewSpec} {results : List TaskResult} {s : Run}
    (h : runTasks env spec {} = (.ok results, s)) :
    crewRun env spec = (.ok (finalState env spec results s), s.poll) := by
  rw [crewRun, h]

theorem crewRun_error {env : Env} {spec : CrewSpec} {e : CrewError} {s : Run}
    (h : crewRun env spec = (.error e, s)) : runTasks env spec {} = (.error e, s) := by
  unfold crewRun at h
  split at h
  next heq =>
    cases h
    exact heq
  · cases h

/-! ### Reading a trace -/

def dispatched (tr : List Step) : List Task :=
  tr.filterMap fun
    | .dispatch t => some t
    | _ => none

def executed (tr : List Step) : List Task :=
  tr.filterMap fun
    | .execute t => some t
    | _ => none

def collected (tr : List Step) : List TaskResult :=
  tr.filterMap fun
    | .result r => some r
    | _ => none

end Agnosai.CrewRunner
