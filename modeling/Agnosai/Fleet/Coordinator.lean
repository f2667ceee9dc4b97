import Agnosai.Fleet.State.Definitions

/-!
# Fleet — Coordinator

The coordinator of fleet tasks, after `fleet/coordinator.cyr`: tasks fanned out to nodes,
completions, failures with a ceiling on retries, and reassignment.

How often a task has failed is kept beside the tasks, by id. A fan-out that includes a task
replaces the task and not its count; a fan-out at capacity drops the tasks that are over with their
counts. So the count of an id is the number of its failures reported since it was last evicted
(`failures_eq`). Counts are integers: 2^63 failures of a task do not happen.
-/

namespace Agnosai.Fleet

open KeyMap List

/-- `AgnosaiFleetTaskStatus`. -/
inductive FleetTaskStatus where
  | pending
  | assigned
  | running
  | completed
  | failed
  | reassigned
  deriving DecidableEq

/-- `agnosai_fleet_task_status_is_terminal`. -/
def FleetTaskStatus.isTerminal : FleetTaskStatus → Bool
  | .completed | .failed => true
  | _ => false

/-- `AgnosaiFailoverAction`. -/
inductive FailoverAction where
  | retry
  | exhausted
  | unknownTask
  deriving DecidableEq

/-- `AgnosaiFleetTaskOff`. -/
structure FleetTask where
  taskId : String
  description : String
  assignedNode : Option String
  status : FleetTaskStatus

/-- `AgnosaiFleetCoordinatorOff`. -/
structure Coordinator where
  stateManager : Manager
  tasks : KeyMap String FleetTask
  maxRetries : Int
  retryCounts : KeyMap String Int

namespace Coordinator

/-- `AGNOSAI_MAX_RETAINED_TASKS`. -/
def maxRetainedTasks : Nat := 10000

/-- `agnosai_fleet_coordinator_with_max_retries`. -/
def withMaxRetries (maxRetries : Int) : Coordinator := ⟨.new, .empty, maxRetries, .empty⟩

variable (c : Coordinator)

/-- The tasks that are over. -/
def doomed : List String :=
  (c.tasks.entries.filter fun e => e.2.status.isTerminal).map Prod.fst

/-- `_agnosai_fc_evict_completed`. -/
def evictCompleted : Coordinator :=
  if c.tasks.size < maxRetainedTasks then c
  else { c with tasks := c.tasks.eraseAll c.doomed, retryCounts := c.retryCounts.eraseAll c.doomed }

/-- The task a fan-out makes. -/
def fanTask (amap : KeyMap String String) (pair : String × String) : FleetTask where
  taskId := pair.1
  description := pair.2
  assignedNode := amap.lookup pair.1
  status := if (amap.lookup pair.1).isSome then .assigned else .pending

/-- A node with one task more. -/
def countNode (perNode : KeyMap String Int) (node : String) : KeyMap String Int :=
  perNode.set node ((perNode.lookup node).getD 0 + 1)

/-- `agnosai_fleet_coordinator_fan_out`. Every node is given the largest number of tasks a node
has. -/
def fanOut (tasks assignments : List (String × String)) (drawn : Uuid) (now : Int) :
    Coordinator × String :=
  let c := c.evictCompleted
  let amap := assignments.foldl (fun m a => m.set a.1 a.2) .empty
  let placed := tasks.filterMap fun pair => amap.lookup pair.1
  let nodes := placed.foldl NodeSet.add .empty
  let perNode := placed.foldl countNode .empty
  let maxTasks := perNode.entries.foldl (fun most e => max most e.2) 0
  let store := tasks.foldl (fun m pair => m.set pair.1 (fanTask amap pair)) c.tasks
  let (stateManager, runId) := c.stateManager.createRun drawn nodes.ids maxTasks now
  ({ c with stateManager, tasks := store }, runId)

variable (taskId : String)

/-- Change a known task; the answer is whether there is one. -/
def onTask (f : FleetTask → FleetTask) : Coordinator × Bool :=
  match c.tasks.lookup taskId with
  | none => (c, false)
  | some t => ({ c with tasks := c.tasks.set taskId (f t) }, true)

/-- `agnosai_fleet_coordinator_task_completed`. -/
def taskCompleted : Coordinator × Bool :=
  c.onTask taskId fun t => { t with status := .completed }

/-- `agnosai_fleet_coordinator_task_failed`. The failure is counted first. -/
def taskFailed : Coordinator × FailoverAction :=
  match c.tasks.lookup taskId with
  | none => (c, .unknownTask)
  | some t =>
    let count := (c.retryCounts.lookup taskId).getD 0 + 1
    let c := { c with retryCounts := c.retryCounts.set taskId count }
    if count ≤ c.maxRetries then
      ({ c with tasks := c.tasks.set taskId { t with status := .reassigned } }, .retry)
    else ({ c with tasks := c.tasks.set taskId { t with status := .failed } }, .exhausted)

/-- `agnosai_fleet_coordinator_reassign`. The count stays. -/
def reassign (taskId newNode : String) : Coordinator × Bool :=
  c.onTask taskId fun t => { t with assignedNode := some newNode, status := .assigned }

end Coordinator

/-! ### Histories of calls -/

inductive Coordinator.Action where
  | fanOut (tasks assignments : List (String × String)) (drawn : Uuid) (now : Int)
  | taskCompleted (taskId : String)
  | taskFailed (taskId : String)
  | reassign (taskId newNode : String)

/-- The call reports a failure of the task. -/
def Coordinator.Action.fails (taskId : String) : Action → Bool
  | .taskFailed id => id = taskId
  | _ => false

def Coordinator.call (c : Coordinator) : Action → Coordinator
  | .fanOut tasks assignments drawn now => (c.fanOut tasks assignments drawn now).1
  | .taskCompleted taskId => (c.taskCompleted taskId).1
  | .taskFailed taskId => (c.taskFailed taskId).1
  | .reassign taskId newNode => (c.reassign taskId newNode).1

/-- The coordinator's machine: every call is possible in every state. -/
def coordinator : Machine Coordinator Coordinator.Action where
  step c a := some (c.call a)

namespace Coordinator

/-- The answers to the failures of a task, in order. -/
def reports (taskId : String) (c : Coordinator) : List Action → List FailoverAction
  | [] => []
  | a :: as =>
    if a.fails taskId then (c.taskFailed taskId).2 :: reports taskId (c.call a) as
    else reports taskId (c.call a) as

/-- How many failures are counted for a task. -/
def failures (c : Coordinator) (taskId : String) : Int := (c.retryCounts.lookup taskId).getD 0

/-- A fan-out drops the task: the coordinator is at capacity and the task is over. -/
def evicts (c : Coordinator) (taskId : String) : Bool :=
  maxRetainedTasks ≤ c.tasks.size && (c.tasks.lookup taskId).any (·.status.isTerminal)

/-- The failures of a task that were reported since it was last evicted, one call on from `k`. A
report of a task that is not known is none. -/
def reported (taskId : String) (c : Coordinator) (k : Nat) : Action → Nat
  | .fanOut .. => if c.evicts taskId then 0 else k
  | .taskFailed id => if id = taskId ∧ (c.tasks.lookup id).isSome then k + 1 else k
  | .taskCompleted _ | .reassign .. => k

/-- The same at the end of a history. -/
def reportedSince (taskId : String) (c : Coordinator) (k : Nat) : List Action → Nat
  | [] => k
  | a :: as => reportedSince taskId (c.call a) (reported taskId c k a) as

/-- The call is a fan-out that includes the task or drops it. -/
def Interrupts (taskId : String) (c : Coordinator) : Action → Prop
  | .fanOut tasks _ _ _ => taskId ∈ tasks.map Prod.fst ∨ c.evicts taskId
  | _ => False

variable {c : Coordinator} {taskId : String} {a : Action}

/-! ### What a call does -/

theorem mem_doomed :
    taskId ∈ c.doomed ↔ (c.tasks.lookup taskId).any (·.status.isTerminal) = true := by
  simp only [doomed, mem_map, mem_filter, Option.any_eq_true, lookup_eq_some]
  constructor
  · rintro ⟨⟨id, t⟩, ⟨hmem, hover⟩, rfl⟩
    exact ⟨t, hmem, hover⟩
  · rintro ⟨t, hmem, hover⟩
    exact ⟨(taskId, t), ⟨hmem, hover⟩, rfl⟩

theorem evictCompleted_of_not_evicts (h : c.evicts taskId = false) :
    c.evictCompleted.tasks.lookup taskId = c.tasks.lookup taskId ∧
      c.evictCompleted.retryCounts.lookup taskId = c.retryCounts.lookup taskId := by
  unfold evictCompleted
  split
  · exact ⟨rfl, rfl⟩
  next hfull =>
    have hstays : taskId ∉ c.doomed := by
      rw [mem_doomed]
      simpa [evicts, Nat.le_of_not_lt hfull] using h
    simp [lookup_eraseAll, hstays]

theorem evictCompleted_of_evicts (h : c.evicts taskId = true) :
    c.evictCompleted.tasks.lookup taskId = none ∧
      c.evictCompleted.retryCounts.lookup taskId = none := by
  obtain ⟨hfull, hover⟩ := Bool.and_eq_true_iff.1 h
  have hgone : taskId ∈ c.doomed := mem_doomed.2 hover
  simp only [evictCompleted, Nat.not_lt.2 (of_decide_eq_true hfull), if_false, lookup_eraseAll,
    hgone, if_true, and_self]

theorem evictCompleted_maxRetries : c.evictCompleted.maxRetries = c.maxRetries := by
  unfold evictCompleted
  split <;> rfl

theorem isSome_lookup_foldl_set {f : String × String → FleetTask} (tasks : List (String × String))
    (m : KeyMap String FleetTask) :
    ((tasks.foldl (fun m pair => m.set pair.1 (f pair)) m).lookup taskId).isSome
      ↔ taskId ∈ tasks.map Prod.fst ∨ (m.lookup taskId).isSome := by
  induction tasks generalizing m with
  | nil => simp
  | cons pair tasks ih =>
    rw [foldl_cons, ih, lookup_set, map_cons, mem_cons]
    by_cases h : taskId = pair.1 <;> simp [h]

theorem isSome_lookup_set {m : KeyMap String FleetTask} {id : String} {t t' : FleetTask}
    (h : m.lookup id = some t)
    (taskId : String) : ((m.set id t').lookup taskId).isSome = (m.lookup taskId).isSome := by
  rw [lookup_set]
  by_cases hid : taskId = id
  · rw [if_pos hid, hid, h]
    rfl
  · rw [if_neg hid]

theorem onTask_kept (id : String) (f : FleetTask → FleetTask) :
    (∀ taskId, ((c.onTask id f).1.tasks.lookup taskId).isSome = (c.tasks.lookup taskId).isSome) ∧
      (c.onTask id f).1.retryCounts = c.retryCounts ∧
        (c.onTask id f).1.maxRetries = c.maxRetries := by
  unfold onTask
  split
  · exact ⟨fun _ => rfl, rfl, rfl⟩
  next ht =>
    exact ⟨isSome_lookup_set ht, rfl, rfl⟩

/-- The answer to a failure of a known task is decided by its count. -/
theorem taskFailed_of_known (h : (c.tasks.lookup taskId).isSome) :
    (c.taskFailed taskId).2
      = if c.failures taskId + 1 ≤ c.maxRetries then .retry else .exhausted := by
  obtain ⟨t, ht⟩ := Option.isSome_iff_exists.1 h
  unfold failures
  by_cases hle : (c.retryCounts.lookup taskId).getD 0 + 1 ≤ c.maxRetries
  · simp [taskFailed, ht, hle]
  · simp [taskFailed, ht, hle]

/-- A failure of a known task is counted, and no other. -/
theorem taskFailed_kept (id : String) :
    (∀ taskId, ((c.taskFailed id).1.tasks.lookup taskId).isSome = (c.tasks.lookup taskId).isSome) ∧
      (c.taskFailed id).1.retryCounts = (if (c.tasks.lookup id).isSome then
        c.retryCounts.set id (c.failures id + 1) else c.retryCounts) ∧
      (c.taskFailed id).1.maxRetries = c.maxRetries := by
  unfold taskFailed
  split
  next hnone => exact ⟨fun _ => rfl, by rw [hnone]; rfl, rfl⟩
  next ht =>
    rw [ht]
    dsimp only
    split <;> exact ⟨isSome_lookup_set ht, rfl, rfl⟩

theorem call_maxRetries : (c.call a).maxRetries = c.maxRetries := by
  cases a with
  | fanOut => exact evictCompleted_maxRetries
  | taskCompleted id | reassign id => exact (onTask_kept id _).2.2
  | taskFailed id => exact (taskFailed_kept id).2.2

/-- **The step**: the count held for an id moves as the failures reported of it do. -/
theorem failures_call {k : Nat} (h : c.failures taskId = k) :
    (c.call a).failures taskId = reported taskId c k a := by
  have same : (c.call a).retryCounts.lookup taskId = c.retryCounts.lookup taskId →
      (c.call a).failures taskId = k := by
    intro hsame
    rw [failures, hsame]
    exact h
  have onTask : ∀ id f, (c.onTask id f).1.retryCounts.lookup taskId
      = c.retryCounts.lookup taskId := by
    intro id f
    rw [(onTask_kept id f).2.1]
  cases a with
  | fanOut tasks assignments drawn now =>
    rw [reported]
    split
    next hev =>
      have hgone : (c.call (.fanOut tasks assignments drawn now)).retryCounts.lookup taskId =
          none :=
        (evictCompleted_of_evicts hev).2
      rw [failures, hgone]
      rfl
    next hev => exact same (evictCompleted_of_not_evicts (Bool.eq_false_iff.2 hev)).2
  | taskCompleted id | reassign id => exact same (onTask id _)
  | taskFailed id =>
    rw [failures, call, (taskFailed_kept id).2.1, reported]
    by_cases hknown : (c.tasks.lookup id).isSome
    · by_cases hid : id = taskId
      · subst hid
        simp [hknown, lookup_set, h]
      · simp [hknown, lookup_set, hid, Ne.symm hid, ← h, failures]
    · simp [hknown, ← h, failures]

/-- **The run**: the count held for an id is the number of failures reported since its eviction. -/
theorem failures_eq {k : Nat} {as : List Action} {c' : Coordinator} (hk : c.failures taskId = k)
    (hrun : coordinator.exec c as = some c') :
    c'.failures taskId = reportedSince taskId c k as := by
  induction as generalizing c k with
  | nil =>
    cases hrun
    exact hk
  | cons a as ih =>
    obtain ⟨c₁, hstep, h₁⟩ := coordinator.exec_cons_some hrun
    cases hstep
    exact ih (failures_call hk) h₁

/-- What a call leaves of a task that is known: it stays known, and a failure of it is counted. -/
theorem call_spec (h : ¬ c.Interrupts taskId a) (hknown : (c.tasks.lookup taskId).isSome) :
    ((c.call a).tasks.lookup taskId).isSome ∧
      ∀ k, reported taskId c k a = k + if a.fails taskId then 1 else 0 := by
  cases a with
  | fanOut tasks assignments drawn now =>
    obtain ⟨-, hev⟩ := not_or.1 h
    rw [Bool.not_eq_true] at hev
    have htasks := (evictCompleted_of_not_evicts hev).1
    refine ⟨(isSome_lookup_foldl_set tasks _).2 (.inr (by rw [htasks]; exact hknown)), fun k => ?_⟩
    simp [reported, hev, Action.fails]
  | taskCompleted id | reassign id =>
    exact ⟨((onTask_kept id _).1 taskId).trans hknown, fun _ => rfl⟩
  | taskFailed id =>
    refine ⟨((taskFailed_kept id).1 taskId).trans hknown, fun k => ?_⟩
    by_cases hid : id = taskId
    · subst hid
      simp [reported, hknown, Action.fails]
    · simp [reported, hid, Action.fails]

/-! ### The answers -/

/-- **The answers to the failures of a task** are decided by the count they start from. -/
theorem reports_eq {k : Nat} (as : List Action) (hknown : (c.tasks.lookup taskId).isSome)
    (hk : c.failures taskId = k)
    (hcalm : coordinator.Along (fun c a => ¬ c.Interrupts taskId a) c as) :
    reports taskId c as = (range (as.countP (·.fails taskId))).map fun i =>
      if ((k + i : Nat) : Int) < c.maxRetries then .retry else .exhausted := by
  induction as generalizing c k with
  | nil => rfl
  | cons a as ih =>
    obtain ⟨hstays, hcount⟩ := call_spec hcalm.1 hknown
    rw [reports, ih hstays (failures_call hk) (hcalm.2 _ rfl), call_maxRetries, hcount, countP_cons]
    by_cases ha : a.fails taskId = true
    · simp only [ha, if_true, range_succ_eq_map, map_cons, map_map]
      refine cons_eq_cons.2 ⟨?_, map_congr_left fun i _ => ?_⟩
      · rw [taskFailed_of_known hknown, hk]
        exact if_congr Int.add_one_le_iff rfl rfl
      · simp only [Function.comp_apply, Nat.succ_eq_add_one, Nat.add_assoc, Nat.add_comm 1]
    · simp [ha]

end Coordinator

open Coordinator in
/-- **The answers after a fan-out** that includes a task, until the next one that includes or evicts
it: with `k` failures of the task reported since it was last evicted, `maxRetries - k` retries, then
exhausted. -/
theorem failures_answered (n : Int) (as bs : List Coordinator.Action)
    (tasks assignments : List (String × String)) (drawn : Uuid) (now : Int) (taskId : String)
    (hmem : taskId ∈ tasks.map Prod.fst) (c : Coordinator)
    (h : coordinator.exec (.withMaxRetries n) (as ++ [.fanOut tasks assignments drawn now]) =
      some c)
    (hcalm : coordinator.Along (fun c a => ¬ c.Interrupts taskId a) c bs) :
    let k := reportedSince taskId (.withMaxRetries n) 0
      (as ++ [.fanOut tasks assignments drawn now])
    reports taskId c bs = (range (bs.countP (·.fails taskId))).map fun i =>
      if ((k + i : Nat) : Int) < n then .retry else .exhausted := by
  have hmax : c.maxRetries = n := by
    refine coordinator.exec_invariant (I := fun c => c.maxRetries = n) rfl ?_ h
    rintro c a c' hc ⟨⟩
    rw [call_maxRetries, hc]
  have hnone : failures (.withMaxRetries n) taskId = 0 := rfl
  have hcount := failures_eq hnone h
  obtain ⟨c₀, -, hlast⟩ := coordinator.exec_append_some h
  cases hlast
  intro k
  rw [reports_eq bs ((isSome_lookup_foldl_set tasks _).2 (.inl hmem)) hcount hcalm, hmax]

/-- What is drawn for the runs below. -/
def drawn : Uuid := ⟨replicate 15 0 ++ [1], rfl⟩

/-- A fan-out of the one task `t`. -/
def fanT : Coordinator.Action := .fanOut [("t", "summarize")] [("t", "n1")] drawn 0

/-- The task has failed once before it is fanned out again, so it has one retry left of two. -/
theorem failures_answered_fanT :
    ∃ c, coordinator.exec (.withMaxRetries 2) ([fanT, .taskFailed "t"] ++ [fanT]) = some c ∧
      Coordinator.reports "t" c [.taskFailed "t", .reassign "t" "n2", .taskFailed "t"]
        = [.retry, .exhausted] :=
  ⟨_, rfl, failures_answered 2 [fanT, .taskFailed "t"]
    [.taskFailed "t", .reassign "t" "n2", .taskFailed "t"] [("t", "summarize")] [("t", "n1")]
    drawn 0 "t" (by decide) _ rfl ⟨id, fun _ _ => ⟨id, fun _ _ => ⟨id, fun _ _ => trivial⟩⟩⟩⟩

namespace Coordinator

/-- At capacity, a task that failed for good is dropped by the next fan-out, and then it is not
known. -/
theorem reports_of_full (drawn : Uuid) (now : Int) {tasks : List (String × String)}
    (hnodup : (tasks.map Prod.fst).Nodup)
    (hfull : maxRetainedTasks ≤ tasks.length) {taskId : String}
    (hmem : taskId ∈ tasks.map Prod.fst) :
    reports taskId ((withMaxRetries 0).fanOut tasks [] drawn now).1
      [.taskFailed taskId, .fanOut [] [] drawn now, .taskFailed taskId] =
        [.exhausted, .unknownTask] := by
  have hknown : ∀ id ∈ tasks.map Prod.fst,
      (((withMaxRetries 0).fanOut tasks [] drawn now).1.tasks.lookup id).isSome := by
    intro id hid
    exact (isSome_lookup_foldl_set tasks _).2 (.inl hid)
  have hmax : ((withMaxRetries 0).fanOut tasks [] drawn now).1.maxRetries = 0 := rfl
  have hzero : ((withMaxRetries 0).fanOut tasks [] drawn now).1.failures taskId = 0 := rfl
  generalize ((withMaxRetries 0).fanOut tasks [] drawn now).1 = c at hknown hmax hzero
  obtain ⟨t, ht⟩ := Option.isSome_iff_exists.1 (hknown taskId hmem)
  have hanswer : (c.taskFailed taskId).2 = .exhausted := by
    rw [taskFailed_of_known (hknown taskId hmem), hmax, hzero]
    rfl
  have hev : (c.taskFailed taskId).1.evicts taskId = true := by
    refine Bool.and_eq_true_iff.2 ⟨decide_eq_true ?_, ?_⟩
    · calc maxRetainedTasks
        _ ≤ (tasks.map Prod.fst).length := by rwa [length_map]
        _ ≤ (c.taskFailed taskId).1.tasks.size :=
          length_le_size hnodup fun id hid => ((taskFailed_kept taskId).1 id).trans (hknown id hid)
    · have hlt : ¬ (c.retryCounts.lookup taskId).getD 0 + 1 ≤ c.maxRetries := by
        rw [failures] at hzero
        rw [hmax, hzero]
        decide
      simp [taskFailed, ht, hlt, lookup_set, FleetTaskStatus.isTerminal]
  have hgone : ((c.taskFailed taskId).1.fanOut [] [] drawn now).1.tasks.lookup taskId = none :=
    (evictCompleted_of_evicts hev).1
  have hunknown : ((((c.taskFailed taskId).1.fanOut [] [] drawn now).1).taskFailed taskId).2 =
      .unknownTask := by
    rw [taskFailed, hgone]
  simp only [reports, Action.fails, call, hanswer, hunknown]
  simp

/-- As many tasks as are retained. -/
def manyTasks : List (String × String) :=
  (range maxRetainedTasks).map fun i => (String.ofList (replicate i 'x'), "")

theorem manyTasks_nodup : (manyTasks.map Prod.fst).Nodup := by
  rw [manyTasks, map_map]
  refine nodup_range.map fun i j hij => ?_
  have hlen := congrArg (fun s : String => s.toList.length) hij
  simpa using hlen

theorem mem_manyTasks : "" ∈ manyTasks.map Prod.fst := by
  rw [manyTasks, map_map]
  exact mem_map.2 ⟨0, mem_range.2 (by decide), rfl⟩

end Coordinator

/-- **A fan-out is no fresh start.** The task that failed once and is fanned out again has no retry
left of one; and a task that failed for good among 10000 is not known after a fan-out that does not
include it. -/
theorem failures_answered_otherwise :
    (∃ c, coordinator.exec (.withMaxRetries 1) [fanT, .taskFailed "t", fanT] = some c ∧
        Coordinator.reports "t" c [.taskFailed "t"] = [.exhausted]) ∧
      ∃ c, coordinator.exec (.withMaxRetries 0) [.fanOut Coordinator.manyTasks [] drawn 0] =
        some c ∧
        "" ∈ Coordinator.manyTasks.map Prod.fst ∧
        Coordinator.reports "" c [.taskFailed "", .fanOut [] [] drawn 0, .taskFailed ""]
          = [.exhausted, .unknownTask] :=
  ⟨⟨_, rfl, by decide +kernel⟩, _, rfl, Coordinator.mem_manyTasks,
    Coordinator.reports_of_full drawn 0 Coordinator.manyTasks_nodup
      (by simp [Coordinator.manyTasks]) Coordinator.mem_manyTasks⟩

end Agnosai.Fleet
