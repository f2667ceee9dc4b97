import Agnosai.Core.Uuid
import Agnosai.Orchestrator.CrewRunner.Order
import Agnosai.Support.Dfs

/-!
# Server — Crews

The crew request of `server/routes/crews.cyr`: its validation, with the messages it answers, and
the crew it is turned into. On the wire a dependency is the position of a task in the request; in
the crew it is the UUID minted for that task.

The validator's cycle check is the three-mark walk of `Support.Dfs` over positions. Carried over
to distinct ids the graph stays closed and acyclic. Ids are distinct when the random draws behind
them are (`DistinctDraws`).
-/

namespace Agnosai.Crews

open List

/-- A task of a request. A dependency is a position; a negative one does not parse. -/
structure TaskRequest where
  description : String
  expectedOutput : Option String := none
  priority : Option TaskPriority := none
  dependencies : List Nat := []

structure CrewRunRequest where
  name : String
  agents : List Agent
  tasks : List TaskRequest
  process : Option String := none
  maxConcurrency : Option Nat := none

/-! ### Validation -/

def maxAgents : Nat := 100
def maxTasks : Nat := 1000
def maxStringLen : Nat := 10000

variable (tasks : List TaskRequest)

/-- The dependencies of the task at a position that are in range. -/
def nextTasks (node : Nat) : List Nat :=
  match tasks[node]? with
  | none => []
  | some t => t.dependencies.filter (· < tasks.length)

/-- The graph the cycle check walks. -/
def depGraph : FinGraph Nat where
  nodes := range tasks.length
  next := nextTasks tasks
  mem_nodes {x y} h := by
    unfold nextTasks at h
    split at h
    · exact absurd h not_mem_nil
    next t ht =>
      refine ⟨List.mem_range.2 (List.getElem?_eq_some_iff.1 ht).1, List.mem_range.2 ?_⟩
      simpa using (mem_filter.1 h).2

/-- `agnosai_crew_has_dependency_cycle`. -/
def hasDependencyCycle : Bool :=
  (depGraph tasks).hasCycle

/-- `_agnosai_crew_err_len`. -/
def errLen (pre : String) : String := pre ++ toString maxStringLen ++ " characters"

/-- `_agnosai_crew_err_indexed`. -/
def errIndexed (pre : String) (index : Nat) (post : String) : String :=
  pre ++ toString index ++ post

def agentError (i : Nat) (a : Agent) : Option String :=
  if a.key.utf8ByteSize > maxStringLen ∨ a.role.utf8ByteSize > maxStringLen then
    some (errIndexed "agent " i ": field exceeds max length")
  else none

/-- The check of one dependency of the task at position `j`. -/
def depError (n j dep : Nat) : Option String :=
  if dep ≥ n then
    some ("task " ++ toString j ++ ": dependency index " ++ toString dep ++ " out of range")
  else if dep = j then some (errIndexed "task " j ": self-dependency")
  else none

def taskError (n j : Nat) (t : TaskRequest) : Option String :=
  if t.description.utf8ByteSize > maxStringLen then
    some (errIndexed "task " j ": description exceeds max length")
  else t.dependencies.findSome? (depError n j)

/-- `agnosai_validate_crew_request`: `none` when valid, else the message of the answer. -/
def validateCrewRequest (r : CrewRunRequest) : Option String :=
  if r.name.utf8ByteSize = 0 ∨ r.name.utf8ByteSize > maxStringLen then
    some (errLen "name must be 1-")
  else if r.agents.length = 0 then some "at least one agent is required"
  else if r.agents.length > maxAgents then
    some ("at most " ++ toString maxAgents ++ " agents allowed")
  else if r.tasks.length = 0 then some "at least one task is required"
  else if r.tasks.length > maxTasks then
    some ("at most " ++ toString maxTasks ++ " tasks allowed")
  else
    (r.agents.zipIdx.findSome? fun p => agentError p.2 p.1)
      <|> (r.tasks.zipIdx.findSome? fun p => taskError r.tasks.length p.2 p.1)
      <|> if hasDependencyCycle r.tasks then some "task dependencies contain a cycle" else none

/-! ### The crew -/

def defaultConcurrency : Nat := 4
def maxConcurrency : Nat := 64

variable (draw : Nat → Uuid)

/-- The id minted from the `k`-th draw. -/
def mint (k : Nat) : String := (draw k).v4.toStr

/-- `_agnosai_route_process_for`, whose manager id is the draw after the crew's own. -/
def processFor (r : CrewRunRequest) : ProcessMode :=
  match r.process with
  | some "hierarchical" => .hierarchical (mint draw 1)
  | some "dag" => .dag
  | some "parallel" =>
    .parallel (max 1 (min (r.maxConcurrency.getD defaultConcurrency) maxConcurrency))
  | _ => .sequential

/-- The first draw for a task: the crew's id comes before, and a hierarchical crew's manager. -/
def firstTaskDraw (r : CrewRunRequest) : Nat :=
  if r.process = some "hierarchical" then 2 else 1

/-- The id of the task at a position of the request. -/
def taskId (r : CrewRunRequest) (i : Nat) : String :=
  mint draw (firstTaskDraw r + i)

/-- The task built at position `j`, its dependencies resolved to ids in a second pass. -/
def buildTask (r : CrewRunRequest) (j : Nat) (t : TaskRequest) : Task where
  id := taskId draw r j
  description := t.description
  expectedOutput := t.expectedOutput
  priority := (t.priority.getD .normal).value
  dependencies := (t.dependencies.filter (· < r.tasks.length)).map (taskId draw r)

/-- `_agnosai_route_build_spec`. -/
def buildSpec (r : CrewRunRequest) : CrewSpec where
  id := mint draw 0
  name := r.name
  agents := r.agents
  tasks := r.tasks.mapIdx (buildTask draw r)
  process := processFor draw r

/-! ### The cycle check -/

/-- The index dependency graph: the task at `a` names position `b`, which is in range. -/
def DependsAt (a b : Nat) : Prop :=
  ∃ t, tasks[a]? = some t ∧ b ∈ t.dependencies ∧ b < tasks.length

theorem edge_iff {tasks : List TaskRequest} {a b : Nat} :
    (depGraph tasks).Edge a b ↔ DependsAt tasks a b := by
  simp only [FinGraph.Edge, depGraph, nextTasks, DependsAt]
  cases h : tasks[a]? with
  | none => simp
  | some => simp

/-- The walk reports a cycle exactly when the index graph has one. -/
theorem hasDependencyCycle_iff :
    hasDependencyCycle tasks = true ↔ ¬ Graph.Acyclic (DependsAt tasks) := by
  have hedge : (depGraph tasks).Edge = DependsAt tasks := by
    funext a b
    exact propext edge_iff
  rw [hasDependencyCycle, FinGraph.hasCycle_iff, hedge]

/-! ### What is accepted -/

/-- A request that is within the limits and whose dependencies are in range, not to itself and
without a cycle. -/
structure WellFormed (r : CrewRunRequest) : Prop where
  name : r.name.utf8ByteSize ≠ 0 ∧ r.name.utf8ByteSize ≤ maxStringLen
  agents : r.agents.length ≠ 0 ∧ r.agents.length ≤ maxAgents
  tasks : r.tasks.length ≠ 0 ∧ r.tasks.length ≤ maxTasks
  fields : ∀ a ∈ r.agents, a.key.utf8ByteSize ≤ maxStringLen ∧ a.role.utf8ByteSize ≤ maxStringLen
  descriptions : ∀ t ∈ r.tasks, t.description.utf8ByteSize ≤ maxStringLen
  deps : ∀ j t, r.tasks[j]? = some t → ∀ dep ∈ t.dependencies, dep < r.tasks.length ∧ dep ≠ j
  acyclic : Graph.Acyclic (DependsAt r.tasks)

theorem agentError_eq_none {i : Nat} {a : Agent} :
    agentError i a = none ↔
      a.key.utf8ByteSize ≤ maxStringLen ∧ a.role.utf8ByteSize ≤ maxStringLen := by
  unfold agentError
  split
  · exact ⟨nofun, fun ⟨hk, hr⟩ => by omega⟩
  · exact ⟨fun _ => by omega, fun _ => rfl⟩

theorem depError_eq_none {n j dep : Nat} : depError n j dep = none ↔ dep < n ∧ dep ≠ j := by
  unfold depError
  split
  · exact ⟨nofun, fun ⟨hlt, _⟩ => by omega⟩
  · split
    next hj =>
      exact ⟨nofun, fun ⟨_, hne⟩ => absurd hj hne⟩
    next hne =>
      exact ⟨fun _ => ⟨by omega, hne⟩, fun _ => rfl⟩

theorem taskError_eq_none {n j : Nat} {t : TaskRequest} :
    taskError n j t = none ↔ t.description.utf8ByteSize ≤ maxStringLen ∧
      ∀ dep ∈ t.dependencies, dep < n ∧ dep ≠ j := by
  unfold taskError
  split
  · exact ⟨nofun, fun ⟨hle, _⟩ => by omega⟩
  · rw [findSome?_eq_none_iff]
    simp only [depError_eq_none]
    exact ⟨fun h => ⟨by omega, h⟩, fun h => h.2⟩

/-- **The validator accepts exactly the well-formed requests.** -/
theorem validateCrewRequest_eq_none_iff {r : CrewRunRequest} :
    validateCrewRequest r = none ↔ WellFormed r := by
  have hcycle : hasDependencyCycle r.tasks = false ↔ Graph.Acyclic (DependsAt r.tasks) := by
    rw [← Bool.not_eq_true, hasDependencyCycle_iff, not_not]
  constructor
  · intro h
    unfold validateCrewRequest at h
    split at h
    · cases h
    split at h
    · cases h
    split at h
    · cases h
    split at h
    · cases h
    split at h
    · cases h
    simp only [Option.orElse_eq_orElse, Option.orElse_eq_or, Option.or_eq_none_iff,
      findSome?_eq_none_iff, agentError_eq_none, taskError_eq_none] at h
    obtain ⟨hagents, htasks, hcyc⟩ := h
    have hall := fun j t (hj : r.tasks[j]? = some t) =>
      htasks (t, j) (mem_zipIdx_iff_getElem?.2 hj)
    refine ⟨by omega, by omega, by omega, fun a ha => ?_, fun t ht => ?_,
      fun j t hj => (hall j t hj).2, ?_⟩
    · obtain ⟨i, hi⟩ := mem_iff_getElem?.1 ha
      exact hagents (a, i) (mem_zipIdx_iff_getElem?.2 hi)
    · obtain ⟨j, hj⟩ := mem_iff_getElem?.1 ht
      exact (hall j t hj).1
    · rw [← hcycle]
      simpa using hcyc
  · intro h
    have hname := h.name
    have hagents := h.agents
    have htasks := h.tasks
    unfold validateCrewRequest
    rw [if_neg (by omega), if_neg hagents.1, if_neg (by omega), if_neg htasks.1, if_neg (by omega)]
    simp only [Option.orElse_eq_orElse, Option.orElse_eq_or, Option.or_eq_none_iff,
      findSome?_eq_none_iff, agentError_eq_none, taskError_eq_none]
    refine ⟨fun p hp => h.fields p.1 ?_, fun p hp => ⟨h.descriptions p.1 ?_, ?_⟩, ?_⟩
    · exact mem_of_getElem? (mem_zipIdx_iff_getElem?.1 hp)
    · exact mem_of_getElem? (mem_zipIdx_iff_getElem?.1 hp)
    · exact h.deps p.2 p.1 (mem_zipIdx_iff_getElem?.1 hp)
    · rw [hcycle.2 h.acyclic]
      rfl

/-! ### The ids of the crew -/

variable {draw : Nat → Uuid} {r : CrewRunRequest}

/-- No two of the first `k` draws agree on all the bits a version 4 UUID keeps. -/
def DistinctDraws (draw : Nat → Uuid) (k : Nat) : Prop :=
  ∀ i < k, ∀ j < k, (draw i).v4 = (draw j).v4 → i = j

theorem taskId_injective (hd : DistinctDraws draw (firstTaskDraw r + r.tasks.length)) {i j : Nat}
    (hi : i < r.tasks.length) (hj : j < r.tasks.length) (h : taskId draw r i = taskId draw r j) :
    i = j := by
  have hdraw := hd (firstTaskDraw r + i) (by omega) (firstTaskDraw r + j) (by omega)
    (Uuid.toStr_injective h)
  omega

theorem mem_buildSpec {t : Task} :
    t ∈ (buildSpec draw r).tasks ↔ ∃ j u, r.tasks[j]? = some u ∧ t = buildTask draw r j u := by
  simp only [buildSpec, mem_mapIdx, getElem?_eq_some_iff]
  constructor
  · rintro ⟨j, hj, rfl⟩
    exact ⟨j, _, ⟨hj, rfl⟩, rfl⟩
  · rintro ⟨j, u, ⟨hj, rfl⟩, rfl⟩
    exact ⟨j, hj, rfl⟩

/-- The crew's dependencies are the request's, under the minted ids. -/
theorem dependsOn_iff {x y : String} :
    DependsOn (buildSpec draw r).tasks x y ↔
      ∃ a b, x = taskId draw r a ∧ y = taskId draw r b ∧ DependsAt r.tasks a b := by
  constructor
  · rintro ⟨t, ht, rfl, hy⟩
    obtain ⟨a, u, hu, rfl⟩ := mem_buildSpec.1 ht
    obtain ⟨b, hb, rfl⟩ := mem_map.1 hy
    obtain ⟨hmem, hlt⟩ := mem_filter.1 hb
    exact ⟨a, b, rfl, rfl, u, hu, hmem, by simpa using hlt⟩
  · rintro ⟨a, b, rfl, rfl, u, hu, hmem, hlt⟩
    refine ⟨_, mem_buildSpec.2 ⟨a, u, hu, rfl⟩, rfl, mem_map.2 ⟨b, ?_, rfl⟩⟩
    exact mem_filter.2 ⟨hmem, by simpa using hlt⟩

theorem mem_taskIds {x : String} :
    x ∈ (buildSpec draw r).taskIds ↔ ∃ a < r.tasks.length, x = taskId draw r a := by
  simp only [CrewSpec.taskIds, mem_map, mem_buildSpec]
  constructor
  · rintro ⟨t, ⟨j, u, hu, rfl⟩, rfl⟩
    exact ⟨j, (List.getElem?_eq_some_iff.1 hu).1, rfl⟩
  · rintro ⟨a, ha, rfl⟩
    exact ⟨_, ⟨a, r.tasks[a], getElem?_eq_getElem ha, rfl⟩, rfl⟩

/-- The crew's dependencies name only its own tasks. -/
theorem buildSpec_closed :
    Graph.Closed (buildSpec draw r).taskIds (DependsOn (buildSpec draw r).tasks) := by
  intro x _ y hxy
  obtain ⟨a, b, -, rfl, -, -, -, hb⟩ := dependsOn_iff.1 hxy
  exact mem_taskIds.2 ⟨b, hb, rfl⟩

/-- A walk along the crew's ids is a walk along the request's positions. -/
theorem transGen_dependsAt (hd : DistinctDraws draw (firstTaskDraw r + r.tasks.length))
    {x y : String} (h : Relation.TransGen (DependsOn (buildSpec draw r).tasks) x y) :
    ∃ a b, a < r.tasks.length ∧ b < r.tasks.length ∧ x = taskId draw r a ∧ y = taskId draw r b ∧
      Relation.TransGen (DependsAt r.tasks) a b := by
  have hlt : ∀ {a b}, DependsAt r.tasks a b → a < r.tasks.length ∧ b < r.tasks.length := by
    rintro a b ⟨t, ht, -, hb⟩
    exact ⟨(List.getElem?_eq_some_iff.1 ht).1, hb⟩
  induction h with
  | single hxy =>
    obtain ⟨a, b, hx, hy, hab⟩ := dependsOn_iff.1 hxy
    exact ⟨a, b, (hlt hab).1, (hlt hab).2, hx, hy, .single hab⟩
  | tail _ hyz ih =>
    obtain ⟨a, b, ha, hb, hx, hy, hab⟩ := ih
    obtain ⟨b', c, hy', hz, hbc⟩ := dependsOn_iff.1 hyz
    obtain rfl := taskId_injective hd hb (hlt hbc).1 (hy.symm.trans hy')
    exact ⟨a, c, ha, (hlt hbc).2, hx, hz, hab.tail hbc⟩

theorem buildSpec_acyclic (hd : DistinctDraws draw (firstTaskDraw r + r.tasks.length))
    (ha : Graph.Acyclic (DependsAt r.tasks)) :
    Graph.Acyclic (DependsOn (buildSpec draw r).tasks) := by
  intro x hx
  obtain ⟨a, b, hal, hbl, rfl, hab, hwalk⟩ := transGen_dependsAt hd hx
  obtain rfl := taskId_injective hd hal hbl hab
  exact ha a hwalk

/-- **An accepted request runs.** The cycle check is exact on every task list; and for every
request the validator accepts, whatever its process mode and whatever happens during the run, the
crew built from it has closed and acyclic dependencies, sorts, and its run returns a state. -/
theorem accepted_request_runs :
    (∀ tasks, hasDependencyCycle tasks = true ↔ ¬ Graph.Acyclic (DependsAt tasks)) ∧
    ∀ (draw : Nat → Uuid) (r : CrewRunRequest), validateCrewRequest r = none →
      DistinctDraws draw (firstTaskDraw r + r.tasks.length) →
      Graph.Closed (buildSpec draw r).taskIds (DependsOn (buildSpec draw r).tasks) ∧
      Graph.Acyclic (DependsOn (buildSpec draw r).tasks) ∧
      (Scheduler.sortTasks (buildSpec draw r).tasks).isSome ∧
      ∀ env, ∃ state s, CrewRunner.crewRun env (buildSpec draw r) = (.ok state, s) := by
  refine ⟨hasDependencyCycle_iff, fun draw r hv hd => ?_⟩
  have ha := buildSpec_acyclic hd (validateCrewRequest_eq_none_iff.1 hv).acyclic
  exact ⟨buildSpec_closed, ha, Scheduler.sortTasks_isSome_of_acyclic ha,
    fun _ => CrewRunner.crewRun_ok_of_closed_acyclic buildSpec_closed ha⟩

/-- One task, a second after it, and a third after both. -/
def triangle : CrewRunRequest where
  name := "triangle"
  agents := [{ key := "worker", role := "writer", goal := "write" }]
  tasks :=
    [{ description := "third", dependencies := [1, 2] },
      { description := "second", dependencies := [2] },
      { description := "first" }]
  process := some "dag"

/-- Draws that count up in their first byte. -/
def countingDraw (k : Nat) : Uuid where
  bytes := UInt8.ofNat k :: replicate 15 0
  length_eq := by simp

/-- The triangle is accepted, and its crew returns a state in every run. -/
theorem accepted_request_runs_triangle :
    validateCrewRequest triangle = none ∧
      ∀ env, ∃ state s, CrewRunner.crewRun env (buildSpec countingDraw triangle) =
        (.ok state, s) := by
  have hv : validateCrewRequest triangle = none := by decide +kernel
  have hd : DistinctDraws countingDraw (firstTaskDraw triangle + triangle.tasks.length) := by
    unfold DistinctDraws
    decide +kernel
  exact ⟨hv, (accepted_request_runs.2 countingDraw triangle hv hd).2.2.2⟩

end Agnosai.Crews
