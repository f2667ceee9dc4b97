import Agnosai.Core.Task
import Agnosai.Order
import Agnosai.Support.KeyMap
import Agnosai.Support.Loop
import Mathlib.Algebra.GroupWithZero.Nat

/-!
# Orchestrator — Scheduler — Definitions

The scheduler's two modes, after `orchestrator/scheduler.cyr`: five first-in first-out queues, one
for each priority, and a loaded DAG with its tasks that are ready. A DAG names its tasks by key, a
string of bytes. The keys of a map come in the order of its entries, which stands for the order in
which `map_keys` lists them.
-/

namespace Agnosai

/-- `TaskDag`: tasks by key, and edges from the key that must complete first. -/
structure TaskDag where
  tasks : KeyMap Bytes Task
  edges : List (Bytes × Bytes)

namespace Scheduler

/-- `AGNOSAI_SCHED_TIERS`. -/
def tiers : Nat := 5

/-- A priority as the index of a queue: one outside the tiers is clamped. -/
def clampTier (priority : Int) : Fin tiers :=
  if _h : priority < 0 then ⟨0, by decide⟩
  else if _h' : tiers ≤ priority then ⟨tiers - 1, by decide⟩
  else ⟨priority.toNat, by omega⟩

def tierOf (t : Task) : Fin tiers := clampTier t.priority

/-- `AgnosaiSchedulerOff`. -/
structure State where
  queues : Fin tiers → List Task := fun _ => []
  dagTasks : KeyMap Bytes Task := .empty
  dagKeys : List Bytes := []
  dependents : KeyMap Bytes (List Bytes) := .empty
  dependencies : KeyMap Bytes (List Bytes) := .empty
  idToKey : KeyMap String Bytes := .empty

/-! ### The queues -/

variable (s : State)

/-- `agnosai_scheduler_enqueue`. -/
def enqueue (t : Task) : State :=
  { s with queues := Function.update s.queues (tierOf t) (s.queues (tierOf t) ++ [t]) }

/-- The loop of `agnosai_scheduler_dequeue` over the tiers that are left. -/
def dequeueFrom (s : State) : List (Fin tiers) → Option Task × State
  | [] => (none, s)
  | tier :: below =>
    match s.queues tier with
    | [] => dequeueFrom s below
    | task :: rest => (some task, { s with queues := Function.update s.queues tier rest })

/-- `agnosai_scheduler_dequeue`: the highest tier is drained first. -/
def dequeue : Option Task × State := dequeueFrom s (List.finRange tiers).reverse

/-- `agnosai_scheduler_len`. -/
def len : Nat := ((List.finRange tiers).map fun tier => (s.queues tier).length).sum

/-! ### The adjacency of a DAG -/

/-- `_agnosai_sched_add_edge`: an edge that is listed twice is added once. -/
def addEdge (m : KeyMap Bytes (List Bytes)) (key value : Bytes) : KeyMap Bytes (List Bytes) :=
  let set := (m.lookup key).getD []
  m.set key (if value ∈ set then set else set ++ [value])

/-- A key with no edges yet. -/
def addKey (m : KeyMap Bytes (List Bytes)) (key : Bytes) : KeyMap Bytes (List Bytes) :=
  if (m.lookup key).isNone then m.set key [] else m

structure Adjacency where
  dependents : KeyMap Bytes (List Bytes) := .empty
  dependencies : KeyMap Bytes (List Bytes) := .empty

/-- A key is in both maps even with no edges. -/
def Adjacency.seed (adj : Adjacency) (k : Bytes) : Adjacency where
  dependents := addKey adj.dependents k
  dependencies := addKey adj.dependencies k

/-- The source of an edge must complete before its target may run. -/
def Adjacency.add (adj : Adjacency) (edge : Bytes × Bytes) : Adjacency where
  dependents := addEdge adj.dependents edge.1 edge.2
  dependencies := addEdge adj.dependencies edge.2 edge.1

/-- `_agnosai_sched_build`, but for the keys, which are those of the tasks. -/
def build (dag : TaskDag) : Adjacency :=
  dag.edges.foldl Adjacency.add (dag.tasks.keys.foldl Adjacency.seed {})

/-! ### The sort of a DAG -/

/-- Where the sort is: the counts, what is queued, and what was taken. -/
structure KahnState where
  inDegree : KeyMap Bytes Int
  queue : List Bytes
  order : List Bytes

/-- The in-degree of each key, with the keys that have none queued. -/
def seedDegree (dependencies : KeyMap Bytes (List Bytes)) (acc : KeyMap Bytes Int × List Bytes)
    (k : Bytes) : KeyMap Bytes Int × List Bytes :=
  let deg := ((dependencies.lookup k).getD []).length
  (acc.1.set k deg, if deg = 0 then acc.2 ++ [k] else acc.2)

/-- A successor waits for one edge less, and is queued when that was the last. One that is no key
is skipped. -/
def releaseOne (acc : KeyMap Bytes Int × List Bytes) (succ : Bytes) :
    KeyMap Bytes Int × List Bytes :=
  match acc.1.lookup succ with
  | none => acc
  | some deg => (acc.1.set succ (deg - 1), if deg - 1 = 0 then acc.2 ++ [succ] else acc.2)

/-- How many keys wait for something. -/
def stillWaiting (inDegree : KeyMap Bytes Int) : Nat :=
  inDegree.sum fun deg => if 0 < deg then 1 else 0

theorem releaseOne_measure (acc : KeyMap Bytes Int × List Bytes) (succ : Bytes) :
    (releaseOne acc succ).2.length + stillWaiting (releaseOne acc succ).1 =
      acc.2.length + stillWaiting acc.1 := by
  unfold releaseOne
  split
  · rfl
  next deg hdeg =>
    have hsum := KeyMap.sum_set (fun deg : Int => if 0 < deg then 1 else 0) acc.1 succ (deg - 1)
    rw [hdeg] at hsum
    simp only [Option.map_some, Option.getD_some] at hsum
    simp only [stillWaiting]
    split
    · rw [List.length_append, List.length_singleton]
      split at hsum <;> split at hsum <;> omega
    · split at hsum <;> split at hsum <;> omega

theorem foldl_releaseOne_measure (succs : List Bytes) (acc : KeyMap Bytes Int × List Bytes) :
    (succs.foldl releaseOne acc).2.length + stillWaiting (succs.foldl releaseOne acc).1 =
      acc.2.length + stillWaiting acc.1 := by
  induction succs generalizing acc with
  | nil => rfl
  | cons succ succs ih => rw [List.foldl_cons, ih, releaseOne_measure]

/-- The `while` of `agnosai_scheduler_kahn_sort`. -/
def kahnLoop (keys : List Bytes) (dependents : KeyMap Bytes (List Bytes)) :
    Loop KahnState (Option (List Bytes)) where
  step s :=
    match s.queue with
    | [] => .inr (if s.order.length ≠ keys.length then none else some s.order)
    | node :: rest =>
      let succs := sortStrs ((dependents.lookup node).getD [])
      let released := succs.foldl releaseOne (s.inDegree, rest)
      .inl { inDegree := released.1, queue := released.2, order := s.order ++ [node] }
  measure s := s.queue.length + stillWaiting s.inDegree
  decreasing {s s'} h := by
    split at h
    · cases h
    next node rest hqueue =>
      cases h
      simp only [foldl_releaseOne_measure, hqueue, List.length_cons]
      omega

/-- `agnosai_scheduler_kahn_sort`: `none` when not every key could be taken. -/
def kahnSort (keys : List Bytes) (dependents dependencies : KeyMap Bytes (List Bytes)) :
    Option (List Bytes) :=
  let seeded := keys.foldl (seedDegree dependencies) (.empty, [])
  (kahnLoop keys dependents).run { inDegree := seeded.1, queue := sortStrs seeded.2, order := [] }

/-- `agnosai_scheduler_topological_sort`. -/
def topologicalSort (dag : TaskDag) : Option (List Bytes) :=
  kahnSort dag.tasks.keys (build dag).dependents (build dag).dependencies

/-! ### The loaded DAG -/

/-- The keys of the tasks by their ids. -/
def idsToKeys (tasks : KeyMap Bytes Task) : KeyMap String Bytes :=
  tasks.entries.foldl (fun m e => m.set e.2.id e.1) .empty

/-- `agnosai_scheduler_load_dag`: whether the DAG was loaded. -/
def loadDag (dag : TaskDag) : Bool × State :=
  let adj := build dag
  match kahnSort dag.tasks.keys adj.dependents adj.dependencies with
  | none => (false, s)
  | some _ =>
    (true, { s with
        dagTasks := dag.tasks
        dagKeys := dag.tasks.keys
        dependents := adj.dependents
        dependencies := adj.dependencies
        idToKey := idsToKeys dag.tasks })

/-- The task under a key, if it has not been completed and all it depends on has. -/
def readyTask (completedKeys : List Bytes) (key : Bytes) : Option Task :=
  if key ∈ completedKeys then none
  else if ((s.dependencies.lookup key).getD []).all (· ∈ completedKeys) then s.dagTasks.lookup key
  else none

/-- `a` may be returned before `b`. -/
def PriorityGe (a b : Task) : Prop := b.priority ≤ a.priority

instance : DecidableRel PriorityGe :=
  fun a b => inferInstanceAs (Decidable (b.priority ≤ a.priority))

/-- `agnosai_scheduler_ready_tasks`. -/
def readyTasks (completed : List String) : List Task :=
  let completedKeys := completed.filterMap s.idToKey.lookup
  sortVec PriorityGe (s.dagKeys.filterMap (readyTask s completedKeys))

end Scheduler

end Agnosai
