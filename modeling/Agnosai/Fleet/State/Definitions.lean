import Agnosai.Core.Task
import Agnosai.Core.Uuid
import Agnosai.Support.KeyMap
import Agnosai.Support.Machine

/-!
# Fleet — distributed crew state

A manager of distributed runs (`fleet/state.cyr`). A run has nodes taking part in it, the progress
of each, a phase and its checkpoints; beside the runs the manager keeps, per run and barrier name,
the nodes that have arrived there. Each operation is a function of the manager; its last argument
is what the clock says during the call. `manager` is the machine of all the operations that change
something.
-/

namespace Agnosai.Fleet

/-! ### Sets of nodes -/

/-- Node ids in the order they were added, none twice. -/
structure NodeSet where
  ids : List String
  nodup : ids.Nodup
  deriving DecidableEq

namespace NodeSet

def empty : NodeSet := ⟨[], List.nodup_nil⟩

/-- `_agnosai_dcs_set_has`. -/
def has (set : NodeSet) (id : String) : Bool := set.ids.contains id

theorem has_iff {set : NodeSet} {id : String} : set.has id = true ↔ id ∈ set.ids := by
  simp [has]

/-- `_agnosai_dcs_set_add`. -/
def add (set : NodeSet) (id : String) : NodeSet :=
  if h : set.has id = true then set
  else
    { ids := set.ids ++ [id]
      nodup := by
        have hid : id ∉ set.ids := fun hmem => h (has_iff.2 hmem)
        rw [List.nodup_append]
        refine ⟨set.nodup, List.nodup_singleton id, ?_⟩
        rintro a ha b hb rfl
        obtain rfl : a = id := List.mem_singleton.1 hb
        exact hid ha }

/-- `_agnosai_dcs_set_remove`. -/
def remove (set : NodeSet) (id : String) : NodeSet := ⟨set.ids.erase id, set.nodup.erase id⟩

/-- `_agnosai_dcs_is_subset`. -/
def isSubset (sub sup : NodeSet) : Bool := sub.ids.all sup.has

theorem mem_add {set : NodeSet} {id id' : String} :
    id' ∈ (set.add id).ids ↔ id' ∈ set.ids ∨ id' = id := by
  unfold add
  split
  next h =>
    constructor
    · exact .inl
    · rintro (hmem | rfl)
      · exact hmem
      · exact has_iff.1 h
  · rw [List.mem_append, List.mem_singleton]

end NodeSet

/-! ### State -/

/-- `AgnosaiCrewPhase` with the payload of the two phases that have one. -/
inductive CrewPhase where
  | initializing
  | running
  | waitingBarrier (name : String)
  | checkpointing
  | completed
  | failed (reason : String)
  | cancelled
  deriving DecidableEq

/-- `agnosai_crew_phase_is_terminal`. -/
def CrewPhase.isTerminal : CrewPhase → Bool
  | .completed | .failed _ | .cancelled => true
  | _ => false

/-- The first report or checkpoint of a run ends its start. -/
def CrewPhase.advance : CrewPhase → CrewPhase
  | .initializing => .running
  | phase => phase

/-- The end of the wait at a barrier, if that is the phase. -/
def CrewPhase.release (phase : CrewPhase) (name : String) : CrewPhase :=
  if phase = .waitingBarrier name then .running else phase

structure NodeProgress where
  nodeId : String
  tasksCompleted : Int
  tasksTotal : Int
  currentTask : Option String
  lastUpdate : Int

structure Checkpoint where
  name : String
  createdAt : Int
  nodeStates : KeyMap String Json

/-- `AgnosaiDistCrewState`. -/
structure DistCrewState where
  runId : String
  phase : CrewPhase
  isCheckpointing : Bool
  participating : NodeSet
  nodeProgress : KeyMap String NodeProgress
  checkpoints : List Checkpoint
  createdAt : Int
  updatedAt : Int

/-- `AgnosaiCrewStateManager`: the runs, and under each run the arrivals at its barriers. -/
structure Manager where
  states : KeyMap String DistCrewState
  barriers : KeyMap String (KeyMap String NodeSet)

namespace Manager

/-- `agnosai_crew_state_manager_new`. -/
def new : Manager := ⟨.empty, .empty⟩

/-- `AGNOSAI_MAX_RETAINED_RUNS`. -/
def maxRetainedRuns : Nat := 1000

/-! ### Runs -/

variable (m : Manager)

/-- The runs in a terminal phase. -/
def doomed : List String :=
  (m.states.entries.filter fun e => e.2.phase.isTerminal).map Prod.fst

/-- `_agnosai_csm_evict_if_needed`. -/
def evictIfNeeded : Manager :=
  if m.states.size < maxRetainedRuns then m
  else ⟨m.states.eraseAll m.doomed, m.barriers.eraseAll m.doomed⟩

/-- A node's progress as a run starts. -/
def startProgress (tasksPerNode now : Int) (id : String) : NodeProgress where
  nodeId := id
  tasksCompleted := 0
  tasksTotal := tasksPerNode
  currentTask := none
  lastUpdate := now

/-- `agnosai_crew_state_manager_create_run`, which mints the id from what was drawn. -/
def createRun (drawn : Uuid) (nodes : List String) (tasksPerNode now : Int) :
    Manager × String :=
  let m := m.evictIfNeeded
  let runId := drawn.v4.toStr
  let participating := nodes.foldl NodeSet.add .empty
  let progress := participating.ids.foldl
    (fun p id => p.set id (startProgress tasksPerNode now id)) .empty
  let s : DistCrewState :=
    { runId := runId
      phase := .initializing
      isCheckpointing := false
      participating := participating
      nodeProgress := progress
      checkpoints := []
      createdAt := now
      updatedAt := now }
  ({ m with states := m.states.set runId s }, runId)

variable (runId : String)

/-- Change a known run; the answer is whether there is one. -/
def onRun (f : DistCrewState → DistCrewState) : Manager × Bool :=
  match m.states.lookup runId with
  | none => (m, false)
  | some s => ({ m with states := m.states.set runId (f s) }, true)

/-- `_agnosai_dcs_set_phase`. -/
def setPhase (phase : CrewPhase) (now : Int) (s : DistCrewState) : DistCrewState :=
  { s with phase := phase, updatedAt := now }

/-- `agnosai_crew_state_manager_complete`. -/
def complete (now : Int) : Manager × Bool :=
  m.onRun runId (setPhase .completed now)

/-- `agnosai_crew_state_manager_fail`. -/
def fail (runId reason : String) (now : Int) : Manager × Bool :=
  m.onRun runId (setPhase (.failed reason) now)

/-- `agnosai_crew_state_manager_cancel`. -/
def cancel (now : Int) : Manager × Bool :=
  m.onRun runId (setPhase .cancelled now)

/-- `agnosai_crew_state_manager_checkpoint`. The flag is set and cleared within the call. -/
def checkpoint (runId name : String) (nodeStates : KeyMap String Json) (now : Int) :
    Manager × Bool :=
  m.onRun runId fun s =>
    { s with
      isCheckpointing := false
      checkpoints := s.checkpoints ++ [⟨name, now, nodeStates⟩]
      phase := s.phase.advance
      updatedAt := now }

/-- `agnosai_crew_state_manager_report_progress`. -/
def reportProgress (runId nodeId : String) (tasksCompleted : Int)
    (currentTask : Option String) (now : Int) : Manager × Bool :=
  match m.states.lookup runId with
  | none => (m, false)
  | some s =>
    match s.nodeProgress.lookup nodeId with
    | none => (m, false)
    | some p =>
      let p := { p with
        tasksCompleted := tasksCompleted
        currentTask := currentTask
        lastUpdate := now }
      let s := { s with
        nodeProgress := s.nodeProgress.set nodeId p
        phase := s.phase.advance
        updatedAt := now }
      ({ m with states := m.states.set runId s }, true)

/-! ### Barriers -/

/-- `AGNOSAI_BARRIER_ALL_REACHED`. A count of nodes to come is not negative. -/
def allReached : Int := -1

/-- `AGNOSAI_BARRIER_UNKNOWN_RUN`. -/
def unknownRun : Int := -2

/-- `AGNOSAI_BARRIER_UNKNOWN_NODE`. -/
def unknownNode : Int := -3

/-- The arrivals at a barrier, if it has a set of them. -/
def barrier (runId name : String) : Option NodeSet :=
  (m.barriers.lookup runId).bind (·.lookup name)

/-- The barriers of a run, a fresh map where it has none yet. -/
def runBarriers : KeyMap String NodeSet :=
  (m.barriers.lookup runId).getD .empty

/-- `_agnosai_csm_arrived`: the arrivals, none yet where the barrier has no set. -/
def arrived (runId name : String) : NodeSet :=
  ((m.runBarriers runId).lookup name).getD .empty

/-- `agnosai_crew_state_manager_reach_barrier`. -/
def reachBarrier (runId nodeId name : String) (now : Int) : Manager × Int :=
  match m.states.lookup runId with
  | none => (m, unknownRun)
  | some s =>
    if s.participating.has nodeId = false then (m, unknownNode)
    else
      let here := (m.arrived runId name).add nodeId
      let barriers := m.barriers.set runId ((m.runBarriers runId).set name here)
      let total := s.participating.ids.length
      let reached := here.ids.length
      if reached ≥ total then
        (⟨m.states.set runId (setPhase .running now s), barriers⟩, allReached)
      else
        (⟨m.states.set runId (setPhase (.waitingBarrier name) now s), barriers⟩,
          (total : Int) - reached)

/-- `agnosai_crew_state_manager_force_barrier`. -/
def forceBarrier (runId name : String) (now : Int) : Manager × Bool :=
  match m.states.lookup runId with
  | none => (m, false)
  | some s =>
    let barriers :=
      match m.barriers.lookup runId with
      | none => m.barriers
      | some runBarriers => m.barriers.set runId (runBarriers.erase name)
    (⟨m.states.set runId (setPhase .running now s), barriers⟩, true)

/-- The barriers that hold every node of `participating`. -/
def satisfied (participating : NodeSet) (runBarriers : KeyMap String NodeSet) : List String :=
  (runBarriers.entries.filter fun e => participating.isSubset e.2).map Prod.fst

/-- `agnosai_crew_state_manager_remove_node`. -/
def removeNode (runId nodeId : String) (now : Int) : Manager × Bool :=
  match m.states.lookup runId with
  | none => (m, false)
  | some s =>
    let s := { s with
      participating := s.participating.remove nodeId
      nodeProgress := s.nodeProgress.erase nodeId
      updatedAt := now }
    match m.barriers.lookup runId with
    | none => ({ m with states := m.states.set runId s }, true)
    | some runBarriers =>
      let done := satisfied s.participating runBarriers
      let s := { s with phase := done.foldl CrewPhase.release s.phase }
      (⟨m.states.set runId s, m.barriers.set runId (runBarriers.eraseAll done)⟩, true)

end Manager

/-! ### Histories of calls -/

inductive Action where
  | createRun (drawn : Uuid) (nodes : List String) (tasksPerNode now : Int)
  | reportProgress (runId nodeId : String) (tasksCompleted : Int) (currentTask : Option String)
      (now : Int)
  | reachBarrier (runId nodeId name : String) (now : Int)
  | forceBarrier (runId name : String) (now : Int)
  | removeNode (runId nodeId : String) (now : Int)
  | checkpoint (runId name : String) (nodeStates : KeyMap String Json) (now : Int)
  | complete (runId : String) (now : Int)
  | fail (runId reason : String) (now : Int)
  | cancel (runId : String) (now : Int)

def Manager.call (m : Manager) : Action → Manager
  | .createRun drawn nodes tasksPerNode now => (m.createRun drawn nodes tasksPerNode now).1
  | .reportProgress runId nodeId tasksCompleted currentTask now =>
    (m.reportProgress runId nodeId tasksCompleted currentTask now).1
  | .reachBarrier runId nodeId name now => (m.reachBarrier runId nodeId name now).1
  | .forceBarrier runId name now => (m.forceBarrier runId name now).1
  | .removeNode runId nodeId now => (m.removeNode runId nodeId now).1
  | .checkpoint runId name nodeStates now => (m.checkpoint runId name nodeStates now).1
  | .complete runId now => (m.complete runId now).1
  | .fail runId reason now => (m.fail runId reason now).1
  | .cancel runId now => (m.cancel runId now).1

/-- The manager's machine: every call is possible in every state. -/
def manager : Machine Manager Action where
  step m a := some (m.call a)

end Agnosai.Fleet
