import Agnosai.Core.Task

/-!
# Core — Crew

Crew specifications, the state a run leaves behind and the errors it can return, after
`core/crew.cyr`, `core/agent.cyr` and `core/error.cyr`. Only the fields an operation below reads
are kept.
-/

namespace Agnosai

/-- `AgnosaiCrewStatus`. -/
inductive CrewStatus where
  | pending
  | running
  | completed
  | failed
  | cancelled
  deriving Repr, DecidableEq

structure Agent where
  key : String
  role : String
  goal : String
  tools : List String := []
  deriving Repr, DecidableEq

structure CrewSpec where
  id : String
  name : String
  agents : List Agent
  tasks : List Task
  process : ProcessMode

def CrewSpec.taskIds (spec : CrewSpec) : List String :=
  spec.tasks.map Task.id

/-- The state a run leaves behind. -/
structure CrewState where
  crewId : String
  status : CrewStatus
  results : List TaskResult := []

/-- The kinds of `AgnosaiError` the engine's scheduling and registry raise. -/
inductive CrewError where
  | cyclicDag
  | scheduling (detail : String)
  | crewNotFound (detail : String)
  | other (detail : String)
  deriving Repr, DecidableEq

end Agnosai
