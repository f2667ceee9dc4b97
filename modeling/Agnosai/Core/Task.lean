/-!
# Core — Task

Tasks, their statuses and results, and the process mode of a crew, after `core/task.cyr`. A field
that is `0` when absent there is an `Option` here. Token counts and costs are `Int64`, with its
wrap-around. Durations are clock readings and are left out, and so is a task's own mutable status,
which nothing in the engine reads.
-/

namespace Agnosai

/-- A parsed JSON value. A number with a fraction or an exponent keeps its text. -/
inductive Json where
  | null
  | bool (b : Bool)
  | int (n : Int64)
  | float (text : String)
  | str (s : String)
  | arr (elems : List Json)
  | obj (fields : List (String × Json))

def Json.isObj : Json → Bool
  | .obj _ => true
  | _ => false

/-- `AgnosaiTaskPriority`: the five tiers of the wire, lowest first. -/
inductive TaskPriority where
  | background
  | low
  | normal
  | high
  | critical
  deriving Repr, DecidableEq

/-- The discriminant of a tier. -/
def TaskPriority.value : TaskPriority → Int
  | .background => 0
  | .low => 1
  | .normal => 2
  | .high => 3
  | .critical => 4

/-- `AgnosaiTaskStatus`. -/
inductive TaskStatus where
  | pending
  | queued
  | running
  | completed
  | failed
  | cancelled
  deriving Repr, DecidableEq

structure Task where
  id : String
  description : String
  expectedOutput : Option String := none
  priority : Int := TaskPriority.normal.value
  dependencies : List String := []
  outputSchema : Option Json := none

/-- Some task of the list with id `x` names `y` as a dependency. -/
def DependsOn (tasks : List Task) (x y : String) : Prop :=
  ∃ t ∈ tasks, t.id = x ∧ y ∈ t.dependencies

/-- The `tokens` object of a result's metadata. -/
structure TokenCounts where
  prompt : Int64
  completion : Int64
  total : Int64
  deriving Repr, DecidableEq

/-- `AGNOSAI_TOOL_EFFECT_*`: what a tool call did. -/
inductive ToolEffect where
  | unknown
  | none
  | committed
  deriving Repr, DecidableEq

/-- The record of one tool call on a result. -/
structure CallRecord where
  tool : String
  effect : ToolEffect
  success : Bool
  id : String
  /-- The arguments as they went back in the transcript. -/
  arguments : Option Json := none
  askedFor : Option String := none
  flagged : Option String := none
  heldBack : Bool := false

/-- A result's metadata, one field for each key the engine writes. -/
structure TaskMetadata where
  model : Option String := none
  agent : Option String := none
  provider : Option String := none
  tokens : Option TokenCounts := none
  costMicroUsd : Option Int64 := none
  error : Option String := none
  validationAttempts : Option Nat := none
  toolCalls : Option (List CallRecord) := none
  toolCallsDropped : Option Nat := none

structure TaskResult where
  taskId : String
  output : String
  status : TaskStatus
  metadata : TaskMetadata := {}

/-- `AgnosaiProcessKind`, with what each kind carries. -/
inductive ProcessMode where
  | sequential
  | hierarchical (manager : String)
  | dag
  | parallel (maxConcurrency : Int)
  deriving Repr, DecidableEq

/-- `agnosai_process_max_concurrency`: `0` for every mode but parallel. -/
def ProcessMode.maxConcurrency : ProcessMode → Int
  | .parallel n => n
  | _ => 0

end Agnosai
