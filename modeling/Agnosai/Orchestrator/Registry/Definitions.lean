import Agnosai.Support.KeyMap
import Agnosai.Support.Machine
import Agnosai.Orchestrator.CrewRunner.Definitions

/-!
# Orchestrator — Registry — Definitions

The crew registry of `orchestrator/orchestrator.cyr` and the threads that use it. A state is an
object in memory, and the registry holds its address: a cancel writes the status of the registered
object in place, and a finished run registers a new object. The machine's actions are the sections
under the registry's mutex, and for each runner the moment it reads the cancel flag for the crew's
status. Audit, events and arenas are left out.
-/

namespace Agnosai.Orchestrator

open Function

open CrewRunner

/-- `AGNOSAI_MAX_RETAINED_CREWS`. -/
def maxRetainedCrews : Nat := 1000

/-- `AGNOSAI_CREWS_LOW_WATER`. -/
def crewsLowWater : Nat := 900

/-- The registry and the memory it points into. -/
structure Registry where
  /-- `AGN_OR_CREWS`: the address of each crew's state. -/
  crews : KeyMap String Nat := .empty
  /-- `AGN_OR_CANCEL`: the cancel flag of each crew a runner holds, by the runner it is of. -/
  cancel : KeyMap String Nat := .empty
  /-- `AGN_OR_ENDED`: the states of ended crews, in the order they ended. -/
  ended : List Nat := []
  /-- `AGN_OR_ENDED_HEAD`: how many of those eviction has popped. -/
  endedHead : Nat := 0
  states : Nat → CrewState := fun _ => { crewId := "", status := .pending }
  /-- Addresses from here on are free. -/
  fresh : Nat := 0
  flags : Nat → Bool := fun _ => false

/-! ### The parts of a section -/

/-- `_agnosai_orch_is_finished`. -/
def isFinished (s : CrewState) : Bool :=
  s.status = .completed ∨ s.status = .failed ∨ s.status = .cancelled

namespace Registry

variable (o : Registry)

variable (id : String)

/-- `agnosai_orchestrator_crew`. -/
def crew : Option CrewState := (o.crews.lookup id).map o.states

/-- `agnosai_crew_state_with_status`, in place. -/
def withStatus (addr : Nat) (status : CrewStatus) : Registry :=
  { o with states := update o.states addr { o.states addr with status } }

/-- A new state object, registered under `id`. -/
def setCrew (s : CrewState) : Registry :=
  { o with
    crews := o.crews.set id o.fresh
    states := update o.states o.fresh s
    fresh := o.fresh + 1 }

/-- `_agnosai_orch_is_current_locked`. -/
def isCurrent (addr : Nat) : Bool :=
  o.crews.lookup (o.states addr).crewId = some addr

/-- `_agnosai_orch_compact_ended_locked`. -/
def compactEnded : Registry :=
  if o.ended.length - o.endedHead ≤ 2 * o.crews.size + 64 ∧ o.endedHead < 1024 then o
  else { o with ended := (o.ended.drop o.endedHead).filter o.isCurrent, endedHead := 0 }

/-- `_agnosai_orch_note_ended_locked`. -/
def noteEnded (addr : Nat) : Registry :=
  { o with ended := o.ended ++ [addr] }.compactEnded

/-- The loop of `_agnosai_orch_evict_locked`, over what is left of the queue. -/
def evictLoop (held : Nat) : List Nat → Registry → Registry
  | [], o => o
  | addr :: rest, o =>
    if crewsLowWater < o.crews.size - held then
      evictLoop held rest
        { o with
          endedHead := o.endedHead + 1
          crews := if o.isCurrent addr then o.crews.erase (o.states addr).crewId else o.crews }
    else o

/-- `_agnosai_orch_evict_locked`. -/
def evict : Registry :=
  if o.crews.size - o.cancel.size < maxRetainedCrews then o
  else (evictLoop o.cancel.size (o.ended.drop o.endedHead) o).compactEnded

/-- `_agnosai_orch_advance_locked`. -/
def advance (source target : CrewStatus) : Registry :=
  match o.crews.lookup id with
  | none => o
  | some addr => if (o.states addr).status = source then o.withStatus addr target else o

/-! ### The sections -/

/-- The section of `_agnosai_orch_register`, for runner `r`. -/
def register (r : Nat) (id : String) : Registry :=
  let o := o.evict.setCrew id { crewId := id, status := .pending }
  { o with cancel := o.cancel.set id r, flags := update o.flags r false }

/-- The section of `_agnosai_orch_finish_err` for a run that returned an error: the crew goes back
to pending, unless it was cancelled. -/
def finishError : Registry :=
  let o := o.advance id .running .pending
  let o := { o with cancel := o.cancel.erase id }
  match o.crews.lookup id with
  | none => o
  | some addr => if isFinished (o.states addr) then o.noteEnded addr else o

/-- The section of `_agnosai_orch_finish_err` that stores a run's final state. -/
def finishState (s : CrewState) : Registry :=
  let o' := o.setCrew id s
  { o' with cancel := o'.cancel.erase id }.noteEnded o.fresh

/-- `_agnosai_orch_abandon`, after the runner's thread could not be created. -/
def abandon : Registry := { o with cancel := o.cancel.erase id }

/-- `agnosai_orchestrator_cancel_crew`. -/
def cancelCrew : Except CrewError Unit × Registry :=
  match o.crews.lookup id with
  | none => (.error (.crewNotFound id), o)
  | some addr =>
    if isFinished (o.states addr) then
      (.error (.other "crew has already finished and cannot be cancelled"), o)
    else
      match o.cancel.lookup id with
      | some r =>
        (.ok (), { o with flags := update o.flags r true }.withStatus addr .cancelled)
      | none => (.ok (), (o.withStatus addr .cancelled).noteEnded addr)

/-- `agnosai_orchestrator_forget_crew`. -/
def forgetCrew : Except CrewError Unit × Registry :=
  if (o.crews.lookup id).isNone then (.error (.crewNotFound id), o)
  else if (o.cancel.lookup id).isSome then
    (.error (.other "crew is still running and cannot be forgotten"), o)
  else (.ok (), { o with crews := o.crews.erase id }.compactEnded)

end Registry

/-! ### The machine -/

inductive Phase where
  /-- Registered, and not yet marked running. -/
  | registered
  | running
  /-- The runner has returned, and its result has yet to be stored. -/
  | returned (result : Except CrewError CrewState) (timedOut : Bool)
  | ended

structure Runner where
  spec : CrewSpec
  phase : Phase

/-- The registry and its runs, by number. -/
structure Config where
  reg : Registry := {}
  runs : Nat → Option Runner := fun _ => none

inductive Act where
  | register (r : Nat) (spec : CrewSpec)
  | abandon (r : Nat)
  | advance (r : Nat)
  /-- The runner has run the crew, seeing `env`, and reads the flag for the crew's status. -/
  | run (r : Nat) (env : Env)
  | finish (r : Nat)
  | cancel (id : String)
  | forget (id : String)
  | read (id : String)

/-- Whether what the runner saw agrees with the flag at the moment it computes the status: it looks
only if the deadline was not seen. -/
def seesFlag (env : Env) (spec : CrewSpec) (flag : Bool) : Bool :=
  match crewRun env spec with
  | (.error _, _) => true
  | (.ok _, s) => s.timedOut || env.cancelled (s.polls - 1) == flag

/-- The result of a run as `_agnosai_orch_finish_err` has it: a run that timed out reports a bare
failure. -/
def finalResult (spec : CrewSpec) (result : Except CrewError CrewState) (timedOut : Bool) :
    Except CrewError CrewState :=
  match result with
  | .error e => .error e
  | .ok s => .ok (if timedOut then { crewId := spec.id, status := .failed } else s)

/-- Runner `r` goes to `phase`. -/
def Config.setPhase (c : Config) (r : Nat) (spec : CrewSpec) (phase : Phase) : Config :=
  { c with runs := update c.runs r (some { spec, phase }) }

/-- The last section of a run. -/
def Registry.finish (o : Registry) (spec : CrewSpec) : Except CrewError CrewState → Registry
  | .error _ => o.finishError spec.id
  | .ok s => o.finishState spec.id s

/-- One atomic step. A runner's number is used once. -/
def step (c : Config) : Act → Option Config
  | .register r spec =>
    match c.runs r with
    | some _ => none
    | none => some ({ c with reg := c.reg.register r spec.id }.setPhase r spec .registered)
  | .abandon r =>
    match c.runs r with
    | some { spec, phase := .registered } =>
      some ({ c with reg := c.reg.abandon spec.id }.setPhase r spec .ended)
    | _ => none
  | .advance r =>
    match c.runs r with
    | some { spec, phase := .registered } =>
      some ({ c with reg := c.reg.advance spec.id .pending .running }.setPhase r spec .running)
    | _ => none
  | .run r env =>
    match c.runs r with
    | some { spec, phase := .running } =>
      if seesFlag env spec (c.reg.flags r) then
        some (c.setPhase r spec (.returned (crewRun env spec).1 (crewRun env spec).2.timedOut))
      else none
    | _ => none
  | .finish r =>
    match c.runs r with
    | some { spec, phase := .returned result timedOut } =>
      some ({ c with reg := c.reg.finish spec (finalResult spec result timedOut) }.setPhase r spec
        .ended)
    | _ => none
  | .cancel id => some { c with reg := (c.reg.cancelCrew id).2 }
  | .forget id => some { c with reg := (c.reg.forgetCrew id).2 }
  | .read _ => some c

def orchestrator : Machine Config Act := ⟨step⟩

end Agnosai.Orchestrator
