import Agnosai.Orchestrator.Registry.Definitions
import Agnosai.Support.Slide

/-!
# Orchestrator — Registry — Lifecycle

A crew from its creation to its release. A crew may live in an arena, and then so do the states of
its runs; `release_crew` gives the arena back, and the next crew that gets it has states at the
same addresses.

The registry and its sections are those of `Definitions`. What is added is a crew's memory: which
addresses are in use, which crew an arena is held for, and how many of a crew's runs have yet to
leave it, for which a release waits. Which arena an address belongs to is a parameter. States are
numbered as they are made, and `ended` and `evicted` record the order of endings and evictions by
number; no step reads them.
-/

namespace Agnosai.Orchestrator

open Function

open CrewRunner

namespace Registry

variable (o : Registry)

/-- The slots of the ended queue that eviction has not popped. -/
def queue : List Nat := o.ended.drop o.endedHead

/-! ### Sections with an address -/

/-- `_agnosai_orch_register`'s section, with the new state at `addr`. -/
def registerAt (addr r : Nat) (id : String) : Registry :=
  { o with fresh := addr }.register r id

/-- The last section of a run, with the final state at `addr`. -/
def finishAt (addr : Nat) (spec : CrewSpec) (result : Except CrewError CrewState) :
    Registry :=
  { o with fresh := addr }.finish spec result

/-- `_agnosai_orch_purge_ended_locked`, where `holds` is `agnosai_crew_arena_holds`. -/
def purgeEnded (holds : Nat → Bool) : Registry :=
  { o with ended := slide (fun addr => !holds addr) o.endedHead o.endedHead o.ended }

/-- The last section of `agnosai_orchestrator_release_crew`; a crew on the heap has no arena to
purge. -/
def releaseCrew (id : String) (holds : Option (Nat → Bool)) : Registry :=
  let o := { o with crews := o.crews.erase id }
  (holds.elim o o.purgeEnded).compactEnded

/-! ### What is queued and evicted -/

/-- What the loop of `_agnosai_orch_evict_locked` evicts, in order. -/
def evictedLoop (held : Nat) : List Nat → Registry → List Nat
  | [], _ => []
  | addr :: rest, o =>
    if crewsLowWater < o.crews.size - held then
      if o.isCurrent addr then
        addr :: evictedLoop held rest
          { o with endedHead := o.endedHead + 1, crews := o.crews.erase (o.states addr).crewId }
      else evictedLoop held rest { o with endedHead := o.endedHead + 1 }
    else []

/-- What `_agnosai_orch_evict_locked` evicts, in order. -/
def evicted : List Nat :=
  if o.crews.size - o.cancel.size < maxRetainedCrews then []
  else evictedLoop o.cancel.size o.queue o

/-- What the last section of a run queues: its own state, or that of a crew that was cancelled. -/
def finishEnded (addr : Nat) (spec : CrewSpec) : Except CrewError CrewState → List Nat
  | .ok _ => [addr]
  | .error _ => (o.crews.lookup spec.id).toList.filter fun addr => isFinished (o.states addr)

/-- What `agnosai_orchestrator_cancel_crew` queues: a crew that no runner holds. -/
def cancelEnded (id : String) : List Nat :=
  if (o.cancel.lookup id).isSome then []
  else (o.crews.lookup id).toList.filter fun addr => !isFinished (o.states addr)

end Registry

/-! ### The machine -/

/-- A crew and its memory. -/
structure Crew where
  spec : CrewSpec
  /-- `AGN_CREW_ARENA`: the arena it lives in, unless it is on the heap. -/
  arena : Option Nat
  /-- `AGN_CREW_RUNS`: the runs that have yet to leave it. -/
  runs : Nat := 0
  /-- It has been taken out for good. -/
  released : Bool := false

inductive Stage where
  /-- Counted, and not yet registered. -/
  | begun
  | registered
  | running
  | returned (result : Except CrewError CrewState) (timedOut : Bool)
  /-- Its flag is gone, and it has yet to leave. -/
  | leaving
  | gone

structure CrewRun where
  crew : Nat
  stage : Stage

/-- The registry, the crews and their runs, by number. -/
structure Life where
  reg : Registry := {}
  crews : Nat → Option Crew := fun _ => none
  runs : Nat → Option CrewRun := fun _ => none
  /-- The addresses in use. -/
  used : Nat → Bool := fun _ => false
  /-- `AGN_CRA_HELD`: the crew an arena is held for. -/
  held : Nat → Option Nat := fun _ => none
  /-- How many states were made. -/
  made : Nat := 0
  /-- The number of the state at an address. -/
  born : Nat → Nat := fun _ => 0
  /-- The states that were queued, in order. -/
  ended : List Nat := []
  /-- The states that were evicted, in order. -/
  evicted : List Nat := []

inductive LifeAct where
  /-- `agnosai_crew_new_in`, or on the heap. -/
  | create (k : Nat) (spec : CrewSpec) (arena : Option Nat)
  /-- Run `r` of crew `k` is counted. -/
  | begin (r k : Nat)
  | register (r addr : Nat)
  | abandon (r : Nat)
  | advance (r : Nat)
  | run (r : Nat) (env : Env)
  | finish (r addr : Nat)
  | leave (r : Nat)
  | cancel (id : String)
  | forget (id : String)
  /-- A turn of the loop of `release_crew`. -/
  | release (k : Nat)
  /-- `agnosai_crew_arena_give_back`, at the end of `release_crew`. -/
  | giveBack (k : Nat)

namespace Life

/-- Run `r` of crew `k` goes to `stage`. -/
def setStage (c : Life) (r k : Nat) (stage : Stage) : Life :=
  { c with runs := update c.runs r (some { crew := k, stage }) }

def setCrew (c : Life) (k : Nat) (crew : Crew) : Life :=
  { c with crews := update c.crews k (some crew) }

/-- A state is made at `addr`. -/
def use (c : Life) (addr : Nat) : Life :=
  { c with
    used := update c.used addr true
    born := update c.born addr c.made
    made := c.made + 1 }

/-- An address the allocator of a crew may hand out. -/
def Free (home : Nat → Option Nat) (c : Life) (crew : Crew) (addr : Nat) : Prop :=
  c.used addr = false ∧ home addr = crew.arena

instance (home : Nat → Option Nat) (c : Life) (crew : Crew) (addr : Nat) :
    Decidable (c.Free home crew addr) :=
  inferInstanceAs (Decidable (_ ∧ _))

/-- Where run `r` is, and of which crew. -/
def run? (c : Life) (r : Nat) : Option (Nat × Crew × Stage) :=
  (c.runs r).bind fun run => (c.crews run.crew).map fun crew => (run.crew, crew, run.stage)

end Life

/-- A state whose memory was scrubbed. -/
def scrubbed : CrewState := { crewId := "", status := .pending }

/-- One atomic step. The numbers of crews and runs are used once, and a crew is not run once it is
released. -/
def lifeStep (home : Nat → Option Nat) (c : Life) : LifeAct → Option Life
  | .create k spec arena =>
    if c.crews k = none ∧ arena.all fun a => (c.held a).isNone then
      let held := arena.elim c.held fun a => update c.held a (some k)
      some ({ c with held }.setCrew k { spec, arena })
    else none
  | .begin r k =>
    match c.runs r, c.crews k with
    | none, some crew =>
      if crew.released then none
      else some ((c.setCrew k { crew with runs := crew.runs + 1 }).setStage r k .begun)
    | _, _ => none
  | .register r addr =>
    match c.run? r with
    | some (k, crew, .begun) =>
      if c.Free home crew addr then
        some (({ c with
          reg := c.reg.registerAt addr r crew.spec.id
          evicted := c.evicted ++ c.reg.evicted.map c.born }.use addr).setStage r k .registered)
      else none
    | _ => none
  | .abandon r =>
    match c.run? r with
    | some (k, crew, .registered) =>
      some ({ c with reg := c.reg.abandon crew.spec.id }.setStage r k .leaving)
    | _ => none
  | .advance r =>
    match c.run? r with
    | some (k, crew, .registered) =>
      some ({ c with reg := c.reg.advance crew.spec.id .pending .running }.setStage r k .running)
    | _ => none
  | .run r env =>
    match c.run? r with
    | some (k, crew, .running) =>
      if seesFlag env crew.spec (c.reg.flags r) then
        some (c.setStage r k
          (.returned (crewRun env crew.spec).1 (crewRun env crew.spec).2.timedOut))
      else none
    | _ => none
  | .finish r addr =>
    match c.run? r with
    | some (k, crew, .returned result timedOut) =>
      if c.Free home crew addr then
        let c := c.use addr
        let result := finalResult crew.spec result timedOut
        some ({ c with
          reg := c.reg.finishAt addr crew.spec result
          ended := c.ended ++
            (c.reg.finishEnded addr crew.spec result).map c.born }.setStage r k .leaving)
      else none
    | _ => none
  | .leave r =>
    match c.run? r with
    | some (k, crew, .leaving) =>
      some ((c.setCrew k { crew with runs := crew.runs - 1 }).setStage r k .gone)
    | _ => none
  | .cancel id =>
    some { c with
      reg := (c.reg.cancelCrew id).2
      ended := c.ended ++ (c.reg.cancelEnded id).map c.born }
  | .forget id => some { c with reg := (c.reg.forgetCrew id).2 }
  | .release k =>
    match c.crews k with
    | none => none
    | some crew =>
      -- Refused while a runner holds the crew, and once it is released; it waits for the runs to
      -- leave.
      if crew.released ∨ (c.reg.cancel.lookup crew.spec.id).isSome ∨ crew.runs ≠ 0 then some c
      else
        let holds := crew.arena.map fun a addr => decide (home addr = some a)
        some ({ c with reg := c.reg.releaseCrew crew.spec.id holds }.setCrew k
          { crew with released := crew.arena.isSome })
  | .giveBack k =>
    match c.crews k with
    | some { arena := some a, released := true, .. } =>
      if c.held a = some k then
        some { c with
          reg :=
            { c.reg with
              states := fun addr => if home addr = some a then scrubbed else c.reg.states addr }
          used := fun addr => c.used addr && decide (home addr ≠ some a)
          held := update c.held a none }
      else none
    | _ => none

/-- The registry, with the life of its crews. -/
def lifecycle (home : Nat → Option Nat) : Machine Life LifeAct := ⟨lifeStep home⟩

end Agnosai.Orchestrator
