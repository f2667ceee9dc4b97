import Agnosai.Core.Crew
import Agnosai.Server.Sse

/-!
# Server — Subscriptions — Definitions

Subscriptions to a crew's events and the ends of its runs, after `server/sse.cyr` and the exits of
`_agnosai_orch_finish_err` and `_agnosai_orch_abandon`. A subscription is made in three steps: the
crew's sender is looked up, a channel is taken from the idle stack or minted, and the channel joins
the sender's list. Others may come between. Whoever removes the crew's sender closes what is on
its list, and a closed channel may be given back to the stack. The bus is that of `Sse`; a
sender's list holds the addresses of subscriptions here.
-/

namespace Agnosai.Subscriptions

open Sse Function

/-- How far a subscription has come. -/
inductive Stage where
  /-- Its sender was looked up, and it has no channel yet. -/
  | looked (tx : Nat)
  /-- It has a channel, and is about to join. -/
  | taken (tx sub : Nat)
  | handed (sub : Nat)
  /-- It is off its sender's list, and about to be closed by its subscriber. -/
  | dropped (sub : Nat)
  /-- Its consumer gives it back: it is open again, and about to go on the idle stack. -/
  | reopened (sub : Nat)
  | givenBack

namespace Stage

/-- The sender that is about to be joined. -/
def joining : Stage → Option Nat
  | looked tx | taken tx _ => some tx
  | handed _ | dropped _ | reopened _ | givenBack => none

/-- The channel of the subscription, until it is given back. -/
def sub : Stage → Option Nat
  | taken _ sub | handed sub | dropped sub | reopened sub => some sub
  | looked _ | givenBack => none

/-- The channel that the subscriber has in hand. -/
def handedOut : Stage → Option Nat
  | handed sub | dropped sub => some sub
  | looked _ | taken _ _ | reopened _ | givenBack => none

end Stage

/-- A subscription to the events of `crew`. -/
structure Holder where
  crew : String
  stage : Stage

/-- A run of `crew`, as the bus sees it. -/
structure BusRun where
  crew : String
  ended : Bool := false

/-- The bus, its subscriptions and the runs that publish. -/
structure Hub where
  bus : Bus := {}
  /-- `AGN_ER_CLOSED` of the subscription at an address. -/
  closed : Nat → Bool := fun _ => false
  /-- How many subscriptions were minted. -/
  minted : Nat := 0
  /-- `AGN_EB_IDLE`. -/
  idle : List Nat := []
  holders : Nat → Option Holder := fun _ => none
  runs : Nat → Option BusRun := fun _ => none

namespace Hub

def setStage (s : Hub) (k : Nat) (crew : String) (stage : Stage) : Hub :=
  { s with holders := update s.holders k (some { crew, stage }) }

/-- `agnosai_event_bus_remove`. -/
def remove (s : Hub) (crew : String) : Hub :=
  match s.bus.channels.lookup crew with
  | none => s
  | some tx =>
    { s with
      closed := fun sub => s.closed sub || decide (sub ∈ s.bus.subs tx)
      bus := s.bus.drop crew tx }

/-- Run `r` of `crew` is over. -/
def endRun (s : Hub) (r : Nat) (crew : String) : Hub :=
  { s with runs := update s.runs r (some { crew, ended := true }) }

end Hub

inductive HubAct where
  /-- A run takes its crew's sender, as `_agnosai_orch_register` ends. -/
  | opens (r : Nat) (crew : String)
  /-- The exit of `_agnosai_orch_finish_err`: with the final state, or with a scheduling error. -/
  | finish (r : Nat) (result : Except CrewError CrewState)
  /-- The exit of `_agnosai_orch_abandon`. -/
  | abandon (r : Nat)
  /-- `release_crew`, or a stream that did not find its crew, removes the channel. -/
  | remove (crew : String)
  /-- `agnosai_event_bus_cleanup_orphans`. -/
  | cleanupOrphans
  /-- `agnosai_event_bus_sender`, by itself. -/
  | sender (crew : String)
  /-- `agnosai_event_bus_subscribe_a` looks the sender up. -/
  | lookup (k : Nat) (crew : String)
  /-- It takes a subscription off the idle stack, or mints one. -/
  | takeIdle (k : Nat)
  /-- `agnosai_event_bus_subscribe` always mints one. -/
  | mint (k : Nat)
  /-- `_agnosai_event_sender_add`. -/
  | add (k : Nat)
  /-- The section of `agnosai_event_sender_unsubscribe`. -/
  | unsubscribe (k tx : Nat)
  /-- It closes what it found. -/
  | close (k : Nat)
  /-- `agnosai_event_bus_recycle`, before its section. -/
  | recycle (k : Nat)
  /-- The section of `agnosai_event_bus_recycle`. -/
  | shelve (k : Nat)

/-- The subscription that `k` takes is new. -/
def Hub.mintFor (s : Hub) (k : Nat) (crew : String) (tx : Nat) : Hub :=
  { s with
    closed := update s.closed s.minted false
    minted := s.minted + 1 }.setStage k crew (.taken tx s.minted)

def hubStep (s : Hub) : HubAct → Option Hub
  | .opens r crew =>
    match s.runs r with
    | none =>
      some { s with
        bus := (s.bus.sender crew).1
        runs := update s.runs r (some { crew }) }
    | some _ => none
  | .finish r result =>
    match s.runs r, result with
    | some { crew, ended := false }, .error _ => some (s.endRun r crew)
    | some { crew, ended := false }, .ok _ => some ((s.endRun r crew).remove crew)
    | _, _ => none
  | .abandon r =>
    match s.runs r with
    | some { crew, ended := false } => some ((s.endRun r crew).remove crew)
    | _ => none
  | .remove crew => some (s.remove crew)
  | .cleanupOrphans => some { s with bus := s.bus.cleanup }
  | .sender crew => some { s with bus := (s.bus.sender crew).1 }
  | .lookup k crew =>
    match s.holders k with
    | none =>
      some ({ s with bus := (s.bus.sender crew).1 }.setStage k crew (.looked (s.bus.sender crew).2))
    | some _ => none
  | .takeIdle k =>
    match s.holders k, s.idle with
    | some { crew, stage := .looked tx }, [] => some (s.mintFor k crew tx)
    | some { crew, stage := .looked tx }, sub :: rest =>
      some ({ s with idle := rest }.setStage k crew (.taken tx sub))
    | _, _ => none
  | .mint k =>
    match s.holders k with
    | some { crew, stage := .looked tx } => some (s.mintFor k crew tx)
    | _ => none
  | .add k =>
    match s.holders k with
    | some { crew, stage := .taken tx sub } =>
      some ({ s with bus := s.bus.add tx sub }.setStage k crew (.handed sub))
    | _ => none
  | .unsubscribe k tx =>
    match s.holders k with
    | some { crew, stage := .handed sub } =>
      if sub ∈ s.bus.subs tx then
        some ({ s with
          bus := { s.bus with subs := update s.bus.subs tx ((s.bus.subs tx).erase sub) } }.setStage
            k crew (.dropped sub))
      else some s
    | _ => none
  | .close k =>
    match s.holders k with
    | some { crew, stage := .dropped sub } =>
      some ({ s with closed := update s.closed sub true }.setStage k crew (.handed sub))
    | _ => none
  | .recycle k =>
    match s.holders k with
    | some { crew, stage := .handed sub } =>
      if s.closed sub then
        some ({ s with closed := update s.closed sub false }.setStage k crew (.reopened sub))
      else some s
    | _ => none
  | .shelve k =>
    match s.holders k with
    | some { crew, stage := .reopened sub } =>
      some ({ s with idle := sub :: s.idle }.setStage k crew .givenBack)
    | _ => none

def hub : Machine Hub HubAct := ⟨hubStep⟩

/-! ### What a step does -/

inductive HubTrans (s : Hub) : HubAct → Hub → Prop where
  | opened {r crew} (hnew : s.runs r = none) :
      HubTrans s (.opens r crew)
        { s with bus := (s.bus.sender crew).1, runs := update s.runs r (some { crew }) }
  | failed {r crew e} (hrun : s.runs r = some { crew }) :
      HubTrans s (.finish r (.error e)) (s.endRun r crew)
  | finished {r crew state} (hrun : s.runs r = some { crew }) :
      HubTrans s (.finish r (.ok state)) ((s.endRun r crew).remove crew)
  | abandoned {r crew} (hrun : s.runs r = some { crew }) :
      HubTrans s (.abandon r) ((s.endRun r crew).remove crew)
  | removed {crew} : HubTrans s (.remove crew) (s.remove crew)
  | cleaned : HubTrans s .cleanupOrphans { s with bus := s.bus.cleanup }
  | sent {crew} : HubTrans s (.sender crew) { s with bus := (s.bus.sender crew).1 }
  | looked {k crew} (hnew : s.holders k = none) :
      HubTrans s (.lookup k crew)
        ({ s with bus := (s.bus.sender crew).1 }.setStage k crew (.looked (s.bus.sender crew).2))
  | minted {act k crew tx} (hk : s.holders k = some ⟨crew, .looked tx⟩)
      (hact : act = .takeIdle k ∨ act = .mint k) : HubTrans s act (s.mintFor k crew tx)
  | taken {k crew tx sub rest} (hk : s.holders k = some ⟨crew, .looked tx⟩)
      (hidle : s.idle = sub :: rest) :
      HubTrans s (.takeIdle k) ({ s with idle := rest }.setStage k crew (.taken tx sub))
  | added {k crew tx sub} (hk : s.holders k = some ⟨crew, .taken tx sub⟩) :
      HubTrans s (.add k) ({ s with bus := s.bus.add tx sub }.setStage k crew (.handed sub))
  | unsubscribed {k tx crew sub} (hk : s.holders k = some ⟨crew, .handed sub⟩)
      (hmem : sub ∈ s.bus.subs tx) :
      HubTrans s (.unsubscribe k tx)
        ({ s with
          bus := { s.bus with subs := update s.bus.subs tx ((s.bus.subs tx).erase sub) } }.setStage
            k crew (.dropped sub))
  | closed {k crew sub} (hk : s.holders k = some ⟨crew, .dropped sub⟩) :
      HubTrans s (.close k)
        ({ s with closed := update s.closed sub true }.setStage k crew (.handed sub))
  | recycled {k crew sub} (hk : s.holders k = some ⟨crew, .handed sub⟩)
      (hclosed : s.closed sub = true) :
      HubTrans s (.recycle k)
        ({ s with closed := update s.closed sub false }.setStage k crew (.reopened sub))
  | shelved {k crew sub} (hk : s.holders k = some ⟨crew, .reopened sub⟩) :
      HubTrans s (.shelve k) ({ s with idle := sub :: s.idle }.setStage k crew .givenBack)
  /-- What is not on the list is not unsubscribed, and what is open is not taken back. -/
  | refused {act} (hact : (∃ k tx, act = .unsubscribe k tx) ∨ ∃ k, act = .recycle k) :
      HubTrans s act s

/-- **Inversion of a step.** -/
theorem hubStep_trans {s s' : Hub} {act : HubAct} (h : hub.step s act = some s') :
    HubTrans s act s' := by
  cases act with
  | remove | cleanupOrphans | sender =>
    cases h
    constructor
  | opens | finish | abandon | lookup | add | close | shelve =>
    simp only [hub, hubStep] at h
    split at h <;> cases h
    all_goals
      constructor
      assumption
  | takeIdle =>
    simp only [hub, hubStep] at h
    split at h <;> cases h
    · exact .minted ‹_› (.inl rfl)
    · exact .taken ‹_› ‹_›
  | mint =>
    simp only [hub, hubStep] at h
    split at h <;> cases h
    exact .minted ‹_› (.inr rfl)
  | unsubscribe k tx =>
    simp only [hub, hubStep] at h
    split at h
    · split at h <;> cases h
      · exact .unsubscribed ‹_› ‹_›
      · exact .refused (.inl ⟨k, tx, rfl⟩)
    · cases h
  | recycle k =>
    simp only [hub, hubStep] at h
    split at h
    · split at h <;> cases h
      · exact .recycled ‹_› ‹_›
      · exact .refused (.inr ⟨k, rfl⟩)
    · cases h

end Agnosai.Subscriptions
