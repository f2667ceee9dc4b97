import Agnosai.ChanLossy
import Agnosai.Server.Subscriptions.Definitions

/-!
# Server — Subscriptions — Memory

The event bus down to the memory of a subscription, after `server/sse.cyr`: its channel, the slot
of its lag count and its closed flag. On the idle stack that slot holds the address of the
subscription below. A sender is an address, and whoever has it may send through it, also after the
bus has removed it. A client reads through the handle on its subscription, and nothing stops it
when the subscription is given back: that it let go before is for the callers to see to.

A step is a section under the bus's mutex, or what a thread does between two of them.
-/

namespace Agnosai.Subscriptions

open Sse ChanLossy Option Function

/-- An event, with the sender that it was sent through. -/
structure Sent where
  tx : Nat
  event : CrewEvent

structure Cell where
  /-- `AGN_ER_CHAN`. -/
  chan : Chan Sent := {}
  /-- `AGN_ER_LAGGED`: the count of lost events, and on the idle stack the address of the next. -/
  lagged : Nat := 0
  /-- `AGN_ER_CLOSED`. -/
  closed : Bool := false

/-- The body of the loop of `agnosai_event_sender_send`. -/
def Cell.push (cell : Cell) (d : Sent) : Cell :=
  match cell.chan.pushLossy channelCapacity d with
  | (.evicted, chan) | (.dropped, chan) => { cell with chan, lagged := cell.lagged + 1 }
  | (.stored, chan) | (.closed, chan) => { cell with chan }

/-- `chan_close`, with the flag beside it. -/
def Cell.close (cell : Cell) : Cell := { cell with chan := cell.chan.close, closed := true }

/-- Drained and open again, as `agnosai_event_bus_recycle` has it before its section. -/
def Cell.reopen (cell : Cell) : Cell :=
  { cell with chan := cell.chan.drain.reopen, closed := false }

structure Client extends Holder where
  /-- What the lookup answered. -/
  tx : Nat
  /-- The subscription that it reads. -/
  handle : Option Nat := none
  received : List Sent := []
  /-- The lag that it was told of. -/
  lost : Nat := 0

/-- The bus and its subscriptions, in memory. -/
structure Wire where
  bus : Bus := {}
  cells : Nat → Cell := fun _ => {}
  minted : Nat := 0
  /-- `AGN_EB_IDLE`: the address of a subscription, or 0. -/
  idle : Nat := 0
  clients : Nat → Option Client := fun _ => none
  /-- The crew that a sender was made for. -/
  crewOf : Nat → Option String := fun _ => none

namespace Wire

variable (w : Wire)

def setCell (sub : Nat) (cell : Cell) : Wire :=
  { w with cells := update w.cells sub cell }

def setClient (k : Nat) (c : Client) : Wire :=
  { w with clients := update w.clients k (some c) }

/-- A loop over the subscriptions on a list. -/
def each (f : Cell → Cell) (subs : List Nat) : Wire :=
  subs.foldl (fun w sub => w.setCell sub (f (w.cells sub))) w

/-- `agnosai_event_bus_sender_a`. -/
def sender (crew : String) : Wire × Nat :=
  match w.bus.channels.lookup crew with
  | some tx => (w, tx)
  | none =>
    ({ w with
      bus := (w.bus.sender crew).1
      crewOf := update w.crewOf (w.bus.sender crew).2 (some crew) }, (w.bus.sender crew).2)

/-- `agnosai_event_sender_send`. -/
def send (tx : Nat) (e : CrewEvent) : Wire := w.each (·.push ⟨tx, e⟩) (w.bus.subs tx)

/-- `agnosai_event_bus_remove`. -/
def remove (crew : String) : Wire :=
  match w.bus.channels.lookup crew with
  | none => w
  | some tx => { w.each Cell.close (w.bus.subs tx) with bus := w.bus.drop crew tx }

/-- `_agnosai_event_bus_take_idle`. -/
def takeIdle : Option Nat × Wire :=
  match w.idle with
  | 0 => (none, w)
  | sub + 1 =>
    (some sub, { w with idle := (w.cells sub).lagged }.setCell sub { w.cells sub with lagged := 0 })

/-- `_agnosai_event_sub_new`. -/
def subNew : Nat × Wire := (w.minted, { w with minted := w.minted + 1 }.setCell w.minted {})

/-- The section of `agnosai_event_bus_recycle`. -/
def shelve (sub : Nat) : Wire :=
  { w with idle := sub + 1 }.setCell sub { w.cells sub with lagged := w.idle }

end Wire

inductive WireAct where
  /-- `agnosai_event_bus_sender`, by itself. -/
  | sender (crew : String)
  /-- `agnosai_event_sender_send`, by whoever has the sender. -/
  | send (tx : Nat) (e : CrewEvent)
  | remove (crew : String)
  | cleanupOrphans
  /-- The three steps of `agnosai_event_bus_subscribe_a`, where `mint` is for the one that always
  mints. -/
  | lookup (k : Nat) (crew : String)
  | takeIdle (k : Nat)
  | mint (k : Nat)
  | add (k : Nat)
  /-- `agnosai_event_sender_unsubscribe`: its section, and the close that follows. -/
  | unsubscribe (k tx : Nat)
  | close (k : Nat)
  /-- `agnosai_event_bus_recycle`: up to its section, and its section. -/
  | recycle (k : Nat)
  | shelve (k : Nat)
  /-- `agnosai_event_sub_try_recv`. -/
  | recv (k : Nat)
  /-- `agnosai_event_sub_lagged`. -/
  | lagged (k : Nat)
  /-- A consumer clears its own pointer. -/
  | letGo (k : Nat)

def wireStep (w : Wire) : WireAct → Option Wire
  | .sender crew => some (w.sender crew).1
  | .send tx e => some (w.send tx e)
  | .remove crew => some (w.remove crew)
  | .cleanupOrphans => some { w with bus := w.bus.cleanup }
  | .lookup k crew =>
    match w.clients k with
    | none =>
      let (w, tx) := w.sender crew
      some (w.setClient k { crew, stage := .looked tx, tx })
    | some _ => none
  | .takeIdle k =>
    (w.clients k).bind fun c =>
      match c.stage, w.takeIdle with
      | .looked tx, (some sub, w) => some (w.setClient k { c with stage := .taken tx sub })
      | .looked tx, (none, w) =>
        some (w.subNew.2.setClient k { c with stage := .taken tx w.subNew.1 })
      | _, _ => none
  | .mint k =>
    (w.clients k).bind fun c =>
      match c.stage with
      | .looked tx => some (w.subNew.2.setClient k { c with stage := .taken tx w.subNew.1 })
      | _ => none
  | .add k =>
    (w.clients k).bind fun c =>
      match c.stage with
      | .taken tx sub =>
        some ({ w with bus := w.bus.add tx sub }.setClient k
          { c with stage := .handed sub, handle := some sub })
      | _ => none
  | .unsubscribe k tx =>
    (w.clients k).bind fun c =>
      match c.stage with
      | .handed sub =>
        if sub ∈ w.bus.subs tx then
          some ({ w with
            bus := { w.bus with
              subs := update w.bus.subs tx ((w.bus.subs tx).erase sub) } }.setClient k
              { c with stage := .dropped sub })
        else some w
      | _ => none
  | .close k =>
    (w.clients k).bind fun c =>
      match c.stage with
      | .dropped sub =>
        some ((w.setCell sub (w.cells sub).close).setClient k { c with stage := .handed sub })
      | _ => none
  | .recycle k =>
    (w.clients k).bind fun c =>
      match c.stage with
      | .handed sub =>
        if (w.cells sub).closed then
          some ((w.setCell sub (w.cells sub).reopen).setClient k { c with stage := .reopened sub })
        else some w
      | _ => none
  | .shelve k =>
    (w.clients k).bind fun c =>
      match c.stage with
      | .reopened sub => some ((w.shelve sub).setClient k { c with stage := .givenBack })
      | _ => none
  | .recv k =>
    (w.clients k).bind fun c =>
      c.handle.map fun sub =>
        let (event, chan) := (w.cells sub).chan.tryRecv
        (w.setCell sub { w.cells sub with chan }).setClient k
          { c with received := c.received ++ event.toList }
  | .lagged k =>
    (w.clients k).bind fun c =>
      c.handle.map fun sub =>
        (w.setCell sub { w.cells sub with lagged := 0 }).setClient k
          { c with lost := c.lost + (w.cells sub).lagged }
  | .letGo k => (w.clients k).map fun c => w.setClient k { c with handle := none }

def wire : Machine Wire WireAct := ⟨wireStep⟩

/-- A subscription is given back once its reader has let go of it. -/
def LetGo (w : Wire) : WireAct → Prop
  | .recycle k => ∀ c, w.clients k = some c → c.handle = none
  | _ => True

instance (w : Wire) : ∀ act, Decidable (LetGo w act)
  | .recycle k =>
    decidable_of_iff ((w.clients k).all fun c => c.handle.isNone) (by simp [LetGo, all_eq_true])
  | .sender _ | .send _ _ | .remove _ | .cleanupOrphans | .lookup _ _ | .takeIdle
      _ | .mint _ | .add _
  | .unsubscribe _ _ | .close _ | .shelve _ | .recv _ | .lagged _ | .letGo _ => .isTrue trivial

/-! ### What a step does -/

inductive WireTrans (w : Wire) : WireAct → Wire → Prop where
  | made {crew} : WireTrans w (.sender crew) (w.sender crew).1
  | sent {tx e} : WireTrans w (.send tx e) (w.send tx e)
  | removed {crew} : WireTrans w (.remove crew) (w.remove crew)
  | cleaned : WireTrans w .cleanupOrphans { w with bus := w.bus.cleanup }
  | looked {k crew} (hnew : w.clients k = none) :
      WireTrans w (.lookup k crew) ((w.sender crew).1.setClient k
        { crew, stage := .looked (w.sender crew).2, tx := (w.sender crew).2 })
  | taken {k c tx sub} (hk : w.clients k = some c) (hstage : c.stage = .looked tx)
      (hidle : w.idle = sub + 1) :
      WireTrans w (.takeIdle k)
        (({ w with idle := (w.cells sub).lagged }.setCell sub
          { w.cells sub with lagged := 0 }).setClient k { c with stage := .taken tx sub })
  | minted {act k c tx} (hk : w.clients k = some c) (hstage : c.stage = .looked tx)
      (hact : act = .takeIdle k ∧ w.idle = 0 ∨ act = .mint k) :
      WireTrans w act (w.subNew.2.setClient k { c with stage := .taken tx w.subNew.1 })
  | added {k c tx sub} (hk : w.clients k = some c) (hstage : c.stage = .taken tx sub) :
      WireTrans w (.add k) ({ w with bus := w.bus.add tx sub }.setClient k
        { c with stage := .handed sub, handle := some sub })
  | unsubscribed {k tx c sub} (hk : w.clients k = some c) (hstage : c.stage = .handed sub)
      (hmem : sub ∈ w.bus.subs tx) :
      WireTrans w (.unsubscribe k tx)
        ({ w with
          bus := { w.bus with subs := update w.bus.subs tx ((w.bus.subs tx).erase sub) } }.setClient
            k { c with stage := .dropped sub })
  | missed {k tx c sub} (hk : w.clients k = some c) (hstage : c.stage = .handed sub)
      (hnot : sub ∉ w.bus.subs tx) : WireTrans w (.unsubscribe k tx) w
  | closed {k c sub} (hk : w.clients k = some c) (hstage : c.stage = .dropped sub) :
      WireTrans w (.close k)
        ((w.setCell sub (w.cells sub).close).setClient k { c with stage := .handed sub })
  | recycled {k c sub} (hk : w.clients k = some c) (hstage : c.stage = .handed sub)
      (hclosed : (w.cells sub).closed = true) :
      WireTrans w (.recycle k)
        ((w.setCell sub (w.cells sub).reopen).setClient k { c with stage := .reopened sub })
  | left {k c sub} (hk : w.clients k = some c) (hstage : c.stage = .handed sub)
      (hopen : (w.cells sub).closed = false) : WireTrans w (.recycle k) w
  | shelved {k c sub} (hk : w.clients k = some c) (hstage : c.stage = .reopened sub) :
      WireTrans w (.shelve k) ((w.shelve sub).setClient k { c with stage := .givenBack })
  | received {k c sub} (hk : w.clients k = some c) (hhandle : c.handle = some sub) :
      WireTrans w (.recv k)
        ((w.setCell sub { w.cells sub with chan := (w.cells sub).chan.tryRecv.2 }).setClient k
          { c with received := c.received ++ (w.cells sub).chan.tryRecv.1.toList })
  | told {k c sub} (hk : w.clients k = some c) (hhandle : c.handle = some sub) :
      WireTrans w (.lagged k)
        ((w.setCell sub { w.cells sub with lagged := 0 }).setClient k
          { c with lost := c.lost + (w.cells sub).lagged })
  | gone {k c} (hk : w.clients k = some c) :
      WireTrans w (.letGo k) (w.setClient k { c with handle := none })

/-- **Inversion of a step.** -/
theorem wireStep_trans {w w' : Wire} {act : WireAct} (h : wire.step w act = some w') :
    WireTrans w act w' := by
  cases act with
  | sender | send | remove | cleanupOrphans =>
    cases h
    constructor
  | lookup =>
    simp only [wire, wireStep] at h
    split at h <;> cases h
    exact .looked ‹_›
  | takeIdle =>
    obtain ⟨c, hk, h⟩ := bind_eq_some_iff.1 h
    split at h
    next hstage htake =>
      unfold Wire.takeIdle at htake
      split at htake <;> cases htake
      cases h
      exact .taken hk hstage ‹_›
    next hstage htake =>
      unfold Wire.takeIdle at htake
      split at htake <;> cases htake
      cases h
      exact .minted hk hstage (.inl ⟨rfl, ‹_›⟩)
    · cases h
  | mint =>
    obtain ⟨c, hk, h⟩ := bind_eq_some_iff.1 h
    split at h <;> cases h
    exact .minted hk ‹_› (.inr rfl)
  | add | close | shelve =>
    obtain ⟨c, hk, h⟩ := bind_eq_some_iff.1 h
    split at h <;> cases h
    constructor <;> assumption
  | unsubscribe =>
    obtain ⟨c, hk, h⟩ := bind_eq_some_iff.1 h
    split at h
    · split at h <;> cases h
      · exact .unsubscribed hk ‹_› ‹_›
      · exact .missed hk ‹_› ‹_›
    · cases h
  | recycle k =>
    obtain ⟨c, hk, h⟩ := bind_eq_some_iff.1 h
    split at h
    · split at h <;> cases h
      · exact .recycled hk ‹_› ‹_›
      · exact .left hk ‹_› (Bool.eq_false_iff.2 ‹_›)
    · cases h
  | recv | lagged =>
    obtain ⟨c, hk, h⟩ := bind_eq_some_iff.1 h
    obtain ⟨sub, hhandle, rfl⟩ := map_eq_some_iff.1 h
    constructor <;> assumption
  | letGo k =>
    obtain ⟨c, hk, rfl⟩ := map_eq_some_iff.1 h
    exact .gone hk

end Agnosai.Subscriptions
