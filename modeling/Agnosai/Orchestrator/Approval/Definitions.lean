import Agnosai.Support.KeyMap
import Agnosai.Support.Machine

/-!
# Orchestrator — Approval — Definitions

The approval gate of `orchestrator/approval.cyr`, as a machine whose actions are the atomic steps
of any number of threads: each section under the gate's mutex is one action, and so is each channel
operation and each look at the clock outside it.

A request registers a fresh one-slot channel under its task, replacing an earlier one. A submitted
decision goes into the channel registered at that moment and takes the registration away. A waiter
polls its own channel without holding the mutex. The wire form of a decision, `decision + 1`, is
an `Option` here.
-/

namespace Agnosai.Approval

open Function

inductive Decision where
  | rejected
  | approved
  deriving Repr, DecidableEq

/-- A channel of capacity one. -/
structure Chan where
  slot : Option Decision := none
  closed : Bool := false

/-- `chan_try_send`: `none` when the channel is full or closed. -/
def Chan.trySend (c : Chan) (d : Decision) : Option Chan :=
  if c.closed ∨ c.slot.isSome then none else some { c with slot := some d }

/-- The channel after `chan_try_recv`, which returns its slot. -/
def Chan.taken (c : Chan) : Chan := { c with slot := none }

/-- Where a waiter is in `agnosai_approval_wait_for_decision`. -/
inductive Pc where
  /-- At the loop's receive. -/
  | recv
  /-- About to check that its channel is still the registered one. -/
  | check
  /-- Not registered any more: at the last receive. -/
  | last
  /-- Still registered: about to look at the clock. -/
  | clock
  /-- Past the deadline: about to take its own registration away. -/
  | expire
  | returned (d : Decision)
  deriving Repr, DecidableEq

/-- A call of `agnosai_approval_wait_for_decision`: its channel (`none` from a gate at capacity),
its task, and how far it is. -/
structure Waiter where
  ch : Option Nat
  task : String
  pc : Pc

/-- The gate, its channels, the cancels that have yet to close theirs, and the waiters. -/
structure Config where
  pending : KeyMap String Nat := .empty
  chans : Nat → Chan := fun _ => {}
  fresh : Nat := 0
  closing : List Nat := []
  waiters : Nat → Option Waiter := fun _ => none

/-- `AGNOSAI_APPROVAL_MAX_PENDING`. -/
def maxPending : Nat := 1000

/-! ### The sections under the mutex -/

variable (c : Config)

/-- `agnosai_approval_request`: the channel to wait on, or `none` at capacity. -/
def request (task : String) : Option Nat × Config :=
  if maxPending ≤ c.pending.size then (none, c)
  else (some c.fresh, { c with pending := c.pending.set task c.fresh, fresh := c.fresh + 1 })

/-- `agnosai_approval_submit_decision`: whether the decision reached a waiter. -/
def submitDecision (task : String) (d : Decision) : Bool × Config :=
  match c.pending.lookup task with
  | none => (false, c)
  | some ch =>
    match (c.chans ch).trySend d with
    | none => (false, { c with pending := c.pending.erase task })
    | some sent =>
      (true, { c with
          pending := c.pending.erase task
          chans := update c.chans ch sent })

/-- `agnosai_approval_cancel`, up to the end of its section. -/
def cancel (task : String) : Config :=
  match c.pending.lookup task with
  | none => c
  | some ch => { c with pending := c.pending.erase task, closing := ch :: c.closing }

/-- The `chan_close` of a cancel, outside the mutex. -/
def closeChan (ch : Nat) : Config :=
  { c with
    closing := c.closing.erase ch
    chans := update c.chans ch { c.chans ch with closed := true } }

/-! ### The waiter -/

/-- A call begins. A channel of `0` is already a rejection. -/
def Waiter.new (ch : Option Nat) (task : String) : Waiter :=
  { ch, task, pc := if ch.isSome then .recv else .returned .rejected }

/-- The channel's slot is received: a decision is returned, and nothing leads to `empty`. -/
def receive (ch : Nat) (empty : Pc) : Pc × Config :=
  match (c.chans ch).slot with
  | some d => (.returned d, { c with chans := update c.chans ch (c.chans ch).taken })
  | none => (empty, c)

/-- The next step of `agnosai_approval_wait_for_decision` on channel `ch`; `late` is what the clock
says, if it is looked at. -/
def waitStep (ch : Nat) (task : String) (late : Bool) : Pc → Option (Pc × Config)
  | .recv => some (receive c ch .check)
  | .check => some (if c.pending.lookup task = some ch then .clock else .last, c)
  | .last => some (receive c ch (.returned .rejected))
  | .clock => some (if late then .expire else .recv, c)
  | .expire =>
    some (.returned .rejected,
      if c.pending.lookup task = some ch then { c with pending := c.pending.erase task } else c)
  | .returned _ => none

/-! ### The machine -/

inductive Act where
  | request (task : String)
  | submit (task : String) (d : Decision)
  | cancel (task : String)
  | close (ch : Nat)
  | start (w : Nat) (ch : Option Nat) (task : String)
  | step (w : Nat) (late : Bool)
  deriving Repr, DecidableEq

/-- One atomic step. A closing needs a cancel behind it, a waiter's channel is one that a request
returned, and a waiter's number is used once. -/
def step : Act → Option Config
  | .request task => some (request c task).2
  | .submit task d => some (submitDecision c task d).2
  | .cancel task => some (cancel c task)
  | .close ch => if ch ∈ c.closing then some (closeChan c ch) else none
  | .start w ch task =>
    if (c.waiters w).isNone ∧ ∀ i ∈ ch, i < c.fresh then
      some { c with waiters := update c.waiters w (some (.new ch task)) }
    else none
  | .step w late =>
    match c.waiters w with
    | some { ch := some ch, task, pc } =>
      match waitStep c ch task late pc with
      | none => none
      | some (pc', c') =>
        some { c' with waiters := update c'.waiters w (some { ch := some ch, task, pc := pc' }) }
    | _ => none

def gate : Machine Config Act := ⟨step⟩

end Agnosai.Approval
