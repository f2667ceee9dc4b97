import Agnosai.Core.Bytes
import Agnosai.Support.Turns

/-!
# Sandbox — spawning a child

`agnosai_spawn_capture_input` (`sandbox/spawn.cyr`): four pipes and a fork, a loop that feeds the
child's stdin and drains its two output streams in turns until both are at end of file or the
deadline has passed, and then the child's exec report and its wait status.

The child and the kernel are a `World`: for every turn of the loop what a write and the two reads
would return and what the clock says, and when the child ends on its own, if ever. No turn waits,
nor does the read of the exec pipe. What can wait is `waitpid` on a child that was not killed, and
where that child never ends the outcome is `waiting`.
-/

namespace Agnosai.Spawn

/-- The eight ends of the four pipes: stdin, stdout, stderr and the exec report. -/
inductive Fd where
  | irf
  | iwf
  | orf
  | owf
  | erf
  | ewf
  | xrf
  | xwf
  deriving DecidableEq

/-- What the parent does, in order. -/
inductive Call where
  | close (fd : Fd)
  | clock (now : Int64)
  | sleep
  | kill
  | wait
  deriving DecidableEq

/-- What one turn of the loop meets. A write returns a count or an error number; a read returns an
error, or bytes, of which there are none at end of file. -/
structure Turn where
  write : Int
  stdout : Option Bytes
  stderr : Option Bytes
  now : Int64

/-- The child and the kernel. -/
structure World where
  /-- Whether the `i`-th pipe could be made. -/
  pipe : Nat → Bool
  cloexec : Bool
  fork : Bool
  /-- The clock, in milliseconds, as the deadline is set. -/
  start : Int64
  start_nonneg : 0 ≤ start
  turn : Nat → Turn
  /-- What the child wrote to the exec pipe, if it could not run the program. -/
  report : Option Int
  /-- When the child ends if it is not killed. -/
  ends : Option Int64
  /-- Its wait status then. -/
  status : Nat
  /-- Its wait status once killed. -/
  killStatus : Nat

/-- `AgnosaiSpawnResult`. -/
structure Result where
  status : Int
  stdout : Bytes
  stderr : Bytes
  exitCode : Int
  signal : Nat
  timedOut : Bool
  failReason : Int
  stdinErr : Bool

/-- How a spawn goes: it returns, or it waits for a child that does not end. -/
inductive Outcome where
  | returned (r : Result) (calls : List Call)
  | waiting (calls : List Call)

/-- `AGNOSAI_SPAWN_FAILED`. -/
def spawnFailed : Int := -1

/-- `AGNOSAI_SPAWN_OK`. -/
def spawnOk : Int := 0

/-- `AGNOSAI_SPAWN_FAIL_NONE`. -/
def failNone : Int := 0

/-- `AGNOSAI_SPAWN_FAIL_SETUP`. -/
def failSetup : Int := 3

/-- `AGNOSAI_SPAWN_CHUNK`. -/
def chunk : Int := 4096

/-- `AGNOSAI_SPAWN_EPIPE`. -/
def epipe : Int := 32

/-! ### The loop -/

structure Drain where
  sent : Int := 0
  inOpen : Bool := true
  inErr : Bool := false
  outDone : Bool := false
  errDone : Bool := false
  out : Bytes := []
  err : Bytes := []
  killed : Bool := false
  moved : Bool := false
  calls : List Call := []

namespace Drain

variable (input : Bytes)

/-- Write some more of the input, up to a chunk. A broken pipe is noted; any other error is a pipe
that is full. -/
def send (w : Int) (s : Drain) : Drain :=
  if min (input.length - s.sent) chunk > 0 then
    { s with
      sent := if w > 0 then s.sent + w else s.sent
      moved := s.moved || decide (w > 0)
      inErr := s.inErr || decide (w = -epipe) }
  else s

/-- Close the input when it is all sent or nobody reads it. -/
def closeInput (s : Drain) : Drain :=
  if s.inErr = true ∨ s.sent ≥ input.length then
    { s with inOpen := false, calls := s.calls ++ [.close .iwf] }
  else s

/-- The input's part of a turn. -/
def feed (w : Int) (s : Drain) : Drain :=
  if s.inOpen then (s.send input w).closeInput input else s

/-- Read from stdout unless it is at its end. -/
def drainOut (read : Option Bytes) (s : Drain) : Drain :=
  if s.outDone then s
  else
    match read with
    | none => s
    | some [] => { s with outDone := true }
    | some bytes => { s with out := s.out ++ bytes, moved := true }

/-- Read from stderr unless it is at its end. -/
def drainErr (read : Option Bytes) (s : Drain) : Drain :=
  if s.errDone then s
  else
    match read with
    | none => s
    | some [] => { s with errDone := true }
    | some bytes => { s with err := s.err ++ bytes, moved := true }

/-- Look at the clock if there is a deadline, and kill and reap a child that is past it
(`_agnosai_spawn_kill_and_reap`). -/
def check (deadline now : Int64) (s : Drain) : Drain :=
  if deadline > 0 then
    let s := { s with calls := s.calls ++ [.clock now] }
    if now ≥ deadline then
      { s with
        killed := true
        outDone := true
        errDone := true
        calls := s.calls ++ [.kill, .wait] }
    else s
  else s

/-- Sleep after a turn that moved nothing. -/
def idle (s : Drain) : Drain :=
  if s.moved = false && s.killed = false then { s with calls := s.calls ++ [.sleep] } else s

def turn (deadline : Int64) (t : Turn) (s : Drain) : Drain :=
  let s := { s with moved := false }
  ((((s.feed input t.write).drainOut t.stdout).drainErr t.stderr).check deadline t.now).idle

def done (s : Drain) : Bool := s.outDone && s.errDone

end Drain

/-- `while (odone == 0 || edone == 0)`. -/
def pump (input : Bytes) (deadline : Int64) : Turns Drain Turn where
  step := Drain.turn input deadline
  stop := Drain.done

/-! ### The spawn -/

/-- The two ends of the `i`-th pipe. -/
def pipeEnds : Nat → List Fd
  | 0 => [.irf, .iwf]
  | 1 => [.orf, .owf]
  | 2 => [.erf, .ewf]
  | 3 => [.xrf, .xwf]
  | _ => []

/-- `_agnosai_spawn_setup_failure`: the first `n` pipes are closed again. -/
def setupFailure (n : Nat) : Outcome :=
  .returned
    { status := spawnFailed
      stdout := []
      stderr := []
      exitCode := -1
      signal := 0
      timedOut := false
      failReason := failSetup
      stdinErr := false }
    ((List.range n).flatMap fun i => (pipeEnds i).map .close)

/-- How far the set-up gets: the pipes that are open when it fails. -/
def World.setupFails (w : World) : Option Nat :=
  match (List.range 4).find? (fun i => !w.pipe i) with
  | some n => some n
  | none => if w.cloexec && w.fork then none else some 4

/-- The deadline of a positive timeout; 0 is none. -/
def deadlineOf (start timeout : Int64) : Int64 := if timeout > 0 then start + timeout else 0

/-- The loop's variables as it starts: the parent has closed the child's ends, and its own end of
stdin where there is nothing to send. -/
def Drain.start (w : World) (input : Bytes) (timeout : Int64) : Drain :=
  let closed : List Call := [.close .irf, .close .owf, .close .ewf, .close .xwf]
  let emptyInput : List Call := if input = [] then [.close .iwf] else []
  let clocked : List Call := if timeout > 0 then [.clock w.start] else []
  { inOpen := input ≠ [], calls := closed ++ emptyInput ++ clocked }

/-- The calls after the loop, up to the last wait. -/
def closing (s : Drain) : List Call :=
  (if s.inOpen then [.close .iwf] else []) ++ [.close .orf, .close .erf, .close .xrf]

/-- What is made of the exec report and the wait status. -/
def resultOf (w : World) (s : Drain) : Result :=
  let r : Result :=
    { status := spawnOk
      stdout := s.out
      stderr := s.err
      exitCode := -1
      signal := 0
      timedOut := s.killed
      failReason := failNone
      stdinErr := s.inErr }
  match w.report with
  | some reason => { r with status := spawnFailed, failReason := reason }
  | none =>
    if s.killed then { r with signal := w.killStatus &&& 127 }
    else if w.status &&& 127 ≠ 0 then { r with signal := w.status &&& 127 }
    else { r with exitCode := ((w.status >>> 8) &&& 255 : Nat) }

/-- The end of the spawn: a child that was not killed is waited for. -/
def finish (w : World) (s : Drain) : Outcome :=
  if s.killed then .returned (resultOf w s) (s.calls ++ closing s)
  else
    match w.ends with
    | none => .waiting (s.calls ++ closing s ++ [.wait])
    | some _ => .returned (resultOf w s) (s.calls ++ closing s ++ [.wait])

/-- `agnosai_spawn_capture_input`, for at most `fuel` turns of its loop. -/
def captureInput (w : World) (input : Bytes) (timeout : Int64) (fuel : Nat) : Option Outcome :=
  match w.setupFails with
  | some n => some (setupFailure n)
  | none =>
    ((pump input (deadlineOf w.start timeout)).run w.turn fuel (Drain.start w input timeout)).map
      (finish w)

end Agnosai.Spawn
