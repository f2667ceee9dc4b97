import Agnosai.Sandbox.Spawn.Resolve

/-!
# Sandbox — running cx bytecode

`agnosai_cx_run` (`sandbox/cx.cyr`): the bytecode is checked, the interpreter looked up and started
in a confined sandbox, fed and left alone, and a loop reads what it writes until its output is at
end of file or its time is up.

The guest and the kernel are a `World`. The bytecode is sent before there is a deadline, and a
guest that does not read it can hold the send up or end the process by it. The loop looks at the
clock only in a turn that has nothing to read, and a guest that has closed its output is out of the
loop and waited for without a deadline.
-/

namespace Agnosai.Cx

open List

/-- What `agnosai_cx_run` does with the guest, in order. -/
inductive Call where
  | send (cyx : Bytes)
  | closeStdin
  | read
  | clock (now : Int64)
  | sleep
  | terminate
  | closeStdout
  | wait
  deriving DecidableEq

/-- What comes of `persistent_send`, which writes to the guest's pipe until all is written. Its
result is dropped. -/
inductive Sent where
  | returned
  /-- The pipe is full and the guest does not read. -/
  | blocked
  /-- The guest has closed its input, and nothing ignores SIGPIPE. -/
  | killed

/-- What one turn of the loop meets. A read returns an error where there is nothing to read yet, or
bytes, of which there are none at end of file. -/
structure Turn where
  read : Option Bytes
  now : Int64

/-- The host, the guest and the kernel. -/
structure World where
  fs : Spawn.Filesystem
  cwd : Bytes
  environ : List Spawn.Entry
  /-- Whether `persistent_spawn_confined_ns` could start the interpreter. -/
  confined : Bool
  send : Sent
  /-- The clock, in milliseconds, as the deadline is set. -/
  start : Int64
  turn : Nat → Turn
  /-- When the guest ends if it is not terminated. -/
  ends : Option Int64
  /-- Its wait status then. -/
  status : Nat

/-- `AgnosaiCxResult`. -/
structure Result where
  stdout : Bytes
  exitCode : Int
  timedOut : Bool

/-- How a run goes: it is refused, it returns, it waits for a guest for ever, or the process
ends. -/
inductive Outcome where
  | refused (error : String)
  | returned (r : Result) (calls : List Call)
  | waiting (calls : List Call)
  | killed (calls : List Call)

/-- `AGNOSAI_CX_MIN_BYTES`. -/
def minBytes : Nat := 24

/-- `AGNOSAI_CX_MAX_BYTES`. -/
def maxBytes : Nat := 1048576

/-- `agnosai_cx_validate`: the two bounds, the magic and the version. -/
def validate (cyx : Bytes) : Bool :=
  minBytes ≤ cyx.length && cyx.length ≤ maxBytes && cyx.take 4 == [67, 89, 88, 1]

/-- `AGNOSAI_CX_INTERPRETER`. -/
def interpreter : Bytes := ascii "cxvm"

/-- `AGNOSAI_CX_TIMEOUT_MS`. -/
def timeoutMs : Int64 := 30 * 1000

/-- `_agnosai_cx_budget_ms`. -/
def budgetMs (timeout : Int64) : Int64 := if timeout ≤ 0 then timeoutMs else timeout

variable (w : World)

/-- The deadline, as an `i64`. -/
def World.deadline (timeout : Int64) : Int64 := w.start + budgetMs timeout

/-! ### The loop -/

structure Drain where
  out : Bytes := []
  done : Bool := false
  killed : Bool := false
  calls : List Call := []

/-- One turn. The clock is looked at only where there is nothing to read. -/
def Drain.turn (deadline : Int64) (t : Turn) (s : Drain) : Drain :=
  match t.read with
  | some [] => { s with done := true, calls := s.calls ++ [.read] }
  | some (b :: bs) => { s with out := s.out ++ b :: bs, calls := s.calls ++ [.read] }
  | none =>
    if t.now ≥ deadline then
      { s with done := true, killed := true, calls := s.calls ++ [.read, .clock t.now, .terminate] }
    else { s with calls := s.calls ++ [.read, .clock t.now, .sleep] }

/-- `while (done == 0)`. -/
def pump (deadline : Int64) : Turns Drain Turn where
  step := Drain.turn deadline
  stop := Drain.done

/-- The loop's variables as it starts, with the bytecode sent. -/
def Drain.start (cyx : Bytes) : Drain :=
  { calls := [.send cyx, .closeStdin, .clock w.start] }

/-- The exit code of a guest that ended on its own. -/
def exitCodeOf (status : Nat) : Int :=
  if status &&& 127 ≠ 0 then -1 else ((status >>> 8) &&& 255 : Nat)

/-- The end of the run. What was read of a guest that was terminated is dropped; any other guest is
waited for. -/
def finish (s : Drain) : Outcome :=
  if s.killed then .returned { stdout := [], exitCode := -1, timedOut := true } s.calls
  else
    match w.ends with
    | none => .waiting (s.calls ++ [.closeStdout, .wait])
    | some _ =>
      .returned { stdout := s.out, exitCode := exitCodeOf w.status, timedOut := false }
        (s.calls ++ [.closeStdout, .wait])

/-- Why there is no guest, if there is none. -/
def World.refuses (cyx : Bytes) : Option String :=
  if validate cyx = false then some "not valid cx bytecode"
  else if Spawn.resolveInterpreter w.fs w.cwd interpreter w.environ = none then
    some "cxvm is not installed or not executable"
  else if w.confined = false then some "could not create a confined sandbox for cxvm"
  else none

/-- `agnosai_cx_run`, for at most `fuel` turns of its loop. -/
def run (cyx : Bytes) (timeout : Int64) (fuel : Nat) : Option Outcome :=
  match w.refuses cyx with
  | some error => some (.refused error)
  | none =>
    match w.send with
    | .blocked => some (.waiting [.send cyx])
    | .killed => some (.killed [.send cyx])
    | .returned => ((pump (w.deadline timeout)).run w.turn fuel (Drain.start w cyx)).map (finish w)

/-! ### The budget -/

/-- When the budget is used up, as a number that does not wrap. -/
def World.limit (timeout : Int64) : Int := w.start.toInt + (budgetMs timeout).toInt

/-- The guest has ended on its own by `time`. -/
def World.EndedBy (time : Int64) : Prop := ∃ e, w.ends = some e ∧ e ≤ time

/-- **A run that keeps to its budget.** A turn at or after `limit` is the last: the guest is
terminated in it, nothing is collected, and the result says that it timed out. And a guest is
waited for only when it has ended by the last turn. -/
def Outcome.InBudget (limit : Int) : Outcome → Prop
  | .refused _ => True
  | .returned r calls =>
    (∀ i < calls.count .read, limit ≤ (w.turn i).now.toInt →
      r.timedOut = true ∧ r.stdout = [] ∧
        ∃ pre, calls = pre ++ [.read, .clock (w.turn i).now, .terminate] ∧ pre.count .read = i) ∧
    (.wait ∈ calls → w.EndedBy (w.turn (calls.count .read - 1)).now)
  | .waiting _ | .killed _ => False

/-- The loop comes to its turn `m` before the budget is used up and without an end of file; and
there the guest is silent at the deadline, or it has closed its output in time and ended. -/
structure World.StopsAt (w : World) (timeout : Int64) (m : Nat) : Prop where
  opened : ∀ i < m, (w.turn i).read ≠ some []
  early : ∀ i < m, (w.turn i).now.toInt < w.limit timeout
  awake : ∀ i < m, (w.turn i).read = none → (w.turn i).now < w.deadline timeout
  last : ((w.turn m).read = none ∧ w.deadline timeout ≤ (w.turn m).now) ∨
    ((w.turn m).read = some [] ∧ (w.turn m).now.toInt < w.limit timeout ∧ w.EndedBy (w.turn m).now)

/-! ### Turn by turn -/

section Turns

variable {w : World} {cyx : Bytes} {timeout deadline : Int64} {t : Turn} {s : Drain} {m n : Nat}

/-- A turn ends the loop at an end of file, or at the deadline with nothing to read. -/
theorem Drain.turn_done_iff (hs : s.done = false) :
    (s.turn deadline t).done = true ↔ t.read = some [] ∨ (t.read = none ∧ deadline ≤ t.now) := by
  unfold Drain.turn
  split
  next hread => simp [hread]
  next hread => simp [hread, hs]
  next hread =>
    split
    next hle => simp [hread, hle]
    next hlt => simp [hread, hs, hlt]

theorem Drain.turn_of_eof (hread : t.read = some []) :
    s.turn deadline t = { s with done := true, calls := s.calls ++ [.read] } := by
  rw [Drain.turn, hread]

theorem Drain.turn_of_late (hread : t.read = none) (hle : deadline ≤ t.now) :
    s.turn deadline t =
      { s with
        done := true
        killed := true
        calls := s.calls ++ [.read, .clock t.now, .terminate] } := by
  rw [Drain.turn, hread]
  exact if_pos hle

/-- The state after `n` turns none of which was the last. -/
structure Running (n : Nat) (s : Drain) : Prop where
  open_ : s.done = false
  alive : s.killed = false
  turns : s.calls.count .read = n
  noWait : .wait ∉ s.calls

theorem Running.count_eof (h : Running n s) :
    count Call.read (s.calls ++ [.read] ++ [.closeStdout, .wait]) = n + 1 := by
  rw [count_append, count_append, h.turns]
  rfl

theorem Running.count_late (h : Running n s) (now : Int64) :
    count Call.read (s.calls ++ [.read, .clock now, .terminate]) = n + 1 := by
  rw [count_append, h.turns]
  rfl

/-- **The step**: a turn that is not the last. -/
theorem Running.turn (h : Running n s) (hopen : (s.turn deadline t).done = false) :
    Running (n + 1) (s.turn deadline t) := by
  have hcalls : ∀ cs : List Call, cs.count .read = 1 → .wait ∉ cs →
      (s.calls ++ cs).count .read = n + 1 ∧ .wait ∉ s.calls ++ cs := by
    intro cs hone hno
    constructor
    · rw [count_append, h.turns, hone]
    · rw [mem_append]
      exact fun hw => hw.elim h.noWait hno
  rw [Bool.eq_false_iff, ne_eq, Drain.turn_done_iff h.open_, not_or] at hopen
  unfold Drain.turn
  split
  next hread => exact absurd hread hopen.1
  next =>
    obtain ⟨hturns, hwait⟩ := hcalls [.read] rfl (by decide)
    exact ⟨h.open_, h.alive, hturns, hwait⟩
  next hread =>
    rw [if_neg fun hle => hopen.2 ⟨hread, hle⟩]
    obtain ⟨hturns, hwait⟩ := hcalls [.read, .clock t.now, .sleep] rfl (by simp)
    exact ⟨h.open_, h.alive, hturns, hwait⟩

/-- The state after `n` turns of the loop. -/
def stateAfter (w : World) (cyx : Bytes) (timeout : Int64) (n : Nat) : Drain :=
  (pump (w.deadline timeout)).after w.turn (Drain.start w cyx) n

/-- **The run**, by induction on the turns. -/
theorem stateAfter_running (hopen : ∀ j ≤ n, (stateAfter w cyx timeout j).done = false) :
    Running n (stateAfter w cyx timeout n) := by
  induction n with
  | zero => exact ⟨rfl, rfl, by simp [stateAfter, Turns.after, Drain.start],
      by simp [stateAfter, Turns.after, Drain.start]⟩
  | succ n ih =>
    exact (ih fun j hj => hopen j (Nat.le_succ_of_le hj)).turn (hopen (n + 1) le_rfl)

/-- The loop goes on through the turns before `m`. -/
theorem World.StopsAt.open_ (h : w.StopsAt timeout m) (hn : n ≤ m) :
    (stateAfter w cyx timeout n).done = false := by
  induction n with
  | zero => rfl
  | succ n ih =>
    have hlt : n < m := hn
    refine Bool.eq_false_iff.2 fun hdone => ?_
    rcases (Drain.turn_done_iff (ih (le_of_lt hlt))).1 hdone with heof | ⟨hread, hle⟩
    · exact h.opened n hlt heof
    · exact Int64.not_le.2 (h.awake n hlt hread) hle

/-- **The last turn of a guest that is in time.** -/
theorem inBudget_of_stopsAt (h : w.StopsAt timeout m)
    (hrun : Running m (stateAfter w cyx timeout m)) :
    (stateAfter w cyx timeout (m + 1)).done = true ∧
      (finish w (stateAfter w cyx timeout (m + 1))).InBudget w (w.limit timeout) := by
  have hturn : stateAfter w cyx timeout (m + 1) =
      (stateAfter w cyx timeout m).turn (w.deadline timeout) (w.turn m) := rfl
  rw [hturn]
  rcases h.last with ⟨hread, hle⟩ | ⟨hread, hlt, hended⟩
  · rw [Drain.turn_of_late hread hle]
    refine ⟨rfl, fun i hi hlate => ⟨rfl, rfl, ?_⟩, fun hwait => ?_⟩
    · -- Only the last turn can be late.
      rw [hrun.count_late] at hi
      have him : i = m := by
        refine Nat.le_antisymm (Nat.le_of_lt_succ hi) (Nat.not_lt.1 fun hi' => ?_)
        exact absurd hlate (Int.not_le.2 (h.early i hi'))
      subst him
      exact ⟨_, rfl, hrun.turns⟩
    · rcases mem_append.1 hwait with hwait | hwait
      · exact absurd hwait hrun.noWait
      · exact absurd hwait (by simp)
  · rw [Drain.turn_of_eof hread]
    obtain ⟨e, he, hle⟩ := hended
    rw [finish, he]
    rw [hrun.alive, if_neg Bool.false_ne_true]
    refine ⟨rfl, fun i hi hlate => ?_, fun _ => ?_⟩
    · rw [hrun.count_eof] at hi
      refine absurd hlate (Int.not_le.2 ?_)
      rcases Nat.eq_or_lt_of_le (Nat.le_of_lt_succ hi) with rfl | hi'
      · exact hlt
      · exact h.early i hi'
    · rw [hrun.count_eof]
      exact ⟨e, he, hle⟩

/-- **The other direction**: where the loop ends after turn `m` and the run was in time, the guest
was. -/
theorem stopsAt_of_inBudget (hopen : ∀ j ≤ m, (stateAfter w cyx timeout j).done = false)
    (hdone : (stateAfter w cyx timeout (m + 1)).done = true)
    (hbudget : (finish w (stateAfter w cyx timeout (m + 1))).InBudget w (w.limit timeout)) :
    w.StopsAt timeout m := by
  have hrun := stateAfter_running hopen
  have hturn : stateAfter w cyx timeout (m + 1) =
      (stateAfter w cyx timeout m).turn (w.deadline timeout) (w.turn m) := rfl
  have hgoes : ∀ i < m, ¬ ((w.turn i).read = some [] ∨
      ((w.turn i).read = none ∧ w.deadline timeout ≤ (w.turn i).now)) := fun i hi hlast =>
    absurd ((Drain.turn_done_iff (hopen i (le_of_lt hi))).2 hlast)
      (Bool.eq_false_iff.1 (hopen (i + 1) hi))
  have hopened : ∀ i < m, (w.turn i).read ≠ some [] := fun i hi heof => hgoes i hi (.inl heof)
  have hawake : ∀ i < m, (w.turn i).read = none → (w.turn i).now < w.deadline timeout :=
    fun i hi hread => Int64.not_le.1 fun hle => hgoes i hi (.inr ⟨hread, hle⟩)
  rw [hturn] at hdone hbudget
  rcases (Drain.turn_done_iff hrun.open_).1 hdone with hread | ⟨hread, hle⟩
  · rw [Drain.turn_of_eof hread, finish] at hbudget
    rw [hrun.alive, if_neg Bool.false_ne_true] at hbudget
    cases hends : w.ends with
    | none => rw [hends] at hbudget; exact hbudget.elim
    | some =>
      rw [hends] at hbudget
      obtain ⟨hlate, hwait⟩ := hbudget
      rw [hrun.count_eof] at hlate hwait
      -- A turn past the budget would have been marked as timed out.
      have hearly : ∀ i < m + 1, (w.turn i).now.toInt < w.limit timeout := fun i hi =>
        Int.not_le.1 fun hge => Bool.false_ne_true (hlate i hi hge).1
      exact ⟨hopened, fun i hi => hearly i (Nat.lt_succ_of_lt hi), hawake,
        .inr ⟨hread, hearly m m.lt_succ_self, hwait (by simp)⟩⟩
  · rw [Drain.turn_of_late hread hle] at hbudget
    refine ⟨hopened, fun i hi => Int.not_le.1 fun hge => ?_, hawake, .inl ⟨hread, hle⟩⟩
    -- A late turn is the last, so it is not before `m`.
    have hcount := hrun.count_late (w.turn m).now
    obtain ⟨-, -, pre, hcalls, hpre⟩ := hbudget.1 i (hcount ▸ Nat.lt_succ_of_lt hi) hge
    have hsame := congrArg (count Call.read) hcalls
    rw [hcount, count_append, hpre] at hsame
    have hone : [Call.read, .clock (w.turn i).now, .terminate].count .read = 1 := rfl
    omega

/-- **The budget of a run.** For every guest, every bytecode and every timeout: the run returns and
keeps to its budget exactly when no guest is started, or the send returns and the loop comes in time
to a turn that stops it. -/
theorem inBudget_iff (w : World) (cyx : Bytes) (timeout : Int64) :
    (∃ fuel o, run w cyx timeout fuel = some o ∧ o.InBudget w (w.limit timeout)) ↔
      (w.refuses cyx = none → w.send = .returned ∧ ∃ m, w.StopsAt timeout m) := by
  constructor
  · rintro ⟨fuel, o, hrun, ho⟩ hstarts
    rw [run, hstarts] at hrun
    cases hsend : w.send with
    | blocked | killed =>
      rw [hsend] at hrun
      cases hrun
      exact ho.elim
    | returned =>
      rw [hsend] at hrun
      obtain ⟨s, hs, rfl⟩ := Option.map_eq_some_iff.1 hrun
      obtain ⟨n, rfl, hdone, hbefore⟩ := Turns.run_eq_some _ hs
      refine ⟨rfl, ?_⟩
      cases n with
      | zero => cases hdone
      | succ m =>
        exact ⟨m, stopsAt_of_inBudget (fun j hj => hbefore j (Nat.lt_succ_of_le hj)) hdone ho⟩
  · intro hstops
    cases hrefuses : w.refuses cyx with
    | some error => exact ⟨0, .refused error, by rw [run, hrefuses], trivial⟩
    | none =>
      obtain ⟨hsend, m, hm⟩ := hstops hrefuses
      have hrunning : Running m (stateAfter w cyx timeout m) :=
        stateAfter_running fun j hj => hm.open_ hj
      obtain ⟨hdone, hbudget⟩ := inBudget_of_stopsAt hm hrunning
      refine ⟨m + 1, finish w (stateAfter w cyx timeout (m + 1)), ?_, hbudget⟩
      rw [run, hrefuses, hsend]
      exact congrArg (Option.map (finish w))
        (Turns.run_of_stop _ hdone fun j hj => hm.open_ (Nat.le_of_lt_succ hj))

end Turns

/-- A guest whose every read returns `read`, on a host with the interpreter in `/bin`. The clock is
past a second from the second turn on, and the guest does not end. -/
def lingering (read : Option Bytes) : World where
  fs := (Spawn.oneProgram (ascii "/bin/cxvm")).fs
  cwd := ascii "/"
  environ := []
  confined := true
  send := .returned
  start := 0
  turn := fun i => { read, now := if i = 0 then 5 else 1000 }
  ends := none
  status := 0

/-- The smallest bytecode there is. -/
def leastCode : Bytes := [67, 89, 88, 1] ++ replicate 20 0

theorem lingering_starts (read : Option Bytes) : (lingering read).refuses leastCode = none := by
  have hcxvm : Spawn.resolveInterpreter (Spawn.oneProgram (ascii "/bin/cxvm")).fs (ascii "/")
      interpreter [] = some (ascii "/bin/cxvm") := by decide
  rw [World.refuses, if_neg (by decide), if_neg, if_neg]
  · exact Bool.noConfusion
  · exact fun hnone => by cases hcxvm.symm.trans hnone

/-- A guest that is silent is terminated at the deadline. -/
theorem inBudget_sleeping :
    ∃ fuel o, run (lingering none) leastCode 1000 fuel = some o ∧
      o.InBudget (lingering none) ((lingering none).limit 1000) := by
  refine (inBudget_iff (lingering none) leastCode 1000).2 fun _ => ⟨rfl, 1, ?_, ?_, ?_, ?_⟩
  · exact nofun
  · intro i hi
    rw [Nat.lt_one_iff.1 hi]
    decide
  · intro i hi _
    rw [Nat.lt_one_iff.1 hi]
    decide
  · exact .inl ⟨rfl, by decide⟩

/-- A guest that writes without pause keeps the loop going for ever, whatever the clock says. -/
theorem run_lingering_writes (b : UInt8) (fuel : Nat) :
    run (lingering (some [b])) leastCode 1000 fuel = none := by
  rw [run, lingering_starts]
  refine Option.map_eq_none_iff.2 ?_
  cases hrun : (pump _).run _ fuel (Drain.start (lingering (some [b])) leastCode) with
  | none => rfl
  | some =>
    have hopen : ∀ n, (stateAfter (lingering (some [b])) leastCode 1000 n).done = false := by
      intro n
      induction n with
      | zero => rfl
      | succ n ih => exact ih
    obtain ⟨n, rfl, hstop, -⟩ := Turns.run_eq_some _ hrun
    exact absurd hstop (Bool.eq_false_iff.1 (hopen n))

/-- Neither a guest that writes without pause nor one that closes its output and lives on is held to
a budget of a second: the one is read from for ever, the other waited for. -/
theorem not_inBudget_lingering :
    (∀ fuel, run (lingering (some [65])) leastCode 1000 fuel = none) ∧
      run (lingering (some [])) leastCode 1000 0 = none ∧
      (∀ fuel, run (lingering (some [])) leastCode 1000 (fuel + 1) =
        some (.waiting [.send leastCode, .closeStdin, .clock 0, .read, .closeStdout, .wait])) ∧
      ∀ b ∈ [[65], []], ¬ ∃ fuel o, run (lingering (some b)) leastCode 1000 fuel = some o ∧
        o.InBudget (lingering (some b)) ((lingering (some b)).limit 1000) := by
  have hwrites := run_lingering_writes 65
  have hzero : run (lingering (some [])) leastCode 1000 0 = none := by
    rfl
  have hcloses : ∀ fuel, run (lingering (some [])) leastCode 1000 (fuel + 1) =
      some (.waiting [.send leastCode, .closeStdin, .clock 0, .read, .closeStdout, .wait]) := by
    intro fuel
    cases fuel <;> rfl
  refine ⟨hwrites, hzero, hcloses, ?_⟩
  rintro b hb ⟨fuel, o, hrun, ho⟩
  rcases mem_cons.1 hb with rfl | hb
  · rw [hwrites] at hrun
    cases hrun
  · cases mem_singleton.1 hb
    cases fuel with
    | zero =>
      cases hrun
    | succ =>
      rw [hcloses] at hrun
      cases hrun
      exact ho

end Agnosai.Cx
