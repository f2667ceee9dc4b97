import Mathlib.Algebra.Group.Int.Defs
import Agnosai.Sandbox.Spawn.Definitions

/-!
# Sandbox — the deadline of a spawn

The deadline is looked at once in every turn of the loop, and a child that is past it is killed and
reaped. But the loop is over once both output streams are at end of file, and the wait that
follows has no deadline: a child that closes its stdout and its stderr and lives on is waited for
as long as it likes.

Up to the first check past the deadline the state is `Early`: nothing has been killed or waited
for, and every reading of the clock was before the deadline.
-/

namespace Agnosai.Spawn

open Drain List Int64

/-- A call of a spawn that is not yet past `deadline`. -/
def Call.Early (deadline : Int64) : Call → Prop
  | .clock now => now < deadline
  | .kill => False
  | .wait => False
  | .close _ => True
  | .sleep => True

namespace Drain

variable {input : Bytes} {deadline : Int64} {t : Turn} {s : Drain}

/-! ### The streams -/

@[simp] theorem feed_outDone (w : Int) : (s.feed input w).outDone = s.outDone := by
  unfold feed closeInput send
  split_ifs <;> rfl

@[simp] theorem feed_errDone (w : Int) : (s.feed input w).errDone = s.errDone := by
  unfold feed closeInput send
  split_ifs <;> rfl

variable (r : Option Bytes)

@[simp] theorem drainOut_errDone : (s.drainOut r).errDone = s.errDone := by
  unfold drainOut
  split
  · rfl
  · split <;> rfl

@[simp] theorem drainErr_outDone : (s.drainErr r).outDone = s.outDone := by
  unfold drainErr
  split
  · rfl
  · split <;> rfl

@[simp] theorem idle_outDone : s.idle.outDone = s.outDone := by
  unfold idle
  split <;> rfl

@[simp] theorem idle_errDone : s.idle.errDone = s.errDone := by
  unfold idle
  split <;> rfl

theorem drainOut_outDone_iff :
    (s.drainOut r).outDone = true ↔ s.outDone = true ∨ r = some [] := by
  unfold drainOut
  split
  next h => simp only [h, true_or]
  next h => split <;> simp_all

theorem drainErr_errDone_iff :
    (s.drainErr r).errDone = true ↔ s.errDone = true ∨ r = some [] := by
  unfold drainErr
  split
  next h => simp only [h, true_or]
  next h => split <;> simp_all

/-! ### Before the deadline -/

/-- Nothing has been killed or waited for, and the clock has only been before the deadline. -/
structure Early (deadline : Int64) (s : Drain) : Prop where
  alive : s.killed = false
  calls : ∀ c ∈ s.calls, c.Early deadline

namespace Early

variable (h : s.Early deadline)
include h

/-- What keeps `killed` and adds early calls only keeps `Early`. -/
theorem of_append {s' : Drain} {cs : List Call}
    (hkilled : s'.killed = s.killed) (hcalls : s'.calls = s.calls ++ cs)
    (hcs : ∀ c ∈ cs, c.Early deadline) : s'.Early deadline where
  alive := hkilled.trans h.alive
  calls := by
    intro c hc
    rw [hcalls, mem_append] at hc
    exact hc.elim (h.calls c) (hcs c)

theorem of_eq {s' : Drain} (hkilled : s'.killed = s.killed)
    (hcalls : s'.calls = s.calls) : s'.Early deadline :=
  h.of_append hkilled (hcalls.trans (append_nil _).symm) nofun

theorem send (w : Int) : (s.send input w).Early deadline := by
  unfold Drain.send
  split
  · exact h.of_eq rfl rfl
  · exact h

theorem closeInput : (s.closeInput input).Early deadline := by
  unfold Drain.closeInput
  split
  · exact h.of_append rfl rfl fun c hc => mem_singleton.1 hc ▸ trivial
  · exact h

theorem feed (w : Int) : (s.feed input w).Early deadline := by
  unfold Drain.feed
  split
  · exact (h.send w).closeInput
  · exact h

theorem drainOut : (s.drainOut r).Early deadline := by
  unfold Drain.drainOut
  split
  · exact h
  · split <;> exact h.of_eq rfl rfl

theorem drainErr : (s.drainErr r).Early deadline := by
  unfold Drain.drainErr
  split
  · exact h
  · split <;> exact h.of_eq rfl rfl

theorem idle : s.idle.Early deadline := by
  unfold Drain.idle
  split
  · exact h.of_append rfl rfl fun c hc => mem_singleton.1 hc ▸ trivial
  · exact h

end Early

/-- The part of a turn before the check. -/
def exchange (input : Bytes) (t : Turn) (s : Drain) : Drain :=
  ((feed input t.write { s with moved := false }).drainOut t.stdout).drainErr t.stderr

theorem turn_eq : s.turn input deadline t = ((s.exchange input t).check deadline t.now).idle := rfl

theorem Early.exchange (h : s.Early deadline) : (s.exchange input t).Early deadline :=
  (((h.of_eq rfl rfl : Drain.Early deadline { s with moved := false }).feed t.write).drainOut
    t.stdout).drainErr t.stderr

theorem exchange_outDone_iff :
    (s.exchange input t).outDone = true ↔ s.outDone = true ∨ t.stdout = some [] := by
  rw [exchange, drainErr_outDone, drainOut_outDone_iff, feed_outDone]

theorem exchange_errDone_iff :
    (s.exchange input t).errDone = true ↔ s.errDone = true ∨ t.stderr = some [] := by
  rw [exchange, drainErr_errDone_iff, drainOut_errDone, feed_errDone]

/-- A check before the deadline reads the clock and no more. -/
theorem check_of_lt (hpos : 0 < deadline) (hlt : t.now < deadline) :
    s.check deadline t.now = { s with calls := s.calls ++ [.clock t.now] } := by
  unfold check
  rw [if_pos hpos, if_neg (Int64.not_le.2 hlt)]

/-- A check at or after the deadline kills and reaps the child and ends the loop. -/
theorem check_of_le (hpos : 0 < deadline) (hle : deadline ≤ t.now) :
    s.check deadline t.now =
      { s with
        killed := true
        outDone := true
        errDone := true
        calls := s.calls ++ [.clock t.now] ++ [.kill, .wait] } := by
  unfold check
  rw [if_pos hpos, if_pos hle]

/-- **The step before the deadline.** -/
theorem Early.turn (h : s.Early deadline) (hpos : 0 < deadline) (hlt : t.now < deadline) :
    (s.turn input deadline t).Early deadline := by
  rw [turn_eq, check_of_lt hpos hlt]
  have hclock : ∀ c ∈ [Call.clock t.now], c.Early deadline := by
    intro c hc
    rw [mem_singleton.1 hc]
    exact hlt
  have hx : (s.exchange input t).Early deadline := h.exchange
  refine Early.idle (hx.of_append ?_ ?_ hclock)
  · rfl
  · rfl

theorem turn_outDone_iff (hpos : 0 < deadline) (hlt : t.now < deadline) :
    (s.turn input deadline t).outDone = true ↔ s.outDone = true ∨ t.stdout = some [] := by
  rw [turn_eq, check_of_lt hpos hlt, idle_outDone]
  exact exchange_outDone_iff

theorem turn_errDone_iff (hpos : 0 < deadline) (hlt : t.now < deadline) :
    (s.turn input deadline t).errDone = true ↔ s.errDone = true ∨ t.stderr = some [] := by
  rw [turn_eq, check_of_lt hpos hlt, idle_errDone]
  exact exchange_errDone_iff

/-- **The step at the deadline.** The turn ends with the reading, the kill and the wait: there is
no sleep after a kill. -/
theorem turn_of_le (hpos : 0 < deadline) (hle : deadline ≤ t.now) :
    s.turn input deadline t =
      { s.exchange input t with
        killed := true
        outDone := true
        errDone := true
        calls := (s.exchange input t).calls ++ [.clock t.now] ++ [.kill, .wait] } := by
  rw [turn_eq, check_of_le hpos hle]
  exact if_neg (by simp)

end Drain

/-! ### Up to the deadline -/

section Run

variable {w : World} {input : Bytes} {timeout deadline : Int64} {n k : Nat}

/-- The state after `n` turns of the loop. -/
def stateAfter (w : World) (input : Bytes) (timeout deadline : Int64) (n : Nat) : Drain :=
  (pump input deadline).after w.turn (start w input timeout) n

/-- The first `n` checks are before the deadline. -/
def World.ChecksBefore (w : World) (deadline : Int64) (n : Nat) : Prop :=
  ∀ i < n, (w.turn i).now < deadline

/-- `k` is the first turn whose check is at or after the deadline. -/
structure World.FirstPast (w : World) (deadline : Int64) (k : Nat) : Prop where
  before : w.ChecksBefore deadline k
  past : deadline ≤ (w.turn k).now

/-- The child, left alone, is running at `time`. -/
def World.RunsAt (w : World) (time : Int64) : Prop :=
  ∀ e, w.ends = some e → time < e

/-- Both output streams come to their end in one of the first `n` turns. -/
def World.ClosesBefore (w : World) (n : Nat) : Prop :=
  (∃ i < n, (w.turn i).stdout = some []) ∧ ∃ i < n, (w.turn i).stderr = some []

theorem World.ChecksBefore.mono (h : w.ChecksBefore deadline k) (hnk : n ≤ k) :
    w.ChecksBefore deadline n := fun i hi => h i (lt_of_lt_of_le hi hnk)

theorem World.ClosesBefore.mono (h : w.ClosesBefore n) (hnk : n ≤ k) : w.ClosesBefore k :=
  ⟨h.1.imp fun _ hi => ⟨lt_of_lt_of_le hi.1 hnk, hi.2⟩,
    h.2.imp fun _ hi => ⟨lt_of_lt_of_le hi.1 hnk, hi.2⟩⟩

theorem start_early (hstart : w.start < deadline) :
    (start w input timeout).Early deadline where
  alive := rfl
  calls := by
    intro c hc
    simp only [start, mem_append, mem_cons, not_mem_nil, or_false] at hc
    rcases hc with (hc | hc) | hc
    · rcases hc with rfl | rfl | rfl | rfl <;> trivial
    · split at hc
      · rw [mem_singleton.1 hc]
        trivial
      · cases hc
    · split at hc
      · rw [mem_singleton.1 hc]
        exact hstart
      · cases hc

/-- **The run before the deadline**, by induction on the turns. -/
theorem stateAfter_early (hstart : w.start < deadline) (hpos : 0 < deadline)
    (hn : w.ChecksBefore deadline n) :
    (stateAfter w input timeout deadline n).Early deadline := by
  induction n with
  | zero => exact start_early hstart
  | succ n ih => exact (ih (hn.mono n.le_succ)).turn hpos (hn n n.lt_succ_self)

section

variable (hpos : 0 < deadline) (hn : w.ChecksBefore deadline n)
include hpos hn

theorem stateAfter_outDone_iff :
    (stateAfter w input timeout deadline n).outDone = true ↔
      ∃ i < n, (w.turn i).stdout = some [] :=
  (pump input deadline).after_iff_exists (f := fun s => s.outDone = true) Bool.false_ne_true
    fun i hi => turn_outDone_iff hpos (hn i hi)

theorem stateAfter_errDone_iff :
    (stateAfter w input timeout deadline n).errDone = true ↔
      ∃ i < n, (w.turn i).stderr = some [] :=
  (pump input deadline).after_iff_exists (f := fun s => s.errDone = true) Bool.false_ne_true
    fun i hi => turn_errDone_iff hpos (hn i hi)

/-- Before the deadline the loop is over just when both streams are closed. -/
theorem stateAfter_done_iff :
    (stateAfter w input timeout deadline n).done = true ↔ w.ClosesBefore n := by
  rw [done, Bool.and_eq_true, stateAfter_outDone_iff hpos hn, stateAfter_errDone_iff hpos hn]
  rfl

end

/-! ### At the deadline -/

/-- The child was killed and reaped as the clock read `now`, the first reading not before
`deadline`; there was no wait but that one, and the result says that it timed out. -/
def Outcome.KilledAt (deadline now : Int64) : Outcome → Prop
  | .returned r calls =>
    r.timedOut = true ∧ ∃ pre post, calls = pre ++ [.clock now] ++ [.kill, .wait] ++ post ∧
      (∀ c ∈ pre, c.Early deadline) ∧ ∀ c ∈ post, ∃ fd, c = .close fd
  | .waiting _ => False

theorem resultOf_timedOut (s : Drain) : (resultOf w s).timedOut = s.killed := by
  unfold resultOf
  split
  · rfl
  · split_ifs <;> rfl

theorem mem_closing {s : Drain} {c : Call} (hc : c ∈ closing s) : ∃ fd, c = .close fd := by
  rcases mem_append.1 hc with hc | hc
  · split at hc
    · exact ⟨_, mem_singleton.1 hc⟩
    · cases hc
  · simp only [mem_cons, not_mem_nil, or_false] at hc
    rcases hc with hc | hc | hc <;> exact ⟨_, hc⟩

/-- What was not killed in the loop does not end as killed. -/
theorem not_killedAt_finish {s : Drain} {now : Int64} (h : s.killed = false) :
    ¬ (finish w s).KilledAt deadline now := by
  unfold finish
  rw [h, if_neg Bool.false_ne_true]
  split
  · exact id
  · rintro ⟨htimed, -⟩
    rw [resultOf_timedOut, h] at htimed
    cases htimed

/-- The turn at the deadline ends the loop, and the spawn as killed. -/
theorem killedAt_finish_turn {s : Drain} {t : Turn} (hs : s.Early deadline) (hpos : 0 < deadline)
    (hle : deadline ≤ t.now) :
    (finish w (s.turn input deadline t)).KilledAt deadline t.now := by
  have hx : (s.exchange input t).Early deadline := hs.exchange
  rw [turn_of_le hpos hle]
  exact ⟨resultOf_timedOut _, _, _, rfl, hx.calls, fun _ => mem_closing⟩

/-- A positive timeout whose sum with the clock is an `i64` sets a deadline ahead of the clock. -/
theorem deadline_ahead (htimeout : 0 < timeout) (hfit : w.start.toInt + timeout.toInt < 2 ^ 63) :
    w.start < w.start + timeout ∧ 0 < w.start + timeout := by
  have hstart := le_iff_toInt_le.1 w.start_nonneg
  have hpos := lt_iff_toInt_lt.1 htimeout
  rw [toInt_zero] at hstart hpos
  have hsum : (w.start + timeout).toInt = w.start.toInt + timeout.toInt := by
    rw [toInt_add]
    exact Int.bmod_eq_of_le (by omega) (by omega)
  constructor
  · rw [lt_iff_toInt_lt, hsum]
    omega
  · rw [lt_iff_toInt_lt, hsum, toInt_zero]
    omega

theorem captureInput_eq (hsetup : w.setupFails = none) (htimeout : 0 < timeout) (fuel : Nat) :
    captureInput w input timeout fuel =
      ((pump input (w.start + timeout)).run w.turn fuel (start w input timeout)).map
        (finish w) := by
  rw [captureInput, hsetup, deadlineOf, if_pos htimeout]

/-- **The deadline of a spawn.** Let `k` be the first turn whose check is at or after the deadline.
A child that is running at the deadline is killed and reaped at that check, and reported as timed
out, exactly when it has not closed both its output streams in the turns before. -/
theorem killed_iff_not_closed (hsetup : w.setupFails = none) (htimeout : 0 < timeout)
    (hfit : w.start.toInt + timeout.toInt < 2 ^ 63) (hk : w.FirstPast (w.start + timeout) k) :
    (w.RunsAt (w.start + timeout) →
      ∃ fuel o, captureInput w input timeout fuel = some o ∧
        o.KilledAt (w.start + timeout) (w.turn k).now) ↔
    ¬ (w.RunsAt (w.start + timeout) ∧ w.ClosesBefore k) := by
  obtain ⟨hstart, hpos⟩ := deadline_ahead htimeout hfit
  have hearly : ∀ n ≤ k, (stateAfter w input timeout (w.start + timeout) n).Early _ := fun n hn =>
    stateAfter_early hstart hpos (hk.before.mono hn)
  constructor
  · rintro hkilled ⟨hruns, hcloses⟩
    obtain ⟨fuel, o, hrun, ho⟩ := hkilled hruns
    rw [captureInput_eq hsetup htimeout, Option.map_eq_some_iff] at hrun
    obtain ⟨s, hs, rfl⟩ := hrun
    obtain ⟨n, rfl, -, hbefore⟩ := Turns.run_eq_some _ hs
    -- The loop was over by turn `k`, so it ended no later, and nothing was killed by then.
    have hdone : (stateAfter w input timeout (w.start + timeout) k).done = true :=
      (stateAfter_done_iff hpos hk.before).2 hcloses
    have hn : n ≤ k := not_lt.1 fun hlt => absurd hdone (Bool.eq_false_iff.1 (hbefore k hlt))
    exact not_killedAt_finish (hearly n hn).alive ho
  · intro hopen hruns
    -- No state up to turn `k` ends the loop, and the turn `k` does.
    have hbefore : ∀ j < k + 1,
        (stateAfter w input timeout (w.start + timeout) j).done = false := by
      intro j hj
      have hjk := Nat.le_of_lt_succ hj
      rw [Bool.eq_false_iff, ne_eq, stateAfter_done_iff hpos (hk.before.mono hjk)]
      exact fun hcloses => hopen ⟨hruns, hcloses.mono hjk⟩
    have hstop : (stateAfter w input timeout (w.start + timeout) (k + 1)).done = true := by
      show (turn _ _ _ _).done = true
      rw [turn_of_le hpos hk.past]
      rfl
    refine ⟨k + 1, finish w (stateAfter w input timeout (w.start + timeout) (k + 1)), ?_, ?_⟩
    · rw [captureInput_eq hsetup htimeout]
      exact congrArg (Option.map (finish w)) (Turns.run_of_stop _ hstop hbefore)
    · exact killedAt_finish_turn (hearly k le_rfl) hpos hk.past

end Run

/-- A clock may start at 0. -/
theorem zero_start_nonneg : (0 : Int64) ≤ 0 := Int64.le_refl 0

/-- A world in which the set-up succeeds, every turn brings `read` on both streams, the clock is
past a second from the second turn on, and the child does not end. -/
def lingering (read : Option Bytes) : World where
  pipe := fun _ => true
  cloexec := true
  fork := true
  start := 0
  start_nonneg := zero_start_nonneg
  turn := fun i => { write := 0, stdout := read, stderr := read, now := if i = 0 then 5 else 1000 }
  report := none
  ends := none
  status := 0
  killStatus := 9

theorem lingering_firstPast (read : Option Bytes) : (lingering read).FirstPast 1000 1 where
  before := by
    intro i hi
    rw [Nat.lt_one_iff.1 hi]
    exact (by decide : (5 : Int64) < 1000)
  past := Int64.le_refl _

theorem lingering_runsAt (read : Option Bytes) (time : Int64) : (lingering read).RunsAt time :=
  nofun

/-- A child that sleeps with its streams open is killed. -/
theorem killed_sleeping :
    (lingering none).RunsAt 1000 ∧
      ∃ fuel o, captureInput (lingering none) [] 1000 fuel = some o ∧ o.KilledAt 1000 1000 := by
  have htimeout : (0 : Int64) < 1000 := by decide
  have hfit : (lingering none).start.toInt + (1000 : Int64).toInt < 2 ^ 63 := by decide
  refine ⟨lingering_runsAt _ _, (killed_iff_not_closed rfl htimeout hfit
    (lingering_firstPast none)).2 ?_ (lingering_runsAt _ _)⟩
  rintro ⟨-, ⟨i, -, hi⟩, -⟩
  cases hi

/-- A child that closes its streams at once and lives on is waited for, and with it the spawn never
returns: neither the deadline nor the kill is ever looked at again. -/
theorem closed_never_killed :
    (lingering (some [])).setupFails = none ∧ (lingering (some [])).FirstPast 1000 1 ∧
      (lingering (some [])).RunsAt 1000 ∧
      captureInput (lingering (some [])) [] 1000 0 = none ∧
      ∀ fuel, captureInput (lingering (some [])) [] 1000 (fuel + 1) =
        some (.waiting [.close .irf, .close .owf, .close .ewf, .close .xwf, .close .iwf, .clock 0,
          .clock 5, .sleep, .close .orf, .close .erf, .close .xrf, .wait]) := by
  refine ⟨rfl, lingering_firstPast _, lingering_runsAt _ _, rfl, fun fuel => ?_⟩
  cases fuel <;> rfl

end Agnosai.Spawn
