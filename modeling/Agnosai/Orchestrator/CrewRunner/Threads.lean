import Mathlib.Algebra.Order.BigOperators.Group.Finset
import Agnosai.Orchestrator.CrewRunner.Waves
import Agnosai.Support.Machine

/-!
# Orchestrator — CrewRunner — Threads

A wave with its threads: `_agnosai_crew_run_wave` and `_agnosai_crew_worker`, step by step. The
thread that runs the wave announces a job, hands it to a detached worker (or runs it itself, when
the thread could not be created), and waits for a batch in dispatch order.

Each action carries what its thread is told: whether to stop at a batch's head, whether a thread
was created, whether the cancel flag was set, what an execution returned. The jobs in flight are
of one batch (`Control`), and what was announced, collected and returned are the first jobs of the
wave in order (`Logged`). `DONE` and the result pointer are one field: the fences around them make
them so.
-/

namespace Agnosai.CrewRunner

open Function List

/-- A wave: the tasks of its jobs, and how many of them may run at once. -/
structure Wave where
  tasks : List Task
  limit : Nat
  pos : tasks ≠ [] → 0 < limit

variable {i : Nat} {r : TaskResult}

namespace Wave

/-- The wave that a process mode makes of some tasks. -/
def of (process : ProcessMode) (tasks : List Task) : Wave where
  tasks := tasks
  limit := (waveLimit process tasks.length).toNat
  pos h := by
    have hlen := length_pos_iff.2 h
    unfold waveLimit
    split <;> omega

/-- How far a job is. -/
inductive Phase where
  /-- Not handed over. -/
  | idle
  /-- Its worker has not looked at the cancel flag yet. -/
  | queued
  | running
  /-- `AGN_CJ_DONE`, with `AGN_CJ_RESULT`. -/
  | done (r : TaskResult)

/-- Whether the job has a worker at it. -/
def Phase.inFlight : Phase → Bool
  | .queued | .running => true
  | .idle | .done _ => false

/-- `task_started` and `task_completed`. -/
inductive Event where
  | started (job : Nat)
  | completed (job : Nat) (r : TaskResult)

/-- Where the thread is that runs the wave. -/
inductive Main where
  /-- At a batch's head. -/
  | head (next : Nat)
  /-- In the loop that spawns the batch from `first` on. -/
  | spawning (first next : Nat)
  /-- `task_started` is out, and the thread is not created yet. -/
  | creating (first next : Nat)
  /-- The thread could not be created, and the worker runs here. -/
  | inline (first next : Nat)
  /-- Waiting for `job` of the batch `first..next`. -/
  | waiting (first next job : Nat)
  | returned (next : Nat)

structure State where
  /-- `wants_events`, found once, when the wave begins. -/
  wants : Bool
  main : Main := .head 0
  job : Nat → Phase := fun _ => .idle
  /-- The points passed at which an event is sent, if events are wanted. -/
  log : List Event := []
  results : List TaskResult := []

/-- The start of a wave that finds so many receivers. -/
def start (receivers : Nat) : State := { wants := receivers != 0 }

namespace State

variable (s : State)

def sent : List Event := if s.wants then s.log else []

def goto (m : Main) : State := { s with main := m }

def setJob (i : Nat) (p : Phase) : State := { s with job := update s.job i p }

/-- An event is due. -/
def emit (e : Event) : State := { s with log := s.log ++ [e] }

/-- A result goes to the results. -/
def push (r : TaskResult) : State := { s with results := s.results ++ [r] }

end State

inductive Action where
  /-- The next step of the thread that runs the wave. `answer` is what it is told there: whether to
  stop, at a batch's head, and whether the thread was created. -/
  | main (answer : Bool)
  /-- A worker looks at the cancel flag. -/
  | look (job : Nat) (cancelled : Bool)
  /-- What a worker executes returns. -/
  | finish (job : Nat) (r : TaskResult)

variable (w : Wave)

/-- The thread that runs the wave. -/
def mainStep (s : State) (answer : Bool) : Option State :=
  match s.main with
  | .head next =>
    if w.tasks.length ≤ next then some (s.goto (.returned next))
    else if answer then some (s.goto (.returned next))
    else some (s.goto (.spawning next next))
  | .spawning first next =>
    if next < first + w.limit ∧ next < w.tasks.length then
      some ((s.emit (.started next)).goto (.creating first next))
    else some (s.goto (.waiting first next first))
  | .creating first next =>
    some ((s.setJob next .queued).goto
      (if answer then .spawning first (next + 1) else .inline first next))
  | .inline first next =>
    match s.job next with
    | .done _ => some (s.goto (.spawning first (next + 1)))
    | _ => none
  | .waiting first next job =>
    match s.job job with
    | .done r =>
      some (((s.emit (.completed job r)).push r).goto
        (if job + 1 < next then .waiting first next (job + 1) else .head next))
    | _ => none
  | .returned _ => none

/-- `_agnosai_crew_worker` at its look at the cancel flag. -/
def lookStep (s : State) (i : Nat) (t : Task) (cancelled : Bool) : Option State :=
  match s.job i with
  | .queued => some (s.setJob i (if cancelled then .done (cancelledResult t) else .running))
  | _ => none

/-- `_agnosai_crew_worker` when its task has been executed. -/
def finishStep (s : State) (i : Nat) (t : Task) (r : TaskResult) : Option State :=
  match s.job i with
  | .running => if r.taskId = t.id then some (s.setJob i (.done r)) else none
  | _ => none

def step (s : State) : Action → Option State
  | .main answer => w.mainStep s answer
  | .look i cancelled => w.tasks[i]?.bind fun t => lookStep s i t cancelled
  | .finish i r => w.tasks[i]?.bind fun t => finishStep s i t r

def machine : Machine State Action := ⟨w.step⟩

/-! ### What a step can do -/

variable {w} {s s' : State}

inductive Stepped (w : Wave) (s : State) : State → Prop where
  | leave {next : Nat} (hm : s.main = .head next) : Stepped w s (s.goto (.returned next))
  | batch {next : Nat} (hm : s.main = .head next) (hlt : next < w.tasks.length) :
      Stepped w s (s.goto (.spawning next next))
  | announce {first next : Nat} (hm : s.main = .spawning first next)
      (hroom : next < first + w.limit) (hlt : next < w.tasks.length) :
      Stepped w s ((s.emit (.started next)).goto (.creating first next))
  | spawned {first next : Nat} (hm : s.main = .spawning first next)
      (hend : ¬(next < first + w.limit ∧ next < w.tasks.length)) :
      Stepped w s (s.goto (.waiting first next first))
  | created {first next : Nat} (hm : s.main = .creating first next) :
      Stepped w s ((s.setJob next .queued).goto (.spawning first (next + 1)))
  | notCreated {first next : Nat} (hm : s.main = .creating first next) :
      Stepped w s ((s.setJob next .queued).goto (.inline first next))
  | resumed {first next : Nat} {r : TaskResult} (hm : s.main = .inline first next)
      (hd : s.job next = .done r) : Stepped w s (s.goto (.spawning first (next + 1)))
  | collected {first next i : Nat} {r : TaskResult} (hm : s.main = .waiting first next i)
      (hd : s.job i = .done r) :
      Stepped w s (((s.emit (.completed i r)).push r).goto
        (if i + 1 < next then .waiting first next (i + 1) else .head next))
  /-- A worker moves on. -/
  | worker {i : Nat} {t : Task} {p : Phase} (ht : w.tasks[i]? = some t)
      (hflight : (s.job i).inFlight = true) (hp : p = .running ∨ ∃ r, p = .done r ∧ r.taskId = t.id)
      (hless : p = .running → s.job i = .queued) : Stepped w s (s.setJob i p)

theorem mainStep_stepped {answer : Bool} (h : w.mainStep s answer = some s') : Stepped w s s' := by
  unfold mainStep at h
  split at h
  next hm =>
    split at h
    · cases h
      exact .leave hm
    next hlt =>
      split at h <;> cases h
      · exact .leave hm
      · exact .batch hm (not_le.1 hlt)
  next hm =>
    split at h <;> cases h
    next hroom => exact .announce hm hroom.1 hroom.2
    next hend => exact .spawned hm hend
  next hm =>
    cases answer <;> cases h
    · exact .notCreated hm
    · exact .created hm
  next hm =>
    split at h <;> cases h
    exact .resumed hm ‹_›
  next hm =>
    split at h <;> cases h
    exact .collected hm ‹_›
  next => cases h

/-- Every step is one of the cases. -/
theorem step_stepped {a : Action} (h : w.step s a = some s') : Stepped w s s' := by
  cases a with
  | main => exact mainStep_stepped h
  | look i cancelled =>
    obtain ⟨t, ht, h⟩ := Option.bind_eq_some_iff.1 h
    unfold lookStep at h
    split at h <;> cases h
    next hq =>
      refine .worker ht (by rw [hq]; rfl) ?_ fun _ => hq
      cases cancelled with
      | true => exact .inr ⟨cancelledResult t, rfl, rfl⟩
      | false => exact .inl rfl
  | finish i r =>
    obtain ⟨t, ht, h⟩ := Option.bind_eq_some_iff.1 h
    unfold finishStep at h
    split at h
    next hr =>
      split at h <;> cases h
      exact .worker ht (by rw [hr]; rfl) (.inr ⟨r, rfl, ‹_›⟩) nofun
    next => cases h

/-! ### Where the wave is -/

namespace Main

/-- The first job of the batch. -/
def first : Main → Nat
  | .head n | .returned n => n
  | .spawning f _ | .creating f _ | .inline f _ | .waiting f _ _ => f

/-- How many jobs were announced. -/
def announced : Main → Nat
  | .head n | .returned n | .spawning _ n | .waiting _ n _ => n
  | .creating _ n | .inline _ n => n + 1

/-- How many jobs were handed to a worker. -/
def handed : Main → Nat
  | .head n | .returned n | .spawning _ n | .creating _ n | .waiting _ n _ => n
  | .inline _ n => n + 1

/-- How many jobs were collected. -/
def collected : Main → Nat
  | .head n | .returned n => n
  | .spawning f _ | .creating f _ | .inline f _ => f
  | .waiting _ _ i => i

/-- A batch begins at a multiple of the limit and is no longer than it. -/
def Ok (w : Wave) : Main → Prop
  | .head n => n ≤ w.tasks.length ∧ (w.limit ∣ n ∨ n = w.tasks.length)
  | .spawning f n =>
    w.limit ∣ f ∧ f < w.tasks.length ∧ f ≤ n ∧ n ≤ f + w.limit ∧ n ≤ w.tasks.length
  | .creating f n | .inline f n =>
    w.limit ∣ f ∧ f ≤ n ∧ n < f + w.limit ∧ n < w.tasks.length
  | .waiting f n i =>
    w.limit ∣ f ∧ f ≤ i ∧ i < n ∧ n ≤ f + w.limit ∧ n ≤ w.tasks.length ∧
      (n = f + w.limit ∨ n = w.tasks.length)
  | .returned n => n ≤ w.tasks.length ∧ (w.limit ∣ n ∨ n = w.tasks.length)

variable {m : Main}

theorem Ok.first_le (h : m.Ok w) : m.first ≤ m.collected := by
  cases m <;> simp only [Ok, first, collected] at h ⊢ <;> omega

theorem Ok.collected_le (h : m.Ok w) : m.collected ≤ m.handed := by
  cases m <;> simp only [Ok, collected, handed] at h ⊢ <;> omega

theorem Ok.handed_le (h : m.Ok w) : m.handed ≤ m.announced := by
  cases m <;> simp only [announced, handed] <;> omega

theorem Ok.announced_le (h : m.Ok w) : m.announced ≤ w.tasks.length := by
  cases m <;> simp only [Ok, announced] at h ⊢ <;> omega

theorem Ok.handed_le_limit (h : m.Ok w) : m.handed ≤ m.first + w.limit := by
  cases m <;> simp only [Ok, first, handed] at h ⊢ <;> omega

end Main

/-- What a state of a wave has of its threads. -/
structure Control (w : Wave) (s : State) : Prop where
  ok : s.main.Ok w
  idle : ∀ i, s.job i = .idle ↔ s.main.handed ≤ i
  taskId : ∀ i r, s.job i = .done r → ∃ t, w.tasks[i]? = some t ∧ r.taskId = t.id
  length : s.results.length = s.main.collected
  results : ∀ i r, s.results[i]? = some r → s.job i = .done r

theorem control_start (w : Wave) (n : Nat) : Control w (start n) where
  ok := ⟨Nat.zero_le _, .inl (Nat.dvd_zero w.limit)⟩
  idle i := iff_of_true rfl (Nat.zero_le i)
  taskId _ _ h := nomatch h
  length := rfl
  results _ _ h := nomatch h

variable {m m₀ : Main}

namespace Control

variable (h : Control w s)
include h

/-- The thread that runs the wave moves, and the numbers that count do not. -/
theorem goto (hm : s.main = m₀) (hok : m.Ok w)
    (hhanded : m.handed = m₀.handed) (hcollected : m.collected = m₀.collected) :
    Control w (s.goto m) where
  ok := hok
  idle i := by simp only [State.goto, h.idle i, hm, hhanded]
  taskId := h.taskId
  length := by rw [State.goto, h.length, hm, hcollected]
  results := h.results

/-- The next job is handed over. -/
theorem hand (hm : s.main = m₀) (hok : m.Ok w)
    (hhanded : m.handed = m₀.handed + 1) (hcollected : m.collected = m₀.collected) :
    Control w ((s.setJob m₀.handed .queued).goto m) where
  ok := hok
  idle i := by
    have hidle := h.idle i
    simp only [State.goto, State.setJob, update_apply, hhanded]
    split
    next heq => exact iff_of_false nofun (by omega)
    next hne =>
      rw [hidle, hm]
      omega
  taskId i r hd := by
    simp only [State.goto, State.setJob, update_apply] at hd
    split at hd
    · cases hd
    · exact h.taskId i r hd
  length := by rw [State.goto, State.setJob, h.length, hm, hcollected]
  results i r hr := by
    have hd := h.results i r hr
    have hne : i ≠ m₀.handed := fun heq => by
      rw [(h.idle i).2 (by rw [hm, heq])] at hd
      cases hd
    simpa only [State.goto, State.setJob, update_of_ne hne] using hd

/-- A worker moves on. -/
theorem worker {t : Task} {p : Phase} (ht : w.tasks[i]? = some t)
    (hflight : (s.job i).inFlight = true)
    (hp : p = .running ∨ ∃ r, p = .done r ∧ r.taskId = t.id) : Control w (s.setJob i p) where
  ok := h.ok
  idle j := by
    simp only [State.setJob, update_apply]
    split
    next heq =>
      subst heq
      have hne : s.job j ≠ .idle := fun hidle => by rw [hidle] at hflight; cases hflight
      rw [← h.idle j]
      refine iff_of_false ?_ hne
      rcases hp with rfl | ⟨r, rfl, -⟩ <;> exact nofun
    next => exact h.idle j
  taskId j r hd := by
    simp only [State.setJob, update_apply] at hd
    split at hd
    next heq =>
      subst heq
      rcases hp with rfl | ⟨r', rfl, hid⟩
      · cases hd
      · cases hd
        exact ⟨t, ht, hid⟩
    next => exact h.taskId j r hd
  length := h.length
  results j r hr := by
    have hd := h.results j r hr
    have hne : j ≠ i := by
      rintro rfl
      rw [hd] at hflight
      cases hflight
    simp only [State.setJob, update_of_ne hne]
    exact hd

/-- The next result is collected. -/
theorem collect {e : Event} (hm : s.main = m₀)
    (hd : s.job m₀.collected = .done r) (hok : m.Ok w) (hhanded : m.handed = m₀.handed)
    (hcollected : m.collected = m₀.collected + 1) : Control w (((s.emit e).push r).goto m) where
  ok := hok
  idle i := by simp only [State.goto, State.push, State.emit, h.idle i, hm, hhanded]
  taskId := h.taskId
  length := by
    rw [State.goto, hcollected, ← hm, ← h.length]
    exact length_append
  results i q hq := by
    have happ : (s.results ++ [r])[i]? = some q := hq
    rw [getElem?_append] at happ
    split at happ
    next => exact h.results i q happ
    next hge =>
      obtain ⟨hlt, hrq⟩ := List.getElem?_eq_some_iff.1 happ
      have hi : i = m₀.collected := by
        rw [List.length_singleton] at hlt
        have hlen := hm ▸ h.length
        omega
      rw [getElem_singleton] at hrq
      rw [hi, ← hrq]
      exact hd

theorem emit (e : Event) : Control w (s.emit e) :=
  ⟨h.ok, h.idle, h.taskId, h.length, h.results⟩

/-- **A step keeps it.** -/
theorem step (hs : Stepped w s s') : Control w s' := by
  have hok := h.ok
  cases hs with
  | leave hm =>
    rw [hm] at hok
    exact h.goto hm hok rfl rfl
  | batch hm hlt =>
    rw [hm] at hok
    obtain ⟨hle, hdvd | heq⟩ := hok
    · exact h.goto hm ⟨hdvd, hlt, le_rfl, Nat.le_add_right _ _, hle⟩ rfl rfl
    · exact absurd heq (ne_of_lt hlt)
  | announce hm hroom hlt =>
    rw [hm] at hok
    obtain ⟨hdvd, -, hle, -, -⟩ := hok
    exact (h.emit _).goto hm ⟨hdvd, hle, hroom, hlt⟩ rfl rfl
  | spawned hm =>
    rw [hm] at hok
    obtain ⟨hdvd, hf, hle, hroom, hn⟩ := hok
    have hpos : 0 < w.limit := w.pos (length_pos_iff.1 (by omega))
    exact h.goto hm ⟨hdvd, le_rfl, by omega, hroom, hn, by omega⟩ rfl rfl
  | created hm =>
    rw [hm] at hok
    obtain ⟨hdvd, hle, hroom, hlt⟩ := hok
    exact h.hand hm ⟨hdvd, by omega, by omega, hroom, hlt⟩ rfl rfl
  | notCreated hm =>
    rw [hm] at hok
    exact h.hand hm hok rfl rfl
  | resumed hm =>
    rw [hm] at hok
    obtain ⟨hdvd, hle, hroom, hlt⟩ := hok
    exact h.goto hm ⟨hdvd, by omega, by omega, hroom, hlt⟩ rfl rfl
  | collected hm hd =>
    rw [hm] at hok
    obtain ⟨hdvd, hle, hlt, hroom, hn, hend⟩ := hok
    split
    next hmore => exact h.collect hm hd ⟨hdvd, by omega, hmore, hroom, hn, hend⟩ rfl rfl
    next hlast =>
      refine h.collect hm hd ⟨hn, hend.imp (fun heq => ?_) id⟩ rfl
        (le_antisymm (not_lt.1 hlast) hlt)
      rw [heq]
      exact Nat.dvd_add_self_right.2 hdvd
  | worker ht hflight hp => exact h.worker ht hflight hp

end Control

/-! ### What was sent -/

def startedJobs (log : List Event) : List Nat :=
  log.filterMap fun
    | .started i => some i
    | .completed _ _ => none

/-- The results reported, in order, with their jobs. -/
def completions (log : List Event) : List (TaskResult × Nat) :=
  log.filterMap fun
    | .started _ => none
    | .completed i r => some (r, i)

theorem startedJobs_append (log log' : List Event) :
    startedJobs (log ++ log') = startedJobs log ++ startedJobs log' := filterMap_append

theorem completions_append (log log' : List Event) :
    completions (log ++ log') = completions log ++ completions log' := filterMap_append

theorem mem_startedJobs {log : List Event} : i ∈ startedJobs log ↔ .started i ∈ log := by
  simp only [startedJobs, mem_filterMap]
  constructor
  · rintro ⟨e, he, hi⟩
    cases e with
    | started => cases hi; exact he
    | completed => cases hi
  · exact fun h => ⟨_, h, rfl⟩

theorem mem_completions {log : List Event} : (r, i) ∈ completions log ↔ .completed i r ∈ log := by
  simp only [completions, mem_filterMap]
  constructor
  · rintro ⟨e, he, hi⟩
    cases e with
    | started => cases hi
    | completed => cases hi; exact he
  · exact fun h => ⟨_, h, rfl⟩

/-- What a state of a wave has logged. -/
structure Logged (w : Wave) (s : State) : Prop where
  started : startedJobs s.log = range s.main.announced
  completed : completions s.log = s.results.zipIdx
  before : ∀ i, Precedes (fun e => e = .started i) (fun e => ∃ r, e = .completed i r) s.log
  barrier : ∀ i j, i / w.limit < j / w.limit →
    Precedes (fun e => ∃ r, e = .completed i r) (fun e => e = .started j) s.log

theorem logged_start (w : Wave) (n : Nat) : Logged w (start n) where
  started := rfl
  completed := rfl
  before _ := precedes_of_not fun _ h => nomatch h
  barrier _ _ _ := precedes_of_not fun _ h => nomatch h

theorem Logged.goto (h : Logged w s) (hm : s.main = m₀) (hannounced : m.announced = m₀.announced) :
    Logged w (s.goto m) :=
  ⟨by simp only [State.goto, h.started, hm, hannounced], h.completed, h.before, h.barrier⟩

theorem Logged.setJob (h : Logged w s) (p : Phase) : Logged w (s.setJob i p) :=
  ⟨h.started, h.completed, h.before, h.barrier⟩

/-- A job of an earlier batch comes before the batch. -/
theorem lt_first {limit first j : Nat} (hdvd : limit ∣ first) (hj : j < first + limit)
    (h : i / limit < j / limit) : i < first := by
  obtain ⟨k, rfl⟩ := hdvd
  have hpos : 0 < limit := by
    rcases Nat.eq_zero_or_pos limit with rfl | hpos
    · simp at h
    · exact hpos
  have hj' : j / limit < k + 1 := (Nat.div_lt_iff_lt_mul hpos).2 (by rw [mul_comm]; exact hj)
  rw [mul_comm]
  exact (Nat.div_lt_iff_lt_mul hpos).1 (by omega)

/-- A job is announced, when everything before its batch was collected. -/
theorem Logged.announce (h : Logged w s) (hc : Control w s) (hm : s.main = m₀)
    (hannounced : m.announced = m₀.announced + 1) (hfirst : m₀.collected = m₀.first)
    (hdvd : w.limit ∣ m₀.first) (hroom : m₀.announced < m₀.first + w.limit) :
    Logged w ((s.emit (.started m₀.announced)).goto m) where
  started := by
    simp only [State.goto, State.emit, startedJobs_append, h.started, hm, hannounced, range_succ]
    rfl
  completed := by
    simp only [State.goto, State.emit, completions_append, h.completed]
    exact append_nil _
  before i := (h.before i).append (.inr (precedes_of_not fun e he => by
    rw [mem_singleton.1 he]
    rintro ⟨r, hr⟩
    cases hr))
  barrier i j hij := by
    refine (h.barrier i j hij).append ?_
    by_cases hj : j = m₀.announced
    · -- the batch of `i` is behind, so `i` was collected
      have hi : i < m₀.first := lt_first hdvd (hj ▸ hroom) hij
      have hlen : i < s.results.length := by rwa [hc.length, hm, hfirst]
      have hmem : (s.results.get ⟨i, hlen⟩, i) ∈ completions s.log := by
        rw [h.completed]
        exact mem_zipIdx_iff_getElem?.2 (getElem?_eq_getElem hlen)
      exact .inl ⟨_, mem_completions.1 hmem, _, rfl⟩
    · refine .inr (precedes_of_not fun e he heq => hj ?_)
      rw [mem_singleton.1 he] at heq
      cases heq
      rfl

/-- A result is collected. -/
theorem Logged.collect (h : Logged w s) (hc : Control w s) (hm : s.main = m₀)
    (hannounced : m.announced = m₀.announced) (hlt : m₀.collected < m₀.announced) :
    Logged w (((s.emit (.completed m₀.collected r)).push r).goto m) where
  started := by
    simp only [State.goto, State.emit, State.push, startedJobs_append, h.started, hm, hannounced]
    exact append_nil _
  completed := by
    simp only [State.goto, State.emit, State.push, completions_append, h.completed,
      zipIdx_append, hc.length, hm, zero_add]
    rfl
  before i := by
    refine (h.before i).append ?_
    by_cases hi : i = m₀.collected
    · refine .inl ⟨.started i, mem_startedJobs.1 ?_, rfl⟩
      rwa [h.started, mem_range, hi, hm]
    · refine .inr (precedes_of_not fun e he => ?_)
      rw [mem_singleton.1 he]
      rintro ⟨q, hq⟩
      cases hq
      exact hi rfl
  barrier i j hij := (h.barrier i j hij).append (.inr (precedes_of_not fun e he heq => by
    rw [mem_singleton.1 he] at heq
    cases heq))

/-- **A step keeps it.** -/
theorem Logged.step (h : Logged w s) (hc : Control w s) (hs : Stepped w s s') : Logged w s' := by
  have hok := hc.ok
  cases hs with
  | leave hm | batch hm | spawned hm | resumed hm => exact h.goto hm rfl
  | announce hm hroom =>
    rw [hm] at hok
    exact h.announce hc hm rfl rfl hok.1 hroom
  | created hm | notCreated hm => exact (h.setJob _).goto hm rfl
  | collected hm =>
    rw [hm] at hok
    refine h.collect hc hm ?_ hok.2.2.1
    split <;> rfl
  | worker => exact h.setJob _

/-! ### The wave goes on, and ends -/

/-- A state that has not returned has a step: its thread's, or that of the worker it waits for. -/
theorem Control.goesOn (h : Control w s) :
    (∃ d, s.main = .returned d) ∨ ∃ a s', w.step s a = some s' := by
  -- a job that was handed over and is not done has a worker that can move
  have hworker : ∀ i, i < s.main.handed → (∃ r, s.job i = .done r) ∨
      ∃ a s', w.step s a = some s' := by
    intro i hi
    have hlt : i < w.tasks.length := by
      have hhanded := h.ok.handed_le
      have hannounced := h.ok.announced_le
      omega
    obtain ⟨t, ht⟩ : ∃ t, w.tasks[i]? = some t := ⟨_, getElem?_eq_getElem hlt⟩
    cases hp : s.job i with
    | idle => exact absurd ((h.idle i).1 hp) (by omega)
    | queued =>
      refine .inr ⟨.look i true, s.setJob i (.done (cancelledResult t)), ?_⟩
      simp [Wave.step, ht, lookStep, hp]
    | running =>
      refine .inr ⟨.finish i (cancelledResult t), s.setJob i (.done (cancelledResult t)), ?_⟩
      simp only [Wave.step, ht, Option.bind_some, finishStep, hp]
      exact if_pos rfl
    | done r => exact .inl ⟨r, rfl⟩
  have hok := h.ok
  cases hm : s.main with
  | head n =>
    refine .inr ⟨.main true, s.goto (.returned n), ?_⟩
    simp [Wave.step, mainStep, hm]
  | spawning =>
    refine .inr ⟨.main true, ?_⟩
    simp only [Wave.step, mainStep, hm]
    split <;> exact ⟨_, rfl⟩
  | creating f n =>
    refine .inr ⟨.main true, (s.setJob n .queued).goto (.spawning f (n + 1)), ?_⟩
    simp [Wave.step, mainStep, hm]
  | inline f n =>
    rcases hworker n (by rw [hm]; exact Nat.lt_succ_self n) with ⟨r, hd⟩ | hstep
    · refine .inr ⟨.main true, s.goto (.spawning f (n + 1)), ?_⟩
      simp only [Wave.step, mainStep, hm, hd]
    · exact .inr hstep
  | waiting f n i =>
    rw [hm] at hok
    rcases hworker i (by rw [hm]; exact hok.2.2.1) with ⟨r, hd⟩ | hstep
    · refine .inr ⟨.main true, ((s.emit (.completed i r)).push r).goto
        (if i + 1 < n then .waiting f n (i + 1) else .head n), ?_⟩
      simp only [Wave.step, mainStep, hm, hd]
    · exact .inr hstep
  | returned d => exact .inl ⟨d, rfl⟩

/-- What is left of a job. -/
def Phase.left : Phase → Nat
  | .idle | .queued => 2
  | .running => 1
  | .done _ => 0

/-- What is left of a turn of the loops. -/
def Main.left : Main → Nat
  | .returned _ | .waiting _ _ _ => 0
  | .spawning _ _ => 1
  | .head _ | .inline _ _ => 2
  | .creating _ _ => 3

/-- What is left of a wave. -/
def left (w : Wave) (s : State) : Nat :=
  4 * (w.tasks.length - s.main.collected) + 4 * (w.tasks.length - s.main.announced) + s.main.left +
    ∑ i ∈ Finset.range w.tasks.length, (s.job i).left

/-- Handing a job over leaves as much of it. -/
theorem left_hand (n : Nat) (h : s.job i = .idle) :
    ∑ j ∈ Finset.range n, (update s.job i .queued j).left =
      ∑ j ∈ Finset.range n, (s.job j).left := by
  refine Finset.sum_congr rfl fun j _ => ?_
  rw [update_apply]
  split
  next heq => rw [heq, h]; rfl
  next => rfl

/-- A worker that moves on leaves less of its job. -/
theorem left_worker {n : Nat} {p : Phase} (hi : i < n) (hlt : p.left < (s.job i).left) :
    ∑ j ∈ Finset.range n, (update s.job i p j).left <
      ∑ j ∈ Finset.range n, (s.job j).left := by
  refine Finset.sum_lt_sum (fun j _ => ?_) ⟨i, Finset.mem_range.2 hi, ?_⟩
  · rw [update_apply]
    split
    next heq => rw [heq]; exact le_of_lt hlt
    next => exact le_rfl
  · rwa [update_self]

/-- **Every step leaves less.** -/
theorem Control.left_lt (h : Control w s) (hs : Stepped w s s') : w.left s' < w.left s := by
  have hok := h.ok
  unfold left
  cases hs with
  | leave hm | batch hm hlt | announce hm hroom hlt | spawned hm hend | resumed hm =>
    simp only [State.goto, State.emit, hm, Main.collected, Main.announced, Main.left]
    omega
  | @created _ next hm | @notCreated _ next hm =>
    have hidle : s.job next = .idle := (h.idle next).2 (by rw [hm]; exact le_rfl)
    simp only [State.goto, State.setJob, hm, Main.collected, Main.announced, Main.left,
      left_hand _ hidle]
    omega
  | @collected first next i r hm hd =>
    rw [hm] at hok
    obtain ⟨-, -, hlt, -, hn, -⟩ := hok
    simp only [State.goto, State.emit, State.push, hm]
    split <;> simp only [Main.collected, Main.announced, Main.left] <;> omega
  | @worker i t p ht hflight hp hless =>
    have hi := (List.getElem?_eq_some_iff.1 ht).1
    have hlt : p.left < (s.job i).left := by
      rcases hp with rfl | ⟨r, rfl, -⟩
      · rw [hless rfl]
        exact Nat.lt_succ_self 1
      · cases hj : s.job i with
        | queued => exact Nat.succ_pos 1
        | running => exact Nat.succ_pos 0
        | _ => rw [hj] at hflight; cases hflight
    have hsum := left_worker hi hlt
    simp only [State.setJob]
    omega

/-! ### In order -/

/-- What a state of a wave has to show. -/
structure InOrder (w : Wave) (s : State) : Prop where
  /-- At most the limit of jobs are in flight. -/
  atMost : ∀ js : List Nat, js.Nodup → (∀ i ∈ js, (s.job i).inFlight = true) → js.length ≤ w.limit
  /-- The jobs announced are the first ones, each announced once. -/
  started : ∃ d, d ≤ w.tasks.length ∧ startedJobs s.sent = range d
  /-- A job with a worker was announced. -/
  announced : ∀ i, s.job i ≠ .idle → i ∈ startedJobs s.sent
  /-- The results are reported once each, as they are returned. -/
  completed : completions s.sent = s.results.zipIdx
  /-- They are those of the first jobs, which were announced. -/
  taskIds : s.results.map TaskResult.taskId = (w.tasks.take s.results.length).map Task.id
  dispatched : ∀ i < s.results.length, i ∈ startedJobs s.sent
  /-- A job is announced before its result is reported. -/
  before : ∀ i, Precedes (fun e => e = .started i) (fun e => ∃ r, e = .completed i r) s.sent
  /-- The results of a batch are reported before a job of a later one is announced. -/
  barrier : ∀ i j, i / w.limit < j / w.limit →
    Precedes (fun e => ∃ r, e = .completed i r) (fun e => e = .started j) s.sent
  /-- A wave that has returned has reported the result of every job it announced. -/
  returned : ∀ d, s.main = .returned d → startedJobs s.sent = range s.results.length

/-- The jobs in flight are of the batch. -/
theorem Control.atMost (h : Control w s) {js : List Nat} (hnodup : js.Nodup)
    (hjs : ∀ i ∈ js, (s.job i).inFlight = true) : js.length ≤ w.limit := by
  have hsub : js ⊆ range' s.main.first w.limit := by
    intro i hi
    have hflight := hjs i hi
    rw [mem_range'_1]
    constructor
    · by_contra hlt
      have hcollected : i < s.results.length := by
        have hfirst := h.ok.first_le
        rw [h.length]
        omega
      rw [h.results i _ (getElem?_eq_getElem hcollected)] at hflight
      cases hflight
    · by_contra hge
      have hhanded := h.ok.handed_le_limit
      rw [(h.idle i).2 (by omega)] at hflight
      cases hflight
  have hle := (hnodup.subperm hsub).length_le
  rwa [length_range'] at hle

/-- The results are of the first tasks. -/
theorem Control.taskIds (h : Control w s) :
    s.results.map TaskResult.taskId = (w.tasks.take s.results.length).map Task.id := by
  have hle : s.results.length ≤ w.tasks.length := by
    have hcollected := h.ok.collected_le
    have hhanded := h.ok.handed_le
    have hannounced := h.ok.announced_le
    rw [h.length]
    omega
  refine ext_getElem ?_ fun i hi _ => ?_
  · rw [length_map, length_map, length_take, min_eq_left hle]
  · rw [length_map] at hi
    obtain ⟨t, ht, hid⟩ := h.taskId i _ (h.results i _ (getElem?_eq_getElem hi))
    rw [getElem_map, getElem_map, getElem_take, hid]
    exact congrArg Task.id (List.getElem?_eq_some_iff.1 ht).2.symm

/-- The invariants show a wave in order. -/
theorem inOrder_of (hc : Control w s) (hl : Logged w s) (hwants : s.wants = true) :
    InOrder w s := by
  have hsent : s.sent = s.log := if_pos hwants
  have hcollected := hc.ok.collected_le
  have hhanded := hc.ok.handed_le
  refine
    { atMost := fun js => hc.atMost
      started := ⟨s.main.announced, hc.ok.announced_le, hsent ▸ hl.started⟩
      announced := fun i hi => ?_
      completed := hsent ▸ hl.completed
      taskIds := hc.taskIds
      dispatched := fun i hi => ?_
      before := hsent ▸ hl.before
      barrier := hsent ▸ hl.barrier
      returned := fun d hd => ?_ }
  · have hlt : i < s.main.handed := Nat.lt_of_not_le fun hle => hi ((hc.idle i).2 hle)
    rw [hsent, hl.started, mem_range]
    omega
  · rw [hc.length] at hi
    rw [hsent, hl.started, mem_range]
    omega
  · rw [hsent, hl.started, hc.length, hd]
    rfl

/-- Events are wanted or not for the whole of a wave. -/
theorem Stepped.wants (hs : Stepped w s s') : s'.wants = s.wants := by
  cases hs <;> rfl

/-- The log grows. -/
theorem Stepped.log_eq (hs : Stepped w s s') : s'.log = s.log ++ s'.log.drop s.log.length := by
  cases hs with
  | announce | collected => exact (congrArg (s.log ++ ·) drop_left).symm
  | _ => exact ((congrArg (s.log ++ ·) drop_length).trans (append_nil _)).symm

/-- **A wave is in order**, with a subscriber attached to it: in every state of every run, whatever
is cancelled, times out or cannot be created, and in whatever order the workers finish. And it
ends: a state that has not returned has a step, and no run is longer than the wave allows. -/
theorem wave_in_order (w : Wave) {as : List Action} {s : State}
    (h : w.machine.exec (start 1) as = some s) :
    InOrder w s ∧ ((∃ d, s.main = .returned d) ∨ ∃ a s', w.step s a = some s') ∧
      as.length ≤ 10 * w.tasks.length + 2 := by
  have hinv : Control w s ∧ Logged w s ∧ s.wants = true := by
    refine w.machine.exec_invariant (I := fun s => Control w s ∧ Logged w s ∧ s.wants = true)
      ⟨control_start w 1, logged_start w 1, rfl⟩ ?_ h
    rintro s₁ a s₂ ⟨hc, hl, hwants⟩ hstep
    have hs := step_stepped hstep
    exact ⟨hc.step hs, hl.step hc hs, hs.wants.trans hwants⟩
  have hlength : as.length + w.left s ≤ w.left (start 1) := by
    refine w.machine.exec_length_le w.left ?_ (control_start w 1) h
    intro s₁ a s₂ hc hstep
    have hs := step_stepped hstep
    exact ⟨hc.step hs, hc.left_lt hs⟩
  have hstart : w.left (start 1) = 10 * w.tasks.length + 2 := by
    simp only [left, start, Main.collected, Main.announced, Main.left, Phase.left,
      Finset.sum_const, Finset.card_range, Nat.nsmul_eq_mul]
    omega
  exact ⟨inOrder_of hinv.1 hinv.2.1 hinv.2.2, hinv.1.goesOn, by omega⟩

/-- Three tasks, two at a time. -/
def three : Wave :=
  of (.parallel 2) [{ id := "a", description := "" }, { id := "b", description := "" },
    { id := "c", description := "" }]

/-- The second worker runs on the wave's own thread and is done first, the first worker finds the
crew cancelled, and so does the next batch's head. -/
def threeCancelled : List Action :=
  [.main false, .main true, .main true, .main true, .main false, .look 1 false,
    .finish 1 { taskId := "b", output := "done", status := .completed }, .main true, .main true,
    .look 0 true, .main true, .main true, .main true]

theorem wave_in_order_three :
    ∃ s, three.machine.exec (start 1) threeCancelled = some s ∧
      s.results.map TaskResult.output = ["crew cancelled", "done"] ∧
      startedJobs s.sent = [0, 1] ∧ InOrder three s := by
  obtain ⟨s, hrun, hresults, hstarted⟩ : ∃ s,
      three.machine.exec (start 1) threeCancelled = some s ∧
        s.results.map TaskResult.output = ["crew cancelled", "done"] ∧
        startedJobs s.sent = [0, 1] := ⟨_, rfl, rfl, rfl⟩
  exact ⟨s, hrun, hresults, hstarted, (wave_in_order three hrun).1⟩

end Wave

end Agnosai.CrewRunner
