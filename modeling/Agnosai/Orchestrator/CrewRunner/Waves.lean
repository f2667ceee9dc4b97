import Agnosai.Orchestrator.CrewRunner.Definitions

/-!
# Orchestrator — CrewRunner — Waves

What running a list of tasks does, whichever loop runs it. `Ran env s s' seg done rest rs` says
that between `s` and `s'` the runner dispatched `done`, left `rest` undispatched, collected `rs`
and added `seg` to the trace. The loops only ever stop short, at a head that saw a cancel or the
deadline. A wave of a DAG has no concurrency limit, so it is one batch: it dispatches everything
or nothing.
-/

namespace Agnosai.CrewRunner

open List

/-! ### Traces -/

@[simp] theorem dispatched_nil : dispatched [] = [] := rfl
@[simp] theorem executed_nil : executed [] = [] := rfl
@[simp] theorem collected_nil : collected [] = [] := rfl

@[simp] theorem dispatched_append (tr tr' : List Step) :
    dispatched (tr ++ tr') = dispatched tr ++ dispatched tr' := filterMap_append

@[simp] theorem executed_append (tr tr' : List Step) :
    executed (tr ++ tr') = executed tr ++ executed tr' := filterMap_append

@[simp] theorem collected_append (tr tr' : List Step) :
    collected (tr ++ tr') = collected tr ++ collected tr' := filterMap_append

variable (t : Task)

@[simp] theorem dispatched_dispatch : dispatched [.dispatch t] = [t] := rfl
@[simp] theorem dispatched_execute : dispatched [.execute t] = [] := rfl
@[simp] theorem dispatched_result (r : TaskResult) : dispatched [.result r] = [] := rfl
@[simp] theorem executed_dispatch : executed [.dispatch t] = [] := rfl
@[simp] theorem executed_execute : executed [.execute t] = [t] := rfl
@[simp] theorem executed_result (r : TaskResult) : executed [.result r] = [] := rfl
@[simp] theorem collected_dispatch : collected [.dispatch t] = [] := rfl
@[simp] theorem collected_execute : collected [.execute t] = [] := rfl
@[simp] theorem collected_result (r : TaskResult) : collected [.result r] = [r] := rfl

theorem mem_dispatched {tr : List Step} {t : Task} : t ∈ dispatched tr ↔ .dispatch t ∈ tr := by
  simp only [dispatched, mem_filterMap]
  constructor
  · rintro ⟨e, he, ht⟩
    cases e with
    | dispatch => cases ht; exact he
    | execute => cases ht
    | result => cases ht
  · exact fun h => ⟨_, h, rfl⟩

theorem mem_collected {tr : List Step} {r : TaskResult} :
    r ∈ collected tr ↔ .result r ∈ tr := by
  simp only [collected, mem_filterMap]
  constructor
  · rintro ⟨e, he, hr⟩
    cases e with
    | dispatch => cases hr
    | execute => cases hr
    | result => cases hr; exact he
  · exact fun h => ⟨_, h, rfl⟩

/-! ### The loop head -/

@[simp] theorem Run.poll_trace (s : Run) : s.poll.trace = s.trace := rfl
@[simp] theorem Run.poll_timedOut (s : Run) : s.poll.timedOut = s.timedOut := rfl
@[simp] theorem Run.log_trace (s : Run) (e : Step) : (s.log e).trace = s.trace ++ [e] := rfl
@[simp] theorem Run.log_timedOut (s : Run) (e : Step) : (s.log e).timedOut = s.timedOut := rfl
@[simp] theorem Run.executed_trace (env : Env) (s : Run) (t : Task) :
    (s.executed env t).trace = s.trace ++ [.execute t] := rfl
@[simp] theorem Run.executed_timedOut (env : Env) (s : Run) (t : Task) :
    (s.executed env t).timedOut = (s.timedOut || env.timesOut t) := rfl

variable {rest : List Task} {s s' : Run} {env : Env}

theorem Run.halt_trace {b : Bool} (h : s.halt env = (b, s')) : s'.trace = s.trace := by
  unfold Run.halt at h
  split at h
  · cases h; rfl
  · split at h <;> cases h <;> rfl

/-- A head that goes on has not touched the flag. -/
theorem Run.halt_go (h : s.halt env = (false, s')) : s'.timedOut = s.timedOut := by
  unfold Run.halt at h
  split at h
  · cases h
  · split at h <;> cases h
    rfl

/-- In a quiet run every head goes on. -/
theorem Env.Quiet.halt (hq : env.Quiet) (s : Run) : s.halt env = (false, s.poll) := by
  simp [Run.halt, hq.cancelled, hq.deadline]

/-! ### Running a list of tasks -/

variable {env : Env}

/-- Workers handled the tasks of `done` and returned `rs`, adding `seg` to the trace. -/
structure Worked (env : Env) (s s' : Run) (seg : List Step) (done : List Task)
    (rs : List TaskResult) : Prop where
  trace : s'.trace = s.trace ++ seg
  dispatched : dispatched seg = done
  executed : ∀ t ∈ executed seg, t ∈ done
  taskIds : rs.map TaskResult.taskId = done.map Task.id
  completed : ∀ r ∈ rs, r.status = .completed → ∃ t ∈ CrewRunner.executed seg, r = env.outcome t
  outcomes : env.Quiet → rs = done.map env.outcome

/-- `done` was dispatched and its results `rs` collected; `rest` was left undispatched. -/
structure Ran (env : Env) (s s' : Run) (seg : List Step) (done rest : List Task)
    (rs : List TaskResult) : Prop extends Worked env s s' seg done rs where
  collected : collected seg = rs
  timedOut : s'.timedOut = true →
    s.timedOut = true ∨ rest ≠ [] ∨ ∃ t ∈ done, env.timesOut t = true
  quiet : env.Quiet → rest = []

/-- Two stretches of work are one. -/
theorem Worked.trans {s₁ s₂ : Run} {seg₁ seg₂ : List Step} {d₁ d₂ : List Task}
    {rs₁ rs₂ : List TaskResult} (h₁ : Worked env s s₁ seg₁ d₁ rs₁)
    (h₂ : Worked env s₁ s₂ seg₂ d₂ rs₂) :
    Worked env s s₂ (seg₁ ++ seg₂) (d₁ ++ d₂) (rs₁ ++ rs₂) where
  trace := by rw [h₂.trace, h₁.trace, append_assoc]
  dispatched := by rw [dispatched_append, h₁.dispatched, h₂.dispatched]
  executed t ht := by
    rw [executed_append] at ht
    exact mem_append.2 ((mem_append.1 ht).imp (h₁.executed t) (h₂.executed t))
  taskIds := by rw [map_append, map_append, h₁.taskIds, h₂.taskIds]
  completed r hr hc := by
    rw [executed_append]
    rcases mem_append.1 hr with hr | hr
    · obtain ⟨t, ht, rfl⟩ := h₁.completed r hr hc
      exact ⟨t, mem_append_left _ ht, rfl⟩
    · obtain ⟨t, ht, rfl⟩ := h₂.completed r hr hc
      exact ⟨t, mem_append_right _ ht, rfl⟩
  outcomes hq := by rw [map_append, ← h₁.outcomes hq, ← h₂.outcomes hq]

/-- Stopping at once, at a head that may have raised the flag. -/
theorem Ran.stop (ht : s'.trace = s.trace)
    (hto : s'.timedOut = true → s.timedOut = true ∨ rest ≠ []) (hq : env.Quiet → rest = []) :
    Ran env s s' [] [] rest [] where
  trace := by rw [ht, append_nil]
  dispatched := rfl
  executed _ h := absurd h not_mem_nil
  taskIds := rfl
  completed _ h := absurd h not_mem_nil
  outcomes _ := rfl
  collected := rfl
  timedOut h := (hto h).imp id Or.inl
  quiet := hq

/-- Two runs, one after the other. -/
theorem Ran.trans {s₁ s₂ : Run} {seg₁ seg₂ : List Step} {d₁ d₂ : List Task}
    {rs₁ rs₂ : List TaskResult} (h₁ : Ran env s s₁ seg₁ d₁ [] rs₁)
    (h₂ : Ran env s₁ s₂ seg₂ d₂ rest rs₂) :
    Ran env s s₂ (seg₁ ++ seg₂) (d₁ ++ d₂) rest (rs₁ ++ rs₂) where
  toWorked := h₁.toWorked.trans h₂.toWorked
  collected := by rw [collected_append, h₁.collected, h₂.collected]
  timedOut h := by
    rcases h₂.timedOut h with h | h | ⟨t, ht, h⟩
    · rcases h₁.timedOut h with h | h | ⟨t, ht, h⟩
      · exact .inl h
      · exact absurd rfl h
      · exact .inr (.inr ⟨t, mem_append_left _ ht, h⟩)
    · exact .inr (.inl h)
    · exact .inr (.inr ⟨t, mem_append_right _ ht, h⟩)
  quiet := h₂.quiet

/-- A head that went on changes nothing that `Ran` speaks of. -/
theorem Ran.of_halt {s₀ : Run} {seg : List Step} {done : List Task}
    {rs : List TaskResult} (h₀ : s.halt env = (false, s₀)) (h : Ran env s₀ s' seg done rest rs) :
    Ran env s s' seg done rest rs :=
  { h with
    trace := by rw [h.trace, Run.halt_trace h₀]
    timedOut := fun ht => (h.timedOut ht).imp (fun h' => Run.halt_go h₀ ▸ h') id }

/-- A head that stopped leaves `rest`, and stops no quiet run. -/
theorem Ran.of_halted (hr : rest ≠ []) (h : s.halt env = (true, s')) : Ran env s s' [] [] rest [] :=
  Ran.stop (Run.halt_trace h) (fun _ => .inr hr) fun hq => by rw [hq.halt] at h; cases h

/-! ### The sequential loop -/

variable (env)

/-- A task that is executed on the spot. -/
theorem ran_executed (s : Run) (t : Task) :
    Ran env s (((s.log (.dispatch t)).executed env t).log (.result (env.outcome t)))
      [.dispatch t, .execute t, .result (env.outcome t)] [t] [] [env.outcome t] where
  trace := by simp
  dispatched := rfl
  executed u hu := hu
  taskIds := by simp [env.outcome_taskId]
  completed r hr _ := ⟨t, mem_singleton.2 rfl, mem_singleton.1 hr⟩
  outcomes _ := rfl
  collected := rfl
  timedOut h := by
    simp only [Run.log_timedOut, Run.executed_timedOut, Bool.or_eq_true] at h
    exact h.imp id fun h => .inr ⟨t, mem_singleton.2 rfl, h⟩
  quiet _ := rfl

/-- A sequential run does the tasks in order. -/
theorem runSequential_ran (tasks : List Task) (s : Run) :
    ∃ seg done rest, tasks = done ++ rest ∧
      Ran env s (runSequential env tasks s).2 seg done rest (runSequential env tasks s).1 := by
  induction tasks generalizing s with
  | nil => exact ⟨[], [], [], rfl, Ran.stop rfl Or.inl fun _ => rfl⟩
  | cons t ts ih =>
    rcases h : s.halt env with ⟨_ | _, s₀⟩
    · obtain ⟨seg, done, rest, hts, hr⟩ :=
        ih (((s₀.log (.dispatch t)).executed env t).log (.result (env.outcome t)))
      have hran := Ran.of_halt h ((ran_executed env s₀ t).trans hr)
      refine ⟨[.dispatch t, .execute t, .result (env.outcome t)] ++ seg, t :: done, rest,
        by rw [hts, cons_append], ?_⟩
      simp only [runSequential, h]
      exact hran
    · refine ⟨[], [], t :: ts, rfl, ?_⟩
      simp only [runSequential, h]
      exact .of_halted (cons_ne_nil t ts) h

/-! ### A batch -/

/-- A worker returns the task's outcome, or the cancelled result without executing it. -/
theorem worker_worked (s : Run) (t : Task) :
    ∃ seg, Worked env s (worker env t (s.log (.dispatch t))).2 seg [t]
        [(worker env t (s.log (.dispatch t))).1] ∧
      collected seg = [] ∧
      ((worker env t (s.log (.dispatch t))).2.timedOut = true →
        s.timedOut = true ∨ env.timesOut t = true) := by
  unfold worker
  split
  next hc =>
    refine ⟨[.dispatch t], ⟨rfl, rfl, ?_, rfl, ?_, ?_⟩, rfl, Or.inl⟩
    · exact nofun
    · intro r hr hrc
      rw [mem_singleton.1 hr] at hrc
      cases hrc
    · intro hq
      rw [hq.cancelled] at hc
      cases hc
  · refine ⟨[.dispatch t, .execute t], ⟨?_, rfl, fun u hu => hu, ?_, ?_, fun _ => rfl⟩, rfl, ?_⟩
    · simp
    · simp [env.outcome_taskId]
    · exact fun r hr _ => ⟨t, mem_singleton.2 rfl, mem_singleton.1 hr⟩
    · simp

/-- A dispatch works every task it is given. -/
theorem dispatchAll_worked (ts : List Task) (s : Run) :
    ∃ seg, Worked env s (dispatchAll env ts s).2 seg ts (dispatchAll env ts s).1 ∧
      collected seg = [] ∧
      ((dispatchAll env ts s).2.timedOut = true →
        s.timedOut = true ∨ ∃ t ∈ ts, env.timesOut t = true) := by
  induction ts generalizing s with
  | nil =>
    have h : Ran env s s [] [] [] [] := Ran.stop rfl Or.inl fun _ => rfl
    exact ⟨[], h.toWorked, rfl, Or.inl⟩
  | cons t ts ih =>
    obtain ⟨seg₁, hw₁, hc₁, ht₁⟩ := worker_worked env s t
    obtain ⟨seg₂, hw₂, hc₂, ht₂⟩ := ih (worker env t (s.log (.dispatch t))).2
    refine ⟨seg₁ ++ seg₂, hw₁.trans hw₂, by rw [collected_append, hc₁, hc₂]; rfl, fun h => ?_⟩
    rcases ht₂ h with h | ⟨u, hu, h⟩
    · exact (ht₁ h).imp id fun h => ⟨t, mem_cons_self, h⟩
    · exact .inr ⟨u, mem_cons_of_mem t hu, h⟩

theorem collectAll_trace (rs : List TaskResult) (s : Run) :
    (collectAll rs s).trace = s.trace ++ rs.map .result ∧
      (collectAll rs s).timedOut = s.timedOut := by
  induction rs generalizing s with
  | nil => exact ⟨(append_nil _).symm, rfl⟩
  | cons r rs ih =>
    obtain ⟨ht, hto⟩ := ih (s.log (.result r))
    refine ⟨?_, hto⟩
    rw [collectAll, foldl_cons, ← collectAll, ht]
    simp

theorem results_only (rs : List TaskResult) :
    dispatched (rs.map .result) = [] ∧ executed (rs.map .result) = [] ∧
      collected (rs.map .result) = rs := by
  induction rs with
  | nil => exact ⟨rfl, rfl, rfl⟩
  | cons r rs ih =>
    obtain ⟨hd, he, hc⟩ := ih
    refine ⟨hd, he, ?_⟩
    rw [map_cons, ← singleton_append, collected_append, hc, collected_result]
    rfl

/-- A batch dispatches all of it. -/
theorem runBatch_ran (batch : List Task) (s : Run) :
    ∃ seg, Ran env s (runBatch env batch s).2 seg batch [] (runBatch env batch s).1 := by
  obtain ⟨seg, hw, hc, ht⟩ := dispatchAll_worked env batch s
  obtain ⟨htr, hto⟩ := collectAll_trace (dispatchAll env batch s).1 (dispatchAll env batch s).2
  obtain ⟨hrd, hre, hrc⟩ := results_only (dispatchAll env batch s).1
  refine ⟨seg ++ (dispatchAll env batch s).1.map .result, ⟨⟨?_, ?_, ?_, hw.taskIds, ?_,
    hw.outcomes⟩, ?_, ?_, fun _ => rfl⟩⟩
  · rw [runBatch, htr, hw.trace, append_assoc]
  · rw [dispatched_append, hw.dispatched, hrd, append_nil]
  · rw [executed_append, hre, append_nil]
    exact hw.executed
  · rw [executed_append, hre, append_nil]
    exact hw.completed
  · rw [collected_append, hc, hrc]
    rfl
  · intro h
    rw [runBatch, hto] at h
    exact (ht h).imp id .inr

/-! ### The wave -/

variable {env}

/-- A round: the head goes on, and a batch runs. The ways out: nothing is pending, or the head saw
a cancel or the deadline. -/
theorem waveLoop_step {limit : Nat} {hl : 0 < limit} (w : WaveState) : Sum.elim
    (fun w' => ∃ s, w.pending ≠ [] ∧ w.run.halt env = (false, s) ∧
      w' =
        { pending := w.pending.drop limit
          results := w.results ++ (runBatch env (w.pending.take limit) s).1
          run := (runBatch env (w.pending.take limit) s).2 })
    (fun out => (w.pending = [] ∧ out = (w.results, w.run)) ∨
      ∃ s, w.pending ≠ [] ∧ w.run.halt env = (true, s) ∧ out = (w.results, s))
    ((waveLoop env limit hl).step w) := by
  simp only [waveLoop]
  split
  next hp => exact .inl ⟨hp, rfl⟩
  next hp =>
    split
    next s hs => exact .inr ⟨s, hp ▸ cons_ne_nil _ _, hs, rfl⟩
    next s hs => exact ⟨s, hp ▸ cons_ne_nil _ _, hs, by rw [hp]⟩

/-- Where a wave over `tasks` from `s` can be at a loop head. -/
def WaveInv (env : Env) (limit : Nat) (tasks : List Task) (results : List TaskResult) (s : Run)
    (w : WaveState) : Prop :=
  ∃ seg done rs, tasks = done ++ w.pending ∧ w.results = results ++ rs ∧
    Ran env s w.run seg done [] rs ∧ (tasks.length ≤ limit → done = [] ∨ w.pending = [])

/-- What a wave over `tasks` from `s` ends with. -/
def WaveEnd (env : Env) (limit : Nat) (tasks : List Task) (results : List TaskResult) (s : Run)
    (out : List TaskResult × Run) : Prop :=
  ∃ seg done rest rs, tasks = done ++ rest ∧ out.1 = results ++ rs ∧
    Ran env s out.2 seg done rest rs ∧ (tasks.length ≤ limit → done = [] ∨ rest = [])

/-- How the wave loop ends. -/
theorem waveLoop_end {limit : Nat} (hl : 0 < limit) (tasks : List Task)
    (results : List TaskResult) : WaveEnd env limit tasks results s
      ((waveLoop env limit hl).run { pending := tasks, results := results, run := s }) := by
  refine (waveLoop env limit hl).run_rule waveLoop_step
    (I := WaveInv env limit tasks results s) ?_ ?_ ?_
  · rintro w w' ⟨seg, done, rs, hts, hres, hran, hone⟩ ⟨s₀, -, hs, rfl⟩
    obtain ⟨seg', hb⟩ := runBatch_ran env (w.pending.take limit) s₀
    refine ⟨seg ++ seg', done ++ w.pending.take limit, rs ++ _, ?_, ?_,
      hran.trans (.of_halt hs hb), fun hle => .inr ?_⟩
    · rw [append_assoc, take_append_drop, hts]
    · rw [hres, append_assoc]
    · -- one batch is all there is
      refine drop_eq_nil_of_le (le_trans ?_ hle)
      rw [hts, length_append]
      exact Nat.le_add_left _ _
  · rintro w out ⟨seg, done, rs, hts, hres, hran, hone⟩ (⟨hp, rfl⟩ | ⟨s₀, hp, hs, rfl⟩)
    · exact ⟨seg, done, [], rs, hp ▸ hts, hres, hran, fun _ => .inr rfl⟩
    · have hran' := hran.trans (.of_halted hp hs)
      rw [append_nil, append_nil, append_nil] at hran'
      exact ⟨seg, done, w.pending, rs, hts, hres, hran', hone⟩
  · exact ⟨[], [], [], rfl, (append_nil _).symm, Ran.stop rfl Or.inl fun _ => rfl,
      fun _ => .inl rfl⟩

/-- **A wave.** It dispatches a prefix of its tasks and collects their results in order; with no
concurrency limit the prefix is everything or nothing. -/
theorem runWave_ran (env : Env) (process : ProcessMode) (tasks : List Task)
    (results : List TaskResult) (s : Run) :
    ∃ seg done rest rs, tasks = done ++ rest ∧
      (runWave env process tasks results s).1 = results ++ rs ∧
      Ran env s (runWave env process tasks results s).2 seg done rest rs ∧
      (process.maxConcurrency ≤ 0 → done = [] ∨ rest = []) := by
  unfold runWave
  split
  · have hpos : 0 < (waveLimit process tasks.length).toNat := by omega
    obtain ⟨seg, done, rest, rs, hts, hrs, hran, hone⟩ := waveLoop_end hpos tasks results
    refine ⟨seg, done, rest, rs, hts, hrs, hran, fun hp => hone ?_⟩
    rw [waveLimit, if_pos hp, Int.toNat_natCast]
  next hlim =>
    have htasks : tasks = [] := by
      rw [← length_eq_zero_iff]
      unfold waveLimit at hlim
      split at hlim <;> omega
    subst htasks
    exact ⟨[], [], [], [], rfl, (append_nil _).symm, Ran.stop rfl Or.inl fun _ => rfl,
      fun _ => .inl rfl⟩

end Agnosai.CrewRunner
