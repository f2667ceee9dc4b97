import Agnosai.Orchestrator.CrewRunner.Threads

/-!
# Orchestrator — CrewRunner — Linear

The threads of a wave, one after the other. `runWave` has each worker execute right after its
dispatch; the threads of `Wave.machine` interleave. That loses nothing (`runWave_of_threads`). A
batch takes `limit + 1` looks, one at its head and one for each worker, so the looks of `runWave`
are numbered by batch and place (`seen`).
-/

namespace Agnosai.CrewRunner

open List

variable (env : Env)

/-- The environment, with other looks at the cancel flag and no deadline. -/
def Env.seeing (cancelled : Nat → Bool) : Env :=
  { env with cancelled, deadline := fun _ => false }

/-! ### A batch of `runWave` -/

theorem worker_polls (t : Task) (s : Run) : (worker env t s).2.polls = s.polls + 1 := by
  unfold worker
  split <;> rfl

theorem worker_result (t : Task) (s : Run) :
    (worker env t s).1 = if env.cancelled s.polls then cancelledResult t else env.outcome t := by
  unfold worker
  split <;> rfl

theorem dispatchAll_polls (ts : List Task) (s : Run) :
    (dispatchAll env ts s).2.polls = s.polls + ts.length := by
  induction ts generalizing s with
  | nil => rfl
  | cons t ts ih =>
    have hworker := worker_polls env t (s.log (.dispatch t))
    have hrest := ih (worker env t (s.log (.dispatch t))).2
    rw [hworker] at hrest
    simp only [dispatchAll, hrest, length_cons]
    exact add_right_comm s.polls 1 ts.length

/-- What the worker of a task returns depends on its own look. -/
theorem dispatchAll_getElem? (ts : List Task) (s : Run) (k : Nat) :
    (dispatchAll env ts s).1[k]? = ts[k]?.map fun t =>
      if env.cancelled (s.polls + k) then cancelledResult t else env.outcome t := by
  induction ts generalizing s k with
  | nil => rfl
  | cons t ts ih =>
    cases k with
    | zero =>
      simp only [dispatchAll, getElem?_cons_zero, Option.map_some, worker_result]
      rfl
    | succ k =>
      have hworker := worker_polls env t (s.log (.dispatch t))
      have hrest := ih (worker env t (s.log (.dispatch t))).2 k
      rw [hworker] at hrest
      simp only [dispatchAll, getElem?_cons_succ, hrest]
      rw [add_right_comm, add_assoc]
      rfl

theorem collectAll_polls (rs : List TaskResult) (s : Run) : (collectAll rs s).polls = s.polls := by
  induction rs generalizing s with
  | nil => rfl
  | cons r rs ih => exact ih (s.log (.result r))

theorem runBatch_polls (batch : List Task) (s : Run) :
    (runBatch env batch s).2.polls = s.polls + batch.length :=
  (collectAll_polls _ _).trans (dispatchAll_polls env batch s)

/-! ### What the threads returned -/

namespace Wave

variable {w : Wave} {s s' : State} {i : Nat} {r : TaskResult}

/-- The wave's own thread completes no job. -/
theorem mainStep_job {answer : Bool} (h : w.mainStep s answer = some s')
    (hd : s'.job i = .done r) : s.job i = .done r := by
  have hset : ∀ n m, ((s.setJob n .queued).goto m).job i = .done r → s.job i = .done r := by
    intro n m hd
    simp only [State.goto, State.setJob, Function.update_apply] at hd
    split at hd
    · cases hd
    · exact hd
  unfold mainStep at h
  split at h
  · split at h
    · cases h
      exact hd
    · split at h <;> cases h <;> exact hd
  · split at h <;> cases h <;> exact hd
  · cases h
    exact hset _ _ hd
  · split at h <;> cases h
    exact hd
  · split at h <;> cases h
    exact hd
  · cases h

/-- A job is done by its worker: cancelled, or with what its execution returned. -/
theorem step_done {a : Action} (h : w.step s a = some s') (hd : s'.job i = .done r) :
    s.job i = .done r ∨ ∃ t, w.tasks[i]? = some t ∧ (r = cancelledResult t ∨ a = .finish i r) := by
  cases a with
  | main => exact .inl (mainStep_job h hd)
  | look j cancelled =>
    obtain ⟨t, ht, h⟩ := Option.bind_eq_some_iff.1 h
    unfold lookStep at h
    split at h
    · cases h
      simp only [State.setJob, Function.update_apply] at hd
      split at hd
      next heq =>
        subst heq
        cases cancelled with
        | true =>
          cases hd
          exact .inr ⟨t, ht, .inl rfl⟩
        | false => cases hd
      next => exact .inl hd
    · cases h
  | finish =>
    obtain ⟨t, ht, h⟩ := Option.bind_eq_some_iff.1 h
    unfold finishStep at h
    split at h
    · split at h
      · cases h
        simp only [State.setJob, Function.update_apply] at hd
        split at hd
        next heq =>
          subst heq
          cases hd
          exact .inr ⟨t, ht, .inr rfl⟩
        next => exact .inl hd
      · cases h
    · cases h

/-- The executions of a run return the outcomes of an environment. -/
def Executes (w : Wave) (env : Env) (as : List Action) : Prop :=
  ∀ i r t, .finish i r ∈ as → w.tasks[i]? = some t → r = env.outcome t

/-- Then a job is done with its outcome, or cancelled. -/
theorem done_of_executes {env : Env} {as : List Action} {n : Nat} (hex : w.Executes env as)
    (h : w.machine.exec (start n) as = some s) (hd : s.job i = .done r) :
    ∃ t, w.tasks[i]? = some t ∧ (r = cancelledResult t ∨ r = env.outcome t) := by
  refine w.machine.exec_rule
    (P := fun _ a => ∀ i r t, a = .finish i r → w.tasks[i]? = some t → r = env.outcome t)
    (I := fun _ s => ∀ i r, s.job i = .done r →
      ∃ t, w.tasks[i]? = some t ∧ (r = cancelledResult t ∨ r = env.outcome t)) ?_ ?_
    (w.machine.along_of_mem fun a ha i r t heq ht => hex i r t (heq ▸ ha) ht) h i r hd
  · exact fun _ _ hd => by cases hd
  · intro _ s₁ a s₂ hI ha hstep i r hd
    rcases step_done hstep hd with hd | ⟨t, ht, hr | heq⟩
    · exact hI i r hd
    · exact ⟨t, ht, .inl hr⟩
    · exact ⟨t, ht, .inr (ha i r t heq ht)⟩

end Wave

/-! ### The looks -/

/-- The looks of `runWave` at the cancel flag: that of a batch's head stops when `d` jobs were
dispatched, and that of a worker sees what its job saw. -/
def seen (limit d : Nat) (saw : Nat → Bool) (look : Nat) : Bool :=
  if look % (limit + 1) = 0 then decide (d ≤ look / (limit + 1) * limit)
  else saw (look / (limit + 1) * limit + (look % (limit + 1) - 1))

theorem seen_head (limit d : Nat) (saw : Nat → Bool) (b : Nat) :
    seen limit d saw (b * (limit + 1)) = decide (d ≤ b * limit) := by
  rw [seen, if_pos (Nat.mul_mod_left b (limit + 1)), Nat.mul_div_cancel b (Nat.succ_pos limit)]

theorem seen_worker (limit d : Nat) (saw : Nat → Bool) (b : Nat) {k : Nat} (hk : k < limit) :
    seen limit d saw (b * (limit + 1) + 1 + k) = saw (b * limit + k) := by
  have hlook : b * (limit + 1) + 1 + k = (k + 1) + b * (limit + 1) := by omega
  have hmod : (k + 1 + b * (limit + 1)) % (limit + 1) = k + 1 := by
    rw [Nat.add_mul_mod_self_right, Nat.mod_eq_of_lt (by omega)]
  have hdiv : (k + 1 + b * (limit + 1)) / (limit + 1) = b := by
    rw [Nat.add_mul_div_right _ _ (Nat.succ_pos limit), Nat.div_eq_of_lt (by omega), Nat.zero_add]
  rw [hlook, seen, hmod, hdiv, if_neg (Nat.succ_ne_zero k), Nat.add_sub_cancel]

section Rounds

variable {env : Env} {tasks : List Task} {limit d : Nat} {saw : Nat → Bool} {rs : List TaskResult}

/-- What a returned wave has to do with the looks: `d` jobs were dispatched, all of them or some
batches, and each has what its look gave it. -/
structure Seen (env : Env) (tasks : List Task) (limit d : Nat) (saw : Nat → Bool)
    (rs : List TaskResult) : Prop where
  length : rs.length = d
  le : d ≤ tasks.length
  batches : limit ∣ d ∨ d = tasks.length
  result : ∀ i < d, ∀ t, tasks[i]? = some t →
    rs[i]? = some (if saw i then cancelledResult t else env.outcome t)

/-- The batch from `b * limit` on returns the results from there. -/
theorem Seen.batch (h : Seen env tasks limit d saw rs) {b : Nat} (hb : b * limit < d) {s : Run}
    (hpolls : s.polls = b * (limit + 1) + 1) :
    (runBatch (env.seeing (seen limit d saw)) ((tasks.drop (b * limit)).take limit) s).1 =
      (rs.drop (b * limit)).take limit := by
  refine ext_getElem? fun k => ?_
  rw [runBatch, dispatchAll_getElem?, hpolls]
  by_cases hk : k < limit
  · rw [getElem?_take_of_lt hk, getElem?_take_of_lt hk, getElem?_drop,
      getElem?_drop]
    cases ht : tasks[b * limit + k]? with
    | none =>
      have hge := getElem?_eq_none_iff.1 ht
      have hle := h.le
      have hlen := h.length
      exact (getElem?_eq_none_iff.2 (by omega)).symm
    | some t =>
      have hlt := (List.getElem?_eq_some_iff.1 ht).1
      -- the batch was dispatched as a whole
      have hd : b * limit + k < d := by
        rcases h.batches with ⟨c, hc⟩ | hd
        · rw [hc, mul_comm limit c] at hb ⊢
          have hbc : b + 1 ≤ c := Nat.lt_of_mul_lt_mul_right hb
          have hle := Nat.mul_le_mul_right limit hbc
          rw [Nat.succ_mul] at hle
          omega
        · omega
      rw [Option.map_some, h.result _ hd t ht]
      simp only [Env.seeing, seen_worker limit d saw b hk]
  · rw [getElem?_eq_none_iff.2 (by rw [length_take]; omega),
      getElem?_eq_none_iff.2 (by rw [length_take]; omega)]
    rfl

/-- Where `runWave` is at the head of batch `b`. -/
def AtBatch (tasks : List Task) (limit : Nat) (rs : List TaskResult) (b : Nat) (w : WaveState) :
    Prop :=
  w.pending = tasks.drop (b * limit) ∧ w.results = rs.take (b * limit) ∧
    (w.pending ≠ [] → w.run.polls = b * (limit + 1))

theorem halt_seen {s : Run} {b : Nat} (hpolls : s.polls = b * (limit + 1)) :
    s.halt (env.seeing (seen limit d saw)) = (decide (d ≤ b * limit), s.poll) := by
  simp only [Run.halt, Env.seeing, hpolls, seen_head]
  cases decide (d ≤ b * limit) <;> rfl

/-- **`runWave` with these looks returns these results.** -/
theorem Seen.waveLoop (h : Seen env tasks limit d saw rs) (hl : 0 < limit) :
    ((waveLoop (env.seeing (seen limit d saw)) limit hl).run
      { pending := tasks, results := [], run := {} }).1 = rs := by
  have hlen := h.length
  have hle := h.le
  refine Loop.run_rule _ waveLoop_step (I := fun w => ∃ b, AtBatch tasks limit rs b w)
    (Q := fun out => out.1 = rs) ?_ ?_ ⟨0, ?_⟩
  · rintro w w' ⟨b, hpending, hres, hpolls⟩ ⟨s₀, hne, hs, rfl⟩
    have hrun := hpolls hne
    rw [halt_seen hrun] at hs
    obtain ⟨hstop, rfl⟩ := Prod.mk.inj hs
    have hb : b * limit < d := not_le.1 (of_decide_eq_false hstop)
    have hpoll : w.run.poll.polls = b * (limit + 1) + 1 := congrArg (· + 1) hrun
    refine ⟨b + 1, ?_⟩
    rw [hpending, AtBatch, h.batch hb hpoll, hres, drop_drop, Nat.succ_mul]
    refine ⟨rfl, take_add.symm, fun hne => ?_⟩
    -- more is pending, so this batch was a full one
    have hmore : b * limit + limit < tasks.length := by
      by_contra hnot
      exact hne (drop_eq_nil_iff.2 (not_lt.1 hnot))
    rw [runBatch_polls, hpoll, length_take, length_drop, Nat.succ_mul]
    omega
  · rintro w out ⟨b, hpending, hres, hpolls⟩ hexit
    have hall : d ≤ b * limit → w.results = rs := fun hd => by
      rw [hres]
      exact take_of_length_le (by omega)
    obtain ⟨hp, rfl⟩ | ⟨s₀, hne, hs, rfl⟩ := hexit
    · have hnil := drop_eq_nil_iff.1 (hpending.symm.trans hp)
      exact hall (by omega)
    · rw [halt_seen (hpolls hne)] at hs
      exact hall (of_decide_eq_true (Prod.mk.inj hs).1)
  · rw [AtBatch, Nat.zero_mul]
    exact ⟨rfl, rfl, fun _ => (Nat.zero_mul _).symm⟩

end Rounds

/-- **The threads of a wave, one after the other.** For every run of its threads that has returned,
and whose executions return the outcomes of an environment, `runWave` returns the same results in
that environment, with some looks at the cancel flag. -/
theorem runWave_of_threads (env : Env) (process : ProcessMode) (tasks : List Task) {n d : Nat}
    {as : List Wave.Action} {s : Wave.State}
    (h : (Wave.of process tasks).machine.exec (Wave.start n) as = some s)
    (hex : (Wave.of process tasks).Executes env as) (hd : s.main = .returned d) :
    ∃ cancelled, (runWave (env.seeing cancelled) process tasks [] {}).1 = s.results := by
  have hcontrol : Wave.Control (.of process tasks) s := by
    refine Machine.exec_invariant _ (Wave.control_start _ n) ?_ h
    exact fun s₁ a s₂ hc hstep => hc.step (Wave.step_stepped hstep)
  have hok := hcontrol.ok
  have hlen := hcontrol.length
  rw [hd] at hok hlen
  -- each job has seen the flag or not
  have hsaw : ∀ i, ∃ b : Bool, ∀ t, i < d → tasks[i]? = some t →
      s.results[i]? = some (if b then cancelledResult t else env.outcome t) := by
    intro i
    by_cases hi : i < s.results.length
    · have hr : s.results[i]? = some (s.results.get ⟨i, hi⟩) := getElem?_eq_getElem hi
      obtain ⟨t, ht, hcancelled | houtcome⟩ := Wave.done_of_executes hex h (hcontrol.results i _ hr)
      · refine ⟨true, fun t' _ ht' => ?_⟩
        cases ht.symm.trans ht'
        rw [hr, hcancelled]
        rfl
      · refine ⟨false, fun t' _ ht' => ?_⟩
        cases ht.symm.trans ht'
        rw [hr, houtcome]
        rfl
    · exact ⟨true, fun t hlt => absurd (hlen ▸ hlt) hi⟩
  choose saw hsaw using hsaw
  have hseen : Seen env tasks (waveLimit process tasks.length).toNat d saw s.results :=
    ⟨hlen, hok.1, hok.2, fun i hi t ht => hsaw i t hi ht⟩
  refine ⟨seen (waveLimit process tasks.length).toNat d saw, ?_⟩
  unfold runWave
  split
  · exact hseen.waveLoop _
  next hlimit =>
    -- a wave of no tasks
    have hnone : tasks.length = 0 := by
      by_contra hne
      have hpos := (Wave.of process tasks).pos (length_pos_iff.1 (pos_of_ne_zero hne))
      simp only [Wave.of] at hpos
      omega
    have hle := hok.1
    simp only [Wave.of] at hle
    exact (length_eq_zero_iff.1 (by rw [hlen]; simp only [Wave.Main.collected]; omega)).symm

theorem runWave_of_threads_three : ∃ s env cancelled,
    Wave.three.machine.exec (Wave.start 1) Wave.threeCancelled = some s ∧
      (runWave (Env.seeing env cancelled) (.parallel 2) Wave.three.tasks [] {}).1 = s.results := by
  let env : Env :=
    { cancelled := fun _ => false, deadline := fun _ => false, timesOut := fun _ => false
      outcome := fun t => { taskId := t.id, output := "done", status := .completed }
      outcome_taskId := fun _ => rfl
      timesOut_failed := nofun }
  obtain ⟨s, hrun, hmain⟩ : ∃ s,
      Wave.three.machine.exec (Wave.start 1) Wave.threeCancelled = some s ∧
      s.main = .returned 2 := ⟨_, rfl, rfl⟩
  have hex : Wave.three.Executes env Wave.threeCancelled := by
    intro i r t hmem ht
    simp [Wave.threeCancelled] at hmem
    obtain ⟨rfl, rfl⟩ := hmem
    cases ht
    rfl
  obtain ⟨cancelled, hresults⟩ :=
    runWave_of_threads env (.parallel 2) Wave.three.tasks hrun hex hmain
  exact ⟨s, env, cancelled, hrun, hresults⟩

end Agnosai.CrewRunner
