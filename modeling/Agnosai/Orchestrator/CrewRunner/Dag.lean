import Agnosai.Orchestrator.CrewRunner.Waves

/-!
# Orchestrator — CrewRunner — Dag

What the DAG loop keeps true from wave to wave, whatever is cancelled or times out on the way. The
ids it can ever reach are the *grounded* ones (`Grounded`): those whose cone of dependencies names
tasks of the crew throughout and bottoms out. Only grounded tasks run, only tasks that ran and
said `COMPLETED` enter the completed set, and as long as no task failed every id is completed or
still waiting (`DagInv`).
-/

namespace Agnosai.CrewRunner

open List

variable {env : Env} {spec : CrewSpec} {tasks : List Task} {d d' : DagState} {s : Run}

/-! ### Finding tasks by id -/

variable {id : String} {t : Task}

theorem byId_some (h : byId tasks id = some t) : t ∈ tasks ∧ t.id = id := by
  refine ⟨mem_reverse.1 (mem_of_find?_eq_some h), ?_⟩
  simpa using find?_some h

theorem byId_isSome_iff : (byId tasks id).isSome ↔ id ∈ tasks.map Task.id := by
  simp [byId, find?_isSome]

/-- With distinct ids a task is found by its own id. -/
theorem byId_self (hn : (tasks.map Task.id).Nodup) (ht : t ∈ tasks) : byId tasks t.id = some t := by
  obtain ⟨u, hu⟩ := Option.isSome_iff_exists.1 (byId_isSome_iff.2 (mem_map_of_mem ht))
  obtain ⟨hmem, hid⟩ := byId_some hu
  rw [hu, inj_on_of_nodup_map hn hmem ht hid]

variable {completed : List String}

theorem depsReady_iff : depsReady t completed = true ↔ ∀ dep ∈ t.dependencies, dep ∈ completed := by
  simp [depsReady]

theorem readyTask_eq_some : readyTask tasks completed id = some t ↔
      byId tasks id = some t ∧ ∀ dep ∈ t.dependencies, dep ∈ completed := by
  simp [readyTask, depsReady_iff]

theorem mem_ready : t ∈ d.ready tasks ↔
      t.id ∈ d.remaining ∧ byId tasks t.id = some t ∧ ∀ dep ∈ t.dependencies,
        dep ∈ d.completed := by
  simp only [DagState.ready, mem_filterMap, readyTask_eq_some]
  constructor
  · rintro ⟨id, hid, hb, hd⟩
    obtain rfl := (byId_some hb).2
    exact ⟨hid, hb, hd⟩
  · rintro ⟨hid, hb, hd⟩
    exact ⟨t.id, hid, hb, hd⟩

theorem mem_notReady :
    id ∈ d.notReady tasks ↔ id ∈ d.remaining ∧ readyTask tasks d.completed id = none := by
  simp [DagState.notReady]

/-- The front and what is behind it make up what remained. -/
theorem ready_append_notReady_perm (d : DagState) (tasks : List Task) :
    ((d.ready tasks).map Task.id ++ d.notReady tasks).Perm d.remaining := by
  unfold DagState.ready DagState.notReady
  induction d.remaining with
  | nil => exact .refl _
  | cons id ids ih =>
    cases h : readyTask tasks d.completed id with
    | none =>
      rw [filterMap_cons_none h, filter_cons_of_pos (by rw [h]; rfl)]
      exact perm_middle.trans (ih.cons id)
    | some =>
      rw [filterMap_cons_some h, filter_cons_of_neg (by rw [h]; simp), map_cons,
        cons_append, (byId_some (readyTask_eq_some.1 h).1).2]
      exact ih.cons id

theorem mem_completedIds {rs : List TaskResult} :
    id ∈ completedIds rs ↔ ∃ r ∈ rs, r.status = .completed ∧ r.taskId = id := by
  simp [completedIds, and_assoc]

/-! ### The graph the loop walks -/

/-- The task found under `x` waits for `y`. -/
def Needs (tasks : List Task) (x y : String) : Prop :=
  ∃ t, byId tasks x = some t ∧ y ∈ t.dependencies

/-- `x` and everything it waits for, all the way down, are tasks of the crew. -/
def Grounded (tasks : List Task) : String → Prop :=
  Graph.Grounded (· ∈ tasks.map Task.id) (Needs tasks)

theorem Grounded.of_task (hb : byId tasks t.id = some t)
    (hd : ∀ dep ∈ t.dependencies, Grounded tasks dep) : Grounded tasks t.id := by
  refine .intro (mem_map_of_mem (byId_some hb).1) ?_
  rintro y ⟨u, hu, hy⟩
  rw [hb] at hu
  cases hu
  exact hd y hy

/-- Ids that name only tasks of the crew, without a cycle, are all grounded. -/
theorem grounded_of_closed_acyclic (hc : Graph.Closed (tasks.map Task.id) (DependsOn tasks))
    (ha : Graph.Acyclic (DependsOn tasks)) (hid : id ∈ tasks.map Task.id) :
    Grounded tasks id := by
  have hsub : ∀ x y, Needs tasks x y → DependsOn tasks x y := by
    rintro x y ⟨t, ht, hy⟩
    exact ⟨t, (byId_some ht).1, (byId_some ht).2, hy⟩
  refine Graph.Acyclic.grounded (fun x hx => ha x (Relation.TransGen.mono hsub x x hx)) ?_ hid
  exact fun x hx y hxy => hc x hx y (hsub x y hxy)

/-! ### One round of the loop -/

/-- The ways out of the loop. -/
inductive DagExit (env : Env) (spec : CrewSpec) (d : DagState) :
    Except CrewError (List TaskResult) × Run → Prop where
  /-- Nothing remains. -/
  | empty (hr : d.remaining = []) : DagExit env spec d (.ok d.results, d.run)
  /-- The head saw a cancel or the deadline. -/
  | halted {s : Run} (hs : d.run.halt env = (true, s)) : DagExit env spec d (.ok d.results, s)
  /-- Nothing is ready, and a failure explains it. -/
  | blocked {s : Run} (hs : d.run.halt env = (false, s)) (hf : d.anyFailed = true)
      (hr : d.ready spec.tasks = []) : DagExit env spec d (.ok d.results, s)
  /-- Nothing is ready, and no failure explains it. -/
  | deadlock {s : Run} (hs : d.run.halt env = (false, s)) (hf : d.anyFailed = false)
      (hn : d.remaining ≠ []) (hr : d.ready spec.tasks = []) :
      DagExit env spec d (.error (.scheduling deadlockText), s)
  /-- A wave ran, and a failure has stranded the rest. -/
  | stranded {s : Run} (hs : d.run.halt env = (false, s)) (hr : d.ready spec.tasks ≠ [])
      (hst : (d.settle spec.tasks
        (runWave env spec.process (d.ready spec.tasks) d.results s)).Stranded spec.tasks) :
      DagExit env spec d
        (.ok (runWave env spec.process (d.ready spec.tasks) d.results s).1,
          (runWave env spec.process (d.ready spec.tasks) d.results s).2)

/-- The loop goes round: the head let it, and a wave ran. -/
def DagRound (env : Env) (spec : CrewSpec) (d d' : DagState) : Prop :=
  ∃ s, d.run.halt env = (false, s) ∧ d.ready spec.tasks ≠ [] ∧
    d' = d.settle spec.tasks (runWave env spec.process (d.ready spec.tasks) d.results s)

theorem dagLoop_step (env : Env) (spec : CrewSpec) (d : DagState) :
    Sum.elim (DagRound env spec d) (DagExit env spec d) ((dagLoop env spec).step d) := by
  simp only [dagLoop]
  split
  next hr => exact .empty hr
  next hn =>
  split
  next hs => exact .halted hs
  next s hs =>
  unfold dagRound
  split
  next hr =>
    split
    next hf => exact .blocked hs hf hr
    next hf => exact .deadlock hs (Bool.not_eq_true _ ▸ hf) hn hr
  next hready =>
  dsimp only
  split
  next hst => exact .stranded hs hready hst
  next => exact ⟨s, hs, hready, rfl⟩

/-! ### The invariant -/

/-- What every round keeps. -/
structure DagInv (env : Env) (spec : CrewSpec) (d : DagState) : Prop where
  known : ∀ id ∈ d.remaining, id ∈ spec.taskIds
  grounded : ∀ id ∈ d.completed, Grounded spec.tasks id
  reached : ∀ t ∈ executed d.run.trace, Grounded spec.tasks t.id
  done : ∀ id ∈ d.completed, ∃ t ∈ executed d.run.trace,
    byId spec.tasks id = some t ∧ (env.outcome t).status = .completed
  apart : ∀ id ∈ d.remaining, id ∉ d.completed
  covered : d.anyFailed = false → ∀ id ∈ spec.taskIds, id ∈ d.remaining ∨ id ∈ d.completed
  flagged : d.run.timedOut = true → d.anyFailed = true

theorem DagInv.init {order : List String} (h : Scheduler.sortTasks spec.tasks = some order) :
    DagInv env spec
      { remaining := order, completed := [], anyFailed := false, results := [], run := {} } where
  known _ hid := (Scheduler.sortTasks_perm h).mem_iff.1 hid
  grounded := nofun
  reached := nofun
  done := nofun
  apart _ _ := not_mem_nil
  covered _ _ hid := .inl ((Scheduler.sortTasks_perm h).mem_iff.2 hid)
  flagged ht := absurd ht Bool.false_ne_true

/-- A ready task's own id is grounded. -/
theorem DagInv.ready_grounded (h : DagInv env spec d) (ht : t ∈ d.ready spec.tasks) :
    Grounded spec.tasks t.id := by
  obtain ⟨-, hb, hd⟩ := mem_ready.1 ht
  exact .of_task hb fun dep hdep => h.grounded dep (hd dep hdep)

/-- The failure flag after a wave. -/
theorem settle_anyFailed_eq_false {out : List TaskResult × Run} :
    (d.settle tasks out).anyFailed = false ↔
      d.anyFailed = false ∧ ∀ t ∈ d.ready tasks, t.id ∈ (d.settle tasks out).completed := by
  simp [DagState.settle, or_iff_not_imp_left]

/-! ### A wave -/

/-- A wave took `d` to `d'`: of the ready tasks it dispatched `done`, with the results `rs`, and
left `rest`. -/
structure Waved (env : Env) (spec : CrewSpec) (d d' : DagState) (seg : List Step)
    (done rest : List Task) (rs : List TaskResult) : Prop where
  ready : d.ready spec.tasks = done ++ rest
  remaining : d'.remaining = d.notReady spec.tasks
  completed : d'.completed = d.completed ++ completedIds rs
  results : d'.results = d.results ++ rs
  unfailed : d'.anyFailed = false ↔
    d.anyFailed = false ∧ ∀ t ∈ d.ready spec.tasks, t.id ∈ d'.completed
  ran : Ran env d.run d'.run seg done rest rs
  whole : spec.process.maxConcurrency ≤ 0 → done = [] ∨ rest = []

theorem settle_waved (hs : d.run.halt env = (false, s)) :
    ∃ seg done rest rs, Waved env spec d
      (d.settle spec.tasks (runWave env spec.process (d.ready spec.tasks) d.results s))
      seg done rest rs := by
  obtain ⟨seg, done, rest, rs, hready, hout, hran, hwhole⟩ :=
    runWave_ran env spec.process (d.ready spec.tasks) d.results s
  refine ⟨seg, done, rest, rs, hready, rfl, ?_, hout, settle_anyFailed_eq_false, .of_halt hs hran,
    hwhole⟩
  simp [DagState.settle, hout]

section Wave

variable {seg : List Step} {done rest : List Task} {rs : List TaskResult}

namespace Waved

variable (hw : Waved env spec d d' seg done rest rs)
include hw

theorem executed : executed d'.run.trace = executed d.run.trace ++ executed seg := by
  rw [hw.ran.trace, executed_append]

/-- What a wave executes was ready. -/
theorem executed_ready (ht : t ∈ CrewRunner.executed seg) : t ∈ d.ready spec.tasks := by
  rw [hw.ready]
  exact mem_append_left _ (hw.ran.executed t ht)

/-- An id that a wave completes is that of a task it executed. -/
theorem mem_completed (hid : id ∈ d'.completed) : id ∈ d.completed ∨
      ∃ t ∈ CrewRunner.executed seg, t.id = id ∧ (env.outcome t).status = .completed := by
  rw [hw.completed] at hid
  rcases mem_append.1 hid with hid | hid
  · exact .inl hid
  · obtain ⟨r, hr, hc, rfl⟩ := mem_completedIds.1 hid
    obtain ⟨t, ht, rfl⟩ := hw.ran.completed r hr hc
    exact .inr ⟨t, ht, (env.outcome_taskId t).symm, hc⟩

end Waved

namespace DagInv

variable (h : DagInv env spec d)
include h

section

variable (hw : Waved env spec d d' seg done rest rs)
include hw

theorem done_waved (hid : id ∈ d'.completed) : ∃ t ∈ executed d'.run.trace,
      byId spec.tasks id = some t ∧ (env.outcome t).status = .completed := by
  rw [hw.executed]
  rcases hw.mem_completed hid with hid | ⟨t, ht, rfl, hc⟩
  · obtain ⟨t, ht, hb, hc⟩ := h.done id hid
    exact ⟨t, mem_append_left _ ht, hb, hc⟩
  · exact ⟨t, mem_append_right _ ht, (mem_ready.1 (hw.executed_ready ht)).2.1, hc⟩

/-- What a wave completes was ready, and so does not remain. -/
theorem apart_waved (hid : id ∈ d'.remaining) : id ∉ d'.completed := by
  intro hc
  rw [hw.remaining] at hid
  obtain ⟨hrem, hnone⟩ := mem_notReady.1 hid
  rcases hw.mem_completed hc with hc | ⟨t, ht, rfl, -⟩
  · exact h.apart id hrem hc
  · obtain ⟨-, hb, hdeps⟩ := mem_ready.1 (hw.executed_ready ht)
    rw [readyTask_eq_some.2 ⟨hb, hdeps⟩] at hnone
    cases hnone

theorem covered_waved (hf : d'.anyFailed = false) (hid : id ∈ spec.taskIds) :
    id ∈ d'.remaining ∨ id ∈ d'.completed := by
  obtain ⟨hf, hall⟩ := hw.unfailed.1 hf
  rcases h.covered hf id hid with hrem | hc
  · rcases mem_append.1 ((ready_append_notReady_perm d spec.tasks).mem_iff.2 hrem) with hr | hr
    · obtain ⟨t, ht, rfl⟩ := mem_map.1 hr
      exact .inr (hall t ht)
    · exact .inl (hw.remaining ▸ hr)
  · rw [hw.completed]
    exact .inr (mem_append_left _ hc)

end

/-- A wave that was stopped at its head completes nothing. -/
theorem not_completed_of_stopped
    (hw : Waved env spec d d' seg [] rest rs) (ht : t ∈ d.ready spec.tasks) :
    t.id ∉ d'.completed := by
  have hrs : rs = [] := by simpa using hw.ran.taskIds
  intro hc
  rw [hw.completed, hrs] at hc
  exact h.apart t.id (mem_ready.1 ht).1 (by simpa [completedIds] using hc)

/-- Time that runs out in a wave leaves a ready task that is not completed: the one that timed out,
or, where the wave was stopped at its head, any. -/
theorem flagged_waved (hw : Waved env spec d d' seg done rest rs)
    (hp : spec.process.maxConcurrency ≤ 0) (hto : d'.run.timedOut = true) :
    d'.anyFailed = true := by
  by_contra hne
  obtain ⟨hf, hall⟩ := hw.unfailed.1 (Bool.not_eq_true _ ▸ hne)
  rcases hw.ran.timedOut hto with hto | hrest | ⟨t, ht, hto⟩
  · rw [h.flagged hto] at hf
    cases hf
  · rcases hw.whole hp with rfl | rfl
    · obtain ⟨t, ht⟩ := exists_mem_of_ne_nil rest hrest
      have htr : t ∈ d.ready spec.tasks := hw.ready ▸ ht
      exact h.not_completed_of_stopped hw htr (hall t htr)
    · exact hrest rfl
  · have htr : t ∈ d.ready spec.tasks := hw.ready ▸ mem_append_left _ ht
    obtain ⟨u, -, hu, hc⟩ := h.done_waved hw (hall t htr)
    rw [(mem_ready.1 htr).2.1] at hu
    cases hu
    exact env.timesOut_failed t hto hc

/-- A wave keeps the invariant. -/
theorem waved (hw : Waved env spec d d' seg done rest rs)
    (hp : spec.process.maxConcurrency ≤ 0) : DagInv env spec d' where
  known id hid := h.known id (mem_notReady.1 (hw.remaining ▸ hid)).1
  grounded id hid := by
    rcases hw.mem_completed hid with hid | ⟨t, ht, rfl, -⟩
    · exact h.grounded id hid
    · exact h.ready_grounded (hw.executed_ready ht)
  reached t ht := by
    rw [hw.executed] at ht
    rcases mem_append.1 ht with ht | ht
    · exact h.reached t ht
    · exact h.ready_grounded (hw.executed_ready ht)
  done _ := h.done_waved hw
  apart _ := h.apart_waved hw
  covered hf _ := h.covered_waved hw hf
  flagged := h.flagged_waved hw hp

end DagInv

end Wave

theorem DagInv.settle (h : DagInv env spec d) (hp : spec.process.maxConcurrency ≤ 0)
    (hs : d.run.halt env = (false, s)) :
    DagInv env spec
      (d.settle spec.tasks (runWave env spec.process (d.ready spec.tasks) d.results s)) := by
  obtain ⟨seg, done, rest, rs, hw⟩ := settle_waved hs
  exact h.waved hw hp

/-- What a deadlock error of the DAG loop says. -/
structure Deadlocked (env : Env) (spec : CrewSpec) (s : Run) : Prop where
  inTime : s.timedOut = false
  stuck : ∃ id ∈ spec.taskIds, ¬ Grounded spec.tasks id
  ran : ∀ id, Grounded spec.tasks id → ∃ t ∈ executed s.trace,
    byId spec.tasks id = some t ∧ (env.outcome t).status = .completed
  only : ∀ t ∈ executed s.trace, Grounded spec.tasks t.id

/-- While no task failed and nothing is ready, the completed ids are the grounded ones. -/
theorem DagInv.grounded_completed (h : DagInv env spec d) (hf : d.anyFailed = false)
    (hr : d.ready spec.tasks = []) (hg : Grounded spec.tasks id) :
    id ∈ d.completed := by
  induction hg with
  | intro here below ih =>
    rcases h.covered hf _ here with hrem | hc
    · obtain ⟨t, ht⟩ := Option.isSome_iff_exists.1 (byId_isSome_iff.2 here)
      obtain ⟨-, rfl⟩ := byId_some ht
      have hready : t ∈ d.ready spec.tasks :=
        mem_ready.2 ⟨hrem, ht, fun dep hdep => ih dep ⟨t, ht, hdep⟩⟩
      rw [hr] at hready
      cases hready
    · exact hc

theorem DagInv.deadlocked (h : DagInv env spec d) (hs : d.run.halt env = (false, s))
    (hf : d.anyFailed = false) (hn : d.remaining ≠ []) (hr : d.ready spec.tasks = []) :
    Deadlocked env spec s := by
  have htr := Run.halt_trace hs
  refine ⟨?_, ?_, ?_, ?_⟩
  · rw [Run.halt_go hs]
    by_contra hto
    rw [h.flagged (Bool.not_eq_false _ ▸ hto)] at hf
    cases hf
  · obtain ⟨id, hid⟩ := exists_mem_of_ne_nil _ hn
    exact ⟨id, h.known id hid, fun hg => h.apart id hid (h.grounded_completed hf hr hg)⟩
  · intro id hg
    rw [htr]
    exact h.done id (h.grounded_completed hf hr hg)
  · rw [htr]
    exact h.reached

/-- **Errors of a DAG run.** Either the sort found a cycle and nothing ran, or the loop
deadlocked. -/
theorem runDag_error (hp : spec.process.maxConcurrency ≤ 0) {e : CrewError} {s : Run}
    (h : runDag env spec {} = (.error e, s)) :
    (Scheduler.sortTasks spec.tasks = none ∧ s = {}) ∨
      ((Scheduler.sortTasks spec.tasks).isSome ∧ Deadlocked env spec s) := by
  unfold runDag at h
  split at h
  next hsort =>
    cases h
    exact .inl ⟨hsort, rfl⟩
  next hsort =>
    refine .inr ?_
    have hq := (dagLoop env spec).run_rule (dagLoop_step env spec) (I := DagInv env spec)
      (Q := fun out => ∀ e s, out = (.error e, s) → Deadlocked env spec s) ?_ ?_
      (DagInv.init hsort)
    · exact ⟨by rw [hsort]; rfl, hq e s h⟩
    · rintro d d' hi ⟨s, hs, -, rfl⟩
      exact hi.settle hp hs
    · rintro d out hi hexit e s rfl
      cases hexit with
      | deadlock hs hf hn hr => exact hi.deadlocked hs hf hn hr

end Agnosai.CrewRunner
