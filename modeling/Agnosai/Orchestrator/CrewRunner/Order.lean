import Agnosai.Orchestrator.CrewRunner.Dag

/-!
# Orchestrator — CrewRunner — Order

The order in which a quiet DAG run dispatches tasks (`QuietInv`). The loop ends with no task
ready, so a task that was never dispatched has a dependency that failed or was itself never
dispatched; along an acyclic, closed graph that walk ends at a failure.
-/

namespace Agnosai.CrewRunner

open List

open Relation (TransGen)

variable {env : Env} {spec : CrewSpec} {d d' : DagState} {s : Run} {tr seg : List Step}

/-- The trace has a `COMPLETED` result for `id`. -/
def Completes (tr : List Step) (id : String) : Prop :=
  ∃ r, .result r ∈ tr ∧ r.taskId = id ∧ r.status = .completed

/-- A task is dispatched only after each of its dependencies has a `COMPLETED` result. -/
def Timely (tr : List Step) : Prop :=
  ∀ tr₁ t tr₂, tr = tr₁ ++ .dispatch t :: tr₂ → ∀ dep ∈ t.dependencies, Completes tr₁ dep

theorem Completes.append {id : String} (h : Completes tr id) : Completes (tr ++ seg) id := by
  obtain ⟨r, hr, hid, hc⟩ := h
  exact ⟨r, mem_append_left _ hr, hid, hc⟩

/-- A segment whose dispatches were all due before it keeps the trace timely. -/
theorem Timely.append (h : Timely tr)
    (hseg : ∀ t ∈ dispatched seg, ∀ dep ∈ t.dependencies, Completes tr dep) :
    Timely (tr ++ seg) := by
  intro tr₁ t tr₂ he dep hdep
  rcases append_eq_append_iff.1 he with ⟨x, rfl, hx⟩ | ⟨x, rfl, hx⟩
  · have ht : t ∈ dispatched seg := mem_dispatched.2 (hx ▸ mem_append_right _ mem_cons_self)
    exact (hseg t ht dep hdep).append
  · cases x with
    | nil =>
      rw [nil_append] at hx
      have ht : t ∈ dispatched seg := mem_dispatched.2 (hx ▸ mem_cons_self)
      exact append_nil tr₁ ▸ hseg t ht dep hdep
    | cons e x =>
      obtain ⟨rfl, rfl⟩ := cons.inj hx
      exact h tr₁ t x rfl dep hdep

/-! ### The invariant of a quiet run -/

/-- What every round of a quiet run keeps. -/
structure QuietInv (env : Env) (spec : CrewSpec) (d : DagState) : Prop where
  perm : ((dispatched d.run.trace).map Task.id ++ d.remaining).Perm spec.taskIds
  found : ∀ t ∈ dispatched d.run.trace, byId spec.tasks t.id = some t
  results : d.results = (dispatched d.run.trace).map env.outcome
  collected : collected d.run.trace = d.results
  completed : ∀ id, id ∈ d.completed ↔
    ∃ t ∈ dispatched d.run.trace, t.id = id ∧ (env.outcome t).status = .completed
  deps : ∀ t ∈ dispatched d.run.trace, ∀ dep ∈ t.dependencies, dep ∈ d.completed
  timely : Timely d.run.trace
  inTime : d.run.timedOut = false

theorem QuietInv.init {order : List String} (h : Scheduler.sortTasks spec.tasks = some order) :
    QuietInv env spec
      { remaining := order, completed := [], anyFailed := false, results := [], run := {} } where
  perm := Scheduler.sortTasks_perm h
  found := nofun
  results := rfl
  collected := rfl
  completed _ := ⟨nofun, fun ⟨_, ht, _⟩ => absurd ht not_mem_nil⟩
  deps := nofun
  timely tr₁ t tr₂ he := by simp at he
  inTime := rfl

/-- What the completed set holds has a result in the trace. -/
theorem QuietInv.completes (h : QuietInv env spec d) {id : String} (hid : id ∈ d.completed) :
    Completes d.run.trace id := by
  obtain ⟨t, ht, rfl, hc⟩ := (h.completed id).1 hid
  refine ⟨env.outcome t, ?_, env.outcome_taskId t, hc⟩
  rw [← mem_collected, h.collected, h.results]
  exact mem_map_of_mem ht

/-- A quiet wave runs the whole front. -/
theorem QuietInv.settle (h : QuietInv env spec d) (hq : env.Quiet)
    (hs : d.run.halt env = (false, s)) :
    QuietInv env spec
      (d.settle spec.tasks (runWave env spec.process (d.ready spec.tasks) d.results s)) := by
  obtain ⟨seg, done, rest, rs, hw⟩ := settle_waved hs
  generalize d.settle spec.tasks (runWave env spec.process (d.ready spec.tasks) d.results s) = d'
    at hw ⊢
  have hran := hw.ran
  have hrs : rs = done.map env.outcome := hran.outcomes hq
  obtain rfl : rest = [] := hran.quiet hq
  obtain rfl : d.ready spec.tasks = done := hw.ready.trans (append_nil done)
  have hdisp : dispatched d'.run.trace = dispatched d.run.trace ++ d.ready spec.tasks := by
    rw [hran.trace, dispatched_append, hran.dispatched]
  refine ⟨?_, ?_, ?_, ?_, ?_, ?_, ?_, ?_⟩
  · rw [hdisp, hw.remaining, map_append, append_assoc]
    exact ((ready_append_notReady_perm d spec.tasks).append_left _).trans h.perm
  · intro t ht
    rw [hdisp] at ht
    rcases mem_append.1 ht with ht | ht
    · exact h.found t ht
    · exact (mem_ready.1 ht).2.1
  · rw [hdisp, hw.results, map_append, ← h.results, hrs]
  · rw [hran.trace, hw.results, collected_append, h.collected, hran.collected]
  · intro id
    rw [hw.completed, hdisp, mem_append, h.completed id, mem_completedIds, hrs]
    constructor
    · rintro (⟨t, ht, hid, hc⟩ | ⟨r, hr, hc, rfl⟩)
      · exact ⟨t, mem_append_left _ ht, hid, hc⟩
      · obtain ⟨t, ht, rfl⟩ := mem_map.1 hr
        exact ⟨t, mem_append_right _ ht, (env.outcome_taskId t).symm, hc⟩
    · rintro ⟨t, ht, rfl, hc⟩
      rcases mem_append.1 ht with ht | ht
      · exact .inl ⟨t, ht, rfl, hc⟩
      · exact .inr ⟨env.outcome t, mem_map_of_mem ht, hc, env.outcome_taskId t⟩
  · intro t ht dep hdep
    rw [hdisp] at ht
    rw [hw.completed]
    refine mem_append_left _ ?_
    rcases mem_append.1 ht with ht | ht
    · exact h.deps t ht dep hdep
    · exact (mem_ready.1 ht).2.2 dep hdep
  · rw [hran.trace]
    refine h.timely.append fun t ht dep hdep => h.completes ?_
    rw [hran.dispatched] at ht
    exact (mem_ready.1 ht).2.2 dep hdep
  · by_contra hto
    rcases hran.timedOut (Bool.not_eq_false _ ▸ hto) with hto | hne | ⟨t, -, ht⟩
    · rw [h.inTime] at hto
      cases hto
    · exact hne rfl
    · rw [hq.timesOut] at ht
      cases ht

/-- What a quiet DAG run that returns results ends with. -/
theorem runDag_quiet (hq : env.Quiet) {rs : List TaskResult}
    (h : runDag env spec {} = (.ok rs, s)) :
    ∃ d, QuietInv env spec d ∧ d.ready spec.tasks = [] ∧ rs = d.results ∧
      s.trace = d.run.trace ∧ s.timedOut = false := by
  unfold runDag at h
  split at h
  · cases h
  next hsort =>
    have hrun := (dagLoop env spec).run_rule (dagLoop_step env spec) (I := QuietInv env spec)
      (Q := fun out => ∀ rs s, out = (.ok rs, s) → ∃ d, QuietInv env spec d ∧
        d.ready spec.tasks = [] ∧ rs = d.results ∧ s.trace = d.run.trace ∧ s.timedOut = false)
      ?_ ?_ (QuietInv.init hsort)
    · exact hrun rs s h
    · rintro d d' hi ⟨s, hs, -, rfl⟩
      exact hi.settle hq hs
    · rintro d out hi hexit rs s rfl
      cases hexit with
      | empty hr => exact ⟨d, hi, by simp [DagState.ready, hr], rfl, rfl, hi.inTime⟩
      | halted hs => rw [hq.halt] at hs; cases hs
      | blocked hs hf hr =>
        exact ⟨d, hi, hr, rfl, Run.halt_trace hs, (Run.halt_go hs).trans hi.inTime⟩
      | stranded hs hr hst =>
        have hi' := hi.settle hq hs
        exact ⟨_, hi', hst.2.2, rfl, rfl, hi'.inTime⟩

/-! ### What was and was not dispatched -/

/-- Everything below a dispatched task is in the completed set. -/
theorem QuietInv.completed_of_transGen (h : QuietInv env spec d) (hn : spec.taskIds.Nodup)
    {x y : String} (hx : x ∈ (dispatched d.run.trace).map Task.id)
    (hxy : TransGen (DependsOn spec.tasks) x y) : y ∈ d.completed := by
  -- one edge: the task dispatched under `x` is the only one of that id
  have hedge : ∀ x y, x ∈ (dispatched d.run.trace).map Task.id → DependsOn spec.tasks x y →
      y ∈ d.completed := by
    rintro x y hx ⟨t, ht, rfl, hy⟩
    obtain ⟨u, hu, hut⟩ := mem_map.1 hx
    have hfound := h.found u hu
    rw [hut, byId_self hn ht] at hfound
    cases hfound
    exact h.deps t hu y hy
  induction hxy with
  | single hd => exact hedge _ _ hx hd
  | tail _ hd ih =>
    obtain ⟨t, ht, rfl, -⟩ := (h.completed _).1 ih
    exact hedge _ _ (mem_map_of_mem ht) hd

/-- With nothing ready, a task below which every outcome is `COMPLETED` has been dispatched. -/
theorem QuietInv.dispatched_of_outcomes (h : QuietInv env spec d)
    (hr : d.ready spec.tasks = []) {x : String} (hg : Grounded spec.tasks x)
    (hall : ∀ u ∈ spec.tasks, TransGen (DependsOn spec.tasks) x u.id →
      (env.outcome u).status = .completed) :
    x ∈ (dispatched d.run.trace).map Task.id := by
  induction hg with
  | @intro x here below ih =>
    rcases mem_append.1 (h.perm.mem_iff.2 here) with hx | hrem
    · exact hx
    · -- `x` remains although all it waits for has run and completed: then it is ready
      obtain ⟨t, ht⟩ := Option.isSome_iff_exists.1 (byId_isSome_iff.2 here)
      obtain ⟨hmem, rfl⟩ := byId_some ht
      have hready : t ∈ d.ready spec.tasks := by
        refine mem_ready.2 ⟨hrem, ht, fun dep hdep => (h.completed dep).2 ?_⟩
        have hed : DependsOn spec.tasks t.id dep := ⟨t, hmem, rfl, hdep⟩
        have hdisp := ih dep ⟨t, ht, hdep⟩ fun u hu hdu => hall u hu (.head hed hdu)
        obtain ⟨u, hu, rfl⟩ := mem_map.1 hdisp
        exact ⟨u, hu, rfl, hall u (byId_some (h.found u hu)).1 (.single hed)⟩
      rw [hr] at hready
      cases hready

/-- What a dispatched task's `COMPLETED` result says about its outcome. -/
theorem QuietInv.outcome_of_completes (h : QuietInv env spec d) (hn : spec.taskIds.Nodup)
    {u : Task} (hu : u ∈ spec.tasks) (hc : Completes d.run.trace u.id) :
    (env.outcome u).status = .completed := by
  obtain ⟨r, hr, hid, hs⟩ := hc
  rw [← mem_collected, h.collected, h.results] at hr
  obtain ⟨t, ht, rfl⟩ := mem_map.1 hr
  rw [env.outcome_taskId] at hid
  have hfound := h.found t ht
  rw [hid, byId_self hn hu] at hfound
  cases hfound
  exact hs

/-- A DAG run over closed, acyclic dependencies returns no error. -/
theorem runDag_ok_of_closed_acyclic (hp : spec.process.maxConcurrency ≤ 0)
    (hc : Graph.Closed spec.taskIds (DependsOn spec.tasks))
    (ha : Graph.Acyclic (DependsOn spec.tasks)) :
    ∃ rs s, runDag env spec {} = (.ok rs, s) := by
  rcases h : runDag env spec {} with ⟨e | rs, s⟩
  · rcases runDag_error hp h with ⟨hsort, -⟩ | ⟨-, hdead⟩
    · have hsome := Scheduler.sortTasks_isSome_of_acyclic ha
      rw [hsort] at hsome
      cases hsome
    · obtain ⟨id, hid, hng⟩ := hdead.stuck
      exact absurd (grounded_of_closed_acyclic hc ha hid) hng
  · exact ⟨rs, s, rfl⟩

/-- Over closed, acyclic dependencies a run returns a state, in every process mode. -/
theorem crewRun_ok_of_closed_acyclic (hc : Graph.Closed spec.taskIds (DependsOn spec.tasks))
    (ha : Graph.Acyclic (DependsOn spec.tasks)) : ∃ state s, crewRun env spec = (.ok state, s) := by
  have hok : ∃ rs s, runTasks env spec {} = (.ok rs, s) := by
    unfold runTasks
    split
    · exact ⟨_, _, rfl⟩
    next hp =>
      exact runDag_ok_of_closed_acyclic (by rw [hp]; exact le_rfl) hc ha
    · exact ⟨_, _, rfl⟩
    · exact ⟨_, _, rfl⟩
  obtain ⟨rs, s, hrs⟩ := hok
  exact ⟨_, _, crewRun_ok hrs⟩

/-- **The order of a DAG run.** For distinct ids, dependencies that name tasks of the crew and have
no cycle, and any outcomes, with no cancel and no deadline: the run returns a state; a task is
dispatched only after each dependency has a `COMPLETED` result; a task below which every outcome is
`COMPLETED` is dispatched exactly once; and a task with something below it that did not complete, by
its outcome or for want of a result, is never dispatched. -/
theorem dag_run_order (env : Env) (spec : CrewSpec) (hq : env.Quiet) (hp : spec.process = .dag)
    (hn : spec.taskIds.Nodup) (hc : Graph.Closed spec.taskIds (DependsOn spec.tasks))
    (ha : Graph.Acyclic (DependsOn spec.tasks)) :
    ∃ state s, crewRun env spec = (.ok state, s) ∧ Timely s.trace ∧
      (∀ t ∈ spec.tasks, (∀ u ∈ spec.tasks, TransGen (DependsOn spec.tasks) t.id u.id →
          (env.outcome u).status = .completed) →
        ((dispatched s.trace).map Task.id).count t.id = 1) ∧
      (∀ t ∈ spec.tasks, ∀ u ∈ spec.tasks, TransGen (DependsOn spec.tasks) t.id u.id →
        ((env.outcome u).status ≠ .completed ∨ ¬ Completes s.trace u.id) →
        ((dispatched s.trace).map Task.id).count t.id = 0) := by
  have hlim : spec.process.maxConcurrency ≤ 0 := by rw [hp]; exact le_rfl
  obtain ⟨rs, s, hrun⟩ := runDag_ok_of_closed_acyclic hlim hc ha
  obtain ⟨d, hi, hr, -, htr, -⟩ := runDag_quiet hq hrun
  have hnd : ((dispatched d.run.trace).map Task.id).Nodup :=
    (nodup_append.1 (hi.perm.nodup_iff.2 hn)).1
  have htasks : runTasks env spec {} = (.ok rs, s) := by rw [runTasks, hp, hrun]
  refine ⟨_, _, crewRun_ok htasks, ?_, ?_, ?_⟩
  · rw [Run.poll_trace, htr]
    exact hi.timely
  · intro t ht hall
    rw [Run.poll_trace, htr]
    have hg := grounded_of_closed_acyclic hc ha (mem_map_of_mem ht)
    exact count_eq_one_of_mem hnd (hi.dispatched_of_outcomes hr hg hall)
  · intro t ht u hu htu hfail
    rw [Run.poll_trace, htr] at hfail ⊢
    rw [count_eq_zero]
    intro hdisp
    have hcompl := hi.completes (hi.completed_of_transGen hn hdisp htu)
    rcases hfail with hne | hne
    · exact hne (hi.outcome_of_completes hn hu hcompl)
    · exact hne hcompl

/-- `a`, `b` after `a`, and `c` after `b`. -/
def chain : CrewSpec where
  id := "crew"
  name := "chain"
  agents := []
  tasks :=
    [{ id := "c", description := "", dependencies := ["b"] },
      { id := "a", description := "" },
      { id := "b", description := "", dependencies := ["a"] }]
  process := .dag

/-- A quiet world in which only the tasks of `failing` do not complete. -/
def quietEnv (failing : List String) : Env where
  cancelled _ := false
  deadline _ := false
  outcome t :=
    { taskId := t.id, output := "", status := if t.id ∈ failing then .failed else .completed }
  timesOut _ := false
  outcome_taskId _ := rfl
  timesOut_failed := nofun

theorem quietEnv_quiet (failing : List String) : (quietEnv failing).Quiet :=
  ⟨fun _ => rfl, fun _ => rfl, fun _ => rfl⟩

theorem chain_dependsOn {x y : String} (h : DependsOn chain.tasks x y) :
    x = "c" ∧ y = "b" ∨ x = "b" ∧ y = "a" := by
  obtain ⟨t, ht, rfl, hy⟩ := h
  simp only [chain, mem_cons, not_mem_nil, or_false] at ht
  rcases ht with rfl | rfl | rfl <;> simp_all

theorem chain_closed : Graph.Closed chain.taskIds (DependsOn chain.tasks) := by
  intro x _ y hxy
  rcases chain_dependsOn hxy with ⟨-, rfl⟩ | ⟨-, rfl⟩ <;> decide

theorem chain_acyclic : Graph.Acyclic (DependsOn chain.tasks) := by
  refine Graph.acyclic_of_rank (fun x => if x = "c" then 2 else if x = "b" then 1 else 0) ?_
  intro x y hxy
  rcases chain_dependsOn hxy with ⟨rfl, rfl⟩ | ⟨rfl, rfl⟩ <;> decide

/-- With `b` failing, the chain's `b` is dispatched once and its `c` never. -/
theorem dag_run_order_chain :
    ∃ state s, crewRun (quietEnv ["b"]) chain = (.ok state, s) ∧ Timely s.trace ∧
      ((dispatched s.trace).map Task.id).count "b" = 1 ∧
      ((dispatched s.trace).map Task.id).count "c" = 0 := by
  obtain ⟨state, s, hrun, ht, hone, hzero⟩ := dag_run_order (quietEnv ["b"]) chain
    (quietEnv_quiet _) rfl (by decide) chain_closed chain_acyclic
  refine ⟨state, s, hrun, ht, ?_, ?_⟩
  · refine hone { id := "b", description := "", dependencies := ["a"] } (by simp [chain]) ?_
    intro u hu hbu
    -- below `b` there is only `a`
    have hle : u.id = "a" := Graph.transGen_closed (P := fun x => x = "a" ∨ x = "b")
      (fun x y hx hxy => ?_) (.inr rfl) hbu |>.resolve_right ?_
    · simp [quietEnv, hle]
    · rcases chain_dependsOn hxy with ⟨rfl, rfl⟩ | ⟨rfl, rfl⟩ <;> simp
    · intro hb
      rw [hb] at hbu
      exact chain_acyclic "b" hbu
  · exact hzero { id := "c", description := "", dependencies := ["b"] } (by simp [chain])
      { id := "b", description := "", dependencies := ["a"] } (by simp [chain])
      (.single ⟨_, mem_cons_self, rfl, by simp⟩) (.inl (by decide))

end Agnosai.CrewRunner
