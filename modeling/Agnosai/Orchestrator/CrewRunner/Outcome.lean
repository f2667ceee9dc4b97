import Agnosai.Orchestrator.CrewRunner.Order

/-!
# Orchestrator — CrewRunner — Outcome

What a run reports at the end, in every process mode. In a quiet run the results are the outcomes
of the tasks dispatched, and those tasks with the ids left over make up the crew
(`runTasks_quiet`).

Only a DAG run returns an error: on a cycle, before anything runs, or from the deadlock arm, which
is reached when a dependency names no task. By then every task that could run has run, and
completed results are dropped with the error (`LosesWork`).
-/

namespace Agnosai.CrewRunner

open List

variable {env : Env} {spec : CrewSpec} {s : Run}

/-! ### The status -/

/-- The results of a quiet run are the outcomes of part of the crew's tasks. -/
theorem runTasks_quiet (hq : env.Quiet) {rs : List TaskResult}
    (h : runTasks env spec {} = (.ok rs, s)) :
    ∃ (done : List Task) (left : List String), rs = done.map env.outcome ∧
      (done.map Task.id ++ left).Perm spec.taskIds ∧ s.timedOut = false := by
  -- the sequential loop and the wave leave nothing over
  have hall : ∀ {s' : Run} {seg : List Step} {done rest : List Task} {rs' : List TaskResult},
      spec.tasks = done ++ rest → Ran env {} s' seg done rest rs' →
      rs' = spec.tasks.map env.outcome ∧ s'.timedOut = false := by
    intro s' seg done rest rs' htasks hran
    obtain rfl : rest = [] := hran.quiet hq
    rw [append_nil] at htasks
    refine ⟨htasks ▸ hran.outcomes hq, ?_⟩
    by_contra hto
    rcases hran.timedOut (Bool.not_eq_false _ ▸ hto) with hto | hne | ⟨t, -, ht⟩
    · cases hto
    · exact hne rfl
    · rw [hq.timesOut] at ht
      cases ht
  have hseq : ∀ {rs' : List TaskResult} {s' : Run},
      rs' = spec.tasks.map env.outcome ∧ s'.timedOut = false →
      (Except.ok rs', s') = ((.ok rs, s) : Except CrewError _ × Run) →
      ∃ (done : List Task) (left : List String), rs = done.map env.outcome ∧
        (done.map Task.id ++ left).Perm spec.taskIds ∧ s.timedOut = false := by
    rintro rs' s' ⟨hrs, hto⟩ heq
    cases heq
    exact ⟨spec.tasks, [], hrs, by rw [append_nil]; exact .refl _, hto⟩
  unfold runTasks at h
  split at h
  · obtain ⟨seg, done, rest, rs', htasks, hrs, hran, -⟩ :=
      runWave_ran env spec.process spec.tasks [] {}
    exact hseq (hrs ▸ hall htasks hran) h
  · obtain ⟨d, hi, -, rfl, -, hto⟩ := runDag_quiet hq h
    exact ⟨_, _, hi.results, hi.perm, hto⟩
  · obtain ⟨seg, done, rest, htasks, hran⟩ := runSequential_ran env spec.tasks {}
    exact hseq (hall htasks hran) h
  · obtain ⟨seg, done, rest, htasks, hran⟩ := runSequential_ran env spec.tasks {}
    exact hseq (hall htasks hran) h

/-- A run that saw its deadline returns no error. -/
theorem runTasks_error_inTime {e : CrewError} (h : runTasks env spec {} = (.error e, s)) :
    s.timedOut = false := by
  unfold runTasks at h
  split at h
  · cases h
  next hp =>
    have hlim : spec.process.maxConcurrency ≤ 0 := by rw [hp]; exact le_rfl
    rcases runDag_error hlim h with ⟨-, rfl⟩ | ⟨-, hd⟩
    · rfl
    · exact hd.inTime
  · cases h
  · cases h

/-- In a quiet run the status reads off the results. -/
theorem finalStatus_eq_completed_iff (hq : env.Quiet) (hto : s.timedOut = false)
    (rs : List TaskResult) :
    finalStatus env spec rs s = .completed ↔
      (∀ r ∈ rs, r.status = .completed) ∧ spec.tasks.length ≤ rs.length := by
  unfold finalStatus
  rw [hto, hq.cancelled]
  simp only [Bool.false_eq_true, if_false]
  split
  next h =>
    simp only [reduceCtorEq, false_iff, not_and, not_le]
    intro hall
    rcases h with ⟨r, hr, hne⟩ | hlt
    · exact absurd (hall r hr) hne
    · exact hlt
  next h =>
    simp only [not_or, not_exists, not_and, not_not, not_lt] at h
    exact ⟨fun _ => h, fun _ => rfl⟩

/-- Of distinct ids split in two, the first part holds each exactly once just when it is as long as
the whole. -/
theorem count_eq_one_iff_length_le {ids done left : List String} (hn : ids.Nodup)
    (hp : (done ++ left).Perm ids) :
    (∀ id ∈ ids, done.count id = 1) ↔ ids.length ≤ done.length := by
  rw [← hp.length_eq, length_append]
  constructor
  · intro hall
    cases left with
    | nil => simp
    | cons id =>
      -- `id` is left over, so it is not among the distinct ids of `done`
      have hid := hall id (hp.mem_iff.1 (mem_append_right _ mem_cons_self))
      have hnd := hp.nodup_iff.2 hn
      have hnotin : id ∉ done := fun h =>
        (nodup_append.1 hnd).2.2 id h id mem_cons_self rfl
      rw [count_eq_zero.2 hnotin] at hid
      cases hid
  · intro hle id hid
    have hleft : left = [] := by
      rw [← length_eq_zero_iff]
      omega
    subst hleft
    rw [append_nil] at hp
    exact count_eq_one_of_mem (hp.nodup_iff.2 hn) (hp.mem_iff.2 hid)

/-- **The final status.** A quiet run of a crew with distinct task ids that returns a state is
`COMPLETED` exactly when every task has exactly one result in the state and all results are
`COMPLETED`. A run whose deadline was observed, in any world, is `FAILED` with no results. -/
theorem crew_final_status (env : Env) (spec : CrewSpec) :
    (env.Quiet → spec.taskIds.Nodup → ∀ state s, crewRun env spec = (.ok state, s) →
      (state.status = .completed ↔
        (∀ t ∈ spec.tasks, (state.results.map TaskResult.taskId).count t.id = 1) ∧
          ∀ r ∈ state.results, r.status = .completed)) ∧
    ((crewRun env spec).2.timedOut = true →
      ∃ state, (crewRun env spec).1 = .ok state ∧ state.status = .failed ∧ state.results = []) := by
  rcases h : runTasks env spec {} with ⟨e | rs, s⟩
  · have herr : crewRun env spec = (.error e, s) := by rw [crewRun, h]
    refine ⟨fun _ _ state s' hs => ?_, fun hto => ?_⟩
    · rw [herr] at hs
      cases hs
    · rw [herr, runTasks_error_inTime h] at hto
      cases hto
  · rw [crewRun_ok h]
    refine ⟨fun hq hn state s' hs => ?_, fun hto => ?_⟩
    · cases hs
      obtain ⟨done, left, rfl, hperm, hto⟩ := runTasks_quiet hq h
      have hids : (done.map env.outcome).map TaskResult.taskId = done.map Task.id := by
        rw [map_map]
        exact map_congr_left fun t _ => env.outcome_taskId t
      have hone := count_eq_one_iff_length_le hn hperm
      simp only [CrewSpec.taskIds, mem_map, forall_exists_index, and_imp,
        forall_apply_eq_imp_iff₂, length_map] at hone
      rw [finalState, hto]
      rw [finalStatus_eq_completed_iff hq hto, if_neg Bool.false_ne_true, hids, hone,
        length_map, and_comm]
    · refine ⟨_, rfl, ?_, ?_⟩
      · rw [finalState, finalStatus, if_pos (by simpa using hto)]
      · rw [finalState, if_pos (by simpa using hto)]

/-- The chain with every task completing is `COMPLETED`, with its three results. -/
theorem crew_final_status_chain :
    ∃ state s, crewRun (quietEnv []) chain = (.ok state, s) ∧ state.status = .completed ∧
      ∀ t ∈ chain.tasks, (state.results.map TaskResult.taskId).count t.id = 1 := by
  obtain ⟨rs, s, hrun⟩ := runDag_ok_of_closed_acyclic le_rfl chain_closed chain_acyclic
  have h : crewRun (quietEnv []) chain = (.ok (finalState (quietEnv []) chain rs s), s.poll) :=
    crewRun_ok hrun
  have hc : (finalState (quietEnv []) chain rs s).status = .completed := by
    have hval : (crewRun (quietEnv []) chain).1.toOption.map CrewState.status =
        some .completed := by
      decide
    rw [h] at hval
    exact Option.some.inj hval
  have hiff := (crew_final_status (quietEnv []) chain).1 (quietEnv_quiet _) (by decide) _ _ h
  exact ⟨_, _, h, hc, (hiff.1 hc).1⟩

/-! ### Errors -/

/-- The one way a run can drop work with its error: a DAG without a cycle in which some task waits,
directly or further down, for an id that is no task, while other tasks can run and all of those
complete. -/
structure LosesWork (outcome : Task → TaskResult) (spec : CrewSpec) : Prop where
  dag : spec.process = .dag
  acyclic : Graph.Acyclic fun a b => (a, b) ∈ Scheduler.edges spec.tasks
  dangling : ∃ id ∈ spec.taskIds, ¬ Grounded spec.tasks id
  runnable : ∃ id ∈ spec.taskIds, Grounded spec.tasks id
  complete : ∀ id t, Grounded spec.tasks id → byId spec.tasks id = some t →
    (outcome t).status = .completed

/-- The same outcomes in a quiet world. -/
def Env.quieted (env : Env) : Env :=
  { env with
    cancelled := fun _ => false
    deadline := fun _ => false
    timesOut := fun _ => false
    timesOut_failed := nofun }

theorem Env.quieted_quiet : env.quieted.Quiet :=
  ⟨fun _ => rfl, fun _ => rfl, fun _ => rfl⟩

/-- When all that is grounded completes, no quiet wave raises the failure flag. -/
theorem settle_anyFailed_of_complete {d : DagState} (hd : DagInv env spec d)
    (hi : QuietInv env spec d) (hq : env.Quiet) (hs : d.run.halt env = (false, s))
    (hf : d.anyFailed = false) (hc : ∀ id t, Grounded spec.tasks id →
      byId spec.tasks id = some t → (env.outcome t).status = .completed) :
    (d.settle spec.tasks
      (runWave env spec.process (d.ready spec.tasks) d.results s)).anyFailed = false := by
  refine settle_anyFailed_eq_false.2 ⟨hf, fun t ht => ?_⟩
  have hi' := hi.settle hq hs
  -- the front has been dispatched: its ids no longer remain
  refine (hi'.completed t.id).2 ?_
  obtain ⟨hrem, hb, hdeps⟩ := mem_ready.1 ht
  have hid : t.id ∈ spec.taskIds := mem_map_of_mem (byId_some hb).1
  rcases mem_append.1 (hi'.perm.mem_iff.2 hid) with hdisp | hnr
  · obtain ⟨u, hu, hut⟩ := mem_map.1 hdisp
    have hub := hi'.found u hu
    rw [hut, hb] at hub
    cases hub
    exact ⟨t, hu, rfl, hc t.id t (hd.ready_grounded ht) hb⟩
  · have hnone := (mem_notReady.1 hnr).2
    rw [readyTask_eq_some.2 ⟨hb, hdeps⟩] at hnone
    cases hnone

/-- Work is lost: the quiet run of such a crew deadlocks after its runnable tasks have run. -/
theorem runDag_loses (hq : env.Quiet) (h : LosesWork env.outcome spec) :
    ∃ e s, runDag env spec {} = (.error e, s) ∧ executed s.trace ≠ [] := by
  have hlim : spec.process.maxConcurrency ≤ 0 := by rw [h.dag]; exact le_rfl
  obtain ⟨order, hsort⟩ := Option.isSome_iff_exists.1 (Scheduler.sortTasks_isSome_iff.2 h.acyclic)
  have hend : ∃ e s, runDag env spec {} = (.error e, s) ∧ Deadlocked env spec s := by
    rw [runDag, hsort]
    refine (dagLoop env spec).run_rule (dagLoop_step env spec)
      (I := fun d => DagInv env spec d ∧ QuietInv env spec d ∧ d.anyFailed = false)
      (Q := fun out => ∃ e s, out = (.error e, s) ∧ Deadlocked env spec s) ?_ ?_
      ⟨DagInv.init hsort, QuietInv.init hsort, rfl⟩
    · rintro d d' ⟨hd, hi, hf⟩ ⟨s, hs, -, rfl⟩
      exact ⟨hd.settle hlim hs, hi.settle hq hs,
        settle_anyFailed_of_complete hd hi hq hs hf h.complete⟩
    · rintro d out ⟨hd, hi, hf⟩ hexit
      cases hexit with
      | empty hr =>
        obtain ⟨id, hid, hng⟩ := h.dangling
        rcases hd.covered hf id hid with hrem | hc
        · rw [hr] at hrem
          cases hrem
        · exact absurd (hd.grounded id hc) hng
      | halted hs => rw [hq.halt] at hs; cases hs
      | blocked hs hf' => rw [hf] at hf'; cases hf'
      | deadlock hs hf hn hr => exact ⟨_, _, rfl, hd.deadlocked hs hf hn hr⟩
      | stranded hs hr hst =>
        rw [DagState.Stranded, settle_anyFailed_of_complete hd hi hq hs hf h.complete] at hst
        exact absurd hst.1 Bool.false_ne_true
  obtain ⟨e, s, hrun, hdead⟩ := hend
  refine ⟨e, s, hrun, ?_⟩
  obtain ⟨id, -, hg⟩ := h.runnable
  obtain ⟨t, ht, -⟩ := hdead.ran id hg
  exact ne_nil_of_mem ht

/-- **Errors and lost work.** For every crew and all outcomes of its tasks, whatever is cancelled or
times out: an error means that no task was executed, unless the crew is one of `LosesWork`. -/
theorem error_iff_nothing_ran (env : Env) (spec : CrewSpec) :
    (∀ env' : Env, env'.outcome = env.outcome → ∀ e s, crewRun env' spec = (.error e, s) →
      executed s.trace = []) ↔ ¬ LosesWork env.outcome spec := by
  constructor
  · intro hall hloses
    have hquieted : LosesWork env.quieted.outcome spec := hloses
    obtain ⟨e, s, hrun, hne⟩ := runDag_loses Env.quieted_quiet hquieted
    refine hne (hall env.quieted rfl e s ?_)
    rw [crewRun, runTasks, hloses.dag]
    simp only [hrun]
  · intro hloses env' hout e s hrun
    have hrun' := crewRun_error hrun
    unfold runTasks at hrun'
    split at hrun'
    · cases hrun'
    next hp =>
      have hlim : spec.process.maxConcurrency ≤ 0 := by rw [hp]; exact le_rfl
      rcases runDag_error hlim hrun' with ⟨-, rfl⟩ | ⟨hsort, hdead⟩
      · rfl
      · -- the deadlock arm: had anything run, the crew would be one of `LosesWork`
        by_contra hne
        obtain ⟨t, ht⟩ := exists_mem_of_ne_nil _ hne
        refine hloses ⟨hp, Scheduler.sortTasks_isSome_iff.1 hsort, hdead.stuck,
          ⟨t.id, (hdead.only t ht).here, hdead.only t ht⟩, fun id u hg hu => ?_⟩
        obtain ⟨v, -, hv, hc⟩ := hdead.ran id hg
        rw [hu] at hv
        cases hv
        rw [← hout]
        exact hc
    · cases hrun'
    · cases hrun'

/-- `a` can run, and `b` waits for a task the crew does not have. -/
def dangling : CrewSpec where
  id := "crew"
  name := "dangling"
  agents := []
  tasks :=
    [{ id := "a", description := "" },
      { id := "b", description := "", dependencies := ["missing"] }]
  process := .dag

/-- `a` is executed and completes, and the run returns the deadlock error and no result. -/
theorem error_after_work :
    (crewRun (quietEnv []) dangling).1 = .error (.scheduling deadlockText) ∧
      (executed (crewRun (quietEnv []) dangling).2.trace).map Task.id = ["a"] ∧
      (collected (crewRun (quietEnv []) dangling).2.trace).map TaskResult.status =
        [.completed] := by
  refine ⟨rfl, ?_, ?_⟩
  · decide
  · decide

end Agnosai.CrewRunner
