import Agnosai.Orchestrator.Scheduler.Topology
import Agnosai.Support.Machine

/-!
# Orchestrator — Scheduler — Ready

Working through a loaded DAG. A task is due when it is not complete and every edge into its key
comes from a task that is (`Due`). Since the DAG was accepted its edges into known keys have no
cycle and come from known keys: as long as a task is not complete, one is due.
-/

namespace Agnosai

open KeyMap List

/-- The ids of the tasks, in key order. -/
def TaskDag.ids (dag : TaskDag) : List String := dag.tasks.entries.map fun e => e.2.id

namespace Scheduler

variable {dag : TaskDag} {s₀ s : State} {completed ids : List String} {key : Bytes} {t : Task}

/-- The task under the key is complete. -/
def Done (dag : TaskDag) (completed : List String) (key : Bytes) : Prop :=
  ∃ t, dag.tasks.lookup key = some t ∧ t.id ∈ completed

/-- The task is not complete, and every edge into its key comes from a task that is. -/
def Due (dag : TaskDag) (completed : List String) (t : Task) : Prop :=
  ∃ key, dag.tasks.lookup key = some t ∧ t.id ∉ completed ∧
    ∀ dep, (dep, key) ∈ dag.edges → Done dag completed dep

/-- Working through a DAG: the state is what is complete, and an action completes some of the tasks
that are ready, at least one and each once. -/
def completion (s : State) : Machine (List String) (List String) where
  step completed ids :=
    if ids ≠ [] ∧ ids.Nodup ∧ ids ⊆ (readyTasks s completed).map Task.id then
      some (completed ++ ids) else none

theorem completion_step {completed' : List String}
    (h : (completion s).step completed ids = some completed') :
    completed' = completed ++ ids ∧ ids ≠ [] ∧ ids.Nodup ∧ ∀ id ∈ ids, ∃ t ∈ readyTasks s completed,
      t.id = id := by
  simp only [completion] at h
  split at h
  next hstep =>
    cases h
    exact ⟨rfl, hstep.1, hstep.2.1, fun id hid => mem_map.1 (hstep.2.2 hid)⟩
  · cases h

/-! ### The loaded DAG -/

/-- What a scheduler holds once it has accepted a DAG. -/
structure Loaded (dag : TaskDag) (s : State) : Prop where
  dagTasks : s.dagTasks = dag.tasks
  dagKeys : s.dagKeys = dag.tasks.keys
  dependencies : s.dependencies = (build dag).dependencies
  idToKey : s.idToKey = idsToKeys dag.tasks
  rooted : Rooted dag
  acyclic : Graph.Acyclic (Waits dag)

theorem loadDag_cases :
    loadDag s₀ dag = (false, s₀) ∨ ∃ s, loadDag s₀ dag = (true, s) ∧ Loaded dag s := by
  have harranged := topologicalSort_arranged dag
  rw [topologicalSort] at harranged
  unfold loadDag
  dsimp only
  split
  · exact .inl rfl
  next horder =>
    rw [horder] at harranged
    exact .inr ⟨_, rfl, rfl, rfl, rfl, rfl, harranged.1, harranged.2.1⟩

/-- With distinct ids, an id leads to the key of its task. -/
theorem lookup_idsToKeys (hids : dag.ids.Nodup) {id : String} :
    (idsToKeys dag.tasks).lookup id = some key ↔ ∃ t, dag.tasks.lookup key = some t ∧
      t.id = id := by
  have hfold : ∀ l : List (Bytes × Task), (l.map fun e => e.2.id).Nodup →
      ((l.foldl (fun m e => m.set e.2.id e.1) (empty : KeyMap String Bytes)).lookup id = some key ↔
        ∃ t, (key, t) ∈ l ∧ t.id = id) := by
    intro l
    induction l using reverseRecOn with
    | nil => simp
    | append_singleton l e ih =>
      intro hnodup
      rw [map_append, nodup_append] at hnodup
      rw [foldl_append, foldl_cons, foldl_nil, lookup_set]
      split
      next heq =>
        -- no earlier entry has this id
        have hnew : ∀ t, (key, t) ∈ l → t.id ≠ id := fun t ht hid =>
          hnodup.2.2 t.id (mem_map.2 ⟨(key, t), ht, rfl⟩) e.2.id (by simp) (hid.trans heq)
        constructor
        · intro h
          exact ⟨e.2, by simp [← Option.some.inj h], heq.symm⟩
        · rintro ⟨t, ht, hid⟩
          rcases mem_append.1 ht with ht | ht
          · exact absurd hid (hnew t ht)
          · rw [← mem_singleton.1 ht]
      next hne =>
        rw [ih hnodup.1]
        refine exists_congr fun t => and_congr_left fun hid => ?_
        rw [mem_append, mem_singleton]
        exact ⟨.inl, fun h => h.resolve_right fun heq => hne (by rw [← heq]; exact hid.symm)⟩
  rw [idsToKeys, hfold dag.tasks.entries hids]
  simp only [lookup_eq_some]

theorem mem_completedKeys (h : Loaded dag s) (hids : dag.ids.Nodup) :
    key ∈ completed.filterMap s.idToKey.lookup ↔ Done dag completed key := by
  simp only [mem_filterMap, h.idToKey, lookup_idsToKeys hids, Done]
  constructor
  · rintro ⟨id, hid, t, ht, rfl⟩
    exact ⟨t, ht, hid⟩
  · rintro ⟨t, ht, hid⟩
    exact ⟨t.id, hid, t, ht, rfl⟩

/-! ### What is ready -/

/-- A ready task waits for nothing. -/
theorem readyTask_some {completedKeys : List Bytes} :
    readyTask s completedKeys key = some t ↔ s.dagTasks.lookup key = some t ∧ key ∉ completedKeys ∧
      ∀ dep ∈ listed s.dependencies key, dep ∈ completedKeys := by
  unfold readyTask
  by_cases hdone : key ∈ completedKeys
  · simp [hdone]
  · by_cases hdeps : ((s.dependencies.lookup key).getD []).all (· ∈ completedKeys)
    · rw [if_neg hdone, if_pos hdeps]
      simp only [all_eq_true, decide_eq_true_eq] at hdeps
      exact (and_iff_left ⟨hdone, hdeps⟩).symm
    · rw [if_neg hdone, if_neg hdeps]
      simp only [all_eq_true, decide_eq_true_eq] at hdeps
      exact iff_of_false nofun fun h => hdeps h.2.2

/-- The tasks that are ready are those that are due. -/
theorem mem_readyTasks (h : Loaded dag s) (hids : dag.ids.Nodup) :
    t ∈ readyTasks s completed ↔ Due dag completed t := by
  rw [readyTasks, (perm_sortVec _).mem_iff, mem_filterMap]
  simp only [readyTask_some, mem_completedKeys h hids, h.dagTasks, h.dagKeys, h.dependencies,
    mem_dependencies]
  constructor
  · rintro ⟨key, -, ht, hout, hdeps⟩
    exact ⟨key, ht, fun hid => hout ⟨t, ht, hid⟩, hdeps⟩
  · rintro ⟨key, ht, hout, hdeps⟩
    refine ⟨key, mem_keys.2 (Option.isSome_of_eq_some ht), ht, ?_, hdeps⟩
    rintro ⟨u, hu, hid⟩
    rw [ht] at hu
    exact hout (Option.some.inj hu ▸ hid)

instance : Std.Total PriorityGe := ⟨fun a b => le_total b.priority a.priority⟩

instance : IsTrans Task PriorityGe := ⟨fun _ _ _ hab hbc => le_trans hbc hab⟩

theorem filterMap_sublist_map {α β : Type*} {f : α → Option β} {g : α → β} {l : List α}
    (h : ∀ a ∈ l, ∀ b, f a = some b → b = g a) : (l.filterMap f).Sublist (l.map g) := by
  induction l with
  | nil => exact .slnil
  | cons a l ih =>
    obtain ⟨ha, hl⟩ := forall_mem_cons.1 h
    cases hf : f a with
    | none =>
      rw [filterMap_cons_none hf]
      exact (ih hl).cons (g a)
    | some b =>
      rw [filterMap_cons_some hf, ha b hf]
      exact (ih hl).cons_cons (g a)

/-- Tasks of one priority are ready in key order. -/
theorem readyTasks_keyOrder (h : Loaded dag s) (p : Int) :
    ((readyTasks s completed).filter fun t => t.priority = p).Sublist
      (dag.tasks.entries.map Prod.snd) := by
  rw [readyTasks, filter_sortVec PriorityGe fun a b ha hb => by
    rw [PriorityGe, of_decide_eq_true ha, of_decide_eq_true hb]]
  refine filter_sublist.trans ?_
  rw [h.dagKeys, KeyMap.keys, filterMap_map]
  refine filterMap_sublist_map fun e he u hu => ?_
  have hlookup := (readyTask_some.1 hu).1
  rw [h.dagTasks, lookup_eq_some.2 he] at hlookup
  exact (Option.some.inj hlookup).symm

/-! ### Working through -/

/-- Each completed id is that of a task, and none is complete twice. -/
structure Work (dag : TaskDag) (completed : List String) : Prop where
  nodup : completed.Nodup
  known : completed ⊆ dag.ids

theorem Due.mem_ids (h : Due dag completed t) : t.id ∈ dag.ids := by
  obtain ⟨key, hkey, -⟩ := h
  exact mem_map.2 ⟨(key, t), lookup_eq_some.1 hkey, rfl⟩

/-- Every completion leaves less to do. -/
theorem Work.step (hload : Loaded dag s) (hids : dag.ids.Nodup) (h : Work dag completed)
    {completed' : List String} (hs : (completion s).step completed ids = some completed') :
    Work dag completed' ∧ dag.ids.length - completed'.length <
      dag.ids.length - completed.length := by
  obtain ⟨rfl, hne, hnodup, hready⟩ := completion_step hs
  have hdue : ∀ id ∈ ids, id ∉ completed ∧ id ∈ dag.ids := by
    intro id hid
    obtain ⟨t, ht, rfl⟩ := hready id hid
    have hdue := (mem_readyTasks hload hids).1 ht
    obtain ⟨-, -, hout, -⟩ := id hdue
    exact ⟨hout, hdue.mem_ids⟩
  have hwork : Work dag (completed ++ ids) := by
    refine ⟨nodup_append.2 ⟨h.nodup, hnodup, ?_⟩,
      append_subset.2 ⟨h.known, fun id hid => (hdue id hid).2⟩⟩
    rintro a ha b hb rfl
    exact (hdue a hb).1 ha
  have hle := (subperm_of_subset hwork.nodup hwork.known).length_le
  have hpos := length_pos_iff.2 hne
  rw [length_append] at hle ⊢
  exact ⟨hwork, by omega⟩

/-- **Progress.** As long as a task is not complete, one is due. -/
theorem exists_due (hload : Loaded dag s) (h : ¬ dag.ids ⊆ completed) :
    ∃ t, Due dag completed t := by
  classical
  let left := dag.tasks.keys.filter fun key => ¬ Done dag completed key
  have hleft : ∀ key, key ∈ left ↔ key ∈ dag.tasks.keys ∧ ¬ Done dag completed key := by
    intro key
    simp [left]
  have hne : left ≠ [] := by
    intro hnil
    refine h fun id hid => ?_
    obtain ⟨⟨key, t⟩, he, rfl⟩ := mem_map.1 hid
    have hkey : key ∈ dag.tasks.keys := mem_map.2 ⟨(key, t), he, rfl⟩
    by_contra hout
    refine not_mem_nil (hnil ▸ (hleft key).2 ⟨hkey, ?_⟩)
    rintro ⟨u, hu, hin⟩
    rw [lookup_eq_some.2 he] at hu
    exact hout (Option.some.inj hu ▸ hin)
  obtain ⟨key, hin, hmin⟩ := hload.acyclic.exists_minimal hne
  obtain ⟨hkey, hopen⟩ := (hleft key).1 hin
  obtain ⟨t, ht⟩ := Option.isSome_iff_exists.1 (mem_keys.1 hkey)
  refine ⟨t, key, ht, fun hid => hopen ⟨t, ht, hid⟩, fun dep he => ?_⟩
  -- the key waits for none that is left, so what it waits for is complete
  have hdep := hload.rooted dep key he hkey
  by_contra hnot
  exact hmin dep ((hleft dep).2 ⟨hdep, hnot⟩) ⟨he, hkey, hdep⟩

/-- Nothing is ready just at the end. -/
theorem readyTasks_eq_nil (hload : Loaded dag s) (hids : dag.ids.Nodup) (h : Work dag completed) :
    readyTasks s completed = [] ↔ completed.Perm dag.ids := by
  constructor
  · intro hnil
    refine (perm_ext_iff_of_nodup h.nodup hids).2 fun id => ⟨fun hid => h.known hid, ?_⟩
    by_contra hnot
    obtain ⟨t, ht⟩ := exists_due hload fun hall => hnot (@hall id)
    exact not_mem_nil (hnil ▸ (mem_readyTasks hload hids).2 ht)
  · intro hperm
    refine eq_nil_iff_forall_not_mem.2 fun t ht => ?_
    have hdue := (mem_readyTasks hload hids).1 ht
    obtain ⟨-, -, hout, -⟩ := id hdue
    exact hout (hperm.mem_iff.2 hdue.mem_ids)

/-- **Working through a DAG.** Take a DAG that was loaded, its tasks with distinct ids, and complete
any ready tasks, some at a time, in any way. At every point the tasks that are ready are those that
are not complete while all they depend on is, by descending priority and in key order within one.
There is one until every task has been completed once, and that is after as many actions as there
are tasks at most. A DAG that is refused leaves the scheduler as it was. -/
theorem readyTasks_correct (s₀ s : State) (dag : TaskDag) (hids : dag.ids.Nodup)
    (hload : loadDag s₀ dag = (true, s)) :
    (∀ acts completed, (completion s).exec [] acts = some completed →
      (∀ t, t ∈ readyTasks s completed ↔ Due dag completed t) ∧
      (readyTasks s completed).Pairwise PriorityGe ∧
      (∀ p, ((readyTasks s completed).filter fun t => t.priority = p).Sublist
        (dag.tasks.entries.map Prod.snd)) ∧
      (readyTasks s completed = [] ↔ completed.Perm dag.ids) ∧
      completed.Nodup ∧ acts.length ≤ dag.ids.length) ∧
    ∀ dag' s', loadDag s dag' = (false, s') → s' = s := by
  have hloaded : Loaded dag s := by
    obtain hfail | ⟨s', heq, hloaded⟩ := loadDag_cases
    · rw [hfail] at hload
      cases hload
    · rw [heq] at hload
      cases hload
      exact hloaded
  have hstart : Work dag [] := ⟨nodup_nil, nil_subset _⟩
  constructor
  · intro acts completed hrun
    have hwork :=
      (completion s).exec_invariant hstart (fun _ _ _ h hs => (h.step hloaded hids hs).1) hrun
    have hlength := (completion s).exec_length_le (fun c => dag.ids.length - c.length)
      (fun _ _ _ h hs => h.step hloaded hids hs) hstart hrun
    refine ⟨fun t => mem_readyTasks hloaded hids, pairwise_sortVec _ _, readyTasks_keyOrder hloaded,
      readyTasks_eq_nil hloaded hids hwork, hwork.nodup, ?_⟩
    omega
  · intro dag' s' hfail
    obtain heq | ⟨s'', heq, -⟩ := loadDag_cases
    · rw [heq] at hfail
      cases hfail
      rfl
    · rw [heq] at hfail
      cases hfail

/-- Two tasks of different priorities that wait for a third, one of them by an edge listed twice. -/
def brunch : TaskDag where
  tasks := ⟨[([2], { id := "toast", description := "" }),
    ([1], { id := "eggs", description := "", priority := 4 }),
    ([0], { id := "shop", description := "" })], by decide⟩
  edges := [([0], [1]), ([0], [2]), ([0], [1])]

theorem readyTasks_correct_brunch : ∃ s, loadDag {} brunch = (true, s) ∧
    (completion s).exec [] [["shop"], ["toast"]] = some ["shop", "toast"] ∧
    readyTasks s ["shop", "toast"] ≠ [] := by
  obtain ⟨s, hs⟩ : ∃ s, loadDag {} brunch = (true, s) := ⟨_, Prod.ext (by decide +kernel) rfl⟩
  have hrun : (completion (loadDag {} brunch).2).exec [] [["shop"], ["toast"]] =
      some ["shop", "toast"] := by
    decide +kernel
  rw [hs] at hrun
  obtain ⟨-, -, -, hnil, -, -⟩ := (readyTasks_correct {} s brunch (by decide) hs).1 _ _ hrun
  refine ⟨s, hs, hrun, fun h => ?_⟩
  exact absurd (hnil.1 h).length_eq (by decide)

end Scheduler

end Agnosai
