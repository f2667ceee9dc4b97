import Agnosai.Orchestrator.Scheduler

/-!
# Orchestrator — Scheduler — Greedy

What `agnosai_topological_sort_tasks_a` returns for tasks with distinct ids, in terms of the ids
alone. A task is free once every dependency of it that is listed has gone before (`Free`), and the
next id is that of the free task with the highest priority, the earliest of the input on a tie
(`Picked`).
-/

namespace Agnosai.Scheduler

open List

variable {tasks : List Task}

variable (tasks)

/-- The task `x` names `y`, and both are listed. -/
def Listed (x y : String) : Prop :=
  DependsOn tasks x y ∧ y ∈ tasks.map Task.id

/-- The task has not gone, and every dependency of it that is listed has. -/
def Free (gone : List String) (t : Task) : Prop :=
  t.id ∉ gone ∧ ∀ dep ∈ t.dependencies, dep ∈ tasks.map Task.id → dep ∈ gone

/-- `id` is that of the free task with the highest priority, the earliest on a tie. -/
def Picked (gone : List String) (id : String) : Prop :=
  ∃ pre t post, tasks = pre ++ t :: post ∧ t.id = id ∧ Free tasks gone t ∧
    (∀ u ∈ pre, Free tasks gone u → u.priority < t.priority) ∧
    ∀ u ∈ post, Free tasks gone u → u.priority ≤ t.priority

/-! ### The positions taken -/

/-- What each position still waits for once those of `taken` are taken. -/
def degrees (taken : List Nat) (c : Nat) : Int :=
  Kahn.waiting (edges tasks) taken c

/-- Each position was the best when it was taken. -/
def Greedy (taken : List Nat) : Prop :=
  ∀ l₁ c l₂, taken = l₁ ++ c :: l₂ → Scanned tasks (degrees tasks l₁) l₁ tasks.length (some c)

variable {tasks}

theorem greedy_nil : Greedy tasks [] := by
  intro l₁ c l₂ h
  exact absurd h.symm (append_ne_nil_of_right_ne_nil l₁ (cons_ne_nil c l₂))

variable {taken : List Nat}

theorem Greedy.snoc {best : Nat} (h : Greedy tasks taken)
    (hbest : Scanned tasks (degrees tasks taken) taken tasks.length (some best)) :
    Greedy tasks (taken ++ [best]) := by
  intro l₁ c l₂ heq
  obtain ⟨-, rfl, rfl⟩ | ⟨l₂, -, heq⟩ := snoc_eq_append_cons heq
  · exact hbest
  · exact h l₁ c l₂ heq

/-- An order that is returned lists all positions, each the best when it was taken. -/
theorem sortTasks_taken {order : List String} (h : sortTasks tasks = some order) :
    ∃ taken : List Nat, order = taken.map (idAt tasks) ∧ (∀ c ∈ taken, c < tasks.length) ∧
      Greedy tasks taken := by
  have hspec :=
    (sortLoop tasks).run_rule sortLoop_step (I := fun s => SortInv tasks s ∧ Greedy tasks s.taken)
    (Q := fun r => ∀ order, r = some order → ∃ taken : List Nat, order = taken.map (idAt tasks) ∧
      (∀ c ∈ taken, c < tasks.length) ∧ Greedy tasks taken) ?_ ?_ ⟨SortInv.init, greedy_nil⟩
  · exact hspec order h
  · rintro s s' ⟨hinv, hgreedy⟩ ⟨best, heq, rfl⟩
    refine ⟨hinv.take heq, hgreedy.snoc ?_⟩
    have hpick := pickBest_spec tasks s.inDegree s.taken
    rwa [heq, show s.inDegree = degrees tasks s.taken from funext hinv.kahn.inDegree] at hpick
  · rintro s r ⟨hinv, hgreedy⟩ (⟨-, -, rfl⟩ | ⟨-, rfl⟩) order heq
    · cases heq
    · cases heq
      exact ⟨s.taken, rfl, hinv.bound, hgreedy⟩

/-! ### From positions to ids -/

theorem idAt_of_getElem? {i : Nat} {t : Task} (h : tasks[i]? = some t) : idAt tasks i = t.id := by
  simp [idAt, h]

theorem priorityAt_of_getElem? {i : Nat} {t : Task} (h : tasks[i]? = some t) :
    priorityAt tasks i = t.priority := by
  simp [priorityAt, h]

/-- Distinct ids tell the positions apart. -/
theorem idAt_inj (hids : (tasks.map Task.id).Nodup) {a b : Nat} (ha : a < tasks.length)
    (hb : b < tasks.length) (h : idAt tasks a = idAt tasks b) : a = b := by
  rw [← map_idAt_range] at hids
  exact inj_on_of_nodup_map hids (mem_range.2 ha) (mem_range.2 hb) h

/-- A listed id has a position. -/
theorem indexOfId_of_mem {id : String} (h : id ∈ tasks.map Task.id) :
    ∃ b, indexOfId tasks id = some b := by
  obtain ⟨t, ht, hid⟩ := mem_map.1 h
  rw [← Option.isSome_iff_exists, indexOfId, findIdx?_isSome, any_eq_true]
  exact ⟨t, ht, by simp [hid]⟩

theorem mem_ids_of_indexOfId {id : String} {b : Nat} (h : indexOfId tasks id = some b) :
    id ∈ tasks.map Task.id := by
  obtain ⟨hb, hid⟩ := indexOfId_some h
  rw [← hid, ← map_idAt_range]
  exact mem_map_of_mem (mem_range.2 hb)

section

variable (hids : (tasks.map Task.id).Nodup)
include hids

/-- A task is free exactly when its position is ready. -/
theorem free_iff_ready
    (htaken : ∀ c ∈ taken, c < tasks.length) {c : Nat} {t : Task} (hc : tasks[c]? = some t) :
    Free tasks (taken.map (idAt tasks)) t ↔ Ready (degrees tasks taken) taken c := by
  have hlt : c < tasks.length := (List.getElem?_eq_some_iff.1 hc).1
  have hmem : ∀ {b}, b < tasks.length → (idAt tasks b ∈ taken.map (idAt tasks) ↔ b ∈ taken) := by
    intro b hb
    refine ⟨fun h => ?_, mem_map_of_mem⟩
    obtain ⟨b', hb', hid⟩ := mem_map.1 h
    exact idAt_inj hids (htaken b' hb') hb hid ▸ hb'
  have hzero : degrees tasks taken c = 0 ↔ ∀ b, (c, b) ∈ edges tasks → b ∈ taken := by
    simp only [degrees, Int.natCast_eq_zero, Kahn.waiting, countP_eq_zero,
      decide_eq_true_eq, not_and, not_not]
    constructor
    · intro hz b hb
      exact hz (c, b) hb rfl
    · rintro hz ⟨c', b⟩ he rfl
      exact hz b he
  rw [Free, Ready, hzero, ← idAt_of_getElem? hc, hmem hlt]
  refine and_congr_right fun _ => ⟨fun hdeps b he => ?_, fun hall dep hdep hlisted => ?_⟩
  · obtain ⟨t', ht', dep, hdep, hb⟩ := mem_edges.1 he
    obtain rfl : t = t' := Option.some_inj.1 (hc.symm.trans ht')
    have hgone := hdeps dep hdep (mem_ids_of_indexOfId hb)
    rw [← (indexOfId_some hb).2] at hgone
    exact (hmem (indexOfId_some hb).1).1 hgone
  · obtain ⟨b, hb⟩ := indexOfId_of_mem hlisted
    rw [← (indexOfId_some hb).2]
    exact mem_map_of_mem (hall b (mem_edges.2 ⟨t, hc, dep, hdep, hb⟩))

/-- The best position has the id that is picked. -/
theorem picked_of_scanned (htaken : ∀ c ∈ taken, c < tasks.length) {c : Nat}
    (h : Scanned tasks (degrees tasks taken) taken tasks.length (some c)) :
    Picked tasks (taken.map (idAt tasks)) (idAt tasks c) := by
  obtain ⟨hc, hready, hbest⟩ := h
  have hget : tasks[c]? = some tasks[c] := getElem?_eq_getElem hc
  have hbeats : ∀ i (hi : i < tasks.length), Free tasks (taken.map (idAt tasks)) tasks[i] →
      tasks[i].priority ≤ tasks[c].priority ∧ (i < c → tasks[i].priority < tasks[c].priority) := by
    intro i hi hfree
    have hgeti : tasks[i]? = some tasks[i] := getElem?_eq_getElem hi
    have hle := hbest i hi ((free_iff_ready hids htaken hgeti).1 hfree)
    rwa [priorityAt_of_getElem? hgeti, priorityAt_of_getElem? hget] at hle
  refine ⟨tasks.take c, tasks[c], tasks.drop (c + 1), ?_, (idAt_of_getElem? hget).symm,
    (free_iff_ready hids htaken hget).2 hready, ?_, ?_⟩
  · rw [getElem_cons_drop, take_append_drop]
  · intro u hu hfree
    obtain ⟨i, hi, rfl⟩ := mem_take_iff_getElem.1 hu
    exact (hbeats i (by omega) hfree).2 (by omega)
  · intro u hu hfree
    obtain ⟨i, hi, rfl⟩ := mem_drop_iff_getElem.1 hu
    exact (hbeats _ _ hfree).1

/-- The listed dependencies have a cycle exactly when the counted positions have. -/
theorem acyclic_edges_iff :
    (Graph.Acyclic fun a b => (a, b) ∈ edges tasks) ↔ Graph.Acyclic (Listed tasks) := by
  constructor
  · intro h x hx
    refine h ((indexOfId tasks x).getD 0) (hx.lift (fun id => (indexOfId tasks id).getD 0) ?_)
    rintro x y ⟨⟨t, ht, rfl, hy⟩, hlisted⟩
    obtain ⟨a, ha⟩ := indexOfId_of_mem (mem_map_of_mem ht)
    obtain ⟨b, hb⟩ := indexOfId_of_mem hlisted
    simp only [Function.onFun, ha, hb, Option.getD_some]
    obtain ⟨i, hi, rfl⟩ := mem_iff_getElem.1 ht
    have hget : tasks[i]? = some tasks[i] := getElem?_eq_getElem hi
    obtain ⟨halt, hid⟩ := indexOfId_some ha
    obtain rfl : a = i := idAt_inj hids halt hi (hid.trans (idAt_of_getElem? hget).symm)
    exact mem_edges.2 ⟨tasks[a], hget, y, hy, hb⟩
  · intro h a ha
    refine h (idAt tasks a) (ha.lift (idAt tasks) fun a b he => ⟨dependsOn_of_mem_edges he, ?_⟩)
    rw [← map_idAt_range]
    exact mem_map_of_mem (mem_range.2 (lt_of_mem_edges he).2)

/-! ### The order -/

/-- What was picked has its listed dependencies gone. -/
theorem Picked.deps {gone : List String} {x y : String}
    (h : Picked tasks gone x) (hxy : Listed tasks x y) : y ∈ gone := by
  obtain ⟨pre, t, post, heq, rfl, ⟨-, hdeps⟩, -, -⟩ := h
  obtain ⟨⟨t', ht', hid, hy⟩, hlisted⟩ := hxy
  have ht : t ∈ tasks := by simp [heq]
  obtain rfl := inj_on_of_nodup_map hids ht' ht hid
  exact hdeps y hy hlisted

end

/-- **The sort of tasks with distinct ids.** It returns an order exactly when the dependencies
between listed tasks have no cycle. The order is a permutation of the ids, a task's listed
dependencies come before it, and each element is the free task of the highest priority, the earliest
in the input on a tie. -/
theorem sortTasks_greedy (tasks : List Task) (hids : (tasks.map Task.id).Nodup) :
    ((sortTasks tasks).isSome ↔ Graph.Acyclic (Listed tasks)) ∧
      ∀ order, sortTasks tasks = some order →
        order.Perm (tasks.map Task.id) ∧
        ∀ l₁ id l₂, order = l₁ ++ id :: l₂ →
          (∀ dep, Listed tasks id dep → dep ∈ l₁) ∧ Picked tasks l₁ id := by
  refine ⟨sortTasks_isSome_iff.trans (acyclic_edges_iff hids), fun order horder => ?_⟩
  refine ⟨sortTasks_perm horder, fun l₁ id l₂ hsplit => ?_⟩
  obtain ⟨taken, rfl, hbound, hgreedy⟩ := sortTasks_taken horder
  obtain ⟨t₁, t₂, rfl, rfl, htail⟩ := map_eq_append_iff.1 hsplit
  obtain ⟨c, t₃, rfl, rfl, -⟩ := map_eq_cons_iff.1 htail
  have hpicked := picked_of_scanned hids (fun c hc => hbound c (mem_append_left _ hc))
    (hgreedy t₁ c t₃ rfl)
  exact ⟨fun dep hdep => hpicked.deps hids hdep, hpicked⟩

/-- A task that waits twice for a listed one and once for an unlisted one, and one of a higher
priority. -/
def errands : List Task :=
  [{ id := "report", description := "", dependencies := ["draft", "data", "draft"] },
    { id := "draft", description := "", priority := 1 },
    { id := "mail", description := "", priority := 3 }]

theorem sortTasks_greedy_errands : sortTasks errands = some ["mail", "draft", "report"] ∧
    Picked errands ["mail"] "draft" := by
  have horder : sortTasks errands = some ["mail", "draft", "report"] := by decide +kernel
  obtain ⟨-, hpicked⟩ := (sortTasks_greedy errands (by decide)).2 _ horder
  exact ⟨horder, (hpicked ["mail"] "draft" ["report"] rfl).2⟩

end Agnosai.Scheduler
