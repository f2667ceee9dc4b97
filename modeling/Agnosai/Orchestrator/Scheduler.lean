import Agnosai.Core.Task
import Agnosai.Support.Kahn
import Agnosai.Support.Loop

/-!
# Orchestrator — Scheduler

The ordering of a crew's tasks, `agnosai_topological_sort_tasks_a`. The source resolves each
dependency to the first task of that id, counts it, and then takes, again and again, the task of
the highest priority that waits for nothing, the earliest of them on a tie. The flags `taken` and
the growing `order` of the source are one list of positions here, in the order they were taken.
-/

namespace Agnosai.Scheduler

open List

open Kahn (Tally)

variable (tasks : List Task)

/-- The position of the first task with this id. -/
def indexOfId (id : String) : Option Nat :=
  tasks.findIdx? (·.id == id)

def idAt (i : Nat) : String :=
  (tasks[i]?.map Task.id).getD ""

/-- The priority of the task at a position. -/
def priorityAt (i : Nat) : Int :=
  (tasks[i]?.map Task.priority).getD 0

/-- Count the dependencies of the task at position `a`. -/
def countDeps (a : Nat) (t : Tally Nat) (deps : List String) : Tally Nat :=
  deps.foldl
    (fun t dep =>
      match indexOfId tasks dep with
      | some b => t.add a b
      | none => t)
    t

/-- The `in_degree` and `dependents` vectors. -/
def countEdges : Tally Nat :=
  tasks.zipIdx.foldl (fun t p => countDeps tasks p.2 t p.1.dependencies) .empty

variable (inDegree : Nat → Int)

/-- One look of the scan: position `c` against the best found so far. -/
def scanStep (taken : List Nat) (best : Option Nat)
    (c : Nat) : Option Nat :=
  if c ∈ taken then best
  else if inDegree c ≠ 0 then best
  else
    match best with
    | none => some c
    | some b => if priorityAt tasks b < priorityAt tasks c then some c else some b

/-- The scan for the next task: the highest priority among those that wait for nothing, the
earliest on a tie. -/
def pickBest (taken : List Nat) : Option Nat :=
  (range tasks.length).foldl (scanStep tasks inDegree taken) none

/-- Where the sort is: the counts, and the positions taken. -/
structure SortState where
  inDegree : Nat → Int
  taken : List Nat

/-- The sort's `while`. -/
def sortLoop : Loop SortState (Option (List String)) where
  step s :=
    if s.taken.length < tasks.length then
      match pickBest tasks s.inDegree s.taken with
      | none => .inr none
      | some best =>
        .inl
          { inDegree := Kahn.release ((countEdges tasks).dependents best) s.inDegree
            taken := s.taken ++ [best] }
    else .inr (some (s.taken.map (idAt tasks)))
  measure s := tasks.length - s.taken.length
  decreasing {s s'} h := by
    split at h
    next hlt =>
      split at h
      · cases h
      · cases h
        simp only [length_append, length_singleton]
        omega
    · cases h

/-- `agnosai_topological_sort_tasks_a`: the ids in order, or `none` on a cycle. -/
def sortTasks : Option (List String) :=
  (sortLoop tasks).run { inDegree := (countEdges tasks).inDegree, taken := [] }

/-! ### The edges that are counted -/

/-- The edges the sort counts: each dependency that resolves, by position. -/
def edges : List (Nat × Nat) :=
  tasks.zipIdx.flatMap fun p =>
    p.1.dependencies.filterMap fun dep => (indexOfId tasks dep).map (p.2, ·)

variable {tasks : List Task} {b a : Nat}

theorem mem_edges : (a, b) ∈ edges tasks ↔
      ∃ t, tasks[a]? = some t ∧ ∃ dep ∈ t.dependencies, indexOfId tasks dep = some b := by
  simp only [edges, mem_flatMap, mem_filterMap, Option.map_eq_some_iff, Prod.mk.injEq,
    Prod.exists, mem_zipIdx_iff_getElem?]
  constructor
  · rintro ⟨t, a', ht, dep, hd, b', hb, rfl, rfl⟩
    exact ⟨t, ht, dep, hd, hb⟩
  · rintro ⟨t, ht, dep, hd, hb⟩
    exact ⟨t, a, ht, dep, hd, b, hb, rfl, rfl⟩

theorem countDeps_eq (t : Tally Nat) (deps : List String) :
    countDeps tasks a t deps
      = (deps.filterMap fun dep => (indexOfId tasks dep).map (a, ·)).foldl
          (fun t e => t.add e.1 e.2) t := by
  induction deps generalizing t with
  | nil => rfl
  | cons dep deps ih =>
    rw [countDeps, foldl_cons, ← countDeps, ih, filterMap_cons]
    cases indexOfId tasks dep with
    | none => rfl
    | some => rfl

/-- The source's two nested loops count exactly `edges`. -/
theorem countEdges_eq : countEdges tasks = Kahn.tally (edges tasks) := by
  have h : ∀ (l : List (Task × Nat)) (t : Tally Nat),
      l.foldl (fun t p => countDeps tasks p.2 t p.1.dependencies) t
        = (l.flatMap fun p =>
            p.1.dependencies.filterMap fun dep => (indexOfId tasks dep).map (p.2, ·)).foldl
          (fun t e => t.add e.1 e.2) t := by
    intro l
    induction l with
    | nil => exact fun _ => rfl
    | cons p l ih =>
      intro t
      rw [foldl_cons, ih, flatMap_cons, foldl_append, countDeps_eq]
  exact h tasks.zipIdx .empty

theorem indexOfId_some {id : String}
    (h : indexOfId tasks id = some b) : b < tasks.length ∧ idAt tasks b = id := by
  obtain ⟨hb, hid, -⟩ := findIdx?_eq_some_iff_getElem.1 h
  exact ⟨hb, by simpa [idAt, hb] using hid⟩

theorem lt_of_mem_edges (h : (a, b) ∈ edges tasks) : a < tasks.length ∧ b < tasks.length := by
  obtain ⟨t, ht, dep, -, hb⟩ := mem_edges.1 h
  exact ⟨(List.getElem?_eq_some_iff.1 ht).1, (indexOfId_some hb).1⟩

/-- An edge between positions is a dependency between the ids there. -/
theorem dependsOn_of_mem_edges (h : (a, b) ∈ edges tasks) :
    DependsOn tasks (idAt tasks a) (idAt tasks b) := by
  obtain ⟨t, ht, dep, hd, hb⟩ := mem_edges.1 h
  refine ⟨t, mem_of_getElem? ht, ?_, ?_⟩
  · simp [idAt, ht]
  · rw [(indexOfId_some hb).2]
    exact hd

/-! ### The scan -/

/-- The task at `c` is not taken and waits for nothing. -/
def Ready (taken : List Nat) (c : Nat) : Prop :=
  c ∉ taken ∧ inDegree c = 0

/-- What the scan has found after the first `k` positions. -/
def Scanned (tasks : List Task) (inDegree : Nat → Int) (taken : List Nat) (k : Nat) :
    Option Nat → Prop
  | none => ∀ c < k, ¬ Ready inDegree taken c
  | some b => b < k ∧ Ready inDegree taken b ∧
      ∀ c < k, Ready inDegree taken c →
        priorityAt tasks c ≤ priorityAt tasks b ∧
          (c < b → priorityAt tasks c < priorityAt tasks b)

variable {tasks : List Task} {inDegree : Nat → Int} {taken : List Nat}

/-- One index of the scan. -/
theorem scanned_step {k : Nat} {best : Option Nat} (h : Scanned tasks inDegree taken k best) :
    Scanned tasks inDegree taken (k + 1) (scanStep tasks inDegree taken best k) := by
  -- a position that is not ready leaves the best as it was
  have hskip : ¬ Ready inDegree taken k → Scanned tasks inDegree taken (k + 1) best := by
    intro hk
    cases best with
    | none =>
      intro c hc hr
      rcases Nat.lt_succ_iff_lt_or_eq.1 hc with hlt | rfl
      · exact h c hlt hr
      · exact hk hr
    | some =>
      obtain ⟨hb, hbr, hmax⟩ := h
      refine ⟨Nat.lt_succ_of_lt hb, hbr, fun c hc hr => ?_⟩
      rcases Nat.lt_succ_iff_lt_or_eq.1 hc with hlt | rfl
      · exact hmax c hlt hr
      · exact absurd hr hk
  unfold scanStep
  split
  next hin =>
    exact hskip fun hr => hr.1 hin
  next hout =>
    split
    next hdeg =>
      exact hskip fun hr => hdeg hr.2
    next hdeg =>
      have hk : Ready inDegree taken k := ⟨hout, not_not.1 hdeg⟩
      cases best with
      | none =>
        refine ⟨Nat.lt_succ_self k, hk, fun c hc hr => ?_⟩
        rcases Nat.lt_succ_iff_lt_or_eq.1 hc with hlt | rfl
        · exact absurd hr (h c hlt)
        · exact ⟨le_rfl, fun hlt => absurd hlt (lt_irrefl _)⟩
      | some =>
        obtain ⟨hb, hbr, hmax⟩ := h
        dsimp only
        split
        · refine ⟨Nat.lt_succ_self k, hk, fun c hc hr => ?_⟩
          rcases Nat.lt_succ_iff_lt_or_eq.1 hc with hck | rfl
          · have hcb := (hmax c hck hr).1
            exact ⟨by omega, fun _ => by omega⟩
          · exact ⟨le_rfl, fun hcc => absurd hcc (lt_irrefl _)⟩
        · refine ⟨Nat.lt_succ_of_lt hb, hbr, fun c hc hr => ?_⟩
          rcases Nat.lt_succ_iff_lt_or_eq.1 hc with hck | rfl
          · exact hmax c hck hr
          · exact ⟨by omega, fun hcb => by omega⟩

/-- **The scan.** It finds a ready task whenever there is one, and then one no ready task beats. -/
theorem pickBest_spec (tasks : List Task) (inDegree : Nat → Int) (taken : List Nat) :
    Scanned tasks inDegree taken tasks.length (pickBest tasks inDegree taken) := by
  unfold pickBest
  generalize tasks.length = n
  induction n with
  | zero => exact fun c hc => absurd hc (Nat.not_lt_zero c)
  | succ n ih =>
    rw [range_succ, foldl_append]
    exact scanned_step ih

/-! ### The loop -/

/-- What holds at each round of the sort. -/
structure SortInv (tasks : List Task) (s : SortState) : Prop where
  kahn : Kahn.Inv (edges tasks) s.taken s.inDegree
  bound : ∀ c ∈ s.taken, c < tasks.length

theorem SortInv.init : SortInv tasks { inDegree := (countEdges tasks).inDegree, taken := [] } where
  kahn := by
    rw [countEdges_eq]
    exact Kahn.Inv.init
  bound := nofun

/-- A round takes what the scan found. The sort leaves when the scan finds nothing, or when there
is nothing left to take. -/
theorem sortLoop_step (s : SortState) : Sum.elim
    (fun s' => ∃ best, pickBest tasks s.inDegree s.taken = some best ∧ s' =
      { inDegree := Kahn.release ((countEdges tasks).dependents best) s.inDegree
        taken := s.taken ++ [best] })
    (fun r => s.taken.length < tasks.length ∧ pickBest tasks s.inDegree s.taken = none ∧ r = none ∨
      tasks.length ≤ s.taken.length ∧ r = some (s.taken.map (idAt tasks)))
    ((sortLoop tasks).step s) := by
  simp only [sortLoop]
  split
  next hlt =>
    split
    next heq => exact .inl ⟨hlt, heq, rfl⟩
    next best heq => exact ⟨best, heq, rfl⟩
  next hge => exact .inr ⟨Nat.le_of_not_lt hge, rfl⟩

theorem SortInv.take {s : SortState} (h : SortInv tasks s) {best : Nat}
    (heq : pickBest tasks s.inDegree s.taken = some best) :
    SortInv tasks
      { inDegree := Kahn.release ((countEdges tasks).dependents best) s.inDegree
        taken := s.taken ++ [best] } := by
  have hpick := pickBest_spec tasks s.inDegree s.taken
  rw [heq] at hpick
  obtain ⟨hb, ⟨hbt, hb0⟩, -⟩ := hpick
  refine ⟨?_, ?_⟩
  · rw [countEdges_eq]
    exact h.kahn.take hbt hb0
  · intro c hc
    rcases mem_append.1 hc with hc | hc
    · exact h.bound c hc
    · rw [mem_singleton.1 hc]
      exact hb

/-- What the sort's result says: an order is a permutation of the positions in which every counted
edge points back, and none is a cycle. -/
def Sorted (tasks : List Task) : Option (List String) → Prop
  | none => ¬ Graph.Acyclic fun a b => (a, b) ∈ edges tasks
  | some order => (Graph.Acyclic fun a b => (a, b) ∈ edges tasks) ∧
      ∃ taken : List Nat, order = taken.map (idAt tasks) ∧
        taken.Perm (range tasks.length)

/-- Once as many positions are taken as there are, they are all of them. -/
theorem SortInv.perm {s : SortState} (h : SortInv tasks s) (hge : tasks.length ≤ s.taken.length) :
    s.taken.Perm (range tasks.length) := by
  have hsub : s.taken ⊆ range tasks.length := fun c hc => mem_range.2 (h.bound c hc)
  refine (subperm_of_subset h.kahn.nodup hsub).perm_of_length_le ?_
  rw [length_range]
  exact hge

/-- The scheduler's sort sorts. -/
theorem sortTasks_sorted (tasks : List Task) : Sorted tasks (sortTasks tasks) := by
  refine (sortLoop tasks).run_rule sortLoop_step ?_ ?_ SortInv.init
  · rintro s s' h ⟨best, heq, rfl⟩
    exact h.take heq
  rintro s r h (⟨hlt, heq, rfl⟩ | ⟨hge, rfl⟩)
  · have hpick := pickBest_spec tasks s.inDegree s.taken
    rw [heq] at hpick
    intro ha
    -- fewer positions are taken than there are, so one is left, and then one is ready
    obtain ⟨c, hc, hct⟩ : ∃ c ∈ range tasks.length, c ∉ s.taken := by
      by_contra hne
      have hall : range tasks.length ⊆ s.taken := fun c hc => by
        by_contra hct
        exact hne ⟨c, hc, hct⟩
      have hle := (subperm_of_subset nodup_range hall).length_le
      rw [length_range] at hle
      omega
    obtain ⟨m, hm, hmt, hm0⟩ := h.kahn.exists_ready ha
      (fun a b he => mem_range.2 (lt_of_mem_edges he).2) hc hct
    exact hpick m (mem_range.1 hm) ⟨hmt, hm0⟩
  · have hperm := h.perm hge
    refine ⟨h.kahn.acyclic fun a b he => ?_, s.taken, rfl, hperm⟩
    exact hperm.mem_iff.2 (mem_range.2 (lt_of_mem_edges he).1)

/-! ### What the sort returns -/

/-- **The sort succeeds exactly on acyclic tasks**, where a dependency on an id counts from the
first task of that id and one on no listed id does not count. -/
theorem sortTasks_isSome_iff :
    (sortTasks tasks).isSome ↔ Graph.Acyclic fun a b => (a, b) ∈ edges tasks := by
  have h := sortTasks_sorted tasks
  cases e : sortTasks tasks with
  | none =>
    rw [e] at h
    exact ⟨fun hs => (by cases hs), fun ha => absurd ha h⟩
  | some =>
    rw [e] at h
    exact ⟨fun _ => h.1, fun _ => rfl⟩

theorem map_idAt_range : (range tasks.length).map (idAt tasks) = tasks.map Task.id := by
  refine ext_getElem (by simp) fun i hi _ => ?_
  have hi' : i < tasks.length := by simpa using hi
  simp [idAt, hi']

/-- The order is a permutation of the ids. -/
theorem sortTasks_perm {order : List String} (h : sortTasks tasks = some order) :
    order.Perm (tasks.map Task.id) := by
  have hs := sortTasks_sorted tasks
  rw [h] at hs
  obtain ⟨-, taken, rfl, hperm⟩ := hs
  rw [← map_idAt_range]
  exact hperm.map _

/-- Ids without a dependency cycle can be sorted. -/
theorem sortTasks_isSome_of_acyclic (h : Graph.Acyclic (DependsOn tasks)) :
    (sortTasks tasks).isSome := by
  rw [sortTasks_isSome_iff]
  intro a ha
  exact h (idAt tasks a) (ha.lift (idAt tasks) fun _ _ he => dependsOn_of_mem_edges he)

end Agnosai.Scheduler
