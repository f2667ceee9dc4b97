import Agnosai.Orchestrator.Scheduler.Definitions
import Agnosai.Support.StableQueue

/-!
# Orchestrator — Scheduler — Queues

The five queues of the scheduler are a stable priority queue over the clamped priorities. The
queue of a tier is what is queued with that tier, oldest first (`Tiered`), and both operations keep
it so.
-/

namespace Agnosai.Scheduler

open List Function

open StableQueue (Op Pops Run pushed)

variable {s : State} {q : List Task} {t : Task}

/-- The scheduler after a sequence of enqueues and dequeues, with what each dequeue returned. -/
def runOps (s : State) : List (Op Task) → State × List (Option Task)
  | [] => (s, [])
  | .push t :: ops => runOps (enqueue s t) ops
  | .pop :: ops =>
    let (task, s') := dequeue s
    let (s'', outs) := runOps s' ops
    (s'', task :: outs)

/-- Each queue holds what is queued with its tier, oldest first. -/
def Tiered (s : State) (q : List Task) : Prop :=
  ∀ tier, s.queues tier = q.filter fun t => tierOf t = tier

theorem tiered_new : Tiered {} [] := fun _ => rfl

theorem Tiered.enqueue (h : Tiered s q) : Tiered (enqueue s t) (q ++ [t]) := by
  intro tier
  rw [filter_append, ← h tier]
  by_cases heq : tier = tierOf t
  · simp [Scheduler.enqueue, heq]
  · simp [Scheduler.enqueue, update_of_ne heq, Ne.symm heq]

/-- The loop finds the highest tier that holds something. -/
theorem dequeueFrom_cases (l : List (Fin tiers)) :
    (dequeueFrom s l = (none, s) ∧ ∀ tier ∈ l, s.queues tier = []) ∨
      ∃ above tier below task rest, l = above ++ tier :: below ∧
        (∀ tier' ∈ above, s.queues tier' = []) ∧
        s.queues tier = task :: rest ∧
        dequeueFrom s l = (some task, { s with queues := update s.queues tier rest }) := by
  induction l with
  | nil => exact .inl ⟨rfl, nofun⟩
  | cons tier below ih =>
    cases hq : s.queues tier with
    | nil =>
      have hstep : dequeueFrom s (tier :: below) =
          dequeueFrom s below := by simp only [dequeueFrom, hq]
      rw [hstep]
      obtain ⟨heq, hall⟩ | ⟨above, tier', below', task, rest, rfl, habove, hqueue, heq⟩ := ih
      · exact .inl ⟨heq, forall_mem_cons.2 ⟨hq, hall⟩⟩
      · exact .inr ⟨tier :: above, tier', below', task, rest, rfl,
          forall_mem_cons.2 ⟨hq, habove⟩, hqueue, heq⟩
    | cons task rest =>
      refine .inr ⟨[], tier, below, task, rest, rfl, nofun, hq, ?_⟩
      simp only [dequeueFrom, hq]

/-- The head of the highest tier, or nothing. -/
theorem dequeue_cases :
    (dequeue s = (none, s) ∧ ∀ tier, s.queues tier = []) ∨
      ∃ tier task rest, s.queues tier = task :: rest ∧
        (∀ tier', tier < tier' → s.queues tier' = []) ∧
        dequeue s = (some task, { s with queues := update s.queues tier rest }) := by
  obtain ⟨heq, hall⟩ | ⟨above, tier, below, task, rest, hsplit, habove, hqueue, heq⟩ :=
    dequeueFrom_cases (finRange tiers).reverse
  · exact .inl ⟨heq, fun tier => hall tier (mem_reverse.2 (mem_finRange tier))⟩
  · refine .inr ⟨tier, task, rest, hqueue, fun tier' hlt => ?_, heq⟩
    -- the tiers go down, so one that is higher came before
    have hdown : (above ++ tier :: below).Pairwise fun i j => j < i := by
      rw [← hsplit, pairwise_reverse]
      exact (sortedLT_finRange tiers).pairwise
    have hmem : tier' ∈ above ++ tier :: below := hsplit ▸ mem_reverse.2 (mem_finRange tier')
    rcases mem_append.1 hmem with hin | hin
    · exact habove tier' hin
    · rcases mem_cons.1 hin with rfl | hin
      · exact absurd hlt (lt_irrefl _)
      · have hbelow := (pairwise_cons.1 (pairwise_append.1 hdown).2.1).1 tier' hin
        exact absurd hbelow (lt_asymm hlt)

/-- **A dequeue** pops the abstract queue, or finds it empty. -/
theorem Tiered.dequeue (h : Tiered s q) :
    (q = [] ∧ dequeue s = (none, s)) ∨
      ∃ t q' s', Pops tierOf q t q' ∧ dequeue s = (some t, s') ∧ Tiered s' q' := by
  obtain ⟨heq, hall⟩ | ⟨tier, task, rest, hqueue, hhigh, heq⟩ := dequeue_cases
  · refine .inl ⟨eq_nil_iff_forall_not_mem.2 fun t ht => ?_, heq⟩
    have hempty := hall (tierOf t)
    rw [h, filter_eq_nil_iff] at hempty
    exact hempty t ht (decide_eq_true rfl)
  · obtain ⟨q', hpops, hrest, hothers⟩ := StableQueue.pops_of_filter
      ((h tier).symm.trans hqueue) fun tier' hlt => (h tier').symm.trans (hhigh tier' hlt)
    refine .inr ⟨task, q', _, hpops, heq, fun tier' => ?_⟩
    by_cases hne : tier' = tier
    · rw [hne, hrest]
      exact update_self ..
    · rw [hothers tier' hne, ← h tier']
      exact update_of_ne hne ..

/-- The queues hold as many tasks as are queued. -/
theorem Tiered.len_eq (h : Tiered s q) : len s = q.length := by
  have hsum : ∀ q : List Task,
      ((finRange tiers).map fun tier => (q.filter fun t => tierOf t = tier).length).sum =
        q.length := by
    intro q
    induction q with
    | nil => simp
    | cons t q ih =>
      have hone : ((finRange tiers).map fun tier => if tierOf t = tier then 1 else 0).sum = 1 := by
        generalize tierOf t = tier
        revert tier
        decide
      have hcons : ∀ tier, ((t :: q).filter fun t => tierOf t = tier).length =
          (q.filter fun t => tierOf t = tier).length + if tierOf t = tier then 1 else 0 := by
        intro tier
        by_cases heq : tierOf t = tier <;> simp [heq]
      simp [hcons, ih, hone]
  simp only [len, h _, hsum]

/-- The run of the scheduler is a run of the abstract queue. -/
theorem Tiered.runOps (h : Tiered s q) (ops : List (Op Task)) :
    ∃ q', Run tierOf q ops (runOps s ops).2 q' ∧ Tiered (runOps s ops).1 q' := by
  induction ops generalizing s q with
  | nil => exact ⟨q, .done, h⟩
  | cons op ops ih =>
    cases op with
    | push t =>
      obtain ⟨q', hrun, htiered⟩ := ih h.enqueue
      exact ⟨q', .push hrun, htiered⟩
    | pop =>
      obtain ⟨rfl, heq⟩ | ⟨t, q₁, s', hpops, heq, htiered₁⟩ := h.dequeue
      · obtain ⟨q', hrun, htiered⟩ := ih h
        simp only [Scheduler.runOps, heq]
        exact ⟨q', .empty hrun, htiered⟩
      · obtain ⟨q', hrun, htiered⟩ := ih htiered₁
        simp only [Scheduler.runOps, heq]
        exact ⟨q', .pop hpops hrun, htiered⟩

/-- **The scheduler's queues are a stable priority queue.** Over every sequence of enqueues and
dequeues on a new scheduler, each dequeue returns the earliest enqueued task among those of the
highest clamped priority present, or none when there is none; what was enqueued is what was returned
and what is left; and the length is the number of enqueues less that of the tasks returned. -/
theorem queues_refine (ops : List (Op Task)) :
    ∃ q, Run tierOf [] ops (runOps {} ops).2 q ∧
      (pushed ops).Perm ((runOps {} ops).2.reduceOption ++ q) ∧
      (len (runOps {} ops).1 : Int) =
      (pushed ops).length - (runOps {} ops).2.reduceOption.length := by
  obtain ⟨q, hrun, htiered⟩ := tiered_new.runOps ops
  have hperm := hrun.perm
  have hlength := hperm.length_eq
  rw [nil_append, length_append] at hlength
  refine ⟨q, hrun, hperm, ?_⟩
  rw [htiered.len_eq]
  omega

end Agnosai.Scheduler
