import Agnosai.Support.Insertion

/-!
# Orchestrator — Scoring

Which agent a task is given to, after `orchestrator/scoring.cyr` and the crew runner's pick. An
agent's score is a parameter, in any linear order, and so is the library's sort (`Sorter`), which
is not a stable one.
-/

namespace Agnosai.Scoring

open List

variable {α φ : Type*} [LinearOrder φ]

/-- `AgnosaiScoredOff`. -/
structure Scored (φ : Type*) where
  index : Nat
  score : φ

/-- `_agnosai_scored_cmp`. -/
def scoredCmp (a b : Scored φ) : Int :=
  if b.score < a.score then -1
  else if a.score < b.score then 1
  else if a.index < b.index then -1
  else if b.index < a.index then 1
  else 0

/-- `agnosai_sort`: what it is given, in order if the comparison is one. -/
structure Sorter (τ : Type*) where
  sort : (τ → τ → Int) → List τ → List τ
  perm : ∀ cmp v, (sort cmp v).Perm v
  sorted : ∀ cmp v, (∀ a b, cmp a b ≤ 0 ∨ cmp b a ≤ 0) →
    (∀ a b c, cmp a b ≤ 0 → cmp b c ≤ 0 → cmp a c ≤ 0) →
    (sort cmp v).Pairwise fun a b => cmp a b ≤ 0

/-- An insertion sort is one. -/
def Sorter.insertion (τ : Type*) : Sorter τ where
  sort cmp v := sortVec (fun a b => cmp a b ≤ 0) v
  perm _ _ := perm_sortVec _
  sorted cmp v total trans := by
    have : Std.Total fun a b => cmp a b ≤ 0 := ⟨total⟩
    have : IsTrans τ fun a b => cmp a b ≤ 0 := ⟨trans⟩
    exact pairwise_sortVec _ v

variable (sorter : Sorter (Scored φ)) (score : α → φ) (agents : List α)

/-- `agnosai_rank_agents`. -/
def rankAgents : List (Scored φ) :=
  sorter.sort scoredCmp (agents.zipIdx.map fun (agent, i) => ⟨i, score agent⟩)

/-- `_agnosai_crew_pick_best_agent`. -/
def pickBestAgent : Option α :=
  (rankAgents sorter score agents).head?.bind fun e => agents[e.index]?

theorem scoredCmp_le_zero {a b : Scored φ} :
    scoredCmp a b ≤ 0 ↔ b.score < a.score ∨ b.score = a.score ∧ a.index ≤ b.index := by
  unfold scoredCmp
  rcases lt_trichotomy b.score a.score with hlt | heq | hgt
  · simp [hlt]
  · rcases lt_trichotomy a.index b.index with hi | hi | hi <;> simp [heq, hi, hi.le, not_lt.2 hi.le]
  · simp [hgt, hgt.ne', not_lt.2 hgt.le]

/-- The ranking is sorted, and holds each agent with its place in the roster and its score. -/
theorem rankAgents_sorted :
    (rankAgents sorter score agents).Pairwise fun a b => scoredCmp a b ≤ 0 := by
  refine sorter.sorted _ _ (fun a b => ?_) fun a b c hab hbc => ?_
  · simp only [scoredCmp_le_zero]
    grind
  · rw [scoredCmp_le_zero] at *
    grind

theorem mem_rankAgents {e : Scored φ} :
    e ∈ rankAgents sorter score agents ↔ ∃ agent, agents[e.index]? = some agent ∧
      e.score = score agent := by
  rw [rankAgents, (sorter.perm _ _).mem_iff, mem_map]
  constructor
  · rintro ⟨⟨agent, i⟩, hmem, rfl⟩
    exact ⟨agent, mem_zipIdx_iff_getElem?.1 hmem, rfl⟩
  · rintro ⟨agent, hagent, hscore⟩
    refine ⟨(agent, e.index), mem_zipIdx_iff_getElem?.2 hagent, ?_⟩
    simp only [← hscore]

/-- **The pick.** No agent of the roster has a higher score, and none before it has the same. -/
theorem pickBestAgent_first : agents = [] ∧ pickBestAgent sorter score agents = none ∨
    ∃ (i : Nat) (best : α), agents[i]? = some best ∧ pickBestAgent sorter score agents = some best ∧
      ∀ (j : Nat) (agent : α), agents[j]? = some agent → score agent < score best ∨
        score agent = score best ∧ i ≤ j := by
  have hsorted := rankAgents_sorted sorter score agents
  have hmem := fun e => mem_rankAgents sorter score agents (e := e)
  unfold pickBestAgent
  cases hrank : rankAgents sorter score agents with
  | nil =>
    refine .inl ⟨eq_nil_iff_forall_not_mem.2 fun agent hagent => ?_, rfl⟩
    obtain ⟨i, hi⟩ := mem_iff_getElem?.1 hagent
    exact absurd ((hmem ⟨i, score agent⟩).2 ⟨agent, hi, rfl⟩) (hrank ▸ not_mem_nil)
  | cons e rest =>
    rw [hrank] at hsorted hmem
    obtain ⟨best, hbest, hscore⟩ := (hmem e).1 mem_cons_self
    refine .inr ⟨e.index, best, hbest, hbest, fun j agent hj => ?_⟩
    -- an entry is the first one, or stands behind it
    rcases mem_cons.1 ((hmem ⟨j, score agent⟩).2 ⟨agent, hj, rfl⟩) with heq | hrest
    · subst heq
      exact .inr ⟨hscore, le_rfl⟩
    · exact hscore ▸ scoredCmp_le_zero.1 (rel_of_pairwise_cons hsorted hrest)

/-- Of two agents that tie at the top the first is picked. -/
theorem pickBestAgent_first_tie :
    pickBestAgent (.insertion _) String.length ["ox", "lynx", "hare"] = some "lynx" ∧
      ∃ (i : Nat) (best : String), ["ox", "lynx", "hare"][i]? = some best ∧
        pickBestAgent (.insertion _) String.length ["ox", "lynx", "hare"] = some best ∧
        ∀ (j : Nat) (agent : String), ["ox", "lynx", "hare"][j]? = some agent →
          agent.length < best.length ∨ agent.length = best.length ∧ i ≤ j :=
  ⟨by decide +kernel, (pickBestAgent_first (.insertion _) String.length
    ["ox", "lynx", "hare"]).resolve_left fun h => cons_ne_nil _ _ h.1⟩

end Agnosai.Scoring
