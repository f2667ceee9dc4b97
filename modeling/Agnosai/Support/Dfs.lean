import Agnosai.Support.Graph

/-!
# Support — Dfs

Depth-first cycle detection with three marks, over a finite graph given by successor lists. The
walk recurses on a budget. Each nested call has marked one more node, so one more than the number
of nodes is always enough (`walk_isSome`), and `FinGraph.hasCycle` is total. One induction over
the budget proves what a walk does to the marks (`Walked`): the nodes in progress are restored when
it reports nothing, every node it leaves done is grounded, and a report comes with a real cycle.
-/

namespace Agnosai

open Function List

open Relation (TransGen)

/-- A finite graph by successor lists. -/
structure FinGraph (ν : Type*) where
  nodes : List ν
  next : ν → List ν
  mem_nodes : ∀ {x y : ν}, y ∈ next x → x ∈ nodes ∧ y ∈ nodes

def FinGraph.Edge {ν : Type*} (G : FinGraph ν) (x y : ν) : Prop := y ∈ G.next x

namespace Dfs

inductive Mark where
  | unvisited
  | inProgress
  | done
  deriving Repr, DecidableEq

variable {ν : Type*}

/-- Walk each node of a list, stopping at the first report. -/
def walkAll (walk : ν → (ν → Mark) → Option (Bool × (ν → Mark))) :
    List ν → (ν → Mark) → Option (Bool × (ν → Mark))
  | [], m => some (false, m)
  | x :: xs, m =>
    match walk x m with
    | none => none
    | some (true, m) => some (true, m)
    | some (false, m) => walkAll walk xs m

/-! ### What a walk does to the marks -/

/-- `y` bottoms out: no infinite walk starts there. -/
abbrev Settled (next : ν → List ν) : ν → Prop :=
  Graph.Grounded (fun _ => True) fun x y => y ∈ next x

/-- What walking the nodes of `xs` from `m` to `m'` with report `b` guarantees. -/
structure Walked (next : ν → List ν) (xs : List ν) (m : ν → Mark) (b : Bool) (m' : ν → Mark) :
    Prop where
  fewer : ∀ y, m' y = .unvisited → m y = .unvisited
  restored : b = false → ∀ y, m' y = .inProgress ↔ m y = .inProgress
  kept : b = false → ∀ y, m y = .done → m' y = .done
  reached : b = false → ∀ x ∈ xs, m' x = .done
  settled : b = false → (∀ y, m y = .done → Settled next y) → ∀ y, m' y = .done → Settled next y
  cycle : b = true →
    (∀ x ∈ xs, ∀ y, m y = .inProgress → TransGen (fun a c => c ∈ next a) y x) →
    ∃ z, TransGen (fun a c => c ∈ next a) z z

variable {next : ν → List ν} {m m₁ m' : ν → Mark} {b : Bool} {x : ν} {xs : List ν}

theorem Walked.nil : Walked next [] m false m where
  fewer _ h := h
  restored _ _ := Iff.rfl
  kept _ _ h := h
  reached := nofun
  settled _ h := h
  cycle := nofun

/-- A report from the first node is the report of the list. -/
theorem Walked.stop (h : Walked next [x] m true m') : Walked next (x :: xs) m true m' where
  fewer := h.fewer
  restored := nofun
  kept := nofun
  reached := nofun
  settled := nofun
  cycle hb hin := h.cycle hb fun y hy => hin y (mem_singleton.1 hy ▸ mem_cons_self)

theorem Walked.cons (h : Walked next [x] m false m₁) (hs : Walked next xs m₁ b m') :
    Walked next (x :: xs) m b m' where
  fewer y hy := h.fewer y (hs.fewer y hy)
  restored hb y := (hs.restored hb y).trans (h.restored rfl y)
  kept hb y hy := hs.kept hb y (h.kept rfl y hy)
  reached hb y hy := by
    rcases mem_cons.1 hy with rfl | hy
    · exact hs.kept hb y (h.reached rfl y (mem_singleton.2 rfl))
    · exact hs.reached hb y hy
  settled hb hm := hs.settled hb (h.settled rfl hm)
  cycle hb hin := by
    refine hs.cycle hb fun y hy z hz => ?_
    exact hin y (mem_cons_of_mem x hy) z ((h.restored rfl z).1 hz)

/-! ### The walk -/

variable [DecidableEq ν]

/-- Walk from `x` with marks `m`: whether a cycle was met, and the marks left. `none` when the
budget did not suffice. -/
def walk (next : ν → List ν) : Nat → ν → (ν → Mark) → Option (Bool × (ν → Mark))
  | 0, _, _ => none
  | n + 1, x, m =>
    match m x with
    | .inProgress => some (true, m)
    | .done => some (false, m)
    | .unvisited =>
      match walkAll (walk next n) (next x) (update m x .inProgress) with
      | none => none
      | some (true, m) => some (true, m)
      | some (false, m) => some (false, update m x .done)

variable {n : Nat}

theorem walkAll_walked (hw : ∀ x m b m', walk next n x m = some (b, m') → Walked next [x] m b m')
    (h : walkAll (walk next n) xs m = some (b, m')) : Walked next xs m b m' := by
  induction xs generalizing m with
  | nil =>
    cases h
    exact .nil
  | cons x xs ih =>
    unfold walkAll at h
    rcases hx : walk next n x m with _ | ⟨_ | _, m₁⟩
    · rw [hx] at h
      cases h
    · rw [hx] at h
      exact .cons (hw x m false m₁ hx) (ih h)
    · rw [hx] at h
      cases h
      exact .stop (hw x m true m' hx)

/-- A finished walk has done what it should. -/
theorem walk_walked (h : walk next n x m = some (b, m')) : Walked next [x] m b m' := by
  induction n generalizing x m b m' with
  | zero => cases h
  | succ n ih =>
    unfold walk at h
    split at h
    next hx =>
      cases h
      refine ⟨fun _ hy => hy, nofun, nofun, nofun, nofun, fun _ hin => ⟨x, ?_⟩⟩
      exact hin x (mem_singleton.2 rfl) x hx
    next hx =>
      cases h
      refine ⟨fun _ hy => hy, fun _ _ => Iff.rfl, fun _ _ hy => hy, ?_, fun _ hm => hm, nofun⟩
      exact fun _ y hy => mem_singleton.1 hy ▸ hx
    next hx =>
      -- marking `x` in progress hides nothing that was done, and only `x` is no longer unvisited
      have hdone : ∀ y, update m x .inProgress y = .done ↔ m y = .done := by
        intro y
        by_cases hy : y = x
        · subst hy; simp [hx]
        · rw [update_of_ne hy]
      have hunv : ∀ y, update m x .inProgress y = .unvisited → m y = .unvisited := by
        intro y hu
        by_cases hy : y = x
        · subst hy; exact hx
        · rwa [update_of_ne hy] at hu
      rcases hall : walkAll (walk next n) (next x) (update m x .inProgress) with
          _ | ⟨_ | _, m₁⟩
      · rw [hall] at h
        cases h
      · rw [hall] at h
        cases h
        have hw := walkAll_walked (fun _ _ _ _ => ih) hall
        refine ⟨?_, fun _ y => ?_, fun _ y hy => ?_, fun _ y hy => ?_, fun _ hm y hy => ?_, nofun⟩
        · intro y hu
          by_cases hy : y = x
          · subst hy; exact hx
          · rw [update_of_ne hy] at hu
            exact hunv y (hw.fewer y hu)
        · by_cases hyx : y = x
          · subst hyx; simp [hx]
          · rw [update_of_ne hyx, hw.restored rfl, update_of_ne hyx]
        · by_cases hyx : y = x
          · subst hyx; simp
          · rw [update_of_ne hyx]
            exact hw.kept rfl y ((hdone y).2 hy)
        · rw [mem_singleton.1 hy, update_self]
        · have hset := hw.settled rfl fun z hz => hm z ((hdone z).1 hz)
          by_cases hyx : y = x
          · subst hyx
            exact .intro trivial fun c hc => hset c (hw.reached rfl c hc)
          · rw [update_of_ne hyx] at hy
            exact hset y hy
      · rw [hall] at h
        cases h
        have hw := walkAll_walked (fun _ _ _ _ => ih) hall
        refine ⟨fun y hu => hunv y (hw.fewer y hu), nofun, nofun, nofun, nofun, fun _ hin => ?_⟩
        refine hw.cycle rfl fun c hc y hy => ?_
        by_cases hyx : y = x
        · subst hyx
          exact .single hc
        · rw [update_of_ne hyx] at hy
          exact (hin x (mem_singleton.2 rfl) y hy).tail hc

/-! ### The budget -/

def left (nodes : List ν) (m : ν → Mark) : Nat :=
  (nodes.filter fun y => m y = .unvisited).length

variable {nodes : List ν}

omit [DecidableEq ν] in
theorem left_mono (h : ∀ y, m' y = .unvisited → m y = .unvisited) :
    left nodes m' ≤ left nodes m := by
  refine (monotone_filter_right nodes fun y hy => ?_).length_le
  simpa using h y (by simpa using hy)

theorem left_update_lt (hx : x ∈ nodes) (hm : m x = .unvisited) :
    left nodes (update m x .inProgress) < left nodes m := by
  have heq : (nodes.filter fun y => update m x .inProgress y = .unvisited)
      = (nodes.filter fun y => m y = .unvisited).filter fun y => y ≠ x := by
    rw [filter_filter]
    refine filter_congr fun y _ => ?_
    by_cases hy : y = x
    · subst hy; simp
    · simp [hy]
  rw [left, heq]
  refine length_filter_lt_length_iff_exists.2 ⟨x, ?_, by simp⟩
  exact mem_filter.2 ⟨hx, by simpa using hm⟩

theorem walkAll_isSome (hw : ∀ x ∈ nodes, ∀ m, left nodes m < n → (walk next n x m).isSome)
    (hxs : ∀ x ∈ xs, x ∈ nodes) (hm : left nodes m < n) :
    (walkAll (walk next n) xs m).isSome := by
  induction xs generalizing m with
  | nil => rfl
  | cons x xs ih =>
    unfold walkAll
    obtain ⟨⟨b, m₁⟩, hx⟩ := Option.isSome_iff_exists.1 (hw x (hxs x mem_cons_self) m hm)
    rw [hx]
    cases b with
    | true => rfl
    | false =>
      refine ih (fun y hy => hxs y (mem_cons_of_mem x hy)) ?_
      exact lt_of_le_of_lt (left_mono (walk_walked hx).fewer) hm

theorem walk_isSome (G : FinGraph ν) (hx : x ∈ G.nodes) (hm : left G.nodes m < n) :
    (walk G.next n x m).isSome := by
  induction n generalizing x m with
  | zero => exact absurd hm (Nat.not_lt_zero _)
  | succ n ih =>
    unfold walk
    split
    · rfl
    · rfl
    next hu =>
      have hlt := left_update_lt hx hu
      have hall : (walkAll (walk G.next n) (G.next x) (update m x .inProgress)).isSome :=
        walkAll_isSome (fun y hy m' => ih hy) (fun y hy => (G.mem_nodes hy).2) (by omega)
      obtain ⟨⟨b, m₁⟩, hb⟩ := Option.isSome_iff_exists.1 hall
      rw [hb]
      cases b <;> rfl

end Dfs

namespace FinGraph

open Dfs

variable {ν : Type*} [DecidableEq ν] (G : FinGraph ν)

/-- The sweep: every node in turn, over shared marks. -/
def sweep : Option (Bool × (ν → Mark)) :=
  walkAll (walk G.next (G.nodes.length + 1)) G.nodes fun _ => .unvisited

theorem sweep_isSome : G.sweep.isSome := by
  refine walkAll_isSome (fun x hx m hm => walk_isSome G hx hm) (fun _ hx => hx) ?_
  exact Nat.lt_succ_of_le (length_filter_le _ _)

/-- Whether the sweep meets a cycle. -/
def hasCycle : Bool := (G.sweep.get G.sweep_isSome).1

/-- **The sweep reports a cycle exactly when there is one.** -/
theorem hasCycle_iff : G.hasCycle = true ↔ ¬ Graph.Acyclic G.Edge := by
  obtain ⟨⟨b, m'⟩, hs⟩ := Option.isSome_iff_exists.1 G.sweep_isSome
  have hb : G.hasCycle = b := by simp only [hasCycle, hs, Option.get_some]
  have hw : Walked G.next G.nodes _ b m' := walkAll_walked (fun _ _ _ _ => walk_walked) hs
  rw [hb]
  cases b with
  | true =>
    obtain ⟨z, hz⟩ := hw.cycle rfl nofun
    exact ⟨fun _ ha => ha z hz, fun _ => rfl⟩
  | false =>
    refine ⟨nofun, fun hne => absurd (fun x hx => ?_) hne⟩
    -- a node on a cycle has a successor, so it was swept, and then it is settled
    have hmem : x ∈ G.nodes := by
      obtain ⟨y, hxy, -⟩ := Relation.TransGen.head'_iff.1 hx
      exact (G.mem_nodes hxy).1
    exact (hw.settled rfl (nofun) x (hw.reached rfl x hmem)).not_cycle hx

end FinGraph

end Agnosai
