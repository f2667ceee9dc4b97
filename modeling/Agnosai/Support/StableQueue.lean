import Mathlib.Order.Lattice

/-!
# Support — StableQueue

A stable priority queue, as the list of what is queued, oldest first. A pop takes the oldest of the
highest rank (`Pops`), and `Run` follows a sequence of pushes and pops with what the pops return. A
queue kept as one list for each rank is such a queue (`pops_of_filter`).
-/

namespace Agnosai.StableQueue

open List

variable {α ρ : Type*} [LinearOrder ρ]

/-- `a` is the oldest of the highest rank in `q`, and `q'` is the rest. -/
def Pops (rank : α → ρ) (q : List α) (a : α) (q' : List α) : Prop :=
  ∃ pre post, q = pre ++ a :: post ∧ q' = pre ++ post ∧
    (∀ b ∈ pre, rank b < rank a) ∧ ∀ b ∈ post, rank b ≤ rank a

inductive Op (α : Type*) where
  | push (a : α)
  | pop

/-- What a sequence of operations pushes. -/
def pushed : List (Op α) → List α
  | [] => []
  | .push a :: ops => a :: pushed ops
  | .pop :: ops => pushed ops

/-- From `q`, the operations return `outs`, one for each pop, and leave `q'`. -/
inductive Run (rank : α → ρ) : List α → List (Op α) → List (Option α) → List α → Prop where
  | done {q} : Run rank q [] [] q
  | push {q a ops outs q'} (rest : Run rank (q ++ [a]) ops outs q') :
      Run rank q (.push a :: ops) outs q'
  | pop {q a q₁ ops outs q'} (here : Pops rank q a q₁) (rest : Run rank q₁ ops outs q') :
      Run rank q (.pop :: ops) (some a :: outs) q'
  | empty {ops outs q'} (rest : Run rank [] ops outs q') :
      Run rank [] (.pop :: ops) (none :: outs) q'

variable {rank : α → ρ} {q q' : List α} {a : α}

theorem Pops.perm (h : Pops rank q a q') : q.Perm (a :: q') := by
  obtain ⟨pre, post, rfl, rfl, -, -⟩ := h
  exact perm_middle

/-- **Nothing is lost and nothing returned twice.** -/
theorem Run.perm {ops : List (Op α)} {outs : List (Option α)} (h : Run rank q ops outs q') :
    (q ++ pushed ops).Perm (outs.reduceOption ++ q') := by
  induction h with
  | done => exact .of_eq (append_nil _)
  | @push q a ops outs q' _ ih =>
    rw [append_assoc] at ih
    exact ih
  | @pop q a q₁ ops outs q' here _ ih =>
    exact (here.perm.append_right _).trans (ih.cons a)
  | empty _ ih => exact ih

/-- **One list for each rank.** The head of the list of rank `i` is what a pop takes, where every
list of a higher rank is empty; it leaves the tail of that list, and every other list as it is. -/
theorem pops_of_filter {i : ρ} {rest : List α} (hi : (q.filter fun b => rank b = i) = a :: rest)
    (hhigh : ∀ j, i < j → (q.filter fun b => rank b = j) = []) :
    ∃ q', Pops rank q a q' ∧ (q'.filter fun b => rank b = i) = rest ∧
      ∀ j, j ≠ i → (q'.filter fun b => rank b = j) = q.filter fun b => rank b = j := by
  obtain ⟨pre, post, rfl, hpre, ha, hpost⟩ := filter_eq_cons_iff.1 hi
  have ha : rank a = i := of_decide_eq_true ha
  have hle : ∀ b ∈ pre ++ a :: post, rank b ≤ i := by
    intro b hb
    by_contra hlt
    exact absurd (mem_filter.2 ⟨hb, decide_eq_true rfl⟩)
      (hhigh (rank b) (not_le.1 hlt) ▸ not_mem_nil)
  refine ⟨pre ++ post, ⟨pre, post, rfl, rfl, fun b hb => ?_, fun b hb => ?_⟩, ?_, fun j hj => ?_⟩
  · rw [ha]
    exact lt_of_le_of_ne (hle b (mem_append_left _ hb)) fun hb' => hpre b hb (decide_eq_true hb')
  · rw [ha]
    exact hle b (mem_append_right _ (mem_cons_of_mem _ hb))
  · rw [filter_append, filter_eq_nil_iff.2 hpre, nil_append, hpost]
  · have hne : ¬ rank a = j := fun h => hj (h ▸ ha)
    simp [filter_append, hne]

end Agnosai.StableQueue
