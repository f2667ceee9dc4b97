import Agnosai.Support.Graph
import Agnosai.Support.Trace

/-!
# Support — Kahn

Ordering a finite graph by counting what each node still waits for. `edges` holds `(a, b)` once
for each time `a` is told to wait for `b`, repetitions included; `tally` counts them. Taking a
node gives back one count to each entry of its `dependents`. `Kahn.Inv` says what the counts mean
after any number of nodes have been taken, in whatever order the caller picks them: the count of a
node is the number of its edges into nodes not taken yet.
-/

namespace Agnosai.Kahn

open Function List

variable {ν : Type*} [DecidableEq ν] {edges : List (ν × ν)}

/-- How many edges each node has, and who waits for it. -/
structure Tally (ν : Type*) where
  inDegree : ν → Int
  dependents : ν → List ν

def Tally.empty : Tally ν := ⟨fun _ => 0, fun _ => []⟩

/-- Count the edge `(a, b)`: `a` waits for `b`. -/
def Tally.add (t : Tally ν) (a b : ν) : Tally ν where
  inDegree := update t.inDegree a (t.inDegree a + 1)
  dependents := update t.dependents b (t.dependents b ++ [a])

def tally (edges : List (ν × ν)) : Tally ν :=
  edges.foldl (fun t e => t.add e.1 e.2) .empty

/-- `b` is taken: each entry of `kids` waits for one edge less. -/
def release (kids : List ν) (deg : ν → Int) : ν → Int :=
  kids.foldl (fun d child => update d child (d child - 1)) deg

/-- The edges of `c` into nodes not in `taken`. -/
def waiting (edges : List (ν × ν)) (taken : List ν) (c : ν) : Nat :=
  edges.countP fun e => e.1 = c ∧ e.2 ∉ taken

/-! ### What the tally counts -/

theorem foldl_add_inDegree (t : Tally ν) (a : ν) :
    (edges.foldl (fun t e => t.add e.1 e.2) t).inDegree a
      = t.inDegree a + edges.countP (fun e => e.1 = a) := by
  induction edges generalizing t with
  | nil => simp
  | cons e es ih =>
    rw [foldl_cons, ih, countP_cons]
    by_cases h : e.1 = a
    · subst h
      simp only [Tally.add, update_self, decide_true, if_true]
      push_cast
      omega
    · simp [Tally.add, update_of_ne (Ne.symm h), h]

theorem foldl_add_dependents (t : Tally ν) (b : ν) :
    (edges.foldl (fun t e => t.add e.1 e.2) t).dependents b
      = t.dependents b ++ (edges.filter fun e => e.2 = b).map Prod.fst := by
  induction edges generalizing t with
  | nil => simp
  | cons e es ih =>
    rw [foldl_cons, ih]
    by_cases h : e.2 = b
    · subst h
      simp [Tally.add]
    · simp [Tally.add, update_of_ne (Ne.symm h), h]

theorem tally_inDegree (a : ν) : (tally edges).inDegree a = waiting edges [] a := by
  rw [tally, foldl_add_inDegree]
  simp [Tally.empty, waiting]

theorem tally_dependents (b : ν) :
    (tally edges).dependents b = (edges.filter fun e => e.2 = b).map Prod.fst := by
  rw [tally, foldl_add_dependents]
  simp [Tally.empty]

theorem release_apply (kids : List ν) (deg : ν → Int) (c : ν) :
    release kids deg c = deg c - kids.count c := by
  induction kids generalizing deg with
  | nil => simp [release]
  | cons k ks ih =>
    rw [release, foldl_cons, ← release, ih]
    by_cases h : k = c
    · subst h
      rw [update_self, count_cons_self]
      push_cast
      omega
    · rw [update_of_ne (Ne.symm h), count_cons_of_ne h]

/-- Taking `b` closes exactly the edges into `b`. -/
theorem waiting_snoc {taken : List ν} {b : ν} (hb : b ∉ taken) (c : ν) :
    waiting edges taken c
      = waiting edges (taken ++ [b]) c +
        ((edges.filter fun e => e.2 = b).map Prod.fst).count c := by
  rw [waiting, countP_eq_countP_filter_add edges _ fun e => decide (e.2 ≠ b)]
  congr 1
  · rw [countP_filter, waiting]
    refine countP_congr fun e _ => ?_
    simp only [mem_append, mem_singleton, Bool.and_eq_true, decide_eq_true_eq]
    tauto
  · rw [count_eq_countP, countP_map, countP_filter, countP_filter]
    refine countP_congr fun e _ => ?_
    simp only [comp_apply, Bool.and_eq_true, decide_eq_true_eq, beq_iff_eq,
      decide_not, Bool.not_not]
    constructor
    · rintro ⟨⟨h, -⟩, hb⟩
      exact ⟨h, hb⟩
    · rintro ⟨h, rfl⟩
      exact ⟨⟨h, hb⟩, rfl⟩

/-- With no edge twice, a node waits for one less if it waits for `b`. -/
theorem waiting_snoc_of_nodup {taken : List ν} {b : ν} (hedges : edges.Nodup)
    (hb : b ∉ taken) (c : ν) :
    waiting edges taken c = waiting edges (taken ++ [b]) c + if (c, b) ∈ edges then 1 else 0 := by
  have hnodup : ((edges.filter fun e => e.2 = b).map Prod.fst).Nodup := by
    refine List.Nodup.map_on ?_ (hedges.filter _)
    rintro ⟨x, y⟩ hx ⟨x', y'⟩ hx' rfl
    obtain rfl : y = b := of_decide_eq_true (mem_filter.1 hx).2
    obtain rfl : y' = y := of_decide_eq_true (mem_filter.1 hx').2
    rfl
  rw [waiting_snoc hb c, hnodup.count]
  congr 1
  refine if_congr ?_ rfl rfl
  simp

/-! ### The invariant -/

/-- What holds once the nodes of `taken` have been taken, in that order. -/
structure Inv (edges : List (ν × ν)) (taken : List ν) (deg : ν → Int) : Prop where
  inDegree : ∀ c, deg c = waiting edges taken c
  nodup : taken.Nodup
  ordered : ∀ l₁ c l₂, taken = l₁ ++ c :: l₂ → ∀ b, (c, b) ∈ edges → b ∈ l₁

variable {taken : List ν} {deg : ν → Int} {b c : ν}

theorem Inv.init : Inv edges [] (tally edges).inDegree where
  inDegree := tally_inDegree
  nodup := nodup_nil
  ordered l₁ c l₂ h := by simp at h

namespace Inv

variable (h : Inv edges taken deg)
include h

/-- A node counts zero exactly when everything it waits for has been taken. -/
theorem inDegree_eq_zero_iff : deg c = 0 ↔ ∀ b, (c, b) ∈ edges → b ∈ taken := by
  rw [h.inDegree, Int.natCast_eq_zero, waiting, countP_eq_zero]
  simp only [decide_eq_true_eq, not_and, not_not]
  constructor
  · intro hz b hb
    exact hz (c, b) hb rfl
  · rintro hz ⟨c', b⟩ he rfl
    exact hz b he

/-- Taking a node that counts zero keeps the counts right and the order respectful. -/
theorem take (hb : b ∉ taken) (h0 : deg b = 0) :
    Inv edges (taken ++ [b]) (release ((tally edges).dependents b) deg) where
  inDegree c := by
    rw [release_apply, h.inDegree, tally_dependents, waiting_snoc hb c]
    push_cast
    omega
  nodup := by
    rw [nodup_append]
    refine ⟨h.nodup, nodup_singleton b, ?_⟩
    intro a ha d hd
    rw [mem_singleton] at hd
    rintro rfl
    exact hb (hd ▸ ha)
  ordered l₁ c l₂ he d hd := by
    obtain ⟨-, rfl, rfl⟩ | ⟨l₂, -, he⟩ := snoc_eq_append_cons he
    · exact h.inDegree_eq_zero_iff.1 h0 d hd
    · exact h.ordered l₁ c l₂ he d hd

/-- In the order taken, what a node waits for comes first. -/
theorem idxOf_lt (hc : c ∈ taken) (he : (c, b) ∈ edges) : taken.idxOf b < taken.idxOf c := by
  obtain ⟨l₁, l₂, rfl, hcl⟩ := eq_append_cons_of_mem hc
  have hb : b ∈ l₁ := h.ordered l₁ c l₂ rfl b he
  rw [idxOf_append_of_mem hb, idxOf_append_of_notMem hcl, idxOf_cons_self]
  exact Nat.lt_add_right _ (idxOf_lt_length_of_mem hb)

/-- If every node that waits for something has been taken, no cycle is left. -/
theorem acyclic (hall : ∀ c b, (c, b) ∈ edges → c ∈ taken) :
    Graph.Acyclic fun c b => (c, b) ∈ edges :=
  Graph.acyclic_of_rank taken.idxOf fun c b he => h.idxOf_lt (hall c b he) he

/-- While nodes of an acyclic graph are left, one of them counts zero. -/
theorem exists_ready (ha : Graph.Acyclic fun c b => (c, b) ∈ edges) {nodes : List ν}
    (hn : ∀ c b, (c, b) ∈ edges → b ∈ nodes) (hc : c ∈ nodes) (hct : c ∉ taken) :
    ∃ m ∈ nodes, m ∉ taken ∧ deg m = 0 := by
  have hmem : ∀ m, m ∈ nodes.filter (· ∉ taken) ↔ m ∈ nodes ∧ m ∉ taken := by
    intro m
    simp
  obtain ⟨m, hm, hmin⟩ := ha.exists_minimal (ne_nil_of_mem ((hmem c).2 ⟨hc, hct⟩))
  obtain ⟨hmn, hmt⟩ := (hmem m).1 hm
  refine ⟨m, hmn, hmt, h.inDegree_eq_zero_iff.2 fun b he => ?_⟩
  by_contra hbt
  exact hmin b ((hmem b).2 ⟨hn m b he, hbt⟩) he

end Inv

end Agnosai.Kahn
