import Mathlib.Data.Set.Finite.Basic
import Mathlib.Order.WellFounded

/-!
# Support — Graph

Dependency graphs. `dep x y` reads "`x` depends on `y`". `Acyclic` forbids a node that depends on
itself through one edge or more. `Grounded` is the least notion of a node whose whole cone of
dependencies is present and bottoms out; in a finite, closed, acyclic graph it is every node
(`Acyclic.grounded`), and its induction principle is then the induction along dependencies.
-/

namespace Agnosai.Graph

open Relation (TransGen)

variable {α : Type*} {dep : α → α → Prop} {node : α → Prop} {x y : α}

/-- No node depends on itself, through one edge or more. -/
def Acyclic (dep : α → α → Prop) : Prop :=
  ∀ x, ¬ TransGen dep x x

/-- What a node of the list depends on is in the list. -/
def Closed (nodes : List α) (dep : α → α → Prop) : Prop :=
  ∀ x ∈ nodes, ∀ y, dep x y → y ∈ nodes

/-- `x` is a node, and so is everything below it, down to nodes with no dependency at all. -/
inductive Grounded (node : α → Prop) (dep : α → α → Prop) : α → Prop where
  | intro {x : α} (here : node x) (below : ∀ y, dep x y → Grounded node dep y) :
      Grounded node dep x

theorem Grounded.here (h : Grounded node dep x) : node x := by
  cases h with
  | intro here => exact here

/-- No cycle goes through a grounded node. -/
theorem Grounded.not_cycle (h : Grounded node dep x) : ¬ TransGen dep x x := by
  induction h with
  | @intro x _ _ ih =>
    intro hx
    obtain ⟨y, hxy, hyx⟩ := TransGen.head'_iff.1 hx
    exact ih y hxy (TransGen.tail' hyx hxy)

/-- A node that is not grounded, although it is a node, depends on one that is not. -/
theorem exists_dep_not_grounded (hx : node x) (h : ¬ Grounded node dep x) :
    ∃ y, dep x y ∧ ¬ Grounded node dep y := by
  by_contra hne
  refine h (.intro hx fun y hxy => ?_)
  by_contra hy
  exact hne ⟨y, hxy, hy⟩

/-- **A place to start.** A non-empty list of nodes of an acyclic graph holds one that depends
on none of the list. -/
theorem Acyclic.exists_minimal (ha : Acyclic dep) {S : List α} (hS : S ≠ []) :
    ∃ x ∈ S, ∀ y ∈ S, ¬ dep x y := by
  have : Finite {x // x ∈ S} := S.finite_toSet
  let r : {x // x ∈ S} → {x // x ∈ S} → Prop := fun b a => TransGen dep a.1 b.1
  have : IsTrans _ r := ⟨fun _ _ _ hab hbc => hbc.trans hab⟩
  have : Std.Irrefl r := ⟨fun a h => ha a.1 h⟩
  have hwf : WellFounded r := Finite.wellFounded_of_trans_of_irrefl r
  obtain ⟨s, hs⟩ := List.exists_mem_of_ne_nil S hS
  obtain ⟨m, -, hm⟩ := hwf.has_min Set.univ ⟨⟨s, hs⟩, trivial⟩
  exact ⟨m.1, m.2, fun y hy hd => hm ⟨y, hy⟩ trivial (.single hd)⟩

/-- In a finite, closed, acyclic graph every node is grounded. -/
theorem Acyclic.grounded (ha : Acyclic dep) {nodes : List α} (hc : Closed nodes dep)
    (hx : x ∈ nodes) : Grounded (· ∈ nodes) dep x := by
  classical
  by_contra hg
  -- the nodes that are not grounded have a minimal one, and that one is grounded
  let bad := nodes.filter fun z => ¬ Grounded (· ∈ nodes) dep z
  have hbad : ∀ z, z ∈ bad ↔ z ∈ nodes ∧ ¬ Grounded (· ∈ nodes) dep z := by
    intro z
    simp [bad]
  have hne : bad ≠ [] := List.ne_nil_of_mem ((hbad x).2 ⟨hx, hg⟩)
  obtain ⟨m, hm, hmin⟩ := ha.exists_minimal hne
  obtain ⟨hmn, hmg⟩ := (hbad m).1 hm
  obtain ⟨y, hmy, hy⟩ := exists_dep_not_grounded hmn hmg
  exact hmin y ((hbad y).2 ⟨hc m hmn y hmy, hy⟩) hmy

/-- A graph whose edges all go down in some rank has no cycle. -/
theorem acyclic_of_rank {β : Type*} [Preorder β] (rank : α → β)
    (h : ∀ x y, dep x y → rank y < rank x) : Acyclic dep := by
  intro x hx
  have hlt : ∀ y, TransGen dep x y → rank y < rank x := by
    intro y hy
    induction hy with
    | single hd => exact h _ _ hd
    | tail _ hd ih => exact (h _ _ hd).trans ih
  exact lt_irrefl _ (hlt x hx)

/-- A walk that leaves a set by no edge stays in it. -/
theorem transGen_closed {P : α → Prop} (h : ∀ x y, P x → dep x y → P y) (hx : P x)
    (hxy : TransGen dep x y) : P y := by
  induction hxy with
  | single hd => exact h _ _ hx hd
  | tail _ hd ih => exact h _ _ ih hd

end Agnosai.Graph
