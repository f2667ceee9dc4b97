import Mathlib.Data.List.Sort

/-!
# Support — Insertion

Insertion sort on a vector, from the back: each element in turn goes left past those it is to stand
before. `sortVec r` keeps the sorted part last element first, so that one insertion is
`List.orderedInsert` and the whole is Mathlib's `List.insertionSort`.

`changes` keeps of a vector what differs from the element before it: of a sorted vector its
distinct elements, in order.
-/

namespace Agnosai

open List

variable {α : Type*} (r : α → α → Prop) [DecidableRel r]

/-- Sort a vector by `r`: an element stops behind the first one from the right that may stand before
it. -/
def sortVec (v : List α) : List α :=
  (v.foldl (fun done cur => done.orderedInsert (fun a b => r b a) cur) []).reverse

variable {v w c : List α}

theorem sortVec_eq : sortVec r v = (v.reverse.insertionSort fun a b => r b a).reverse := by
  rw [sortVec, insertionSort, foldr_reverse]

theorem perm_sortVec : (sortVec r v).Perm v := by
  rw [sortVec_eq]
  exact (reverse_perm _).trans ((perm_insertionSort _ _).trans (reverse_perm v))

theorem pairwise_sortVec [Std.Total r] [IsTrans α r] (v : List α) : (sortVec r v).Pairwise r := by
  have : Std.Total fun a b => r b a := ⟨fun a b => Std.Total.total b a⟩
  have : IsTrans α fun a b => r b a := ⟨fun _ _ _ hab hbc => Trans.trans hbc hab⟩
  rw [sortVec_eq, pairwise_reverse]
  exact pairwise_insertionSort _ _

/-- **Stability.** What stands in order before the sort stands in that order after it. -/
theorem sublist_sortVec [Std.Total r] [IsTrans α r] (hc : c.Pairwise r) (h : c.Sublist v) :
    c.Sublist (sortVec r v) := by
  have : Std.Total fun a b => r b a := ⟨fun a b => Std.Total.total b a⟩
  have : IsTrans α fun a b => r b a := ⟨fun _ _ _ hab hbc => Trans.trans hbc hab⟩
  rw [sortVec_eq, ← reverse_sublist, reverse_reverse]
  exact sublist_insertionSort (pairwise_reverse.2 hc) (reverse_sublist.2 h)

/-- The elements that tie keep their order. -/
theorem filter_sortVec [Std.Total r] [IsTrans α r] {p : α → Bool}
    (hp : ∀ a b, p a = true → p b = true → r a b) : (sortVec r v).filter p = v.filter p := by
  have hpair : (v.filter p).Pairwise r :=
    pairwise_of_forall_mem_list fun a ha b hb => hp a b (of_mem_filter ha) (of_mem_filter hb)
  have hsub : (v.filter p).Sublist ((sortVec r v).filter p) := by
    rw [← filter_eq_self.2 fun a (ha : a ∈ v.filter p) => of_mem_filter ha]
    exact (sublist_sortVec r hpair filter_sublist).filter p
  exact (hsub.eq_of_length ((perm_sortVec r).filter p).length_eq.symm).symm

/-- The result is the same for every order of the input. -/
theorem sortVec_eq_of_perm [Std.Total r] [IsTrans α r] [Std.Antisymm r] (h : v.Perm w) :
    sortVec r v = sortVec r w :=
  List.Perm.eq_of_pairwise' (pairwise_sortVec r v) (pairwise_sortVec r w)
    ((perm_sortVec r).trans (h.trans (perm_sortVec r).symm))

/-! ### Distinct elements -/

section Changes

variable [DecidableEq α]

/-- What differs from the element before it, where `prev` is before the first. -/
def changesFrom (prev : α) : List α → List α
  | [] => []
  | a :: v => if a ≠ prev then a :: changesFrom a v else changesFrom a v

/-- What differs from the element before it, if there is one. -/
def changes : List α → List α
  | [] => []
  | a :: v => a :: changesFrom a v

variable {r} {a prev : α}

theorem mem_changesFrom : a ∈ prev :: changesFrom prev v ↔ a ∈ prev :: v := by
  induction v generalizing prev with
  | nil => rfl
  | cons b v ih =>
    rw [changesFrom]
    split
    · rw [mem_cons, ih, ← mem_cons]
    next heq =>
      rw [not_not.1 heq, ih]
      simp

theorem mem_changes : a ∈ changes v ↔ a ∈ v := by
  cases v with
  | nil => rfl
  | cons => exact mem_changesFrom

theorem pairwise_changesFrom {s : α → α → Prop} [Std.Antisymm s] (h : (prev :: v).Pairwise s) :
    (prev :: changesFrom prev v).Pairwise fun a b => s a b ∧ a ≠ b := by
  induction v generalizing prev with
  | nil => exact pairwise_singleton ..
  | cons b v ih =>
    obtain ⟨hprev, hv⟩ := pairwise_cons.1 h
    rw [changesFrom]
    split
    next hne =>
      refine pairwise_cons.2 ⟨fun a ha => ?_, ih hv⟩
      have hin := mem_changesFrom.1 ha
      refine ⟨hprev a hin, ?_⟩
      -- otherwise the one between them would be equal to both
      rintro rfl
      rcases mem_cons.1 hin with heq | hin
      · exact hne heq.symm
      · exact hne (Std.Antisymm.antisymm b prev ((pairwise_cons.1 hv).1 prev hin)
          (hprev b mem_cons_self))
    next heq =>
      obtain rfl := not_not.1 heq
      exact ih hv

/-- The changes of a sorted vector are sorted and distinct. -/
theorem pairwise_changes {s : α → α → Prop} [Std.Antisymm s] (h : v.Pairwise s) :
    (changes v).Pairwise fun a b => s a b ∧ a ≠ b := by
  cases v with
  | nil => exact .nil
  | cons => exact pairwise_changesFrom h

/-- The distinct elements, in order, depend on what is in the vector alone. -/
theorem changes_sortVec_congr [Std.Total r] [IsTrans α r] [Std.Antisymm r]
    (h : ∀ a, a ∈ v ↔ a ∈ w) :
    changes (sortVec r v) = changes (sortVec r w) := by
  have hv := pairwise_changes (pairwise_sortVec r v)
  have hw := pairwise_changes (pairwise_sortVec r w)
  have hperm : (changes (sortVec r v)).Perm (changes (sortVec r w)) := by
    refine (perm_ext_iff_of_nodup (hv.imp And.right) (hw.imp And.right)).2 fun a => ?_
    rw [mem_changes, mem_changes, (perm_sortVec r).mem_iff, (perm_sortVec r).mem_iff, h]
  exact List.Perm.eq_of_pairwise' (hv.imp And.left) (hw.imp And.left) hperm

end Changes

end Agnosai
