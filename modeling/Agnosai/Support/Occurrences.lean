import Agnosai.Support.Spans

/-!
# Support — Occurrences

Where a word occurs in a list. Writing an element that is not in the word takes occurrences out and
makes none (`prefix_of_set`, `not_prefix_set`), and such an element between two lists keeps their
occurrences apart (`occurrences_append_cons`).
-/

namespace Agnosai

open List

variable {α : Type*} {w xs ys : List α} {a : α} {p j : Nat}

/-- Writing something that is not in a word makes no occurrence of it. -/
theorem prefix_of_set (ha : a ∉ w) (h : w <+: (xs.set j a).drop p) : w <+: xs.drop p := by
  rw [prefix_iff_getElem?] at h ⊢
  intro k hk
  have hset := h k hk
  rw [getElem?_drop, getElem?_set] at hset
  split at hset
  · split at hset
    · -- the word would have what was written
      exact absurd (Option.some.inj hset ▸ getElem_mem hk) ha
    · cases hset
  · rw [getElem?_drop, hset]

/-- Written into an occurrence, it takes it out. -/
theorem not_prefix_set (ha : a ∉ w) {k : Nat} (hk : k < w.length) (hj : p + k < xs.length) :
    ¬ w <+: (xs.set (p + k) a).drop p := by
  intro h
  have hset := prefix_iff_getElem?.1 h k hk
  rw [getElem?_drop, getElem?_set, if_pos rfl, if_pos hj] at hset
  exact ha (Option.some.inj hset ▸ getElem_mem hk)

variable [DecidableEq α]

def occurrences (w xs : List α) : List Nat :=
  (range xs.length).filter fun p => w.isPrefixOf (xs.drop p)

theorem mem_occurrences (hw : w ≠ []) : p ∈ occurrences w xs ↔ w <+: xs.drop p := by
  rw [occurrences, mem_filter, mem_range, isPrefixOf_iff_prefix]
  refine ⟨And.right, fun h => ⟨?_, h⟩⟩
  by_contra hle
  rw [drop_eq_nil_of_le (not_lt.1 hle)] at h
  exact hw (prefix_nil.1 h)

theorem occurrences_eq_nil (hw : w ≠ []) : occurrences w xs = [] ↔ ∀ p, ¬ w <+: xs.drop p := by
  rw [eq_nil_iff_forall_not_mem]
  exact forall_congr' fun p => not_congr (mem_occurrences hw)

/-- What is not in a word ends its occurrences. -/
theorem occurrences_append_cons (hw : w ≠ []) (ha : a ∉ w) :
    occurrences w (xs ++ a :: ys) =
      occurrences w xs ++ (occurrences w ys).map (xs.length + 1 + ·) := by
  have hrange : range (xs ++ a :: ys).length =
      range xs.length ++ (xs.length :: (range ys.length).map (xs.length + 1 + ·)) := by
    rw [length_append, length_cons, range_add, range_succ_eq_map]
    simp [Function.comp_def, Nat.add_assoc, Nat.add_comm 1]
  have hbefore : ∀ p ∈ range xs.length,
      w.isPrefixOf ((xs ++ a :: ys).drop p) = w.isPrefixOf (xs.drop p) := by
    intro p hp
    rw [drop_append_of_le_length (mem_range.1 hp).le, Bool.eq_iff_iff,
      isPrefixOf_iff_prefix, isPrefixOf_iff_prefix]
    exact ⟨fun h => prefix_of_prefix_append_cons _ ha h, fun h => h.trans (prefix_append _ _)⟩
  have hat : w.isPrefixOf ((xs ++ a :: ys).drop xs.length) = false := by
    rw [drop_left, Bool.eq_false_iff, ne_eq, isPrefixOf_iff_prefix]
    exact not_prefix_cons_of_notMem hw ha
  have hafter : ∀ p, (xs ++ a :: ys).drop (xs.length + 1 + p) = ys.drop p := by
    intro p
    rw [Nat.add_assoc, ← drop_drop, drop_left, Nat.add_comm, drop_succ_cons]
  rw [occurrences, hrange, filter_append, filter_cons, hat, filter_map]
  simp only [Bool.false_eq_true, if_false, Function.comp_def, hafter]
  rw [filter_congr hbefore]
  rfl

end Agnosai
