import Mathlib.Data.List.Basic

/-!
# Support — Slide

Keeping some elements of a list in place: one index reads along the list and another says where the
next element that stays is written. The index that writes is never ahead of the one that reads, so
nothing is written over before it is read.
-/

namespace Agnosai

open List

variable {α : Type*} (p : α → Bool)

/-- So many rounds: the list, and where the next element that stays goes. -/
def slideLoop : Nat → Nat → Nat → List α → List α × Nat
  | 0, _, kept, xs => (xs, kept)
  | n + 1, i, kept, xs =>
    match xs[i]? with
    | none => (xs, kept)
    | some x =>
      if p x then slideLoop n (i + 1) (kept + 1) (xs.set kept x) else slideLoop n (i + 1) kept xs

/-- From `i` on, slide the elements that stay down to `kept`, and cut off the rest. -/
def slide (i kept : Nat) (xs : List α) : List α :=
  let (xs, kept) := slideLoop p (xs.length - i) i kept xs
  xs.take kept

variable {p}

/-- The slide is a filter in place. -/
theorem slideLoop_eq (n i kept : Nat) (xs : List α) (hi : i + n = xs.length) (hle : kept ≤ i) :
    (slideLoop p n i kept xs).1.take (slideLoop p n i kept xs).2 =
      xs.take kept ++ (xs.drop i).filter p := by
  induction n generalizing i kept xs with
  | zero =>
    rw [slideLoop, drop_eq_nil_of_le (by omega), filter_nil, append_nil]
  | succ n ih =>
    have hlt : i < xs.length := by omega
    rw [slideLoop, getElem?_eq_getElem hlt, drop_eq_getElem_cons hlt, filter_cons]
    simp only
    split
    · -- the element goes to `kept`, behind what is still to be read
      rw [ih (i + 1) (kept + 1) _ (by rw [length_set]; omega) (by omega),
        drop_set_of_lt (Nat.lt_succ_of_le hle), take_add_one, take_set_of_le (Nat.le_refl kept),
        getElem?_set_self (by omega), Option.toList_some, append_assoc]
      rfl
    · exact ih (i + 1) kept xs (by omega) (by omega)

/-- **What is left**: what was in front, and from there on what stays. -/
theorem slide_eq {i kept : Nat} {xs : List α} (hi : i ≤ xs.length) (hle : kept ≤ i) :
    slide p i kept xs = xs.take kept ++ (xs.drop i).filter p :=
  slideLoop_eq (xs.length - i) i kept xs (by omega) hle

end Agnosai
