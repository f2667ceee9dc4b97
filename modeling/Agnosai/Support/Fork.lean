import Agnosai.Support.Spans

/-!
# Support — Fork

Two lists that begin alike, rewritten in lockstep. As long as the rewriting finds the same spans in
both it writes the same for both (`Spans.fork`); where it does not, they part. What was written
until then begins both results.
-/

namespace Agnosai

open List

variable {α : Type*}

/-- Two lists that begin alike: what they have in common, and how each goes on. -/
structure Fork (α : Type*) where
  common : List α
  left : List α
  right : List α

namespace Fork

def first (F : Fork α) : List α := F.common ++ F.left

def second (F : Fork α) : List α := F.common ++ F.right

/-- The same, after more that they have in common. -/
def after (xs : List α) (F : Fork α) : Fork α := { F with common := xs ++ F.common }

@[simp] theorem first_after (xs : List α) (F : Fork α) : (F.after xs).first = xs ++ F.first :=
  append_assoc ..

@[simp] theorem second_after (xs : List α) (F : Fork α) : (F.after xs).second = xs ++ F.second :=
  append_assoc ..

/-- The first `n` elements are settled: the lists have them in common, or the first list has no
more. -/
def Settled (F : Fork α) (n : Nat) : Prop := F.left = [] ∨ n ≤ F.common.length

instance [DecidableEq α] (F : Fork α) (n : Nat) : Decidable (F.Settled n) :=
  inferInstanceAs (Decidable (_ ∨ _))

theorem Settled.isPrefix {F : Fork α} {n : Nat} (h : F.Settled n) :
    F.first.take n <+: F.second := by
  obtain hnil | hle := h
  · rw [first, hnil, append_nil]
    exact (List.take_prefix n _).trans (prefix_append _ _)
  · rw [first, take_append_of_le_length hle]
    exact (List.take_prefix n _).trans (prefix_append _ _)

/-- Past what is settled, they go on with the same element. -/
theorem head?_eq_of_prefix {F : Fork α} {n : Nat} (hn : ¬ F.Settled n)
    (h : F.first.take n <+: F.second) : F.left.head? = F.right.head? := by
  obtain ⟨hne, hlt⟩ := not_or.1 hn
  obtain ⟨x, xs, hleft⟩ := exists_cons_of_ne_nil hne
  obtain ⟨k, rfl⟩ : ∃ k, n = F.common.length + (k + 1) := ⟨n - F.common.length - 1, by omega⟩
  rw [first, second, take_length_add_append, prefix_append_right_inj, hleft,
    take_succ_cons] at h
  obtain ⟨ys, hright⟩ := h
  rw [hleft, ← hright]
  rfl

end Fork

namespace Spans

variable (S : Spans α) (m : Marker α)

/-- Rewrite two lists that begin alike, of which the first so many elements belong to a span already
replaced. -/
def forkFrom (left right : List α) : Nat → List α → Fork α
  | n, [] => ⟨[], S.replaceFrom m n left, S.replaceFrom m n right⟩
  | n + 1, _ :: xs => forkFrom left right n xs
  | 0, x :: xs =>
    match S.find (x :: (xs ++ left)), S.find (x :: (xs ++ right)) with
    | none, none => (forkFrom left right 0 xs).after [x]
    | some n, some n' =>
      if n = n' then (forkFrom left right (n - 1) xs).after m.text
      else ⟨m.text, S.replaceFrom m (n - 1) (xs ++ left), S.replaceFrom m (n' - 1) (xs ++ right)⟩
    | _, _ => ⟨[], S.replace m (x :: (xs ++ left)), S.replace m (x :: (xs ++ right))⟩

/-- Rewrite two lists that begin alike. -/
def fork (F : Fork α) : Fork α := S.forkFrom m F.left F.right 0 F.common

/-- Each list is rewritten as it is by itself. -/
theorem forkFrom_spec (left right : List α) (n : Nat) (xs : List α) :
    (S.forkFrom m left right n xs).first = S.replaceFrom m n (xs ++ left) ∧
      (S.forkFrom m left right n xs).second = S.replaceFrom m n (xs ++ right) := by
  induction xs generalizing n with
  | nil => cases n <;> exact ⟨rfl, rfl⟩
  | cons x xs ih =>
    cases n with
    | succ n => exact ih n
    | zero =>
      rw [forkFrom, cons_append, cons_append, replaceFrom, replaceFrom]
      cases hl : S.find (x :: (xs ++ left)) <;> cases hr : S.find (x :: (xs ++ right))
      case none.none => simp [ih]
      case some.some n n' =>
        simp only
        split
        next heq =>
          simp [ih, heq]
        · exact ⟨rfl, rfl⟩
      all_goals simp [Fork.first, Fork.second, replace, replaceFrom, hl, hr]

theorem fork_first (F : Fork α) : (S.fork m F).first = S.replace m F.first :=
  (S.forkFrom_spec m F.left F.right 0 F.common).1

theorem fork_second (F : Fork α) : (S.fork m F).second = S.replace m F.second :=
  (S.forkFrom_spec m F.left F.right 0 F.common).2

variable (Ss : List (Spans α))

/-- One rewriting after another. -/
def replaceAll (m : Marker α) (xs : List α) : List α :=
  Ss.foldl (fun xs S => S.replace m xs) xs

/-- One rewriting after another, of two lists that begin alike. -/
def forkAll (m : Marker α) (F : Fork α) : Fork α :=
  Ss.foldl (fun F S => S.fork m F) F

theorem forkAll_first (F : Fork α) :
    (forkAll Ss m F).first = replaceAll Ss m F.first := by
  induction Ss generalizing F with
  | nil => rfl
  | cons S Ss ih => exact (ih (S.fork m F)).trans (congrArg (replaceAll Ss m) (S.fork_first m F))

theorem forkAll_second (F : Fork α) :
    (forkAll Ss m F).second = replaceAll Ss m F.second := by
  induction Ss generalizing F with
  | nil => rfl
  | cons S Ss ih => exact (ih (S.fork m F)).trans (congrArg (replaceAll Ss m) (S.fork_second m F))

end Spans

end Agnosai
