import Agnosai.Core.Bytes
import Agnosai.Support.Insertion

/-!
# Order

The byte-wise order of strings, after `order.cyr`, and the insertion sort of strings by it, which
the scheduler and the plan cache each write out. It is a linear order (`orderStrCmp_swap`,
`orderStrCmp_eq_zero`, `StrLe.trans`), so a list of strings has one sorted order.
-/

namespace Agnosai

open List

/-- `agnosai_order_str_cmp`: by the first byte that differs, and otherwise the shorter one first. -/
def orderStrCmp : Bytes → Bytes → Int
  | x :: xs, y :: ys => if x ≠ y then x.toNat - y.toNat else orderStrCmp xs ys
  | xs, ys => xs.length - ys.length

/-- `a` may stand before `b`. -/
def StrLe (a b : Bytes) : Prop := orderStrCmp a b ≤ 0

instance : DecidableRel StrLe := fun a b => inferInstanceAs (Decidable (orderStrCmp a b ≤ 0))

/-- `_agnosai_sched_sort_strs` and `_agnosai_plan_sorted`. -/
def sortStrs (v : List Bytes) : List Bytes := sortVec StrLe v

variable {a b c : Bytes}

theorem orderStrCmp_swap (a b : Bytes) : orderStrCmp b a = -orderStrCmp a b := by
  induction a generalizing b with
  | nil => cases b <;> simp [orderStrCmp]
  | cons x xs ih =>
    cases b with
    | nil => simp [orderStrCmp]
    | cons y ys =>
      by_cases heq : x = y
      · simp [orderStrCmp, heq, ih ys]
      · simp only [orderStrCmp, heq, Ne.symm heq, ne_eq, not_false_eq_true, if_true]
        omega

/-- Only equal strings compare equal. -/
theorem orderStrCmp_eq_zero : orderStrCmp a b = 0 ↔ a = b := by
  induction a generalizing b with
  | nil =>
    cases b with
    | nil => simp [orderStrCmp]
    | cons y ys =>
      simp only [orderStrCmp, length_nil, length_cons, reduceCtorEq, iff_false]
      omega
  | cons x xs ih =>
    cases b with
    | nil =>
      simp only [orderStrCmp, length_nil, length_cons, reduceCtorEq, iff_false]
      omega
    | cons y ys =>
      by_cases heq : x = y
      · simp [orderStrCmp, heq, ih]
      · have hne : x.toNat ≠ y.toNat := fun h => heq (UInt8.toNat_inj.1 h)
        simp only [orderStrCmp, heq, ne_eq, not_false_eq_true, if_true, cons.injEq, false_and,
          iff_false]
        omega

/-- The byte order is transitive. -/
theorem StrLe.trans (hab : StrLe a b) (hbc : StrLe b c) : StrLe a c := by
  unfold StrLe at *
  induction a generalizing b c with
  | nil =>
    cases c with
    | nil => simp [orderStrCmp]
    | cons z zs =>
      simp only [orderStrCmp, length_nil, length_cons]
      omega
  | cons x xs ih =>
    cases b with
    | nil =>
      simp only [orderStrCmp, length_nil, length_cons] at hab
      omega
    | cons y ys =>
      cases c with
      | nil =>
        simp only [orderStrCmp, length_nil, length_cons] at hbc
        omega
      | cons z zs =>
        -- the first byte settles it, unless all three agree there
        have hbyte : ∀ {u v : UInt8}, u ≠ v → u.toNat ≠ v.toNat :=
          fun hne h => hne (UInt8.toNat_inj.1 h)
        by_cases hxy : x = y
        · by_cases hyz : y = z
          · simp only [orderStrCmp, hxy, hyz, ne_eq, not_true_eq_false, if_false] at hab hbc ⊢
            exact ih hab hbc
          · simpa [orderStrCmp, hxy, hyz] using hbc
        · by_cases hyz : y = z
          · simpa [orderStrCmp, ← hyz, hxy] using hab
          · simp only [orderStrCmp, hxy, hyz, ne_eq, not_false_eq_true, if_true] at hab hbc
            have hlt := hbyte hxy
            have hxz : x ≠ z := by
              rintro rfl
              omega
            simp only [orderStrCmp, hxz, ne_eq, not_false_eq_true, if_true]
            omega

instance : Std.Total StrLe where
  total a b := by
    have hswap := orderStrCmp_swap a b
    unfold StrLe
    omega

instance : IsTrans Bytes StrLe where
  trans _ _ _ hab hbc := hab.trans hbc

instance : Std.Antisymm StrLe where
  antisymm a b hab hba := by
    have hswap := orderStrCmp_swap a b
    unfold StrLe at hab hba
    exact orderStrCmp_eq_zero.1 (by omega)

theorem perm_sortStrs (v : List Bytes) : (sortStrs v).Perm v := perm_sortVec StrLe

theorem mem_sortStrs {v : List Bytes} : a ∈ sortStrs v ↔ a ∈ v := (perm_sortStrs v).mem_iff

/-- Sorting forgets the order of the input. -/
theorem sortStrs_eq_iff {v w : List Bytes} : sortStrs v = sortStrs w ↔ v.Perm w := by
  constructor
  · intro h
    exact (perm_sortStrs v).symm.trans (h ▸ perm_sortStrs w)
  · exact sortVec_eq_of_perm StrLe

end Agnosai
