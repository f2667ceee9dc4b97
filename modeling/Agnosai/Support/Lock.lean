import Mathlib.Logic.Function.Basic

/-!
# Support — Lock

A lock and the threads that take it. Each thread is at a point of its program, and some of the
points are the region that the lock protects. `Owns` says that the holder is the thread in the
region: so there is one at most (`Owns.unique`), and it stays so when a thread enters with the lock
free, leaves and frees it, or moves within or outside.
-/

namespace Agnosai

open Function

/-- The lock is held by the thread that is in the region, and free if none is. -/
def Owns {τ π : Type*} (region : π → Prop) (pc : τ → π) (holder : Option τ) : Prop :=
  ∀ t, holder = some t ↔ region (pc t)

namespace Owns

variable {τ π : Type*} {region : π → Prop} {pc : τ → π} {holder : Option τ} {t t' : τ} {p : π}

/-- **Mutual exclusion.** -/
theorem unique (h : Owns region pc holder) (ht : region (pc t)) (ht' : region (pc t')) : t = t' :=
  Option.some.inj (((h t).2 ht).symm.trans ((h t').2 ht'))

variable [DecidableEq τ]

theorem acquire (h : Owns region pc none) (hp : region p) :
    Owns region (update pc t p) (some t) := by
  intro t'
  by_cases htt : t' = t
  · subst htt
    rw [update_self]
    exact iff_of_true rfl hp
  · rw [update_of_ne htt]
    refine iff_of_false (fun heq => htt (Option.some.inj heq).symm) fun hin => ?_
    cases (h t').2 hin

theorem release (h : Owns region pc holder) (ht : region (pc t)) (hp : ¬ region p) :
    Owns region (update pc t p) none := by
  intro t'
  by_cases htt : t' = t
  · subst htt
    rw [update_self]
    exact iff_of_false (by simp) hp
  · rw [update_of_ne htt]
    exact iff_of_false (by simp) fun hin => htt (h.unique hin ht)

theorem move (h : Owns region pc holder) (hp : region p ↔ region (pc t)) :
    Owns region (update pc t p) holder := by
  intro t'
  by_cases htt : t' = t
  · subst htt
    rw [update_self, hp]
    exact h t'
  · rw [update_of_ne htt]
    exact h t'

end Owns

end Agnosai
