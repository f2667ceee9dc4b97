import Mathlib.Data.Nat.Find

/-!
# Support — Turns

A loop that takes turns with its environment until its state says stop. What the environment
brings to the `i`-th turn is `env i`, so an environment that does as it likes is any `env`. `run`
takes fuel, and `none` is running out of it. `after env s n` is the state after `n` turns whether
or not the loop would have stopped by then, and `run` is a search along it for the first state that
stops.
-/

namespace Agnosai

/-- A loop over states `σ` whose turns each consume a `τ`. -/
structure Turns (σ τ : Type*) where
  step : τ → σ → σ
  stop : σ → Bool

namespace Turns

variable {σ τ : Type*} (L : Turns σ τ) {env : Nat → τ} {s s' : σ} {fuel n : Nat}

/-- The state after `n` turns. -/
def after (env : Nat → τ) (s : σ) : Nat → σ
  | 0 => s
  | n + 1 => L.step (env n) (after env s n)

/-- A condition that starts false and holds after a turn just when it held before or the turn
brought it about holds just when some turn has. -/
theorem after_iff_exists {f : σ → Prop} {P : Nat → Prop} (hs : ¬ f s)
    (hstep : ∀ i < n, f (L.after env s (i + 1)) ↔ f (L.after env s i) ∨ P i) :
    f (L.after env s n) ↔ ∃ i < n, P i := by
  induction n with
  | zero =>
    constructor
    · exact fun h => absurd h hs
    · rintro ⟨i, hi, -⟩
      exact absurd hi i.not_lt_zero
  | succ n ih =>
    rw [hstep n n.lt_succ_self, ih fun i hi => hstep i (Nat.lt_succ_of_lt hi),
      Nat.exists_lt_succ_right]

/-- The loop from turn `i` on. -/
def runFrom (env : Nat → τ) : Nat → Nat → σ → Option σ
  | 0, _, s => if L.stop s then some s else none
  | fuel + 1, i, s => if L.stop s then some s else runFrom env fuel (i + 1) (L.step (env i) s)

/-- The loop, for at most `fuel` turns. -/
def run (env : Nat → τ) (fuel : Nat) (s : σ) : Option σ :=
  L.runFrom env fuel 0 s

private theorem runFrom_eq_some {i : Nat} (h : L.runFrom env fuel i (L.after env s i) = some s') :
    ∃ n, i ≤ n ∧ s' = L.after env s n ∧ L.stop s' = true ∧
      ∀ j, i ≤ j → j < n → L.stop (L.after env s j) = false := by
  induction fuel generalizing i with
  | zero =>
    rw [runFrom] at h
    split at h
    next hstop =>
      cases h
      exact ⟨i, le_rfl, rfl, hstop, fun j hij hji => absurd hij (not_le.2 hji)⟩
    next => cases h
  | succ fuel ih =>
    rw [runFrom] at h
    split at h
    next hstop =>
      cases h
      exact ⟨i, le_rfl, rfl, hstop, fun j hij hji => absurd hij (not_le.2 hji)⟩
    next hstop =>
      obtain ⟨n, hin, hs', hstop', hbefore⟩ := ih h
      refine ⟨n, Nat.le_of_succ_le hin, hs', hstop', fun j hij hjn => ?_⟩
      rcases Nat.eq_or_lt_of_le hij with rfl | hlt
      · exact Bool.not_eq_true _ ▸ hstop
      · exact hbefore j hlt hjn

/-- The loop ends in the first state that stops. -/
theorem run_eq_some (h : L.run env fuel s = some s') :
    ∃ n, s' = L.after env s n ∧ L.stop s' = true ∧
      ∀ j < n, L.stop (L.after env s j) = false := by
  obtain ⟨n, _, hs', hstop, hbefore⟩ := L.runFrom_eq_some h
  exact ⟨n, hs', hstop, fun j hj => hbefore j (Nat.zero_le j) hj⟩

private theorem runFrom_of_stop {i : Nat} (hstop : L.stop (L.after env s (i + n)) = true)
    (hbefore : ∀ j < n, L.stop (L.after env s (i + j)) = false) :
    L.runFrom env n i (L.after env s i) = some (L.after env s (i + n)) := by
  induction n generalizing i with
  | zero => exact if_pos hstop
  | succ n ih =>
    have hi : L.stop (L.after env s i) = false := hbefore 0 n.succ_pos
    have hshift : ∀ j, i + 1 + j = i + (j + 1) := fun j => by omega
    rw [runFrom, hi, if_neg Bool.false_ne_true, ← hshift n]
    refine ih ?_ fun j hj => ?_
    · rw [hshift]
      exact hstop
    · rw [hshift]
      exact hbefore (j + 1) (Nat.succ_lt_succ hj)

/-- With a turn of fuel for each turn up to the first state that stops, the loop ends there. -/
theorem run_of_stop (hstop : L.stop (L.after env s n) = true)
    (hbefore : ∀ j < n, L.stop (L.after env s j) = false) :
    L.run env n s = some (L.after env s n) := by
  rw [← Nat.zero_add n] at hstop
  have h := L.runFrom_of_stop hstop fun j hj => (Nat.zero_add j).symm ▸ hbefore j hj
  rwa [Nat.zero_add] at h

/-- The loop ends if any state along it stops. -/
theorem exists_run (hstop : L.stop (L.after env s n) = true) :
    ∃ fuel s', L.run env fuel s = some s' := by
  have hexists : ∃ m, L.stop (L.after env s m) = true := ⟨n, hstop⟩
  refine ⟨Nat.find hexists, _, L.run_of_stop (Nat.find_spec hexists) fun j hj => ?_⟩
  exact Bool.eq_false_iff.2 (Nat.find_min hexists hj)

end Turns

end Agnosai
