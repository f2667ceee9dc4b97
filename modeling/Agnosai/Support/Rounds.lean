import Mathlib.Order.WellFounded

/-!
# Support — Rounds

A loop of which nothing is known beforehand, not even that it ends: its rounds depend on what an
environment answers. It runs on fuel, and `none` is running out of it. `Ends f a` says that from
some amount of fuel on, `a` is the result of `f`.
-/

namespace Agnosai

variable {σ ρ α β : Type*}

/-- With enough fuel the computation gives `a`. -/
def Ends (f : Nat → Option α) (a : α) : Prop := ∃ N, ∀ n, N ≤ n → f n = some a

namespace Ends

variable {f : Nat → Option α} {g : α → Nat → Option β} {a : α} {b : β}

theorem const : Ends (fun _ => some a) a := ⟨0, fun _ _ => rfl⟩

/-- One computation after another, on the same fuel. -/
theorem bind (hf : Ends f a) (hg : Ends (g a) b) : Ends (fun n => (f n).bind fun a => g a n) b := by
  obtain ⟨N, hN⟩ := hf
  obtain ⟨M, hM⟩ := hg
  refine ⟨max N M, fun n hn => ?_⟩
  dsimp only
  rw [hN n (le_trans (le_max_left N M) hn), Option.bind_some]
  exact hM n (le_trans (le_max_right N M) hn)

end Ends

/-- At most `n` rounds from `s`: `inl` goes round again, `inr` leaves. -/
def rounds (step : σ → σ ⊕ ρ) (s : σ) : Nat → Option ρ
  | 0 => none
  | n + 1 =>
    match step s with
    | .inl s' => rounds step s' n
    | .inr r => some r

variable {step : σ → σ ⊕ ρ} {s s' : σ} {r : ρ}

theorem rounds_of_inl (h : step s = .inl s') (hr : Ends (rounds step s') r) :
    Ends (rounds step s) r := by
  obtain ⟨N, hN⟩ := hr
  refine ⟨N + 1, fun n hn => ?_⟩
  obtain ⟨m, rfl⟩ : ∃ m, n = m + 1 := ⟨n - 1, by omega⟩
  rw [rounds, h]
  exact hN m (Nat.le_of_succ_le_succ hn)

theorem rounds_of_inr (h : step s = .inr r) : Ends (rounds step s) r := by
  refine ⟨1, fun n hn => ?_⟩
  obtain ⟨m, rfl⟩ : ∃ m, n = m + 1 := ⟨n - 1, by omega⟩
  rw [rounds, h]

/-- **The rule for rounds.** What every round preserves holds at the round that leaves, and there is
one if every round goes down. -/
theorem rounds_ends {I : σ → Prop} {Q : ρ → Prop} {lt : σ → σ → Prop} (wf : WellFounded lt)
    (round : ∀ s, I s → (∃ s', step s = .inl s' ∧ I s' ∧ lt s' s) ∨ ∃ r, step s = .inr r ∧ Q r)
    (h : I s) : ∃ r, Ends (rounds step s) r ∧ Q r := by
  induction s using wf.induction with
  | h s ih =>
    obtain ⟨s', hstep, hI, hlt⟩ | ⟨r, hstep, hQ⟩ := round s h
    · obtain ⟨r, hr, hQ⟩ := ih s' hlt hI
      exact ⟨r, rounds_of_inl hstep hr, hQ⟩
    · exact ⟨r, rounds_of_inr hstep, hQ⟩

end Agnosai
