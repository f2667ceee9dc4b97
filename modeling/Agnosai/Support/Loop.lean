import Mathlib.Data.List.Forall2

/-!
# Support — Loop

A loop whose body either goes round again or leaves with a value, together with a measure that
every round decreases. The measure is a field, so a `Loop` that does not terminate cannot be
built, and `Loop.run` is a total function that still computes: it recurses on a budget read off the
measure, which is never used up (`Loop.within_isSome`).

`mapM` over `Except` is the other loop of the source, over a list and up to the first error.
-/

namespace Agnosai

open List

/-- A terminating loop over states `σ` that leaves with a `ρ`. -/
structure Loop (σ ρ : Type) where
  /-- One round: `inl` goes round again, `inr` leaves. -/
  step : σ → σ ⊕ ρ
  /-- What every round makes smaller. -/
  measure : σ → Nat
  decreasing : ∀ {s s' : σ}, step s = .inl s' → measure s' < measure s

namespace Loop

variable {σ ρ : Type} (L : Loop σ ρ)

/-- At most `n` rounds; `none` when they do not suffice. -/
def within : Nat → σ → Option ρ
  | 0, _ => none
  | n + 1, s =>
    match L.step s with
    | .inl s' => within n s'
    | .inr r => some r

variable {s : σ}

/-- The budget read off the measure always suffices. -/
theorem within_isSome {n : Nat} (h : L.measure s < n) : (L.within n s).isSome := by
  induction n generalizing s with
  | zero => exact absurd h (Nat.not_lt_zero _)
  | succ n ih =>
    unfold within
    cases e : L.step s with
    | inl => exact ih (Nat.lt_of_lt_of_le (L.decreasing e) (Nat.le_of_lt_succ h))
    | inr => rfl

/-- The loop's value from `s`. -/
def run (s : σ) : ρ :=
  (L.within (L.measure s + 1) s).get (L.within_isSome (Nat.lt_succ_self _))

/-- A larger budget finds the same value. -/
theorem within_mono {n m : Nat} {r : ρ} (h : L.within n s = some r) (hnm : n ≤ m) :
    L.within m s = some r := by
  induction n generalizing m s with
  | zero => cases h
  | succ n ih =>
    obtain ⟨m, rfl⟩ : ∃ k, m = k + 1 := ⟨m - 1, by omega⟩
    unfold within at h ⊢
    cases e : L.step s with
    | inl =>
      rw [e] at h
      exact ih h (Nat.le_of_succ_le_succ hnm)
    | inr =>
      rw [e] at h
      exact h

theorem within_eq_run {n : Nat} (h : L.measure s < n) : L.within n s = some (L.run s) := by
  have hr : L.within (L.measure s + 1) s = some (L.run s) := (Option.some_get _).symm
  exact L.within_mono hr h

/-- **Unrolling.** One round, then the rest of the loop. -/
theorem run_eq :
    L.run s = match L.step s with
      | .inl s' => L.run s'
      | .inr r => r := by
  have hr : L.within (L.measure s + 1) s = some (L.run s) := L.within_eq_run (Nat.lt_succ_self _)
  unfold within at hr
  cases e : L.step s with
  | inl =>
    rw [e] at hr
    have hs' := L.within_eq_run (L.decreasing e)
    exact Option.some.inj (hr.symm.trans hs')
  | inr =>
    rw [e] at hr
    exact (Option.some.inj hr).symm

theorem run_of_inl {s' : σ} (h : L.step s = .inl s') : L.run s = L.run s' := by
  rw [L.run_eq, h]

theorem run_of_inr {r : ρ} (h : L.step s = .inr r) : L.run s = r := by
  rw [L.run_eq, h]

/-- **The invariant rule.** What every round preserves holds at the round that leaves. -/
theorem run_spec {I : σ → Prop} {Q : ρ → Prop} (round : ∀ s s', I s → L.step s = .inl s' → I s')
    (leave : ∀ s r, I s → L.step s = .inr r → Q r)
    (h : I s) : Q (L.run s) := by
  induction hm : L.measure s using Nat.strongRecOn generalizing s with
  | ind m ih =>
    cases e : L.step s with
    | inl s' =>
      rw [L.run_of_inl e]
      exact ih _ (hm ▸ L.decreasing e) (round s s' h e) rfl
    | inr r =>
      rw [L.run_of_inr e]
      exact leave s r h e

/-- The same, by what a round can come to. -/
theorem run_rule {R : σ → σ → Prop} {E : σ → ρ → Prop} {I : σ → Prop} {Q : ρ → Prop}
    (step : ∀ s, Sum.elim (R s) (E s) (L.step s)) (round : ∀ s s', I s → R s s' → I s')
    (leave : ∀ s r, I s → E s r → Q r) (h : I s) : Q (L.run s) := by
  refine L.run_spec (fun s s' hI hs => round s s' hI ?_) (fun s r hI hs => leave s r hI ?_) h
  · simpa [hs] using step s
  · simpa [hs] using step s

/-- **Two loops in step.** Loops whose rounds keep their states related leave with the same
value. -/
theorem run_rel {σ' : Type} {L' : Loop σ' ρ} {R : σ → σ' → Prop}
    (round : ∀ s s', R s s' → Sum.LiftRel R Eq (L.step s) (L'.step s')) {s' : σ'} (h : R s s') :
    L.run s = L'.run s' := by
  induction hm : L.measure s using Nat.strongRecOn generalizing s s' with
  | ind m ih =>
    have hround := round s s' h
    cases e : L.step s with
    | inl =>
      rw [e] at hround
      cases e' : L'.step s' with
      | inl =>
        rw [e', Sum.liftRel_inl_inl] at hround
        rw [L.run_of_inl e, L'.run_of_inl e']
        exact ih _ (hm ▸ L.decreasing e) hround rfl
      | inr =>
        rw [e'] at hround
        cases hround
    | inr =>
      rw [e] at hround
      cases e' : L'.step s' with
      | inl =>
        rw [e'] at hround
        cases hround
      | inr =>
        rw [e', Sum.liftRel_inr_inr] at hround
        rw [L.run_of_inr e, L'.run_of_inr e', hround]

end Loop

/-! ### Over a list, up to the first error -/

/-- A computation that got through: its first part did, and so did the rest. -/
theorem bind_ok {α γ ε : Type} {x : Except ε α} {f : α → Except ε γ} {r : γ} (h : x >>= f = .ok r) :
    ∃ a, x = .ok a ∧ f a = .ok r := by
  cases x with
  | error => cases h
  | ok a => exact ⟨a, rfl, h⟩

/-- A loop that got through took one step for each element. -/
theorem mapM_forall₂ {α γ ε : Type} {f : α → Except ε γ} {l : List α} {r : List γ}
    (h : l.mapM f = .ok r) : Forall₂ (fun x y => f x = .ok y) l r := by
  induction l generalizing r with
  | nil =>
    cases h
    exact .nil
  | cons x l ih =>
    rw [mapM_cons] at h
    obtain ⟨y, hx, h⟩ := bind_ok h
    obtain ⟨r', hl, h⟩ := bind_ok h
    cases h
    exact .cons hx (ih hl)

/-- A loop that got through: what it made of each element, and what held of it. -/
theorem mapM_ok {α γ ε : Type} {f : α → Except ε γ} {g : α → γ} {P : α → Prop} {l : List α}
    {r : List γ} (hf : ∀ x y, f x = .ok y → y = g x ∧ P x) (h : l.mapM f = .ok r) :
    r = l.map g ∧ ∀ x ∈ l, P x := by
  have hall := mapM_forall₂ h
  clear h
  induction hall with
  | nil => exact ⟨rfl, nofun⟩
  | @cons x y l r hx _ ih =>
    obtain ⟨rfl, hP⟩ := hf x y hx
    exact ⟨by rw [ih.1, map_cons], forall_mem_cons.2 ⟨hP, ih.2⟩⟩

/-- A loop that stops at the first bad element. -/
theorem mapM_find {α γ ε : Type} {f : α → Except ε γ} {g : α → γ} {e : α → ε} {bad : α → Bool}
    {l : List α} (hf : ∀ x ∈ l, f x = if bad x then .error (e x) else .ok (g x)) :
    l.mapM f = match l.find? bad with
      | some x => .error (e x)
      | none => .ok (l.map g) := by
  induction l with
  | nil => rfl
  | cons x l ih =>
    obtain ⟨hx, hl⟩ := forall_mem_cons.1 hf
    rw [mapM_cons, hx, ih hl, find?_cons]
    cases bad x with
    | true => rfl
    | false =>
      cases l.find? bad with
      | some => rfl
      | none => rfl

end Agnosai
