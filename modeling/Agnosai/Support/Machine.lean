import Agnosai.Support.Trace

/-!
# Support — Machine

A machine takes actions: `step s a` is the state after action `a`, or `none` where `a` is not
possible. Several threads are one machine whose actions say which thread moves, so a list of
actions is an interleaving, and what is proved of every list holds in every interleaving.

`exec` runs a list of actions, and `Along P` says that each of them meets `P` in the state it is
taken in. The rule `exec_rule` is the one induction over runs. `Since E K` says of a run that an
action met `E` and that `K` has held ever since. `Last E` is the last action that met `E`, and
`times E` counts the actions that met `E`.
-/

namespace Agnosai

open List Option

/-- States `σ` moved by actions `α`. -/
structure Machine (σ α : Type*) where
  step : σ → α → Option σ

namespace Machine

variable {σ α : Type*} (M : Machine σ α) {s s' t : σ} {as bs : List α} {a : α}

/-- The state after a list of actions, if each was possible. -/
def exec (s : σ) : List α → Option σ
  | [] => some s
  | a :: as =>
    match M.step s a with
    | none => none
    | some s' => exec s' as

/-- Each action of the run meets `P` in the state it is taken in. -/
def Along (P : σ → α → Prop) (s : σ) : List α → Prop
  | [] => True
  | a :: as => P s a ∧ ∀ s', M.step s a = some s' → Along P s' as

/-- A condition that can be checked at a step can be checked along a run. -/
instance decidableAlong {P : σ → α → Prop} [∀ s a, Decidable (P s a)] :
    ∀ s as, Decidable (M.Along P s as)
  | _, [] => .isTrue trivial
  | s, a :: as =>
    match hs : M.step s a with
    | none =>
      decidable_of_iff (P s a) ⟨fun h => ⟨h, fun s' hs' => by simp [hs] at hs'⟩, fun h => h.1⟩
    | some s' =>
      have : Decidable (M.Along P s' as) := decidableAlong s' as
      decidable_of_iff (P s a ∧ M.Along P s' as)
        ⟨fun h => ⟨h.1, fun _ ht => some.inj (hs.symm.trans ht) ▸ h.2⟩, fun h => ⟨h.1, h.2 s' hs⟩⟩

theorem exec_cons (h : M.step s a = some s') : M.exec s (a :: as) = M.exec s' as := by
  simp only [exec, h]

theorem exec_cons_some (h : M.exec s (a :: as) = some t) :
    ∃ s', M.step s a = some s' ∧ M.exec s' as = some t := by
  cases hs : M.step s a with
  | none => simp only [exec, hs, reduceCtorEq] at h
  | some s' => exact ⟨s', rfl, by rwa [M.exec_cons hs] at h⟩

theorem exec_append (h : M.exec s as = some s') : M.exec s (as ++ bs) = M.exec s' bs := by
  induction as generalizing s with
  | nil =>
    cases h
    rfl
  | cons a as ih =>
    obtain ⟨s₁, hs, h₁⟩ := M.exec_cons_some h
    rw [cons_append, M.exec_cons hs, ih h₁]

theorem exec_append_some (h : M.exec s (as ++ bs) = some t) :
    ∃ s', M.exec s as = some s' ∧ M.exec s' bs = some t := by
  induction as generalizing s with
  | nil => exact ⟨s, rfl, h⟩
  | cons a as ih =>
    obtain ⟨s₁, hs, h₁⟩ := M.exec_cons_some h
    obtain ⟨s', hs', ht⟩ := ih h₁
    exact ⟨s', by rwa [M.exec_cons hs], ht⟩

theorem exec_snoc (h : M.exec s as = some s') (ha : M.step s' a = some t) :
    M.exec s (as ++ [a]) = some t := by
  rw [M.exec_append h, M.exec_cons ha]
  rfl

variable {P Q : σ → α → Prop}

theorem Along.cons (hs : M.step s a = some s') (ha : P s a)
    (h : M.Along P s' as) : M.Along P s (a :: as) :=
  ⟨ha, fun _ ht => some.inj (hs.symm.trans ht) ▸ h⟩

theorem Along.append_left (h : M.Along P s (as ++ bs)) : M.Along P s as := by
  induction as generalizing s with
  | nil => trivial
  | cons a as ih => exact ⟨h.1, fun s' hs => ih (h.2 s' hs)⟩

theorem Along.append_right (h : M.Along P s (as ++ bs))
    (hs : M.exec s as = some s') : M.Along P s' bs := by
  induction as generalizing s with
  | nil =>
    cases hs
    exact h
  | cons a as ih =>
    obtain ⟨s₁, h₁, hs'⟩ := M.exec_cons_some hs
    exact ih (h.2 s₁ h₁) hs'

theorem Along.append (h : M.Along P s as) (hs : M.exec s as = some s')
    (h' : M.Along P s' bs) : M.Along P s (as ++ bs) := by
  induction as generalizing s with
  | nil =>
    cases hs
    exact h'
  | cons a as ih =>
    obtain ⟨s₁, h₁, hs'⟩ := M.exec_cons_some hs
    exact .cons M h₁ h.1 (ih (h.2 s₁ h₁) hs')

theorem Along.mono (hPQ : ∀ s a, P s a → Q s a) (h : M.Along P s as) :
    M.Along Q s as := by
  induction as generalizing s with
  | nil => trivial
  | cons a as ih => exact ⟨hPQ s a h.1, fun s' hs => ih (h.2 s' hs)⟩

theorem Along.and (hP : M.Along P s as) (hQ : M.Along Q s as) :
    M.Along (fun s a => P s a ∧ Q s a) s as := by
  induction as generalizing s with
  | nil => trivial
  | cons a as ih => exact ⟨⟨hP.1, hQ.1⟩, fun s' hs => ih (hP.2 s' hs) (hQ.2 s' hs)⟩

/-- A condition on the actions alone. -/
theorem along_of_mem {P : α → Prop} (h : ∀ a ∈ as, P a) : M.Along (fun _ a => P a) s as := by
  induction as generalizing s with
  | nil => trivial
  | cons a as ih =>
    exact ⟨h a mem_cons_self, fun s' _ => ih fun b hb => h b (mem_cons_of_mem a hb)⟩

/-- A condition on the steps holds along a run when each step meets it where the run so far
leads. -/
theorem along_of_exec
    (h : ∀ pre a post s', as = pre ++ a :: post → M.exec s pre = some s' → P s' a) :
    M.Along P s as := by
  induction as generalizing s with
  | nil => trivial
  | cons a as ih =>
    refine ⟨h [] a as s rfl rfl, fun s₁ hs => ih fun pre b post s' heq hrun => ?_⟩
    exact h (a :: pre) b post s' (by rw [heq, cons_append]) (by rwa [M.exec_cons hs])

/-- **The rule for runs.** What is true at the start, and kept by every step that meets `P`, is
true at the end of every run whose steps meet `P`. -/
theorem exec_rule {I : List α → σ → Prop} (start : I [] s)
    (keep : ∀ as s a s', I as s → P s a → M.step s a = some s' → I (as ++ [a]) s')
    (hP : M.Along P s as) (h : M.exec s as = some t) : I as t := by
  have hgen : ∀ (as pre : List α) (s : σ), I pre s → M.Along P s as → M.exec s as = some t →
      I (pre ++ as) t := by
    intro as
    induction as with
    | nil =>
      intro pre s hI _ h
      cases h
      rwa [append_nil]
    | cons a as ih =>
      intro pre s hI hP h
      obtain ⟨s₁, hs, h₁⟩ := M.exec_cons_some h
      have hI₁ := ih (pre ++ [a]) s₁ (keep pre s a s₁ hI hP.1 hs) (hP.2 s₁ hs) h₁
      rwa [append_assoc] at hI₁
  exact hgen as [] s start hP h

/-- The rule for runs with no condition on the steps, where the run so far may be used. -/
theorem exec_history {I : List α → σ → Prop} (start : I [] s)
    (keep : ∀ as s₁ a s₂, M.exec s as = some s₁ → I as s₁ → M.step s₁ a = some s₂ →
      I (as ++ [a]) s₂)
    (h : M.exec s as = some t) : I as t := by
  refine (M.exec_rule (I := fun as s₁ => M.exec s as = some s₁ ∧ I as s₁) ⟨rfl, start⟩ ?_
    (M.along_of_mem fun _ _ => trivial) h).2
  rintro as s₁ a s₂ ⟨hrun, hI⟩ - hstep
  exact ⟨M.exec_snoc hrun hstep, keep as s₁ a s₂ hrun hI hstep⟩

/-- The rule for invariants: what is true at the start and kept by every step is true of every state
that is reached. -/
theorem exec_invariant {I : σ → Prop} (start : I s)
    (keep : ∀ s a s', I s → M.step s a = some s' → I s') (h : M.exec s as = some t) : I t :=
  M.exec_history start (fun _ s₁ a s₂ _ hI hstep => keep s₁ a s₂ hI hstep) h

/-- **Bounded runs.** Where a measure goes down with every step, a run takes no more steps than the
measure allows. -/
theorem exec_length_le {I : σ → Prop} (μ : σ → Nat)
    (keep : ∀ s a s', I s → M.step s a = some s' → I s' ∧ μ s' < μ s) (start : I s)
    (h : M.exec s as = some t) : as.length + μ t ≤ μ s := by
  induction as generalizing s with
  | nil =>
    cases h
    exact Nat.le_of_eq (Nat.zero_add _)
  | cons a as ih =>
    obtain ⟨s₁, hs, h₁⟩ := M.exec_cons_some h
    obtain ⟨hI, hlt⟩ := keep s a s₁ start hs
    have hle := ih hI h₁
    rw [length_cons]
    omega

/-! ### Since -/

/-- In the run, an action met `E` in the state it was taken in, and `K` has held from the state
after it on. -/
def Since (E : σ → α → Prop) (K : σ → Prop) (s : σ) (as : List α) : Prop :=
  ∃ pre a post s₁, as = pre ++ a :: post ∧ M.exec s pre = some s₁ ∧ E s₁ a ∧
    ∀ mid, mid <+: post → ∀ s₂, M.exec s (pre ++ a :: mid) = some s₂ → K s₂

variable {E : σ → α → Prop} {K : σ → Prop}

theorem not_since_nil : ¬ M.Since E K s [] := by
  rintro ⟨pre, a, post, s₁, h, -⟩
  exact absurd h.symm (append_ne_nil_of_right_ne_nil pre (cons_ne_nil a post))

/-- One more action: `K` holds after it, and the event was before it or is this action. -/
theorem since_snoc (h : M.exec s as = some s') (ha : M.step s' a = some t) :
    M.Since E K s (as ++ [a]) ↔ K t ∧ (M.Since E K s as ∨ E s' a) := by
  have hrun : M.exec s (as ++ [a]) = some t := M.exec_snoc h ha
  constructor
  · rintro ⟨pre, b, post, s₁, happ, hpre, hE, hK⟩
    refine ⟨hK post prefix_rfl t (happ ▸ hrun), ?_⟩
    obtain ⟨-, rfl, rfl⟩ | ⟨post', rfl, rfl⟩ := snoc_eq_append_cons happ
    · -- the event is the last action
      rw [h] at hpre
      exact .inr (some.inj hpre ▸ hE)
    · refine .inl ⟨pre, b, post', s₁, rfl, hpre, hE, fun mid hmid => hK mid ?_⟩
      exact hmid.trans (prefix_append post' [a])
  · rintro ⟨hKt, ⟨pre, b, post, s₁, rfl, hpre, hE, hK⟩ | hE⟩
    · refine ⟨pre, b, post ++ [a], s₁, by rw [append_assoc, cons_append], hpre, hE, ?_⟩
      intro mid hmid s₂ hs₂
      rcases prefix_concat_iff.1 hmid with rfl | hmid
      · rw [← cons_append, ← append_assoc, hrun] at hs₂
        exact some.inj hs₂ ▸ hKt
      · exact hK mid hmid s₂ hs₂
    · refine ⟨as, a, [], s', rfl, h, hE, fun mid hmid s₂ hs₂ => ?_⟩
      obtain rfl := prefix_nil.1 hmid
      rw [hrun] at hs₂
      exact some.inj hs₂ ▸ hKt

/-- **The rule for `Since`.** A predicate of the state that starts out false and, in the states that
are reached, moves as `Since` does is `Since`. -/
theorem since_rule {T : σ → Prop} (start : ¬ T s)
    (keep : ∀ as s₁ a s₂, M.exec s as = some s₁ → M.step s₁ a = some s₂ →
      (T s₂ ↔ K s₂ ∧ (T s₁ ∨ E s₁ a)))
    (h : M.exec s as = some t) : T t ↔ M.Since E K s as := by
  refine M.exec_history (I := fun as t => T t ↔ M.Since E K s as) ?_ ?_ h
  · exact iff_of_false start M.not_since_nil
  · intro as s₁ a s₂ hrun hI hstep
    rw [M.since_snoc hrun hstep, keep as s₁ a s₂ hrun hstep, hI]

/-! ### The last action that met a condition -/

/-- The action `a`, taken in `s₁`, is the last one of the run that met `E`. -/
def Last (E : σ → α → Prop) (s : σ) (as : List α) (s₁ : σ) (a : α) : Prop :=
  ∃ pre post, as = pre ++ a :: post ∧ M.exec s pre = some s₁ ∧ E s₁ a ∧
    ∀ mid b rest s₂, post = mid ++ b :: rest → M.exec s (pre ++ a :: mid) = some s₂ → ¬ E s₂ b

variable {s₁ : σ} {b : α}

theorem not_last_nil : ¬ M.Last E s [] s₁ a := by
  rintro ⟨pre, post, h, -⟩
  exact absurd h.symm (append_ne_nil_of_right_ne_nil pre (cons_ne_nil a post))

/-- One more action is the last one to meet `E`, or does not meet it. -/
theorem last_snoc (h : M.exec s as = some s') :
    M.Last E s (as ++ [b]) s₁ a ↔ E s' b ∧ s₁ = s' ∧ a = b ∨ ¬ E s' b ∧ M.Last E s as s₁ a := by
  constructor
  · rintro ⟨pre, post, happ, hpre, hE, hlater⟩
    obtain ⟨-, rfl, rfl⟩ | ⟨post', rfl, rfl⟩ := snoc_eq_append_cons happ
    · obtain rfl : s₁ = s' := some.inj (hpre.symm.trans h)
      exact .inl ⟨hE, rfl, rfl⟩
    · refine .inr ⟨hlater post' b [] s' rfl h, pre, post', rfl, hpre, hE, ?_⟩
      intro mid c rest s₂ hsplit
      exact hlater mid c (rest ++ [b]) s₂ (by rw [hsplit, append_assoc, cons_append])
  · rintro (⟨hE, rfl, rfl⟩ | ⟨hnot, pre, post, rfl, hpre, hE, hlater⟩)
    · refine ⟨as, [], rfl, h, hE, fun mid c rest s₂ hsplit => ?_⟩
      exact absurd hsplit.symm (append_ne_nil_of_right_ne_nil mid (cons_ne_nil c rest))
    · refine ⟨pre, post ++ [b], by rw [append_assoc, cons_append], hpre, hE, ?_⟩
      intro mid c rest s₂ hsplit hmid
      obtain ⟨-, rfl, rfl⟩ | ⟨rest', -, hsplit⟩ := snoc_eq_append_cons hsplit
      · exact some.inj (h.symm.trans hmid) ▸ hnot
      · exact hlater mid c rest' s₂ hsplit hmid

/-! ### Counting actions -/

/-- How many actions of the run met `E` in the state they were taken in. -/
def times (E : σ → α → Bool) (s : σ) : List α → Nat
  | [] => 0
  | a :: as =>
    (if E s a then 1 else 0) +
      match M.step s a with
      | none => 0
      | some s' => times E s' as

theorem times_append {E : σ → α → Bool} (h : M.exec s as = some s') :
    M.times E s (as ++ bs) = M.times E s as + M.times E s' bs := by
  induction as generalizing s with
  | nil =>
    cases h
    exact (Nat.zero_add _).symm
  | cons a as ih =>
    obtain ⟨s₁, hs, h₁⟩ := M.exec_cons_some h
    simp only [cons_append, times, hs, ih h₁, Nat.add_assoc]

theorem times_snoc {E : σ → α → Bool} (h : M.exec s as = some s') (ha : M.step s' a = some t) :
    M.times E s (as ++ [a]) = M.times E s as + if E s' a then 1 else 0 := by
  rw [M.times_append h]
  simp [times, ha]

/-! ### Which step did it -/

/-- What holds at the end and not at the start was brought about by a step. -/
theorem exec_enters {Q : σ → Prop} (start : ¬ Q s) (h : M.exec s as = some t) (hQ : Q t) :
    ∃ pre a post s₁ s₂, as = pre ++ a :: post ∧ M.exec s pre = some s₁ ∧ M.step s₁ a = some s₂ ∧
      ¬ Q s₁ ∧ Q s₂ ∧
      M.exec s₂ post = some t := by
  refine M.exec_history (I := fun as t => Q t → ∃ pre a post s₁ s₂, as = pre ++ a :: post ∧
    M.exec s pre = some s₁ ∧ M.step s₁ a = some s₂ ∧ ¬ Q s₁ ∧ Q s₂ ∧ M.exec s₂ post = some t)
    (fun hQ => absurd hQ start) ?_ h hQ
  intro as t₁ a t₂ hrun hI hstep hQ
  by_cases hbefore : Q t₁
  · obtain ⟨pre, b, post, s₁, s₂, rfl, hpre, hb, h₁, h₂, hpost⟩ := hI hbefore
    exact ⟨pre, b, post ++ [a], s₁, s₂, by rw [append_assoc, cons_append], hpre, hb, h₁, h₂,
      M.exec_snoc hpost hstep⟩
  · exact ⟨as, a, [], t₁, t₂, rfl, hrun, hstep, hbefore, hQ, rfl⟩

end Machine

end Agnosai
