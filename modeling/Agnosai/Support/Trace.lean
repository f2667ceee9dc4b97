import Mathlib.Data.List.Basic

/-!
# Support — Trace

A trace is what happened, oldest first. `Precedes Q P` says that every event that meets `P` comes
after one that meets `Q`: nothing is used before it is checked. A trace built of parts is checked
part by part (`Precedes.append`).
-/

namespace Agnosai

open List

variable {α : Type*} {Q P : α → Prop} {tr tr' : List α}

/-- A split of a trace with a new event is at that event, or is a split of the trace before it. -/
theorem snoc_eq_append_cons {x y : α} {pre post : List α} (h : tr ++ [x] = pre ++ y :: post) :
    post = [] ∧ pre = tr ∧ y = x ∨ ∃ post', post = post' ++ [x] ∧ tr = pre ++ y :: post' := by
  rcases eq_nil_or_concat post with rfl | ⟨post', z, rfl⟩
  · obtain ⟨hpre, hy⟩ := append_inj' h rfl
    exact .inl ⟨rfl, hpre.symm, (singleton_inj.1 hy).symm⟩
  · rw [concat_eq_append, ← cons_append, ← append_assoc] at h
    obtain ⟨htr, hz⟩ := append_inj' h rfl
    exact .inr ⟨post', by rw [concat_eq_append, hz], htr⟩

/-- Every event that meets `P` comes after one that meets `Q`. -/
def Precedes (Q P : α → Prop) (tr : List α) : Prop :=
  ∀ pre e post, tr = pre ++ e :: post → P e → ∃ w ∈ pre, Q w

theorem precedes_of_not (h : ∀ e ∈ tr, ¬ P e) : Precedes Q P tr := by
  rintro pre e post rfl hP
  exact absurd hP (h e (mem_append_right pre mem_cons_self))

/-- What precedes in both precedes in all. -/
theorem Precedes.append (h : Precedes Q P tr) (h' : (∃ w ∈ tr, Q w) ∨ Precedes Q P tr') :
    Precedes Q P (tr ++ tr') := by
  intro pre e post happ hP
  rcases append_eq_append_iff.1 happ with ⟨m, rfl, htr'⟩ | ⟨m, htr, hpost⟩
  · -- the event is in the second part
    rcases h' with ⟨w, hw, hQ⟩ | h'
    · exact ⟨w, mem_append_left m hw, hQ⟩
    · obtain ⟨w, hw, hQ⟩ := h' m e post htr' hP
      exact ⟨w, mem_append_right tr hw, hQ⟩
  · cases m with
    | nil =>
      rw [append_nil] at htr
      rcases h' with ⟨w, hw, hQ⟩ | h'
      · exact ⟨w, htr ▸ hw, hQ⟩
      · obtain ⟨w, hw, -⟩ := h' [] e post hpost.symm hP
        cases hw
    | cons b m =>
      obtain ⟨rfl, -⟩ := cons.inj hpost
      exact h pre e m htr hP

/-- A trace told in other events. -/
theorem Precedes.map {β : Type*} {Q' P' : β → Prop} (h : Precedes Q P tr) (f : α → β)
    (hP : ∀ e, P' (f e) → P e) (hQ : ∀ e, Q e → Q' (f e)) : Precedes Q' P' (tr.map f) := by
  intro pre e post happ he
  obtain ⟨tr₁, tr₂, rfl, rfl, htr₂⟩ := map_eq_append_iff.1 happ
  obtain ⟨e, tr₂, rfl, rfl, rfl⟩ := map_eq_cons_iff.1 htr₂
  obtain ⟨w, hw, hQw⟩ := h tr₁ e tr₂ rfl (hP e he)
  exact ⟨f w, mem_map_of_mem hw, hQ w hQw⟩

/-- A check, and then anything. -/
theorem precedes_cons {w : α} (hQ : Q w) (hP : ¬ P w) : Precedes Q P (w :: tr) := by
  have hw : Precedes Q P [w] := precedes_of_not fun e he => mem_singleton.1 he ▸ hP
  exact hw.append (.inl ⟨w, mem_singleton_self w, hQ⟩)

end Agnosai
