import Mathlib.Data.List.Infix

/-!
# Support — Spans

Rewriting a list from left to right: where a span begins it is replaced by a marker, and everything
else is kept (`Spans.replace`). Where a span begins, and how long it is, is read off what is left
of the list. A `Marker` is a word between two brackets. A word that has neither bracket and is
not inside the marker cannot be made by the rewriting (`Spans.infix_replace`).
-/

namespace Agnosai

open List

variable {α : Type*}

/-! ### Words in lists -/

variable {xs w : List α}

theorem not_prefix_cons_of_notMem {a : α} (hw : w ≠ []) (ha : a ∉ w) : ¬ w <+: a :: xs := by
  intro h
  obtain _ | ⟨b, w⟩ := w
  · exact hw rfl
  · obtain ⟨rfl, -⟩ := cons_prefix_cons.1 h
    exact ha mem_cons_self

variable {ys : List α}

/-- A word without `a` begins a list before `a`, or not at all. -/
theorem prefix_of_prefix_append_cons {a : α} (xs : List α) (ha : a ∉ w)
    (h : w <+: xs ++ a :: ys) : w <+: xs := by
  induction xs generalizing w with
  | nil =>
    by_cases hw : w = []
    · exact hw ▸ nil_prefix
    · exact absurd h (not_prefix_cons_of_notMem hw ha)
  | cons x xs ih =>
    obtain _ | ⟨b, w⟩ := w
    · exact nil_prefix
    · obtain ⟨rfl, htail⟩ := cons_prefix_cons.1 h
      exact cons_prefix_cons.2 ⟨rfl, ih (not_mem_of_not_mem_cons ha) htail⟩

/-- A word without `a` is on one side of `a`. -/
theorem infix_append_cons {a : α} (ha : a ∉ w) (h : w <:+: xs ++ a :: ys) :
    w <:+: xs ∨ w <:+: ys := by
  induction xs with
  | nil =>
    obtain hpre | hin := infix_cons_iff.1 h
    · have hnil := prefix_of_prefix_append_cons [] ha hpre
      rw [prefix_nil.1 hnil]
      exact .inl nil_infix
    · exact .inr hin
  | cons x xs ih =>
    obtain hpre | hin := infix_cons_iff.1 h
    · exact .inl (prefix_of_prefix_append_cons (x :: xs) ha hpre).isInfix
    · obtain hxs | hys := ih hin
      · exact .inl (hxs.trans (suffix_cons x xs).isInfix)
      · exact .inr hys

/-! ### Markers -/

/-- A word between two brackets. -/
structure Marker (α : Type*) where
  opening : α
  word : List α
  closing : α

/-- The marker, as it is written. -/
def Marker.text (m : Marker α) : List α := m.opening :: (m.word ++ [m.closing])

/-- A word that cannot overlap the marker. -/
structure Marker.Avoids (m : Marker α) (w : List α) : Prop where
  ne_nil : w ≠ []
  opening : m.opening ∉ w
  closing : m.closing ∉ w
  word : ¬ w <:+: m.word

variable {m : Marker α}

/-- Such a word is after the marker. -/
theorem Marker.Avoids.infix_append (h : m.Avoids w) (hin : w <:+: m.text ++ ys) : w <:+: ys := by
  have hrest : w <:+: m.word ++ m.closing :: ys := by
    rw [Marker.text, cons_append, append_assoc] at hin
    exact (infix_cons_iff.1 hin).resolve_left (not_prefix_cons_of_notMem h.ne_nil h.opening)
  exact (infix_append_cons h.closing hrest).resolve_left h.word

/-- Such a word does not begin in the marker. -/
theorem Marker.Avoids.not_prefix {s : List α} (h : m.Avoids w) (hs : s <:+ m.text) (hne : s ≠ []) :
    ¬ w <+: s ++ ys := by
  intro hpre
  obtain ⟨t, rfl, ht⟩ : ∃ t, s = t ++ [m.closing] ∧ t <:+ m.opening :: m.word := by
    have htext : m.text = (m.opening :: m.word) ++ [m.closing] := rfl
    rw [htext] at hs
    obtain rfl | ⟨t, rfl, ht⟩ := suffix_concat_iff.1 hs
    · exact absurd rfl hne
    · exact ⟨t, rfl, ht⟩
  rw [append_assoc] at hpre
  have hin : w <:+: m.opening :: m.word :=
    (prefix_of_prefix_append_cons t h.closing hpre).isInfix.trans ht.isInfix
  obtain hfront | hword := infix_cons_iff.1 hin
  · exact not_prefix_cons_of_notMem h.ne_nil h.opening hfront
  · exact h.word hword

/-- A word that does not begin in `xs` does not begin in `xs` and the marker after it. -/
theorem Marker.Avoids.not_prefix_append {s : List α} (h : m.Avoids w)
    (hxs : ∀ s, s <:+ xs → s ≠ [] → ¬ w <+: s) (hs : s <:+ xs ++ m.text) (hne : s ≠ []) :
    ¬ w <+: s ++ ys := by
  induction xs with
  | nil => exact h.not_prefix hs hne
  | cons x xs ih =>
    rw [cons_append] at hs
    obtain rfl | htail := suffix_cons_iff.1 hs
    · intro hpre
      rw [cons_append, append_assoc] at hpre
      exact hxs (x :: xs) suffix_rfl (cons_ne_nil x xs)
        (prefix_of_prefix_append_cons (x :: xs) h.opening hpre)
    · exact ih (fun s' hs' => hxs s' (hs'.trans (suffix_cons x xs))) htail

/-! ### Rewriting -/

/-- Where spans begin: from what is left of a list, how long the span is that begins there. -/
structure Spans (α : Type*) where
  find : List α → Option Nat
  pos : ∀ {xs : List α} {n : Nat}, find xs = some n → 0 < n

namespace Spans

variable (S : Spans α) (m : Marker α)

/-- Rewrite a list of which the first so many elements belong to a span already replaced. -/
def replaceFrom : Nat → List α → List α
  | _, [] => []
  | n + 1, _ :: xs => replaceFrom n xs
  | 0, x :: xs =>
    match S.find (x :: xs) with
    | none => x :: replaceFrom 0 xs
    | some n => m.text ++ replaceFrom (n - 1) xs

/-- Replace every span by the marker. -/
def replace (xs : List α) : List α := S.replaceFrom m 0 xs

theorem replaceFrom_eq (n : Nat) (xs : List α) :
    S.replaceFrom m n xs = S.replace m (xs.drop n) := by
  induction n generalizing xs with
  | zero => rfl
  | succ n ih =>
    cases xs with
    | nil => rfl
    | cons x xs => exact ih xs

@[simp] theorem replace_nil : S.replace m [] = [] := rfl

variable {S m}

theorem replace_cons {x : α} (h : S.find (x :: xs) = none) :
    S.replace m (x :: xs) = x :: S.replace m xs := by
  simp only [replace, replaceFrom, h]

theorem replace_span {n : Nat} (hne : xs ≠ []) (h : S.find xs = some n) :
    S.replace m xs = m.text ++ S.replace m (xs.drop n) := by
  obtain _ | ⟨x, xs⟩ := xs
  · exact absurd rfl hne
  · obtain ⟨k, rfl⟩ : ∃ k, n = k + 1 := ⟨n - 1, (Nat.succ_pred (S.pos h).ne').symm⟩
    rw [replace, replaceFrom, h]
    exact congrArg (m.text ++ ·) (S.replaceFrom_eq m k xs)

/-- What comes before the first span is kept. -/
theorem replace_append (h : ∀ s, s <:+ xs → s ≠ [] → S.find (s ++ ys) = none) :
    S.replace m (xs ++ ys) = xs ++ S.replace m ys := by
  induction xs with
  | nil => rfl
  | cons x xs ih =>
    have hx := h (x :: xs) suffix_rfl (cons_ne_nil x xs)
    rw [cons_append] at hx ⊢
    rw [replace_cons hx, ih fun s hs => h s (hs.trans (suffix_cons x xs)), cons_append]

/-- **A list without spans is left as it is.** -/
theorem replace_eq_self (h : ∀ s, s <:+ xs → s ≠ [] → S.find s = none) : S.replace m xs = xs := by
  have happend : S.replace m (xs ++ []) = xs ++ S.replace m [] :=
    replace_append fun s hs hne => by rw [append_nil]; exact h s hs hne
  rwa [replace_nil, append_nil] at happend

/-- The rule for rewriting: along the list, at an element that is kept and at a span. -/
theorem replace_induction {P : List α → Prop} (nil : P [])
    (kept : ∀ x xs, S.find (x :: xs) = none → P xs → P (x :: xs))
    (span : ∀ xs n, xs ≠ [] → S.find xs = some n → P (xs.drop n) → P xs) (xs : List α) : P xs := by
  induction hlen : xs.length using Nat.strongRecOn generalizing xs with
  | ind len ih =>
    obtain _ | ⟨x, xs⟩ := xs
    · exact nil
    · rw [length_cons] at hlen
      cases hfind : S.find (x :: xs) with
      | none => exact kept x xs hfind (ih xs.length (by omega) xs rfl)
      | some n =>
        have hpos := S.pos hfind
        refine span (x :: xs) n (cons_ne_nil x xs) hfind (ih _ ?_ _ rfl)
        rw [length_drop, length_cons]
        omega

/-- A word that begins the result, without the opening bracket, began the list. -/
theorem prefix_of_prefix_replace (hw : m.opening ∉ w) (h : w <+: S.replace m xs) : w <+: xs := by
  induction w generalizing xs with
  | nil => exact nil_prefix
  | cons a w ih =>
    obtain _ | ⟨x, xs⟩ := xs
    · exact h
    · cases hfind : S.find (x :: xs) with
      | none =>
        rw [replace_cons hfind, cons_prefix_cons] at h
        exact cons_prefix_cons.2 ⟨h.1, ih (not_mem_of_not_mem_cons hw) h.2⟩
      | some =>
        rw [replace_span (cons_ne_nil x xs) hfind] at h
        exact absurd h (not_prefix_cons_of_notMem (cons_ne_nil a w) hw)

/-- **No word is made.** A word of the result that the marker cannot overlap was in the list, at a
place where no span began. -/
theorem infix_replace (hw : m.Avoids w) (h : w <:+: S.replace m xs) :
    ∃ s, s <:+ xs ∧ s ≠ [] ∧ S.find s = none ∧ w <+: s := by
  induction xs using S.replace_induction with
  | nil => exact absurd (infix_nil.1 h) hw.ne_nil
  | kept x xs hfind ih =>
    rw [replace_cons hfind] at h
    obtain hpre | hin := infix_cons_iff.1 h
    · rw [← replace_cons hfind] at hpre
      exact ⟨x :: xs, suffix_rfl, cons_ne_nil x xs, hfind, prefix_of_prefix_replace hw.opening hpre⟩
    · obtain ⟨s, hs, hne, hnone, hpre⟩ := ih hin
      exact ⟨s, hs.trans (suffix_cons x xs), hne, hnone, hpre⟩
  | span xs n hne hfind ih =>
    rw [replace_span hne hfind] at h
    obtain ⟨s, hs, hrest⟩ := ih (hw.infix_append h)
    exact ⟨s, hs.trans (drop_suffix n xs), hrest⟩

/-- A word that the list does not have, the result does not have. -/
theorem not_infix_replace (hw : m.Avoids w) (h : ¬ w <:+: xs) : ¬ w <:+: S.replace m xs := by
  intro hin
  obtain ⟨s, hs, -, -, hpre⟩ := infix_replace hw hin
  exact h (hpre.isInfix.trans hs.isInfix)

/-- A word that always begins a span is gone. -/
theorem not_infix_replace_of_span (hw : m.Avoids w)
    (h : ∀ s, w <+: s → S.find s ≠ none) : ¬ w <:+: S.replace m xs := by
  intro hin
  obtain ⟨s, -, -, hnone, hpre⟩ := infix_replace hw hin
  exact h s hpre hnone

end Spans

end Agnosai
