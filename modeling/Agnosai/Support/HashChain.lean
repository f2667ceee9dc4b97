import Mathlib.Data.List.Nodup

/-!
# Support — HashChain

Cells `α` are chained by digests `η`: each cell has a digest of its own and names the digest of the
cell before it, and a seal says that the two belong together. `Chained h l` is the check a
verifier makes from the anchor `h`, and `tip h l` is where its walk ends. What the check says of a
list somebody else supplies is `isPrefix_of_chained`. The other end is not covered: every
beginning of a chain is a chain (`Chained.of_isPrefix`), and only the tip tells two of them apart
(`eq_of_tip_eq`).
-/

namespace Agnosai

open List

/-- What a chain reads of its cells. -/
structure HashChain (α η : Type*) where
  digest : α → η
  prev : α → η
  Sealed : α → Prop

namespace HashChain

variable {α η : Type*} (C : HashChain α η) {h : η} {a : α} {l l₁ l₂ : List α}

/-- The digest of the last cell, or the anchor. -/
def tip (h : η) : List α → η
  | [] => h
  | a :: l => tip (C.digest a) l

/-- Each cell is sealed and names the digest before it, the first one the anchor. -/
def Chained (h : η) : List α → Prop
  | [] => True
  | a :: l => C.prev a = h ∧ C.Sealed a ∧ Chained (C.digest a) l

@[simp] theorem tip_nil : C.tip h [] = h := rfl

@[simp] theorem tip_cons : C.tip h (a :: l) = C.tip (C.digest a) l := rfl

@[simp] theorem chained_nil : C.Chained h [] := trivial

theorem tip_append : C.tip h (l₁ ++ l₂) = C.tip (C.tip h l₁) l₂ := by
  induction l₁ generalizing h with
  | nil => rfl
  | cons a l₁ ih => exact ih

/-- A chain splits at any point, the second part anchored at the tip of the first. -/
theorem chained_append :
    C.Chained h (l₁ ++ l₂) ↔ C.Chained h l₁ ∧ C.Chained (C.tip h l₁) l₂ := by
  induction l₁ generalizing h with
  | nil => simp only [nil_append, chained_nil, tip_nil, true_and]
  | cons a l₁ ih => simp only [cons_append, Chained, tip_cons, ih, and_assoc]

theorem Chained.of_isPrefix (hl : C.Chained h l) (hp : l₁ <+: l) : C.Chained h l₁ := by
  obtain ⟨l₂, rfl⟩ := hp
  exact (C.chained_append.1 hl).1

theorem Chained.sealed (hl : C.Chained h l) (ha : a ∈ l) : C.Sealed a := by
  obtain ⟨l₁, l₂, rfl⟩ := append_of_mem ha
  have hrest : C.Chained (C.tip h l₁) (a :: l₂) := (C.chained_append.1 hl).2
  exact hrest.2.1

/-- Extending a chain by a cell that names its tip. -/
theorem Chained.snoc (hl : C.Chained h l) (hprev : C.prev a = C.tip h l) (hseal : C.Sealed a) :
    C.Chained h (l ++ [a]) :=
  C.chained_append.2 ⟨hl, hprev, hseal, trivial⟩

/-- The tip of a non-empty list is one of its digests. -/
theorem tip_mem (h : η) (hl : l ≠ []) : C.tip h l ∈ l.map C.digest := by
  obtain ⟨l, a, rfl⟩ := eq_nil_or_concat l |>.resolve_left hl
  rw [concat_eq_append, tip_append, map_append]
  exact mem_append_right _ mem_cons_self

/-! ### Histories -/

/-- The digests a history has gone through, the anchor first, are all different. -/
def Fresh (h : η) (l : List α) : Prop := (h :: l.map C.digest).Nodup

variable {C}

theorem Fresh.of_isPrefix (hf : C.Fresh h l) (hp : l₁ <+: l) : C.Fresh h l₁ := by
  obtain ⟨l₂, rfl⟩ := hp
  rw [Fresh, map_append, ← cons_append] at hf
  exact hf.of_append_left

/-- A fresh history returns to its anchor nowhere. -/
theorem Fresh.tip_ne (hf : C.Fresh h l) (hl : l ≠ []) : C.tip h l ≠ h := fun he =>
  (nodup_cons.1 hf).1 (he ▸ C.tip_mem h hl)

/-- The rest of a fresh history is fresh from where the first part ends. -/
theorem Fresh.append_right (hf : C.Fresh h (l₁ ++ l₂)) : C.Fresh (C.tip h l₁) l₂ := by
  induction l₁ generalizing h with
  | nil => exact hf
  | cons a l₁ ih => exact ih (nodup_cons.1 hf).2

/-- In a fresh history, the point a cell was added at is known from the digest it names. -/
theorem Fresh.append_inj (hf : C.Fresh h l) {r₁ r₂ : List α}
    (h₁ : l = l₁ ++ r₁) (h₂ : l = l₂ ++ r₂) (ht : C.tip h l₁ = C.tip h l₂) : r₁ = r₂ := by
  -- one of the two beginnings extends the other, by cells after which the digest has not come back
  have key : ∀ {l₁ l₂ r₁ r₂ : List α}, l = l₁ ++ r₁ → l = l₂ ++ r₂ → C.tip h l₁ = C.tip h l₂ →
      l₁ <+: l₂ → r₁ = r₂ := by
    rintro l₁ l₂ r₁ r₂ h₁ h₂ ht ⟨m, rfl⟩
    have hm : C.Fresh (C.tip h l₁) m :=
      (hf.of_isPrefix ⟨r₂, h₂.symm⟩).append_right
    rw [tip_append] at ht
    obtain rfl : m = [] := by
      by_contra hne
      exact hm.tip_ne hne ht.symm
    rw [append_nil] at h₂
    exact append_cancel_left (h₁.symm.trans h₂)
  have hp₁ : l₁ <+: l := ⟨r₁, h₁.symm⟩
  have hp₂ : l₂ <+: l := ⟨r₂, h₂.symm⟩
  rcases prefix_or_prefix_of_prefix hp₁ hp₂ with hp | hp
  · exact key h₁ h₂ ht hp
  · exact (key h₂ h₁ ht.symm hp).symm

/-- **What a chained list of genuine cells is.** The history was cut after `l₁`; a list of its cells
that is chained from the cut is the beginning of what follows. -/
theorem isPrefix_of_chained (hl : C.Chained h (l₁ ++ l₂)) (hf : C.Fresh h (l₁ ++ l₂))
    {forged : List α} (hgenuine : ∀ a ∈ forged, a ∈ l₁ ++ l₂)
    (hc : C.Chained (C.tip h l₁) forged) : forged <+: l₂ := by
  induction forged generalizing l₁ l₂ with
  | nil => exact nil_prefix
  | cons a forged ih =>
    obtain ⟨hprev, -, hrest⟩ := hc
    obtain ⟨m₁, m₂, hm⟩ := append_of_mem (hgenuine a mem_cons_self)
    have hadded : C.Chained (C.tip h m₁) (a :: m₂) := (C.chained_append.1 (hm ▸ hl)).2
    -- the cell was added at the cut, so it heads what follows
    obtain rfl : l₂ = a :: m₂ := hf.append_inj rfl hm (hprev.symm.trans hadded.1)
    have happ : l₁ ++ a :: m₂ = (l₁ ++ [a]) ++ m₂ := by rw [append_assoc, singleton_append]
    have htip : C.tip h (l₁ ++ [a]) = C.digest a := by rw [tip_append]; rfl
    rw [happ] at hl hf hgenuine
    rw [← htip] at hrest
    exact prefix_cons_inj a |>.2 (ih hl hf (fun b hb => hgenuine b (mem_cons_of_mem a hb)) hrest)

/-- Two beginnings of one fresh history with one tip are one list. -/
theorem eq_of_tip_eq (hf : C.Fresh h l) (hp : l₁ <+: l) (ht : C.tip h l₁ = C.tip h l) : l₁ = l := by
  obtain ⟨l₂, rfl⟩ := hp
  rw [tip_append] at ht
  have hl₂ : l₂ = [] := by
    by_contra hne
    exact hf.append_right.tip_ne hne ht.symm
  rw [hl₂, append_nil]

end HashChain

end Agnosai
