import Mathlib.Data.UInt

/-!
# Support — Utf8

UTF-8, on lists of bytes. `Sequence` gives the well-formed sequences by the ranges of their bytes,
without the overlong ones, the surrogates and what lies past the last code point. A text is `Valid`
when it is a run of such sequences.

A text may be cut before any byte that does not continue a sequence (`Valid.take`), and there is
such a byte among any four (`Valid.exists_lead`).
-/

namespace Agnosai.Utf8

open List

/-- A byte that continues a sequence. -/
def Tail (b : UInt8) : Prop := 0x80 ≤ b.toNat ∧ b.toNat ≤ 0xBF

instance (b : UInt8) : Decidable (Tail b) := inferInstanceAs (Decidable (_ ∧ _))

theorem tail_iff {b : UInt8} : Tail b ↔ 0x80 ≤ b ∧ b ≤ 0xBF := by
  rfl

/-- The well-formed sequences. -/
inductive Sequence : List UInt8 → Prop where
  | one {a : UInt8} (ha : a.toNat < 0x80) : Sequence [a]
  | two {a b : UInt8} (ha : 0xC2 ≤ a.toNat ∧ a.toNat ≤ 0xDF) (hb : Tail b) : Sequence [a, b]
  | three {a b c : UInt8} (ha : 0xE0 ≤ a.toNat ∧ a.toNat ≤ 0xEF) (hb : Tail b)
      (hlong : a.toNat = 0xE0 → 0xA0 ≤ b.toNat) (hsurrogate : a.toNat = 0xED → b.toNat ≤ 0x9F)
      (hc : Tail c) : Sequence [a, b, c]
  | four {a b c d : UInt8} (ha : 0xF0 ≤ a.toNat ∧ a.toNat ≤ 0xF4) (hb : Tail b)
      (hlong : a.toNat = 0xF0 → 0x90 ≤ b.toNat) (hpast : a.toNat = 0xF4 → b.toNat ≤ 0x8F)
      (hc : Tail c) (hd : Tail d) : Sequence [a, b, c, d]

/-- A sequence begins with a byte that continues none, and all its others, at most three, continue
it. -/
theorem Sequence.shape {w : List UInt8} (h : Sequence w) :
    ∃ a rest, w = a :: rest ∧ ¬ Tail a ∧ (∀ b ∈ rest, Tail b) ∧ rest.length ≤ 3 := by
  cases h with
  | one =>
    refine ⟨_, [], rfl, fun htail => ?_, by simp, by simp⟩
    have := htail.1
    omega
  | two ha hb =>
    refine ⟨_, [_], rfl, fun htail => ?_, by simpa using hb, by simp⟩
    have := htail.2
    omega
  | three ha hb _ _ hc =>
    refine ⟨_, [_, _], rfl, fun htail => ?_, by simp [hb, hc], by simp⟩
    have := htail.2
    omega
  | four ha hb _ _ hc hd =>
    refine ⟨_, [_, _, _], rfl, fun htail => ?_, by simp [hb, hc, hd], by simp⟩
    have := htail.2
    omega

/-- A run of sequences. -/
inductive Valid : List UInt8 → Prop where
  | nil : Valid []
  | cons {w rest : List UInt8} (h : Sequence w) (hrest : Valid rest) : Valid (w ++ rest)

/-- A text may be cut before a byte that does not continue a sequence. -/
theorem Valid.take {bs : List UInt8} (h : Valid bs) {k : Nat}
    (hk : ∀ b, bs[k]? = some b → ¬ Tail b) : Valid (bs.take k) := by
  induction h generalizing k with
  | nil =>
    rw [take_nil]
    exact .nil
  | @cons w rest hseq hrest ih =>
    obtain hlt | hle := lt_or_ge k w.length
    · -- within a sequence only its first byte continues none
      obtain ⟨a, more, rfl, -, hmore, -⟩ := hseq.shape
      cases k with
      | zero => exact .nil
      | succ k =>
        have hlt : k < more.length := Nat.lt_of_succ_lt_succ hlt
        refine absurd (hmore _ (getElem_mem hlt)) (hk _ ?_)
        rw [cons_append, getElem?_cons_succ, getElem?_append_left hlt,
          getElem?_eq_getElem hlt]
    · rw [take_append, take_of_length_le hle]
      refine .cons hseq (ih fun b hb => hk b ?_)
      rw [getElem?_append_right hle, hb]

/-- One byte among any four begins a sequence. -/
theorem Valid.exists_lead {bs : List UInt8} (h : Valid bs) {i : Nat} (hi : i < bs.length) :
    ∃ j b, j ≤ i ∧ i ≤ j + 3 ∧ bs[j]? = some b ∧ ¬ Tail b := by
  induction h generalizing i with
  | nil => exact absurd hi (Nat.not_lt_zero i)
  | @cons w rest hseq hrest ih =>
    obtain hlt | hle := lt_or_ge i w.length
    · obtain ⟨a, more, rfl, hlead, -, hlength⟩ := hseq.shape
      rw [length_cons] at hlt
      exact ⟨0, a, Nat.zero_le i, by omega, rfl, hlead⟩
    · rw [length_append] at hi
      obtain ⟨j, b, hj, hij, hb, hlead⟩ := ih (i := i - w.length) (by omega)
      refine ⟨w.length + j, b, by omega, by omega, ?_, hlead⟩
      rw [getElem?_append_right (Nat.le_add_right _ _), Nat.add_sub_cancel_left, hb]

end Agnosai.Utf8
