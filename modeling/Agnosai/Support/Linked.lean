/-!
# Support — Linked

A stack that is linked through its own members: on the stack the slot of a cell holds the address
of the cell below. The address of cell `n` is `n + 1`, so that 0 is the end. `Linked slot top xs`
says that following the slots from `top` visits `xs`.
-/

namespace Agnosai

/-- From the address `top` the slots lead through the cells `xs`, and to the end. -/
def Linked (slot : Nat → Nat) : Nat → List Nat → Prop
  | top, [] => top = 0
  | top, n :: rest => top = n + 1 ∧ Linked slot (slot n) rest

namespace Linked

variable {slot slot' : Nat → Nat} {top n : Nat} {xs : List Nat}

/-- **The frame rule.** -/
theorem congr (h : Linked slot top xs) (hslot : ∀ n ∈ xs, slot' n = slot n) :
    Linked slot' top xs := by
  induction xs generalizing top with
  | nil => exact h
  | cons n rest ih =>
    refine ⟨h.1, ?_⟩
    rw [hslot n List.mem_cons_self]
    exact ih h.2 fun m hm => hslot m (List.mem_cons_of_mem n hm)

theorem eq_nil (h : Linked slot 0 xs) : xs = [] := by
  cases xs with
  | nil => rfl
  | cons n => exact absurd h.1.symm (Nat.succ_ne_zero n)

/-- What is taken off is the cell that the top is the address of. -/
theorem pop (h : Linked slot (n + 1) xs) : ∃ rest, xs = n :: rest ∧ Linked slot (slot n) rest := by
  cases xs with
  | nil => exact absurd h (Nat.succ_ne_zero n)
  | cons m rest =>
    obtain rfl : n = m := Nat.succ.inj h.1
    exact ⟨rest, rfl, h.2⟩

/-- A cell that is not on the stack goes on top when its slot is set to the old top. -/
theorem push (h : Linked slot top xs) (hn : n ∉ xs) (htop : slot' n = top)
    (hslot : ∀ m, m ≠ n → slot' m = slot m) : Linked slot' (n + 1) (n :: xs) := by
  refine ⟨rfl, ?_⟩
  rw [htop]
  exact h.congr fun m hm => hslot m fun heq => hn (heq ▸ hm)

end Linked

end Agnosai
