import Agnosai.Orchestrator.Approval.Release

/-!
# Orchestrator — Approval — Keys

The gate keeps its task ids a second time, in a list beside the pending map: `pending_tasks` answers
in that list's order. `listed` is the gate with the list, and `keys_run` says what the list is
after any run: the keys of the map, each once, in the order they have been pending.
-/

namespace Agnosai.Approval

open List KeyMap

variable {c c' : Config} {a : Act} {acts : List Act}

structure Listed where
  config : Config := {}
  keys : List String := []

/-- What an action does to the key list: `agnosai_approval_request` appends a task that was not
pending, and `_agnosai_approval_forget` takes out the task whose registration goes. -/
def keysStep (c : Config) (keys : List String) : Act → List String
  | .request task =>
    if maxPending ≤ c.pending.size ∨ (c.pending.lookup task).isSome then keys else keys ++ [task]
  | .submit task _ | .cancel task =>
    if (c.pending.lookup task).isSome then keys.erase task else keys
  | .step w _ =>
    match c.waiters w with
    | some { ch := some ch, task, pc := .expire } =>
      if c.pending.lookup task = some ch then keys.erase task else keys
    | _ => keys
  | .close _ | .start .. => keys

/-- The gate, its threads and its key list. -/
def listed : Machine Listed Act where
  step g a := (gate.step g.config a).map fun c => ⟨c, keysStep g.config g.keys a⟩

/-- **One step keeps the list to the map.** -/
theorem keysStep_keys (h : Trans c a c') : keysStep c c.pending.keys a = c'.pending.keys := by
  cases h with
  | refused hfull => exact if_pos (.inl hfull)
  | requested hroom => simp only [keysStep, hroom, false_or, keys_set]
  | unmatched hnone | notCancelled hnone => simp [keysStep, hnone]
  | undelivered hsome | delivered hsome | cancelled hsome =>
    simp only [keysStep, hsome, Option.isSome_some, if_true, keys_erase]
  | closed | started => rfl
  | received hw hpc => obtain rfl | rfl := hpc <;> simp [keysStep, hw, Config.setWaiter]
  | moved hw hm => cases hm <;> simp_all [keysStep, Config.setWaiter]
  | expired hw hr => simp [keysStep, hw, hr, Config.setWaiter, keys_erase]

/-- `k` has been pending since before `k'` was. -/
def Earlier (acts : List Act) (k k' : String) : Prop :=
  gate.Since (fun c _ => c.pending.lookup k' = none) (fun c => (c.pending.lookup k).isSome) {} acts

/-- The keys stand in the order they have been pending, and are not more than the gate takes. -/
structure Ordered (acts : List Act) (c : Config) : Prop where
  earlier : c.pending.keys.Pairwise (Earlier acts)
  room : c.pending.keys.length ≤ maxPending

/-- A step that adds no key. -/
theorem Ordered.shrink (hrun : gate.exec {} acts = some c) (h : Ordered acts c)
    (hstep : gate.step c a = some c') (hsub : c'.pending.keys <+ c.pending.keys) :
    Ordered (acts ++ [a]) c' where
  earlier := (h.earlier.sublist hsub).imp_of_mem fun hk _ he =>
    (gate.since_snoc hrun hstep).2 ⟨mem_keys.1 hk, .inl he⟩
  room := Nat.le_trans hsub.length_le h.room

/-- Every step keeps the order of the keys. -/
theorem Ordered.keep (hrun : gate.exec {} acts = some c) (h : Ordered acts c)
    (hstep : gate.step c a = some c') : Ordered (acts ++ [a]) c' := by
  cases step_trans hstep with
  | @requested task hroom =>
    have hkeys := c.pending.keys_set task c.fresh
    split at hkeys
    · exact h.shrink hrun hstep (hkeys ▸ .refl _)
    next hnew =>
      -- the new key comes after every other, which was pending when it was not
      have hlater : ∀ k ∈ c.pending.keys ++ [task], ∀ k', Earlier acts k k' ∨ k' = task →
          Earlier (acts ++ [.request task]) k k' := by
        rintro k hk k' he
        refine (gate.since_snoc hrun hstep).2 ⟨mem_keys.1 (hkeys ▸ hk), he.imp_right ?_⟩
        rintro rfl
        exact Option.not_isSome_iff_eq_none.1 hnew
      refine ⟨hkeys ▸ pairwise_append.2 ⟨?_, pairwise_singleton .., ?_⟩, ?_⟩
      · exact h.earlier.imp_of_mem fun hk _ he => hlater _ (mem_append_left _ hk) _ (.inl he)
      · exact fun k hk k' hk' => hlater k (mem_append_left _ hk) k' (.inr (mem_singleton.1 hk'))
      · rw [← length_keys] at hroom
        simp only [hkeys, length_append, length_singleton]
        omega
  | undelivered | delivered | cancelled | expired =>
    exact h.shrink hrun hstep (c.pending.keys_erase _ ▸ erase_sublist)
  | refused | unmatched | notCancelled | closed | started | received | moved =>
    exact h.shrink hrun hstep (.refl _)

/-- **The key list.** In every run it holds the keys of the pending map, each once, a thousand at
most, and each has been pending since before the next was. -/
theorem keys_run {g : Listed} (hrun : listed.exec {} acts = some g) :
    gate.exec {} acts = some g.config ∧ g.keys.Nodup ∧
      (∀ k, k ∈ g.keys ↔ (g.config.pending.lookup k).isSome) ∧ g.keys.length ≤ 1000 ∧
      g.keys.Pairwise (Earlier acts) := by
  obtain ⟨hgate, hkeys⟩ : gate.exec {} acts = some g.config ∧ g.keys = g.config.pending.keys := by
    refine listed.exec_history (I := fun acts g => gate.exec {} acts = some g.config ∧
      g.keys = g.config.pending.keys) ⟨rfl, rfl⟩ ?_ hrun
    rintro acts g a g' - ⟨hgate, hkeys⟩ hstep
    obtain ⟨c', hc', rfl⟩ := Option.map_eq_some_iff.1 hstep
    exact ⟨gate.exec_snoc hgate hc', hkeys ▸ keysStep_keys (step_trans hc')⟩
  have hordered : Ordered acts g.config := by
    refine gate.exec_history ⟨.nil, Nat.zero_le _⟩ ?_ hgate
    exact fun _ _ _ _ hrun h hstep => h.keep hrun hstep
  rw [hkeys]
  exact ⟨hgate, g.config.pending.nodup, fun k => mem_keys, hordered.room, hordered.earlier⟩

/-- A task requested again while it is pending keeps its place. -/
def requestedAgain : List Act := [.request "first", .request "second", .request "first"]

theorem keys_run_requestedAgain : ∃ g, listed.exec {} requestedAgain = some g ∧
    g.keys = ["first", "second"] ∧ g.keys.Pairwise (Earlier requestedAgain) := by
  obtain ⟨g, hrun, hkeys⟩ : ∃ g, listed.exec {} requestedAgain = some g ∧
      g.keys = ["first", "second"] := ⟨_, rfl, rfl⟩
  obtain ⟨-, -, -, -, hordered⟩ := keys_run hrun
  exact ⟨g, hrun, hkeys, hordered⟩

end Agnosai.Approval
