import Mathlib.Data.List.Nodup
import Mathlib.Data.List.Perm.Subperm

/-!
# Learning — Replay — Sample

A sample of the replay buffer of `learning/replay.cyr`, drawn by priority without replacement.

Nothing is assumed of the float operations, nor of the draws: `sample_positions` says that a sample
takes as many experiences as it is asked for, if there are so many, each from a position of its own.
-/

namespace Agnosai.Replay

open List

variable {E : Type*}

/-- The float operations of the sampler. -/
structure Floats (F : Type*) where
  zero : F
  add : F → F → F
  sub : F → F → F
  mul : F → F → F
  abs : F → F
  le : F → F → Bool
  eq : F → F → Bool

/-- What a sample has done so far. -/
structure Draw (E : Type*) where
  selected : List Bool
  result : List E

/-- Select position `i` and take its experience. -/
def Draw.take (experiences : List E) (d : Draw E) (i : Nat) : Draw E :=
  ⟨d.selected.set i true, d.result ++ experiences[i]?.toList⟩

/-- `_agnosai_replay_fill_unselected`, from the positions `is` on. -/
def fillUnselected (experiences : List E) (n : Nat) : List Nat → Draw E → Draw E
  | [], d => d
  | i :: is, d =>
    if n ≤ d.result.length then d
    else
      fillUnselected experiences n is (if d.selected[i]? = some false then
        d.take experiences i else d)

variable {F : Type*} (float : Floats F) (priority : E → F)

/-- The priority that is left: the sum over the unselected. -/
def remaining (l : List (E × Bool)) : F :=
  l.foldl (fun r x => if x.2 then r else float.add r (float.abs (priority x.1))) float.zero

/-- The inner loop of `agnosai_replay_buffer_sample`: the unselected position at which the draw is
used up, or else the last one. -/
def choose : List ((E × Bool) × Nat) → F → Nat → Nat
  | [], _, chosen => chosen
  | ((e, s), j) :: l, r, chosen =>
    if s then choose l r chosen
    else
      let r := float.sub r (float.abs (priority e))
      if float.le r float.zero then j else choose l r j

/-- The rounds of `agnosai_replay_buffer_sample`: `k` are left of `n`. -/
def rounds (experiences : List E) (uniform : Nat → F) (n : Nat) : Nat → Draw E → Draw E
  | 0, d => d
  | k + 1, d =>
    let l := experiences.zip d.selected
    let left := remaining float priority l
    if float.le left float.zero ∨ ¬ float.eq left left then
      fillUnselected experiences n (range experiences.length) d
    else
      let r := float.mul (uniform (n - (k + 1))) left
      rounds experiences uniform n k (d.take experiences (choose float priority l.zipIdx r 0))

/-- `agnosai_replay_buffer_sample`, where `uniform` is what `rng_uniform` answers in each round. -/
def sample (uniform : Nat → F) (experiences : List E) (batchSize : Int) : List E :=
  let n := (min batchSize experiences.length).toNat
  (rounds float priority experiences uniform n n ⟨replicate experiences.length false, []⟩).result

variable {float priority} {experiences : List E} {d : Draw E}

/-- The results are the experiences at the selected positions, each taken once. -/
structure Draw.At (experiences : List E) (d : Draw E) (ps : List Nat) : Prop where
  nodup : ps.Nodup
  result : d.result.map some = ps.map (experiences[·]?)
  selected : d.selected = (range experiences.length).map (decide <| · ∈ ps)

variable {ps : List Nat} {i n : Nat}

namespace Draw.At

variable (h : d.At experiences ps)
include h

theorem length : d.result.length = ps.length := by
  simpa using congrArg List.length h.result

theorem free : d.selected[i]? = some false ↔ i < experiences.length ∧ i ∉ ps := by
  by_cases hi : i < experiences.length <;> simp [h.selected, hi]

/-- As long as there are more experiences than results, a position is unselected. -/
theorem exists_free (hlt : d.result.length < experiences.length) :
    ∃ i < experiences.length, d.selected[i]? = some false := by
  by_contra hall
  have hsub : range experiences.length ⊆ ps := fun i hi => by
    by_contra hnot
    exact hall ⟨i, mem_range.1 hi, h.free.2 ⟨mem_range.1 hi, hnot⟩⟩
  have hle := (subperm_of_subset nodup_range hsub).length_le
  rw [length_range, ← h.length] at hle
  omega

theorem take (hfree : d.selected[i]? = some false) :
    (d.take experiences i).At experiences (ps ++ [i]) := by
  obtain ⟨hi, hnew⟩ := h.free.1 hfree
  refine ⟨h.nodup.append (nodup_singleton i) (by simpa using hnew), ?_, ext_getElem? fun j => ?_⟩
  · simp [Draw.take, h.result, hi]
  · rcases eq_or_ne i j with rfl | hne
    · simp [Draw.take, h.selected, hi]
    · by_cases hj : j < experiences.length <;> simp [Draw.take, h.selected, hne, hne.symm, hj]

end Draw.At

/-- The position chosen is an unselected one, if there is one. -/
theorem choose_spec (float : Floats F) (priority : E → F) (l : List ((E × Bool) × Nat)) (r : F)
    (chosen : Nat) : choose float priority l r chosen = chosen ∧ (∀ x ∈ l, x.1.2 = true) ∨
      ∃ e, ((e, false), choose float priority l r chosen) ∈ l := by
  induction l generalizing r chosen with
  | nil => exact .inl ⟨rfl, nofun⟩
  | cons x l ih =>
    obtain ⟨⟨e, s⟩, j⟩ := x
    unfold choose
    cases s with
    | true => exact (ih r chosen).imp (by simp) fun ⟨e', hmem⟩ => ⟨e', mem_cons_of_mem _ hmem⟩
    | false =>
      right
      simp only [Bool.false_eq_true, if_false]
      split
      · exact ⟨e, mem_cons_self⟩
      · obtain ⟨hsame, -⟩ | ⟨e', hmem⟩ := ih (float.sub r (float.abs (priority e))) j
        · exact ⟨e, by rw [hsame]; exact mem_cons_self⟩
        · exact ⟨e', mem_cons_of_mem _ hmem⟩

/-- The fill makes up what the rounds left. -/
theorem fillUnselected_spec {is : List Nat} (h : d.At experiences ps) (hle : d.result.length ≤ n)
    (hn : n ≤ experiences.length) (his : ∀ i, d.selected[i]? = some false → i ∈ is) :
    ∃ ps, (fillUnselected experiences n is d).At experiences ps ∧
      (fillUnselected experiences n is d).result.length = n := by
  induction is generalizing d ps with
  | nil =>
    refine ⟨ps, h, Nat.le_antisymm hle (Nat.not_lt.1 fun hlt => ?_)⟩
    obtain ⟨i, -, hfree⟩ := h.exists_free (Nat.lt_of_lt_of_le hlt hn)
    exact absurd (his i hfree) not_mem_nil
  | cons j is ih =>
    unfold fillUnselected
    split
    next hfull => exact ⟨ps, h, Nat.le_antisymm hle hfull⟩
    next hroom =>
      split
      next hfree =>
        have hat := h.take hfree
        refine ih hat (by rw [hat.length, length_append, ← h.length]; exact Nat.lt_of_not_le hroom)
          ?_
        intro i hi
        rw [hat.free, mem_append, mem_singleton, not_or] at hi
        exact (mem_cons.1 (his i (h.free.2 ⟨hi.1, hi.2.1⟩))).resolve_left hi.2.2
      next hbusy =>
        exact ih h hle fun i hi => (mem_cons.1 (his i hi)).resolve_left fun hij => hbusy (hij ▸ hi)

/-- The rounds draw as many as asked. -/
theorem rounds_spec (float : Floats F) (priority : E → F) (uniform : Nat → F) {k : Nat}
    (h : d.At experiences ps) (hk : d.result.length + k = n) (hn : n ≤ experiences.length) :
    ∃ ps, (rounds float priority experiences uniform n k d).At experiences ps ∧
      (rounds float priority experiences uniform n k d).result.length = n := by
  induction k generalizing d ps with
  | zero => exact ⟨ps, h, hk⟩
  | succ k ih =>
    unfold rounds
    dsimp only
    split
    · exact fillUnselected_spec h (by omega) hn fun i hi => mem_range.2 (h.free.1 hi).1
    · generalize float.mul _ _ = r
      have hzip : ∀ e i s, ((e, s), i) ∈ (experiences.zip d.selected).zipIdx ↔
          experiences[i]? = some e ∧ d.selected[i]? = some s := fun e i s =>
        mem_zipIdx_iff_getElem?.trans getElem?_zip_eq_some
      obtain ⟨i, hi, hfree⟩ := h.exists_free (by omega)
      obtain ⟨-, hall⟩ | ⟨e, hmem⟩ :=
        choose_spec float priority (experiences.zip d.selected).zipIdx r 0
      · exact nomatch hall _ ((hzip _ i false).2 ⟨getElem?_eq_getElem hi, hfree⟩)
      · have hat := h.take ((hzip ..).1 hmem).2
        refine ih hat ?_
        rw [hat.length, length_append, ← h.length, length_singleton]
        omega

/-- **A sample takes what it is asked for, from positions of their own.** -/
theorem sample_positions (float : Floats F) (priority : E → F) (uniform : Nat → F)
    (experiences : List E) (batchSize : Int) :
    ∃ ps : List Nat, ps.Nodup ∧ ps.length = min (max batchSize 0).toNat experiences.length ∧
      (sample float priority uniform experiences batchSize).map some =
        ps.map (experiences[·]?) := by
  have hstart : Draw.At experiences ⟨replicate experiences.length false, []⟩ [] :=
    ⟨nodup_nil, rfl, by simp [map_const']⟩
  obtain ⟨ps, hat, hlen⟩ := rounds_spec float priority uniform hstart
    (Nat.zero_add (min batchSize experiences.length).toNat) (by omega)
  exact ⟨ps, hat.nodup, by rw [← hat.length, hlen]; omega, hat.result⟩

end Agnosai.Replay
