import Agnosai.Support.Machine
import Mathlib.Logic.Function.Basic

/-!
# CrewPool

The pool of crew arenas of `crew_arena.cyr`, as a machine whose actions are the atomic steps of any
number of threads: a section under the pool's mutex, the minting of an arena, and the scrub of one.
Nothing is asked of the callers: any thread may give back any arena at any time, and several the
same one.
-/

namespace Agnosai.CrewPool

open Function List Option

/-- Where a thread is in `agnosai_crew_pool_acquire` or `agnosai_crew_arena_give_back`. -/
inductive Pc where
  | idle
  /-- The free stack was empty. -/
  | minting
  /-- The arena was held, and is not any more. -/
  | scrubbing (a : Nat)
  /-- The arena is scrubbed, and not yet on the stack. -/
  | parking (a : Nat)
  deriving DecidableEq

/-- The pool and its threads. Who acquired an arena stands for the arena's `HELD`. -/
structure Pool where
  free : List Nat := []
  minted : Nat := 0
  holder : Nat → Option Nat := fun _ => none
  scrubbed : Nat → Bool := fun _ => true
  pc : Nat → Pc := fun _ => .idle

inductive Act where
  | acquire (t : Nat)
  | mint (t : Nat) (served : Bool)
  | giveBack (t a : Nat)
  | scrub (t : Nat)
  | park (t : Nat)
  deriving DecidableEq

/-- Arena `a` goes to thread `t`, whose crew writes to it. -/
def Pool.hand (s : Pool) (a t : Nat) : Pool :=
  { s with holder := update s.holder a (some t), scrubbed := update s.scrubbed a false }

def step (s : Pool) : Act → Option Pool
  | .acquire t =>
    if s.pc t = .idle then
      match s.free with
      | a :: rest => some { s.hand a t with free := rest }
      | [] => some { s with pc := update s.pc t .minting }
    else none
  | .mint t served =>
    if s.pc t = .minting then
      let s := { s with pc := update s.pc t .idle }
      some (if served then { s.hand s.minted t with minted := s.minted + 1 } else s)
    else none
  | .giveBack t a =>
    if s.pc t = .idle ∧ a < s.minted then
      match s.holder a with
      | none => some s
      | some _ =>
        some { s with holder := update s.holder a none, pc := update s.pc t (.scrubbing a) }
    else none
  | .scrub t =>
    match s.pc t with
    | .scrubbing a =>
      some { s with scrubbed := update s.scrubbed a true, pc := update s.pc t (.parking a) }
    | _ => none
  | .park t =>
    match s.pc t with
    | .parking a => some { s with free := a :: s.free, pc := update s.pc t .idle }
    | _ => none

/-- The pool and its threads, as a machine. -/
def pool : Machine Pool Act := ⟨step⟩

/-! ### Places -/

/-- Where an arena can be. -/
inductive Place where
  | held (t : Nat)
  | scrubbed (t : Nat)
  | free

/-- Every minted arena is in one place, on the stack once, and scrubbed before it is there. -/
structure Placed (s : Pool) (place : Nat → Option Place) : Prop where
  minted : ∀ a, a < s.minted ↔ place a ≠ none
  held : ∀ a t, s.holder a = some t ↔ place a = some (.held t)
  scrubbing : ∀ a t, (s.pc t = .scrubbing a ∨ s.pc t = .parking a) ↔ place a = some (.scrubbed t)
  free : ∀ a, a ∈ s.free ↔ place a = some .free
  nodup : s.free.Nodup
  clean : ∀ a, a ∈ s.free ∨ (∃ t, s.pc t = .parking a) → s.scrubbed a = true

variable {s s' : Pool} {place : Nat → Option Place} {act : Act} {a : Nat}

/-- **One step** moves one arena, or none. -/
theorem Placed.keep (h : Placed s place) (hstep : step s act = some s') :
    ∃ place', Placed s' place' := by
  obtain ⟨hminted, hheld, hscrubbing, hfree, hnodup, hclean⟩ := h
  have hparking : ∀ a t, s.pc t = .parking a → place a = some (.scrubbed t) :=
    fun a t hpc => (hscrubbing a t).1 (.inr hpc)
  cases act with
  | acquire t =>
    simp only [step, ite_none_right_eq_some] at hstep
    obtain ⟨hidle, hstep⟩ := hstep
    split at hstep <;> cases hstep
    next a rest hstack =>
      refine ⟨update place a (some (.held t)), ?_, ?_, ?_, ?_, ?_, ?_⟩ <;>
        simp only [Pool.hand, update_apply] <;> grind
    · refine ⟨place, ?_, ?_, ?_, ?_, ?_, ?_⟩ <;> simp only [update_apply] <;> grind
  | mint t served =>
    simp only [step, ite_none_right_eq_some, some.injEq] at hstep
    obtain ⟨hminting, rfl⟩ := hstep
    cases served with
    | true =>
      refine ⟨update place s.minted (some (.held t)), ?_, ?_, ?_, ?_, ?_, ?_⟩ <;>
        simp only [Pool.hand, update_apply, if_true] <;> grind
    | false => refine ⟨place, ?_, ?_, ?_, ?_, ?_, ?_⟩ <;> simp [update_apply] <;> grind
  | giveBack t a =>
    simp only [step, ite_none_right_eq_some] at hstep
    obtain ⟨⟨hidle, ha⟩, hstep⟩ := hstep
    split at hstep <;> cases hstep
    · exact ⟨place, hminted, hheld, hscrubbing, hfree, hnodup, hclean⟩
    next t' hholder =>
      refine ⟨update place a (some (.scrubbed t)), ?_, ?_, ?_, ?_, ?_, ?_⟩ <;>
        simp only [update_apply] <;> grind
  | scrub t =>
    simp only [step] at hstep
    split at hstep <;> cases hstep
    refine ⟨place, ?_, ?_, ?_, ?_, ?_, ?_⟩ <;> simp only [update_apply] <;> grind
  | park t =>
    simp only [step] at hstep
    split at hstep <;> cases hstep
    next a hpc =>
      have := hparking a t hpc
      refine ⟨update place a (some .free), ?_, ?_, ?_, ?_, ?_, ?_⟩ <;>
        simp only [update_apply] <;> grind

/-! ### Giving back -/

/-- The action hands out arena `a`. -/
def hands (a : Nat) (s : Pool) : Act → Bool
  | .acquire _ => s.free.head? = some a
  | .mint _ served => served ∧ s.minted = a
  | _ => false

/-- The action is a give-back of arena `a`. -/
def Act.returns (a : Nat) : Act → Bool
  | .giveBack _ b => b = a
  | _ => false

/-- The action is a give-back of arena `a` that answers `0`. -/
def gives (a : Nat) (s : Pool) (act : Act) : Bool := act.returns a ∧ (s.holder a).isSome

/-- Who holds an address after a step. -/
theorem step_holder (hstep : step s act = some s') (hnot : hands a s act = false) :
    s'.holder a = if act.returns a then none else s.holder a := by
  cases act with
  | acquire t =>
    simp only [step, ite_none_right_eq_some] at hstep
    obtain ⟨-, hstep⟩ := hstep
    split at hstep <;> cases hstep
    next b rest hstack =>
      have hne : a ≠ b := by simpa [hands, hstack, eq_comm] using hnot
      simp [Act.returns, Pool.hand, update_of_ne hne]
    · rfl
  | mint t served =>
    simp only [step, ite_none_right_eq_some, some.injEq] at hstep
    obtain ⟨-, rfl⟩ := hstep
    cases served with
    | true =>
      have hne : a ≠ s.minted := by simpa [hands, eq_comm] using hnot
      simp [Act.returns, Pool.hand, update_of_ne hne]
    | false => rfl
  | giveBack t b =>
    simp only [step, ite_none_right_eq_some] at hstep
    obtain ⟨-, hstep⟩ := hstep
    by_cases hb : b = a
    · split at hstep <;> cases hstep <;> simp_all [Act.returns]
    · split at hstep <;> cases hstep <;> simp [Act.returns, hb, update_of_ne (Ne.symm hb)]
  | scrub | park =>
    simp only [step] at hstep
    split at hstep <;> cases hstep
    rfl

/-- **Of the give-backs of an arena that is held, one succeeds**, as long as it is not handed out
again. -/
theorem times_gives {race : List Act} (hrun : pool.exec s race = some s')
    (hheld : (s.holder a).isSome) (hnot : pool.times (hands a) s race = 0) :
    pool.times (gives a) s race = if race.any (Act.returns a) then 1 else 0 := by
  refine And.left (pool.exec_history (I := fun race s' => pool.times (hands a) s race = 0 →
    pool.times (gives a) s race = (if race.any (Act.returns a) then 1 else 0) ∧
      (s'.holder a).isSome = !race.any (Act.returns a)) ?_ ?_ hrun hnot)
  · exact fun _ => ⟨rfl, hheld⟩
  · intro race s₁ act s₂ hrun ih hstep hnot
    rw [pool.times_snoc hrun hstep] at hnot ⊢
    have hact : hands a s₁ act = false := by simpa using (Nat.add_eq_zero_iff.1 hnot).2
    obtain ⟨hgives, hholder⟩ := ih (Nat.add_eq_zero_iff.1 hnot).1
    rw [step_holder hstep hact, hgives, any_append]
    cases hact : act.returns a <;> cases hrace : race.any (Act.returns a) <;> simp_all [gives]

/-- **The pool.** In every interleaving every minted arena is in exactly one place at every moment;
what is on the free stack has been scrubbed, and is not being scrubbed; and if an arena that is held
is given back, by however many threads at once, one of them succeeds before it is handed out
again. -/
theorem places_run {acts : List Act} (hrun : pool.exec {} acts = some s) :
    (∃ place, Placed s place) ∧ (∀ a ∈ s.free, s.scrubbed a = true ∧ ∀ t, s.pc t ≠ .scrubbing a) ∧
      ∀ a race s', pool.exec s race = some s' → (s.holder a).isSome →
        pool.times (hands a) s race = 0 →
        race.any (Act.returns a) → pool.times (gives a) s race = 1 := by
  obtain ⟨place, h⟩ : ∃ place, Placed s place := by
    refine pool.exec_invariant (I := fun s => ∃ place, Placed s place) ?_ ?_ hrun
    · exact ⟨fun _ => none, by simp, by simp, by simp, by simp, nodup_nil, by simp⟩
    · rintro s act s' ⟨place, h⟩ hstep
      exact h.keep hstep
  refine ⟨⟨place, h⟩, fun a ha => ⟨h.clean a (.inl ha), fun t hpc => ?_⟩, ?_⟩
  · cases ((h.free a).1 ha).symm.trans ((h.scrubbing a t).1 (.inl hpc))
  · intro a race s' hrace hheld hnot hreturned
    rw [times_gives hrace hheld hnot, if_pos hreturned]

/-- Two threads give back the arena that a third acquired. -/
theorem places_run_race : ∃ s, pool.exec {} [.acquire 0, .mint 0 true] = some s ∧
    (pool.exec s [.giveBack 1 0, .giveBack 2 0]).isSome ∧
    pool.times (gives 0) s [.giveBack 1 0, .giveBack 2 0] = 1 := by
  obtain ⟨s, s', hrun, hrace, hheld, hnot⟩ : ∃ s s',
      pool.exec {} [.acquire 0, .mint 0 true] = some s ∧
      pool.exec s [.giveBack 1 0, .giveBack 2 0] = some s' ∧ (s.holder 0).isSome ∧
      pool.times (hands 0) s [.giveBack 1 0, .giveBack 2 0] = 0 := ⟨_, _, rfl, rfl, rfl, rfl⟩
  exact ⟨s, hrun, by rw [hrace]; rfl, (places_run hrun).2.2 0 _ s' hrace hheld hnot rfl⟩

end Agnosai.CrewPool
