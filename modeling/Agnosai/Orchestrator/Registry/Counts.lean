import Agnosai.Orchestrator.Registry.Queue

/-!
# Orchestrator — Registry — Counts

What each atomic step of the lifecycle does, said once (`LifeTrans`), and what it does to the
counts. A crew's count is the number of its runs that have yet to leave (`Counts`), so a crew with
a run in flight is not released, and its arena is still held for it.
-/

namespace Agnosai.Orchestrator

open CrewRunner Function Option Finset

variable {home : Nat → Option Nat} {c c' : Life} {act : LifeAct}

theorem Life.run?_eq_some {r k : Nat} {crew : Crew} {stage : Stage} :
    c.run? r = some (k, crew, stage) ↔ c.runs r = some ⟨k, stage⟩ ∧ c.crews k = some crew := by
  rw [Life.run?, bind_eq_some_iff]
  constructor
  · rintro ⟨⟨k', stage'⟩, hrun, hmap⟩
    obtain ⟨crew', hcrew, heq⟩ := map_eq_some_iff.1 hmap
    cases heq
    exact ⟨hrun, hcrew⟩
  · rintro ⟨hrun, hcrew⟩
    exact ⟨⟨k, stage⟩, hrun, by simp only [hcrew, map_some]⟩

/-! ### What a step does -/

/-- What an action does to the registry and the crews. -/
inductive LifeTrans (home : Nat → Option Nat) (c : Life) : LifeAct → Life → Prop where
  | created {k spec arena} (hnew : c.crews k = none)
      (hfree : ∀ a, arena = some a → c.held a = none) :
      LifeTrans home c (.create k spec arena)
        ({ c with held := arena.elim c.held fun a => update c.held a (some k) }.setCrew k
          { spec, arena })
  | begun {r k crew} (hnew : c.runs r = none) (hcrew : c.crews k = some crew)
      (hlive : crew.released = false) :
      LifeTrans home c (.begin r k)
        ((c.setCrew k { crew with runs := crew.runs + 1 }).setStage r k .begun)
  | registered {r addr k crew} (hrun : c.runs r = some ⟨k, .begun⟩) (hcrew : c.crews k = some crew)
      (hfree : c.Free home crew addr) :
      LifeTrans home c (.register r addr)
        (({ c with
          reg := c.reg.registerAt addr r crew.spec.id
          evicted := c.evicted ++ c.reg.evicted.map c.born }.use addr).setStage r k .registered)
  | abandoned {r k crew} (hrun : c.runs r = some ⟨k, .registered⟩) (hcrew : c.crews k = some crew) :
      LifeTrans home c (.abandon r)
        ({ c with reg := c.reg.abandon crew.spec.id }.setStage r k .leaving)
  | advanced {r k crew} (hrun : c.runs r = some ⟨k, .registered⟩) (hcrew : c.crews k = some crew) :
      LifeTrans home c (.advance r)
        ({ c with reg := c.reg.advance crew.spec.id .pending .running }.setStage r k .running)
  | ran {r env k crew} (hrun : c.runs r = some ⟨k, .running⟩) (hcrew : c.crews k = some crew)
      (hflag : seesFlag env crew.spec (c.reg.flags r) = true) :
      LifeTrans home c (.run r env)
        (c.setStage r k (.returned (crewRun env crew.spec).1 (crewRun env crew.spec).2.timedOut))
  | finished {r addr k crew result timedOut} (hrun : c.runs r = some ⟨k, .returned result timedOut⟩)
      (hcrew : c.crews k = some crew) (hfree : c.Free home crew addr) :
      LifeTrans home c (.finish r addr)
        ({ c.use addr with
          reg := c.reg.finishAt addr crew.spec (finalResult crew.spec result timedOut)
          ended := c.ended ++ (c.reg.finishEnded addr crew.spec
            (finalResult crew.spec result timedOut)).map (c.use addr).born }.setStage r k .leaving)
  | left {r k crew} (hrun : c.runs r = some ⟨k, .leaving⟩) (hcrew : c.crews k = some crew) :
      LifeTrans home c (.leave r)
        ((c.setCrew k { crew with runs := crew.runs - 1 }).setStage r k .gone)
  | cancelled {id} :
      LifeTrans home c (.cancel id)
        { c with
          reg := (c.reg.cancelCrew id).2
          ended := c.ended ++ (c.reg.cancelEnded id).map c.born }
  | forgotten {id} : LifeTrans home c (.forget id) { c with reg := (c.reg.forgetCrew id).2 }
  /-- The release is refused, or waits. -/
  | refused {k crew} (hcrew : c.crews k = some crew)
      (hno : crew.released = true ∨ (c.reg.cancel.lookup crew.spec.id).isSome ∨ crew.runs ≠ 0) :
      LifeTrans home c (.release k) c
  | released {k crew} (hcrew : c.crews k = some crew) (hlive : crew.released = false)
      (hflag : c.reg.cancel.lookup crew.spec.id = none) (hruns : crew.runs = 0) :
      LifeTrans home c (.release k)
        ({ c with
          reg := c.reg.releaseCrew crew.spec.id
            (crew.arena.map fun a addr => decide (home addr = some a)) }.setCrew k
          { crew with released := crew.arena.isSome })
  | gaveBack {k a crew} (hcrew : c.crews k = some crew) (harena : crew.arena = some a)
      (hreleased : crew.released = true) (hheld : c.held a = some k) :
      LifeTrans home c (.giveBack k)
        { c with
          reg :=
            { c.reg with
              states := fun addr => if home addr = some a then scrubbed else c.reg.states addr }
          used := fun addr => c.used addr && decide (home addr ≠ some a)
          held := update c.held a none }

/-- **Inversion of a step.** -/
theorem lifeStep_trans (h : (lifecycle home).step c act = some c') : LifeTrans home c act c' := by
  cases act with
  | create =>
    simp only [lifecycle, lifeStep] at h
    split at h <;> cases h
    rename_i hfree
    refine .created hfree.1 ?_
    rintro a rfl
    simpa using hfree.2
  | begin =>
    simp only [lifecycle, lifeStep] at h
    split at h
    · split at h <;> cases h
      exact .begun ‹_› ‹_› (Bool.eq_false_iff.2 ‹_›)
    · cases h
  | register | run | finish =>
    simp only [lifecycle, lifeStep] at h
    split at h
    · obtain ⟨hrun, hcrew⟩ := Life.run?_eq_some.1 ‹_›
      split at h <;> cases h
      constructor <;> assumption
    · cases h
  | abandon | advance | leave =>
    simp only [lifecycle, lifeStep] at h
    split at h <;> cases h
    obtain ⟨hrun, hcrew⟩ := Life.run?_eq_some.1 ‹_›
    constructor <;> assumption
  | cancel | forget =>
    cases h
    constructor
  | release =>
    simp only [lifecycle, lifeStep] at h
    split at h
    · cases h
    next crew hcrew =>
      split at h
      · cases h
        exact .refused hcrew ‹_›
      next hno =>
        obtain ⟨hlive, hflag, hruns⟩ : ¬ crew.released ∧
            ¬ (c.reg.cancel.lookup crew.spec.id).isSome ∧ ¬ crew.runs ≠ 0 := by
          simpa only [not_or] using hno
        cases h
        exact .released hcrew (Bool.eq_false_iff.2 hlive) (not_isSome_iff_eq_none.1 hflag)
          (not_not.1 hruns)
  | giveBack =>
    simp only [lifecycle, lifeStep] at h
    split at h
    · split at h <;> cases h
      exact .gaveBack ‹_› rfl rfl ‹_›
    · cases h

/-! ### Runs and crews -/

/-- Run `r` of crew `k` has yet to leave. -/
def Life.InFlight (c : Life) (k r : Nat) : Prop :=
  ∃ stage, c.runs r = some ⟨k, stage⟩ ∧ stage ≠ .gone

/-- One crew holds an arena. -/
theorem Life.holder_unique {c : Life} {a k k' : Nat} {crew crew' : Crew}
    (hheld' : c.held a = some k')
    (hheld : c.held a = some k) (hcrew' : c.crews k' = some crew') (hcrew : c.crews k = some crew) :
    k' = k ∧ crew' = crew := by
  obtain rfl : k' = k := some_inj.1 (hheld'.symm.trans hheld)
  exact ⟨rfl, some_inj.1 (hcrew'.symm.trans hcrew)⟩

/-- A crew's count is the number of its runs in flight, and a release has waited for them. -/
structure Counts (c : Life) : Prop where
  known : ∀ r run, c.runs r = some run → (c.crews run.crew).isSome
  counted : ∀ k crew, c.crews k = some crew →
    ∃ s : Finset Nat, s.card = crew.runs ∧ ∀ r, r ∈ s ↔ c.InFlight k r
  idle : ∀ k crew, c.crews k = some crew → crew.released = true → crew.runs = 0
  holds : ∀ k crew a, c.crews k = some crew → crew.arena = some a → crew.released = false →
    c.held a = some k
  final : ∀ r k crew result timedOut, c.runs r = some ⟨k, .returned result timedOut⟩ →
    c.crews k = some crew → ∀ s, finalResult crew.spec result timedOut = .ok s →
    Registry.Final crew.spec.id s

theorem counts_start : Counts {} where
  known := nofun
  counted := nofun
  idle := nofun
  holds := nofun
  final _ _ _ _ _ h := by cases h

section Counting

variable {r k : Nat} {crew : Crew} {stage stage' : Stage}

/-- A crew with a run in flight is not released. -/
theorem Counts.live (h : Counts c) (hrun : c.runs r = some ⟨k, stage⟩) (hstage : stage ≠ .gone)
    (hcrew : c.crews k = some crew) : crew.released = false := by
  rw [Bool.eq_false_iff]
  intro hreleased
  obtain ⟨s, hcard, hmem⟩ := h.counted k crew hcrew
  rw [h.idle k crew hcrew hreleased, card_eq_zero] at hcard
  have hr := (hmem r).2 ⟨stage, hrun, hstage⟩
  rw [hcard] at hr
  exact notMem_empty r hr

/-- A crew that has never run has no run in flight. -/
theorem Counts.notInFlight (h : Counts c) (hnew : c.crews k = none) : ¬ c.InFlight k r := by
  rintro ⟨stage, hrun, -⟩
  simpa [hnew] using h.known r _ hrun

theorem inFlight_update (hruns : c'.runs = update c.runs r (some ⟨k, stage⟩)) {k' r' : Nat} :
    c'.InFlight k' r' ↔ r' = r ∧ k' = k ∧ stage ≠ .gone ∨ r' ≠ r ∧ c.InFlight k' r' := by
  simp only [Life.InFlight, hruns, update_eq_some]
  constructor
  · rintro ⟨stage', ⟨rfl, ⟨⟩⟩ | ⟨hne, hr⟩, hstage⟩
    · exact .inl ⟨rfl, rfl, hstage⟩
    · exact .inr ⟨hne, stage', hr, hstage⟩
  · rintro (⟨rfl, rfl, hstage⟩ | ⟨hne, stage', hr, hstage⟩)
    · exact ⟨stage, .inl ⟨rfl, rfl⟩, hstage⟩
    · exact ⟨stage', .inr ⟨hne, hr⟩, hstage⟩

/-- A crew the run is not of has the runs in flight that it had. -/
theorem inFlight_update_of_ne (hruns : c'.runs = update c.runs r (some ⟨k, stage⟩)) {k' : Nat}
    (hne : k' ≠ k) (hidle : ¬ c.InFlight k' r) (r' : Nat) :
    c'.InFlight k' r' ↔ c.InFlight k' r' := by
  rw [inFlight_update hruns]
  by_cases heq : r' = r
  · rw [heq]
    exact iff_of_false (by simp [hne]) hidle
  · simp [heq]

/-- A run in flight goes to a stage in flight. -/
theorem Counts.move (h : Counts c) (hrun : c.runs r = some ⟨k, stage⟩) (hstage : stage ≠ .gone)
    (hstage' : stage' ≠ .gone) (hruns : c'.runs = update c.runs r (some ⟨k, stage'⟩))
    (hcrews : c'.crews = c.crews) (hheld : c'.held = c.held)
    (hfinal : ∀ crew result timedOut, stage' = .returned result timedOut → c.crews k = some crew →
      ∀ s, finalResult crew.spec result timedOut = .ok s → Registry.Final crew.spec.id s) :
    Counts c' := by
  have hflight : ∀ k' r', c'.InFlight k' r' ↔ c.InFlight k' r' := by
    intro k' r'
    rw [inFlight_update hruns]
    constructor
    · rintro (⟨rfl, rfl, -⟩ | ⟨-, hold⟩)
      · exact ⟨stage, hrun, hstage⟩
      · exact hold
    · rintro ⟨stage₁, hr, hstage₁⟩
      by_cases heq : r' = r
      · rw [heq, hrun] at hr
        cases hr
        exact .inl ⟨heq, rfl, hstage'⟩
      · exact .inr ⟨heq, stage₁, hr, hstage₁⟩
  refine ⟨?_, ?_, ?_, ?_, ?_⟩
  · intro r' run hr
    rw [hcrews]
    rw [hruns] at hr
    obtain ⟨-, rfl⟩ | ⟨-, hr⟩ := update_eq_some.1 hr
    · exact h.known r ⟨k, stage⟩ hrun
    · exact h.known r' run hr
  · rw [hcrews]
    intro k' crew' hcrew
    obtain ⟨s, hcard, hmem⟩ := h.counted k' crew' hcrew
    exact ⟨s, hcard, fun r' => (hmem r').trans (hflight k' r').symm⟩
  · rw [hcrews]
    exact h.idle
  · rw [hcrews, hheld]
    exact h.holds
  · intro r' k' crew' result timedOut hr hcrew
    rw [hcrews] at hcrew
    rw [hruns] at hr
    obtain ⟨-, heq⟩ | ⟨-, hr⟩ := update_eq_some.1 hr
    · cases heq
      exact hfinal crew' result timedOut rfl hcrew
    · exact h.final r' k' crew' result timedOut hr hcrew

theorem runs_update (hruns : c'.runs = update c.runs r (some ⟨k, stage⟩))
    (hstage : ∀ result timedOut, stage ≠ .returned result timedOut) (r' k' : Nat) (stage' : Stage)
    (hr : c'.runs r' = some ⟨k', stage'⟩) : c.runs r' = some ⟨k', stage'⟩ ∨
      k' = k ∧ ∀ result timedOut, stage' ≠ .returned result timedOut := by
  rw [hruns] at hr
  obtain ⟨-, heq⟩ | ⟨-, hr⟩ := update_eq_some.1 hr
  · cases heq
    exact .inr ⟨rfl, hstage⟩
  · exact .inl hr

/-- A crew is replaced by one with the same spec and arena, and a run of it may go to another
stage. -/
theorem Counts.recount (h : Counts c) {crew' : Crew} (hcrew : c.crews k = some crew)
    (hcrews : c'.crews = update c.crews k (some crew')) (hheld : c'.held = c.held)
    (hspec : crew'.spec = crew.spec) (harena : crew'.arena = crew.arena)
    (hreleased : crew.released = true → crew'.released = true)
    (hidle : crew'.released = true → crew'.runs = 0)
    (hruns : ∀ r' k' stage', c'.runs r' = some ⟨k', stage'⟩ → c.runs r' = some ⟨k', stage'⟩ ∨
      k' = k ∧ ∀ result timedOut, stage' ≠ .returned result timedOut)
    (hflight : ∀ k' r', k' ≠ k → (c'.InFlight k' r' ↔ c.InFlight k' r'))
    (hcount : ∃ s : Finset Nat, s.card = crew'.runs ∧ ∀ r', r' ∈ s ↔ c'.InFlight k r') :
    Counts c' := by
  refine ⟨?_, ?_, ?_, ?_, ?_⟩
  · rintro r' ⟨k', stage'⟩ hr
    rw [hcrews]
    by_cases heq : k' = k
    · rw [heq, update_self]
      rfl
    · rw [update_of_ne heq]
      obtain hold | ⟨hk, -⟩ := hruns r' k' stage' hr
      · exact h.known r' _ hold
      · exact absurd hk heq
  all_goals
    rw [hcrews]
    intro k'
  · intro crew₁ hcrew₁
    obtain ⟨rfl, rfl⟩ | ⟨hne, hcrew₁⟩ := update_eq_some.1 hcrew₁
    · exact hcount
    · obtain ⟨s, hcard, hmem⟩ := h.counted k' crew₁ hcrew₁
      exact ⟨s, hcard, fun r' => (hmem r').trans (hflight k' r' hne).symm⟩
  · intro crew₁ hcrew₁
    obtain ⟨rfl, rfl⟩ | ⟨-, hcrew₁⟩ := update_eq_some.1 hcrew₁
    · exact hidle
    · exact h.idle k' crew₁ hcrew₁
  · intro crew₁ a hcrew₁ ha hlive
    rw [hheld]
    obtain ⟨rfl, rfl⟩ | ⟨-, hcrew₁⟩ := update_eq_some.1 hcrew₁
    · refine h.holds k' crew a hcrew (harena ▸ ha) (Bool.eq_false_iff.2 fun hcontra => ?_)
      rw [hreleased hcontra] at hlive
      cases hlive
    · exact h.holds k' crew₁ a hcrew₁ ha hlive
  · intro k₁ crew₁ result timedOut hr hcrew₁
    obtain hold | ⟨-, hnot⟩ := hruns _ _ _ hr
    · obtain ⟨rfl, rfl⟩ | ⟨-, hcrew₁⟩ := update_eq_some.1 hcrew₁
      · rw [hspec]
        exact h.final _ k₁ crew result timedOut hold hcrew
      · exact h.final _ k₁ crew₁ result timedOut hold hcrew₁
    · exact absurd rfl (hnot result timedOut)

/-- A new crew takes no arena that is held. -/
theorem held_create {held : Nat → Option Nat} {arena : Option Nat}
    (hfree : ∀ a, arena = some a → held a = none) {a k' : Nat} (hheld : held a = some k') :
    (arena.elim held fun a => update held a (some k)) a = some k' := by
  cases arena with
  | none => exact hheld
  | some a' =>
    have hne : a ≠ a' := by
      rintro rfl
      rw [hfree a rfl] at hheld
      cases hheld
    exact (update_of_ne hne ..).trans hheld

/-- A new crew has no runs. -/
theorem Counts.create (h : Counts c) (hnew : c.crews k = none) (spec : CrewSpec)
    {arena : Option Nat} (hfree : ∀ a, arena = some a → c.held a = none) :
    Counts ({ c with held := arena.elim c.held fun a => update c.held a (some k) }.setCrew k
      { spec, arena }) := by
  refine ⟨?_, ?_, ?_, ?_, ?_⟩
  · intro r' run hr
    have hne : run.crew ≠ k := by
      intro heq
      simpa [heq, hnew] using h.known r' run hr
    simp only [Life.setCrew, update_of_ne hne]
    exact h.known r' run hr
  · intro k' crew' hcrew
    obtain ⟨rfl, rfl⟩ | ⟨-, hcrew⟩ := update_eq_some.1 hcrew
    · exact ⟨∅, rfl, fun r' => iff_of_false (notMem_empty r') (h.notInFlight hnew)⟩
    · exact h.counted k' crew' hcrew
  · intro k' crew' hcrew
    obtain ⟨rfl, rfl⟩ | ⟨-, hcrew⟩ := update_eq_some.1 hcrew
    · exact fun _ => rfl
    · exact h.idle k' crew' hcrew
  · intro k' crew' a hcrew ha hlive
    obtain ⟨rfl, rfl⟩ | ⟨-, hcrew⟩ := update_eq_some.1 hcrew
    · obtain rfl : arena = some a := ha
      exact update_self ..
    · exact held_create hfree (h.holds k' crew' a hcrew ha hlive)
  · intro r' k' crew' result timedOut hr hcrew
    obtain ⟨rfl, -⟩ | ⟨-, hcrew⟩ := update_eq_some.1 hcrew
    · exact absurd ⟨_, hr, Stage.noConfusion⟩ (h.notInFlight hnew)
    · exact h.final r' k' crew' result timedOut hr hcrew

end Counting

/-- What a run returns is a final state of its crew. -/
theorem final_crewRun (env : Env) (spec : CrewSpec) {s : CrewState}
    (h : finalResult spec (crewRun env spec).1 (crewRun env spec).2.timedOut = .ok s) :
    Registry.Final spec.id s := by
  cases hrun : runTasks env spec {} with
  | mk result =>
    cases result with
    | error =>
      simp only [crewRun, hrun, finalResult] at h
      cases h
    | ok =>
      rw [crewRun_ok hrun] at h
      cases h
      split
      · exact ⟨rfl, rfl⟩
      · refine ⟨rfl, ?_⟩
        unfold isFinished finalState finalStatus
        split
        · rfl
        · split
          · rfl
          · split <;> rfl

/-- One step keeps the counts. -/
theorem Counts.keep (h : Counts c) (ht : LifeTrans home c act c') : Counts c' := by
  have hno : ∀ {stage : Stage} {k : Nat}, (∀ result timedOut, stage ≠ .returned result timedOut) →
      ∀ crew result timedOut, stage = .returned result timedOut → c.crews k = some crew →
        ∀ s, finalResult crew.spec result timedOut = .ok s → Registry.Final crew.spec.id s :=
    fun hstage _ result timedOut heq => absurd heq (hstage result timedOut)
  cases ht with
  | created hnew hfree => exact h.create hnew _ hfree
  | registered hrun | abandoned hrun | advanced hrun | finished hrun =>
    exact h.move hrun Stage.noConfusion Stage.noConfusion rfl rfl rfl
      (hno fun _ _ => Stage.noConfusion)
  | @ran r env k crew hrun hcrew _ =>
    refine h.move hrun Stage.noConfusion Stage.noConfusion rfl rfl rfl ?_
    rintro crew' result timedOut ⟨⟩ hcrew' s
    obtain rfl : crew = crew' := some_inj.1 (hcrew.symm.trans hcrew')
    exact final_crewRun env crew.spec
  | cancelled | forgotten => exact ⟨h.known, h.counted, h.idle, h.holds, h.final⟩
  | refused => exact h
  | @begun r k crew hnew hcrew hlive =>
    obtain ⟨s, hcard, hmem⟩ := h.counted k crew hcrew
    have hidle : ∀ k', ¬ c.InFlight k' r := by
      rintro k' ⟨_, hr, -⟩
      rw [hnew] at hr
      cases hr
    refine h.recount hcrew rfl rfl rfl rfl id (fun hreleased => ?_) (runs_update rfl fun _ _ =>
      Stage.noConfusion) ?_ ⟨insert r s, ?_, ?_⟩
    · exact absurd (hlive.symm.trans hreleased) Bool.noConfusion
    · exact fun k' r' hne => inFlight_update_of_ne rfl hne (hidle k') r'
    · rw [card_insert_of_notMem fun hr => hidle k ((hmem r).1 hr), hcard]
    · intro r'
      rw [mem_insert, inFlight_update rfl, hmem]
      by_cases heq : r' = r
      · simp [heq]
      · simp [heq, Life.setCrew, Life.InFlight]
  | @left r k crew hrun hcrew =>
    obtain ⟨s, hcard, hmem⟩ := h.counted k crew hcrew
    refine h.recount hcrew rfl rfl rfl rfl id (fun hreleased => ?_) (runs_update rfl fun _ _ =>
      Stage.noConfusion) ?_ ⟨s.erase r, ?_, ?_⟩
    · exact absurd ((h.live hrun Stage.noConfusion hcrew).symm.trans hreleased) Bool.noConfusion
    · intro k' r' hne
      refine inFlight_update_of_ne rfl hne ?_ r'
      rintro ⟨_, hr, -⟩
      rw [hrun] at hr
      cases hr
      exact hne rfl
    · rw [card_erase_of_mem ((hmem r).2 ⟨_, hrun, Stage.noConfusion⟩), hcard]
    · intro r'
      rw [mem_erase, inFlight_update rfl, hmem]
      by_cases heq : r' = r
      · simp [heq]
      · simp [heq, Life.setCrew, Life.InFlight]
  | @released k crew hcrew hlive _ hruns =>
    refine h.recount hcrew rfl rfl rfl rfl (fun hreleased => ?_) (fun _ => hruns)
      (fun _ _ _ hr => .inl hr) (fun _ _ _ => Iff.rfl) (h.counted k crew hcrew)
    exact absurd (hlive.symm.trans hreleased) Bool.noConfusion
  | @gaveBack k a crew hcrew harena hreleased hheld =>
    refine ⟨h.known, h.counted, h.idle, ?_, h.final⟩
    intro k' crew' a' hcrew' harena' hlive
    have hheld' := h.holds k' crew' a' hcrew' harena' hlive
    have hne : a' ≠ a := by
      rintro rfl
      obtain ⟨rfl, rfl⟩ := Life.holder_unique hheld' hheld hcrew' hcrew
      rw [hreleased] at hlive
      cases hlive
    exact (update_of_ne hne ..).trans hheld'

end Agnosai.Orchestrator
