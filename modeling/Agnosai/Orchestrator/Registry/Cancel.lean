import Agnosai.Orchestrator.Registry.Definitions

/-!
# Orchestrator — Registry — Cancel

What a cancel that succeeded leaves. `Trans` says once what each atomic step does. With one run
of a crew at a time, the flag registered under a crew is its run's (`Sound`), so a cancel raises
the flag of the run, and `Doomed` follows it: a runner that finds its flag raised computes no
`COMPLETED`, and nothing else stores one. There is one way out: a cancel between the moment the
runner reads the flag and the section that stores its state.
-/

namespace Agnosai.Orchestrator

open CrewRunner Config Registry Function KeyMap

variable {o : Registry} {c c' : Config} {a : Act} {id : String}

/-! ### What the sections leave alone -/

variable {spec : CrewSpec}

namespace Registry

variable (o)

/-- The registry reports `COMPLETED` for `id`. -/
def Completed (id : String) : Prop :=
  ∃ s, o.crew id = some s ∧ s.status = .completed

/-- Every registered address is in use. -/
def Allocated : Prop := ∀ id addr, o.crews.lookup id = some addr → addr < o.fresh

theorem compactEnded_eq :
    ∃ ended endedHead, o.compactEnded = { o with ended, endedHead } := by
  unfold compactEnded
  split
  · exact ⟨o.ended, o.endedHead, rfl⟩
  · exact ⟨_, _, rfl⟩

theorem noteEnded_eq (addr : Nat) :
    ∃ ended endedHead, o.noteEnded addr = { o with ended, endedHead } := by
  obtain ⟨ended, endedHead, h⟩ := compactEnded_eq { o with ended := o.ended ++ [addr] }
  exact ⟨ended, endedHead, h⟩

/-- Eviction takes crews out, and pops the queue. -/
structure Shrunk (o o' : Registry) : Prop where
  crews : ∀ id addr, o'.crews.lookup id = some addr → o.crews.lookup id = some addr
  cancel : o'.cancel = o.cancel
  states : o'.states = o.states
  fresh : o'.fresh = o.fresh
  flags : o'.flags = o.flags

theorem Shrunk.refl : Shrunk o o := ⟨fun _ _ h => h, rfl, rfl, rfl, rfl⟩

theorem Shrunk.trans {o₁ o₂ o₃ : Registry} (h₁ : Shrunk o₁ o₂) (h₂ : Shrunk o₂ o₃) :
    Shrunk o₁ o₃ :=
  ⟨fun id addr h => h₁.crews id addr (h₂.crews id addr h), h₂.cancel.trans h₁.cancel,
    h₂.states.trans h₁.states, h₂.fresh.trans h₁.fresh, h₂.flags.trans h₁.flags⟩

theorem shrunk_erase (id : String) : Shrunk o { o with crews := o.crews.erase id } where
  crews id' addr h := by
    rw [lookup_erase, Option.ite_none_left_eq_some] at h
    exact h.2
  cancel := rfl
  states := rfl
  fresh := rfl
  flags := rfl

theorem shrunk_compactEnded : Shrunk o o.compactEnded := by
  obtain ⟨_, _, h⟩ := o.compactEnded_eq
  rw [h]
  exact ⟨fun _ _ h => h, rfl, rfl, rfl, rfl⟩

theorem shrunk_noteEnded (addr : Nat) : Shrunk o (o.noteEnded addr) := by
  obtain ⟨_, _, h⟩ := o.noteEnded_eq addr
  rw [h]
  exact ⟨fun _ _ h => h, rfl, rfl, rfl, rfl⟩

theorem shrunk_evictLoop (held : Nat) (queue : List Nat) (o : Registry) :
    Shrunk o (evictLoop held queue o) := by
  induction queue generalizing o with
  | nil => exact .refl o
  | cons addr rest ih =>
    unfold evictLoop
    split
    · refine Shrunk.trans ?_ (ih _)
      cases o.isCurrent addr with
      | true => exact ⟨(shrunk_erase o _).crews, rfl, rfl, rfl, rfl⟩
      | false => exact ⟨fun _ _ h => h, rfl, rfl, rfl, rfl⟩
    · exact .refl o

theorem shrunk_evict : Shrunk o o.evict := by
  unfold evict
  split
  · exact .refl o
  · exact (shrunk_evictLoop _ _ o).trans (shrunk_compactEnded _)

/-! ### What a section makes the registry report -/

variable {o}

theorem completed_iff {o : Registry} :
    o.Completed id ↔ ∃ addr, o.crews.lookup id = some addr ∧
      (o.states addr).status = .completed := by
  simp [Completed, crew]

variable {o' : Registry}

theorem Shrunk.completed (h : Shrunk o o') (hc : o'.Completed id) : o.Completed id := by
  rw [completed_iff] at hc ⊢
  obtain ⟨addr, hl, hs⟩ := hc
  exact ⟨addr, h.crews id addr hl, by rwa [h.states] at hs⟩

theorem Shrunk.allocated (h : Shrunk o o') (ha : o.Allocated) : o'.Allocated :=
  fun id addr hl => h.fresh ▸ ha id addr (h.crews id addr hl)

theorem withStatus_completed {addr : Nat} {status : CrewStatus} (hs : status ≠ .completed)
    (hc : (o.withStatus addr status).Completed id) : o.Completed id := by
  rw [completed_iff] at hc ⊢
  obtain ⟨addr', hl, hs'⟩ := hc
  refine ⟨addr', hl, ?_⟩
  by_cases haddr : addr' = addr
  · subst haddr
    exact absurd (by simpa [withStatus] using hs') hs
  · simpa only [withStatus, update_of_ne haddr] using hs'

variable {id' : String}

theorem setCrew_completed {s : CrewState} (ha : o.Allocated)
    (hc : (o.setCrew id' s).Completed id) :
    (id = id' ∧ s.status = .completed) ∨ o.Completed id := by
  rw [completed_iff] at hc ⊢
  obtain ⟨addr, hl, hs⟩ := hc
  simp only [setCrew, lookup_set] at hl hs
  split at hl
  next heq =>
    cases hl
    exact .inl ⟨heq, by simpa using hs⟩
  · have hne : addr ≠ o.fresh := (ha id addr hl).ne
    exact .inr ⟨addr, hl, by simpa only [update_of_ne hne] using hs⟩

theorem setCrew_allocated (s : CrewState) (ha : o.Allocated) : (o.setCrew id' s).Allocated := by
  intro id addr hl
  simp only [setCrew, lookup_set] at hl ⊢
  split at hl
  · cases hl
    exact Nat.lt_succ_self _
  · exact Nat.lt_succ_of_lt (ha id addr hl)

/-- A section that stores no `COMPLETED` of its own, and lowers no flag. -/
structure Calm (o o' : Registry) : Prop where
  allocated : o.Allocated → o'.Allocated
  completed : ∀ id, o'.Completed id → o.Completed id
  flags : ∀ r, o.flags r = true → o'.flags r = true

theorem Shrunk.calm (h : Shrunk o o') : Calm o o' :=
  ⟨h.allocated, fun _ => h.completed, fun r hr => by rwa [h.flags]⟩

theorem Calm.trans {o₁ o₂ o₃ : Registry} (h₁ : Calm o₁ o₂) (h₂ : Calm o₂ o₃) : Calm o₁ o₃ :=
  ⟨fun h => h₂.allocated (h₁.allocated h), fun id h => h₁.completed id (h₂.completed id h),
    fun r h => h₂.flags r (h₁.flags r h)⟩

section

variable (o : Registry)

theorem calm_withStatus (addr : Nat) {status : CrewStatus}
    (hs : status ≠ .completed) : Calm o (o.withStatus addr status) :=
  ⟨fun h => h, fun _ => withStatus_completed hs, fun _ h => h⟩

theorem advance_eq (source target : CrewStatus) :
    o.advance id source target = o ∨ ∃ addr, o.advance id source target =
      o.withStatus addr target := by
  unfold advance
  split
  · exact .inl rfl
  · split
    · exact .inr ⟨_, rfl⟩
    · exact .inl rfl

theorem calm_advance (id : String) (source : CrewStatus) {target : CrewStatus}
    (ht : target ≠ .completed) : Calm o (o.advance id source target) := by
  obtain h | ⟨addr, h⟩ := o.advance_eq source target
  · rw [h]
    exact (Shrunk.refl o).calm
  · rw [h]
    exact calm_withStatus o addr ht

theorem advance_cancel (source target : CrewStatus) :
    (o.advance id source target).cancel = o.cancel := by
  obtain h | ⟨addr, h⟩ := o.advance_eq source target
  · rw [h]
  · rw [h]
    rfl

theorem shrunk_finishError :
    Shrunk { o.advance id .running .pending with cancel := o.cancel.erase id }
      (o.finishError id) := by
  unfold finishError
  simp only [advance_cancel]
  split
  · exact .refl _
  · split
    · exact shrunk_noteEnded _ _
    · exact .refl _

theorem calm_finishError : Calm o (o.finishError id) := by
  have hadv : Calm o { o.advance id .running .pending with cancel := o.cancel.erase id } :=
    (calm_advance o id .running CrewStatus.noConfusion).trans ⟨fun h => h, fun _ h => h,
      fun _ h => h⟩
  exact hadv.trans o.shrunk_finishError.calm

theorem shrunk_finishState (s : CrewState) :
    Shrunk { o.setCrew id s with cancel := o.cancel.erase id } (o.finishState id s) :=
  shrunk_noteEnded _ _

theorem finish_cancel (result : Except CrewError CrewState) :
    (o.finish spec result).cancel = o.cancel.erase spec.id := by
  cases result with
  | error => exact o.shrunk_finishError.cancel
  | ok s => exact (o.shrunk_finishState s).cancel

end

variable {result : Except CrewError CrewState}

theorem finish_allocated (h : o.Allocated) : (o.finish spec result).Allocated := by
  cases result with
  | error => exact o.calm_finishError.allocated h
  | ok s => exact (o.shrunk_finishState s).allocated (setCrew_allocated s h)

theorem finish_flags (o : Registry) (spec : CrewSpec)
    (result : Except CrewError CrewState) (r : Nat)
    (h : o.flags r = true) : (o.finish spec result).flags r = true := by
  cases result with
  | error => exact o.calm_finishError.flags r h
  | ok s => exact (o.shrunk_finishState s).calm.flags r h

/-- A finished run makes the registry report `COMPLETED` only for its own crew, and only if that is
its result. -/
theorem finish_completed (ha : o.Allocated) (hc : (o.finish spec result).Completed id) :
    o.Completed id ∨ id = spec.id ∧ ∃ s, result = .ok s ∧ s.status = .completed := by
  cases result with
  | error => exact .inl (o.calm_finishError.completed id hc)
  | ok s =>
    obtain ⟨hid, hs⟩ | h := setCrew_completed ha ((o.shrunk_finishState s).completed hc)
    · exact .inr ⟨hid, s, rfl, hs⟩
    · exact .inl h

/-! ### Cancelling -/

theorem cancelCrew_cancel (o : Registry) (id : String) : (o.cancelCrew id).2.cancel = o.cancel := by
  unfold cancelCrew
  split
  · rfl
  · split
    · rfl
    · split
      · rfl
      · exact (shrunk_noteEnded _ _).cancel

theorem calm_cancelCrew (o : Registry) (id : String) : Calm o (o.cancelCrew id).2 := by
  unfold cancelCrew
  split
  · exact (Shrunk.refl o).calm
  next addr _ =>
    split
    · exact (Shrunk.refl o).calm
    · split
      next r _ =>
        have hraise : Calm o { o with flags := update o.flags r true } := by
          refine ⟨fun h => h, fun _ h => h, fun r' hr' => ?_⟩
          by_cases hr : r' = r
          · simp [hr]
          · simpa only [update_of_ne hr] using hr'
        exact hraise.trans (calm_withStatus _ addr CrewStatus.noConfusion)
      · exact (calm_withStatus o addr CrewStatus.noConfusion).trans (shrunk_noteEnded _ _).calm

/-- A cancel that succeeds found the crew registered and not finished. -/
theorem exists_of_cancelCrew_ok (h : (o.cancelCrew id).1 = .ok ()) :
    ∃ addr, o.crews.lookup id = some addr ∧ isFinished (o.states addr) = false := by
  unfold cancelCrew at h
  split at h
  · cases h
  next addr hl =>
    split at h
    · cases h
    next hfin =>
      exact ⟨addr, hl, Bool.eq_false_iff.2 hfin⟩

/-- A cancel that succeeds leaves the crew not completed, and the flag of its run raised. -/
theorem cancelCrew_ok (h : (o.cancelCrew id).1 = .ok ()) :
    ¬ (o.cancelCrew id).2.Completed id ∧
      ∀ r, o.cancel.lookup id = some r → (o.cancelCrew id).2.flags r = true := by
  obtain ⟨addr, hl, hfin⟩ := exists_of_cancelCrew_ok h
  constructor
  · intro hc
    obtain ⟨addr', hl', hs⟩ := completed_iff.1 ((o.calm_cancelCrew id).completed id hc)
    cases hl.symm.trans hl'
    simp [isFinished, hs] at hfin
  · intro r hr
    simp [cancelCrew, hl, hfin, hr, withStatus]

theorem shrunk_forgetCrew (o : Registry) (id : String) : Shrunk o (o.forgetCrew id).2 := by
  unfold forgetCrew
  split
  · exact .refl o
  · split
    · exact .refl o
    · exact (o.shrunk_erase id).trans (shrunk_compactEnded _)

/-! ### Registering -/

theorem register_allocated {r : Nat} (h : o.Allocated) : (o.register r id).Allocated :=
  setCrew_allocated { crewId := id, status := .pending } (o.shrunk_evict.allocated h)

theorem register_cancel (r : Nat) : (o.register r id).cancel = o.cancel.set id r := by
  simp [register, setCrew, o.shrunk_evict.cancel]

theorem register_flags (o : Registry) (id : String) {r r' : Nat} (hr : r' ≠ r) :
    (o.register r id).flags r' = o.flags r' := by
  simp only [register, setCrew, update_of_ne hr, o.shrunk_evict.flags]

theorem register_completed {r : Nat} (ha : o.Allocated)
    (hc : (o.register r id').Completed id) : o.Completed id := by
  obtain ⟨-, hs⟩ | h := setCrew_completed (o.shrunk_evict.allocated ha) hc
  · cases hs
  · exact o.shrunk_evict.completed h

end Registry

/-! ### What a step does -/

/-- What an action does to the configuration. -/
inductive Trans (c : Config) : Act → Config → Prop where
  | registered {r spec} (h : c.runs r = none) :
      Trans c (.register r spec)
        ({ c with reg := c.reg.register r spec.id }.setPhase r spec .registered)
  | abandoned {r spec} (h : c.runs r = some { spec, phase := .registered }) :
      Trans c (.abandon r) ({ c with reg := c.reg.abandon spec.id }.setPhase r spec .ended)
  | advanced {r spec} (h : c.runs r = some { spec, phase := .registered }) :
      Trans c (.advance r)
        ({ c with reg := c.reg.advance spec.id .pending .running }.setPhase r spec .running)
  | ran {r spec env} (h : c.runs r = some { spec, phase := .running })
      (hf : seesFlag env spec (c.reg.flags r) = true) :
      Trans c (.run r env)
        (c.setPhase r spec (.returned (crewRun env spec).1 (crewRun env spec).2.timedOut))
  | finished {r spec result timedOut}
      (h : c.runs r = some { spec, phase := .returned result timedOut }) :
      Trans c (.finish r)
        ({ c with reg := c.reg.finish spec (finalResult spec result timedOut) }.setPhase r
          spec .ended)
  | cancelled {crew} : Trans c (.cancel crew) { c with reg := (c.reg.cancelCrew crew).2 }
  | forgotten {crew} : Trans c (.forget crew) { c with reg := (c.reg.forgetCrew crew).2 }
  | read {crew} : Trans c (.read crew) c

/-- **Inversion of a step.** -/
theorem step_trans (h : orchestrator.step c a = some c') : Trans c a c' := by
  cases a with
  | register | abandon | advance | finish =>
    simp only [orchestrator, step] at h
    split at h <;> cases h
    constructor
    assumption
  | run =>
    simp only [orchestrator, step] at h
    split at h
    · split at h <;> cases h
      exact .ran ‹_› ‹_›
    · cases h
  | cancel | forget | read =>
    cases h
    constructor

/-! ### Reachable configurations -/

/-- One run of a crew at a time: a crew is registered only when its earlier runs have ended. -/
def OneRunAtATime (c : Config) (a : Act) : Prop :=
  ∀ r spec, a = .register r spec → ∀ r' k, c.runs r' = some k → k.spec.id = spec.id →
    k.phase = .ended

/-- What holds of every reachable configuration. -/
structure Sound (c : Config) : Prop where
  allocated : c.reg.Allocated
  /-- The flag registered under a crew is its run's. -/
  flagged : ∀ r k, c.runs r = some k → k.phase ≠ .ended → c.reg.cancel.lookup k.spec.id = some r

theorem Sound.start : Sound {} := ⟨by simp [Registry.Allocated], by simp⟩

/-- A run of which the flag goes leaves the flags of the other runs. -/
theorem Sound.flagged_erase (h : Sound c) {r r' : Nat} {k k' : Runner} (hk : c.runs r = some k)
    (hlive : k.phase ≠ .ended) (hk' : c.runs r' = some k') (hlive' : k'.phase ≠ .ended)
    (hr : r' ≠ r) : (c.reg.cancel.erase k.spec.id).lookup k'.spec.id = some r' := by
  have hl' := h.flagged r' k' hk' hlive'
  have hne : k'.spec.id ≠ k.spec.id := by
    intro heq
    rw [heq, h.flagged r k hk hlive] at hl'
    exact hr (Option.some.inj hl').symm
  rwa [lookup_erase_of_ne _ hne]

/-- Every step keeps the flags sound. -/
theorem Sound.keep (h : Sound c) (hone : OneRunAtATime c a) (hstep : Trans c a c') : Sound c' := by
  cases hstep with
  | @registered r spec hnone =>
    refine ⟨register_allocated h.allocated, fun r' k hk hlive => ?_⟩
    simp only [setPhase, register_cancel, lookup_set]
    obtain ⟨rfl, rfl⟩ | ⟨hr, hk⟩ := update_eq_some.1 hk
    · rw [if_pos rfl]
    · have hne : k.spec.id ≠ spec.id := fun heq => hlive (hone r spec rfl r' k hk heq)
      rw [if_neg hne]
      exact h.flagged r' k hk hlive
  | abandoned hr =>
    refine ⟨h.allocated, fun r' k hk hlive => ?_⟩
    obtain ⟨rfl, rfl⟩ | ⟨hne, hk⟩ := update_eq_some.1 hk
    · exact absurd rfl hlive
    · exact h.flagged_erase hr (nofun) hk hlive hne
  | @advanced r spec hr =>
    refine ⟨(calm_advance c.reg spec.id .pending CrewStatus.noConfusion).allocated
      h.allocated, fun r' k hk hlive => ?_⟩
    simp only [setPhase, advance_cancel]
    obtain ⟨rfl, rfl⟩ | ⟨-, hk⟩ := update_eq_some.1 hk
    · have hl := h.flagged r' _ hr nofun
      exact hl
    · exact h.flagged r' k hk hlive
  | ran hr =>
    refine ⟨h.allocated, fun r' k hk hlive => ?_⟩
    obtain ⟨rfl, rfl⟩ | ⟨-, hk⟩ := update_eq_some.1 hk
    · have hl := h.flagged r' _ hr nofun
      exact hl
    · exact h.flagged r' k hk hlive
  | finished hr =>
    refine ⟨finish_allocated h.allocated, fun r' k hk hlive => ?_⟩
    simp only [setPhase, finish_cancel]
    obtain ⟨rfl, rfl⟩ | ⟨hne, hk⟩ := update_eq_some.1 hk
    · exact absurd rfl hlive
    · exact h.flagged_erase hr (nofun) hk hlive hne
  | cancelled =>
    refine ⟨(calm_cancelCrew _ _).allocated h.allocated, fun r k hk hlive => ?_⟩
    simp only [cancelCrew_cancel]
    exact h.flagged r k hk hlive
  | forgotten =>
    refine ⟨(shrunk_forgetCrew _ _).allocated h.allocated, fun r k hk hlive => ?_⟩
    simp only [(shrunk_forgetCrew _ _).cancel]
    exact h.flagged r k hk hlive
  | read => exact h

theorem sound_of_exec {acts : List Act} (hone : orchestrator.Along OneRunAtATime {} acts)
    (hrun : orchestrator.exec {} acts = some c) : Sound c :=
  orchestrator.exec_rule (I := fun _ c => Sound c) Sound.start
    (fun _ _ _ _ hI hP hstep => hI.keep hP (step_trans hstep)) hone hrun

/-! ### A cancelled run -/

/-- A run with this phase will not store `COMPLETED`, if its flag is raised. -/
def Phase.Doomed (spec : CrewSpec) : Phase → Prop
  | .registered | .running | .ended => True
  | .returned result timedOut =>
    ∀ s, finalResult spec result timedOut = .ok s → s.status ≠ .completed

/-- After a cancel of `id`: it is not reported `COMPLETED`, and no run of it will make it so. -/
structure Doomed (id : String) (c : Config) : Prop where
  reported : ¬ c.reg.Completed id
  runs : ∀ r k, c.runs r = some k → k.spec.id = id → k.phase ≠ .ended →
    c.reg.flags r = true ∧ k.phase.Doomed k.spec

/-- A runner that finds its flag raised when it computes the status does not complete. -/
theorem finalResult_doomed {env : Env} (hf : seesFlag env spec true = true) :
    (Phase.returned (crewRun env spec).1 (crewRun env spec).2.timedOut).Doomed spec := by
  intro s hs
  cases hrun : runTasks env spec {} with
  | mk result s₀ =>
    cases result with
    | error => simp [crewRun, hrun, finalResult] at hs
    | ok =>
      simp only [seesFlag, crewRun_ok hrun, Run.poll] at hf hs
      cases hto : s₀.timedOut with
      | true =>
        simp only [finalResult, hto, if_true, Except.ok.injEq] at hs
        simp [← hs]
      | false =>
        have hc : env.cancelled s₀.polls = true := by simpa [hto] using hf
        simp only [finalResult, hto, Except.ok.injEq] at hs
        simp [← hs, finalState, finalStatus, hto, hc]

/-- A doomed crew stays doomed until a new run. -/
theorem Doomed.keep (hsound : Sound c) (h : Doomed id c)
    (hnew : ∀ r spec, a = .register r spec → spec.id ≠ id) (hstep : Trans c a c') :
    Doomed id c' := by
  -- The flag of a run that was there stays raised, and its phase stays doomed.
  have hkept : ∀ {reg' : Registry} {r k}, (∀ r, c.reg.flags r = true → reg'.flags r = true) →
      c.runs r = some k → k.spec.id = id → k.phase ≠ .ended →
      reg'.flags r = true ∧ k.phase.Doomed k.spec := by
    intro reg' r k hflags hk hid hlive
    obtain ⟨hf, hd⟩ := h.runs r k hk hid hlive
    exact ⟨hflags r hf, hd⟩
  cases hstep with
  | @registered r spec hnone =>
    refine ⟨fun hc => h.reported (register_completed hsound.allocated hc),
      fun r' k hk hid hlive => ?_⟩
    obtain ⟨rfl, rfl⟩ | ⟨hr, hk⟩ := update_eq_some.1 hk
    · exact absurd hid (hnew r' spec rfl)
    · obtain ⟨hf, hd⟩ := h.runs r' k hk hid hlive
      exact ⟨(c.reg.register_flags spec.id hr).trans hf, hd⟩
  | abandoned =>
    refine ⟨h.reported, fun r' k hk hid hlive => ?_⟩
    obtain ⟨rfl, rfl⟩ | ⟨-, hk⟩ := update_eq_some.1 hk
    · exact absurd rfl hlive
    · exact h.runs r' k hk hid hlive
  | @advanced r spec hr =>
    have hcalm := @calm_advance c.reg spec.id .pending .running nofun
    refine ⟨fun hc => h.reported (hcalm.completed id hc), fun r' k hk hid hlive => ?_⟩
    obtain ⟨rfl, rfl⟩ | ⟨-, hk⟩ := update_eq_some.1 hk
    · exact ⟨hcalm.flags r' (h.runs r' _ hr hid nofun).1, trivial⟩
    · exact hkept hcalm.flags hk hid hlive
  | ran hr hf =>
    refine ⟨h.reported, fun r' k hk hid hlive => ?_⟩
    obtain ⟨rfl, rfl⟩ | ⟨-, hk⟩ := update_eq_some.1 hk
    · have hraised := (h.runs r' _ hr hid nofun).1
      rw [hraised] at hf
      exact ⟨hraised, finalResult_doomed hf⟩
    · exact h.runs r' k hk hid hlive
  | @finished r spec result timedOut hr =>
    refine ⟨fun hc => ?_, fun r' k hk hid hlive => ?_⟩
    · obtain hold | ⟨rfl, s, hs, hdone⟩ := finish_completed hsound.allocated hc
      · exact h.reported hold
      · exact (h.runs r _ hr rfl nofun).2 s hs hdone
    · obtain ⟨rfl, rfl⟩ | ⟨-, hk⟩ := update_eq_some.1 hk
      · exact absurd rfl hlive
      · exact hkept (c.reg.finish_flags spec _) hk hid hlive
  | @cancelled crew =>
    have hcalm := c.reg.calm_cancelCrew crew
    exact ⟨fun hc => h.reported (hcalm.completed id hc),
      fun r k hk hid hlive => hkept hcalm.flags hk hid hlive⟩
  | @forgotten crew =>
    have hcalm := (c.reg.shrunk_forgetCrew crew).calm
    exact ⟨fun hc => h.reported (hcalm.completed id hc),
      fun r k hk hid hlive => hkept hcalm.flags hk hid hlive⟩
  | read => exact h

/-- The condition on a step: a cancel does not come between the moment a runner of the crew has
computed its result and the section that stores it. -/
def CancelsInTime (c : Config) (a : Act) : Prop :=
  ∀ crew, a = .cancel crew → ∀ r k, c.runs r = some k → k.spec.id = crew →
    ∀ result timedOut, k.phase ≠ .returned result timedOut

/-- A cancel in time that succeeds dooms the run. -/
theorem Sound.doomed (h : Sound c) (hok : (c.reg.cancelCrew id).1 = .ok ())
    (htime : CancelsInTime c (.cancel id)) :
    Doomed id { c with reg := (c.reg.cancelCrew id).2 } := by
  obtain ⟨hnot, hflag⟩ := cancelCrew_ok hok
  refine ⟨hnot, fun r k hk hid hlive => ⟨hflag r ?_, ?_⟩⟩
  · rw [← hid]
    exact h.flagged r k hk hlive
  · cases hphase : k.phase with
    | returned result timedOut => exact absurd hphase (htime id rfl r k hk hid result timedOut)
    | registered | running | ended => trivial

/-- **A cancelled crew is not reported completed.** In every history in which a crew has one run at
a time and no cancel comes between a runner's result and its storing: once a cancel of `id` has
succeeded, the registry never reports `COMPLETED` for it, until the crew is registered again. -/
theorem cancelled_never_completed {pre post : List Act} {c₁ : Config}
    (hpre : orchestrator.exec {} pre = some c₁) (hok : (c₁.reg.cancelCrew id).1 = .ok ())
    (hrun : orchestrator.exec {} (pre ++ .cancel id :: post) = some c)
    (hone : orchestrator.Along OneRunAtATime {} (pre ++ .cancel id :: post))
    (htime : orchestrator.Along CancelsInTime {} (pre ++ .cancel id :: post))
    (hnew : ∀ a ∈ post, ∀ r spec, a = .register r spec → spec.id ≠ id) :
    ¬ c.reg.Completed id := by
  have hsound : Sound c₁ := sound_of_exec (.append_left _ hone) hpre
  have hone₁ := hone.append_right _ hpre
  have htime₁ := htime.append_right _ hpre
  have hcancel : orchestrator.step c₁ (.cancel id) = some _ := rfl
  rw [orchestrator.exec_append hpre, orchestrator.exec_cons hcancel] at hrun
  refine (orchestrator.exec_rule (I := fun _ c => Sound c ∧ Doomed id c)
    ⟨hsound.keep hone₁.1 .cancelled, hsound.doomed hok htime₁.1⟩ ?_
    (.and _ (hone₁.2 _ hcancel) (orchestrator.along_of_mem hnew)) hrun).2.reported
  rintro _ s a s' ⟨hs, hd⟩ ⟨hP, hQ⟩ hstep
  have htrans := step_trans hstep
  exact ⟨hs.keep hP htrans, hd.keep hs hQ htrans⟩

/-! ### A crew with one task -/

def solo : CrewSpec where
  id := "crew"
  name := "solo"
  agents := []
  tasks := [{ id := "a", description := "" }]
  process := .sequential

/-- A world in which tasks complete, with the flag as given at every look. -/
def soloEnv (cancelled : Bool) : Env where
  cancelled _ := cancelled
  deadline _ := false
  outcome t := { taskId := t.id, output := "", status := .completed }
  timesOut _ := false
  outcome_taskId _ := rfl
  timesOut_failed := nofun

/-- **A cancel can be overwritten.** It succeeds after the runner has found the flag down, and the
registry then reports the crew `COMPLETED`. -/
theorem cancelled_then_completed :
    ∃ c₁ c, orchestrator.exec {} [.register 0 solo, .advance 0, .run 0 (soloEnv false)] = some c₁ ∧
      (c₁.reg.cancelCrew "crew").1 = .ok () ∧
      orchestrator.exec c₁ [.cancel "crew", .finish 0, .read "crew"] = some c ∧
      (c.reg.crew "crew").map CrewState.status = some .completed :=
  ⟨_, _, rfl, rfl, rfl, rfl⟩

/-- The same crew, cancelled before its runner looks. -/
theorem cancelled_never_completed_solo :
    ∃ c, orchestrator.exec {} ([.register 0 solo, .advance 0] ++ .cancel "crew" ::
        [.run 0 (soloEnv true), .finish 0]) = some c ∧
      (c.reg.crew "crew").isSome ∧ ¬ c.reg.Completed "crew" := by
  have hone : orchestrator.Along OneRunAtATime {} (([.register 0 solo, .advance 0] : List Act) ++
      (.cancel "crew" :: [.run 0 (soloEnv true), .finish 0] : List Act)) :=
    .cons _ rfl nofun <| .cons _ rfl nofun <| .cons _ rfl nofun <|
      .cons _ rfl nofun <| .cons _ rfl nofun trivial
  have htime : orchestrator.Along CancelsInTime {} (([.register 0 solo, .advance 0] : List Act) ++
      (.cancel "crew" :: [.run 0 (soloEnv true), .finish 0] : List Act)) := by
    refine .cons _ rfl nofun <| .cons _ rfl nofun <| .cons _ rfl ?_ <| .cons _ rfl nofun <|
      .cons _ rfl nofun trivial
    rintro crew ⟨⟩ (_ | r) k hk
    · cases hk
      exact fun _ _ _ => nofun
    · cases hk
  exact ⟨_, rfl, rfl, cancelled_never_completed rfl rfl rfl hone htime (by simp)⟩

end Agnosai.Orchestrator
