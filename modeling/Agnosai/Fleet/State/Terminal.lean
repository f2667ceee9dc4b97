import Agnosai.Fleet.State.Barriers

/-!
# Fleet — once a run is over

A run that is completed, failed or cancelled is over. Forcing a barrier starts it again, and says
so. An arrival sets the phase whatever it was, so a node that takes part in a run brings it back
by arriving at one of its barriers (`reachBarrier_over_iff`); no other call does.
-/

namespace Agnosai.Fleet

namespace CrewPhase

variable {phase : CrewPhase}

theorem advance_of_terminal (h : phase.isTerminal = true) : phase.advance = phase := by
  cases phase with
  | initializing => cases h
  | running | waitingBarrier | checkpointing | completed | failed | cancelled => rfl

theorem release_of_terminal (h : phase.isTerminal = true) (name : String) :
    phase.release name = phase := by
  refine if_neg ?_
  rintro rfl
  cases h

theorem foldl_release_of_terminal (h : phase.isTerminal = true) (names : List String) :
    names.foldl release phase = phase := by
  induction names with
  | nil => rfl
  | cons name names ih => rw [List.foldl_cons, release_of_terminal h, ih]

end CrewPhase

variable {r : String}

namespace Manager

variable {m m' : Manager} {runId nodeId name : String} {now : Int} {a : Action}

/-- The phase of a run, if there is such a run. -/
def phase (m : Manager) (runId : String) : Option CrewPhase := (m.states.lookup runId).map (·.phase)

/-- The run is in no phase that is not terminal: it is over, or gone. -/
def Over (runId : String) (m : Manager) : Prop :=
  ∀ phase, m.phase runId = some phase → phase.isTerminal = true

instance (runId : String) (m : Manager) : Decidable (Over runId m) :=
  decidable_of_iff ((m.phase runId).all CrewPhase.isTerminal = true) (Option.all_eq_true _ _)

/-- The call is not an arrival, at a run that is over, of a node that takes part in it. -/
def Calm (runId : String) (m : Manager) : Action → Prop
  | .reachBarrier r nodeId _ _ => r = runId → Over runId m → nodeId ∉ m.nodes runId
  | _ => True

instance (runId : String) (m : Manager) : DecidablePred (Calm runId m)
  | .reachBarrier r nodeId _ _ =>
    inferInstanceAs (Decidable (r = runId → Over runId m → nodeId ∉ m.nodes runId))
  | .createRun .. | .reportProgress .. | .forceBarrier .. | .removeNode .. | .checkpoint ..
  | .complete ..
  | .fail .. | .cancel .. => .isTrue trivial

/-- The call forces a barrier of the run, or makes a new run under its id. -/
def Restarts (runId : String) : Action → Prop
  | .forceBarrier r _ _ => r = runId
  | .createRun drawn _ _ _ => drawn.v4.toStr = runId
  | _ => False

/-! ### What a call does to a phase -/

theorem phase_set (states : KeyMap String DistCrewState) (s : DistCrewState)
    (barriers : KeyMap String (KeyMap String NodeSet)) :
    phase ⟨states.set r s, barriers⟩ runId =
      if runId = r then some s.phase else (states.lookup runId).map (·.phase) := by
  rw [phase, KeyMap.lookup_set]
  split
  · rfl
  · rfl

namespace Over

variable (h : Over runId m)
include h

/-- A run stays over if what is put in its place is in the phase that it was in. -/
theorem set {s s' : DistCrewState} (hs : m.states.lookup r = some s)
    (hkeep : s.phase.isTerminal = true → s'.phase.isTerminal = true)
    (barriers : KeyMap String (KeyMap String NodeSet)) :
    Over runId ⟨m.states.set r s', barriers⟩ := by
  intro phase hphase
  rw [phase_set] at hphase
  split at hphase
  next hr =>
    cases hphase
    subst hr
    refine hkeep (h s.phase ?_)
    rw [Manager.phase, hs]
    rfl
  · exact h phase hphase

/-- What is put under another id does not matter. -/
theorem set_of_ne {s : DistCrewState} (hne : r ≠ runId)
    (barriers : KeyMap String (KeyMap String NodeSet)) :
    Over runId ⟨m.states.set r s, barriers⟩ := by
  intro phase hphase
  rw [phase_set, if_neg hne.symm] at hphase
  exact h phase hphase

theorem onRun {f : DistCrewState → DistCrewState}
    (hkeep : ∀ s, s.phase.isTerminal = true → (f s).phase.isTerminal = true) :
    Over runId (m.onRun r f).1 := by
  unfold Manager.onRun
  split
  · exact h
  next s hs =>
    exact h.set hs (hkeep s) _

theorem reportProgress {n : String} {tasksCompleted : Int} {currentTask : Option String} :
    Over runId (m.reportProgress r n tasksCompleted currentTask now).1 := by
  unfold Manager.reportProgress
  split
  · exact h
  next hs =>
    split
    · exact h
    · refine h.set hs (fun hterm => ?_) _
      rw [CrewPhase.advance_of_terminal hterm]
      exact hterm

theorem removeNode {n : String} : Over runId (m.removeNode r n now).1 := by
  unfold Manager.removeNode
  split
  · exact h
  next hs =>
    split
    · refine h.set hs (fun hterm => ?_) _
      exact hterm
    · refine h.set hs (fun hterm => ?_) _
      rw [CrewPhase.foldl_release_of_terminal hterm]
      exact hterm

/-- An eviction may take the run away, and changes no phase. -/
theorem evictIfNeeded : Over runId m.evictIfNeeded := by
  unfold Manager.evictIfNeeded
  split
  · exact h
  · intro phase hphase
    rw [Manager.phase, KeyMap.lookup_eraseAll] at hphase
    split at hphase
    · cases hphase
    · exact h phase hphase

end Over

/-- The arrival of a node that takes part leaves the run in a phase that is not terminal. -/
theorem not_over_reachBarrier (hp : nodeId ∈ m.nodes runId) :
    ¬ Over runId (m.reachBarrier runId nodeId name now).1 := by
  obtain ⟨s, hs⟩ := lookup_of_mem_nodes hp
  rw [reachBarrier_of_mem hs hp]
  intro hover
  dsimp only at hover
  split at hover
  · cases hover .running (by rw [phase_set, if_pos rfl]; rfl)
  · cases hover (.waitingBarrier name) (by rw [phase_set, if_pos rfl]; rfl)

/-- **Which arrivals leave a run over**: those of nodes that do not take part in it. -/
theorem reachBarrier_over_iff (h : Over runId m) :
    Over runId (m.reachBarrier runId nodeId name now).1 ↔ nodeId ∉ m.nodes runId := by
  constructor
  · intro hover hp
    exact not_over_reachBarrier hp hover
  · intro hp
    rw [reachBarrier_of_notMem hp]
    exact h

/-- The arrival at another run changes no phase of this one. -/
theorem Over.reachBarrier_of_ne (h : Over runId m) (hne : r ≠ runId) :
    Over runId (m.reachBarrier r nodeId name now).1 := by
  by_cases hp : nodeId ∈ m.nodes r
  · obtain ⟨s, hs⟩ := lookup_of_mem_nodes hp
    rw [reachBarrier_of_mem hs hp]
    dsimp only
    split
    · exact h.set_of_ne hne _
    · exact h.set_of_ne hne _
  · rw [reachBarrier_of_notMem hp]
    exact h

theorem Over.forceBarrier_of_ne (h : Over runId m) (hne : r ≠ runId) :
    Over runId (m.forceBarrier r name now).1 := by
  unfold Manager.forceBarrier
  split
  · exact h
  · exact h.set_of_ne hne _

/-- **One call** leaves a run over, unless it restarts it or is an arrival of one of its nodes. -/
theorem Over.call (h : Over runId m) (hcalm : Calm runId m a) (hrestart : ¬ Restarts runId a) :
    Over runId (m.call a) := by
  cases a with
  | createRun =>
    exact h.evictIfNeeded.set_of_ne hrestart _
  | reportProgress => exact h.reportProgress
  | reachBarrier r =>
    by_cases hr : r = runId
    · subst hr
      exact (reachBarrier_over_iff h).2 (hcalm rfl h)
    · exact h.reachBarrier_of_ne hr
  | forceBarrier => exact h.forceBarrier_of_ne hrestart
  | removeNode r n now => exact h.removeNode
  | checkpoint =>
    refine h.onRun fun s hterm => ?_
    rw [CrewPhase.advance_of_terminal hterm]
    exact hterm
  | complete | fail | cancel => exact h.onRun fun _ _ => rfl

/-- **A run that is over stays over.** In every history of calls, from where a run is completed,
failed or cancelled: as long as no node that takes part in it arrives at a barrier of it while it is
over, no barrier of it is forced and no new run gets its id, no call moves it to a phase that is not
terminal. -/
theorem over_kept (runId : String) (as : List Action) (m m' : Manager) (phase : CrewPhase)
    (hphase : m.phase runId = some phase) (hterm : phase.isTerminal = true)
    (h : manager.exec m as = some m')
    (hcalm : manager.Along (Calm runId) m as) (hrestart : ∀ a ∈ as, ¬ Restarts runId a) :
    ∀ phase', m'.phase runId = some phase' → phase'.isTerminal = true := by
  have hover : Over runId m := fun phase' hphase' => by
    rw [hphase] at hphase'
    exact Option.some.inj hphase' ▸ hterm
  refine manager.exec_rule (I := fun _ m => Over runId m) hover ?_
    (hcalm.and manager (manager.along_of_mem hrestart)) h
  rintro - m a m' hm ⟨ha, hno⟩ hstep
  exact Option.some.inj hstep ▸ hm.call ha hno

/-- A run of one node that is completed. -/
def completedCalls : List Action := [.createRun sampleDrawn ["a"] 1 0, .complete sampleRun 1]

/-- Its node arrives at a barrier, and the run is running again. -/
theorem over_then_running : ∃ m, manager.exec .new completedCalls = some m ∧
    m.phase sampleRun = some .completed ∧
    (m.call (.reachBarrier sampleRun "a" "sync" 2)).phase sampleRun = some .running :=
  ⟨_, rfl, by decide +kernel, by decide +kernel⟩

/-- A report, a checkpoint, the removal of the node and its arrival after that. -/
def lateCalls : List Action :=
  [.reportProgress sampleRun "a" 1 none 2, .checkpoint sampleRun "c" .empty 3,
    .removeNode sampleRun "a" 4, .reachBarrier sampleRun "a" "sync" 5]

theorem over_kept_completed : ∃ m₁ m₂, manager.exec .new completedCalls = some m₁ ∧
    manager.exec m₁ lateCalls = some m₂ ∧
    ∀ phase', m₂.phase sampleRun = some phase' → phase'.isTerminal = true := by
  refine ⟨_, _, rfl, rfl, ?_⟩
  exact over_kept sampleRun lateCalls _ _ .completed (by decide +kernel) rfl rfl (by decide +kernel)
    (by simp [lateCalls, Restarts])

end Manager

end Agnosai.Fleet
