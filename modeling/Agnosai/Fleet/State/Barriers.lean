import Agnosai.Fleet.State.Definitions

/-!
# Fleet — what a barrier's answer says

The arrival set of a barrier holds the nodes that have arrived since it was last cleared
(`mem_arrived_iff`). A node that is removed stays in it, unless the removal completes the barrier,
and `agnosai_crew_state_manager_reach_barrier` compares sizes: a stale arrival stands in for a
participant that has not come. Where a node that has arrived is removed only once all the others
have too, each removal clears the barriers the node is in (`Completes.settles`), and no arrival is
stale.
-/

namespace Agnosai.Fleet

open KeyMap NodeSet List Option

variable {r : String} {s : DistCrewState}

namespace Manager

variable {m : Manager} {runId nodeId name : String} {now : Int}

variable (m)

/-- The nodes taking part in a run. -/
def nodes (runId : String) : List String :=
  ((m.states.lookup runId).map (·.participating.ids)).getD []

variable {m}

theorem nodes_of_lookup (h : m.states.lookup runId = some s) :
    m.nodes runId = s.participating.ids := by
  rw [nodes, h]
  rfl

theorem runBarriers_lookup : (m.runBarriers runId).lookup name = m.barrier runId name := by
  unfold runBarriers barrier
  cases m.barriers.lookup runId with
  | none => exact lookup_empty name
  | some => rfl

theorem arrived_eq : m.arrived runId name = (m.barrier runId name).getD .empty := by
  rw [arrived, runBarriers_lookup]

theorem arrived_of_none (h : m.barrier runId name = none) : (m.arrived runId name).ids = [] := by
  rw [arrived_eq, h]
  rfl

/-! ### What a call does to a barrier -/

/-- The call is an arrival of the node, and it counts. -/
def Arrives (runId name nodeId : String) (m : Manager) (a : Action) : Prop :=
  (∃ now, a = .reachBarrier runId nodeId name now) ∧ nodeId ∈ m.nodes runId

/-- The barrier has an arrival set: it has not been cleared. -/
def Pending (runId name : String) (m : Manager) : Prop := m.barrier runId name ≠ none

/-- The barrier of one run after the barriers of another, or of itself, were replaced. -/
theorem barrier_set (states : KeyMap String DistCrewState) (rb : KeyMap String NodeSet) :
    barrier ⟨states, m.barriers.set r rb⟩ runId name
      = if runId = r then rb.lookup name else m.barrier runId name := by
  unfold barrier
  rw [lookup_set]
  split <;> rfl

/-- The barriers of a run are replaced by ones of which some are cleared. -/
theorem barrier_set_cleared {states : KeyMap String DistCrewState} {rb rb' : KeyMap String NodeSet}
    (hrb : m.barriers.lookup r = some rb)
    (h : rb'.lookup name = none ∨ rb'.lookup name = rb.lookup name) :
    barrier ⟨states, m.barriers.set r rb'⟩ runId name = none ∨
      barrier ⟨states, m.barriers.set r rb'⟩ runId name = m.barrier runId name := by
  rw [barrier_set]
  split
  next hr => rwa [hr, barrier, hrb]
  next => exact .inr rfl

theorem barriers_onRun (f : DistCrewState → DistCrewState) :
    (m.onRun runId f).1.barriers = m.barriers := by
  unfold onRun
  split <;> rfl

variable {currentTask : Option String}

theorem barriers_reportProgress {tasksCompleted : Int} :
    (m.reportProgress runId nodeId tasksCompleted currentTask now).1.barriers = m.barriers := by
  unfold reportProgress
  split
  · rfl
  · split <;> rfl

theorem barrier_evictIfNeeded :
    m.evictIfNeeded.barrier runId name = none ∨
      m.evictIfNeeded.barrier runId name = m.barrier runId name := by
  unfold evictIfNeeded
  split
  · exact .inr rfl
  · unfold barrier
    rw [lookup_eraseAll]
    split
    · exact .inl rfl
    · exact .inr rfl

/-- A node that takes part arrives. -/
theorem reachBarrier_of_mem (hs : m.states.lookup runId = some s) (hp : nodeId ∈ m.nodes runId) :
    m.reachBarrier runId nodeId name now =
      let here := (m.arrived runId name).add nodeId
      let barriers := m.barriers.set runId ((m.runBarriers runId).set name here)
      if here.ids.length ≥ s.participating.ids.length then
        (⟨m.states.set runId (setPhase .running now s), barriers⟩, allReached)
      else
        (⟨m.states.set runId (setPhase (.waitingBarrier name) now s), barriers⟩,
          (s.participating.ids.length : Int) - here.ids.length) := by
  have hhas : s.participating.has nodeId = true := by
    rw [has_iff, ← nodes_of_lookup hs]
    exact hp
  simp [reachBarrier, hs, hhas]

theorem lookup_of_mem_nodes (hp : nodeId ∈ m.nodes runId) :
    ∃ s, m.states.lookup runId = some s := by
  rw [← isSome_iff_exists, ← ne_none_iff_isSome]
  intro hs
  rw [nodes, hs] at hp
  cases hp

/-- An arrival that counts is added to its barrier and changes no other. -/
theorem barrier_reachBarrier (hp : nodeId ∈ m.nodes runId) (n : String) :
    (m.reachBarrier runId nodeId name now).1.barrier r n
      = if r = runId ∧ n = name then some ((m.arrived runId name).add nodeId)
        else m.barrier r n := by
  obtain ⟨s, hs⟩ := lookup_of_mem_nodes hp
  have hset : ∀ states, barrier ⟨states, m.barriers.set runId
      ((m.runBarriers runId).set name ((m.arrived runId name).add nodeId))⟩ r n
        = if r = runId ∧ n = name then some ((m.arrived runId name).add nodeId)
          else m.barrier r n := by
    intro states
    rw [barrier_set, lookup_set]
    by_cases hr : r = runId
    · subst hr
      by_cases hn : n = name
      · simp [hn]
      · simp [hn, runBarriers_lookup]
    · simp [hr]
  rw [reachBarrier_of_mem hs hp]
  dsimp only
  split <;> exact hset _

/-- An arrival that does not count changes nothing. -/
theorem reachBarrier_of_notMem (hp : nodeId ∉ m.nodes runId) :
    (m.reachBarrier runId nodeId name now).1 = m := by
  unfold reachBarrier
  cases hs : m.states.lookup runId with
  | none => rfl
  | some s =>
    have hhas : s.participating.has nodeId = false := by
      rw [nodes_of_lookup hs, ← has_iff, Bool.not_eq_true] at hp
      exact hp
    simp [hhas]

theorem barrier_forceBarrier (n : String) :
    (m.forceBarrier r n now).1.barrier runId name = none ∨
      (m.forceBarrier r n now).1.barrier runId name = m.barrier runId name := by
  unfold forceBarrier
  cases m.states.lookup r with
  | none => exact .inr rfl
  | some =>
    cases hrb : m.barriers.lookup r with
    | none => exact .inr rfl
    | some =>
      refine barrier_set_cleared hrb ?_
      rw [lookup_erase]
      split
      · exact .inl rfl
      · exact .inr rfl

/-- A removal clears the barriers it completes and changes no other. -/
theorem barrier_removeNode (n : String) :
    (m.removeNode r n now).1.barrier runId name = none ∨
      (m.removeNode r n now).1.barrier runId name = m.barrier runId name := by
  unfold removeNode
  cases m.states.lookup r with
  | none => exact .inr rfl
  | some =>
    cases hrb : m.barriers.lookup r with
    | none => exact .inr rfl
    | some =>
      refine barrier_set_cleared hrb ?_
      rw [lookup_eraseAll]
      split
      · exact .inl rfl
      · exact .inr rfl

/-- What a call does to a barrier: it clears it, leaves it, or adds the one node whose arrival there
it is. -/
inductive BarrierEffect (m : Manager) (a : Action) (runId name : String) : Prop where
  | cleared (h : (m.call a).barrier runId name = none)
  | kept (h : (m.call a).barrier runId name = m.barrier runId name)
      (hno : ∀ nodeId, ¬ Arrives runId name nodeId m a)
  | added (nodeId : String)
      (h : (m.call a).barrier runId name = some ((m.arrived runId name).add nodeId))
      (harrives : ∀ nodeId', Arrives runId name nodeId' m a ↔ nodeId' = nodeId)

variable {a : Action}

theorem BarrierEffect.of_ne (hne : ∀ nodeId now, a ≠ .reachBarrier runId nodeId name now)
    (h : (m.call a).barrier runId name = none ∨
      (m.call a).barrier runId name = m.barrier runId name) : BarrierEffect m a runId name := by
  rcases h with h | h
  · exact .cleared h
  · refine .kept h ?_
    rintro nodeId ⟨⟨now, ha⟩, -⟩
    exact hne nodeId now ha

theorem BarrierEffect.of_barriers_eq (hne : ∀ nodeId now, a ≠ .reachBarrier runId nodeId name now)
    (h : (m.call a).barriers = m.barriers) : BarrierEffect m a runId name :=
  .of_ne hne (.inr (by rw [barrier, h, barrier]))

/-- What one call does to one barrier. -/
theorem barrier_call : BarrierEffect m a runId name := by
  cases a with
  | createRun => exact .of_ne nofun barrier_evictIfNeeded
  | reportProgress => exact .of_barriers_eq nofun barriers_reportProgress
  | reachBarrier r n b now =>
    by_cases hp : n ∈ m.nodes r
    · by_cases hrb : runId = r ∧ name = b
      · obtain ⟨rfl, rfl⟩ := hrb
        refine .added n ((barrier_reachBarrier hp _).trans (if_pos ⟨rfl, rfl⟩)) fun nodeId' => ?_
        constructor
        · rintro ⟨⟨now', ha⟩, -⟩
          cases ha
          rfl
        · rintro rfl
          exact ⟨⟨now, rfl⟩, hp⟩
      · refine .of_ne ?_ (.inr ((barrier_reachBarrier hp _).trans (if_neg hrb)))
        intro nodeId now' ha
        cases ha
        exact hrb ⟨rfl, rfl⟩
    · have hsame : m.call (.reachBarrier r n b now) = m := reachBarrier_of_notMem hp
      refine .kept (by rw [hsame]) ?_
      rintro nodeId ⟨⟨now', ha⟩, hmem⟩
      cases ha
      exact hp hmem
  | forceBarrier r n now => exact .of_ne nofun (barrier_forceBarrier n)
  | removeNode r n now => exact .of_ne nofun (barrier_removeNode n)
  | checkpoint | complete | fail | cancel => exact .of_barriers_eq nofun (barriers_onRun _)

/-- The arrival set moves as "has arrived since the barrier was cleared" does. -/
theorem mem_arrived_call :
    nodeId ∈ ((m.call a).arrived runId name).ids ↔
      Pending runId name (m.call a) ∧
        (nodeId ∈ (m.arrived runId name).ids ∨ Arrives runId name nodeId m a) := by
  cases barrier_call with
  | cleared hnone =>
    rw [arrived_of_none hnone]
    exact iff_of_false not_mem_nil fun h => h.1 hnone
  | kept hkept hno =>
    have harrived : (m.call a).arrived runId name = m.arrived runId name := by
      rw [arrived_eq, hkept, arrived_eq]
    rw [harrived, Pending, hkept]
    constructor
    · intro hmem
      refine ⟨fun hnone => ?_, .inl hmem⟩
      rw [arrived_of_none hnone] at hmem
      exact not_mem_nil hmem
    · rintro ⟨-, hmem | ha⟩
      · exact hmem
      · exact absurd ha (hno nodeId)
  | added n hadded harrives =>
    have harrived : (m.call a).arrived runId name = (m.arrived runId name).add n := by
      rw [arrived_eq, hadded]
      rfl
    rw [harrived, mem_add, harrives, Pending, hadded]
    exact ⟨fun h => ⟨some_ne_none _, h⟩, And.right⟩

/-- In every history the arrival set is the nodes that have arrived since the barrier was last
cleared. -/
theorem mem_arrived_iff {as : List Action} (hrun : manager.exec .new as = some m) :
    nodeId ∈ (m.arrived runId name).ids ↔
      manager.Since (Arrives runId name nodeId) (Pending runId name) .new as := by
  refine manager.since_rule (T := fun m => nodeId ∈ (m.arrived runId name).ids)
    not_mem_nil ?_ hrun
  intro as m a m' hrun hstep
  obtain rfl := some.inj hstep
  exact mem_arrived_call

/-! ### The answer -/

theorem nodes_set (states : KeyMap String DistCrewState)
    (barriers : KeyMap String (KeyMap String NodeSet)) :
    nodes ⟨states.set r s, barriers⟩ runId
      = if runId = r then s.participating.ids else nodes ⟨states, barriers⟩ runId := by
  unfold nodes
  rw [lookup_set]
  split <;> rfl

/-- Replacing a run by one with the same participants. -/
theorem nodes_set_same (hs : m.states.lookup r = some s)
    (s' : DistCrewState) (hp : s'.participating = s.participating)
    (barriers : KeyMap String (KeyMap String NodeSet)) (runId : String) :
    nodes ⟨m.states.set r s', barriers⟩ runId = m.nodes runId := by
  rw [nodes_set]
  split
  next hr =>
    rw [hr, nodes_of_lookup hs, hp]
  · rfl

theorem nodes_reachBarrier (n b : String) :
    (m.reachBarrier r n b now).1.nodes runId = m.nodes runId := by
  by_cases hp : n ∈ m.nodes r
  · obtain ⟨s, hs⟩ := lookup_of_mem_nodes hp
    rw [reachBarrier_of_mem hs hp]
    dsimp only
    split
    · exact nodes_set_same hs (setPhase .running now s) rfl _ _
    · exact nodes_set_same hs (setPhase (.waitingBarrier b) now s) rfl _ _
  · rw [reachBarrier_of_notMem hp]

theorem arrived_reachBarrier (hp : nodeId ∈ m.nodes runId) :
    (m.reachBarrier runId nodeId name now).1.arrived runId name
      = (m.arrived runId name).add nodeId := by
  rw [arrived_eq, barrier_reachBarrier hp, if_pos ⟨rfl, rfl⟩]
  rfl

/-- The answer `allReached` compares the size of the arrival set with the number of participants. -/
theorem reachBarrier_eq_allReached :
    (m.reachBarrier runId nodeId name now).2 = allReached ↔ nodeId ∈ m.nodes runId ∧
      (m.nodes runId).length ≤ ((m.arrived runId name).add nodeId).ids.length := by
  by_cases hp : nodeId ∈ m.nodes runId
  · obtain ⟨s, hs⟩ := lookup_of_mem_nodes hp
    rw [reachBarrier_of_mem hs hp, and_iff_right hp, nodes_of_lookup hs]
    dsimp only
    split
    next hall => exact iff_of_true rfl hall
    next hwait =>
      refine iff_of_false ?_ hwait
      -- a count of nodes to come is positive
      unfold allReached
      omega
  · refine iff_of_false ?_ fun h => hp h.1
    unfold reachBarrier
    split
    · exact (by decide : unknownRun ≠ allReached)
    next hs =>
      rw [nodes_of_lookup hs, ← has_iff, Bool.not_eq_true] at hp
      rw [if_pos hp]
      exact (by decide : unknownNode ≠ allReached)

/-! ### Three nodes, one of them removed -/

def sampleDrawn : Uuid := ⟨replicate 16 0, length_replicate⟩

def sampleRun : String := sampleDrawn.v4.toStr

/-- Of three nodes the first arrives and is then removed. -/
def sampleCalls : List Action :=
  [.createRun sampleDrawn ["a", "b", "c"] 1 0, .reachBarrier sampleRun "a" "sync" 1,
    .removeNode sampleRun "a" 2]

def sampleManager : Manager := sampleCalls.foldl Manager.call .new

/-- The second node is told that all have arrived, and the third has not. -/
theorem allReached_without_third :
    manager.exec .new sampleCalls = some sampleManager ∧
      (sampleManager.reachBarrier sampleRun "b" "sync" 3).2 = allReached ∧
      "c" ∈ (sampleManager.reachBarrier sampleRun "b" "sync" 3).1.nodes sampleRun ∧
      ¬ manager.Since (Arrives sampleRun "sync" "c") (Pending sampleRun "sync") .new
        (sampleCalls ++ [.reachBarrier sampleRun "b" "sync" 3]) := by
  refine ⟨rfl, by decide +kernel, by decide +kernel, ?_⟩
  rw [← mem_arrived_iff rfl]
  decide +kernel

/-! ### Histories that leave no stale arrival -/

theorem nodes_onRun {f : DistCrewState → DistCrewState}
    (hf : ∀ s, (f s).participating = s.participating) (runId : String) :
    (m.onRun r f).1.nodes runId = m.nodes runId := by
  unfold onRun
  split
  · rfl
  next s hs =>
    exact nodes_set_same hs (f s) (hf s) _ _

variable {n : String}

theorem nodes_reportProgress {tasksCompleted : Int} :
    (m.reportProgress r n tasksCompleted currentTask now).1.nodes runId = m.nodes runId := by
  unfold reportProgress
  split
  · rfl
  next hs =>
    split
    · rfl
    · refine nodes_set_same hs _ ?_ _ _
      rfl

theorem nodes_forceBarrier : (m.forceBarrier r n now).1.nodes runId = m.nodes runId := by
  unfold forceBarrier
  split
  · rfl
  next s hs =>
    exact nodes_set_same hs (setPhase .running now s) rfl _ _

/-- A removal takes the node out of its run and no other. -/
theorem nodes_removeNode : (m.removeNode r n now).1.nodes runId
      = if runId = r then (m.nodes runId).erase n else m.nodes runId := by
  unfold removeNode
  split
  next hs =>
    split
    next hr =>
      rw [hr, nodes, hs]
      rfl
    · rfl
  next s hs =>
    have hset : ∀ s' : DistCrewState, s'.participating = s.participating.remove n →
        ∀ barriers, nodes ⟨m.states.set r s', barriers⟩ runId
          = if runId = r then (m.nodes runId).erase n else m.nodes runId := by
      intro s' hs' barriers
      rw [nodes_set]
      split
      next hr =>
        rw [hr, nodes_of_lookup hs, hs']
        rfl
      · rfl
    split <;> exact hset _ rfl _

/-- An evicted run loses its barriers with its state. -/
theorem nodes_evictIfNeeded :
    m.evictIfNeeded.barrier runId name = none ∨
      m.evictIfNeeded.nodes runId = m.nodes runId := by
  unfold evictIfNeeded
  split
  · exact .inr rfl
  · unfold barrier nodes
    rw [lookup_eraseAll, lookup_eraseAll]
    split
    · exact .inl rfl
    · exact .inr rfl

/-- A removal clears every barrier the node has arrived at, and a new run's id is new. -/
def Settles (m : Manager) : Action → Prop
  | .removeNode runId nodeId now => ∀ name, nodeId ∈ (m.arrived runId name).ids →
      (m.removeNode runId nodeId now).1.barrier runId name = none
  | .createRun drawn _ _ _ => ∀ name, m.barrier drawn.v4.toStr name = none
  | _ => True

/-- Every arrival is of a node that takes part. -/
def Settled (m : Manager) : Prop :=
  ∀ runId name nodeId, nodeId ∈ (m.arrived runId name).ids → nodeId ∈ m.nodes runId

/-- A settling call keeps every barrier settled. -/
theorem Settled.call (hm : Settled m) (ha : Settles m a) : Settled (m.call a) := by
  intro runId name p hp
  obtain ⟨hpending, hold⟩ := mem_arrived_call.1 hp
  have hnode : p ∈ m.nodes runId := hold.elim (hm runId name p) And.right
  have same : (m.call a).nodes runId = m.nodes runId → p ∈ (m.call a).nodes runId := fun h =>
    h.symm ▸ hnode
  cases a with
  | createRun drawn nodes tasksPerNode now =>
    by_cases hr : runId = drawn.v4.toStr
    · -- there was no arrival under an id that is new
      have hnone : (m.arrived runId name).ids = [] := arrived_of_none (hr ▸ ha name)
      rcases hold with hold | ⟨⟨now', ha'⟩, -⟩
      · rw [hnone] at hold
        cases hold
      · cases ha'
    · have hsame : (m.call (.createRun drawn nodes tasksPerNode now)).nodes runId
          = m.evictIfNeeded.nodes runId := (nodes_set _ _).trans (if_neg hr)
      rw [hsame, nodes_evictIfNeeded.resolve_left hpending]
      exact hnode
  | removeNode =>
    refine nodes_removeNode.symm ▸ ?_
    split
    next hr =>
      refine (mem_erase_of_ne ?_).2 hnode
      -- the removed node's arrivals are gone
      rintro rfl
      subst hr
      rcases hold with hold | ⟨⟨now', ha'⟩, -⟩
      · exact hpending (ha name hold)
      · cases ha'
    · exact hnode
  | reportProgress => exact same nodes_reportProgress
  | reachBarrier r n b now => exact same (nodes_reachBarrier n b)
  | forceBarrier => exact same nodes_forceBarrier
  | checkpoint | complete | fail | cancel =>
    refine same (nodes_onRun ?_ runId)
    exact fun _ => rfl

/-- Without stale arrivals, an arrival set as large as the participants holds all of them. -/
theorem Settled.mem_arrived (hm : Settled m)
    (hreached : (m.reachBarrier runId nodeId name now).2 = allReached) :
    ∀ p ∈ (m.reachBarrier runId nodeId name now).1.nodes runId,
      p ∈ ((m.reachBarrier runId nodeId name now).1.arrived runId name).ids := by
  obtain ⟨hnode, hle⟩ := reachBarrier_eq_allReached.1 hreached
  rw [nodes_reachBarrier, arrived_reachBarrier hnode]
  have hsub : ((m.arrived runId name).add nodeId).ids ⊆ m.nodes runId := by
    intro p hp
    rcases mem_add.1 hp with hp | rfl
    · exact hm runId name p hp
    · exact hnode
  have hperm := (subperm_of_subset (NodeSet.nodup _) hsub).perm_of_length_le hle
  exact fun p hp => hperm.mem_iff.2 hp

/-- **Where removals settle, the answer can be trusted.** In a history whose every removal clears
the barriers the node has arrived at, `allReached` says that every participant is in the arrival
set. -/
theorem allReached_of_settled {as : List Action} (hall : manager.Along Settles .new as)
    (hrun : manager.exec .new as = some m)
    (hreached : (m.reachBarrier runId nodeId name now).2 = allReached) :
    ∀ p ∈ (m.reachBarrier runId nodeId name now).1.nodes runId,
      p ∈ ((m.reachBarrier runId nodeId name now).1.arrived runId name).ids := by
  have hsettled : Settled m := manager.exec_rule (I := fun _ m => Settled m)
    (fun _ _ _ hp => absurd hp not_mem_nil)
    (fun _ _ _ _ hm ha hstep => some.inj hstep ▸ hm.call ha) hall hrun
  exact hsettled.mem_arrived hreached

/-! ### Removals that complete -/

/-- A node that has arrived at a barrier is removed only when every other participant has arrived
there too, and a new run's id is new. -/
def Completes (m : Manager) : Action → Prop
  | .removeNode runId nodeId _ => ∀ b ∈ (m.runBarriers runId).entries, nodeId ∈ b.2.ids →
      ∀ p ∈ m.nodes runId, p ≠ nodeId → p ∈ b.2.ids
  | .createRun drawn _ _ _ => (m.runBarriers drawn.v4.toStr).entries = []
  | _ => True

instance (m : Manager) : (a : Action) → Decidable (Completes m a)
  | .removeNode .. => inferInstanceAs (Decidable (∀ b ∈ _, _ → ∀ p ∈ _, _ → _))
  | .createRun .. => inferInstanceAs (Decidable (_ = []))
  | .reportProgress .. | .reachBarrier .. | .forceBarrier .. | .checkpoint .. | .complete ..
  | .fail .. | .cancel .. => .isTrue trivial

/-- A removal clears the barriers that all the others have arrived at. -/
theorem barrier_removeNode_eq_none {set : NodeSet} (hs : m.states.lookup runId = some s)
    (hb : m.barrier runId name = some set)
    (hothers : ∀ p ∈ m.nodes runId, p ≠ nodeId → p ∈ set.ids) :
    (m.removeNode runId nodeId now).1.barrier runId name = none := by
  obtain ⟨rb, hrb, hset⟩ := bind_eq_some_iff.1 hb
  have hsubset : (s.participating.remove nodeId).isSubset set = true := by
    refine all_eq_true.2 fun p hp => has_iff.2 ?_
    obtain ⟨hne, hp⟩ := (s.participating.nodup.mem_erase_iff).1 hp
    exact hothers p (nodes_of_lookup hs ▸ hp) hne
  have hdone : name ∈ satisfied (s.participating.remove nodeId) rb :=
    mem_map.2 ⟨(name, set), mem_filter.2 ⟨lookup_eq_some.1 hset, hsubset⟩, rfl⟩
  simp only [removeNode, hs, hrb]
  rw [barrier_set, if_pos rfl, lookup_eraseAll, if_pos hdone]

/-- A call that completes settles. -/
theorem Completes.settles (hm : Settled m) (ha : Completes m a) : Settles m a := by
  cases a with
  | removeNode runId nodeId now =>
    intro name hp
    obtain ⟨s, hs⟩ := lookup_of_mem_nodes (hm runId name nodeId hp)
    cases hb : m.barrier runId name with
    | none =>
      rw [arrived_of_none hb] at hp
      cases hp
    | some set =>
      rw [arrived_eq, hb] at hp
      refine barrier_removeNode_eq_none hs hb (ha (name, set) (lookup_eq_some.1 ?_) hp)
      rw [runBarriers_lookup, hb]
  | createRun drawn =>
    intro name
    rw [← runBarriers_lookup, lookup_eq_none, KeyMap.keys,
      show (m.runBarriers _).entries = [] from ha]
    exact not_mem_nil
  | reportProgress | reachBarrier | forceBarrier | checkpoint | complete | fail | cancel => trivial

theorem Settled.of_completes {as : List Action} (hall : manager.Along Completes .new as)
    (hrun : manager.exec .new as = some m) : Settled m :=
  manager.exec_rule (I := fun _ m => Settled m) (fun _ _ _ hp => absurd hp not_mem_nil)
    (fun _ _ _ _ hm ha hstep => some.inj hstep ▸ hm.call (ha.settles hm)) hall hrun

/-- **Where removals complete, the answer can be trusted.** In a history where no node that has
arrived is removed before all the others have arrived, `allReached` says that every participant has
itself arrived since the barrier was last cleared. -/
theorem allReached_of_completes {as : List Action} (hall : manager.Along Completes .new as)
    (hrun : manager.exec .new as = some m) (runId nodeId name : String) (now : Int)
    (hreached : (m.reachBarrier runId nodeId name now).2 = allReached) :
    ∀ p ∈ (m.reachBarrier runId nodeId name now).1.nodes runId,
      manager.Since (Arrives runId name p) (Pending runId name) .new
        (as ++ [.reachBarrier runId nodeId name now]) := by
  intro p hp
  rw [← mem_arrived_iff (manager.exec_snoc hrun rfl)]
  exact (Settled.of_completes hall hrun).mem_arrived hreached p hp

/-- All of three nodes arrive, the first is removed, which clears the barrier, and the second
arrives again. -/
def clearedCalls : List Action :=
  [.createRun sampleDrawn ["a", "b", "c"] 1 0, .reachBarrier sampleRun "a" "sync" 1,
    .reachBarrier sampleRun "b" "sync" 2, .reachBarrier sampleRun "c" "sync" 3,
    .removeNode sampleRun "a" 4, .reachBarrier sampleRun "b" "sync" 5]

def clearedManager : Manager := clearedCalls.foldl Manager.call .new

theorem clearedCalls_completes : manager.Along Completes .new clearedCalls := by
  decide +kernel

/-- The third node is told that all have arrived, after the barrier was cleared. -/
theorem reachBarrier_cleared :
    (clearedManager.reachBarrier sampleRun "c" "sync" 6).2 = allReached := by
  decide +kernel

theorem allReached_of_completes_cleared :
    manager.exec .new clearedCalls = some clearedManager ∧
      (clearedManager.reachBarrier sampleRun "c" "sync" 6).2 = allReached ∧
      ∀ p ∈ (clearedManager.reachBarrier sampleRun "c" "sync" 6).1.nodes sampleRun,
        manager.Since (Arrives sampleRun "sync" p) (Pending sampleRun "sync") .new
          (clearedCalls ++ [.reachBarrier sampleRun "c" "sync" 6]) :=
  ⟨rfl, reachBarrier_cleared,
    allReached_of_completes clearedCalls_completes rfl _ _ _ _ reachBarrier_cleared⟩

theorem allReached_of_settled_cleared :
    (clearedManager.reachBarrier sampleRun "c" "sync" 6).2 = allReached ∧
      ∀ p ∈ (clearedManager.reachBarrier sampleRun "c" "sync" 6).1.nodes sampleRun,
        p ∈ ((clearedManager.reachBarrier sampleRun "c" "sync" 6).1.arrived sampleRun
          "sync").ids := by
  have hall : manager.Along Settles .new clearedCalls := by
    refine manager.along_of_exec fun pre a post m happ hrun => ?_
    have hcompletes := happ ▸ clearedCalls_completes
    exact (hcompletes.append_right manager hrun).1.settles
      (.of_completes (hcompletes.append_left manager) hrun)
  exact ⟨reachBarrier_cleared, allReached_of_settled hall rfl reachBarrier_cleared⟩

end Manager

end Agnosai.Fleet
