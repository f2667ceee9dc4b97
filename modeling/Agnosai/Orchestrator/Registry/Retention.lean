import Agnosai.Orchestrator.Registry.Evictable

/-!
# Orchestrator — Registry — Retention

How long the registry keeps a crew. A crew that a runner holds stays (`Popped.lookup`), the others
go in the order in which they ended, down to the low-water mark of crews without a flag. A crew
that never ran, as its tasks cannot be ordered or its thread could not be started, is counted there
and has no slot. `Numbered`: a state that is not in the queue was never put there.
-/

namespace Agnosai.Orchestrator

open CrewRunner Registry Function KeyMap List

variable {home : Nat → Option Nat} {c c' : Life} {act : LifeAct}

namespace Registry

variable {used : Nat → Bool} {o o' : Registry} {addr held : Nat} {id : String} {gone : List Nat}

/-- The crews without a flag. -/
def unheld (o : Registry) : List String :=
  o.crews.keys.filter fun id => (o.cancel.lookup id).isNone

theorem Tied.length_unheld (h : Tied used o) : o.unheld.length = o.crews.size - o.cancel.size := by
  have hsize : o.crews.size = o.unheld.length + o.cancel.size :=
    size_eq_add fun _ hflag => h.registered hflag
  omega

/-- A pass keeps the crews with a flag. -/
theorem Popped.lookup (h : Popped held o gone o') (htied : Tied used o)
    (hflag : (o.cancel.lookup id).isSome) : o'.crews.lookup id = o.crews.lookup id := by
  induction h with
  | start => rfl
  | @stale gone o' addr rest hpass hqueue _ hcur ih
  | @live gone o' addr rest hpass hqueue _ hcur ih =>
    rw [← ih]
    obtain heq | ⟨-, hcur, rfl⟩ := o'.crews_pop addr id
    · exact heq
    · have hnone := (hpass.tied htied).unheld addr (hqueue ▸ mem_cons_self) hcur
      rw [hpass.shrunk.cancel] at hnone
      rw [hnone] at hflag
      cases hflag

/-- What a pass evicts is a live slot of a crew without a flag. -/
theorem Popped.unheld (h : Popped held o gone o') (htied : Tied used o) :
    ∀ addr ∈ gone, o.cancel.lookup (o.states addr).crewId = none := by
  induction h with
  | start => exact nofun
  | stale _ _ _ _ ih => exact ih
  | @live gone o' addr rest hpass hqueue _ hcur ih =>
    intro addr' hmem
    obtain hold | hnew := mem_append.1 hmem
    · exact ih addr' hold
    · obtain rfl := mem_singleton.1 hnew
      have hnone := (hpass.tied htied).unheld addr' (hqueue ▸ mem_cons_self) hcur
      rwa [hpass.shrunk.cancel, hpass.shrunk.states] at hnone

theorem Tied.lookup_evict (h : Tied used o) (hflag : (o.cancel.lookup id).isSome) :
    o.evict.crews.lookup id = o.crews.lookup id := by
  obtain ⟨-, heq, -⟩ | ⟨o', hpass, heq, -⟩ := evict_cases
  · rw [heq]
  · rw [heq, crews_compactEnded]
    exact hpass.lookup h hflag

theorem Tied.unheld_evicted (h : Tied used o) :
    ∀ addr ∈ o.evicted, o.cancel.lookup (o.states addr).crewId = none := by
  obtain ⟨-, -, hgone⟩ | ⟨o', hpass, -, -⟩ := evict_cases
  · rw [hgone]
    exact nofun
  · exact hpass.unheld h

/-- A pass goes down to the mark, or to the end of the queue. -/
theorem Tied.evict_stops (h : Tied used o) (hfull : maxRetainedCrews ≤ o.unheld.length) :
    o.evict.unheld.length ≤ crewsLowWater ∨ o.evict.queue = [] := by
  rw [h.length_unheld] at hfull
  rw [h.evict.length_unheld, o.shrunk_evict.cancel]
  obtain ⟨hfew, -⟩ | ⟨o', -, heq, hstop⟩ := evict_cases
  · exact absurd hfew (not_lt.2 hfull)
  · rw [heq, crews_compactEnded]
    obtain hempty | hmark := hstop
    · have hsub := o'.sublist_compactEnded
      rw [hempty] at hsub
      exact .inr (sublist_nil.1 hsub)
    · exact .inl hmark

end Registry

variable {addr addr' : Nat} {id : String} {spec : CrewSpec} {o : Registry}

/-- A step keeps the crews with a flag. -/
theorem Lived.keep_flagged (h : Lived home c) (ht : LifeTrans home c act c')
    (hflag : (c.reg.cancel.lookup id).isSome) : (c'.reg.crews.lookup id).isSome := by
  have hin := h.tied.registered hflag
  cases ht with
  | created | begun | left | ran | refused | abandoned | gaveBack => exact hin
  | registered =>
    simp only [Life.setStage, Life.use, registerAt_eq, setCrew, lookup_set]
    split
    · rfl
    · rw [h.tied.lookup_evict hflag]
      exact hin
  | advanced => rwa [Life.setStage, crews_advance]
  | @finished r addr k crew result timedOut =>
    show ((c.reg.finishAt addr crew.spec (finalResult crew.spec result timedOut)).crews.lookup
        id).isSome
    cases finalResult crew.spec result timedOut with
    | error e =>
      rw [finishAt, finish, crews_finishError _ e]
      exact hin
    | ok =>
      rw [finishAt, finish, finishState, crews_noteEnded]
      simp only [setCrew, lookup_set]
      split
      · rfl
      · exact hin
  | cancelled =>
    rw [crews_cancelCrew]
    exact hin
  | @forgotten id' =>
    show ((c.reg.forgetCrew id').2.crews.lookup id).isSome
    unfold forgetCrew
    split
    · exact hin
    · split
      · exact hin
      next hnone =>
        have hne : id ≠ id' := by
          rintro rfl
          exact hnone hflag
        rw [crews_compactEnded, lookup_erase_of_ne _ hne]
        exact hin
  | @released k crew _ _ hnone =>
    have hne : id ≠ crew.spec.id := by
      rintro rfl
      rw [hnone] at hflag
      cases hflag
    show ((c.reg.releaseCrew crew.spec.id _).crews.lookup id).isSome
    rw [crews_releaseCrew, lookup_erase_of_ne _ hne]
    exact hin

/-- **Retention.** In every history: a crew with a flag is in the registry, no step takes it out and
no pass of eviction meets it; what has been evicted, followed by what is queued, is in the order of
the endings; and a pass that finds the registry full leaves no more crews without a flag than the
low-water mark, or an empty queue. -/
theorem registry_retention {acts : List LifeAct} (h : (lifecycle home).exec {} acts = some c) :
    (∀ id, (c.reg.cancel.lookup id).isSome → (c.reg.crews.lookup id).isSome) ∧
    (∀ act c', (lifecycle home).step c act = some c' →
      ∀ id, (c.reg.cancel.lookup id).isSome → (c'.reg.crews.lookup id).isSome) ∧
    (∀ addr ∈ c.reg.evicted, c.reg.cancel.lookup (c.reg.states addr).crewId = none) ∧
    (c.evicted ++ c.reg.queue.map c.born).Sublist c.ended ∧
    (maxRetainedCrews ≤ c.reg.unheld.length →
      c.reg.evict.unheld.length ≤ crewsLowWater ∨ c.reg.evict.queue = []) := by
  have hlived := lived h
  refine ⟨fun _ hflag => hlived.tied.registered hflag, ?_, hlived.tied.unheld_evicted, hlived.order,
    hlived.tied.evict_stops⟩
  exact fun act c' hstep id hflag => hlived.keep_flagged (lifeStep_trans hstep) hflag

/-- A crew that is registered, and then forgotten in vain. -/
theorem registry_retention_solo :
    ∃ c, (lifecycle fun _ => none).exec {} [.create 0 solo none, .begin 0 0, .register 0 0] =
      some c ∧
      ∀ c', (lifecycle fun _ => none).step c (.forget "crew") = some c' →
        (c'.reg.crews.lookup "crew").isSome := by
  obtain ⟨c, hrun, hflag⟩ : ∃ c, (lifecycle fun _ => none).exec {} [.create 0 solo none, .begin 0 0,
      .register 0 0] = some c ∧ (c.reg.cancel.lookup "crew").isSome := ⟨_, rfl, rfl⟩
  exact ⟨c, hrun, fun c' hstep => (registry_retention hrun).2.1 _ c' hstep "crew" hflag⟩

/-! ### What is not queued -/

/-- The numbers of states tell them apart, and an entry that was queued has its slot. -/
structure Numbered (c : Life) : Prop where
  below : ∀ addr, c.used addr = true → c.born addr < c.made
  inj : ∀ addr addr', c.used addr = true → c.used addr' = true → c.born addr = c.born addr' →
    addr = addr'
  ended : ∀ n ∈ c.ended, n < c.made
  queued : ∀ id addr, c.reg.crews.lookup id = some addr → c.born addr ∈ c.ended → addr ∈ c.reg.queue

theorem numbered_start : Numbered {} where
  below := nofun
  inj := nofun
  ended := nofun
  queued := nofun

section Numbers

variable {addr : Nat}

theorem Numbered.below_use (h : Numbered c) (addr' : Nat) (hused : (c.use addr).used addr' = true) :
    (c.use addr).born addr' < (c.use addr).made := by
  by_cases heq : addr' = addr
  · rw [heq]
    simp [Life.use]
  · simp only [Life.use, update_of_ne heq] at hused ⊢
    exact Nat.lt_succ_of_lt (h.below addr' hused)

theorem Numbered.inj_use (h : Numbered c) (addr₁ addr₂ : Nat)
    (hused₁ : (c.use addr).used addr₁ = true) (hused₂ : (c.use addr).used addr₂ = true)
    (hborn : (c.use addr).born addr₁ = (c.use addr).born addr₂) : addr₁ = addr₂ := by
  by_cases h₁ : addr₁ = addr
  · by_cases h₂ : addr₂ = addr
    · rw [h₁, h₂]
    · simp only [Life.use, h₁, update_self, update_of_ne h₂] at hborn hused₂
      exact absurd hborn (h.below addr₂ hused₂).ne'
  · by_cases h₂ : addr₂ = addr
    · simp only [Life.use, h₂, update_self, update_of_ne h₁] at hborn hused₁
      exact absurd hborn (h.below addr₁ hused₁).ne
    · simp only [Life.use, update_of_ne h₁, update_of_ne h₂] at hborn hused₁ hused₂
      exact h.inj addr₁ addr₂ hused₁ hused₂ hborn

end Numbers

theorem Registry.entry_finishEnded {e : CrewError}
    (hmem : addr' ∈ o.finishEnded addr spec (.error e)) : o.crews.lookup spec.id = some addr' :=
  Option.mem_toList.1 (mem_filter.1 hmem).1

theorem Registry.entry_cancelEnded
    (hmem : addr ∈ o.cancelEnded id) : o.crews.lookup id = some addr := by
  unfold cancelEnded at hmem
  split at hmem
  · cases hmem
  · exact Option.mem_toList.1 (mem_filter.1 hmem).1

/-- The states that are there keep their numbers. -/
theorem Lived.born_use (h : Lived home c) (hfree : c.used addr = false)
    (hl : c.reg.crews.lookup id = some addr') : (c.use addr).born addr' = c.born addr' :=
  update_of_ne (ne_of_used hfree (h.tied.inUse id addr' hl)) ..

theorem Life.used_use (hused : c.used addr' = true) : (c.use addr).used addr' = true := by
  by_cases heq : addr' = addr
  · rw [heq]
    exact update_self ..
  · exact (update_of_ne heq ..).trans hused

variable {result : Except CrewError CrewState}

theorem Lived.finish_queued (h : Lived home c) (hn : Numbered c) {addr₀ : Nat}
    (hfree : c.used addr₀ = false)
    (hfinal : ∀ s, result = .ok s → Registry.Final spec.id s)
    (hl : (c.reg.finishAt addr₀ spec result).crews.lookup id = some addr)
    (hended : (c.use addr₀).born addr ∈
      c.ended ++ (c.reg.finishEnded addr₀ spec result).map (c.use addr₀).born) :
    addr ∈ (c.reg.finishAt addr₀ spec result).queue := by
  cases result with
  | error e =>
    obtain ⟨hcarry, hqueued⟩ := (h.tied.withFresh addr₀).carries_finishError addr₀ spec e
    have hold : c.reg.crews.lookup id = some addr := by
      rwa [finishAt, finish, crews_finishError _ e] at hl
    obtain hbefore | hnow := mem_append.1 hended
    · exact hcarry id addr hold hl (hn.queued id addr hold (h.born_use hfree hold ▸ hbefore))
    · obtain ⟨addr', hmem, hborn⟩ := mem_map.1 hnow
      have hused := h.tied.inUse _ _ (entry_finishEnded hmem)
      obtain rfl := hn.inj_use addr' addr (Life.used_use hused)
        (Life.used_use (h.tied.inUse id addr hold)) hborn
      exact hqueued addr' hmem
  | ok s =>
    obtain ⟨rfl, hmem⟩ | ⟨hold, -, hcarry⟩ := h.tied.entry_finishAt hfree (hfinal s rfl).crewId hl
    · exact hmem
    · have hborn := h.born_use hfree hold
      rw [hborn] at hended
      obtain hbefore | hnow := mem_append.1 hended
      · exact hcarry (hn.queued id addr hold hbefore)
      · -- The new number is not that of a state that is there.
        have hmade : c.born addr = c.made :=
          (mem_singleton.1 hnow).trans (update_self ..)
        exact absurd hmade (hn.below addr (h.tied.inUse id addr hold)).ne

/-- An ended crew is still queued after a step. -/
theorem Lived.keep_queued (h : Lived home c) (hn : Numbered c) (ht : LifeTrans home c act c')
    (id : String) (addr : Nat) (hl : c'.reg.crews.lookup id = some addr)
    (hended : c'.born addr ∈ c'.ended) : addr ∈ c'.reg.queue := by
  cases ht with
  | created | begun | left | ran | refused | abandoned | gaveBack =>
    exact hn.queued id addr hl hended
  | registered _ _ hfree =>
    obtain ⟨-, rfl⟩ | ⟨hold, -, hcarry⟩ := h.tied.entry_registerAt hl
    · have hmade := hn.ended _ hended
      simp [Life.setStage, Life.use] at hmade
    · exact hcarry (hn.queued id addr hold (h.born_use hfree.1 hold ▸ hended))
  | advanced =>
    simp only [Life.setStage, crews_advance, queue_advance] at hl ⊢
    exact hn.queued id addr hl hended
  | finished hrun hcrew hfree =>
    exact h.finish_queued hn hfree.1 (h.counts.final _ _ _ _ _ hrun hcrew) hl hended
  | @cancelled id₀ =>
    obtain ⟨hcarry, hqueued⟩ := h.tied.carries_cancelCrew id₀
    have hold : c.reg.crews.lookup id = some addr := by rwa [crews_cancelCrew] at hl
    obtain hbefore | hnow := mem_append.1 hended
    · exact hcarry id addr hold hl (hn.queued id addr hold hbefore)
    · obtain ⟨addr', hmem, hborn⟩ := mem_map.1 hnow
      have hused := h.tied.inUse _ _ (entry_cancelEnded hmem)
      obtain rfl := hn.inj addr' addr hused (h.tied.inUse id addr hold) hborn
      exact hqueued addr' hmem
  | @forgotten id₀ =>
    have hold := (c.reg.shrunk_forgetCrew id₀).crews id addr hl
    exact h.tied.carries_forgetCrew id₀ id addr hold hl (hn.queued id addr hold hended)
  | released hcrew hlive hflag =>
    have hold := (c.reg.shrunk_releaseCrew _ _).crews id addr hl
    exact h.carries_release hcrew hlive hflag id addr hold hl (hn.queued id addr hold hended)

/-- What a run queues is there. -/
theorem Lived.used_finishEnded (h : Lived home c)
    (hmem : addr' ∈ c.reg.finishEnded addr spec result) :
    (c.use addr).used addr' = true := by
  cases result with
  | error => exact Life.used_use (h.tied.inUse _ _ (entry_finishEnded hmem))
  | ok =>
    obtain rfl := mem_singleton.1 hmem
    exact update_self ..

/-- A step keeps the birth numbers. -/
theorem Lived.keep_numbered (h : Lived home c) (hn : Numbered c) (ht : LifeTrans home c act c') :
    Numbered c' := by
  have hqueued := h.keep_queued hn ht
  cases ht with
  | created | begun | left | ran | refused | abandoned | advanced | forgotten | released =>
    exact ⟨hn.below, hn.inj, hn.ended, hqueued⟩
  | registered =>
    exact ⟨hn.below_use, hn.inj_use, fun n hmem => Nat.lt_succ_of_lt (hn.ended n hmem), hqueued⟩
  | finished =>
    refine ⟨hn.below_use, hn.inj_use, fun n hmem => ?_, hqueued⟩
    obtain hbefore | hnow := mem_append.1 hmem
    · exact Nat.lt_succ_of_lt (hn.ended n hbefore)
    · obtain ⟨addr', hmem', rfl⟩ := mem_map.1 hnow
      exact hn.below_use addr' (h.used_finishEnded hmem')
  | cancelled =>
    refine ⟨hn.below, hn.inj, fun n hmem => ?_, hqueued⟩
    obtain hbefore | hnow := mem_append.1 hmem
    · exact hn.ended n hbefore
    · obtain ⟨addr', hmem', rfl⟩ := mem_map.1 hnow
      exact hn.below addr' (h.tied.inUse _ _ (entry_cancelEnded hmem'))
  | gaveBack =>
    have hused : ∀ {addr : Nat} {b : Bool}, (c.used addr && b) = true → c.used addr = true :=
      fun h => (Bool.and_eq_true_iff.1 h).1
    exact ⟨fun addr h => hn.below addr (hused h),
      fun addr addr' h h' => hn.inj addr addr' (hused h) (hused h'), hn.ended, hqueued⟩

theorem numbered {acts : List LifeAct} (h : (lifecycle home).exec {} acts = some c) :
    Numbered c := by
  have hinv : Lived home c ∧ Numbered c :=
    (lifecycle home).exec_invariant (I := fun c => Lived home c ∧ Numbered c)
      ⟨lived_start, numbered_start⟩
      (fun _ _ _ hI hstep => ⟨hI.1.keep hstep, hI.1.keep_numbered hI.2 (lifeStep_trans hstep)⟩) h
  exact hinv.2

/-! ### When a crew is evicted -/

/-- Where a pass stood when it evicted `addr`: there are as many other crews without a flag as the
mark says, and their slots, if they have one, come after. -/
theorem Registry.Tied.others {used : Nat → Bool} (h : o.Tied used) {before after : List Nat}
    (hgone : o.evicted = before ++ addr :: after) :
    ∃ rest, (before ++ addr :: rest).Sublist o.queue ∧
      ∃ others : List String, others.Nodup ∧ crewsLowWater ≤ others.length ∧
        ∀ id ∈ others, id ≠ (o.states addr).crewId ∧ o.cancel.lookup id = none ∧
          ∃ addr', o.crews.lookup id = some addr' ∧ (addr' ∈ o.queue → addr' ∈ rest) := by
  obtain ⟨-, -, hnone⟩ | ⟨o', hpass, -, -⟩ := evict_cases
  · rw [hnone] at hgone
    exact absurd hgone.symm (append_ne_nil_of_right_ne_nil _ (cons_ne_nil _ _))
  obtain ⟨o₁, rest, hpre, hqueue, hmore, hcur⟩ := hpass.split hgone
  have hsub := hpre.sublist
  rw [hqueue] at hsub
  have htied := hpre.tied h
  have hnodup : o₁.unheld.Nodup := o₁.crews.nodup.filter _
  refine ⟨rest, hsub, o₁.unheld.erase (o.states addr).crewId, hnodup.erase _, ?_, ?_⟩
  · have hlength := htied.length_unheld
    rw [hpre.shrunk.cancel] at hlength
    rw [length_erase]
    split <;> omega
  · intro id hmem
    obtain ⟨hne, hmem⟩ := hnodup.mem_erase_iff.1 hmem
    obtain ⟨hkey, hflag⟩ := mem_filter.1 hmem
    obtain ⟨addr', hl⟩ := Option.isSome_iff_exists.1 (mem_keys.1 hkey)
    rw [hpre.shrunk.cancel, Option.isNone_iff_eq_none] at hflag
    refine ⟨hne, hflag, addr', hpre.shrunk.crews id addr' hl, fun hslot => ?_⟩
    have hlater := hpre.mem_queue hslot (htied.isCurrent hl)
    rw [hqueue, mem_cons] at hlater
    refine hlater.resolve_left ?_
    rintro rfl
    have hentry := htied.entry id addr' hl
    rw [hpre.shrunk.states] at hentry
    exact hne hentry.symm

/-- **When a crew is evicted.** In every history, a state that a pass evicts had ended, and there
are at least 900 other crews in the registry that no runner holds, each of which has ended after it
or was never queued as ended. The latter never ran: if no crew is let go after a cancel, they have
no terminal status. -/
theorem evicted_after {acts : List LifeAct} (h : (lifecycle home).exec {} acts = some c)
    {before after : List Nat} {addr : Nat} (hgone : c.reg.evicted = before ++ addr :: after) :
    ∃ earlier later, c.ended = earlier ++ c.born addr :: later ∧
      ∃ others : List String, others.Nodup ∧ crewsLowWater ≤ others.length ∧
        ∀ id ∈ others, id ≠ (c.reg.states addr).crewId ∧ c.reg.cancel.lookup id = none ∧
          ∃ addr', c.reg.crews.lookup id = some addr' ∧
            (c.born addr' ∈ later ∨ c.born addr' ∉ c.ended ∧
              ((lifecycle home).Along Undisturbed {} acts →
                isFinished (c.reg.states addr') = false)) := by
  have hlived := lived h
  obtain ⟨rest, hsub, others, hnodup, hlength, hothers⟩ := hlived.tied.others hgone
  have hqueue : (c.reg.queue.map c.born).Sublist c.ended :=
    (sublist_append_right c.evicted _).trans hlived.order
  obtain ⟨earlier, later, heq, hlater⟩ : ∃ earlier later, c.ended = earlier ++
      c.born addr :: later ∧
      (rest.map c.born).Sublist later := by
    have hlog := (hsub.map c.born).trans hqueue
    rw [map_append, map_cons] at hlog
    obtain ⟨front, back, heq, hmem, hback⟩ :=
      cons_sublist_iff.1 ((sublist_append_right _ _).trans hlog)
    obtain ⟨earlier, between, rfl⟩ := append_of_mem hmem
    refine ⟨earlier, between ++ back, ?_, hback.trans (sublist_append_right between back)⟩
    rw [heq, append_assoc, cons_append]
  refine ⟨earlier, later, heq, others, hnodup, hlength, fun id hmem => ?_⟩
  obtain ⟨hne, hflag, addr', hl, hslot⟩ := hothers id hmem
  refine ⟨hne, hflag, addr', hl, ?_⟩
  by_cases hended : c.born addr' ∈ c.ended
  · have hrest := hslot ((numbered h).queued id addr' hl hended)
    exact .inl (hlater.subset (mem_map_of_mem hrest))
  · refine .inr ⟨hended, fun halong => ?_⟩
    rw [Bool.eq_false_iff]
    intro hfin
    have hmem := evictable h halong id addr' hl hfin hflag
    exact hended (hqueue.subset (mem_map_of_mem hmem))

/-! ### A registry of crews that never ran -/

/-- The id of the `k`th of them. -/
def idleId (k : Nat) : String := String.ofList (replicate k 'a')

theorem idleId_injective : Function.Injective idleId := by
  intro k k' h
  have hlist := congrArg String.toList h
  rw [idleId, idleId, String.toList_ofList, String.toList_ofList] at hlist
  have hlength := congrArg length hlist
  rwa [length_replicate, length_replicate] at hlength

theorem idleId_ne_crew (k : Nat) : idleId k ≠ "crew" := by
  intro h
  have hmem : 'c' ∈ (idleId k).toList := by
    rw [h]
    decide
  rw [idleId, String.toList_ofList] at hmem
  exact absurd (eq_of_mem_replicate hmem) (by decide)

/-- A crew whose thread could not be started. -/
def idleActs (k : Nat) : List LifeAct :=
  [.create k { solo with id := idleId k } none, .begin k k, .register k (k + 1),
    .abandon k, .leave k]

/-- Crew 0 lives in arena 0, the others are on the heap. -/
def firstHome (addr : Nat) : Option Nat := if addr < 2 then some 0 else none

/-- Crew 0 has ended, and `n` crews never ran. -/
structure Stocked (n : Nat) (c : Life) : Prop where
  size : c.reg.crews.size = n + 1
  first : c.reg.crews.lookup "crew" = some 1
  idle : ∀ k, n < k → c.reg.crews.lookup (idleId k) = none
  flags : c.reg.cancel = empty
  slots : c.reg.ended = [1] ∧ c.reg.endedHead = 0
  state : (c.reg.states 1).crewId = "crew"
  crew : c.crews 0 = some { spec := solo, arena := some 0 }
  crews : ∀ k, n < k → c.crews k = none
  runs : ∀ r, n < r → c.runs r = none
  free : ∀ addr, n + 1 < addr → c.used addr = false
  ended : c.ended = [c.born 1]
  evicted : c.evicted = []

def firstActs : List LifeAct :=
  [.create 0 solo (some 0), .begin 0 0, .register 0 0, .advance 0, .run 0 (soloEnv false),
    .finish 0 1, .leave 0]

theorem stocked_zero : ∃ c, (lifecycle firstHome).exec {} firstActs = some c ∧ Stocked 0 c := by
  refine ⟨_, rfl, rfl, rfl, fun k _ => ?_, rfl, ⟨rfl, rfl⟩, rfl, rfl, ?_, ?_, ?_, rfl, rfl⟩
  · have hcrews : ((empty.set "crew" 0).set "crew" 1).lookup (idleId k) = none := by
      rw [lookup_set, if_neg (idleId_ne_crew k), lookup_set, if_neg (idleId_ne_crew k)]
      rfl
    exact hcrews
  · rintro (_ | k) hk
    · cases hk
    · rfl
  · rintro (_ | r) hr
    · cases hr
    · rfl
  · rintro (_ | _ | addr) haddr
    · omega
    · omega
    · rfl

/-- A crew whose thread could not be started leaves an entry and nothing else. -/
theorem exec_idle {k : Nat} (hcrew : c.crews k = none) (hrun : c.runs k = none)
    (hfree : c.used (k + 1) = false) (hhome : firstHome (k + 1) = none) :
    (lifecycle firstHome).exec c (idleActs k) = some
      { c with
        reg := (c.reg.registerAt (k + 1) k (idleId k)).abandon (idleId k)
        crews := update c.crews k (some { spec := { solo with id := idleId k }, arena := none })
        runs := update c.runs k (some ⟨k, .gone⟩)
        used := update c.used (k + 1) true
        made := c.made + 1
        born := update c.born (k + 1) c.made
        evicted := c.evicted ++ c.reg.evicted.map c.born } := by
  simp [idleActs, Machine.exec, lifecycle, lifeStep, hcrew, hrun, hfree, hhome, Life.setCrew,
    Life.setStage, Life.use, Life.run?, Life.Free]

/-- Below the cap nothing is evicted. -/
theorem Stocked.step {n : Nat} (h : Stocked n c) (hn : n + 1 < maxRetainedCrews) :
    ∃ c', (lifecycle firstHome).exec c (idleActs (n + 1)) = some c' ∧ Stocked (n + 1) c' := by
  have hfew : c.reg.crews.size - c.reg.cancel.size < maxRetainedCrews := by
    rw [h.size, h.flags]
    exact hn
  have hevict : c.reg.evict = c.reg := if_pos hfew
  have hevicted : c.reg.evicted = [] := if_pos hfew
  have hnew := h.idle (n + 1) (Nat.lt_succ_self n)
  refine ⟨_, exec_idle (h.crews _ (Nat.lt_succ_self n)) (h.runs _ (Nat.lt_succ_self n))
    (h.free _ (Nat.lt_succ_self _)) (if_neg (by omega)), ?_⟩
  rw [registerAt_eq, hevict, hevicted]
  refine ⟨?_, ?_, fun k hk => ?_, ?_, h.slots, ?_, ?_, fun k hk => ?_, fun r hr => ?_,
    fun addr haddr => ?_, ?_, ?_⟩
  · show (c.reg.crews.set (idleId (n + 1)) (n + 2)).size = n + 2
    rw [size_set, hnew, h.size]
    rfl
  · show (c.reg.crews.set (idleId (n + 1)) (n + 2)).lookup "crew" = some 1
    rw [lookup_set, if_neg (idleId_ne_crew _).symm, h.first]
  · show (c.reg.crews.set (idleId (n + 1)) (n + 2)).lookup (idleId k) = none
    rw [lookup_set, if_neg fun heq => hk.ne' (idleId_injective heq), h.idle k (by omega)]
  · show (c.reg.cancel.set (idleId (n + 1)) (n + 1)).erase (idleId (n + 1)) = KeyMap.empty
    rw [h.flags]
    simp [KeyMap.set, KeyMap.erase, KeyMap.empty, KeyMap.keys]
  · exact h.state
  · exact h.crew
  · simp only [update_of_ne hk.ne']
    exact h.crews k (Nat.lt_of_succ_lt hk)
  · simp only [update_of_ne hr.ne']
    exact h.runs r (Nat.lt_of_succ_lt hr)
  · simp only [update_of_ne haddr.ne']
    exact h.free addr (Nat.lt_of_succ_lt haddr)
  · exact h.ended
  · show c.evicted ++ [].map c.born = []
    rw [h.evicted]
    rfl

theorem stocked (n : Nat) (hn : n < maxRetainedCrews) :
    ∃ acts c, (lifecycle firstHome).exec {} acts = some c ∧ Stocked n c := by
  induction n with
  | zero => exact ⟨firstActs, stocked_zero⟩
  | succ n ih =>
    obtain ⟨acts, c, hrun, hstocked⟩ := ih (Nat.lt_of_succ_lt hn)
    obtain ⟨c', hstep, hnext⟩ := hstocked.step hn
    exact ⟨acts ++ idleActs (n + 1), c', by rwa [(lifecycle firstHome).exec_append hrun], hnext⟩

/-- Of 1,000 crews without a flag the one that has ended is evicted. -/
theorem Stocked.evicts (h : Stocked (maxRetainedCrews - 1) c) : c.reg.evicted = [1] := by
  have hcur : c.reg.isCurrent 1 := by
    rw [Registry.isCurrent_iff, h.state, h.first]
  have hqueue : c.reg.queue = [1] := by
    rw [Registry.queue, h.slots.1, h.slots.2]
    rfl
  have hsize : c.reg.crews.size = maxRetainedCrews := h.size
  rw [Registry.evicted, h.flags, hqueue, if_neg]
  · rw [Registry.evictedLoop, if_pos, if_pos hcur]
    · rfl
    · rw [hsize]
      decide
  · rw [hsize]
    decide

/-- The first crew to end is evicted, and no other crew has ended. -/
theorem evicted_alone :
    ∃ acts c n, (lifecycle firstHome).exec {} acts = some c ∧ c.ended = [n] ∧ c.evicted = [n] := by
  obtain ⟨acts, c, hrun, h⟩ := stocked (maxRetainedCrews - 1) (by decide)
  have hlast := exec_idle (k := maxRetainedCrews) (h.crews _ (by decide)) (h.runs _ (by decide))
    (h.free _ (by decide)) rfl
  rw [← (lifecycle firstHome).exec_append hrun] at hlast
  refine ⟨_, _, c.born 1, hlast, h.ended, ?_⟩
  show c.evicted ++ c.reg.evicted.map c.born = [c.born 1]
  rw [h.evicted, h.evicts]
  rfl

/-- The window around it: 900 crews, none of which has ended. -/
theorem evicted_after_idle :
    ∃ acts c, (lifecycle firstHome).exec {} acts = some c ∧ c.reg.evicted = [1] ∧
      ∃ others : List String, crewsLowWater ≤ others.length ∧
        ∀ id ∈ others, c.reg.cancel.lookup id = none := by
  obtain ⟨acts, c, hrun, h⟩ := stocked (maxRetainedCrews - 1) (by decide)
  have hgone : c.reg.evicted = [] ++ 1 :: [] := h.evicts
  obtain ⟨_, _, -, others, -, hlength, hothers⟩ := evicted_after hrun hgone
  exact ⟨acts, c, hrun, hgone, others, hlength, fun id hmem => (hothers id hmem).2.1⟩

end Agnosai.Orchestrator
