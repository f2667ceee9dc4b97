import Agnosai.Orchestrator.CrewRunner.Outcome
import Agnosai.Orchestrator.Registry.Retention

/-!
# Orchestrator — Registry — Compaction

How long the ended queue gets. Compaction slides the live slots down over the stale ones, in place
and in order (`compactEnded_slide`). So it bounds the queue by the registry where no crew has two
live slots (`Compact`), and none has as long as the runs of an id do not overlap. Overlapping runs
share an entry, and each that ends in a scheduling error after a cancel queues it once more
(`drained`).

A release purges the slots that are still to be popped. A slot that was popped stays until the
next compaction, and nothing reads it.
-/

namespace Agnosai.Orchestrator

open CrewRunner Registry Function KeyMap List

variable {home : Nat → Option Nat} {c c' : Life} {act : LifeAct}

namespace Registry

variable {used : Nat → Bool} {o o' : Registry} {addr : Nat} {id : String}

/-- The loop of `_agnosai_orch_compact_ended_locked` writes the live slots over the others. -/
theorem compactEnded_slide (hhead : o.endedHead ≤ o.ended.length) :
    slide o.isCurrent o.endedHead 0 o.ended = o.queue.filter o.isCurrent := by
  rw [slide_eq hhead (Nat.zero_le _)]
  rfl

/-- No crew has two live slots. -/
def Single (o : Registry) : Prop := (o.queue.filter o.isCurrent).Nodup

/-- The queue is in proportion to the registry. -/
structure Compact (o : Registry) : Prop where
  single : Single o
  slots : o.queue.length ≤ 2 * o.crews.size + 64
  popped : o.endedHead < 1024

theorem Single.shrink (h : Single o) (hqueue : o'.queue.Sublist o.queue)
    (hcur : ∀ addr ∈ o.queue, o'.isCurrent addr → o.isCurrent addr) : Single o' := by
  refine List.Nodup.sublist ?_ h
  have hfilter : o.queue.filter o'.isCurrent =
      (o.queue.filter o.isCurrent).filter o'.isCurrent := by
    rw [filter_filter]
    refine filter_congr fun addr hmem => ?_
    cases hnow : o'.isCurrent addr with
    | false => rfl
    | true => rw [hcur addr hmem hnow, Bool.true_and]
  have hsub := hqueue.filter o'.isCurrent
  rw [hfilter] at hsub
  exact hsub.trans filter_sublist

/-- There are no more live slots than crews. -/
theorem Single.length_le (h : Single o) : (o.queue.filter o.isCurrent).length ≤ o.crews.size := by
  have hlive : ∀ addr ∈ o.queue.filter o.isCurrent, o.crews.lookup (o.states addr).crewId =
      some addr :=
    fun addr hmem => isCurrent_iff.1 (mem_filter.1 hmem).2
  have hnodup : ((o.queue.filter o.isCurrent).map fun addr => (o.states addr).crewId).Nodup := by
    refine List.Nodup.map_on (fun addr hmem addr' hmem' heq => ?_) h
    have hl := hlive addr hmem
    rw [heq, hlive addr' hmem'] at hl
    exact (Option.some_inj.1 hl).symm
  have hle := length_le_size hnodup fun id hmem => by
    obtain ⟨addr, haddr, rfl⟩ := mem_map.1 hmem
    rw [hlive addr haddr]
    rfl
  rwa [length_map] at hle

/-- **Compaction bounds the queue**, where no crew has two live slots. -/
theorem Single.compactEnded (h : Single o) : Compact o.compactEnded := by
  have hlength : o.queue.length = o.ended.length - o.endedHead := length_drop
  have hle := h.length_le
  unfold Registry.compactEnded
  split
  next hfit =>
    exact ⟨h, by rw [hlength]; exact hfit.1, hfit.2⟩
  · refine ⟨?_, ?_, Nat.zero_lt_succ _⟩
    · show ((o.queue.filter o.isCurrent).filter o.isCurrent).Nodup
      exact List.Nodup.filter _ h
    · show (o.queue.filter o.isCurrent).length ≤ 2 * o.crews.size + 64
      omega

/-- A state that has no slot is queued. -/
theorem Single.noteEnded (h : Single o) (hhead : o.endedHead ≤ o.ended.length)
    (hnew : addr ∉ o.queue) : Compact (o.noteEnded addr) := by
  refine Single.compactEnded ?_
  unfold Single
  rw [queue_append hhead, filter_append]
  refine List.Nodup.append h ?_ ?_
  · exact (nodup_singleton addr).filter _
  · intro addr' hold hmem
    obtain rfl := mem_singleton.1 (mem_of_mem_filter hmem)
    exact hnew (mem_of_mem_filter hold)

/-! ### The sections -/

theorem isCurrent_withStatus (status : CrewStatus) :
    (o.withStatus addr status).isCurrent = o.isCurrent := by
  funext addr'
  simp only [isCurrent, crewId_withStatus]
  rfl

theorem Single.withStatus (h : Single o) (addr : Nat) (status : CrewStatus) :
    Single (o.withStatus addr status) := by
  unfold Single
  rw [isCurrent_withStatus]
  exact h

theorem Compact.advance (h : Compact o) (id : String) (source target : CrewStatus) :
    Compact (o.advance id source target) := by
  obtain heq | ⟨addr, heq⟩ := o.advance_eq source target
  · rwa [heq]
  · rw [heq]
    exact ⟨h.single.withStatus addr target, h.slots, h.popped⟩

/-- What is current after entries have gone was so before. -/
theorem Shrunk.isCurrent (h : Shrunk o o') (hcur : o'.isCurrent addr) : o.isCurrent addr := by
  rw [isCurrent_iff, h.states] at hcur
  exact isCurrent_iff.2 (h.crews _ _ hcur)

theorem Single.shrunk (h : Single o) (hshrunk : Shrunk o o') (hqueue : o'.queue.Sublist o.queue) :
    Single o' :=
  h.shrink hqueue fun _ _ => hshrunk.isCurrent

namespace Compact

variable (h : Compact o)
include h

theorem evict : Compact o.evict := by
  obtain ⟨-, heq, -⟩ | ⟨o', hpass, heq, -⟩ := evict_cases
  · rwa [heq]
  · rw [heq]
    have hqueue := (sublist_append_right _ _).trans hpass.sublist
    exact (h.single.shrunk hpass.shrunk hqueue).compactEnded

theorem registerAt (htied : Tied used o) (hfree : used addr = false) (r : Nat)
    (id : String) : Compact (o.registerAt addr r id) := by
  have hevict := h.evict
  rw [registerAt_eq]
  refine ⟨?_, ?_, hevict.popped⟩
  · exact hevict.single.shrink (.refl _) fun addr' hmem hcur =>
      htied.evict.isCurrent_enter hfree hmem hcur
  · show o.evict.queue.length ≤ 2 * (o.evict.crews.set id addr).size + 64
    have hslots := hevict.slots
    rw [size_set]
    split <;> omega

/-- A run that still holds its flag queues its crew once. -/
theorem finishError (htied : Tied used o) (spec : CrewSpec) (e : CrewError)
    (hflag : (o.cancel.lookup spec.id).isSome) : Compact (o.finishError spec.id) := by
  have hback : Compact (o.handBack spec.id) := by
    have hadv := h.advance spec.id .running .pending
    exact ⟨hadv.single, hadv.slots, hadv.popped⟩
  obtain ⟨addr, hl, -, heq, -⟩ | ⟨-, heq, -⟩ := o.finishError_cases 0 e
  · rw [heq]
    refine hback.single.noteEnded (htied.handBack spec.id).head ?_
    rw [queue_handBack]
    intro hmem
    have hnone := htied.unheld addr hmem (htied.isCurrent hl)
    rw [htied.entry spec.id addr hl] at hnone
    rw [hnone] at hflag
    cases hflag
  · rwa [heq]

theorem finishAt (htied : Tied used o) (hfree : used addr = false)
    {spec : CrewSpec} {result : Except CrewError CrewState}
    (hresult : ∀ s, result = .ok s → Final spec.id s) (hflag : (o.cancel.lookup spec.id).isSome) :
    Compact (o.finishAt addr spec result) := by
  cases result with
  | error e =>
    exact Compact.finishError (o := { o with fresh := addr }) ⟨h.single, h.slots, h.popped⟩
      (htied.withFresh addr) spec e hflag
  | ok s =>
    have hsingle : Single ({ o with fresh := addr }.setCrew spec.id s) :=
      h.single.shrink (.refl _) fun addr' hmem hcur => htied.isCurrent_enter hfree hmem hcur
    exact Single.noteEnded hsingle htied.head (htied.notMem_queue hfree)

theorem cancelCrew (htied : Tied used o) (id : String) : Compact (o.cancelCrew id).2 := by
  obtain ⟨-, heq, -⟩ | ⟨addr, hl, hfin, ⟨r, -, heq, -⟩ | ⟨-, heq, -⟩⟩ := o.cancelCrew_cases id
  · rwa [heq]
  · have hstatus := h.single.withStatus addr .cancelled
    rw [heq]
    exact ⟨hstatus, h.slots, h.popped⟩
  · rw [heq]
    refine (h.single.withStatus addr .cancelled).noteEnded htied.head fun hmem => ?_
    -- What is live has ended.
    have hended := htied.finished addr hmem (htied.isCurrent hl)
    rw [hfin] at hended
    cases hended

theorem forgetCrew (id : String) : Compact (o.forgetCrew id).2 := by
  unfold Registry.forgetCrew
  split
  · exact h
  · split
    · exact h
    · exact (h.single.shrunk (o.shrunk_erase id) (.refl _)).compactEnded

theorem releaseCrew (htied : Tied used o) (id : String)
    (holds : Option (Nat → Bool)) : Compact (o.releaseCrew id holds) := by
  have herase := h.single.shrunk (o.shrunk_erase id) (.refl _)
  cases holds with
  | none => exact herase.compactEnded
  | some p =>
    have hpurge : ({ o with crews := o.crews.erase id }.purgeEnded p).queue.Sublist o.queue := by
      rw [queue_purgeEnded (o := { o with crews := o.crews.erase id }) htied.head p]
      exact filter_sublist
    exact Single.compactEnded (herase.shrink hpurge fun _ _ hcur => hcur)

end Compact

end Registry

/-! ### One run of an id at a time -/

/-- The run has its flag in the registry, if no other has taken it. -/
def Stage.Holding : Stage → Prop
  | .registered | .running | .returned _ _ => True
  | .begun | .leaving | .gone => False

/-- No run is registered under the id of one that has yet to let go of its flag. -/
def OneRun (c : Life) (act : LifeAct) : Prop :=
  ∀ r addr k crew, act = .register r addr → c.run? r = some (k, crew, .begun) →
    ∀ r' k' crew' stage, c.run? r' = some (k', crew', stage) → stage.Holding →
      crew'.spec.id ≠ crew.spec.id

/-- Run `r` of crew `k` has yet to let go of its flag, under `id`. -/
def Life.Holds (c : Life) (r k : Nat) (id : String) : Prop :=
  ∃ crew stage, c.run? r = some (k, crew, stage) ∧ stage.Holding ∧ crew.spec.id = id

/-- Each run that has yet to let go of its flag has it, and the queue is in proportion. -/
structure Orderly (c : Life) : Prop where
  holding : ∀ r k id, c.Holds r k id → c.reg.cancel.lookup id = some r
  compact : c.reg.Compact

theorem orderly_start : Orderly {} where
  holding _ _ _ := by
    rintro ⟨_, _, h, -⟩
    cases h
  compact := ⟨nodup_nil, Nat.zero_le _, Nat.zero_lt_succ _⟩

section Flags

variable {r k : Nat} {crew : Crew} {stage : Stage}

/-- A step in which run `r` goes to `stage`. -/
theorem Life.Holds.setStage {r₁ k₁ : Nat} {id : String} (h : c'.Holds r₁ k₁ id)
    (hcrew : c.crews k = some crew) (hruns : c'.runs = update c.runs r (some ⟨k, stage⟩))
    (hcrews : c'.crews = c.crews) :
    r₁ = r ∧ k₁ = k ∧ stage.Holding ∧ crew.spec.id = id ∨ r₁ ≠ r ∧ c.Holds r₁ k₁ id := by
  obtain ⟨crew₁, stage₁, hrun, hstage, hid⟩ := h
  obtain ⟨hr, hk⟩ := Life.run?_eq_some.1 hrun
  rw [hcrews] at hk
  rw [hruns] at hr
  obtain ⟨heq, ⟨⟩⟩ | ⟨hne, hr⟩ := update_eq_some.1 hr
  · obtain rfl : crew = crew₁ := Option.some_inj.1 (hcrew.symm.trans hk)
    exact .inl ⟨heq, rfl, hstage, hid⟩
  · exact .inr ⟨hne, crew₁, stage₁, Life.run?_eq_some.2 ⟨hr, hk⟩, hstage, hid⟩

/-- A crew is replaced by one with the same spec. -/
theorem Life.Holds.setCrew {crew' : Crew} {r₁ k₁ : Nat} {id : String} (h : c'.Holds r₁ k₁ id)
    (hcrew : c.crews k = some crew) (hruns : c'.runs = c.runs)
    (hcrews : c'.crews = update c.crews k (some crew')) (hspec : crew'.spec = crew.spec) :
    c.Holds r₁ k₁ id := by
  obtain ⟨crew₁, stage₁, hrun, hstage, hid⟩ := h
  obtain ⟨hr, hk⟩ := Life.run?_eq_some.1 hrun
  rw [hruns] at hr
  rw [hcrews] at hk
  obtain ⟨rfl, rfl⟩ | ⟨-, hk⟩ := update_eq_some.1 hk
  · exact ⟨crew, stage₁, Life.run?_eq_some.2 ⟨hr, hcrew⟩, hstage, hspec ▸ hid⟩
  · exact ⟨crew₁, stage₁, Life.run?_eq_some.2 ⟨hr, hk⟩, hstage, hid⟩

end Flags

/-- What a step does to the flags and to who holds one: nothing, or a run is registered, or a run
lets go. -/
theorem LifeTrans.flags (hcounts : Counts c) (ht : LifeTrans home c act c') :
    (c'.reg.cancel = c.reg.cancel ∧ ∀ r k id, c'.Holds r k id → c.Holds r k id) ∨
    (∃ r addr k crew, act = .register r addr ∧ c.run? r = some (k, crew, .begun) ∧
      c'.reg.cancel = c.reg.cancel.set crew.spec.id r ∧
      ∀ r' k' id, c'.Holds r' k' id → r' = r ∧ crew.spec.id = id ∨ c.Holds r' k' id) ∨
    ∃ r k crew stage, c.run? r = some (k, crew, stage) ∧ stage.Holding ∧
      c'.reg.cancel = c.reg.cancel.erase crew.spec.id ∧
      ∀ r' k' id, c'.Holds r' k' id → r' ≠ r ∧ c.Holds r' k' id := by
  cases ht with
  | @created k spec arena hnew =>
    refine .inl ⟨rfl, fun r k' id => ?_⟩
    rintro ⟨crew, stage, hrun, hstage, hid⟩
    obtain ⟨hr, hk⟩ := Life.run?_eq_some.1 hrun
    have hne : k' ≠ k := by
      rintro rfl
      have hsome := hcounts.known r _ hr
      rw [hnew] at hsome
      cases hsome
    have hk' : c.crews k' = some crew := (update_of_ne hne ..).symm.trans hk
    exact ⟨crew, stage, Life.run?_eq_some.2 ⟨hr, hk'⟩, hstage, hid⟩
  | @begun r k crew hnew hcrew | @left r k crew hrun hcrew =>
    refine .inl ⟨rfl, fun r' k' id hholds => ?_⟩
    obtain ⟨-, -, hno, -⟩ | ⟨-, hold⟩ := hholds.setStage (update_self ..) rfl rfl
    · exact hno.elim
    · exact hold.setCrew hcrew rfl rfl rfl
  | @registered r addr k crew hrun hcrew =>
    refine .inr (.inl ⟨r, addr, k, crew, rfl, Life.run?_eq_some.2 ⟨hrun, hcrew⟩, ?_, ?_⟩)
    · exact register_cancel r
    · intro r' k' id hholds
      obtain ⟨rfl, -, -, hid⟩ | ⟨-, hold⟩ := hholds.setStage hcrew rfl rfl
      · exact .inl ⟨rfl, hid⟩
      · exact .inr hold
  | @abandoned r k crew hrun hcrew =>
    refine .inr (.inr ⟨r, k, crew, _, Life.run?_eq_some.2 ⟨hrun, hcrew⟩, trivial, rfl, ?_⟩)
    intro r' k' id hholds
    obtain ⟨-, -, hno, -⟩ | hold := hholds.setStage hcrew rfl rfl
    · exact hno.elim
    · exact hold
  | @finished r addr k crew result timedOut hrun hcrew =>
    refine .inr (.inr ⟨r, k, crew, _, Life.run?_eq_some.2 ⟨hrun, hcrew⟩, trivial, ?_, ?_⟩)
    · exact finish_cancel _ _
    · intro r' k' id hholds
      obtain ⟨-, -, hno, -⟩ | hold := hholds.setStage hcrew rfl rfl
      · exact hno.elim
      · exact hold
  | @advanced r k crew hrun hcrew =>
    refine .inl ⟨c.reg.advance_cancel _ _, fun r' k' id hholds => ?_⟩
    obtain ⟨rfl, rfl, -, hid⟩ | ⟨-, hold⟩ := hholds.setStage hcrew rfl rfl
    · exact ⟨crew, _, Life.run?_eq_some.2 ⟨hrun, hcrew⟩, trivial, hid⟩
    · exact hold
  | @ran r env k crew hrun hcrew =>
    refine .inl ⟨rfl, fun r' k' id hholds => ?_⟩
    obtain ⟨rfl, rfl, -, hid⟩ | ⟨-, hold⟩ := hholds.setStage hcrew rfl rfl
    · exact ⟨crew, _, Life.run?_eq_some.2 ⟨hrun, hcrew⟩, trivial, hid⟩
    · exact hold
  | cancelled => exact .inl ⟨c.reg.cancelCrew_cancel _, fun _ _ _ h => h⟩
  | forgotten => exact .inl ⟨(c.reg.shrunk_forgetCrew _).cancel, fun _ _ _ h => h⟩
  | refused | gaveBack => exact .inl ⟨rfl, fun _ _ _ h => h⟩
  | released hcrew =>
    exact .inl ⟨(c.reg.shrunk_releaseCrew _ _).cancel,
      fun _ _ _ hholds => hholds.setCrew hcrew rfl rfl rfl⟩

/-- A run keeps holding its flag. -/
theorem Orderly.keep_holding (h : Orderly c) (hcounts : Counts c) (hone : OneRun c act)
    (ht : LifeTrans home c act c') (r k : Nat) (id : String) (hholds : c'.Holds r k id) :
    c'.reg.cancel.lookup id = some r := by
  obtain ⟨hcancel, hback⟩ | ⟨r₀, addr, k₀, crew₀, rfl, hrun, hcancel, hback⟩ |
    ⟨r₀, k₀, crew₀, stage₀, hrun, hstage, hcancel, hback⟩ := ht.flags hcounts
  · rw [hcancel]
    exact h.holding r k id (hback r k id hholds)
  · rw [hcancel, lookup_set]
    obtain ⟨rfl, hid⟩ | hold := hback r k id hholds
    · rw [if_pos hid.symm]
    · obtain ⟨crew, stage, hrun', hstage, rfl⟩ := hold
      rw [if_neg (hone r₀ addr k₀ crew₀ rfl hrun r k crew stage hrun' hstage)]
      exact h.holding r k _ ⟨crew, stage, hrun', hstage, rfl⟩
  · obtain ⟨hne, hold⟩ := hback r k id hholds
    have hflag := h.holding r k id hold
    have hid : id ≠ crew₀.spec.id := by
      rintro rfl
      have hflag₀ := h.holding r₀ k₀ _ ⟨crew₀, stage₀, hrun, hstage, rfl⟩
      exact hne (Option.some_inj.1 (hflag.symm.trans hflag₀))
    rw [hcancel, lookup_erase_of_ne _ hid]
    exact hflag

/-- A step leaves the queue compact. -/
theorem Orderly.keep_compact (h : Orderly c) (hlived : Lived home c)
    (ht : LifeTrans home c act c') : c'.reg.Compact := by
  have hcompact := h.compact
  cases ht with
  | created | begun | left | ran | refused => exact hcompact
  | registered _ _ hfree => exact hcompact.registerAt hlived.tied hfree.1 _ _
  | abandoned => exact ⟨hcompact.single, hcompact.slots, hcompact.popped⟩
  | advanced => exact hcompact.advance _ _ _
  | @finished r addr k crew result timedOut hrun hcrew hfree =>
    have hflag := h.holding r k crew.spec.id
      ⟨crew, _, Life.run?_eq_some.2 ⟨hrun, hcrew⟩, trivial, rfl⟩
    refine hcompact.finishAt hlived.tied hfree.1 (hlived.counts.final _ _ _ _ _ hrun hcrew) ?_
    rw [hflag]
    rfl
  | cancelled => exact hcompact.cancelCrew hlived.tied _
  | forgotten => exact hcompact.forgetCrew _
  | released => exact hcompact.releaseCrew hlived.tied _ _
  | gaveBack hcrew _ hreleased hheld =>
    refine ⟨hcompact.single.shrink (.refl _) fun addr hmem hcur => ?_, hcompact.slots,
      hcompact.popped⟩
    have hclear := hlived.clear hcrew hreleased hheld (.inr hmem)
    rw [isCurrent_iff] at hcur ⊢
    simpa only [if_neg hclear] using hcur

/-- No flag is in the registry under the id that a run is registered under. -/
def Unflagged (c : Life) : LifeAct → Prop
  | .register r _ => ∀ x ∈ c.run? r, c.reg.cancel.lookup x.2.1.spec.id = none
  | _ => True

instance decidableUnflagged : ∀ act, Decidable (Unflagged c act)
  | .register r _ =>
    inferInstanceAs (Decidable (∀ x ∈ c.run? r, c.reg.cancel.lookup x.2.1.spec.id = none))
  | .create .. | .begin .. | .abandon .. | .advance .. | .run .. | .finish .. | .leave ..
  | .cancel .. | .forget .. | .release .. | .giveBack .. => .isTrue trivial

/-- A run that has yet to let go of its flag has it in the registry. -/
theorem Orderly.oneRun (h : Orderly c) (hact : Unflagged c act) : OneRun c act := by
  rintro r addr k crew rfl hrun r' k' crew' stage hrun' hstage heq
  have hnone : c.reg.cancel.lookup crew.spec.id = none := hact _ hrun
  have hflag := h.holding r' k' _ ⟨crew', stage, hrun', hstage, heq⟩
  rw [hnone] at hflag
  cases hflag

/-- With one run of an id at a time, the queue is in proportion to the registry. -/
theorem orderly {P : Life → LifeAct → Prop} (hP : ∀ c act, Orderly c → P c act → OneRun c act)
    {acts : List LifeAct} (h : (lifecycle home).exec {} acts = some c)
    (hone : (lifecycle home).Along P {} acts) : Orderly c := by
  have hinv : Lived home c ∧ Orderly c := by
    refine (lifecycle home).exec_rule (I := fun _ c => Lived home c ∧ Orderly c)
      ⟨lived_start, orderly_start⟩ ?_ hone h
    rintro _ c act c' ⟨hlived, horderly⟩ hact hstep
    have ht := lifeStep_trans hstep
    exact ⟨hlived.keep hstep, horderly.keep_holding hlived.counts (hP c act horderly hact) ht,
      horderly.keep_compact hlived ht⟩
  exact hinv.2

/-- Runs that wait for the flag are one at a time. -/
theorem along_oneRun {acts : List LifeAct} (h : (lifecycle home).Along Unflagged {} acts) :
    (lifecycle home).Along OneRun {} acts := by
  refine Machine.along_of_exec _ fun pre act post c hacts hrun => ?_
  subst hacts
  have horderly : Orderly c :=
    orderly (fun _ _ ho hact => ho.oneRun hact) hrun (h.append_left _)
  exact horderly.oneRun (h.append_right _ hrun).1

/-- **The ended queue.** In every history with one run of an id at a time, the queue holds at most 2
times the registry size plus 64 slots that are still to be popped, and fewer than 1,024 that were.
Compaction, whenever it does anything, slides down exactly the slots whose state is still the
registry's entry, in order. And in every history, after a release no entry, and no slot that is
still to be popped, points into the crew's arena. -/
theorem queue_in_proportion {acts : List LifeAct} (h : (lifecycle home).exec {} acts = some c) :
    ((lifecycle home).Along OneRun {} acts →
      c.reg.queue.length ≤ 2 * c.reg.crews.size + 64 ∧ c.reg.endedHead < 1024) ∧
    (∀ o : Registry, o.endedHead ≤ o.ended.length → o.compactEnded = o ∨
      o.compactEnded = { o with ended := slide o.isCurrent o.endedHead 0 o.ended, endedHead := 0 } ∧
        o.compactEnded.queue = o.queue.filter o.isCurrent) ∧
    (∀ k crew a c', c.crews k = some crew → crew.arena = some a → crew.released = false →
      (lifecycle home).step c (.release k) = some c' → (c'.crews k).map Crew.released = some true →
      ∀ addr, c'.reg.Points addr → home addr ≠ some a) := by
  refine ⟨fun hone => ?_, fun o hhead => ?_, ?_⟩
  · have hcompact := (orderly (fun _ _ _ hact => hact) h hone).compact
    exact ⟨hcompact.slots, hcompact.popped⟩
  · unfold compactEnded
    split
    · exact .inl rfl
    · rw [compactEnded_slide hhead]
      exact .inr ⟨rfl, rfl⟩
  · intro k crew a c' hcrew harena hlive hstep hreleased addr hpoints
    cases lifeStep_trans hstep with
    | refused =>
      rw [hcrew, Option.map_some, hlive] at hreleased
      cases hreleased
    | released hcrew' =>
      obtain rfl := Option.some_inj.1 (hcrew'.symm.trans hcrew)
      exact (lived h).purged hcrew harena hlive hpoints

/-- Crew 0 is run to its end, again and again. -/
def reruns (n : Nat) : List LifeAct :=
  .create 0 solo none :: (range n).flatMap fun r =>
    [.begin r 0, .register r (2 * r), .advance r, .run r (soloEnv false), .finish r (2 * r + 1),
      .leave r]

/-- The slot of the 67th run is one too many, and compaction frees those of the runs before. -/
theorem queue_in_proportion_reruns :
    ∃ c, (lifecycle fun _ => none).exec {} (reruns 67) = some c ∧ c.reg.ended = [133] ∧
      c.reg.queue.length ≤ 2 * c.reg.crews.size + 64 ∧ c.reg.endedHead < 1024 := by
  have hended : ((lifecycle fun _ => none).exec {} (reruns 67)).map (·.reg.ended) = some [133] := by
    decide +kernel
  obtain ⟨c, hrun, hlast⟩ := Option.map_eq_some_iff.1 hended
  exact ⟨c, hrun, hlast, (queue_in_proportion hrun).1 (along_oneRun (by decide +kernel))⟩

/-! ### A slot that was popped -/

/-- The registry once the first crew is evicted. -/
theorem Stocked.evict (h : Stocked (maxRetainedCrews - 1) c) :
    c.reg.evict = { c.reg with endedHead := 1, crews := c.reg.crews.erase "crew" } := by
  have hcur : c.reg.isCurrent 1 := by
    rw [Registry.isCurrent_iff, h.state, h.first]
  have hsize : c.reg.crews.size = maxRetainedCrews := h.size
  have hmany : ¬ c.reg.crews.size - c.reg.cancel.size < maxRetainedCrews := by
    rw [hsize, h.flags]
    decide
  have hmore : crewsLowWater < c.reg.crews.size - c.reg.cancel.size := by
    rw [hsize, h.flags]
    decide
  rw [Registry.evict, if_neg hmany, h.slots.1, h.slots.2]
  simp only [drop_zero, Registry.evictLoop, if_pos hmore, hcur, if_true, h.state, h.slots.2]
  rw [Registry.compactEnded, if_pos]
  rw [h.slots.1]
  exact ⟨Nat.zero_le _, (by decide : 1 < 1024)⟩

theorem release_popped (hcrew : c.crews 0 = some { spec := solo, arena := some 0 })
    (hflag : c.reg.cancel.lookup "crew" = none) (hended : c.reg.ended = [1])
    (hhead : c.reg.endedHead = 1) : ∃ c', (lifecycle firstHome).step c (.release 0) = some c' ∧
      (c'.crews 0).map Crew.released = some true ∧ 1 ∈ c'.reg.ended := by
  have hno : ¬ (false = true ∨ (c.reg.cancel.lookup solo.id).isSome ∨ (0 : Nat) ≠ 0) := by
    rw [show solo.id = "crew" from rfl, hflag]
    decide
  have hstep : (lifecycle firstHome).step c (.release 0) = some ({ c with
      reg := c.reg.releaseCrew "crew"
        (some fun addr => decide (firstHome addr = some 0)) }.setCrew 0
      { spec := solo, arena := some 0, released := true }) := by
    simp only [lifecycle, lifeStep, hcrew, if_neg hno]
    rfl
  -- The purge starts at the head, behind the slot.
  have hpurge : ({ c.reg with crews := c.reg.crews.erase "crew" }.purgeEnded
      fun addr => decide (firstHome addr = some 0)) =
        { c.reg with crews := c.reg.crews.erase "crew" } := by
    simp only [hended, hhead]
    rfl
  refine ⟨_, hstep, by simp [Life.setCrew], ?_⟩
  show 1 ∈ ({ c.reg with crews := c.reg.crews.erase "crew" }.purgeEnded
    fun addr => decide (firstHome addr = some 0)).compactEnded.ended
  rw [hpurge, compactEnded, if_pos, hended]
  · exact mem_singleton_self 1
  · rw [hended, hhead]
    exact ⟨Nat.zero_le _, by decide⟩

/-- After a release a slot that was popped still points into the arena. -/
theorem popped_slot_kept :
    ∃ acts c c', (lifecycle firstHome).exec {} acts = some c ∧
      (lifecycle firstHome).step c (.release 0) = some c' ∧
        (c'.crews 0).map Crew.released = some true ∧
      1 ∈ c'.reg.ended ∧ firstHome 1 = some 0 := by
  obtain ⟨acts, c, hrun, h⟩ := stocked (maxRetainedCrews - 1) (by decide)
  have hlast := exec_idle (k := maxRetainedCrews) (h.crews _ (by decide)) (h.runs _ (by decide))
    (h.free _ (by decide)) rfl
  rw [← (lifecycle firstHome).exec_append hrun, registerAt_eq, h.evict] at hlast
  have hne : (0 : Nat) ≠ maxRetainedCrews := by decide
  have hflag : ((c.reg.cancel.set (idleId maxRetainedCrews) maxRetainedCrews).erase
      (idleId maxRetainedCrews)).lookup "crew" = none := by
    rw [lookup_erase_of_ne _ (idleId_ne_crew _).symm, lookup_set,
      if_neg (idleId_ne_crew _).symm, h.flags]
    rfl
  have hcrew : update c.crews maxRetainedCrews
      (some { spec := { solo with id := idleId maxRetainedCrews }, arena := none }) 0 =
        some { spec := solo, arena := some 0 } := by
    rw [update_of_ne hne, h.crew]
  obtain ⟨c₁, hrun₁, hcrew₁, hflag₁, hended₁, hhead₁⟩ : ∃ c₁,
      (lifecycle firstHome).exec {} (acts ++ idleActs maxRetainedCrews) = some c₁ ∧
      c₁.crews 0 = some { spec := solo, arena := some 0 } ∧ c₁.reg.cancel.lookup "crew" = none ∧
      c₁.reg.ended = [1] ∧ c₁.reg.endedHead = 1 := ⟨_, hlast, hcrew, hflag, h.slots.1, rfl⟩
  obtain ⟨c', hstep, hreleased, hmem⟩ := release_popped hcrew₁ hflag₁ hended₁ hhead₁
  exact ⟨_, c₁, c', hrun₁, hstep, hreleased, hmem, rfl⟩

/-! ### Runs that overlap -/

theorem crewRun_dangling : ∃ e s, crewRun (quietEnv []) dangling = (.error e, s) := ⟨_, _, rfl⟩

/-- A run of crew 0, up to the scheduling error. -/
def overlapActs (r : Nat) : List LifeAct :=
  [.begin r 0, .register r r, .advance r, .run r (quietEnv [])]

/-- Runs 0 to `n` of crew 0 have returned the error, and the entry is that of run `n`. -/
structure Overlapping (n : Nat) (c : Life) : Prop where
  crew : ∃ runs, c.crews 0 = some { spec := dangling, arena := none, runs }
  returned : ∀ r ≤ n, ∃ e timedOut, c.runs r = some ⟨0, .returned (.error e) timedOut⟩
  idle : ∀ r, n < r → c.runs r = none
  free : ∀ addr, n < addr → c.used addr = false
  size : c.reg.crews.size = 1
  entry : c.reg.crews.lookup "crew" = some n
  flag : (c.reg.cancel.lookup "crew").isSome
  state : c.reg.states n = { crewId := "crew", status := .running }
  slots : c.reg.ended = [] ∧ c.reg.endedHead = 0

theorem overlapping_zero : ∃ c, (lifecycle fun _ => none).exec {}
    (.create 0 dangling none :: overlapActs 0) = some c ∧ Overlapping 0 c := by
  refine ⟨_, rfl, ⟨1, rfl⟩, ?_, ?_, ?_, rfl, rfl, rfl, rfl, ⟨rfl, rfl⟩⟩
  · rintro (_ | r) hr
    · exact ⟨_, _, rfl⟩
    · cases hr
  · rintro (_ | r) hr
    · cases hr
    · rfl
  · rintro (_ | addr) haddr
    · cases haddr
    · rfl

theorem exec_overlap {r runs : Nat}
    (hcrew : c.crews 0 = some { spec := dangling, arena := none, runs })
    (hrun : c.runs r = none) (hfree : c.used r = false) :
    (lifecycle fun _ => none).exec c (overlapActs r) = some
      { c with
        reg := (c.reg.registerAt r r "crew").advance "crew" .pending .running
        crews := update c.crews 0 (some { spec := dangling, arena := none, runs := runs + 1 })
        runs := update c.runs r (some ⟨0, .returned (crewRun (quietEnv []) dangling).1
          (crewRun (quietEnv []) dangling).2.timedOut⟩)
        used := update c.used r true
        made := c.made + 1
        born := update c.born r c.made
        evicted := c.evicted ++ c.reg.evicted.map c.born } := by
  have hflag : ∀ flag, seesFlag (quietEnv []) dangling flag = true := fun _ => rfl
  have hid : dangling.id = "crew" := rfl
  simp [overlapActs, Machine.exec, lifecycle, lifeStep, hcrew, hrun, hfree, Life.setCrew,
    Life.setStage, Life.use, Life.run?, Life.Free, hflag, hid]

/-- One more overlapping run. -/
theorem Overlapping.step {n : Nat} (h : Overlapping n c) :
    ∃ c', (lifecycle fun _ => none).exec c (overlapActs (n + 1)) = some c' ∧
      Overlapping (n + 1) c' := by
  obtain ⟨runs, hcrew⟩ := h.crew
  obtain ⟨e, s, hresult⟩ := crewRun_dangling
  have hevict : c.reg.evict = c.reg := by
    refine if_pos ?_
    rw [h.size]
    exact lt_of_le_of_lt (Nat.sub_le _ _) (by decide)
  have hreg : (c.reg.registerAt (n + 1) (n + 1) "crew").advance "crew" .pending .running =
      (c.reg.registerAt (n + 1) (n + 1) "crew").withStatus (n + 1) .running := by
    rw [registerAt_eq, advance]
    simp [setCrew, lookup_set]
  have hexec := exec_overlap hcrew (h.idle (n + 1) (Nat.lt_succ_self n))
    (h.free (n + 1) (Nat.lt_succ_self n))
  rw [hreg, registerAt_eq, hevict, hresult] at hexec
  refine ⟨_, hexec, ⟨runs + 1, by simp only [update_self]⟩, fun r hr => ?_, fun r hr => ?_,
    fun addr haddr => ?_, ?_, ?_, ?_, ?_, h.slots⟩
  · by_cases heq : r = n + 1
    · exact ⟨e, s.timedOut, by simp only [heq, update_self]⟩
    · simp only [update_of_ne heq]
      exact h.returned r (by omega)
  · simp only [update_of_ne hr.ne']
    exact h.idle r (Nat.lt_of_succ_lt hr)
  · simp only [update_of_ne haddr.ne']
    exact h.free addr (Nat.lt_of_succ_lt haddr)
  · show (c.reg.crews.set "crew" (n + 1)).size = 1
    rw [size_set, h.entry, h.size]
    rfl
  · show (c.reg.crews.set "crew" (n + 1)).lookup "crew" = some (n + 1)
    rw [lookup_set, if_pos rfl]
  · show ((c.reg.cancel.set "crew" (n + 1)).lookup "crew").isSome
    rw [lookup_set, if_pos rfl]
    rfl
  · simp [withStatus, setCrew]

theorem overlapping (n : Nat) :
    ∃ acts c, (lifecycle fun _ => none).exec {} acts = some c ∧ Overlapping n c := by
  induction n with
  | zero => exact ⟨_, overlapping_zero⟩
  | succ n ih =>
    obtain ⟨acts, c, hrun, h⟩ := ih
    obtain ⟨c', hstep, hnext⟩ := h.step
    exact ⟨acts ++ overlapActs (n + 1), c', by rwa [Machine.exec_append _ hrun], hnext⟩

/-- The crew was cancelled, and `m` of the runs 0 to `n` have let go. -/
structure Drained (n m : Nat) (c : Life) : Prop where
  crew : ∃ runs, c.crews 0 = some { spec := dangling, arena := none, runs }
  returned : ∀ r, m ≤ r → r ≤ n → ∃ e timedOut, c.runs r = some ⟨0, .returned (.error e) timedOut⟩
  free : ∀ addr, n + m < addr → c.used addr = false
  size : c.reg.crews.size = 1
  entry : c.reg.crews.lookup "crew" = some n
  state : c.reg.states n = { crewId := "crew", status := .cancelled }
  slots : c.reg.ended = replicate m n ∧ c.reg.endedHead = 0

theorem Overlapping.cancel {n : Nat} (h : Overlapping n c) :
    ∃ c', (lifecycle fun _ => none).step c (.cancel "crew") = some c' ∧ Drained n 0 c' := by
  obtain ⟨r, hr⟩ := Option.isSome_iff_exists.1 h.flag
  have hreg : (c.reg.cancelCrew "crew").2 =
      { c.reg.withStatus n .cancelled with flags := update c.reg.flags r true } := by
    simp [cancelCrew, h.entry, h.state, isFinished, hr, withStatus]
  refine ⟨_, rfl, h.crew, fun r _ hr => h.returned r hr, fun addr haddr => h.free addr haddr,
    ?_, ?_, ?_, ?_⟩
  all_goals rw [hreg]
  · exact h.size
  · exact h.entry
  · simp [withStatus, h.state]
  · exact h.slots

/-- A cancelled crew is queued again, and compaction keeps every slot. -/
theorem Registry.finishError_again {o : Registry} {n m : Nat}
    (hentry : o.crews.lookup "crew" = some n)
    (hstate : o.states n = { crewId := "crew", status := .cancelled })
    (hended : o.ended = replicate m n) (hhead : o.endedHead = 0) :
    (o.finishError "crew").crews = o.crews ∧ (o.finishError "crew").states = o.states ∧
      (o.finishError "crew").ended = replicate (m + 1) n ∧
        (o.finishError "crew").endedHead = 0 := by
  have hadv : o.advance "crew" .running .pending = o := by
    simp [advance, hentry, hstate]
  have hfin : isFinished (o.states n) := by
    rw [hstate]
    rfl
  have heq : o.finishError "crew" = { o with cancel := o.cancel.erase "crew" }.noteEnded n := by
    simp [finishError, hadv, hentry, hfin]
  have hcur : o.isCurrent n := by
    rw [isCurrent_iff, hstate, hentry]
  rw [heq, noteEnded, compactEnded]
  simp only [hended, hhead, ← replicate_succ']
  split
  · exact ⟨rfl, rfl, rfl, rfl⟩
  · refine ⟨rfl, rfl, ?_, rfl⟩
    rw [drop_zero, filter_eq_self]
    intro addr hmem
    rw [eq_of_mem_replicate hmem]
    exact hcur

/-- One more run finishes. -/
theorem Drained.step {n m : Nat} (h : Drained n m c) (hm : m ≤ n) :
    ∃ c', (lifecycle fun _ => none).step c (.finish m (n + m + 1)) = some c' ∧
      Drained n (m + 1) c' := by
  obtain ⟨runs, hcrew⟩ := h.crew
  obtain ⟨e, timedOut, hrun⟩ := h.returned m le_rfl hm
  have hfree := h.free (n + m + 1) (Nat.lt_succ_self _)
  obtain ⟨hcrews, hstates, hended, hhead⟩ := finishError_again
    (o := { c.reg with fresh := n + m + 1 }) h.entry h.state h.slots.1 h.slots.2
  have hstep : (lifecycle fun _ => none).step c (.finish m (n + m + 1)) = some
      ({ c.use (n + m + 1) with
        reg := { c.reg with fresh := n + m + 1 }.finishError "crew"
        ended := c.ended ++ (c.reg.finishEnded (n + m + 1) dangling (.error e)).map
          (c.use (n + m + 1)).born }.setStage m 0 .leaving) := by
    simp [lifecycle, lifeStep, Life.run?, hcrew, hrun, Life.Free, hfree]
    rfl
  refine ⟨_, hstep, ⟨runs, hcrew⟩, fun r hr hle => ?_, fun addr haddr => ?_, ?_, ?_, ?_, ?_⟩
  · have hne : r ≠ m := by omega
    simp only [Life.setStage, Life.use, update_of_ne hne]
    exact h.returned r (by omega) hle
  · have hne : addr ≠ n + m + 1 := by omega
    simp only [Life.setStage, Life.use, update_of_ne hne]
    exact h.free addr (by omega)
  · exact (congrArg KeyMap.size hcrews).trans h.size
  · exact (congrArg (fun crews => KeyMap.lookup crews "crew") hcrews).trans h.entry
  · exact (congrFun hstates n).trans h.state
  · exact ⟨hended, hhead⟩

theorem drained (n m : Nat) (hm : m ≤ n + 1) :
    ∃ acts c, (lifecycle fun _ => none).exec {} acts = some c ∧ Drained n m c := by
  induction m with
  | zero =>
    obtain ⟨acts, c, hrun, h⟩ := overlapping n
    obtain ⟨c', hstep, hnext⟩ := h.cancel
    exact ⟨_, c', Machine.exec_snoc _ hrun hstep, hnext⟩
  | succ m ih =>
    obtain ⟨acts, c, hrun, h⟩ := ih (Nat.le_of_succ_le hm)
    obtain ⟨c', hstep, hnext⟩ := h.step (Nat.le_of_succ_le_succ hm)
    exact ⟨_, c', Machine.exec_snoc _ hrun hstep, hnext⟩

/-- The queue is out of proportion after 67 runs of one id that overlap, and a slot that was popped
still points into the arena after a release. -/
theorem queue_out_of_proportion :
    (∃ acts c, (lifecycle fun _ => none).exec {} acts = some c ∧
      2 * c.reg.crews.size + 64 < c.reg.queue.length) ∧
    ∃ acts c c', (lifecycle firstHome).exec {} acts = some c ∧
      (lifecycle firstHome).step c (.release 0) = some c' ∧
        (c'.crews 0).map Crew.released = some true ∧
      1 ∈ c'.reg.ended ∧ firstHome 1 = some 0 := by
  refine ⟨?_, popped_slot_kept⟩
  obtain ⟨acts, c, hrun, h⟩ := drained 66 67 le_rfl
  refine ⟨acts, c, hrun, ?_⟩
  rw [queue, h.slots.1, h.slots.2, h.size, drop_zero, length_replicate]
  decide

end Agnosai.Orchestrator
