import Agnosai.Orchestrator.Registry.Memory

/-!
# Orchestrator — Registry — Evictable

Which crews the ended queue can reach. An entry that has a slot keeps it for as long as it is an
entry (`Carries`), so what is not queued was never queued. A crew whose run is over is queued by
whatever ends it, except a crew that is cancelled after it is registered and whose thread then
cannot be started: the cancel leaves the queueing to the runner, and there will be none.
-/

namespace Agnosai.Orchestrator

open CrewRunner KeyMap List Option

variable {home : Nat → Option Nat} {c c' : Life} {act : LifeAct}

variable {id' : String} {addr' : Nat}

namespace Registry

variable {used : Nat → Bool} {o o' : Registry} {addr : Nat} {id : String}

/-- An entry that has a slot has one while it is an entry. -/
def Carries (o o' : Registry) : Prop :=
  ∀ id addr, o.crews.lookup id = some addr → o'.crews.lookup id = some addr → addr ∈ o.queue →
    addr ∈ o'.queue

theorem carries_of_eq (h : o'.queue = o.queue) : Carries o o' :=
  fun _ _ _ _ hmem => h ▸ hmem

namespace Tied

variable (h : Tied used o)
include h

theorem carries_compactEnded : Carries o o.compactEnded :=
  fun _ _ hl _ hmem => mem_compactEnded hmem (h.isCurrent hl)

/-- What is queued has a slot, and what had one has. -/
theorem mem_noteEnded (hl : o.crews.lookup id = some addr)
    (hmem : addr ∈ o.queue ∨ addr = addr') : addr ∈ (o.noteEnded addr').queue := by
  refine Registry.mem_noteEnded h.head ?_ (h.isCurrent hl)
  rw [mem_append, mem_singleton]
  exact hmem

theorem carries_finishError (addr : Nat) (spec : CrewSpec) (e : CrewError) :
    Carries o (o.finishError spec.id) ∧
      ∀ addr' ∈ o.finishEnded addr spec (.error e), addr' ∈ (o.finishError spec.id).queue := by
  obtain ⟨addr', hl, -, heq, hended⟩ | ⟨-, heq, hended⟩ := o.finishError_cases addr e
  · have hback := h.handBack spec.id
    rw [heq, hended]
    refine ⟨fun id addr₁ hl₁ _ hmem => ?_, fun addr₁ hmem => ?_⟩
    · rw [← o.crews_handBack spec.id] at hl₁
      rw [← o.queue_handBack spec.id] at hmem
      exact hback.mem_noteEnded hl₁ (.inl hmem)
    · obtain rfl : addr₁ = addr' := mem_singleton.1 hmem
      rw [← o.crews_handBack spec.id] at hl
      exact hback.mem_noteEnded hl (.inr rfl)
  · rw [heq, hended]
    exact ⟨carries_of_eq (o.queue_handBack spec.id), nofun⟩

theorem carries_cancelCrew (id : String) : Carries o (o.cancelCrew id).2 ∧
      ∀ addr ∈ o.cancelEnded id, addr ∈ (o.cancelCrew id).2.queue := by
  obtain ⟨-, heq, hended⟩ | ⟨addr, hl, hfin, ⟨r, -, heq, hended⟩ | ⟨-, heq, hended⟩⟩ :=
    o.cancelCrew_cases id
  · rw [heq, hended]
    exact ⟨carries_of_eq rfl, nofun⟩
  · rw [heq, hended]
    exact ⟨carries_of_eq rfl, nofun⟩
  · have hstatus := h.withStatus hl hfin .cancelled
    rw [heq, hended]
    refine ⟨fun id' addr' hl' _ hmem => hstatus.mem_noteEnded hl' (.inl hmem), fun addr' hmem => ?_⟩
    obtain rfl : addr' = addr := mem_singleton.1 hmem
    exact hstatus.mem_noteEnded hl (.inr rfl)

/-- Entries go, and then the queue is compacted. -/
theorem carries_erase (hnone : o.cancel.lookup id = none) :
    Carries o { o with crews := o.crews.erase id }.compactEnded := by
  intro id' addr _ hl hmem
  rw [crews_compactEnded] at hl
  exact (h.erase hnone).carries_compactEnded id' addr hl (by rwa [crews_compactEnded]) hmem

theorem carries_forgetCrew (id : String) : Carries o (o.forgetCrew id).2 := by
  unfold Registry.forgetCrew
  split
  · exact carries_of_eq rfl
  · split
    · exact carries_of_eq rfl
    next hflag =>
      exact h.carries_erase (not_isSome_iff_eq_none.1 hflag)

/-- A release drops no slot of an entry that is not in the arena. -/
theorem carries_releaseCrew (hnone : o.cancel.lookup id = none)
    (holds : Option (Nat → Bool)) (hl : (o.releaseCrew id holds).crews.lookup id' = some addr)
    (hout : ∀ p, holds = some p → p addr = false) (hmem : addr ∈ o.queue) :
    addr ∈ (o.releaseCrew id holds).queue := by
  have herase := h.erase hnone
  rw [crews_releaseCrew] at hl
  cases holds with
  | none => exact mem_compactEnded hmem (herase.isCurrent hl)
  | some p =>
    have hpurge : addr ∈ ({ o with crews := o.crews.erase id }.purgeEnded p).queue := by
      rw [queue_purgeEnded herase.head]
      exact mem_filter.2 ⟨hmem, by rw [hout p rfl]; rfl⟩
    exact mem_compactEnded hpurge ((herase.purgeEnded p).isCurrent hl)

theorem carries_evict : Carries o o.evict :=
  fun _ _ _ hl hmem => mem_evict hmem (h.evict.isCurrent hl)

/-- An entry after a registration is the new one, or was there, with its slot. -/
theorem entry_registerAt {r : Nat} (hl : (o.registerAt addr r id).crews.lookup id' = some addr') :
    id' = id ∧ addr' = addr ∨ o.crews.lookup id' = some addr' ∧ id' ≠ id ∧
      (addr' ∈ o.queue → addr' ∈ (o.registerAt addr r id).queue) := by
  rw [registerAt_eq] at hl ⊢
  simp only [setCrew, lookup_set] at hl
  split at hl
  next heq =>
    cases hl
    exact .inl ⟨heq, rfl⟩
  next hne =>
    have hold := o.shrunk_evict.crews id' addr' hl
    exact .inr ⟨hold, hne, h.carries_evict id' addr' hold hl⟩

/-- An entry after a run is its final state, queued, or was there, with its slot. -/
theorem entry_finishAt (hfree : used addr = false) {spec : CrewSpec} {s : CrewState}
    (hs : s.crewId = spec.id)
    (hl : (o.finishAt addr spec (.ok s)).crews.lookup id' = some addr') :
    addr' = addr ∧ addr ∈ (o.finishAt addr spec (.ok s)).queue ∨
      o.crews.lookup id' = some addr' ∧ id' ≠ spec.id ∧
        (addr' ∈ o.queue → addr' ∈ (o.finishAt addr spec (.ok s)).queue) := by
  have henter := (h.enter hfree hs).unflag spec.id
  have hcrews : (o.finishAt addr spec (.ok s)).crews = o.crews.set spec.id addr := crews_noteEnded _
  rw [hcrews] at hl
  have hmem : addr' ∈ o.queue ∨ addr' = addr → addr' ∈ (o.finishAt addr spec (.ok s)).queue :=
    henter.mem_noteEnded hl
  rw [lookup_set] at hl
  split at hl
  · cases hl
    exact .inl ⟨rfl, hmem (.inr rfl)⟩
  next hne =>
    exact .inr ⟨hl, hne, fun hold => hmem (.inl hold)⟩

end Tied

/-! ### Whether a crew can be evicted -/

/-- A crew that has ended and that no runner holds has a slot. -/
def Evictable (o : Registry) : Prop :=
  ∀ id addr, o.crews.lookup id = some addr → isFinished (o.states addr) →
    o.cancel.lookup id = none → addr ∈ o.queue

theorem Evictable.registerAt (he : Evictable o) (h : Tied used o)
    (hfree : used addr = false) (r : Nat) : Evictable (o.registerAt addr r id) := by
  intro id' addr' hl hfin hnone
  obtain ⟨rfl, -⟩ | ⟨hold, hne, hcarry⟩ := h.entry_registerAt hl
  · rw [registerAt_eq] at hnone
    simp [lookup_set] at hnone
  · have haddr := ne_of_used hfree (h.inUse id' addr' hold)
    rw [registerAt_eq] at hfin hnone
    simp only [setCrew, Function.update_of_ne haddr, o.shrunk_evict.states] at hfin
    simp only [lookup_set, if_neg hne, o.shrunk_evict.cancel] at hnone
    exact hcarry (he id' addr' hold hfin hnone)

/-- A crew that is let go while it has its flag must not have ended. -/
theorem Evictable.abandon (he : Evictable o)
    (hlive : ∀ addr, o.crews.lookup id = some addr → (o.cancel.lookup id).isSome →
      isFinished (o.states addr) = false) : Evictable (o.abandon id) := by
  intro id' addr hl hfin hnone
  by_cases heq : id' = id
  · subst heq
    refine he id' addr hl hfin ?_
    by_contra hflag
    have hnot := hlive addr hl (isSome_iff_ne_none.2 hflag)
    exact Bool.noConfusion (hfin.symm.trans hnot)
  · exact he id' addr hl hfin ((lookup_erase_of_ne _ heq).symm.trans hnone)

theorem Evictable.advance (he : Evictable o) {source target : CrewStatus}
    (hsource : source = .pending ∨ source = .running)
    (htarget : target = .pending ∨ target = .running) : Evictable (o.advance id source target) := by
  intro id' addr hl hfin hnone
  rw [crews_advance] at hl
  rw [o.isFinished_advance id hsource htarget] at hfin
  rw [advance_cancel] at hnone
  rw [queue_advance]
  exact he id' addr hl hfin hnone

theorem Evictable.shrink (he : Evictable o) (hshrunk : Shrunk o o') (hcarry : Carries o o') :
    Evictable o' := by
  intro id addr hl hfin hnone
  rw [hshrunk.states] at hfin
  rw [hshrunk.cancel] at hnone
  have hold := hshrunk.crews id addr hl
  exact hcarry id addr hold hl (he id addr hold hfin hnone)

/-- All but the state that is queued may be short of a slot. -/
theorem evictable_noteEnded (h : Tied used o)
    (he : ∀ id addr', o.crews.lookup id = some addr' → isFinished (o.states addr') →
      o.cancel.lookup id = none → addr' ∈ o.queue ∨
        addr' = addr) : Evictable (o.noteEnded addr) := by
  obtain ⟨_, _, heq⟩ := o.noteEnded_eq addr
  intro id addr' hl hfin hnone
  rw [heq] at hl hfin hnone
  exact h.mem_noteEnded hl (he id addr' hl hfin hnone)

/-- A failed run keeps evictability. -/
theorem Evictable.finishError (he : Evictable o) (h : Tied used o) (spec : CrewSpec)
    (e : CrewError) : Evictable (o.finishError spec.id) := by
  -- What has no flag now and had one is the crew itself.
  have hback : ∀ id addr, (o.handBack spec.id).crews.lookup id = some addr →
      isFinished ((o.handBack spec.id).states addr) → (o.handBack spec.id).cancel.lookup id = none →
      addr ∈ (o.handBack spec.id).queue ∨
        o.crews.lookup spec.id = some addr ∧ isFinished (o.states addr) := by
    intro id addr hl hfin hnone
    rw [crews_handBack] at hl
    rw [queue_handBack]
    have hfin' : isFinished (o.states addr) :=
      (o.isFinished_advance spec.id (.inr rfl) (.inl rfl) addr).symm.trans hfin
    by_cases heq : id = spec.id
    · exact .inr ⟨heq ▸ hl, hfin'⟩
    · exact .inl (he id addr hl hfin' ((lookup_erase_of_ne _ heq).symm.trans hnone))
  obtain ⟨addr', hl', -, heq, -⟩ | ⟨hnot, heq, -⟩ := o.finishError_cases 0 e
  · rw [heq]
    refine evictable_noteEnded (h.handBack spec.id) fun id addr hl hfin hnone => ?_
    obtain hmem | ⟨hentry, -⟩ := hback id addr hl hfin hnone
    · exact .inl hmem
    · exact .inr (some_inj.1 (hentry.symm.trans hl'))
  · rw [heq]
    intro id addr hl hfin hnone
    obtain hmem | ⟨hentry, hfin'⟩ := hback id addr hl hfin hnone
    · exact hmem
    · rw [hnot addr hentry] at hfin'
      cases hfin'

/-- So does the end of any run. -/
theorem Evictable.finishAt (he : Evictable o) (h : Tied used o) (hfree : used addr = false)
    {spec : CrewSpec} {result : Except CrewError CrewState}
    (hresult : ∀ s, result = .ok s → Final spec.id s) :
    Evictable (o.finishAt addr spec result) := by
  cases result with
  | error e =>
    exact Evictable.finishError (o := { o with fresh := addr }) he (h.withFresh addr) spec e
  | ok s =>
    refine evictable_noteEnded ((h.enter hfree (hresult s rfl).crewId).unflag spec.id)
      fun id addr' hl hfin hnone => ?_
    by_cases heq : id = spec.id
    · simp only [setCrew, heq, lookup_set, if_true] at hl
      exact .inr (some_inj.1 hl).symm
    · simp only [setCrew, lookup_set, if_neg heq] at hl
      have hne := ne_of_used hfree (h.inUse id addr' hl)
      simp only [setCrew, Function.update_of_ne hne] at hfin
      exact .inl (he id addr' hl hfin ((lookup_erase_of_ne _ heq).symm.trans hnone))

/-- So does a cancellation. -/
theorem Evictable.cancelCrew (he : Evictable o) (h : Tied used o) :
    Evictable (o.cancelCrew id).2 := by
  obtain ⟨-, heq, -⟩ | ⟨addr, hl, hfin, hcase⟩ := o.cancelCrew_cases id
  · rwa [heq]
  -- Only the crew itself has another status.
  have hold : ∀ id' addr', o.crews.lookup id' = some addr' →
      isFinished ((o.withStatus addr .cancelled).states addr') → o.cancel.lookup id' = none →
      addr' ∈ o.queue ∨ addr' = addr := by
    intro id' addr' hl' hfin' hnone
    by_cases heq : addr' = addr
    · exact .inr heq
    · simp only [withStatus, Function.update_of_ne heq] at hfin'
      exact .inl (he id' addr' hl' hfin' hnone)
  obtain ⟨r, hflag, heq, -⟩ | ⟨-, heq, -⟩ := hcase
  · rw [heq]
    intro id' addr' hl' hfin' hnone
    refine (hold id' addr' hl' hfin' hnone).resolve_right ?_
    rintro rfl
    obtain rfl : id = id' := (h.entry id addr' hl).symm.trans (h.entry id' addr' hl')
    exact absurd (hflag.symm.trans hnone) (some_ne_none r)
  · rw [heq]
    exact evictable_noteEnded (h.withStatus hl hfin .cancelled) hold

end Registry

/-! ### Every history -/

/-- A crew that is let go with its flag, as its thread cannot be started, has not been cancelled. -/
def Undisturbed (c : Life) (act : LifeAct) : Prop :=
  ∀ r, act = .abandon r → ∀ k crew stage addr, c.run? r = some (k, crew, stage) →
    c.reg.crews.lookup crew.spec.id = some addr → (c.reg.cancel.lookup crew.spec.id).isSome →
    isFinished (c.reg.states addr) = false

theorem Lived.carries_release (h : Lived home c) {k : Nat} {crew : Crew}
    (hcrew : c.crews k = some crew)
    (hlive : crew.released = false) (hflag : c.reg.cancel.lookup crew.spec.id = none) :
    c.reg.Carries (c.reg.releaseCrew crew.spec.id
      (crew.arena.map fun a addr => decide (home addr = some a))) := by
  intro id addr _ hl hmem
  refine h.tied.carries_releaseCrew hflag _ hl (fun p hp => ?_) hmem
  obtain ⟨a, harena, rfl⟩ := map_eq_some_iff.1 hp
  exact decide_eq_false (h.purged hcrew harena hlive (.inl ⟨id, hl⟩))

/-- An undisturbed step keeps evictability. -/
theorem Lived.keep_evictable (h : Lived home c) (he : c.reg.Evictable) (hact : Undisturbed c act)
    (ht : LifeTrans home c act c') : c'.reg.Evictable := by
  cases ht with
  | created | begun | left | ran | refused => exact he
  | registered _ _ hfree => exact he.registerAt h.tied hfree.1 _
  | abandoned hrun hcrew =>
    refine he.abandon fun addr hl => ?_
    exact hact _ rfl _ _ _ addr (Life.run?_eq_some.2 ⟨hrun, hcrew⟩) hl
  | advanced => exact he.advance (.inl rfl) (.inr rfl)
  | finished hrun hcrew hfree =>
    exact he.finishAt h.tied hfree.1 (h.counts.final _ _ _ _ _ hrun hcrew)
  | cancelled => exact he.cancelCrew h.tied
  | forgotten => exact he.shrink (c.reg.shrunk_forgetCrew _) (h.tied.carries_forgetCrew _)
  | released hcrew hlive hflag =>
    exact he.shrink (c.reg.shrunk_releaseCrew _ _) (h.carries_release hcrew hlive hflag)
  | @gaveBack k a crew hcrew harena hreleased hheld =>
    intro id addr hl hfin hnone
    have hclear := h.clear hcrew hreleased hheld (.inl ⟨id, hl⟩)
    simp only [if_neg hclear] at hfin
    exact he id addr hl hfin hnone

/-- A crew that is let go with its flag after a cancel can not be evicted. -/
theorem Lived.undisturbed (h : Lived home c) (ht : LifeTrans home c act c')
    (he : c'.reg.Evictable) : Undisturbed c act := by
  rintro r rfl k crew stage addr hrun hl hflag
  rw [Bool.eq_false_iff]
  intro hfin
  cases ht with
  | @abandoned _ k' crew' hrun' hcrew' =>
    obtain ⟨hruns, hcrew⟩ := Life.run?_eq_some.1 hrun
    cases hrun'.symm.trans hruns
    cases hcrew'.symm.trans hcrew
    -- The slot it would have now it had with its flag, and what is live has none.
    have hmem : addr ∈ c.reg.queue := he crew.spec.id addr hl hfin (lookup_erase_self _ _)
    have hnone := h.tied.unheld addr hmem (h.tied.isCurrent hl)
    rw [h.tied.entry _ addr hl] at hnone
    rw [hnone] at hflag
    cases hflag

theorem evictable {acts : List LifeAct} (h : (lifecycle home).exec {} acts = some c)
    (halong : (lifecycle home).Along Undisturbed {} acts) : c.reg.Evictable := by
  have hinv : Lived home c ∧ c.reg.Evictable :=
    (lifecycle home).exec_rule (I := fun _ c => Lived home c ∧ c.reg.Evictable)
      ⟨lived_start, nofun⟩
      (fun _ _ _ _ hI hact hstep => ⟨hI.1.keep hstep,
        hI.1.keep_evictable hI.2 hact (lifeStep_trans hstep)⟩) halong h
  exact hinv.2

/-- **Which crews can be evicted.** In every history: a crew that has a terminal status and no flag
has a live slot in the ended queue, in every configuration, if and only if no crew is let go, with
its flag and after a cancel, because its thread cannot be started. -/
theorem evictable_iff_undisturbed {acts : List LifeAct}
    (h : (lifecycle home).exec {} acts = some c) :
    (∀ pre, pre <+: acts → ∀ c₁, (lifecycle home).exec {} pre = some c₁ →
      ∀ id addr, c₁.reg.crews.lookup id = some addr → isFinished (c₁.reg.states addr) →
        c₁.reg.cancel.lookup id = none → addr ∈ c₁.reg.queue ∧ c₁.reg.isCurrent addr) ↔
    (lifecycle home).Along Undisturbed {} acts := by
  constructor
  · intro hall
    refine (lifecycle home).along_of_exec fun pre act post c₁ heq hpre => ?_
    have hrun : (lifecycle home).exec {} ((pre ++ [act]) ++ post) = some c := by
      rwa [append_assoc, singleton_append, ← heq]
    obtain ⟨c₂, hnext, -⟩ := (lifecycle home).exec_append_some hrun
    obtain ⟨c₁', hpre', hlast⟩ := (lifecycle home).exec_append_some hnext
    obtain rfl : c₁ = c₁' := some_inj.1 (hpre.symm.trans hpre')
    obtain ⟨_, hstep, ⟨⟩⟩ := (lifecycle home).exec_cons_some hlast
    have hprefix : pre ++ [act] <+: acts := ⟨post, by rw [heq, append_assoc, singleton_append]⟩
    exact (lived hpre).undisturbed (lifeStep_trans hstep) fun id addr hl hfin hnone =>
      (hall _ hprefix c₂ hnext id addr hl hfin hnone).1
  · rintro halong pre ⟨post, rfl⟩ c₁ hpre id addr hl hfin hnone
    exact ⟨evictable hpre halong.append_left id addr hl hfin hnone, (lived hpre).tied.isCurrent hl⟩

/-- With no run left, a crew that was cancelled before its thread could not be started has ended,
has no flag, and has no slot. -/
theorem cancelled_abandoned_unqueued :
    ∃ c, (lifecycle fun _ => none).exec {} [.create 0 solo none, .begin 0 0, .register 0 0,
      .cancel "crew", .abandon 0, .leave 0] = some c ∧
      (∀ r run, c.runs r = some run → run.stage = .gone) ∧ c.reg.crews.lookup "crew" = some 0 ∧
      isFinished (c.reg.states 0) ∧ c.reg.cancel.lookup "crew" = none ∧ c.reg.queue = [] := by
  refine ⟨_, rfl, ?_, rfl, rfl, rfl, rfl⟩
  rintro (_ | r) run hrun
  · cases hrun
    rfl
  · cases hrun

/-- A crew whose thread cannot be started, and that is then cancelled, can be evicted. -/
theorem abandoned_cancelled_queued :
    ∃ c, (lifecycle fun _ => none).exec {} [.create 0 solo none, .begin 0 0,
      .register 0 0, .abandon 0,
        .cancel "crew", .leave 0] = some c ∧ 0 ∈ c.reg.queue ∧ c.reg.isCurrent 0 := by
  have halong : (lifecycle fun _ => none).Along Undisturbed {} [.create 0 solo none, .begin 0 0,
      .register 0 0, .abandon 0, .cancel "crew", .leave 0] := by
    refine .cons _ rfl nofun <| .cons _ rfl nofun <| .cons _ rfl nofun <| .cons _ rfl ?_ <|
      .cons _ rfl nofun <| .cons _ rfl nofun trivial
    rintro r ⟨⟩ k crew stage addr ⟨⟩ ⟨⟩ -
    rfl
  have hall := (evictable_iff_undisturbed rfl).2 halong
  exact ⟨_, rfl, hall _ prefix_rfl _ rfl "crew" 0 rfl rfl rfl⟩

end Agnosai.Orchestrator
