import Agnosai.Orchestrator.Registry.Counts

/-!
# Orchestrator — Registry — Memory

What the registry points at. An entry or a slot in an arena is a state of the crew the arena is
held for (`Lived`), so the release of that crew takes all of them out: what is scrubbed after it
nothing points at. Most sections point at nothing they did not point at before (`Kept`), and queue
nothing but what they record as ended.
-/

namespace Agnosai.Orchestrator

open CrewRunner Registry Function List

variable {home : Nat → Option Nat} {c c' : Life} {act : LifeAct}

variable {a addr addr' r : Nat} {spec : CrewSpec} {id : String} {crew : Crew}

namespace Registry

variable {used : Nat → Bool} {o o' : Registry} {addr : Nat} {id : String}

/-- An entry or an unpopped slot points at `addr`. -/
def Points (o : Registry) (addr : Nat) : Prop :=
  (∃ id, o.crews.lookup id = some addr) ∨ addr ∈ o.queue

/-- What `o'` points at `o` pointed at, as a state of the same crew. -/
def Kept (o o' : Registry) : Prop :=
  ∀ addr, o'.Points addr → o.Points addr ∧ (o'.states addr).crewId = (o.states addr).crewId

theorem Kept.refl : Kept o o := fun _ h => ⟨h, rfl⟩

theorem Kept.trans {o₁ o₂ o₃ : Registry} (h₁ : Kept o₁ o₂) (h₂ : Kept o₂ o₃) : Kept o₁ o₃ := by
  intro addr h
  obtain ⟨h, hcrew⟩ := h₂ addr h
  obtain ⟨h, hcrew'⟩ := h₁ addr h
  exact ⟨h, hcrew.trans hcrew'⟩

theorem kept_of_shrunk (h : Shrunk o o') (hqueue : o'.queue ⊆ o.queue) : Kept o o' := by
  intro addr hpoints
  rw [h.states]
  refine ⟨?_, rfl⟩
  obtain ⟨id, hl⟩ | hmem := hpoints
  · exact .inl ⟨id, h.crews id addr hl⟩
  · exact .inr (hqueue hmem)

theorem kept_compactEnded : Kept o o.compactEnded :=
  kept_of_shrunk o.shrunk_compactEnded o.sublist_compactEnded.subset

/-- The entry of a crew is queued. -/
theorem kept_noteEnded (hhead : o.endedHead ≤ o.ended.length) (hl : o.crews.lookup id = some addr) :
    Kept o (o.noteEnded addr) := by
  obtain ⟨ended, endedHead, heq⟩ := o.noteEnded_eq addr
  have hsub := (sublist_noteEnded hhead addr).subset
  rw [heq] at hsub ⊢
  rintro addr' (hentry | hmem)
  · exact ⟨.inl hentry, rfl⟩
  · refine ⟨?_, rfl⟩
    obtain hold | hnew := mem_append.1 (hsub hmem)
    · exact .inr hold
    · exact .inl ⟨id, mem_singleton.1 hnew ▸ hl⟩

variable (o)

theorem kept_withStatus (addr : Nat) (status : CrewStatus) :
    Kept o (o.withStatus addr status) :=
  fun addr' h => ⟨h, o.crewId_withStatus addr status addr'⟩

theorem kept_advance (id : String) (source target : CrewStatus) :
    Kept o (o.advance id source target) := by
  obtain h | ⟨addr, h⟩ := o.advance_eq source target
  · rw [h]
    exact .refl
  · rw [h]
    exact o.kept_withStatus addr target

/-- Moving a crew between pending and running ends none, and ends no end. -/
theorem isFinished_advance (id : String) {source target : CrewStatus}
    (hsource : source = .pending ∨ source = .running)
    (htarget : target = .pending ∨ target = .running) (addr : Nat) :
    isFinished ((o.advance id source target).states addr) = isFinished (o.states addr) := by
  unfold advance
  split
  · rfl
  next addr' _ =>
    split
    next hstatus =>
      by_cases heq : addr = addr'
      · obtain rfl | rfl := hsource <;> obtain rfl | rfl := htarget <;>
          simp [withStatus, heq, isFinished, hstatus]
      · simp [withStatus, heq]
    · rfl

/-! ### What the sections queue -/

/-- The registry as a run that returned an error leaves it, before what it queues. -/
def handBack (id : String) : Registry :=
  { o.advance id .running .pending with cancel := o.cancel.erase id }

variable {o}

theorem Tied.handBack (h : Tied used o) (id : String) : Tied used (o.handBack id) := by
  rw [Registry.handBack, ← o.advance_cancel .running .pending]
  exact (h.advance id .running .pending (.inr rfl)).unflag id

section

variable (o : Registry)

variable (id)

theorem kept_handBack : Kept o (o.handBack id) :=
  o.kept_advance id .running .pending

theorem crews_handBack : (o.handBack id).crews = o.crews :=
  crews_advance .running .pending

theorem queue_handBack : (o.handBack id).queue = o.queue :=
  queue_advance .running .pending

/-- A run that returned an error queues its crew if that was cancelled. -/
theorem finishError_cases (addr : Nat) (e : CrewError) :
    (∃ addr', o.crews.lookup spec.id = some addr' ∧ isFinished (o.states addr') ∧
      o.finishError spec.id = (o.handBack spec.id).noteEnded addr' ∧
      o.finishEnded addr spec (.error e) = [addr']) ∨
    (∀ addr', o.crews.lookup spec.id = some addr' → isFinished (o.states addr') = false) ∧
      o.finishError spec.id = o.handBack spec.id ∧ o.finishEnded addr spec (.error e) = [] := by
  have hback : { o.advance spec.id .running .pending with
      cancel :=
        (o.advance spec.id .running .pending).cancel.erase spec.id } = o.handBack spec.id := by
    rw [advance_cancel]
    rfl
  have hfin : ∀ addr', isFinished ((o.advance spec.id .running .pending).states addr') =
      isFinished (o.states addr') :=
    o.isFinished_advance spec.id (.inr rfl) (.inl rfl)
  simp only [finishError, hback]
  rw [crews_advance]
  cases hl : o.crews.lookup spec.id with
  | none => exact .inr ⟨by simp, rfl, by simp only [finishEnded, hl, Option.toList, filter_nil]⟩
  | some addr' =>
    simp only [hfin]
    cases hcase : isFinished (o.states addr') with
    | true => exact .inl ⟨addr', rfl, hcase, rfl, by simp [finishEnded, hl, hcase]⟩
    | false =>
      refine .inr ⟨?_, rfl, by simp [finishEnded, hl, hcase]⟩
      rintro addr'' ⟨⟩
      exact hcase

/-- A cancel marks a crew that has not ended, and queues one that no runner holds. -/
theorem cancelCrew_cases :
    ((∀ addr, o.crews.lookup id = some addr → isFinished (o.states addr)) ∧
      (o.cancelCrew id).2 = o ∧
      o.cancelEnded id = []) ∨
    ∃ addr, o.crews.lookup id = some addr ∧ isFinished (o.states addr) = false ∧
      ((∃ r, o.cancel.lookup id = some r ∧
          (o.cancelCrew id).2 =
            { o.withStatus addr .cancelled with flags := update o.flags r true } ∧
          o.cancelEnded id = []) ∨
        o.cancel.lookup id = none ∧
          (o.cancelCrew id).2 = (o.withStatus addr .cancelled).noteEnded addr ∧
          o.cancelEnded id = [addr]) := by
  unfold cancelCrew cancelEnded
  cases hl : o.crews.lookup id with
  | none => exact .inl ⟨nofun, rfl, by simp⟩
  | some addr =>
    cases hfin : isFinished (o.states addr) with
    | true =>
      refine .inl ⟨?_, by simp [hfin], by simp [hfin]⟩
      rintro addr' ⟨⟩
      exact hfin
    | false =>
      refine .inr ⟨addr, rfl, hfin, ?_⟩
      cases hflag : o.cancel.lookup id with
      | some r => exact .inl ⟨r, rfl, by simp [hfin, withStatus], by simp⟩
      | none => exact .inr ⟨rfl, by simp [hfin], by simp [hfin]⟩

theorem crews_finishError (e : CrewError) : (o.finishError spec.id).crews = o.crews := by
  obtain ⟨addr, -, -, heq, -⟩ | ⟨-, heq, -⟩ := o.finishError_cases 0 e
  · rw [heq, crews_noteEnded, crews_handBack]
  · rw [heq, crews_handBack]

theorem crews_cancelCrew : (o.cancelCrew id).2.crews = o.crews := by
  obtain ⟨-, heq, -⟩ | ⟨addr, -, -, ⟨r, -, heq, -⟩ | ⟨-, heq, -⟩⟩ := o.cancelCrew_cases id
  · rw [heq]
  · rw [heq]
    rfl
  · rw [heq, crews_noteEnded]
    rfl

variable {id}

end

/-- A failed run adds no pointer. -/
theorem kept_finishError (h : Tied used o) (addr : Nat) (e : CrewError) :
    Kept o (o.finishError spec.id) ∧
      (o.finishError spec.id).queue.Sublist (o.queue ++ o.finishEnded addr spec (.error e)) := by
  obtain ⟨addr', hl, -, heq, hended⟩ | ⟨-, heq, hended⟩ := o.finishError_cases addr e
  · have hhead := (h.handBack spec.id).head
    have hl' : (o.handBack spec.id).crews.lookup spec.id = some addr' := by
      rwa [crews_handBack]
    rw [heq, hended, ← o.queue_handBack spec.id]
    exact ⟨(o.kept_handBack spec.id).trans (kept_noteEnded hhead hl'),
      sublist_noteEnded hhead addr'⟩
  · rw [heq, hended, queue_handBack, append_nil]
    exact ⟨o.kept_handBack spec.id, .refl _⟩

/-- Nor does a cancellation. -/
theorem kept_cancelCrew (h : Tied used o) :
    Kept o (o.cancelCrew id).2 ∧
      (o.cancelCrew id).2.queue.Sublist (o.queue ++ o.cancelEnded id) := by
  obtain ⟨-, heq, hended⟩ | ⟨addr, hl, -, ⟨r, -, heq, hended⟩ | ⟨-, heq, hended⟩⟩ :=
    o.cancelCrew_cases id
  · rw [heq, hended, append_nil]
    exact ⟨.refl, .refl _⟩
  · rw [heq, hended, append_nil]
    exact ⟨o.kept_withStatus addr .cancelled, .refl _⟩
  · rw [heq, hended]
    have hnote := kept_noteEnded (o := o.withStatus addr .cancelled) h.head hl
    exact ⟨(o.kept_withStatus addr .cancelled).trans hnote,
      sublist_noteEnded (o := o.withStatus addr .cancelled) h.head addr⟩

variable (o)

theorem kept_forgetCrew (id : String) :
    Kept o (o.forgetCrew id).2 ∧ (o.forgetCrew id).2.queue.Sublist o.queue := by
  unfold forgetCrew
  split
  · exact ⟨.refl, .refl _⟩
  · split
    · exact ⟨.refl, .refl _⟩
    · have herase : Kept o { o with crews := o.crews.erase id } :=
        kept_of_shrunk (o.shrunk_erase id) (List.Subset.refl _)
      exact ⟨herase.trans kept_compactEnded, sublist_compactEnded _⟩

theorem kept_evict : Kept o o.evict := by
  have hqueue := (sublist_append_right o.evicted o.evict.queue).trans o.sublist_evict
  exact kept_of_shrunk o.shrunk_evict hqueue.subset

theorem crews_releaseCrew (holds : Option (Nat → Bool)) :
    (o.releaseCrew id holds).crews = o.crews.erase id := by
  cases holds <;> exact crews_compactEnded _

theorem shrunk_releaseCrew (id : String) (holds : Option (Nat → Bool)) :
    Shrunk o (o.releaseCrew id holds) := by
  have herase := o.shrunk_erase id
  cases holds with
  | none => exact herase.trans (shrunk_compactEnded _)
  | some p =>
    have hpurge : Shrunk o ({ o with crews := o.crews.erase id }.purgeEnded p) :=
      ⟨herase.crews, rfl, rfl, rfl, rfl⟩
    exact hpurge.trans (shrunk_compactEnded _)

variable {o}

/-- A release leaves no slot in the crew's arena, and the others in order. -/
theorem sublist_releaseCrew (hhead : o.endedHead ≤ o.ended.length) (holds : Option (Nat → Bool)) :
    (o.releaseCrew id holds).queue.Sublist
      (o.queue.filter fun addr => holds.all fun p => !p addr) := by
  cases holds with
  | none =>
    simp only [Option.all_none, filter_true]
    exact sublist_compactEnded _
  | some p =>
    have hpurge := queue_purgeEnded (o := { o with crews := o.crews.erase id }) hhead p
    have hcompact := sublist_compactEnded ({ o with crews := o.crews.erase id }.purgeEnded p)
    rw [hpurge] at hcompact
    exact hcompact

theorem kept_releaseCrew (hhead : o.endedHead ≤ o.ended.length) (holds : Option (Nat → Bool)) :
    Kept o (o.releaseCrew id holds) :=
  kept_of_shrunk (o.shrunk_releaseCrew id holds)
    ((sublist_releaseCrew hhead holds).trans filter_sublist).subset

/-- A new entry points at its own state. -/
theorem points_enter {s : CrewState}
    (hpoints : ({ o with fresh := addr }.setCrew id s).Points addr') :
    addr' = addr ∧ (({ o with fresh := addr }.setCrew id s).states addr').crewId = s.crewId ∨
      o.Points addr' ∧
        (({ o with fresh := addr }.setCrew id s).states addr').crewId =
          (o.states addr').crewId := by
  by_cases heq : addr' = addr
  · exact .inl ⟨heq, by simp [setCrew, heq]⟩
  · refine .inr ⟨?_, by simp [setCrew, heq]⟩
    obtain ⟨id', hl⟩ | hmem := hpoints
    · simp only [setCrew, KeyMap.lookup_set] at hl
      split at hl
      · cases hl
        exact absurd rfl heq
      · exact .inl ⟨id', hl⟩
    · exact .inr hmem

theorem points_registerAt (o : Registry) (hpoints : (o.registerAt addr r id).Points addr') :
    addr' = addr ∧ ((o.registerAt addr r id).states addr').crewId = id ∨
      o.Points addr' ∧ ((o.registerAt addr r id).states addr').crewId =
        (o.states addr').crewId := by
  rw [registerAt_eq] at hpoints ⊢
  obtain hnew | ⟨hold, hcrew⟩ := points_enter hpoints
  · exact .inl hnew
  · obtain ⟨hold, hcrew'⟩ := o.kept_evict addr' hold
    exact .inr ⟨hold, hcrew.trans hcrew'⟩

variable {result : Except CrewError CrewState}

theorem points_finishAt (h : Tied used o) (hfree : used addr = false)
    (hresult : ∀ s, result = .ok s → Final spec.id s)
    (hpoints : (o.finishAt addr spec result).Points addr') :
    addr' = addr ∧ ((o.finishAt addr spec result).states addr').crewId = spec.id ∨
      o.Points addr' ∧
        ((o.finishAt addr spec result).states addr').crewId = (o.states addr').crewId := by
  cases result with
  | error e =>
    exact .inr ((kept_finishError (h.withFresh addr) addr e).1 addr' hpoints)
  | ok s =>
    obtain ⟨hid, -⟩ := hresult s rfl
    have henter := (h.enter hfree hid).unflag spec.id
    have hl : ({ o with fresh := addr }.setCrew spec.id s).crews.lookup spec.id = some addr := by
      simp [setCrew, KeyMap.lookup_set]
    have hkept := kept_noteEnded henter.head hl
    obtain ⟨hmid, hcrew⟩ := hkept addr' hpoints
    obtain ⟨heq, hnew⟩ | ⟨hold, hcrew'⟩ := points_enter hmid
    · exact .inl ⟨heq, hcrew.trans (hnew.trans hid)⟩
    · exact .inr ⟨hold, hcrew.trans hcrew'⟩

theorem sublist_finishAt (h : Tied used o) (hfree : used addr = false)
    (hresult : ∀ s, result = .ok s → Final spec.id s) :
    (o.finishAt addr spec result).queue.Sublist (o.queue ++ o.finishEnded addr spec result) := by
  cases result with
  | error e => exact (kept_finishError (h.withFresh addr) addr e).2
  | ok s =>
    have henter := (h.enter hfree (hresult s rfl).crewId).unflag spec.id
    exact sublist_noteEnded henter.head addr

end Registry

/-! ### The lifecycle -/

/-- Arena `a` is held for a crew under `id`, which is not released. -/
def Life.HeldFor (c : Life) (a : Nat) (id : String) : Prop :=
  ∃ k crew, c.held a = some k ∧ c.crews k = some crew ∧ crew.arena = some a ∧
    crew.released = false ∧ crew.spec.id = id

/-- What holds of every reachable configuration. -/
structure Lived (home : Nat → Option Nat) (c : Life) : Prop where
  counts : Counts c
  tied : c.reg.Tied c.used
  /-- What has been evicted, and then what is queued, ended in this order. -/
  order : (c.evicted ++ c.reg.queue.map c.born).Sublist c.ended
  /-- What points into an arena points at a state of the crew it is held for. -/
  owned : ∀ addr a, c.reg.Points addr → home addr = some a →
    c.HeldFor a (c.reg.states addr).crewId

theorem lived_start : Lived home {} where
  counts := counts_start
  tied := tied_start
  order := .refl _
  owned := by
    rintro addr a (⟨id, hl⟩ | hmem)
    · cases hl
    · cases hmem

section Holding

variable {k : Nat} {crew : Crew}

theorem Life.HeldFor.create {arena : Option Nat} (hnew : c.crews k = none)
    (hfree : ∀ a, arena = some a → c.held a = none) (h : c.HeldFor a id) :
    ({ c with held := arena.elim c.held fun a => update c.held a (some k) }.setCrew k
      { spec, arena }).HeldFor a id := by
  obtain ⟨k', crew', hheld, hcrew, hrest⟩ := h
  have hne : k' ≠ k := by
    rintro rfl
    rw [hnew] at hcrew
    cases hcrew
  exact ⟨k', crew', held_create hfree hheld, (update_of_ne hne ..).trans hcrew, hrest⟩

/-- The count of a crew is no part of what it holds. -/
theorem Life.HeldFor.count (hcrew : c.crews k = some crew) (runs : Nat)
    (h : c.HeldFor a id) : (c.setCrew k { crew with runs }).HeldFor a id := by
  obtain ⟨k', crew', hheld, hcrew', hrest⟩ := h
  by_cases heq : k' = k
  · rw [heq, hcrew] at hcrew'
    cases hcrew'
    exact ⟨k, _, heq ▸ hheld, update_self .., hrest⟩
  · exact ⟨k', crew', hheld, (update_of_ne heq ..).trans hcrew', hrest⟩

/-- The arena of a run in flight is held for its crew. -/
theorem Counts.heldFor (h : Counts c) {stage : Stage} (hrun : c.runs r = some ⟨k, stage⟩)
    (hstage : stage ≠ .gone) (hcrew : c.crews k = some crew) (harena : crew.arena = some a) :
    c.HeldFor a crew.spec.id := by
  have hlive := h.live hrun hstage hcrew
  exact ⟨k, crew, h.holds k crew a hcrew harena hlive, hcrew, harena, hlive, rfl⟩

end Holding

namespace Lived

variable (h : Lived home c)
include h

theorem owned_kept {o : Registry} (hkept : c.reg.Kept o)
    (hpoints : o.Points addr) (hhome : home addr = some a) :
    c.HeldFor a (o.states addr).crewId := by
  obtain ⟨hold, hcrew⟩ := hkept addr hpoints
  rw [hcrew]
  exact h.owned addr a hold hhome

theorem owned_new {k : Nat} {stage : Stage}
    (hrun : c.runs r = some ⟨k, stage⟩) (hstage : stage ≠ .gone)
    (hcrew : c.crews k = some crew) (harena : home addr = crew.arena)
    (hpoints : addr' = addr ∧ id = crew.spec.id ∨
      c.reg.Points addr' ∧ id = (c.reg.states addr').crewId)
    (hhome : home addr' = some a) : c.HeldFor a id := by
  obtain ⟨rfl, rfl⟩ | ⟨hold, rfl⟩ := hpoints
  · exact h.counts.heldFor hrun hstage hcrew (harena.symm.trans hhome)
  · exact h.owned addr' a hold hhome

/-- After a release nothing points into the crew's arena. -/
theorem purged {k : Nat} (hcrew : c.crews k = some crew)
    (harena : crew.arena = some a) (hlive : crew.released = false)
    (hpoints : (c.reg.releaseCrew crew.spec.id
      (crew.arena.map fun a addr => decide (home addr = some a))).Points addr) :
    home addr ≠ some a := by
  intro hhome
  have hkept := kept_releaseCrew h.tied.head _ addr hpoints
  obtain ⟨k', crew', hheld, hcrew', -, -, hid⟩ := h.owned addr a hkept.1 hhome
  have hholds := h.counts.holds k crew a hcrew harena hlive
  obtain ⟨rfl, rfl⟩ := Life.holder_unique hheld hholds hcrew' hcrew
  obtain ⟨id, hl⟩ | hmem := hpoints
  · rw [crews_releaseCrew, KeyMap.lookup_erase, Option.ite_none_left_eq_some] at hl
    exact hl.1 ((h.tied.entry id addr hl.2).symm.trans hid.symm)
  · have hslot := of_mem_filter ((sublist_releaseCrew h.tied.head _).subset hmem)
    simp [harena, hhome] at hslot

/-- Nothing points into the arena of a crew that is released. -/
theorem clear {k : Nat} (hcrew : c.crews k = some crew)
    (hreleased : crew.released = true) (hheld : c.held a = some k) (hpoints : c.reg.Points addr) :
    home addr ≠ some a := by
  intro hhome
  obtain ⟨k', crew', hheld', hcrew', -, hlive, -⟩ := h.owned addr a hpoints hhome
  obtain ⟨rfl, rfl⟩ := Life.holder_unique hheld' hheld hcrew' hcrew
  rw [hreleased] at hlive
  cases hlive

/-- A step keeps the ties. -/
theorem keep_tied (ht : LifeTrans home c act c') : c'.reg.Tied c'.used := by
  cases ht with
  | created | begun | left | ran | refused => exact h.tied
  | registered _ _ hfree => exact h.tied.registerAt hfree.1
  | abandoned => exact h.tied.unflag _
  | advanced => exact h.tied.advance _ _ _ (.inl rfl)
  | finished hrun hcrew hfree => exact h.tied.finishAt hfree.1 (h.counts.final _ _ _ _ _ hrun hcrew)
  | cancelled => exact h.tied.cancelCrew _
  | forgotten => exact h.tied.forgetCrew _
  | released _ _ hflag => exact h.tied.releaseCrew hflag _
  | gaveBack hcrew _ hreleased hheld =>
    exact h.tied.scrub (fun id addr hl => h.clear hcrew hreleased hheld (.inl ⟨id, hl⟩))
      fun addr hmem => h.clear hcrew hreleased hheld (.inr hmem)

/-- The states that are there keep their numbers. -/
theorem map_born_use (hfree : c.used addr = false) {queue : List Nat} (hsub : queue ⊆ c.reg.queue) :
    queue.map (c.use addr).born = queue.map c.born := by
  refine map_congr_left fun addr' hmem => update_of_ne ?_ ..
  exact ne_of_used hfree (h.tied.slot addr' (hsub hmem))

/-- The queue stays in the order of the endings. -/
theorem keep_order (ht : LifeTrans home c act c') :
    (c'.evicted ++ c'.reg.queue.map c'.born).Sublist c'.ended := by
  have hlong : ∀ {queue ends : List Nat} {born : Nat → Nat}, queue.Sublist (c.reg.queue ++ ends) →
      c.reg.queue.map born = c.reg.queue.map c.born →
      (c.evicted ++ queue.map born).Sublist (c.ended ++ ends.map born) := by
    intro queue ends born hsub hborn
    have happend := (hsub.map born).append_left c.evicted
    rw [map_append, hborn, ← append_assoc] at happend
    exact happend.trans (h.order.append_right (ends.map born))
  have hshort : ∀ {queue : List Nat}, queue.Sublist c.reg.queue →
      (c.evicted ++ queue.map c.born).Sublist c.ended :=
    fun hsub => ((hsub.map c.born).append_left c.evicted).trans h.order
  cases ht with
  | created | begun | left | ran | refused | abandoned | gaveBack => exact h.order
  | @registered r addr k crew _ _ hfree =>
    have hevict := hshort c.reg.sublist_evict
    have hsub := (sublist_append_right c.reg.evicted c.reg.evict.queue).trans c.reg.sublist_evict
    rw [map_append, ← append_assoc, ← h.map_born_use hfree.1 hsub.subset] at hevict
    simp only [Life.setStage, registerAt_eq]
    exact hevict
  | advanced =>
    refine hshort ?_
    rw [Life.setStage, queue_advance]
  | finished hrun hcrew hfree =>
    exact hlong (sublist_finishAt h.tied hfree.1 (h.counts.final _ _ _ _ _ hrun hcrew))
      (h.map_born_use hfree.1 (List.Subset.refl _))
  | cancelled => exact hlong (kept_cancelCrew h.tied).2 rfl
  | forgotten => exact hshort (c.reg.kept_forgetCrew _).2
  | released =>
    exact hshort ((sublist_releaseCrew h.tied.head _).trans filter_sublist)

/-- A step leaves no state without an owner. -/
theorem keep_owned (ht : LifeTrans home c act c') (addr a : Nat)
    (hpoints : c'.reg.Points addr) (hhome : home addr = some a) :
    c'.HeldFor a (c'.reg.states addr).crewId := by
  cases ht with
  | created hnew hfree => exact (h.owned addr a hpoints hhome).create hnew hfree
  | begun _ hcrew | left _ hcrew => exact (h.owned addr a hpoints hhome).count hcrew _
  | ran | refused | abandoned => exact h.owned addr a hpoints hhome
  | registered hrun hcrew hfree =>
    exact h.owned_new hrun Stage.noConfusion hcrew hfree.2 (c.reg.points_registerAt hpoints) hhome
  | finished hrun hcrew hfree =>
    have hfinal := h.counts.final _ _ _ _ _ hrun hcrew
    exact h.owned_new hrun Stage.noConfusion hcrew hfree.2
      (points_finishAt h.tied hfree.1 hfinal hpoints) hhome
  | advanced => exact h.owned_kept (c.reg.kept_advance _ _ _) hpoints hhome
  | cancelled => exact h.owned_kept (kept_cancelCrew h.tied).1 hpoints hhome
  | forgotten => exact h.owned_kept (c.reg.kept_forgetCrew _).1 hpoints hhome
  | @released k crew hcrew hlive =>
    obtain ⟨hold, hid⟩ := kept_releaseCrew h.tied.head _ addr hpoints
    obtain ⟨k', crew', hheld, hcrew', harena, hrest⟩ := h.owned addr a hold hhome
    have hne : k' ≠ k := by
      rintro rfl
      obtain rfl : crew' = crew := Option.some_inj.1 (hcrew'.symm.trans hcrew)
      exact h.purged hcrew harena hlive hpoints hhome
    refine ⟨k', crew', hheld, (update_of_ne hne ..).trans hcrew', harena, hrest.1, ?_⟩
    exact hrest.2.trans hid.symm
  | @gaveBack k a' crew hcrew _ hreleased hheld =>
    have hclear := h.clear hcrew hreleased hheld hpoints
    obtain ⟨k', crew', hheld', hrest⟩ := h.owned addr a hpoints hhome
    have hne : a ≠ a' := by
      rintro rfl
      exact hclear hhome
    simp only [if_neg hclear]
    exact ⟨k', crew', (update_of_ne hne ..).trans hheld', hrest⟩

/-- A step keeps it. -/
theorem keep (hstep : (lifecycle home).step c act = some c') : Lived home c' :=
  have ht := lifeStep_trans hstep
  ⟨h.counts.keep ht, h.keep_tied ht, h.keep_order ht, h.keep_owned ht⟩

end Lived

/-- **Every history keeps the registry tied to its memory.** -/
theorem lived {acts : List LifeAct} (h : (lifecycle home).exec {} acts = some c) : Lived home c :=
  (lifecycle home).exec_invariant lived_start (fun _ _ _ h hstep => h.keep hstep) h

end Agnosai.Orchestrator
