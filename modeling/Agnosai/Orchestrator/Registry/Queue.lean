import Agnosai.Orchestrator.Registry.Cancel
import Agnosai.Orchestrator.Registry.Lifecycle

/-!
# Orchestrator — Registry — Queue

What ties the ended queue to the registry and the flags (`Tied`). A slot may go stale, but a live
one is of a crew that has ended and that no runner holds. So what eviction pops is either stale or
may go, and a crew with a flag stays. An eviction pass is a run of pops (`Popped`).
-/

namespace Agnosai.Orchestrator

open KeyMap Function Registry List Option

variable {addr' : Nat}

namespace Registry

variable {used : Nat → Bool} {o o' : Registry} {addr r : Nat} {id : String}

/-- The queue, the registry and the flags, over the memory in use. -/
structure Tied (used : Nat → Bool) (o : Registry) : Prop where
  head : o.endedHead ≤ o.ended.length
  entry : ∀ id addr, o.crews.lookup id = some addr → (o.states addr).crewId = id
  inUse : ∀ id addr, o.crews.lookup id = some addr → used addr = true
  slot : ∀ addr ∈ o.queue, used addr = true
  flagged : ∀ id r, o.cancel.lookup id = some r → (o.crews.lookup id).isSome
  /-- A live slot is of a crew that no runner holds. -/
  unheld : ∀ addr ∈ o.queue, o.isCurrent addr → o.cancel.lookup (o.states addr).crewId = none
  finished : ∀ addr ∈ o.queue, o.isCurrent addr → isFinished (o.states addr)

theorem tied_start : Tied used {} where
  head := le_rfl
  entry := nofun
  inUse := nofun
  slot := nofun
  flagged := nofun
  unheld := nofun
  finished := nofun

/-- What is in use is not at an address that is free. -/
theorem ne_of_used (hfree : used addr = false) (hused : used addr' = true) : addr' ≠ addr := by
  rintro rfl
  rw [hfree] at hused
  cases hused

theorem isCurrent_iff : o.isCurrent addr ↔ o.crews.lookup (o.states addr).crewId = some addr :=
  decide_eq_true_iff

/-- An entry is its own crew's. -/
theorem Tied.isCurrent (h : Tied used o) (hl : o.crews.lookup id = some addr) :
    o.isCurrent addr := by
  rw [isCurrent_iff, h.entry id addr hl]
  exact hl

/-- A crew with a flag is in the registry. -/
theorem Tied.registered (h : Tied used o) (hflag : (o.cancel.lookup id).isSome) :
    (o.crews.lookup id).isSome := by
  obtain ⟨r, hr⟩ := isSome_iff_exists.1 hflag
  exact h.flagged id r hr

/-! ### Compaction -/

variable (o)

theorem queue_compactEnded :
    o.compactEnded.queue = o.queue ∨ o.compactEnded.queue = o.queue.filter o.isCurrent := by
  unfold compactEnded
  split
  · exact .inl rfl
  · exact .inr rfl

theorem crews_compactEnded : o.compactEnded.crews = o.crews := by
  obtain ⟨_, _, h⟩ := o.compactEnded_eq
  rw [h]

theorem crews_noteEnded : (o.noteEnded addr).crews = o.crews :=
  crews_compactEnded _

theorem sublist_compactEnded : o.compactEnded.queue.Sublist o.queue := by
  obtain h | h := o.queue_compactEnded
  · rw [h]
  · rw [h]
    exact filter_sublist

variable {o}

/-- Compaction drops no live slot. -/
theorem mem_compactEnded (hmem : addr ∈ o.queue) (hcur : o.isCurrent addr) :
    addr ∈ o.compactEnded.queue := by
  obtain h | h := o.queue_compactEnded
  · rwa [h]
  · rw [h]
    exact mem_filter.2 ⟨hmem, hcur⟩

section

variable (hhead : o.endedHead ≤ o.ended.length)
include hhead

theorem queue_append (addr : Nat) :
    { o with ended := o.ended ++ [addr] }.queue = o.queue ++ [addr] :=
  drop_append_of_le_length hhead

theorem sublist_noteEnded (addr : Nat) : (o.noteEnded addr).queue.Sublist (o.queue ++ [addr]) := by
  rw [← queue_append hhead]
  exact sublist_compactEnded _

/-- What is queued stays if it is live, and so do the live slots before it. -/
theorem mem_noteEnded
    (hmem : addr' ∈ o.queue ++ [addr]) (hcur : o.isCurrent addr') :
    addr' ∈ (o.noteEnded addr).queue :=
  mem_compactEnded (by rwa [queue_append hhead]) hcur

end

theorem head_compactEnded (h : o.endedHead ≤ o.ended.length) :
    o.compactEnded.endedHead ≤ o.compactEnded.ended.length := by
  unfold compactEnded
  split
  · exact h
  · exact Nat.zero_le _

/-! ### The sections keep the tie -/

/-- Slots may go, and so may entries of crews that no runner holds. -/
theorem Tied.shrink (h : Tied used o) (hhead : o'.endedHead ≤ o'.ended.length)
    (hqueue : o'.queue ⊆ o.queue)
    (hcrews : ∀ id, o'.crews.lookup id = o.crews.lookup id ∨
      o'.crews.lookup id = none ∧ o.cancel.lookup id = none)
    (hcancel : o'.cancel = o.cancel) (hstates : o'.states = o.states) : Tied used o' := by
  have hsome : ∀ id addr, o'.crews.lookup id = some addr → o.crews.lookup id = some addr := by
    intro id addr hl
    obtain heq | ⟨hnone, -⟩ := hcrews id
    · rwa [← heq]
    · rw [hl] at hnone
      cases hnone
  have hcurrent : ∀ addr, o'.isCurrent addr → o.isCurrent addr := by
    intro addr hcur
    rw [isCurrent_iff, hstates] at hcur
    exact isCurrent_iff.2 (hsome _ _ hcur)
  refine ⟨hhead, ?_, ?_, ?_, ?_, ?_, ?_⟩
  · intro id addr hl
    rw [hstates]
    exact h.entry id addr (hsome id addr hl)
  · exact fun id addr hl => h.inUse id addr (hsome id addr hl)
  · exact fun addr hmem => h.slot addr (hqueue hmem)
  · intro id r hr
    rw [hcancel] at hr
    obtain heq | ⟨-, hnone⟩ := hcrews id
    · rw [heq]
      exact h.flagged id r hr
    · rw [hr] at hnone
      cases hnone
  · intro addr hmem hcur
    rw [hcancel, hstates]
    exact h.unheld addr (hqueue hmem) (hcurrent addr hcur)
  · intro addr hmem hcur
    rw [hstates]
    exact h.finished addr (hqueue hmem) (hcurrent addr hcur)

theorem Tied.compactEnded (h : Tied used o) : Tied used o.compactEnded := by
  obtain ⟨ended, endedHead, heq⟩ := o.compactEnded_eq
  have hsub := o.sublist_compactEnded.subset
  have hhead := head_compactEnded h.head
  rw [heq] at hsub hhead ⊢
  exact h.shrink hhead hsub (fun _ => .inl rfl) rfl rfl

/-- The entry of a crew that has ended and has no flag may be queued. -/
theorem Tied.noteEnded (h : Tied used o) (hl : o.crews.lookup id = some addr)
    (hnone : o.cancel.lookup id = none) (hfin : isFinished (o.states addr)) :
    Tied used (o.noteEnded addr) := by
  have hqueue := queue_append h.head addr
  refine Tied.compactEnded ⟨?_, h.entry, h.inUse, ?_, h.flagged, ?_, ?_⟩
  · rw [length_append]
    exact h.head.trans (Nat.le_add_right _ _)
  all_goals
    intro addr' hmem
    rw [hqueue, mem_append, mem_singleton] at hmem
    obtain hold | rfl := hmem
  · exact h.slot addr' hold
  · exact h.inUse id addr' hl
  · exact h.unheld addr' hold
  · rw [h.entry id addr' hl]
    exact fun _ => hnone
  · exact h.finished addr' hold
  · exact fun _ => hfin

theorem crewId_withStatus (o : Registry) (addr : Nat) (status : CrewStatus) (addr' : Nat) :
    ((o.withStatus addr status).states addr').crewId = (o.states addr').crewId := by
  by_cases heq : addr' = addr
  · simp [withStatus, heq]
  · simp [withStatus, heq]

section

variable (h : Tied used o)
include h

/-- The status of an entry that has not ended may change: it has no slot. -/
theorem Tied.withStatus (hl : o.crews.lookup id = some addr)
    (hfin : isFinished (o.states addr) = false) (status : CrewStatus) :
    Tied used (o.withStatus addr status) := by
  have hcrew := o.crewId_withStatus addr status
  have hcur : ∀ addr', (o.withStatus addr status).isCurrent addr' → o.isCurrent addr' := by
    intro addr' hcur
    rw [isCurrent_iff, hcrew] at hcur
    exact isCurrent_iff.2 hcur
  refine ⟨h.head, ?_, h.inUse, h.slot, h.flagged, ?_, ?_⟩
  · intro id addr' hl
    rw [hcrew]
    exact h.entry id addr' hl
  · intro addr' hmem hcur'
    rw [hcrew]
    exact h.unheld addr' hmem (hcur addr' hcur')
  · intro addr' hmem hcur'
    have hbefore := h.finished addr' hmem (hcur addr' hcur')
    have hne : addr' ≠ addr := by
      rintro rfl
      rw [hfin] at hbefore
      cases hbefore
    simpa only [Registry.withStatus, update_of_ne hne] using hbefore

/-- A flag goes. -/
theorem Tied.unflag (id : String) : Tied used { o with cancel := o.cancel.erase id } := by
  have hsome : ∀ id' r, (o.cancel.erase id).lookup id' = some r → o.cancel.lookup id' = some r := by
    intro id' r hr
    rw [lookup_erase, ite_none_left_eq_some] at hr
    exact hr.2
  refine ⟨h.head, h.entry, h.inUse, h.slot, fun id' r hr => h.flagged id' r (hsome id' r hr), ?_,
    h.finished⟩
  intro addr hmem hcur
  rw [eq_none_iff_forall_ne_some]
  intro r hr
  have hnone := h.unheld addr hmem hcur
  rw [hsome _ r hr] at hnone
  cases hnone

/-- The entry of a crew gets a flag, if it has no slot. -/
theorem Tied.flag (hl : o.crews.lookup id = some addr) (hslot : addr ∉ o.queue)
    (r : Nat) (flags : Nat → Bool) : Tied used { o with cancel := o.cancel.set id r, flags } := by
  refine ⟨h.head, h.entry, h.inUse, h.slot, ?_, ?_, h.finished⟩
  · intro id' r' hr
    rw [lookup_set] at hr
    split at hr
    next heq =>
      rw [heq, hl]
      rfl
    · exact h.flagged id' r' hr
  · intro addr' hmem hcur
    rw [lookup_set, if_neg]
    · exact h.unheld addr' hmem hcur
    · intro (heq : (o.states addr').crewId = id)
      have hcur' : o.crews.lookup (o.states addr').crewId = some addr' := isCurrent_iff.1 hcur
      rw [heq, hl] at hcur'
      cases hcur'
      exact hslot hmem

/-- A new entry makes no slot live. -/
theorem Tied.isCurrent_enter (hfree : used addr = false) {s : CrewState}
    (hmem : addr' ∈ o.queue) (hcur : ({ o with fresh := addr }.setCrew id s).isCurrent addr') :
    o.isCurrent addr' := by
  have hne := ne_of_used hfree (h.slot addr' hmem)
  rw [isCurrent_iff] at hcur ⊢
  simp only [setCrew, update_of_ne hne, lookup_set] at hcur
  split at hcur
  · cases hcur
    exact absurd rfl hne
  · exact hcur

/-- A state at an address that was not in use becomes the entry of its crew. -/
theorem Tied.enter (hfree : used addr = false) {s : CrewState} (hs : s.crewId = id) :
    Tied (update used addr true) ({ o with fresh := addr }.setCrew id s) := by
  have hnew : ∀ addr', used addr' = true → addr' ≠ addr := fun _ => ne_of_used hfree
  refine ⟨h.head, ?_, ?_, ?_, ?_, ?_, ?_⟩
  · intro id' addr' hl
    simp only [setCrew, lookup_set] at hl ⊢
    split at hl
    next heq =>
      cases hl
      rw [update_self, hs, heq]
    · rw [update_of_ne (hnew addr' (h.inUse id' addr' hl))]
      exact h.entry id' addr' hl
  · intro id' addr' hl
    simp only [setCrew, lookup_set] at hl
    split at hl
    · cases hl
      exact update_self ..
    · have hused := h.inUse id' addr' hl
      rwa [update_of_ne (hnew addr' hused)]
  · intro addr' hmem
    have hused := h.slot addr' hmem
    rwa [update_of_ne (hnew addr' hused)]
  · intro id' r hr
    simp only [setCrew, lookup_set]
    split
    · rfl
    · exact h.flagged id' r hr
  · intro addr' hmem hcur'
    have hne := hnew addr' (h.slot addr' hmem)
    simp only [setCrew, update_of_ne hne]
    exact h.unheld addr' hmem (h.isCurrent_enter hfree hmem hcur')
  · intro addr' hmem hcur'
    have hne := hnew addr' (h.slot addr' hmem)
    simp only [setCrew, update_of_ne hne]
    exact h.finished addr' hmem (h.isCurrent_enter hfree hmem hcur')

/-! ### Runs -/

theorem Tied.notMem_queue (hfree : used addr = false) : addr ∉ o.queue :=
  fun hmem => ne_of_used hfree (h.slot addr hmem) rfl

theorem Tied.advance (id : String) (source target : CrewStatus)
    (hsource : source = .pending ∨ source = .running) : Tied used (o.advance id source target) := by
  unfold Registry.advance
  split
  · exact h
  next hl =>
    split
    next hstatus =>
      refine h.withStatus hl ?_ target
      obtain rfl | rfl := hsource <;> simp [isFinished, hstatus]
    · exact h

end

theorem crews_advance (source target : CrewStatus) :
    (o.advance id source target).crews = o.crews := by
  obtain h | ⟨addr, h⟩ := o.advance_eq source target <;> rw [h]
  rfl

theorem queue_advance (source target : CrewStatus) :
    (o.advance id source target).queue = o.queue := by
  obtain h | ⟨addr, h⟩ := o.advance_eq source target <;> rw [h]
  rfl

theorem Tied.finishError (h : Tied used o) : Tied used (o.finishError id) := by
  have hadv := (h.advance id .running .pending (.inr rfl)).unflag id
  unfold Registry.finishError
  simp only
  split
  · exact hadv
  next hl =>
    split
    next hfin =>
      exact hadv.noteEnded hl (lookup_erase_self _ id) hfin
    · exact hadv

/-- The state of a run that has ended, as its crew's. -/
structure Final (id : String) (s : CrewState) : Prop where
  crewId : s.crewId = id
  finished : isFinished s

section

variable (h : Tied used o)
include h

/-- More memory may be in use. -/
theorem Tied.mono {used' : Nat → Bool} (hle : ∀ addr, used addr = true → used' addr = true) :
    Tied used' o :=
  ⟨h.head, h.entry, fun id addr hl => hle addr (h.inUse id addr hl),
    fun addr hmem => hle addr (h.slot addr hmem), h.flagged, h.unheld, h.finished⟩

/-- Where the next state goes is not tied. -/
theorem Tied.withFresh (addr : Nat) : Tied used { o with fresh := addr } :=
  ⟨h.head, h.entry, h.inUse, h.slot, h.flagged, h.unheld, h.finished⟩

/-- Finishing a crew keeps the ties. -/
theorem Tied.finishAt (hfree : used addr = false) {spec : CrewSpec}
    {result : Except CrewError CrewState} (hresult : ∀ s, result = .ok s → Final spec.id s) :
    Tied (update used addr true) (o.finishAt addr spec result) := by
  cases result with
  | error =>
    refine ((h.withFresh addr).finishError).mono fun addr' hused => ?_
    by_cases heq : addr' = addr
    · rw [heq, update_self]
    · rwa [update_of_ne heq]
  | ok s =>
    obtain ⟨hid, hfin⟩ := hresult s rfl
    have henter := (h.enter hfree hid).unflag spec.id
    refine henter.noteEnded ?_ (lookup_erase_self _ spec.id) ?_
    · simp [setCrew, lookup_set]
    · simpa [setCrew] using hfin

/-! ### Cancelling and forgetting -/

theorem Tied.cancelCrew (id : String) : Tied used (o.cancelCrew id).2 := by
  unfold Registry.cancelCrew
  split
  · exact h
  next hl =>
    split
    · exact h
    next hfin =>
      have hstatus := h.withStatus hl (Bool.eq_false_iff.2 hfin) .cancelled
      split
      · exact ⟨hstatus.head, hstatus.entry, hstatus.inUse, hstatus.slot, hstatus.flagged,
          hstatus.unheld, hstatus.finished⟩
      next hnone =>
        exact hstatus.noteEnded hl hnone (by simp [Registry.withStatus, isFinished])

theorem Tied.erase (hnone : o.cancel.lookup id = none) :
    Tied used { o with crews := o.crews.erase id } := by
  refine h.shrink h.head (List.Subset.refl _) (fun id' => ?_) rfl rfl
  by_cases heq : id' = id
  · exact .inr ⟨by rw [heq, lookup_erase_self], by rw [heq, hnone]⟩
  · exact .inl (lookup_erase_of_ne _ heq)

theorem Tied.forgetCrew (id : String) : Tied used (o.forgetCrew id).2 := by
  unfold Registry.forgetCrew
  split
  · exact h
  · split
    · exact h
    next hflag =>
      exact (h.erase (not_isSome_iff_eq_none.1 hflag)).compactEnded

end

/-! ### Releasing -/

section

variable (h : o.endedHead ≤ o.ended.length)
include h

theorem purgeEnded_eq (holds : Nat → Bool) : o.purgeEnded holds =
      { o with ended := o.ended.take o.endedHead ++ o.queue.filter fun addr => !holds addr } := by
  rw [purgeEnded, slide_eq h le_rfl]
  rfl

theorem head_purgeEnded (holds : Nat → Bool) :
    (o.purgeEnded holds).endedHead ≤ (o.purgeEnded holds).ended.length := by
  rw [purgeEnded_eq h, length_append, length_take]
  simp only
  omega

/-- A purge drops the slots in the arena, and keeps the others in order. -/
theorem queue_purgeEnded (holds : Nat → Bool) :
    (o.purgeEnded holds).queue = o.queue.filter fun addr => !holds addr := by
  have hlength : (o.ended.take o.endedHead).length = o.endedHead := by
    rw [length_take]
    omega
  rw [purgeEnded_eq h, queue]
  rw [drop_append_of_le_length hlength.ge, drop_eq_nil_of_le hlength.le, nil_append]

end

theorem Tied.purgeEnded (h : Tied used o) (holds : Nat → Bool) :
    Tied used (o.purgeEnded holds) := by
  refine h.shrink (head_purgeEnded h.head holds) ?_ (fun _ => .inl rfl) rfl rfl
  rw [queue_purgeEnded h.head]
  exact filter_subset_self _

theorem Tied.releaseCrew (h : Tied used o) (hnone : o.cancel.lookup id = none)
    (holds : Option (Nat → Bool)) : Tied used (o.releaseCrew id holds) := by
  have herase := h.erase hnone
  cases holds with
  | none => exact herase.compactEnded
  | some holds => exact (herase.purgeEnded holds).compactEnded

/-- An arena that no entry and no slot is in may be scrubbed. -/
theorem Tied.scrub (h : Tied used o) {home : Nat → Option Nat} {a : Nat}
    (hentry : ∀ id addr, o.crews.lookup id = some addr → home addr ≠ some a)
    (hslot : ∀ addr ∈ o.queue, home addr ≠ some a) :
    Tied (fun addr => used addr && decide (home addr ≠ some a))
      { o with states := fun addr => if home addr = some a then scrubbed else o.states addr } := by
  have hcur : ∀ addr ∈ o.queue,
      ({ o with states := fun addr => if home addr = some a then scrubbed else o.states addr } :
        Registry).isCurrent addr → o.isCurrent addr := by
    intro addr hmem hcur
    rw [isCurrent_iff] at hcur ⊢
    simpa only [if_neg (hslot addr hmem)] using hcur
  refine ⟨h.head, ?_, ?_, ?_, h.flagged, ?_, ?_⟩
  · intro id addr hl
    simp only [if_neg (hentry id addr hl)]
    exact h.entry id addr hl
  · intro id addr hl
    simp [h.inUse id addr hl, hentry id addr hl]
  · intro addr hmem
    simp [h.slot addr hmem, hslot addr hmem]
  · intro addr hmem hcur'
    simp only [if_neg (hslot addr hmem)]
    exact h.unheld addr hmem (hcur addr hmem hcur')
  · intro addr hmem hcur'
    simp only [if_neg (hslot addr hmem)]
    exact h.finished addr hmem (hcur addr hmem hcur')

/-! ### Eviction -/

/-- A turn of the loop of `_agnosai_orch_evict_locked`: the first slot is popped, and its crew goes
if it is live. -/
def pop (o : Registry) (addr : Nat) : Registry :=
  { o with
    endedHead := o.endedHead + 1
    crews := if o.isCurrent addr then o.crews.erase (o.states addr).crewId else o.crews }

/-- A pass of the loop from `o`, with so many flags: the states it evicts, in order, and where it
stands. -/
inductive Popped (held : Nat) (o : Registry) : List Nat → Registry → Prop where
  | start : Popped held o [] o
  | stale {gone : List Nat} {o' : Registry} {addr : Nat} {rest : List Nat}
      (h : Popped held o gone o')
      (hqueue : o'.queue = addr :: rest) (hmore : crewsLowWater < o'.crews.size - held)
      (hcur : o'.isCurrent addr = false) : Popped held o gone (o'.pop addr)
  | live {gone : List Nat} {o' : Registry} {addr : Nat} {rest : List Nat}
      (h : Popped held o gone o')
      (hqueue : o'.queue = addr :: rest) (hmore : crewsLowWater < o'.crews.size - held)
      (hcur : o'.isCurrent addr = true) : Popped held o (gone ++ [addr]) (o'.pop addr)

theorem queue_pop {rest : List Nat} (hqueue : o.queue = addr :: rest) :
    (o.pop addr).queue = rest := by
  have hdrop : (o.pop addr).queue = o.queue.drop 1 := drop_drop.symm
  rw [hdrop, hqueue]
  rfl

/-- The loop is such a pass, and stops at the mark or at the end of the queue. -/
theorem evictLoop_popped (held : Nat) {gone : List Nat} {o' : Registry}
    (h : Popped held o gone o') :
    Popped held o (gone ++ evictedLoop held o'.queue o') (evictLoop held o'.queue o') ∧
      ((evictLoop held o'.queue o').queue = [] ∨
        (evictLoop held o'.queue o').crews.size - held ≤ crewsLowWater) := by
  generalize hqueue : o'.queue = queue
  induction queue generalizing gone o' with
  | nil =>
    rw [evictedLoop, evictLoop, append_nil]
    exact ⟨h, .inl hqueue⟩
  | cons addr rest ih =>
    rw [evictedLoop, evictLoop]
    by_cases hmore : crewsLowWater < o'.crews.size - held
    · rw [if_pos hmore, if_pos hmore]
      cases hcur : o'.isCurrent addr with
      | true =>
        have hih := ih (h.live hqueue hmore hcur) (queue_pop hqueue)
        simp only [pop, hcur, if_true, append_assoc, singleton_append] at hih
        exact hih
      | false =>
        have hih := ih (h.stale hqueue hmore hcur) (queue_pop hqueue)
        simp only [pop, hcur] at hih
        exact hih
    · rw [if_neg hmore, if_neg hmore, append_nil]
      exact ⟨h, .inr (Nat.le_of_not_lt hmore)⟩

section Passes

variable {held : Nat} {gone : List Nat}

theorem crews_pop (o : Registry) (addr : Nat) (id : String) :
    (o.pop addr).crews.lookup id = o.crews.lookup id ∨
      (o.pop addr).crews.lookup id = none ∧ o.isCurrent addr ∧ id = (o.states addr).crewId := by
  unfold pop
  split
  next hcur =>
    by_cases hid : id = (o.states addr).crewId
    · exact .inr ⟨by simp only [hid, lookup_erase_self], hcur, hid⟩
    · exact .inl (lookup_erase_of_ne _ hid)
  · exact .inl rfl

/-- A pop makes nothing current, and not what it pops. -/
theorem isCurrent_pop (h : (o.pop addr).isCurrent addr') : o.isCurrent addr' ∧ addr' ≠ addr := by
  rw [isCurrent_iff] at h
  obtain heq | ⟨hnone, -, -⟩ := o.crews_pop addr (o.states addr').crewId
  · have hcur : o.isCurrent addr' := isCurrent_iff.2 (heq.symm.trans h)
    refine ⟨hcur, ?_⟩
    rintro rfl
    have herased : (o.pop addr').crews.lookup (o.states addr').crewId = none := by
      simp [pop, hcur, lookup_erase_self]
    exact some_ne_none _ (h.symm.trans herased)
  · exact absurd (h.symm.trans hnone) (some_ne_none _)

theorem Tied.pop {rest : List Nat} (h : Tied used o) (hqueue : o.queue = addr :: rest) :
    Tied used (o.pop addr) := by
  have hmem : addr ∈ o.queue := hqueue ▸ mem_cons_self
  refine h.shrink ?_ ?_ (fun id => ?_) rfl rfl
  · show o.endedHead + 1 ≤ o.ended.length
    have hlength := congrArg length hqueue
    rw [queue, length_drop, length_cons] at hlength
    omega
  · rw [queue_pop hqueue, hqueue]
    exact subset_cons_self addr rest
  · obtain heq | ⟨hnone, hcur, rfl⟩ := o.crews_pop addr id
    · exact .inl heq
    · exact .inr ⟨hnone, h.unheld addr hmem hcur⟩

section

variable (h : Popped held o gone o')
include h

/-- What a pass leaves alone. -/
theorem Popped.shrunk : Shrunk o o' := by
  have hpop : ∀ (o : Registry) (addr : Nat), Shrunk o (o.pop addr) := by
    refine fun o addr => ⟨fun id addr' hl => ?_, rfl, rfl, rfl, rfl⟩
    obtain heq | ⟨hnone, -, -⟩ := o.crews_pop addr id
    · rwa [← heq]
    · rw [hl] at hnone
      cases hnone
  induction h with
  | start => exact .refl o
  | stale _ _ _ _ ih => exact ih.trans (hpop _ _)
  | live _ _ _ _ ih => exact ih.trans (hpop _ _)

theorem Popped.tied (htied : Tied used o) : Tied used o' := by
  induction h with
  | start => exact htied
  | stale _ hqueue _ _ ih => exact ih.pop hqueue
  | live _ hqueue _ _ ih => exact ih.pop hqueue

/-- A pass evicts from the front. -/
theorem Popped.sublist : (gone ++ o'.queue).Sublist o.queue := by
  induction h with
  | start => exact .refl _
  | @stale gone o' addr rest _ hqueue _ _ ih =>
    rw [queue_pop hqueue]
    rw [hqueue] at ih
    exact ((sublist_cons_self addr rest).append_left gone).trans ih
  | @live gone o' addr rest _ hqueue _ _ ih =>
    rwa [queue_pop hqueue, append_assoc, singleton_append, ← hqueue]

/-- A live slot has not been popped. -/
theorem Popped.mem_queue {addr : Nat} (hmem : addr ∈ o.queue)
    (hcur : o'.isCurrent addr) : addr ∈ o'.queue := by
  induction h with
  | start => exact hmem
  | stale _ hqueue _ _ ih | live _ hqueue _ _ ih =>
    obtain ⟨hcur', hne⟩ := isCurrent_pop hcur
    have hmem' := ih hcur'
    rw [hqueue, mem_cons] at hmem'
    rw [queue_pop hqueue]
    exact hmem'.resolve_left hne

/-- Where a pass stood when it evicted. -/
theorem Popped.split {before after : List Nat} {addr : Nat}
    (hgone : gone = before ++ addr :: after) :
    ∃ o₁ rest, Popped held o before o₁ ∧ o₁.queue = addr :: rest ∧
      crewsLowWater < o₁.crews.size - held ∧ o₁.isCurrent addr := by
  induction h generalizing after with
  | start => exact absurd hgone.symm (append_ne_nil_of_right_ne_nil _ (cons_ne_nil _ _))
  | stale _ _ _ _ ih => exact ih hgone
  | @live gone o₁ addr₁ rest hpass hqueue hmore hcur ih =>
    obtain ⟨-, rfl, rfl⟩ | ⟨after', -, hgone⟩ := snoc_eq_append_cons hgone
    · exact ⟨o₁, rest, hpass, hqueue, hmore, hcur⟩
    · exact ih hgone

end

/-- What an eviction comes to. -/
theorem evict_cases :
    (o.crews.size - o.cancel.size < maxRetainedCrews ∧ o.evict = o ∧ o.evicted = []) ∨
    ∃ o', Popped o.cancel.size o o.evicted o' ∧ o.evict = o'.compactEnded ∧
      (o'.queue = [] ∨ o'.crews.size - o.cancel.size ≤ crewsLowWater) := by
  unfold evict evicted
  split
  next hfew =>
    exact .inl ⟨hfew, rfl, rfl⟩
  · obtain ⟨hpass, hstop⟩ := evictLoop_popped o.cancel.size .start
    exact .inr ⟨_, hpass, rfl, hstop⟩

theorem Tied.evict (h : Tied used o) : Tied used o.evict := by
  obtain ⟨-, heq, -⟩ | ⟨o', hpass, heq, -⟩ := evict_cases
  · rwa [heq]
  · rw [heq]
    exact (hpass.tied h).compactEnded

theorem sublist_evict (o : Registry) : (o.evicted ++ o.evict.queue).Sublist o.queue := by
  obtain ⟨-, heq, hgone⟩ | ⟨o', hpass, heq, -⟩ := evict_cases
  · rw [heq, hgone]
    exact .refl _
  · rw [heq]
    exact (o'.sublist_compactEnded.append_left _).trans hpass.sublist

/-- A live slot is still there after an eviction. -/
theorem mem_evict (hmem : addr ∈ o.queue) (hcur : o.evict.isCurrent addr) :
    addr ∈ o.evict.queue := by
  obtain ⟨-, heq, -⟩ | ⟨o', hpass, heq, -⟩ := evict_cases
  · rwa [heq]
  · rw [heq] at hcur ⊢
    have hcur' : o'.isCurrent addr := by
      obtain ⟨_, _, hcompact⟩ := o'.compactEnded_eq
      rw [hcompact] at hcur
      exact hcur
    exact mem_compactEnded (hpass.mem_queue hmem hcur') hcur'

end Passes

/-! ### Registering -/

theorem compactEnded_fresh :
    { o with fresh := addr }.compactEnded = { o.compactEnded with fresh := addr } := by
  by_cases h : o.ended.length - o.endedHead ≤ 2 * o.crews.size + 64 ∧ o.endedHead < 1024
  · simp only [compactEnded, if_pos h]
  · simp only [compactEnded, if_neg h]
    rfl

theorem evictLoop_fresh (held : Nat) (queue : List Nat) (o : Registry) (addr : Nat) :
    evictLoop held queue { o with fresh := addr } =
      { evictLoop held queue o with fresh := addr } := by
  induction queue generalizing o with
  | nil => rfl
  | cons addr' rest ih =>
    by_cases h : crewsLowWater < o.crews.size - held
    · simp only [evictLoop, if_pos h]
      exact ih (o.pop addr')
    · simp only [evictLoop, if_neg h]

/-- Eviction does not look at where the next state goes. -/
theorem evict_fresh : { o with fresh := addr }.evict = { o.evict with fresh := addr } := by
  by_cases h : o.crews.size - o.cancel.size < maxRetainedCrews
  · simp only [evict, if_pos h]
  · simp only [evict, if_neg h, evictLoop_fresh, compactEnded_fresh]

/-- Registering is an eviction, a new entry and its flag. -/
theorem registerAt_eq :
    o.registerAt addr r id =
      { { o.evict with fresh := addr }.setCrew id { crewId := id, status := .pending } with
        cancel := o.evict.cancel.set id r
        flags := update o.evict.flags r false } := by
  rw [registerAt, register, evict_fresh]
  rfl

theorem Tied.registerAt (h : Tied used o) (hfree : used addr = false) :
    Tied (update used addr true) (o.registerAt addr r id) := by
  have henter := h.evict.enter (s := { crewId := id, status := .pending }) hfree rfl
  rw [registerAt_eq]
  refine henter.flag ?_ (h.evict.notMem_queue hfree) r _
  simp [setCrew, lookup_set]

end Registry

end Agnosai.Orchestrator
