import Agnosai.Orchestrator.Approval.Definitions

/-!
# Orchestrator — Approval — Release

What can release a waiter with an approval. `Trans` says once what each atomic step of the gate
does to it; everything after works from that. A decision in a channel's slot was sent there by a
submission that found that channel registered under its task, and a waiter that returns `APPROVED`
took it from its own channel's slot.
-/

namespace Agnosai.Approval

open Function Option

variable {c c' : Config} {a : Act}

/-! ### What a step does -/

/-- The steps of a waiter that change nothing but where it is. -/
inductive Move (c : Config) (ch : Nat) (task : String) : Pc → Pc → Prop where
  | recvEmpty (h : (c.chans ch).slot = none) : Move c ch task .recv .check
  | registered (h : c.pending.lookup task = some ch) : Move c ch task .check .clock
  | dropped (h : c.pending.lookup task ≠ some ch) : Move c ch task .check .last
  | lastEmpty (h : (c.chans ch).slot = none) : Move c ch task .last (.returned .rejected)
  | sleep : Move c ch task .clock .recv
  | late : Move c ch task .clock .expire
  | overtaken (h : c.pending.lookup task ≠ some ch) : Move c ch task .expire (.returned .rejected)

/-- `c` with waiter `w` on channel `ch` at `pc`. -/
def Config.setWaiter (c : Config) (w ch : Nat) (task : String) (pc : Pc) : Config :=
  { c with waiters := update c.waiters w (some { ch := some ch, task, pc }) }

/-- What an action does to the configuration. -/
inductive Trans (c : Config) : Act → Config → Prop where
  | refused {task} (h : maxPending ≤ c.pending.size) : Trans c (.request task) c
  | requested {task} (h : ¬ maxPending ≤ c.pending.size) :
      Trans c (.request task)
        { c with pending := c.pending.set task c.fresh, fresh := c.fresh + 1 }
  | unmatched {task d} (h : c.pending.lookup task = none) : Trans c (.submit task d) c
  | undelivered {task d ch} (h : c.pending.lookup task = some ch)
      (hs : (c.chans ch).trySend d = none) :
      Trans c (.submit task d) { c with pending := c.pending.erase task }
  | delivered {task d ch sent} (h : c.pending.lookup task = some ch)
      (hs : (c.chans ch).trySend d = some sent) :
      Trans c (.submit task d)
        { c with pending := c.pending.erase task, chans := update c.chans ch sent }
  | notCancelled {task} (h : c.pending.lookup task = none) : Trans c (.cancel task) c
  | cancelled {task ch} (h : c.pending.lookup task = some ch) :
      Trans c (.cancel task) { c with pending := c.pending.erase task, closing := ch :: c.closing }
  | closed {ch} (h : ch ∈ c.closing) : Trans c (.close ch) (closeChan c ch)
  | started {w ch task} (h : c.waiters w = none) (hch : ∀ i ∈ ch, i < c.fresh) :
      Trans c (.start w ch task)
        { c with waiters := update c.waiters w (some (.new ch task)) }
  | received {w ch task late pc d} (hw : c.waiters w = some { ch := some ch, task, pc })
      (hpc : pc = .recv ∨ pc = .last) (hs : (c.chans ch).slot = some d) :
      Trans c (.step w late)
        ({ c with chans := update c.chans ch (c.chans ch).taken }.setWaiter w ch task
          (.returned d))
  | moved {w ch task late pc pc'} (hw : c.waiters w = some { ch := some ch, task, pc })
      (hm : Move c ch task pc pc') : Trans c (.step w late) (c.setWaiter w ch task pc')
  | expired {w ch task late} (hw : c.waiters w = some { ch := some ch, task, pc := .expire })
      (hr : c.pending.lookup task = some ch) :
      Trans c (.step w late)
        ({ c with pending := c.pending.erase task }.setWaiter w ch task (.returned .rejected))

/-- A step of `wait` is one of the transitions. -/
theorem waitStep_trans {w ch : Nat} {task : String} {late : Bool} {pc pc' : Pc}
    (hw : c.waiters w = some { ch := some ch, task, pc })
    (h : waitStep c ch task late pc = some (pc', c')) :
    Trans c (.step w late) (c'.setWaiter w ch task pc') := by
  cases pc with
  | recv =>
    simp only [waitStep, receive, some.injEq] at h
    split at h <;> cases h
    · exact .received hw (.inl rfl) ‹_›
    · exact .moved hw (.recvEmpty ‹_›)
  | check =>
    obtain ⟨rfl, rfl⟩ := h
    split
    · exact .moved hw (.registered ‹_›)
    · exact .moved hw (.dropped ‹_›)
  | last =>
    simp only [waitStep, receive, some.injEq] at h
    split at h <;> cases h
    · exact .received hw (.inr rfl) ‹_›
    · exact .moved hw (.lastEmpty ‹_›)
  | clock =>
    obtain ⟨rfl, rfl⟩ := h
    cases late with
    | true => exact .moved hw .late
    | false => exact .moved hw .sleep
  | expire =>
    obtain ⟨rfl, rfl⟩ := h
    split
    · exact .expired hw ‹_›
    · exact .moved hw (.overtaken ‹_›)
  | returned => cases h

/-- **Inversion of a step.** -/
theorem step_trans (h : gate.step c a = some c') : Trans c a c' := by
  cases a with
  | request =>
    simp only [gate, step, request, some.injEq] at h
    split at h <;> cases h
    · exact .refused ‹_›
    · exact .requested ‹_›
  | submit =>
    simp only [gate, step, submitDecision, some.injEq] at h
    split at h
    · cases h
      exact .unmatched ‹_›
    · split at h <;> cases h
      · exact .undelivered ‹_› ‹_›
      · exact .delivered ‹_› ‹_›
  | cancel =>
    simp only [gate, step, cancel, some.injEq] at h
    split at h <;> cases h
    · exact .notCancelled ‹_›
    · exact .cancelled ‹_›
  | close =>
    simp only [gate, step] at h
    split at h <;> cases h
    exact .closed ‹_›
  | start =>
    simp only [gate, step] at h
    split at h <;> cases h
    rename_i hw
    exact .started (isNone_iff_eq_none.1 hw.1) hw.2
  | step =>
    simp only [gate, step] at h
    split at h
    · split at h <;> cases h
      exact waitStep_trans ‹_› ‹_›
    · cases h

/-! ### Where what a step leaves comes from -/

/-- An entry is old or just requested. -/
theorem Trans.registered_from (hstep : Trans c a c') {task : String} {ch : Nat}
    (hl : c'.pending.lookup task = some ch) :
    (c.pending.lookup task = some ch ∧ (a = .request task → maxPending ≤ c.pending.size)) ∨
      a = .request task ∧ ¬ maxPending ≤ c.pending.size ∧ ch = c.fresh ∧
        c'.fresh = c.fresh + 1 := by
  cases hstep with
  | refused hfull => exact .inl ⟨hl, fun _ => hfull⟩
  | requested hroom =>
    obtain ⟨rfl, rfl⟩ | ⟨hne, hl⟩ := KeyMap.lookup_set_eq_some.1 hl
    · exact .inr ⟨rfl, hroom, rfl, rfl⟩
    · exact .inl ⟨hl, fun ha => absurd (Act.request.inj ha).symm hne⟩
  | undelivered | delivered | cancelled | expired =>
    exact .inl ⟨(KeyMap.lookup_erase_eq_some.1 hl).2, nofun⟩
  | unmatched | notCancelled | closed | started | received | moved =>
    exact .inl ⟨hl, nofun⟩

variable {d : Decision}

theorem Chan.trySend_eq_some {k sent : Chan} (h : k.trySend d = some sent) :
    k.closed = false ∧ k.slot = none ∧ sent = { k with slot := some d } := by
  unfold Chan.trySend at h
  split at h
  · cases h
  · simp_all

theorem slot_update (chans : Nat → Chan) (ch' : Nat) (k : Chan) (ch : Nat) :
    (update chans ch' k ch).slot = if ch = ch' then k.slot else (chans ch).slot := by
  rw [update_apply, apply_ite Chan.slot]

/-- A decision in a slot was submitted. -/
theorem Trans.slot_from (hstep : Trans c a c') {ch : Nat} (hs : (c'.chans ch).slot = some d) :
    (c.chans ch).slot = some d ∨
      ∃ task, a = .submit task d ∧ c.pending.lookup task = some ch ∧
        (submitDecision c task d).1 = true := by
  cases hstep with
  | @delivered task d' ch' sent hl hsend =>
    rw [slot_update, (Chan.trySend_eq_some hsend).2.2] at hs
    split at hs
    · obtain rfl : d' = d := some.inj hs
      subst ch'
      exact .inr ⟨task, rfl, hl, by simp only [submitDecision, hl, hsend]⟩
    · exact .inl hs
  | @closed ch' =>
    simp only [closeChan, slot_update] at hs
    split at hs
    · subst ch'
      exact .inl hs
    · exact .inl hs
  | @received w ch' =>
    simp only [Config.setWaiter, slot_update, Chan.taken] at hs
    split at hs
    · cases hs
    · exact .inl hs
  | refused | requested | unmatched | undelivered | notCancelled | cancelled | started | moved
  | expired => exact .inl hs

/-- How a waiter on `ch` for `task` got from one place to the next by the step from `c` to `c'`. -/
inductive Advance (c c' : Config) (ch : Nat) (task : String) : Pc → Pc → Prop where
  | received {pc d} (hpc : pc = .recv ∨ pc = .last) (hs : (c.chans ch).slot = some d)
      (hs' : (c'.chans ch).slot = none) : Advance c c' ch task pc (.returned d)
  | moved {pc pc'} (hm : Move c ch task pc pc') : Advance c c' ch task pc pc'
  | expired (hr : c.pending.lookup task = some ch) (hr' : c'.pending.lookup task = none) :
      Advance c c' ch task .expire (.returned .rejected)

/-- Where a waiter after a step comes from. -/
theorem Trans.waiter_from (hstep : Trans c a c') {w ch : Nat} {task : String} {pc' : Pc}
    (hw : c'.waiters w = some { ch := some ch, task, pc := pc' }) :
    (c.waiters w = some { ch := some ch, task, pc := pc' } ∧ ∀ late, a ≠ .step w late) ∨
      (c.waiters w = none ∧ ch < c.fresh ∧ pc' = .recv ∧ ∀ late, a ≠ .step w late) ∨
      ∃ late pc, a = .step w late ∧ c.waiters w = some { ch := some ch, task, pc } ∧
        Advance c c' ch task pc pc' := by
  cases hstep with
  | @started w' ch' task' hnone hch =>
    by_cases hww : w = w'
    · subst hww
      simp only [update_self, some.injEq, Waiter.new, Waiter.mk.injEq] at hw
      obtain ⟨rfl, rfl, rfl⟩ := hw
      exact .inr (.inl ⟨hnone, hch ch rfl, rfl, nofun⟩)
    · simp only [update_of_ne hww] at hw
      exact .inl ⟨hw, nofun⟩
  | @received w' ch' task' late pc d hw' hpc hs =>
    obtain ⟨rfl, ⟨⟩⟩ | ⟨hww, hw⟩ := update_eq_some.1 hw
    · exact .inr
        (.inr ⟨late, pc, rfl, hw', .received hpc hs (by simp [Config.setWaiter, Chan.taken])⟩)
    · exact .inl ⟨hw, fun _ h => hww (Act.step.inj h).1.symm⟩
  | @moved w' ch' task' late pc pc' hw' hm =>
    obtain ⟨rfl, ⟨⟩⟩ | ⟨hww, hw⟩ := update_eq_some.1 hw
    · exact .inr (.inr ⟨late, pc, rfl, hw', .moved hm⟩)
    · exact .inl ⟨hw, fun _ h => hww (Act.step.inj h).1.symm⟩
  | @expired w' ch' task' late hw' hr =>
    obtain ⟨rfl, ⟨⟩⟩ | ⟨hww, hw⟩ := update_eq_some.1 hw
    · exact .inr (.inr ⟨late, .expire, rfl, hw', .expired hr (KeyMap.lookup_erase_self ..)⟩)
    · exact .inl ⟨hw, fun _ h => hww (Act.step.inj h).1.symm⟩
  | refused | requested | unmatched | undelivered | delivered | notCancelled | cancelled
  | closed => exact .inl ⟨hw, nofun⟩

/-! ### Where a registered channel comes from -/

/-- `ch` is the channel of the latest request for `task` that the gate took: every later one in the
run was refused at capacity. -/
def LatestRequest (acts : List Act) (task : String) (ch : Nat) : Prop :=
  ∃ pre post c₀, acts = pre ++ .request task :: post ∧ gate.exec {} pre = some c₀ ∧
    (request c₀ task).1 = some ch ∧
    ∀ mid rest c₁, post = mid ++ .request task :: rest →
      gate.exec {} (pre ++ .request task :: mid) = some c₁ → (request c₁ task).1 = none

/-- Some submission of the run sent `d` into `ch`. -/
def Delivered (acts : List Act) (ch : Nat) (d : Decision) : Prop :=
  ∃ pre post task c₁, acts = pre ++ .submit task d :: post ∧ gate.exec {} pre = some c₁ ∧
    c₁.pending.lookup task = some ch ∧ (submitDecision c₁ task d).1 = true

variable {acts : List Act}

theorem Delivered.snoc {ch : Nat} (h : Delivered acts ch d) : Delivered (acts ++ [a]) ch d := by
  obtain ⟨pre, post, task, c₁, rfl, hpre, hl, hd⟩ := h
  exact ⟨pre, post ++ [a], task, c₁, by simp, hpre, hl, hd⟩

/-- It is the latest until another is taken. -/
theorem LatestRequest.snoc {task : String} {ch : Nat}
    (hrun : gate.exec {} acts = some c) (h : LatestRequest acts task ch)
    (ha : a = .request task → maxPending ≤ c.pending.size) :
    LatestRequest (acts ++ [a]) task ch := by
  obtain ⟨pre, post, c₀, rfl, hpre, hch, hlater⟩ := h
  refine ⟨pre, post ++ [a], c₀, by simp, hpre, hch, ?_⟩
  intro mid rest c₁ hsplit hmid
  -- The later request is the new action itself, or it was there before.
  obtain ⟨-, rfl, hab⟩ | ⟨rest', -, hsplit⟩ := snoc_eq_append_cons hsplit
  · obtain rfl : c = c₁ := some.inj (hrun.symm.trans hmid)
    simp [request, ha hab.symm]
  · exact hlater mid rest' c₁ hsplit hmid

theorem LatestRequest.of_request {task : String}
    (hrun : gate.exec {} acts = some c) (h : ¬ maxPending ≤ c.pending.size) :
    LatestRequest (acts ++ [.request task]) task c.fresh := by
  refine ⟨acts, [], c, rfl, hrun, by simp [request, h], ?_⟩
  intro mid rest _ hsplit
  simp at hsplit

/-- What holds of a gate after the actions `acts`. -/
structure Origin (acts : List Act) (c : Config) : Prop where
  registered : ∀ task ch, c.pending.lookup task = some ch → LatestRequest acts task ch
  sent : ∀ ch d, (c.chans ch).slot = some d → Delivered acts ch d
  approved : ∀ w ch task, c.waiters w = some { ch := some ch, task, pc := .returned .approved } →
    Delivered acts ch .approved

theorem Origin.start : Origin [] {} where
  registered _ _ h := by simp at h
  sent _ _ h := by simp at h
  approved _ _ _ h := by simp at h

/-- A step keeps every origin. -/
theorem Origin.keep (hrun : gate.exec {} acts = some c) (h : Origin acts c)
    (hstep : Trans c a c') : Origin (acts ++ [a]) c' where
  registered task ch hl := by
    obtain ⟨hold, ha⟩ | ⟨rfl, hroom, rfl, -⟩ := hstep.registered_from hl
    · exact (h.registered task ch hold).snoc hrun ha
    · exact .of_request hrun hroom
  sent ch d hs := by
    obtain hold | ⟨task, rfl, hl, hd⟩ := hstep.slot_from hs
    · exact (h.sent ch d hold).snoc
    · exact ⟨acts, [], task, c, rfl, hrun, hl, hd⟩
  approved w ch task hw := by
    obtain ⟨hold, -⟩ | ⟨-, -, hpc, -⟩ | ⟨late, pc, -, -, hadv⟩ := hstep.waiter_from hw
    · exact (h.approved w ch task hold).snoc
    · cases hpc
    · cases hadv with
      | received _ hs => exact (h.sent ch .approved hs).snoc
      | moved hm => cases hm

theorem origin_of_exec (hrun : gate.exec {} acts = some c) : Origin acts c :=
  gate.exec_history Origin.start (fun _ _ _ _ h hI hstep => hI.keep h (step_trans hstep)) hrun

/-- **An approval is released by a decision of its own.** In every interleaving: a waiter that
returned `APPROVED` waited on a channel into which some submission sent `APPROVED`; and every
submission that finds a channel finds the one of the latest request for its task that was taken, so
a decision for a later request never reaches the channel, nor the waiter, of an earlier one. -/
theorem approved_by_own_decision {acts : List Act} (hrun : gate.exec {} acts = some c) :
    (∀ w ch task, c.waiters w = some { ch := some ch, task, pc := .returned .approved } →
      Delivered acts ch .approved) ∧
    ∀ pre post task d c₁ ch, acts = pre ++ .submit task d :: post → gate.exec {} pre = some c₁ →
      c₁.pending.lookup task = some ch → LatestRequest pre task ch :=
  ⟨(origin_of_exec hrun).approved,
    fun _ _ task _ _ ch _ hpre hl => (origin_of_exec hpre).registered task ch hl⟩

/-- A waiter whose task is requested again before it is approved: the decision goes to the
second. -/
def reRequestRun : List Act :=
  [.request "t", .start 0 (some 0) "t", .request "t", .start 1 (some 1) "t",
    .submit "t" .approved, .step 0 false, .step 0 false, .step 0 false, .step 1 false]

theorem approved_by_own_decision_reRequest :
    ∃ c, gate.exec {} reRequestRun = some c ∧
      c.waiters 0 = some { ch := some 0, task := "t", pc := .returned .rejected } ∧
      c.waiters 1 = some { ch := some 1, task := "t", pc := .returned .approved } ∧
      Delivered reRequestRun 1 .approved :=
  ⟨_, rfl, rfl, rfl, (@approved_by_own_decision _ reRequestRun rfl).1 1 1 "t" rfl⟩

end Agnosai.Approval
