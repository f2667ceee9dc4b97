import Agnosai.Orchestrator.Approval.Release

/-!
# Orchestrator — Approval — Delivery

What becomes of a decision that a submission reported as delivered. In every reachable gate a
registered channel is empty, registered once, and its waiter is still polling (`Sound`). So at the
moment of the submission the waiter has yet to come back to its channel, and `Settling` follows the
decision from there. The waiter finds it at its next receive, unless it arrives between finding
itself registered and the timeout section, which rejects without looking at the channel.
-/

namespace Agnosai.Approval

open Function Option

variable {c c' : Config} {a : Act}

/-! ### What a step keeps -/

theorem Trans.fresh_le (hstep : Trans c a c') : c.fresh ≤ c'.fresh := by
  cases hstep with
  | requested => exact Nat.le_succ _
  | refused | unmatched | undelivered | delivered | notCancelled | cancelled | closed | started
  | received | moved | expired => exact Nat.le_refl _

variable {task : String} {d : Decision} {w ch : Nat} {pc : Pc}

theorem Trans.submit_erases (hstep : Trans c (.submit task d) c') :
    c'.pending.lookup task = none := by
  cases hstep with
  | unmatched h => exact h
  | undelivered | delivered => exact KeyMap.lookup_erase_self ..

/-- A waiter stays on its channel and task. -/
theorem Trans.waiter_keeps (hstep : Trans c a c') {ch : Option Nat}
    (hw : c.waiters w = some { ch, task, pc }) :
    ∃ pc', c'.waiters w = some { ch, task, pc := pc' } := by
  have hset : ∀ (k : Config) w' ch' task' pc' pc'', k.waiters = c.waiters →
      c.waiters w' = some { ch := some ch', task := task', pc := pc' } →
      ∃ p, (k.setWaiter w' ch' task' pc'').waiters w = some { ch, task, pc := p } := by
    intro k w' ch' task' pc' pc'' hk hw'
    by_cases hww : w = w'
    · subst hww
      cases hw.symm.trans hw'
      exact ⟨pc'', by simp [Config.setWaiter]⟩
    · exact ⟨pc, by simp only [Config.setWaiter, update_of_ne hww, hk, hw]⟩
  cases hstep with
  | @started w' _ _ hnone =>
    have hww : w ≠ w' := by
      rintro rfl
      simp [hw] at hnone
    exact ⟨pc, by simp only [update_of_ne hww, hw]⟩
  | received hw' | moved hw' | expired hw' => exact hset _ _ _ _ _ _ rfl hw'
  | refused | requested | unmatched | undelivered | delivered | notCancelled | cancelled
  | closed => exact ⟨pc, hw⟩

/-- A decision stays in its channel until a waiter on it returns it. -/
theorem Trans.slot_keeps (hstep : Trans c a c') (hs : (c.chans ch).slot = some d) :
    (c'.chans ch).slot = some d ∨
      ∃ w task, c'.waiters w = some { ch := some ch, task, pc := .returned d } := by
  cases hstep with
  | @delivered task d' ch' sent hl hsend =>
    have hch : ch ≠ ch' := by
      rintro rfl
      simp [(Chan.trySend_eq_some hsend).2.1] at hs
    exact .inl (by simpa only [update_of_ne hch] using hs)
  | @closed ch' =>
    by_cases hch : ch = ch'
    · subst hch
      exact .inl (by simpa only [closeChan, update_self] using hs)
    · exact .inl (by simpa only [closeChan, update_of_ne hch] using hs)
  | @received w ch' task _ _ d' _ _ hs' =>
    by_cases hch : ch = ch'
    · subst hch
      cases hs.symm.trans hs'
      exact .inr ⟨w, task, by simp [Config.setWaiter]⟩
    · exact .inl (by simpa only [Config.setWaiter, update_of_ne hch] using hs)
  | refused | requested | unmatched | undelivered | notCancelled | cancelled | started | moved
  | expired => exact .inl hs

/-! ### Reachable gates -/

/-- The waiter has yet to come back to its channel. -/
def Pc.Polling (pc : Pc) : Prop := pc ≠ .last ∧ ∀ d, pc ≠ .returned d

/-- What holds of every reachable gate. -/
structure Sound (c : Config) : Prop where
  registered_lt : ∀ task ch, c.pending.lookup task = some ch → ch < c.fresh
  registered_once : ∀ task task' ch, c.pending.lookup task = some ch →
    c.pending.lookup task' = some ch → task = task'
  registered_empty : ∀ task ch, c.pending.lookup task = some ch → (c.chans ch).slot = none
  unused_empty : ∀ ch, c.fresh ≤ ch → (c.chans ch).slot = none
  waiter_lt : ∀ w ch task pc, c.waiters w = some { ch := some ch, task, pc } → ch < c.fresh
  registered_polling : ∀ w ch task pc, c.pending.lookup task = some ch →
    c.waiters w = some { ch := some ch, task, pc } → pc.Polling

theorem Sound.start : Sound {} := by
  constructor <;> simp

/-- A step of a polling waiter that leaves it registered leaves it polling. -/
theorem Advance.polling {pc' : Pc} (h : Advance c c' ch task pc pc')
    (hpc : pc.Polling) (hl : c.pending.lookup task = some ch)
    (hl' : c'.pending.lookup task = some ch) (hempty : (c.chans ch).slot = none) :
    pc'.Polling := by
  cases h with
  | received _ hs => simp [hempty] at hs
  | moved hm =>
    cases hm with
    | recvEmpty | registered | sleep | late => exact ⟨nofun, nofun⟩
    | dropped h | overtaken h => exact absurd hl h
    | lastEmpty => exact absurd rfl hpc.1
  | expired _ hr' => simp [hl'] at hr'

/-- Every step keeps the gate sound. -/
theorem Sound.keep (h : Sound c) (hstep : Trans c a c') : Sound c' where
  registered_lt task ch hl := by
    obtain ⟨hold, -⟩ | ⟨-, -, rfl, hf⟩ := hstep.registered_from hl
    · exact Nat.lt_of_lt_of_le (h.registered_lt task ch hold) hstep.fresh_le
    · omega
  registered_once task task' ch hl hl' := by
    obtain ⟨hold, -⟩ | ⟨ha, -, rfl, -⟩ := hstep.registered_from hl
    · obtain ⟨hold', -⟩ | ⟨-, -, rfl, -⟩ := hstep.registered_from hl'
      · exact h.registered_once task task' ch hold hold'
      · exact absurd (h.registered_lt task _ hold) (Nat.lt_irrefl _)
    · obtain ⟨hold', -⟩ | ⟨ha', -, -, -⟩ := hstep.registered_from hl'
      · exact absurd (h.registered_lt task' _ hold') (Nat.lt_irrefl _)
      · exact Act.request.inj (ha.symm.trans ha')
  registered_empty task ch hl := by
    rw [eq_none_iff_forall_ne_some]
    intro d hs
    obtain hslot | ⟨task', rfl, hl', -⟩ := hstep.slot_from hs
    · obtain ⟨hold, -⟩ | ⟨-, -, rfl, -⟩ := hstep.registered_from hl
      · simp [h.registered_empty task ch hold] at hslot
      · simp [h.unused_empty _ (Nat.le_refl _)] at hslot
    · obtain ⟨hold, -⟩ | ⟨ha, -⟩ := hstep.registered_from hl
      · obtain rfl := h.registered_once task task' ch hold hl'
        simp [hstep.submit_erases] at hl
      · cases ha
  unused_empty ch hch := by
    rw [eq_none_iff_forall_ne_some]
    intro d hs
    have hch' : c.fresh ≤ ch := Nat.le_trans hstep.fresh_le hch
    obtain hslot | ⟨task', rfl, hl', -⟩ := hstep.slot_from hs
    · simp [h.unused_empty ch hch'] at hslot
    · exact absurd (h.registered_lt task' ch hl') (Nat.not_lt.2 hch')
  waiter_lt w ch task pc hw := by
    obtain ⟨hold, -⟩ | ⟨-, hlt, -⟩ | ⟨_, pc₀, -, hold, -⟩ := hstep.waiter_from hw
    · exact Nat.lt_of_lt_of_le (h.waiter_lt w ch task pc hold) hstep.fresh_le
    · exact Nat.lt_of_lt_of_le hlt hstep.fresh_le
    · exact Nat.lt_of_lt_of_le (h.waiter_lt w ch task pc₀ hold) hstep.fresh_le
  registered_polling w ch task pc hl hw := by
    obtain ⟨hl₀, -⟩ | ⟨-, -, rfl, -⟩ := hstep.registered_from hl
    · obtain ⟨hold, -⟩ | ⟨-, -, rfl, -⟩ | ⟨_, pc₀, -, hold, hadv⟩ := hstep.waiter_from hw
      · exact h.registered_polling w ch task pc hl₀ hold
      · exact ⟨Pc.noConfusion, fun d => Pc.noConfusion⟩
      · exact hadv.polling (h.registered_polling w ch task pc₀ hl₀ hold) hl₀ hl
          (h.registered_empty task ch hl₀)
    · -- A channel that was not there before has no waiter.
      obtain ⟨hold, -⟩ | ⟨-, hlt, -⟩ | ⟨_, pc₀, -, hold, -⟩ := hstep.waiter_from hw
      · exact absurd (h.waiter_lt w _ task pc hold) (Nat.lt_irrefl _)
      · exact absurd hlt (Nat.lt_irrefl _)
      · exact absurd (h.waiter_lt w _ task pc₀ hold) (Nat.lt_irrefl _)

theorem sound_of_exec {acts : List Act} (hrun : gate.exec {} acts = some c) : Sound c :=
  gate.exec_invariant Sound.start (fun _ _ _ hI hstep => hI.keep (step_trans hstep)) hrun

/-! ### A delivered decision -/

/-- The steps of waiter `w`. -/
def Act.isStepOf (w : Nat) : Act → Bool
  | .step w' _ => w' = w
  | _ => false

theorem Act.isStepOf_eq_false (h : ∀ late, a ≠ .step w late) : a.isStepOf w = false := by
  cases a with
  | step w' late =>
    refine decide_eq_false ?_
    rintro rfl
    exact h late rfl
  | request | submit | cancel | close | start => rfl

/-- How many of its own steps a waiter is from its decision, once that is in its channel. -/
def Pc.remaining : Pc → Nat
  | .recv | .last | .expire => 1
  | .check | .clock => 2
  | .returned _ => 0

theorem Pc.remaining_le (pc : Pc) : pc.remaining ≤ 2 := by
  cases pc <;> simp [remaining]

theorem Pc.remaining_pos (h : ∀ v, pc ≠ .returned v) : 0 < pc.remaining := by
  cases pc with
  | returned v => exact absurd rfl (h v)
  | recv | check | last | clock | expire => simp [remaining]

/-- The condition on a step: it is not the timeout section of waiter `w` with an approval in the
waiter's channel. -/
def SparesApproval (w : Nat) (c : Config) (a : Act) : Prop :=
  a.isStepOf w → ∀ ch task, c.waiters w = some { ch := some ch, task, pc := .expire } →
    (c.chans ch).slot ≠ some .approved

theorem SparesApproval.of_pc {k : Waiter} (hw : c.waiters w = some k)
    (hpc : k.pc ≠ .expire) : SparesApproval w c a := by
  intro _ ch task hw'
  cases hw.symm.trans hw'
  exact absurd rfl hpc

/-- Nobody but `w` waits on `ch`, and `w` waits for `task`. -/
def OnlyWaiter (c : Config) (w ch : Nat) (task : String) : Prop :=
  ∀ w' task' pc, c.waiters w' = some { ch := some ch, task := task', pc } → w' = w ∧ task' = task

/-- `d` has been delivered into `ch`, and `w` has taken `n` steps since: it has returned `d`, or it
has yet to come for it. -/
structure Settling (w ch : Nat) (task : String) (d : Decision) (n : Nat) (c : Config) : Prop where
  used : ch < c.fresh
  unregistered : ∀ task', c.pending.lookup task' ≠ some ch
  unstarted : c.waiters w = none → (c.chans ch).slot = some d ∧ n = 0
  waiting : ∀ pc, c.waiters w = some { ch := some ch, task, pc } →
    pc = .returned d ∨
      (c.chans ch).slot = some d ∧ (∀ v, pc ≠ .returned v) ∧ pc.remaining + n ≤ 2

theorem OnlyWaiter.of_step (hstep : Trans c a c')
    (h : OnlyWaiter c' w ch task) : OnlyWaiter c w ch task := by
  intro w' task' pc hw
  obtain ⟨pc', hw'⟩ := hstep.waiter_keeps hw
  exact h w' task' pc' hw'

/-- With `w` alone on the channel, the decision stays until `w` returns it. -/
theorem OnlyWaiter.slot (hstep : Trans c a c')
    (h : OnlyWaiter c' w ch task) (hs : (c.chans ch).slot = some d) :
    (c'.chans ch).slot = some d ∨
      c'.waiters w = some { ch := some ch, task, pc := .returned d } := by
  obtain hs' | ⟨w', task', hw'⟩ := hstep.slot_keeps hs
  · exact .inl hs'
  · obtain ⟨rfl, rfl⟩ := h w' task' _ hw'
    exact .inr hw'

/-- A step of the waiter brings it nearer to the decision in its channel. -/
theorem Advance.settling {pc' : Pc}
    (h : Advance c c' ch task pc pc') (hs : (c.chans ch).slot = some d)
    (hreg : c.pending.lookup task ≠ some ch) (hpc : ∀ v, pc ≠ .returned v)
    (hlate : pc = .expire → (c.chans ch).slot ≠ some .approved) :
    pc' = .returned d ∨ (∀ v, pc' ≠ .returned v) ∧ pc'.remaining + 1 ≤ pc.remaining := by
  cases h with
  | received _ hs' => exact .inl (by rw [some.inj (hs.symm.trans hs')])
  | moved hm =>
    cases hm with
    | recvEmpty h | lastEmpty h => simp [hs] at h
    | registered h => exact absurd h hreg
    | dropped | sleep | late => exact .inr ⟨nofun, Nat.le_refl _⟩
    | overtaken =>
      -- The timeout section: the condition leaves only a rejection in the channel.
      cases d with
      | rejected => exact .inl rfl
      | approved => exact absurd hs (hlate rfl)
  | expired hr => exact absurd hr hreg

theorem Trans.step_waiter (hstep : Trans c a c') (ha : a.isStepOf w) : c.waiters w ≠ none := by
  cases hstep with
  | received hw | moved hw | expired hw =>
    obtain rfl := of_decide_eq_true ha
    simp [hw]
  | refused | requested | unmatched | undelivered | delivered | notCancelled | cancelled | closed
  | started => cases ha

/-- A step counts only if it is the waiter's. -/
theorem Settling.keep {n : Nat} (hstep : Trans c a c')
    (hone : OnlyWaiter c' w ch task) (hlate : SparesApproval w c a)
    (h : Settling w ch task d n c) :
    Settling w ch task d (n + (a.isStepOf w).toNat) c' where
  used := Nat.lt_of_lt_of_le h.used hstep.fresh_le
  unregistered task' hl := by
    obtain ⟨hold, -⟩ | ⟨-, -, hfresh, -⟩ := hstep.registered_from hl
    · exact h.unregistered task' hold
    · exact absurd h.used (by omega)
  unstarted hnone := by
    have hnone₀ : c.waiters w = none := by
      rw [eq_none_iff_forall_ne_some]
      intro k hk
      obtain ⟨pc', hw'⟩ := hstep.waiter_keeps hk
      simp [hnone] at hw'
    have ha : a.isStepOf w = false := by
      rw [Bool.eq_false_iff]
      exact fun ha => hstep.step_waiter ha hnone₀
    obtain ⟨hs, rfl⟩ := h.unstarted hnone₀
    obtain hs' | hw' := hone.slot hstep hs
    · exact ⟨hs', by simp [ha]⟩
    · simp [hnone] at hw'
  waiting pc hw := by
    -- A decision that has left the channel is the one `w` has just returned.
    have hslot : (c.chans ch).slot = some d → pc = .returned d ∨ (c'.chans ch).slot = some d := by
      intro hs
      obtain hs' | hw' := hone.slot hstep hs
      · exact .inr hs'
      · cases hw.symm.trans hw'
        exact .inl rfl
    obtain ⟨hold, ha⟩ | ⟨hnone, -, rfl, ha⟩ | ⟨late, pc₀, rfl, hold, hadv⟩ := hstep.waiter_from hw
    · rw [Act.isStepOf_eq_false ha]
      obtain hret | ⟨hs, hpc, hn⟩ := h.waiting pc hold
      · exact .inl hret
      · exact (hslot hs).imp_right fun hs' => ⟨hs', hpc, hn⟩
    · rw [Act.isStepOf_eq_false ha]
      obtain ⟨hs, rfl⟩ := h.unstarted hnone
      exact (hslot hs).imp_right fun hs' => ⟨hs', nofun, by decide⟩
    · obtain rfl | ⟨hs, hpc, hn⟩ := h.waiting pc₀ hold
      · cases hadv with
        | received hpc => simp at hpc
        | moved hm => cases hm
      · have hlate' : pc₀ = .expire → (c.chans ch).slot ≠ some .approved := by
          rintro rfl
          exact hlate (by simp [Act.isStepOf]) ch task hold
        obtain hret | ⟨hpc', hlt⟩ := hadv.settling hs (h.unregistered task) hpc hlate'
        · exact .inl hret
        · refine (hslot hs).imp_right fun hs' => ⟨hs', hpc', ?_⟩
          simp only [Act.isStepOf, decide_true, Bool.toNat_true]
          omega

/-- Where the decision has just been delivered, its waiter has yet to come for it. -/
theorem Sound.settling (h : Sound c)
    (hl : c.pending.lookup task = some ch) (hd : (submitDecision c task d).1 = true) :
    Settling w ch task d 0 (submitDecision c task d).2 := by
  have hsend : ∃ sent, (c.chans ch).trySend d = some sent := by
    cases hs : (c.chans ch).trySend d with
    | none => simp [submitDecision, hl, hs] at hd
    | some sent => exact ⟨sent, rfl⟩
  obtain ⟨sent, hs⟩ := hsend
  have hslot : sent.slot = some d := by rw [(Chan.trySend_eq_some hs).2.2]
  simp only [submitDecision, hl, hs]
  refine ⟨h.registered_lt task ch hl, ?_, ?_, ?_⟩
  · intro task' hl'
    rw [KeyMap.lookup_erase, ite_none_left_eq_some] at hl'
    exact hl'.1 (h.registered_once task' task ch hl'.2 hl)
  · intro _
    simp [hslot]
  · intro pc hw
    have hpoll := h.registered_polling w ch task pc hl hw
    exact .inr ⟨by simp [hslot], hpoll.2, pc.remaining_le⟩

theorem countP_isStepOf_snoc (w : Nat) (acts : List Act) :
    (acts ++ [a]).countP (Act.isStepOf w) = acts.countP (Act.isStepOf w) +
      (a.isStepOf w).toNat := by
  cases ha : a.isStepOf w <;> simp [List.countP_append, ha]

/-- The decision is followed from the moment it is delivered to the end of the run. -/
theorem Settling.exec {acts : List Act}
    (h : Settling w ch task d 0 c) (hlate : gate.Along (SparesApproval w) c acts)
    (hrun : gate.exec c acts = some c') (hone : OnlyWaiter c' w ch task) :
    Settling w ch task d (acts.countP (Act.isStepOf w)) c' := by
  refine gate.exec_rule (I := fun acts c' => OnlyWaiter c' w ch task →
      Settling w ch task d (acts.countP (Act.isStepOf w)) c')
    (fun _ => h) ?_ hlate hrun hone
  intro acts c a c' hI hP hstep hone'
  have htrans := step_trans hstep
  rw [countP_isStepOf_snoc]
  exact (hI (hone'.of_step htrans)).keep htrans hone' hP

/-- A waiter that has not returned can take a step. -/
theorem step_waiter_isSome (late : Bool)
    (hw : c.waiters w = some { ch := some ch, task, pc }) (hpc : ∀ v, pc ≠ .returned v) :
    (gate.step c (.step w late)).isSome := by
  cases pc with
  | returned v => exact absurd rfl (hpc v)
  | recv | check | last | clock | expire => simp [gate, step, hw, waitStep]

/-- A waiter finds itself registered just before the decision comes, and looks at the clock just
after. -/
def lateRun : List Act :=
  [.request "t", .start 0 (some 0) "t", .step 0 false, .step 0 false]

/-- **A delivered approval can be lost.** The submission returned that it reached the waiter, and
the waiter returns `REJECTED`. -/
theorem delivered_approval_lost :
    ∃ c₁ c, gate.exec {} lateRun = some c₁ ∧ c₁.pending.lookup "t" = some 0 ∧
      (submitDecision c₁ "t" .approved).1 = true ∧
      gate.exec {} (lateRun ++ [.submit "t" .approved, .step 0 true, .step 0 true]) = some c ∧
      c.waiters 0 = some { ch := some 0, task := "t", pc := .returned .rejected } :=
  ⟨_, _, rfl, rfl, rfl, rfl, rfl⟩

/-- **A delivered decision is returned.** In every run in which the timeout section of `w` never
finds an approval in its channel: once a submission for `task` has returned that it reached the
waiter on the channel registered at that moment, that waiter returns no other decision, and it
returns this one after at most two more steps of its own, each of which is possible. -/
theorem delivered_decision_returned {pre post : List Act} {task : String} {d : Decision}
    {w ch : Nat} {pc : Pc} {c₁ : Config} (hpre : gate.exec {} pre = some c₁)
    (hl : c₁.pending.lookup task = some ch) (hd : (submitDecision c₁ task d).1 = true)
    (hrun : gate.exec {} (pre ++ .submit task d :: post) = some c)
    (hlate : gate.Along (SparesApproval w) {} (pre ++ .submit task d :: post))
    (hw : c.waiters w = some { ch := some ch, task, pc })
    (hone : ∀ w' task' pc', c.waiters w' = some { ch := some ch, task := task', pc := pc' } →
      w' = w) :
    pc = .returned d ∨
      (∀ v, pc ≠ .returned v) ∧ (∀ late, (gate.step c (.step w late)).isSome) ∧
        post.countP (Act.isStepOf w) < 2 := by
  have honly : OnlyWaiter c w ch task := by
    intro w' task' pc' hw'
    obtain rfl := hone w' task' pc' hw'
    cases hw.symm.trans hw'
    exact ⟨rfl, rfl⟩
  have hsub : gate.step c₁ (.submit task d) = some (submitDecision c₁ task d).2 := rfl
  have hpost : gate.exec (submitDecision c₁ task d).2 post = some c := by
    rwa [gate.exec_append hpre, gate.exec_cons hsub] at hrun
  have hlate' := (Machine.Along.append_right gate hlate hpre).2 _ hsub
  have hend := ((sound_of_exec hpre).settling hl hd).exec hlate' hpost honly
  obtain hret | ⟨-, hpc, hn⟩ := hend.waiting pc hw
  · exact .inl hret
  · refine .inr ⟨hpc, fun late => step_waiter_isSome late hw hpc, ?_⟩
    have := Pc.remaining_pos hpc
    omega

/-- The same waiter with the clock not yet past the deadline. -/
theorem delivered_decision_returned_inTime :
    ∃ c pc, gate.exec {} (lateRun ++ [.submit "t" .approved, .step 0 false, .step 0 false]) =
      some c ∧
      c.waiters 0 = some { ch := some 0, task := "t", pc } ∧ pc = .returned .approved := by
  have hspared : gate.Along (SparesApproval 0) {}
      (lateRun ++ .submit "t" .approved :: [.step 0 false, .step 0 false]) :=
    .cons _ rfl nofun <| .cons _ rfl nofun <| .cons _ rfl (.of_pc rfl nofun) <|
      .cons _ rfl (.of_pc rfl nofun) <| .cons _ rfl nofun <| .cons _ rfl (.of_pc rfl nofun) <|
      .cons _ rfl (.of_pc rfl nofun) trivial
  refine ⟨_, _, rfl, rfl, (@delivered_decision_returned _ lateRun _ _ .approved _ _ _ _
    rfl rfl rfl rfl hspared rfl ?_).resolve_right fun h => h.1 _ rfl⟩
  rintro (_ | w') task' pc' hw'
  · rfl
  · cases hw'

end Agnosai.Approval
