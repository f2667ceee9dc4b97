import Agnosai.Orchestrator.Answer.Transcript

/-!
# Orchestrator — Answer — Authority

A model may ask for anything; what runs is up to four passes of a turn, each of which only narrows
down what the one before left. `Authorised` collects what they come to for a call whose tool was
invoked. The turns of a task have different numbers, so what one turn adds to the trace says
nothing of a call of another (`Authorised.append`, `ordered_append`).
-/

namespace Agnosai.Answer

open Llm ToolLoop List

variable {s : Setup} {tools : List Tool} {tr seg : Trace} {n : Nat} {c : Call}

/-- What allows call `c` of turn `n` to run, as far as the trace shows. -/
structure Authorised (s : Setup) (tools : List Tool) (tr : Trace) (n : Nat) (c : Call) : Prop where
  asked : ∃ r ∈ received tr, ∃ a ∈ r.toolCalls, Allowed s.texts tools a c
  approved : ∀ g reason, .batch n g (some reason) ∉ tr
  journalled : s.world.journal.isSome → .intent n c none ∈ tr

/-- What later turns add takes nothing away. -/
theorem Authorised.append (h : Authorised s tools tr n c)
    (hlater : ∀ e ∈ seg, ∀ m, e.turnNo = some m → n < m) :
    Authorised s tools (tr ++ seg) n c where
  asked := by
    obtain ⟨r, hr, hasked⟩ := h.asked
    exact ⟨r, by rw [received_append]; exact mem_append_left _ hr, hasked⟩
  approved g reason hmem := by
    obtain hmem | hmem := mem_append.1 hmem
    · exact h.approved g reason hmem
    · exact lt_irrefl n (hlater _ hmem n rfl)
  journalled hj := mem_append_left _ (h.journalled hj)

/-- Intents stay ahead of the executions of their turn when later turns are added. -/
theorem ordered_append (h : tr.Pairwise IntentFirst) (hseg : seg.Pairwise IntentFirst)
    (hlater : ∀ e ∈ tr, ∀ e' ∈ seg, ∀ m m', e.turnNo = some m → e'.turnNo = some m' → m < m') :
    (tr ++ seg).Pairwise IntentFirst := by
  refine pairwise_append.2 ⟨h, hseg, fun e he e' he' m c c' refusal heq heq' => ?_⟩
  subst heq heq'
  exact lt_irrefl m (hlater _ he _ he' m m rfl rfl)

theorem Quiet.ordered (h : Quiet seg) : seg.Pairwise IntentFirst := by
  refine List.Pairwise.imp_of_mem (fun he _ _ m c c' refusal heq => ?_)
    (pairwise_of_forall fun _ _ => trivial)
  subst heq
  cases h _ he

/-! ### The invariant -/

/-- What ran was authorised, ran once, and left its entry and its record. -/
structure Authority (s : Setup) (tools : List Tool) (t : Talk) : Prop where
  granted : t.state.tools = tools
  turnNo : ∀ e ∈ t.trace, ∀ n, e.turnNo = some n → n ≤ t.state.steps
  authorised : ∀ n c, .execute n c ∈ t.trace → Authorised s tools t.trace n c
  ordered : t.trace.Pairwise IntentFirst
  seen : ∀ c ∈ executed t.trace, c.id ∈ t.state.seen
  once : ((executed t.trace).map Call.id).Nodup
  resulted : (resulted t.trace).map Call.id = if s.world.journal.isSome then t.state.seen else []
  records : t.state.records.map CallRecord.id = t.state.seen

namespace Authority

theorem start {t : Talk} (h : Fresh tools t) : Authority s tools t where
  granted := by rw [h.state]
  turnNo := by simp [h.trace]
  authorised := by simp [h.trace]
  ordered := by rw [h.trace]; exact .nil
  seen := by rw [h.trace]; simp [executed]
  once := by rw [h.trace]; exact nodup_nil
  resulted := by rw [h.trace, h.state]; exact (ite_self _).symm
  records := by rw [h.state]; rfl

variable {t t' : Talk}

theorem note (h : Authority s tools t) (hquiet : Quiet seg) :
    Authority s tools { t with trace := t.trace ++ seg } := by
  have hnone : ∀ e ∈ seg, ∀ m, e.turnNo ≠ some m := fun e he m hm => by
    rw [hquiet e he] at hm
    cases hm
  refine ⟨h.granted, fun e he n hn => ?_, fun n c hmem => ?_, ?_, ?_, ?_, ?_, h.records⟩
  · obtain he | he := mem_append.1 he
    · exact h.turnNo e he n hn
    · exact absurd hn (hnone e he n)
  · obtain hmem | hmem := mem_append.1 hmem
    · exact (h.authorised n c hmem).append fun e he m hm => absurd hm (hnone e he m)
    · exact absurd rfl (hnone _ hmem n)
  · exact ordered_append h.ordered (Quiet.ordered hquiet)
      fun _ _ e' he' _ m' _ hm' => absurd hm' (hnone e' he' m')
  · rw [executed_append, hquiet.executed, append_nil]
    exact h.seen
  · rw [executed_append, hquiet.executed, append_nil]
    exact h.once
  · rw [resulted_append, hquiet.resulted, append_nil]
    exact h.resulted

/-- Nothing else is read of a conversation. -/
theorem of_state (h : Authority s tools t) (htools : t'.state.tools = t.state.tools)
    (hsteps : t'.state.steps = t.state.steps) (hseen : t'.state.seen = t.state.seen)
    (hrecords : t'.state.records = t.state.records) (htrace : t'.trace = t.trace) :
    Authority s tools t' where
  granted := htools.trans h.granted
  turnNo := by rw [htrace, hsteps]; exact h.turnNo
  authorised := by rw [htrace]; exact h.authorised
  ordered := by rw [htrace]; exact h.ordered
  seen := by rw [htrace, hseen]; exact h.seen
  once := by rw [htrace]; exact h.once
  resulted := by rw [htrace, hseen]; exact h.resulted
  records := by rw [hrecords, hseen]; exact h.records

variable {k k' : Conv} {resp r : Response} {calls : List Call}

/-- A turn of the loop keeps the authority. -/
theorem turn (h : Authority s tools (Conv.talk k)) (hnodup : k.st.seen.Nodup)
    (hturn : TurnSpec s k resp calls seg k') (hsteps : k'.st.steps = k.st.steps + 1)
    (hr : r ∈ received k.trace) (hcalls : r.toolCalls = resp.toolCalls) :
    Authority s tools (Conv.talk k') := by
  have hold : ∀ e ∈ k.trace, ∀ m, e.turnNo = some m → m < k.st.steps + 1 :=
    fun e he m hm => Nat.lt_succ_of_le (h.turnNo e he m hm)
  have hnew : ∀ e ∈ seg, ∀ m, e.turnNo = some m → m = k.st.steps + 1 :=
    fun e he m hm => Option.some.inj (hm.symm.trans (hturn.turnNo e he))
  have hseen : k'.st.seen = k.st.seen ++ calls.map Call.id := hturn.seen
  have htools : k.st.tools = tools := h.granted
  refine ⟨hturn.tools.trans htools, ?_, ?_, ?_, ?_, ?_, ?_, ?_⟩ <;>
    simp only [Conv.talk, Talk.state, Option.getD_some, hturn.trace]
  · intro e he m hm
    rw [hsteps]
    obtain he | he := mem_append.1 he
    · exact le_of_lt (hold e he m hm)
    · exact le_of_eq (hnew e he m hm)
  · intro m c hmem
    obtain hmem | hmem := mem_append.1 hmem
    · refine (h.authorised m c hmem).append fun e he m' hm' => ?_
      rw [hnew e he m' hm']
      exact hold _ hmem m rfl
    · obtain rfl := hnew _ hmem m rfl
      obtain ⟨-, ⟨a, ha, hallowed⟩, hbatch, hintent⟩ :=
        hturn.executed c (mem_executed.2 ⟨_, hmem⟩)
      refine ⟨⟨r, ?_, a, hcalls ▸ ha, htools ▸ hallowed⟩, fun g reason hrefused => ?_, fun hj => ?_⟩
      · rw [received_append]
        exact mem_append_left _ hr
      · obtain hrefused | hrefused := mem_append.1 hrefused
        · exact lt_irrefl _ (hold _ hrefused _ rfl)
        · exact hbatch _ g reason hrefused
      · exact mem_append_right _ (hintent hj)
  · refine ordered_append h.ordered hturn.ordered fun e he e' he' m m' hm hm' => ?_
    rw [hnew e' he' m' hm']
    exact hold e he m hm
  · intro c hc
    rw [executed_append] at hc
    rw [hseen]
    obtain hc | hc := mem_append.1 hc
    · exact mem_append_left _ (h.seen c hc)
    · exact mem_append_right _ (hturn.executed c hc).1
  · -- a call of this turn has an id that no earlier one has
    have hdisjoint := disjoint_of_nodup_append (hseen ▸ hturn.nodup hnodup)
    rw [executed_append, map_append]
    refine h.once.append (hturn.executed_nodup hnodup) fun id hid hid' => ?_
    obtain ⟨c, hc, rfl⟩ := mem_map.1 hid
    obtain ⟨c', hc', heq⟩ := mem_map.1 hid'
    exact hdisjoint (h.seen c hc) (heq ▸ (hturn.executed c' hc').1)
  · have hresulted : (ToolLoop.resulted k.trace).map Call.id =
        if s.world.journal.isSome then k.st.seen else [] := h.resulted
    rw [resulted_append, map_append, hresulted, hturn.resulted, hseen]
    split <;> rfl
  · have hrecords : k.st.records.map CallRecord.id = k.st.seen := h.records
    rw [hturn.records, hrecords, hseen]

/-- **Every step keeps the calls authorised.** -/
theorem step (h : Authority s tools t) (htranscript : Transcript t) (hstep : Step s t t') :
    Authority s tools t' := by
  cases hstep with
  | note _ hnoted => exact h.note hnoted.quiet
  | stop =>
    obtain ⟨stopped, hst⟩ := state_stop t
    exact h.of_state (by rw [hst]) (by rw [hst]) (by rw [hst]) (by rw [hst]) rfl
  | turn k resp hr hcalls =>
    obtain ⟨calls, seg, hturn⟩ := turnBody_spec k resp
    exact Authority.turn h htranscript.nodup hturn (turnBody_steps s k resp) hr hcalls
  | say | rebuild => exact h.of_state rfl rfl rfl rfl rfl

end Authority

/-- **Calls are authorised.** In every task, whatever the model, the gates, the journal and the
tools do: a tool is invoked only for an authorised call, once, and after all the intents of its
turn; and every call of the transcript has one result in the journal, if there is one, and one
record on the task's result. -/
theorem calls_authorised (e : Engine) (registry : Option (String → Option Tool))
    (redacted : String → String) (task : Task) (agent : Option Agent) :
    let out := executeTask (some e) registry redacted task agent []
    (∀ n c, .execute n c ∈ out.2 → Authorised e.setup (startTools registry agent) out.2 n c) ∧
    out.2.Pairwise IntentFirst ∧
    ((executed out.2).map Call.id).Nodup ∧
    (∀ c ∈ executed out.2, c.id ∈ (echoed out.2).map Call.id) ∧
    ((echoed out.2).map Call.id).Nodup ∧
    (e.setup.world.journal.isSome →
      (resulted out.2).map Call.id = (echoed out.2).map Call.id) ∧
    (out.1.metadata.toolCalls.getD []).map CallRecord.id = (echoed out.2).map Call.id := by
  obtain ⟨t₀, t, h⟩ := (executeTask_executed e registry redacted task agent).conversed
  obtain ⟨htranscript, hauth⟩ : Transcript t ∧ Authority e.setup (startTools registry agent) t :=
    h.run.invariant
      (I := fun t => Transcript t ∧ Authority e.setup (startTools registry agent) t)
      (fun _ _ hinv hstep => ⟨hinv.1.step hstep, hinv.2.step hinv.1 hstep⟩)
      ⟨.start h.fresh, .start h.fresh⟩
  simp only [h.trace, h.records, htranscript.echoed]
  refine ⟨hauth.authorised, hauth.ordered, hauth.once, hauth.seen, htranscript.nodup,
    fun hj => ?_, hauth.records⟩
  rw [hauth.resulted, if_pos hj]

end Agnosai.Answer
