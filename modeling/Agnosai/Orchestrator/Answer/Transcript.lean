import Agnosai.Orchestrator.Answer.Steps

/-!
# Orchestrator — Answer — Transcript

A provider refuses a transcript in which a tool call goes unanswered, is answered twice, or shares
its id with another (`WellFormed`). The model picks ids, numbers of calls and arguments, so what
keeps the transcript in order is the engine's doing: every call gets an id the task has not used,
and every call that goes into the transcript is answered at once, whether it ran or not.
-/

namespace Agnosai.Answer

open Llm ToolLoop List

variable {s : Setup}

/-! ### Well-formed transcripts -/

/-- A tool message that answers the call. -/
def Answers (c : ChatToolCall) (m : Message) : Prop := m.role = .tool ∧ m.toolCallId = c.id

/-- Every message that carries calls is followed by one reply for each, with their ids and in their
order; there is no other tool message. -/
inductive WellFormed : List Message → Prop where
  | nil : WellFormed []
  | plain {m : Message} {rest : List Message} (hm : Message.Plain m) (hrest : WellFormed rest) :
      WellFormed (m :: rest)
  | exchange {content : String} {calls : List ChatToolCall} {replies rest : List Message}
      (hreplies : List.Forall₂ Answers calls replies) (hrest : WellFormed rest) :
      WellFormed ({ role := .assistant, content, toolCalls := calls } :: (replies ++ rest))

namespace WellFormed

theorem append {ms ms' : List Message} (h : WellFormed ms) (h' : WellFormed ms') :
    WellFormed (ms ++ ms') := by
  induction h with
  | nil => exact h'
  | plain hm _ ih => exact .plain hm ih
  | exchange hreplies _ ih =>
    rw [cons_append, append_assoc]
    exact .exchange hreplies ih

theorem of_plain {ms : List Message} (h : ∀ m ∈ ms, Message.Plain m) : WellFormed ms := by
  induction ms with
  | nil => exact .nil
  | cons m ms ih =>
    exact .plain (h m mem_cons_self) (ih fun m' hm' => h m' (mem_cons_of_mem m hm'))

end WellFormed

/-- The ids of the calls carried, in order. -/
def callIds (ms : List Message) : List (Option String) :=
  ms.flatMap fun m => m.toolCalls.map ChatToolCall.id

theorem callIds_cons (m : Message) (ms : List Message) :
    callIds (m :: ms) = m.toolCalls.map ChatToolCall.id ++ callIds ms := rfl

@[simp] theorem callIds_append (ms ms' : List Message) :
    callIds (ms ++ ms') = callIds ms ++ callIds ms' := by
  simp [callIds]

theorem callIds_plain {ms : List Message} (h : ∀ m ∈ ms, Message.Plain m) : callIds ms = [] :=
  flatMap_eq_nil_iff.2 fun m hm => by rw [(h m hm).1, map_nil]

variable {replies : List Message}

/-- Replies answer the calls as they went into the transcript. -/
theorem replies_answer {calls : List Call} (h : List.Forall₂ Replies calls replies) :
    List.Forall₂ Answers (calls.map Call.echo) replies := by
  rw [forall₂_map_left_iff]
  refine h.imp fun c m hm => ?_
  obtain ⟨content, rfl⟩ := hm
  exact ⟨rfl, rfl⟩

theorem callIds_replies {calls : List Call}
    (h : List.Forall₂ Replies calls replies) : callIds replies = [] := by
  induction h with
  | nil => rfl
  | cons hm _ ih =>
    obtain ⟨content, rfl⟩ := hm
    exact ih

/-! ### The messages of a turn -/

variable {k k' : Conv} {resp : Response} {calls : List Call} {seg : Trace}

theorem turn_wellFormed (h : TurnSpec s k resp calls seg k') (hwf : WellFormed k.request.messages) :
    WellFormed k'.request.messages := by
  obtain ⟨replies, note, hms, hreplies, hnote⟩ := h.messages
  rw [hms]
  exact hwf.append (.exchange (replies_answer hreplies) (.of_plain hnote))

theorem turn_callIds (h : TurnSpec s k resp calls seg k') :
    callIds k'.request.messages = callIds k.request.messages ++ (calls.map Call.id).map some := by
  obtain ⟨replies, note, hms, hreplies, hnote⟩ := h.messages
  rw [hms, callIds_append, callIds_cons, callIds_append, callIds_replies hreplies,
    callIds_plain hnote]
  simp [Function.comp_def, Call.echo]

/-! ### The invariant -/

/-- The transcript is in order, and was whenever a turn left it or a request was sent. -/
structure Transcript (t : Talk) : Prop where
  wellFormed : WellFormed t.request.messages
  callIds : callIds t.request.messages = t.state.seen.map some
  nodup : t.state.seen.Nodup
  echoed : (echoed t.trace).map Call.id = t.state.seen
  begun : t.state.steps = 0 → t.state.seen = []
  turned : ∀ n ms, .turned n ms ∈ t.trace → WellFormed ms ∧ (Answer.callIds ms).Nodup
  sent : ∀ r, .chat r ∈ t.trace → WellFormed r.messages ∧ (Answer.callIds r.messages).Nodup

namespace Transcript

theorem start {tools : List Tool} {t : Talk} (h : Fresh tools t) : Transcript t where
  wellFormed := .of_plain h.plain
  callIds := by rw [callIds_plain h.plain, h.state]; rfl
  nodup := by rw [h.state]; exact nodup_nil
  echoed := by rw [h.state, h.trace]; rfl
  begun := by rw [h.state]; exact fun _ => rfl
  turned := by rw [h.trace]; exact nofun
  sent := by rw [h.trace]; exact nofun

variable {t t' : Talk}

/-- No two calls of the transcript share an id. -/
theorem callIds_nodup (h : Transcript t) : (Answer.callIds t.request.messages).Nodup := by
  rw [h.callIds]
  exact h.nodup.map (Option.some_injective _)

theorem note (h : Transcript t) (hnoted : Noted t.request seg) :
    Transcript { t with trace := t.trace ++ seg } where
  wellFormed := h.wellFormed
  callIds := h.callIds
  nodup := h.nodup
  echoed := by rw [echoed_append, hnoted.quiet.echoed, append_nil]; exact h.echoed
  begun := h.begun
  turned n ms hmem := by
    obtain hmem | hmem := mem_append.1 hmem
    · exact h.turned n ms hmem
    · cases hnoted.quiet _ hmem
  sent r hmem := by
    obtain hmem | hmem := mem_append.1 hmem
    · exact h.sent r hmem
    · rw [hnoted.sent r hmem]
      exact ⟨h.wellFormed, h.callIds_nodup⟩

/-- The transcript is as it was if its messages, the ids in use and the trace are. -/
theorem of_state (h : Transcript t) (hwf : WellFormed t'.request.messages)
    (hids : Answer.callIds t'.request.messages = Answer.callIds t.request.messages)
    (hseen : t'.state.seen = t.state.seen) (hsteps : t'.state.steps = t.state.steps)
    (htrace : t'.trace = t.trace) : Transcript t' where
  wellFormed := hwf
  callIds := by rw [hids, hseen]; exact h.callIds
  nodup := by rw [hseen]; exact h.nodup
  echoed := by rw [hseen, htrace]; exact h.echoed
  begun := by rw [hseen, hsteps]; exact h.begun
  turned := by rw [htrace]; exact h.turned
  sent := by rw [htrace]; exact h.sent

/-- A turn of the loop keeps the transcript. -/
theorem turn (h : Transcript (Conv.talk k)) (hturn : TurnSpec s k resp calls seg k')
    (hsteps : k'.st.steps = k.st.steps + 1) : Transcript (Conv.talk k') := by
  have hwf := turn_wellFormed hturn h.wellFormed
  have hids : Answer.callIds k'.request.messages = k'.st.seen.map some := by
    rw [turn_callIds hturn, hturn.seen, map_append]
    exact congrArg (· ++ _) h.callIds
  have hnodup := hturn.nodup h.nodup
  have hidsNodup : (Answer.callIds k'.request.messages).Nodup := by
    rw [hids]
    exact hnodup.map (Option.some_injective _)
  refine ⟨hwf, hids, hnodup, ?_, fun hzero => ?_, fun n ms hmem => ?_, fun r hmem => ?_⟩
  · have hechoed : (ToolLoop.echoed k.trace).map Call.id = k.st.seen := h.echoed
    rw [Conv.talk, hturn.trace, echoed_append, map_append, hechoed, hturn.echoed]
    exact hturn.seen.symm
  · rw [Conv.talk, Talk.state, Option.getD_some, hsteps] at hzero
    cases hzero
  · rw [Conv.talk, hturn.trace] at hmem
    obtain hmem | hmem := mem_append.1 hmem
    · exact h.turned n ms hmem
    · rw [hturn.turned n ms hmem]
      exact ⟨hwf, hidsNodup⟩
  · rw [Conv.talk, hturn.trace] at hmem
    obtain hmem | hmem := mem_append.1 hmem
    · exact h.sent r hmem
    · cases hturn.turnNo _ hmem

/-- **Every step keeps the transcript in order.** -/
theorem step (h : Transcript t) (hstep : Step s t t') : Transcript t' := by
  cases hstep with
  | note _ hnoted => exact h.note hnoted
  | stop =>
    obtain ⟨stopped, hst⟩ := state_stop t
    exact h.of_state h.wellFormed rfl (by rw [hst]) (by rw [hst]) rfl
  | turn k resp =>
    obtain ⟨calls, seg, hturn⟩ := turnBody_spec k resp
    exact Transcript.turn h hturn (turnBody_steps s k resp)
  | @say _ request m hm hms =>
    refine h.of_state ?_ ?_ rfl rfl rfl
    · rw [hms]
      exact h.wellFormed.append (.plain hm .nil)
    · rw [hms, callIds_append, callIds_plain (forall_mem_singleton.2 hm), append_nil]
  | rebuild _ hst hplain =>
    -- no turn has been taken, so there were no calls to lose
    refine h.of_state (.of_plain hplain) ?_ rfl rfl rfl
    rw [callIds_plain hplain, h.callIds, h.begun ?_, map_nil]
    cases hsome : t.st with
    | none => simp [Talk.state, hsome]
    | some st =>
      rw [Talk.state, hsome, Option.getD_some]
      exact hst st hsome

end Transcript

/-- **Transcripts are well formed.** Whatever the model answers, every transcript that a turn left
and every request that was sent has one reply for each call, in order, and no two calls of the task
share an id. -/
theorem transcripts_wellFormed (e : Engine) (registry : Option (String → Option Tool))
    (redacted : String → String) (task : Task) (agent : Option Agent) :
    (∀ n ms, .turned n ms ∈ (executeTask (some e) registry redacted task agent []).2 →
      WellFormed ms ∧ (callIds ms).Nodup) ∧
    (∀ r, .chat r ∈ (executeTask (some e) registry redacted task agent []).2 →
      WellFormed r.messages ∧ (callIds r.messages).Nodup) ∧
    ((echoed (executeTask (some e) registry redacted task agent []).2).map Call.id).Nodup := by
  obtain ⟨t₀, t, h⟩ := (executeTask_executed e registry redacted task agent).conversed
  have hinv : Transcript t :=
    h.run.invariant (fun _ _ hinv hstep => hinv.step hstep) (Transcript.start h.fresh)
  rw [h.trace]
  exact ⟨hinv.turned, hinv.sent, hinv.echoed ▸ hinv.nodup⟩

end Agnosai.Answer
