import Agnosai.ToolLoop.Definitions

/-!
# ToolLoop — Passes

What each pass of a turn does: one specification for each, and one for the turn made of them.
Preparing gives every call an id the task has not used. Approving, journalling and running keep the
calls and their order, and can only stop more of them (`Stopped`). Delivering adds one reply, one
record and, with a journal, one result for each call, in order.
-/

namespace Agnosai.ToolLoop

open Llm List

variable {s : Setup} {w : World} {texts : Texts} {n : Nat} {tr : Trace} {calls : List Call}

/-! ### Reading a trace -/

/-- The turn an event belongs to. -/
def Event.turnNo : Event → Option Nat
  | .echo n _ | .batch n _ _ | .intent n _ _ | .execute n _ | .result n _ | .turned n _ => some n
  | .chat _ | .answered _ | .failed _ | .timedOut => none

/-- The calls put in the transcript, in order. -/
def echoed (tr : Trace) : List Call :=
  tr.flatMap fun
    | .echo _ calls => calls
    | _ => []

def executed (tr : Trace) : List Call :=
  tr.flatMap fun
    | .execute _ c => [c]
    | _ => []

/-- The calls whose result was journalled, in order. -/
def resulted (tr : Trace) : List Call :=
  tr.flatMap fun
    | .result _ c => [c]
    | _ => []

def received (tr : Trace) : List Response :=
  tr.filterMap fun
    | .answered r => some r
    | _ => none

/-- An intent does not come after an execution of its turn. -/
def IntentFirst (e e' : Event) : Prop := ∀ n c c' r, e = .execute n c → e' ≠ .intent n c' r

section Reading

variable {tr' : Trace}

@[simp] theorem echoed_append : echoed (tr ++ tr') = echoed tr ++ echoed tr' := by
  simp [echoed]

@[simp] theorem executed_append : executed (tr ++ tr') = executed tr ++ executed tr' := by
  simp [executed]

@[simp] theorem resulted_append : resulted (tr ++ tr') = resulted tr ++ resulted tr' := by
  simp [resulted]

@[simp] theorem received_append : received (tr ++ tr') = received tr ++ received tr' := by
  simp [received]

theorem received_eq_nil (h : ∀ e ∈ tr, ∀ r, e ≠ .answered r) : received tr = [] := by
  rw [received, filterMap_eq_nil_iff]
  intro e he
  cases e with
  | answered r => exact absurd rfl (h _ he r)
  | _ => rfl

/-- None of these events belongs to a turn. -/
def Quiet (seg : Trace) : Prop := ∀ e ∈ seg, e.turnNo = none

theorem Quiet.flatMap_eq_nil (h : Quiet tr) {f : Event → List Call}
    (hf : ∀ e : Event, e.turnNo = none → f e = []) : tr.flatMap f = [] :=
  flatMap_eq_nil_iff.2 fun e he => hf e (h e he)

theorem Quiet.echoed (h : Quiet tr) : ToolLoop.echoed tr = [] :=
  h.flatMap_eq_nil fun e he => by cases e <;> first | rfl | cases he

theorem Quiet.executed (h : Quiet tr) : ToolLoop.executed tr = [] :=
  h.flatMap_eq_nil fun e he => by cases e <;> first | rfl | cases he

theorem Quiet.resulted (h : Quiet tr) : ToolLoop.resulted tr = [] :=
  h.flatMap_eq_nil fun e he => by cases e <;> first | rfl | cases he

theorem mem_executed {c : Call} : c ∈ executed tr ↔ ∃ n, .execute n c ∈ tr := by
  simp only [executed, mem_flatMap]
  constructor
  · rintro ⟨e, he, h⟩
    cases e <;> simp_all
    exact ⟨_, he⟩
  · rintro ⟨n, he⟩
    exact ⟨_, he, by simp⟩

end Reading

/-! ### Preparing -/

theorem freshId_notMem (seen : List String) (steps i : Nat) : freshId seen steps i ∉ seen := by
  have hmint : ∀ fuel attempt id, mint seen steps i fuel attempt = some id → id ∉ seen := by
    intro fuel
    induction fuel with
    | zero => exact nofun
    | succ fuel ih =>
      intro attempt id h
      unfold mint at h
      split at h
      · exact ih _ _ h
      next hnot =>
        cases h
        exact hnot
  exact hmint _ 0 _ (Option.some_get _).symm

/-- A call's id is not one the task has used. -/
theorem callId_notMem (texts : Texts) (st : TaskState) (asked : ChatToolCall) (i : Nat) :
    callId texts st asked i ∉ st.seen := by
  unfold callId
  split
  · exact freshId_notMem _ _ _
  · split
    next h =>
      simp only [idUsable, Bool.and_eq_true, decide_eq_true_eq] at h
      exact h.1.2
    · exact freshId_notMem _ _ _

theorem prepare_id (st : TaskState) (asked : ChatToolCall) (i : Nat) :
    (prepare texts st asked i).id = callId texts st asked i := by
  cases hg : granted st.tools asked.name with
  | none => simp only [prepare, hg, Call.refuse]
  | some =>
    cases hv : objectArguments texts asked.arguments with
    | none => simp only [prepare, hg, hv, Call.refuse]
    | some => simp only [prepare, hg, hv]

/-- `c` may run for `asked`: it names a tool of `tools`, and its arguments are an object. -/
def Allowed (texts : Texts) (tools : List Tool) (asked : ChatToolCall) (c : Call) : Prop :=
  ∃ t v, t ∈ tools ∧ t.name = asked.name ∧ c.tool = some t ∧
    readArguments texts asked.arguments = some v ∧ v.isObj = true ∧ c.input = some v

/-- A call that is not refused when it is prepared may run. -/
theorem prepare_allowed {st : TaskState} {asked : ChatToolCall} {i : Nat}
    (h : (prepare texts st asked i).refused = false) :
    Allowed texts st.tools asked (prepare texts st asked i) := by
  cases hg : granted st.tools asked.name with
  | none => simp [prepare, hg, Call.refuse] at h
  | some t =>
    cases hv : objectArguments texts asked.arguments with
    | none => simp [prepare, hg, hv, Call.refuse] at h
    | some v =>
      obtain ⟨hread, hobj⟩ := Option.filter_eq_some_iff.1 hv
      have hname : t.name = asked.name := by simpa using find?_some hg
      simp only [prepare, hg, hv]
      exact ⟨t, v, mem_of_find?_eq_some hg, hname, rfl, hread, hobj, rfl⟩

/-- Preparing changes only the ids in use, to which it adds those of the calls. -/
theorem prepareAll_state (texts : Texts) (asked : List ChatToolCall) (st : TaskState) (i : Nat) :
    (prepareAll texts st i asked).2 =
      { st with seen := st.seen ++ (prepareAll texts st i asked).1.map Call.id } := by
  induction asked generalizing st i with
  | nil => simp [prepareAll]
  | cons a rest ih =>
    simp [prepareAll, ih]

theorem prepareAll_nodup (texts : Texts) (asked : List ChatToolCall) (st : TaskState) (i : Nat)
    (h : st.seen.Nodup) : (prepareAll texts st i asked).2.seen.Nodup := by
  induction asked generalizing st i with
  | nil => exact h
  | cons a rest ih =>
    refine ih _ (i + 1) ?_
    have hnot := callId_notMem texts st a i
    rw [← prepare_id] at hnot
    exact h.append (nodup_singleton _) (by simpa using hnot)

/-- A call that is not refused when it is prepared may run for one the model asked for. -/
theorem prepareAll_allowed {asked : List ChatToolCall} {st : TaskState} {i : Nat} {c : Call}
    (hc : c ∈ (prepareAll texts st i asked).1) (hr : c.refused = false) :
    ∃ a ∈ asked, Allowed texts st.tools a c := by
  induction asked generalizing st i with
  | nil => cases hc
  | cons a rest ih =>
    simp only [prepareAll, mem_cons] at hc
    obtain rfl | hc := hc
    · exact ⟨a, mem_cons_self, prepare_allowed hr⟩
    · obtain ⟨b, hb, hall⟩ := ih hc
      exact ⟨b, mem_cons_of_mem a hb, hall⟩

/-! ### Stopping calls -/

/-- `c'` is `c`, possibly stopped or run. -/
structure Stopped (c c' : Call) : Prop where
  id : c'.id = c.id
  tool : c'.tool = c.tool
  input : c'.input = c.input
  refused : c'.refused = false → c.refused = false

theorem Stopped.refl (c : Call) : Stopped c c := ⟨rfl, rfl, rfl, fun h => h⟩

theorem Stopped.trans {c₁ c₂ c₃ : Call} (h₁ : Stopped c₁ c₂) (h₂ : Stopped c₂ c₃) :
    Stopped c₁ c₃ :=
  ⟨h₂.id.trans h₁.id, h₂.tool.trans h₁.tool, h₂.input.trans h₁.input,
    fun h => h₁.refused (h₂.refused h)⟩

theorem Stopped.refuse (c : Call) (reason : String) : Stopped c (c.refuse reason) :=
  ⟨rfl, rfl, rfl, nofun⟩

theorem stopped_refl : Forall₂ Stopped calls calls :=
  forall₂_same.2 fun c _ => Stopped.refl c

theorem stopped_trans {cs₁ cs₂ cs₃ : List Call} (h₁ : Forall₂ Stopped cs₁ cs₂)
    (h₂ : Forall₂ Stopped cs₂ cs₃) : Forall₂ Stopped cs₁ cs₃ := by
  induction h₁ generalizing cs₃ with
  | nil => exact h₂
  | cons h _ ih =>
    cases h₂ with
    | cons h' hrest => exact .cons (h.trans h') (ih hrest)

theorem stopped_ids {calls' : List Call} (h : Forall₂ Stopped calls calls') :
    calls'.map Call.id = calls.map Call.id := by
  induction h with
  | nil => rfl
  | cons h _ ih => rw [map_cons, map_cons, h.id, ih]

theorem stopped_mem {calls' : List Call} (h : Forall₂ Stopped calls calls') {c' : Call}
    (hc' : c' ∈ calls') : ∃ c ∈ calls, Stopped c c' := by
  induction h with
  | nil => cases hc'
  | cons h _ ih =>
    obtain rfl | hc' := mem_cons.1 hc'
    · exact ⟨_, mem_cons_self, h⟩
    · obtain ⟨c, hc, hs⟩ := ih hc'
      exact ⟨c, mem_cons_of_mem _ hc, hs⟩

/-! ### Approving -/

/-- The gates' answers: events of this turn, and a refusal among them is the answer. -/
theorem askGates_spec (set rest : List Call) (asked : List Gate) (tr : Trace) :
    ∃ seg, (askGates w n set rest asked tr).2 = tr ++ seg ∧
      (∀ e ∈ seg, ∃ g refusal, e = .batch n g refusal) ∧
      ((askGates w n set rest asked tr).1 = none → ∀ g reason, .batch n g (some reason) ∉ seg) := by
  induction rest generalizing asked tr with
  | nil => exact ⟨[], by simp [askGates]⟩
  | cons c rest ih =>
    unfold askGates
    split
    · exact ih asked tr
    next g _ =>
      split
      · split
        next reason _ =>
          exact ⟨[.batch n g (some reason)], rfl, by simp, by simp⟩
        · obtain ⟨seg, htr, hkind, hnone⟩ := ih (asked ++ [g]) (tr ++ [.batch n g none])
          refine ⟨.batch n g none :: seg, by rw [htr, append_assoc]; rfl, ?_, ?_⟩
          · simpa using hkind
          · intro h g' reason
            simpa using hnone h g' reason
      · exact ih asked tr

/-- Approving stops all the calls if a gate refuses, and none otherwise. -/
theorem approve_spec :
    ∃ seg, (approve w n calls tr).2 = tr ++ seg ∧
      (∀ e ∈ seg, ∃ g refusal, e = .batch n g refusal) ∧
      Forall₂ Stopped calls (approve w n calls tr).1 ∧
      ((∃ c ∈ (approve w n calls tr).1, c.refused = false) →
        ∀ g reason, .batch n g (some reason) ∉ seg) := by
  obtain ⟨seg, htr, hkind, hnone⟩ :=
    askGates_spec (live calls) (live calls) [] tr
  unfold approve
  split
  next h =>
    rw [h] at htr hnone
    exact ⟨seg, htr, hkind, stopped_refl, fun _ => hnone rfl⟩
  next h =>
    rw [h] at htr
    refine ⟨seg, htr, hkind, ?_, ?_⟩
    · rw [forall₂_map_right_iff, forall₂_same]
      intro c _
      split
      · exact Stopped.refl c
      · exact Stopped.refuse c _
    · rintro ⟨c, hc, hr⟩
      obtain ⟨c₀, -, rfl⟩ := mem_map.1 hc
      split at hr
      · simp_all
      · simp [Call.refuse] at hr

/-! ### Journalling -/

/-- Journalling adds an intent for each call that is left, and stops those the journal refuses. -/
theorem journalIntents_spec (n : Nat) (calls : List Call) (tr : Trace) :
    ∃ seg, (journalIntents w n calls tr).2 = tr ++ seg ∧
      (∀ e ∈ seg, ∃ c refusal, e = .intent n c refusal) ∧
      Forall₂ Stopped calls (journalIntents w n calls tr).1 ∧
      (w.journal.isSome → ∀ c ∈ (journalIntents w n calls tr).1, c.refused = false →
        .intent n c none ∈ seg) := by
  induction calls generalizing tr with
  | nil => exact ⟨[], by simp [journalIntents]⟩
  | cons c rest ih =>
    cases hj : w.journal with
    | none =>
      refine ⟨[], by simp [journalIntents, hj], by simp, ?_, by simp⟩
      simp only [journalIntents, hj]
      exact stopped_refl
    | some journal =>
      cases hr : c.refused with
      | true =>
        obtain ⟨seg, htr, hkind, hstop, hacc⟩ := ih tr
        simp only [journalIntents, hj, hr, if_true]
        refine ⟨seg, htr, hkind, .cons (.refl c) hstop, fun _ c' hc' hr' => ?_⟩
        obtain rfl | hc' := mem_cons.1 hc'
        · simp [hr] at hr'
        · exact hacc (by simp [hj]) c' hc' hr'
      | false =>
        obtain ⟨seg, htr, hkind, hstop, hacc⟩ := ih (tr ++ [.intent n c (journal tr c)])
        simp only [journalIntents, hj, hr, Bool.false_eq_true, if_false]
        refine ⟨.intent n c (journal tr c) :: seg, by rw [htr, append_assoc]; rfl, ?_, ?_, ?_⟩
        · simpa using hkind
        · refine .cons ?_ hstop
          cases journal tr c with
          | none => exact .refl c
          | some => exact .refuse c _
        · intro _ c' hc' hr'
          obtain rfl | hc' := mem_cons.1 hc'
          · cases ha : journal tr c with
            | none => simp [Option.elim]
            | some => simp [ha, Option.elim, Call.refuse] at hr'
          · exact mem_cons_of_mem _ (hacc (by simp [hj]) c' hc' hr')

/-! ### Running -/

theorem setOutput_stopped (id : String) (out : Option ToolOutput) :
    Forall₂ Stopped calls (setOutput id out calls) := by
  rw [setOutput, forall₂_map_right_iff, forall₂_same]
  intro c _
  split
  · exact ⟨rfl, rfl, rfl, fun h => h⟩
  · exact .refl c

theorem executeFor_trace (c : Call) :
    (executeFor w n c tr).2 = tr ∨ (executeFor w n c tr).2 = tr ++ [.execute n c] := by
  unfold executeFor
  simp only
  split
  · exact .inl rfl
  · exact .inr rfl

/-- Running executes some of the calls it is given, each at most once and in their order. -/
theorem runOrder_spec (order calls : List Call) (tr : Trace) :
    ∃ ran : List Call, (runOrder w n order calls tr).2 = tr ++ ran.map (.execute n) ∧
      ran.Sublist order ∧
      Forall₂ Stopped calls (runOrder w n order calls tr).1 := by
  induction order generalizing calls tr with
  | nil => exact ⟨[], by simp [runOrder], Sublist.refl _, stopped_refl⟩
  | cons c rest ih =>
    simp only [runOrder]
    obtain ⟨ran, htr, hsub, hstop⟩ :=
      ih (setOutput c.id (executeFor w n c tr).1 calls) (executeFor w n c tr).2
    have hstop' := stopped_trans (setOutput_stopped c.id _) hstop
    obtain h | h := executeFor_trace c
    · exact ⟨ran, by rw [htr, h], hsub.cons c, hstop'⟩
    · exact ⟨c :: ran, by rw [htr, h]; simp, hsub.cons_cons c, hstop'⟩

theorem mem_live {c : Call} : c ∈ live calls ↔ c ∈ calls ∧ c.refused = false := by
  simp [live]

/-- Running executes only calls that nothing stopped, no id twice. -/
theorem runCalls_spec (n : Nat) (calls : List Call) (tr : Trace) :
    ∃ ran : List Call, (runCalls w n calls tr).2 = tr ++ ran.map (.execute n) ∧
      (∀ c ∈ ran, c ∈ calls ∧ c.refused = false) ∧
      ((calls.map Call.id).Nodup → (ran.map Call.id).Nodup) ∧
      Forall₂ Stopped calls (runCalls w n calls tr).1 := by
  obtain ⟨ran, htr, hsub, hstop⟩ :=
    runOrder_spec (w.order tr (live calls)) calls tr
  have hperm := w.order_perm tr (live calls)
  refine ⟨ran, htr, fun c hc => mem_live.1 (hperm.subset (hsub.subset hc)), fun h => ?_, hstop⟩
  have hlive : ((live calls).map Call.id).Nodup := h.sublist (filter_sublist.map _)
  exact ((hperm.map Call.id).nodup_iff.2 hlive).sublist (hsub.map Call.id)

/-! ### Delivering -/

/-- `m` is a reply to `c`. -/
def Replies (c : Call) (m : Message) : Prop :=
  ∃ content, m = { role := .tool, content, toolCallId := some c.id }

/-- What delivering `calls` adds to the conversation. -/
structure Delivered (w : World) (n : Nat) (calls : List Call) (k k' : Conv) : Prop where
  trace : k'.trace = k.trace ++ if w.journal.isSome then calls.map (.result n) else []
  messages : ∃ replies, k'.request.messages = k.request.messages ++ replies ∧
    Forall₂ Replies calls replies
  records : k'.st.records.map CallRecord.id = k.st.records.map CallRecord.id ++ calls.map Call.id
  tools : k'.st.tools = k.st.tools
  seen : k'.st.seen = k.st.seen

theorem deliverOne_spec (share : Int) (k : Conv) (c : Call) :
    Delivered s.world n [c] k (deliverOne s n share k c) where
  trace := by
    simp only [deliverOne, journalResult]
    split <;> simp
  messages := ⟨_, rfl, .cons ⟨_, rfl⟩ .nil⟩
  records := by simp [deliverOne, callRecord]
  tools := rfl
  seen := rfl

/-- What delivering the calls of a reply does. -/
theorem deliver_spec (s : Setup) (n : Nat) (calls : List Call) (k : Conv) :
    Delivered s.world n calls k (deliver s n calls k) := by
  have hfold : ∀ (share : Int) (calls : List Call) (k : Conv),
      Delivered s.world n calls k (calls.foldl (deliverOne s n share) k) := by
    intro share calls
    induction calls with
    | nil => exact fun k => ⟨by simp, ⟨[], by simp⟩, by simp, rfl, rfl⟩
    | cons c rest ih =>
      intro k
      have h₁ := deliverOne_spec (s := s) (n := n) share k c
      have h₂ := ih (deliverOne s n share k c)
      obtain ⟨m, hm, hrep⟩ := h₁.messages
      obtain ⟨ms, hms, hreps⟩ := h₂.messages
      refine ⟨?_, ⟨m ++ ms, ?_, rel_append hrep hreps⟩, ?_, h₂.tools.trans h₁.tools,
        h₂.seen.trans h₁.seen⟩
      · rw [foldl_cons, h₂.trace, h₁.trace]
        split <;> simp
      · rw [foldl_cons, hms, hm, append_assoc]
      · rw [foldl_cons, h₂.records, h₁.records]
        simp
  exact hfold _ calls k

/-! ### The turn -/

/-- A message with no part in a tool call. -/
def Message.Plain (m : Message) : Prop := m.toolCalls = [] ∧ m.role ≠ .tool

theorem noteDropped_spec (kept total : Nat) (k : Conv) :
    ∃ note, (∀ m ∈ note, Message.Plain m) ∧
      (noteDropped kept total k).request.messages = k.request.messages ++ note ∧
      (noteDropped kept total k).trace = k.trace ∧
      (noteDropped kept total k).st.tools = k.st.tools ∧
      (noteDropped kept total k).st.seen = k.st.seen ∧
      (noteDropped kept total k).st.records = k.st.records := by
  unfold noteDropped
  split
  · exact ⟨_, by simp [Message.Plain], rfl, rfl, rfl, rfl, rfl⟩
  · exact ⟨[], by simp, by simp, rfl, rfl, rfl, rfl⟩

/-- What settling a turn's calls does, and in which order. -/
theorem settle_spec :
    ∃ (batches intents : Trace) (ran : List Call),
      (settle w n calls tr).2 = tr ++ (batches ++ intents ++ ran.map (.execute n)) ∧
      (∀ e ∈ batches, ∃ g refusal, e = .batch n g refusal) ∧
      (∀ e ∈ intents, ∃ c refusal, e = .intent n c refusal) ∧
      Forall₂ Stopped calls (settle w n calls tr).1 ∧
      ((calls.map Call.id).Nodup → (ran.map Call.id).Nodup) ∧
      ∀ c ∈ ran, (∃ c₀ ∈ calls, Stopped c₀ c) ∧ c.refused = false ∧
        (∀ g reason, .batch n g (some reason) ∉ batches) ∧
        (w.journal.isSome → .intent n c none ∈ intents) := by
  obtain ⟨batches, htr₁, hk₁, hstop₁, hok₁⟩ := approve_spec
  obtain ⟨intents, htr₂, hk₂, hstop₂, hok₂⟩ :=
    journalIntents_spec n (approve w n calls tr).1 (approve w n calls tr).2
  have hstop := stopped_trans hstop₁ hstop₂
  obtain ⟨ran, htr₃, hran, hnodup, hstop₃⟩ :=
    runCalls_spec n (journalIntents w n (approve w n calls tr).1 (approve w n calls tr).2).1
      (journalIntents w n (approve w n calls tr).1 (approve w n calls tr).2).2
  rw [stopped_ids hstop] at hnodup
  refine ⟨batches, intents, ran, ?_, hk₁, hk₂, stopped_trans hstop hstop₃, hnodup, ?_⟩
  · refine htr₃.trans ?_
    rw [htr₂, htr₁]
    simp
  · intro c hc
    obtain ⟨hmem, hr⟩ := hran c hc
    obtain ⟨c₁, hc₁, hs₁⟩ := stopped_mem hstop₂ hmem
    exact ⟨stopped_mem hstop hmem, hr, hok₁ ⟨c₁, hc₁, hs₁.refused hr⟩, fun hj => hok₂ hj c hmem hr⟩

/-- What a turn between its checks does: `calls` are those it put in the transcript, and `seg` what
it added to the trace. -/
structure TurnSpec (s : Setup) (k : Conv) (resp : Response) (calls : List Call) (seg : Trace)
    (k' : Conv) : Prop where
  trace : k'.trace = k.trace ++ seg
  tools : k'.st.tools = k.st.tools
  seen : k'.st.seen = k.st.seen ++ calls.map Call.id
  nodup : k.st.seen.Nodup → k'.st.seen.Nodup
  records : k'.st.records.map CallRecord.id = k.st.records.map CallRecord.id ++ calls.map Call.id
  messages : ∃ replies note,
    k'.request.messages = k.request.messages ++
      { role := .assistant, content := resp.content, toolCalls := calls.map Call.echo : Message } ::
        (replies ++ note) ∧
      Forall₂ Replies calls replies ∧ ∀ m ∈ note, Message.Plain m
  turnNo : ∀ e ∈ seg, e.turnNo = some (k.st.steps + 1)
  turned : ∀ n ms, .turned n ms ∈ seg → ms = k'.request.messages
  echoed : echoed seg = calls
  resulted : (resulted seg).map Call.id = if s.world.journal.isSome then calls.map Call.id else []
  executed_nodup : k.st.seen.Nodup → ((executed seg).map Call.id).Nodup
  executed : ∀ c ∈ executed seg,
    c.id ∈ calls.map Call.id ∧ (∃ a ∈ resp.toolCalls, Allowed s.texts k.st.tools a c) ∧
      (∀ n g reason, .batch n g (some reason) ∉ seg) ∧
      (s.world.journal.isSome → .intent (k.st.steps + 1) c none ∈ seg)
  ordered : seg.Pairwise IntentFirst

/-- The segments of a turn's trace, in order. -/
structure Segments (s : Setup) (n : Nat) (calls settled ran : List Call) (ms : List Message)
    (batches intents seg : Trace) : Prop where
  eq : seg = [.echo n calls] ++ batches ++ intents ++ ran.map (.execute n) ++
    (if s.world.journal.isSome then settled.map (.result n) else []) ++ [.turned n ms]
  batches : ∀ e ∈ batches, ∃ g refusal, e = .batch n g refusal
  intents : ∀ e ∈ intents, ∃ c refusal, e = .intent n c refusal

namespace Segments

variable {settled ran : List Call} {ms : List Message} {batches intents seg : Trace}

variable (h : Segments s n calls settled ran ms batches intents seg)
include h

/-- An event of the turn is of one of the six kinds. -/
theorem mem {e : Event} (he : e ∈ seg) :
    e = .echo n calls ∨ e ∈ batches ∨ e ∈ intents ∨ (∃ c ∈ ran, e = .execute n c) ∨
      (∃ c ∈ settled, e = .result n c) ∨ e = .turned n ms := by
  rw [h.eq] at he
  simp only [mem_append, mem_singleton, mem_map] at he
  obtain ((((he | he) | he) | ⟨c, hc, rfl⟩) | he) | he := he
  · exact .inl he
  · exact .inr (.inl he)
  · exact .inr (.inr (.inl he))
  · exact .inr (.inr (.inr (.inl ⟨c, hc, rfl⟩)))
  · split at he
    · obtain ⟨c, hc, rfl⟩ := mem_map.1 he
      exact .inr (.inr (.inr (.inr (.inl ⟨c, hc, rfl⟩))))
    · cases he
  · exact .inr (.inr (.inr (.inr (.inr he))))

/-- A gate's answer in the turn is among the answers. -/
theorem batch_mem {m : Nat} {g : Gate} {refusal : Option String} (hmem : .batch m g refusal ∈ seg) :
    m = n ∧ .batch m g refusal ∈ batches := by
  obtain he | hbatch | he | ⟨c, -, he⟩ | ⟨c, -, he⟩ | he := h.mem hmem
  · cases he
  · obtain ⟨g', refusal', heq⟩ := h.batches _ hbatch
    exact ⟨(Event.batch.inj heq).1, hbatch⟩
  · obtain ⟨c, refusal', heq⟩ := h.intents _ he
    cases heq
  · cases he
  · cases he
  · cases he

/-- The turn leaves one transcript. -/
theorem turned_eq {m : Nat} {ms' : List Message} (hmem : .turned m ms' ∈ seg) : ms' = ms := by
  obtain he | he | he | ⟨c, -, he⟩ | ⟨c, -, he⟩ | he := h.mem hmem
  · cases he
  · obtain ⟨g, refusal, heq⟩ := h.batches _ he
    cases heq
  · obtain ⟨c, refusal, heq⟩ := h.intents _ he
    cases heq
  · cases he
  · cases he
  · exact (Event.turned.inj he).2

theorem turnNo {e : Event} (he : e ∈ seg) : e.turnNo = some n := by
  obtain rfl | he | he | ⟨c, -, rfl⟩ | ⟨c, -, rfl⟩ | rfl := h.mem he
  · rfl
  · obtain ⟨g, refusal, rfl⟩ := h.batches e he
    rfl
  · obtain ⟨c, refusal, rfl⟩ := h.intents e he
    rfl
  · rfl
  · rfl
  · rfl

/-- Reading off calls: the gates' and the journal's answers hold none of those looked for. -/
theorem flatMap {f : Event → List Call}
    (hb : ∀ g refusal, f (.batch n g refusal) = []) (hi : ∀ c refusal,
      f (.intent n c refusal) = []) :
    seg.flatMap f = f (.echo n calls) ++ ran.flatMap (fun c => f (.execute n c)) ++
      (if s.world.journal.isSome then settled.flatMap fun c => f (.result n c) else []) ++
      f (.turned n ms) := by
  have hbatches : batches.flatMap f = [] := by
    rw [flatMap_eq_nil_iff]
    intro e he
    obtain ⟨g, refusal, rfl⟩ := h.batches e he
    exact hb g refusal
  have hintents : intents.flatMap f = [] := by
    rw [flatMap_eq_nil_iff]
    intro e he
    obtain ⟨c, refusal, rfl⟩ := h.intents e he
    exact hi c refusal
  rw [h.eq]
  simp only [flatMap_append, hbatches, hintents, flatMap_map, flatMap_singleton,
    append_nil]
  split <;> simp [flatMap_map]

theorem echoed : ToolLoop.echoed seg = calls := by
  rw [ToolLoop.echoed, h.flatMap (fun _ _ => rfl) (fun _ _ => rfl)]
  simp

theorem executed : ToolLoop.executed seg = ran := by
  rw [ToolLoop.executed, h.flatMap (fun _ _ => rfl) (fun _ _ => rfl)]
  simp

theorem resulted : ToolLoop.resulted seg = if s.world.journal.isSome then settled else [] := by
  rw [ToolLoop.resulted, h.flatMap (fun _ _ => rfl) (fun _ _ => rfl)]
  simp

/-- No intent comes after an execution. -/
theorem ordered : seg.Pairwise IntentFirst := by
  -- The intents are all in the first half, and the executions in the second.
  have hfirst : ∀ e ∈ [.echo n calls] ++ batches ++ intents, ∀ m c, e ≠ .execute m c := by
    intro e he m c
    simp only [mem_append, mem_singleton] at he
    obtain (rfl | he) | he := he
    · exact nofun
    · obtain ⟨g, refusal, rfl⟩ := h.batches e he
      exact nofun
    · obtain ⟨c, refusal, rfl⟩ := h.intents e he
      exact nofun
  have hsecond : ∀ e ∈ ran.map (Event.execute n) ++
      ((if s.world.journal.isSome then settled.map (Event.result n) else []) ++ [.turned n ms]),
      ∀ m c r, e ≠ .intent m c r := by
    intro e he m c r
    simp only [mem_append, mem_singleton, mem_map] at he
    obtain ⟨c, -, rfl⟩ | he | rfl := he
    · exact nofun
    · split at he
      · obtain ⟨c, -, rfl⟩ := mem_map.1 he
        exact nofun
      · cases he
    · exact nofun
  rw [h.eq, append_assoc, append_assoc, pairwise_append]
  refine ⟨?_, ?_, fun e he e' he' m c c' r heq _ => hfirst e he m c heq⟩
  · exact Pairwise.imp_of_mem
      (fun he _ _ m c c' r heq => absurd heq (hfirst _ he m c))
        (pairwise_of_forall fun _ _ => trivial)
  · exact Pairwise.imp_of_mem
      (fun _ he' _ m c c' r _ => hsecond _ he' m c' r) (pairwise_of_forall fun _ _ => trivial)

end Segments

theorem Replies.of_stopped {settled : List Call} {replies : List Message}
    (h : Forall₂ Stopped calls settled) (hr : Forall₂ Replies settled replies) :
    Forall₂ Replies calls replies := by
  induction h generalizing replies with
  | nil => exact hr
  | cons hs _ ih =>
    cases hr with
    | cons hm hrest =>
      obtain ⟨content, rfl⟩ := hm
      exact .cons ⟨content, by rw [hs.id]⟩ (ih hrest)

theorem Allowed.of_stopped {tools : List Tool} {a : ChatToolCall} {c c' : Call}
    (h : Allowed texts tools a c) (hs : Stopped c c') : Allowed texts tools a c' := by
  obtain ⟨t, v, ht, hname, htool, hread, hobj, hinput⟩ := h
  exact ⟨t, v, ht, hname, hs.tool.trans htool, hread, hobj, hs.input.trans hinput⟩

/-- What opening a turn does. -/
structure Opened (s : Setup) (k : Conv) (resp : Response) (calls : List Call) (k' : Conv) :
    Prop where
  trace : k'.trace = k.trace ++ [.echo (k.st.steps + 1) calls]
  tools : k'.st.tools = k.st.tools
  seen : k'.st.seen = k.st.seen ++ calls.map Call.id
  nodup : k.st.seen.Nodup → k'.st.seen.Nodup
  records : k'.st.records = k.st.records
  messages : k'.request.messages = k.request.messages ++
    [{ role := .assistant, content := resp.content, toolCalls := calls.map Call.echo }]
  allowed : ∀ c ∈ calls, c.refused = false → ∃ a ∈ resp.toolCalls, Allowed s.texts k.st.tools a c

/-- How a turn opens. -/
theorem openTurn_spec (s : Setup) (k : Conv) (resp : Response) :
    Opened s k resp (openTurn s k resp).1 (openTurn s k resp).2 := by
  have hstate := prepareAll_state s.texts (resp.toolCalls.take s.limits.maxCalls)
    { k.st with steps := k.st.steps + 1 } 0
  have hnodup := prepareAll_nodup s.texts (resp.toolCalls.take s.limits.maxCalls)
    { k.st with steps := k.st.steps + 1 } 0
  refine ⟨rfl, ?_, ?_, hnodup, ?_, rfl, fun c hc hr => ?_⟩
  · simp only [openTurn, hstate]
  · simp only [openTurn, hstate]
  · simp only [openTurn, hstate]
  · obtain ⟨a, ha, hall⟩ := prepareAll_allowed hc hr
    exact ⟨a, mem_of_mem_take ha, hall⟩

/-- What closing a turn does. -/
structure Closed (s : Setup) (n : Nat) (settled : List Call) (k k' : Conv) : Prop where
  trace : k'.trace = k.trace ++
    ((if s.world.journal.isSome then settled.map (.result n) else []) ++
      [.turned n k'.request.messages])
  tools : k'.st.tools = k.st.tools
  seen : k'.st.seen = k.st.seen
  records : k'.st.records.map CallRecord.id = k.st.records.map CallRecord.id ++ settled.map Call.id
  messages : ∃ replies note, k'.request.messages = k.request.messages ++ (replies ++ note) ∧
    Forall₂ Replies settled replies ∧ ∀ m ∈ note, Message.Plain m

/-- How a turn closes. -/
theorem closeTurn_spec (s : Setup) (n : Nat) (resp : Response) (settled : List Call) (k : Conv) :
    Closed s n settled k (closeTurn s n resp settled k) := by
  have hdel := deliver_spec s n settled k
  obtain ⟨replies, hreplies, hrep⟩ := hdel.messages
  obtain ⟨note, hplain, hmsgs, htrace, htools, hseen, hrec⟩ :=
    noteDropped_spec (min resp.toolCalls.length s.limits.maxCalls) resp.toolCalls.length
      (deliver s n settled k)
  refine ⟨?_, htools.trans hdel.tools, hseen.trans hdel.seen, ?_, replies, note, ?_, hrep, hplain⟩
  · simp [closeTurn, htrace, hdel.trace]
  · simp only [closeTurn, hrec, hdel.records]
  · simp [closeTurn, hmsgs, hreplies]

/-- **What a turn does**, between its checks. -/
theorem turnBody_spec (k : Conv) (resp : Response) :
    ∃ calls seg, TurnSpec s k resp calls seg (turnBody s k resp) := by
  have hopen := openTurn_spec s k resp
  generalize hk₁ : openTurn s k resp = opened at hopen
  obtain ⟨calls, k₁⟩ := opened
  have hids : k.st.seen.Nodup → (calls.map Call.id).Nodup := by
    intro h
    have := hopen.nodup h
    rw [hopen.seen] at this
    exact this.of_append_right
  obtain ⟨batches, intents, ran, htr, hb, hi, hstop, hran, hok⟩ :=
    settle_spec
  generalize hset : settle s.world (k.st.steps + 1) calls k₁.trace = settled at htr hstop
  obtain ⟨settled, tr⟩ := settled
  replace htr : tr = k₁.trace ++ _ := htr
  have hclose := closeTurn_spec s (k.st.steps + 1) resp settled { k₁ with trace := tr }
  have hbody : turnBody s k resp =
      closeTurn s (k.st.steps + 1) resp settled { k₁ with trace := tr } := by
    simp only [turnBody, hk₁, hset]
  rw [← hbody] at hclose
  have hseg : Segments s (k.st.steps + 1) calls settled ran (turnBody s k resp).request.messages
      batches intents _ := ⟨rfl, hb, hi⟩
  have hstopids := stopped_ids hstop
  obtain ⟨replies, note, hmsgs, hrep, hplain⟩ := hclose.messages
  refine ⟨calls, _,
    { trace := ?_
      tools := hclose.tools.trans hopen.tools
      seen := hclose.seen.trans hopen.seen
      nodup := by rw [hclose.seen]; exact hopen.nodup
      records := by rw [hclose.records, hstopids, hopen.records]
      messages := ⟨replies, note, ?_, Replies.of_stopped hstop hrep, hplain⟩
      turnNo := fun e he => hseg.turnNo he
      turned := fun n ms hmem => hseg.turned_eq hmem
      echoed := hseg.echoed
      resulted := ?_
      executed_nodup := fun h => by rw [hseg.executed]; exact hran (hids h)
      executed := fun c hc => ?_
      ordered := hseg.ordered }⟩
  · rw [hclose.trace, htr, hopen.trace]
    simp
  · rw [hmsgs, hopen.messages, append_assoc, singleton_append]
  · rw [hseg.resulted]
    split
    · exact hstopids
    · rfl
  · rw [hseg.executed] at hc
    obtain ⟨⟨c₀, hc₀, hs⟩, hr, hbatch, hintent⟩ := hok c hc
    obtain ⟨a, ha, hall⟩ := hopen.allowed c₀ hc₀ (hs.refused hr)
    refine ⟨?_, ⟨a, ha, hall.of_stopped hs⟩, fun n g reason hmem => ?_, fun hj => ?_⟩
    · rw [hs.id]
      exact mem_map_of_mem hc₀
    · obtain ⟨rfl, hmem⟩ := hseg.batch_mem hmem
      exact hbatch g reason hmem
    · simp [hintent hj]

end Agnosai.ToolLoop
