import Agnosai.Llm.Usage
import Agnosai.Orchestrator.Answer.Steps

/-!
# Orchestrator — Answer — Usage

What a task's result says it cost. Usage is carried from answer to answer within a conversation,
and from one conversation to the next, where the source tells a new answer from an old one by its
address. An address is the length of the trace when the answer came, so an answer that came later
has another one (`Reply.carry`).

A sum of tokens can wrap around, and a negative cost can bring the sum of the costs to the value
that stands for none (`usage_lost`).
-/

namespace Agnosai.Answer

open Llm ToolLoop List Int64

variable {s : Setup} {tr tr' : Trace}

/-! ### Turns -/

/-- No response came between `tr` and `tr'`. -/
def Silent (tr tr' : Trace) : Prop := ∃ seg, tr' = tr ++ seg ∧ received seg = []

theorem Silent.trans {tr₁ tr₂ tr₃ : Trace} (h : Silent tr₁ tr₂) (h' : Silent tr₂ tr₃) :
    Silent tr₁ tr₃ := by
  obtain ⟨seg, rfl, hrec⟩ := h
  obtain ⟨seg', rfl, hrec'⟩ := h'
  exact ⟨seg ++ seg', append_assoc .., by rw [received_append, hrec, hrec', append_nil]⟩

theorem taskHalt_silent {w : World} {why : Option String} (h : taskHalt w tr = (why, tr')) :
    Silent tr tr' := by
  obtain ⟨seg, htr, -, hrec⟩ := taskHalt_spec w tr { model := "" }
  rw [h] at htr
  exact ⟨seg, htr, hrec⟩

theorem turnBody_silent (s : Setup) (k : Conv) (resp : Response) :
    Silent k.trace (turnBody s k resp).trace := by
  obtain ⟨calls, seg, hturn⟩ := turnBody_spec k resp
  refine ⟨seg, hturn.trace, received_eq_nil fun e he r heq => ?_⟩
  subst heq
  cases hturn.turnNo _ he

/-- A turn brings no response. -/
theorem turn_silent {k k' : Conv} {resp : Response} {why : Option String}
    (h : turn s k resp = (why, k')) : Silent k.trace k'.trace := by
  have hbody := turnBody_silent s k resp
  cases turn_turned h with
  | halted hhalt => exact taskHalt_silent hhalt
  | spent => exact ⟨[], (append_nil _).symm, rfl⟩
  | taken => exact hbody
  | stopped _ hhalt => exact hbody.trans (taskHalt_silent hhalt)

/-! ### Conversations -/

/-- `r` came after `tr`, and has the usage of all the responses since. -/
structure Newer (tr tr' : Trace) (r : Reply) : Prop where
  carried : ∃ seg, tr' = tr ++ seg ∧ Carried (received seg) r.body
  after : tr.length < r.addr
  before : r.addr ≤ tr'.length

/-- How the conversation that began at `tr`, when the last answer was `out`, stands at `tr'`. -/
def Paid (tr : Trace) (out : Option Reply) (o : Outcome) (tr' : Trace) : Prop :=
  (Silent tr tr' ∧ ∃ err, o = .failed err out) ∨
    ∃ r, o.reply = some r ∧ Newer tr tr' r

/-- Nothing received leaves an answer as new as it was. -/
theorem Newer.silent {tr'' : Trace} {r : Reply} (h : Newer tr tr' r) (hsilent : Silent tr' tr'') :
    Newer tr tr'' r := by
  obtain ⟨seg₀, rfl, hcarried⟩ := h.carried
  obtain ⟨seg, rfl, hrec⟩ := hsilent
  refine ⟨⟨seg₀ ++ seg, append_assoc .., ?_⟩, h.after, ?_⟩
  · rwa [received_append, hrec, append_nil]
  · exact le_trans h.before (by simp)

variable {r : Response}

/-- The first answer of a conversation. -/
theorem Newer.first {seg : Trace} (hrec : received seg = [r]) :
    Newer tr (tr ++ seg) { addr := (tr ++ seg).length, body := r } := by
  have hpos : seg ≠ [] := by
    rintro rfl
    cases hrec
  refine ⟨⟨seg, rfl, hrec ▸ .one r⟩, ?_, le_rfl⟩
  simpa [length_pos_iff] using hpos

/-- A further answer takes on the usage of the one before. -/
theorem Newer.next {prior : Reply} {seg : Trace} (h : Newer tr tr' prior)
    (hrec : received seg = [r]) :
    Newer tr (tr' ++ seg) { addr := (tr' ++ seg).length, body := r.carryUsage prior.body } := by
  obtain ⟨seg₀, rfl, hcarried⟩ := h.carried
  refine ⟨⟨seg₀ ++ seg, append_assoc .., ?_⟩, ?_, le_rfl⟩
  · rw [received_append, hrec]
    exact .carry hcarried (.one r)
  · exact lt_of_lt_of_le h.after (le_trans h.before (by simp))

/-- **A conversation is paid for.** -/
theorem converse_paid (s : Setup) (talk : Talk) (out : Option Reply) :
    Paid talk.trace out (converse s talk out).1 (converse s talk out).2.trace := by
  refine converse_rule (J := fun t => Newer talk.trace t.trace)
    (Q := fun o t => Paid talk.trace out o t.trace) ?_ ?_ ?_ ?_ ?_ ?_
  · intro err tr hchat
    obtain ⟨seg, rfl, -, hrec⟩ := chat_noted hchat
    exact .inl ⟨⟨seg, rfl, hrec⟩, err, rfl⟩
  · intro r tr hchat
    obtain ⟨seg, rfl, -, hrec⟩ := chat_noted hchat
    exact .first hrec
  · exact fun _ reply h => .inr ⟨reply, rfl, h⟩
  · exact fun _ reply _ _ h hturn => .inr ⟨reply, rfl, h.silent (turn_silent hturn)⟩
  · intro k reply k' err tr h hturn hchat
    obtain ⟨seg, htr, -, hrec⟩ := chat_noted hchat
    exact .inr ⟨reply, rfl, (h.silent (turn_silent hturn)).silent ⟨seg, htr, hrec⟩⟩
  · intro k reply k' r tr h hturn hchat
    obtain ⟨seg, rfl, -, hrec⟩ := chat_noted hchat
    exact (h.silent (turn_silent hturn)).next hrec

/-! ### From one conversation to the next -/

/-- What came before a silence may be left out. -/
theorem Paid.after_silence {tr'' : Trace} {out : Option Reply} {o : Outcome}
    (hsilent : Silent tr tr') (h : Paid tr' out o tr'') : Paid tr out o tr'' := by
  obtain ⟨hsilent', herr⟩ | ⟨r, hr, hnewer⟩ := h
  · exact .inl ⟨hsilent.trans hsilent', herr⟩
  · obtain ⟨seg, rfl, hrec⟩ := hsilent
    obtain ⟨seg', rfl, hcarried⟩ := hnewer.carried
    refine .inr ⟨r, hr, ⟨seg ++ seg', append_assoc .., ?_⟩, ?_, hnewer.before⟩
    · rwa [received_append, hrec, nil_append]
    · exact lt_of_le_of_lt (by simp) hnewer.after

/-- A newer answer has another address, so the usage of the old one is carried to it. -/
theorem Newer.carry {prior r : Reply} (h : Newer tr tr' r) (haddr : prior.addr ≤ tr.length)
    (hprior : Carried (received tr) prior.body) :
    (prior.carry r).addr = r.addr ∧ Carried (received tr') (prior.carry r).body := by
  have hne : r.addr ≠ prior.addr := ne_of_gt (lt_of_le_of_lt haddr h.after)
  obtain ⟨seg, rfl, hcarried⟩ := h.carried
  rw [Reply.carry, if_neg hne, received_append]
  exact ⟨rfl, .carry hprior hcarried⟩

theorem firstAnswer_paid {e : Engine} {task : Task} {agent : Option Agent} {model model' : String}
    {st : Option TaskState} {o : Outcome} {talk : Talk}
    (h : firstAnswer e task agent model st tr = (model', o, talk)) : Paid tr none o talk.trace := by
  have hpaid := fun request tr => converse_paid e.setup ⟨st, request, tr⟩ none
  obtain hfirst | ⟨-, seg, -, -, hrec, hsecond⟩ := firstAnswer_cases h
  · have := hpaid (buildRequest e.prompts task agent model none) tr
    rwa [hfirst] at this
  · -- a refused model brought no answer, so the next one is asked with nothing to carry
    have := hpaid (buildRequest e.prompts task agent model' none) (tr ++ seg)
    rw [hsecond] at this
    exact .after_silence ⟨seg, rfl, hrec⟩ this

/-- What holds of every answer that is checked. -/
structure Checked (talk : Talk) (reply : Reply) : Prop where
  addr : reply.addr ≤ talk.trace.length
  carried : Carried (received talk.trace) reply.body

variable (e : Engine) (task : Task) (agent : Option Agent) (model : String)

/-- The last reply carries all the usage so far. -/
theorem validateLoop_carried (schema : Json) (retries : Nat) {talk : Talk} {reply : Reply}
    (h : Checked talk reply) :
    ∃ r, (validateLoop e task agent model schema retries talk reply).outcome.reply = some r ∧
      Carried (received (validateLoop e task agent model schema retries talk reply).talk.trace)
        r.body := by
  refine validateLoop_rule e task agent model schema (I := fun _ => Checked)
    (Q := fun d => ∃ r, d.outcome.reply = some r ∧ Carried (received d.talk.trace) r.body)
    ?_ ?_ ?_ retries h
  · rintro _ talk reply d h hanswered rfl
    exact ⟨reply, by rw [hanswered]; rfl, h.carried⟩
  · intro _ talk reply prompt r talk' h hconv
    have hpaid := converse_paid e.setup (talk.retry e task agent model prompt) (some reply)
    rw [hconv] at hpaid
    obtain ⟨-, err, herr⟩ | ⟨r', hr', hnewer⟩ := hpaid
    · cases herr
    · cases hr'
      obtain ⟨haddr, hcarried⟩ := hnewer.carry h.addr h.carried
      exact ⟨haddr ▸ hnewer.before, hcarried⟩
  · rintro _ talk reply prompt err last talk' d h hconv hfailed rfl
    have hpaid := converse_paid e.setup (talk.retry e task agent model prompt) (some reply)
    rw [hconv] at hpaid
    rw [hfailed]
    obtain ⟨⟨seg, htr, hrec⟩, err', herr⟩ | ⟨r', hr', hnewer⟩ := hpaid
    · -- the answer there was is its own last one, and is not counted again
      cases herr
      refine ⟨reply, by simp [Outcome.reply, Reply.carry], ?_⟩
      rw [htr, received_append, hrec, append_nil]
      exact h.carried
    · cases hr'
      exact ⟨_, rfl, (hnewer.carry h.addr h.carried).2⟩

/-- The responses are all accounted for in the last answer, if there was one. -/
def Billed (rs : List Response) (last : Option Reply) : Prop :=
  (rs = [] ∧ last = none) ∨ ∃ r, last = some r ∧ Carried rs r.body

/-- Every response is billed. -/
theorem discuss_billed (st : Option TaskState) :
    Billed (received (discuss e task agent model st []).2.talk.trace)
      (discuss e task agent model st []).2.outcome.reply := by
  unfold discuss
  split
  next model' reply talk schema h _ =>
    obtain ⟨-, err, herr⟩ | ⟨r, hr, hnewer⟩ := firstAnswer_paid h
    · cases herr
    · cases hr
      obtain ⟨seg, htr, hcarried⟩ := hnewer.carried
      refine .inr (validateLoop_carried e task agent model' schema _ ⟨hnewer.before, ?_⟩)
      rwa [htr]
  next h _ =>
    obtain ⟨⟨seg, htr, hrec⟩, err, rfl⟩ | ⟨r, hr, hnewer⟩ := firstAnswer_paid h
    · exact .inl ⟨by rw [htr]; exact hrec, rfl⟩
    · obtain ⟨seg, htr, hcarried⟩ := hnewer.carried
      exact .inr ⟨r, hr, by rwa [htr]⟩

/-! ### The result -/

/-- The token counts a result gives for an answer. -/
def tokenCounts (r : Response) : TokenCounts :=
  { prompt := r.promptTokens, completion := r.completionTokens, total := r.totalTokens }

/-- The result's metadata give the usage of the last answer, if there was one. -/
theorem conclude_usage (d : Ending) :
    (conclude e task agent model d).metadata.tokens =
        d.outcome.reply.map (fun r => tokenCounts r.body) ∧
      (conclude e task agent model d).metadata.costMicroUsd.map toInt =
        d.outcome.reply.bind (fun r => r.body.reportedCost) := by
  obtain ⟨md, h⟩ := conclude_spec e task agent model d
  rw [h.metadata]
  cases d.outcome.reply with
  | none => exact ⟨h.tokens, by rw [Option.elim_none, h.cost]; rfl⟩
  | some r =>
    refine ⟨rfl, ?_⟩
    simp only [Option.elim_some, answerMetadata, attributeProvider, Option.bind_some,
      Response.reportedCost]
    by_cases hcost : r.body.costMicroUsd = noLimit
    · simp [hcost]
    · simp [hcost]

/-- The sums of the responses' token counts, as 64-bit numbers, if there are responses. -/
def summedTokens (rs : List Response) : Option TokenCounts :=
  if rs = [] then none
  else some
    { prompt := ofInt (total Response.promptTokens rs)
      completion := ofInt (total Response.completionTokens rs)
      total := ofInt (total Response.totalTokens rs) }

/-- The metadata say what the responses cost. -/
structure Accounts (rs : List Response) (md : TaskMetadata) : Prop where
  tokens : md.tokens = summedTokens rs
  cost : (∀ c ∈ reportedCosts rs, 0 ≤ c) → (reportedCosts rs).sum < 2 ^ 63 →
    md.costMicroUsd.map toInt = costOf rs

/-- With no response there is no usage. -/
theorem Accounts.nil {md : TaskMetadata} (htokens : md.tokens = none)
    (hcost : md.costMicroUsd = none) : Accounts [] md where
  tokens := htokens
  cost _ _ := by rw [hcost]; rfl

theorem carried_ne_nil {rs : List Response} (h : Carried rs r) : rs ≠ [] := by
  induction h with
  | one r => exact cons_ne_nil r []
  | carry _ _ ih => exact append_ne_nil_of_left_ne_nil ih _

/-- The metadata accounts for every reply. -/
theorem answer_accounts (st : Option TaskState) :
    Accounts (received (answer e task agent model st []).2.trace)
      (answer e task agent model st []).1.metadata := by
  obtain ⟨htokens, hcost⟩ := conclude_usage e task agent (discuss e task agent model st []).1
    (discuss e task agent model st []).2
  unfold answer
  obtain ⟨hnil, hlast⟩ | ⟨r, hlast, hcarried⟩ := discuss_billed e task agent model st
  · rw [hlast] at htokens hcost
    rw [hnil]
    exact .nil htokens (Option.map_eq_none_iff.1 hcost)
  · rw [hlast] at htokens hcost
    refine ⟨htokens.trans ?_,
      fun hnonneg hfits => hcost.trans (hcarried.reportedCost hnonneg hfits)⟩
    rw [summedTokens, if_neg (carried_ne_nil hcarried), ← hcarried.promptTokens,
      ← hcarried.completionTokens, ← hcarried.totalTokens]
    rfl

theorem Executed.accounts {e : Engine} {task : Task} {agent : Option Agent} {tools : List Tool}
    {out : TaskResult × Trace} (h : Executed e task agent tools out) :
    Accounts (received out.2) out.1.metadata := by
  cases h with
  | unselected => exact .nil rfl rfl
  | refused => exact .nil rfl rfl
  | plain model => exact answer_accounts e task agent model none
  | tooled model =>
    -- finishing the task adds its tool calls, and leaves its usage
    have h := answer_accounts e task agent model (some { tools })
    exact ⟨h.tokens, h.cost⟩

/-- **Usage is summed.** Whatever the model answers, the token counts of a task's result are the
sums over all the responses the task received; and the cost is the sum of the costs they reported,
and absent exactly when none did, as long as no cost is negative and the sum fits. -/
theorem usage_summed (registry : Option (String → Option Tool))
    (redacted : String → String) (task : Task) (agent : Option Agent) :
    Accounts (received (executeTask (some e) registry redacted task agent []).2)
      (executeTask (some e) registry redacted task agent []).1.metadata :=
  (executeTask_executed e registry redacted task agent).accounts

/-! ### A task that is answered twice -/

/-- A world in which the model answers `first`, and `second` to everything after. -/
def twiceWorld (first second : Response) : World where
  chat tr _ := .ok (if (received tr).isEmpty then first else second)
  halt _ := none
  gate _ _ := none
  batch _ _ _ := none
  gateCall _ _ _ := none
  journal := none
  execute _ _ := none
  heldBack _ _ _ := none
  order _ calls := calls
  order_perm _ calls := .refl calls

/-- An engine for it, whose check takes every answer but the empty one. -/
def twiceEngine (first second : Response) : Engine where
  setup :=
    { world := twiceWorld first second
      texts :=
        { parse := fun _ => none
          build := fun _ => ""
          redact := none
          redactValue := id
          outputText := fun _ _ => ""
          scan := fun _ => none
          wrap := fun text _ => text } }
  prompts :=
    { systemPrompt := fun _ => ""
      context := fun _ => none
      userMessage := fun _ => ""
      retryPrompt := fun _ _ _ _ _ => ""
      filterOutput := id
      validate := fun content _ => (if content.isEmpty then some "empty" else none, content) }
  selectModel _ _ := .ok "m"
  selectionFixed _ := true
  catalogOwner _ _ := none

/-- The task, which has an output schema. -/
def twiceTask : Task := { id := "t", description := "", outputSchema := some .null }

/-- An empty answer with so many prompt tokens and at this cost, and then one that says
something. -/
def twice (tokens tokens' cost cost' : Int64) : TaskResult × Trace :=
  executeTask
    (some (twiceEngine { content := "", model := "m", promptTokens := tokens, costMicroUsd := cost }
      { content := "yes", model := "m", promptTokens := tokens', costMicroUsd := cost' }))
    none id twiceTask none []

/-- The tokens come to 2^63, which reads as -2^63, and costs of 4 and -5 come to -1, which reads as
no cost at all. -/
theorem usage_lost :
    total Response.promptTokens (received (twice (2 ^ 63 - 1) 1 4 (-5)).2) = 2 ^ 63 ∧
      (twice (2 ^ 63 - 1) 1 4 (-5)).1.metadata.tokens.map (fun t => t.prompt.toInt) =
        some (-2 ^ 63) ∧
      reportedCosts (received (twice (2 ^ 63 - 1) 1 4 (-5)).2) = [4, -5] ∧
      (twice (2 ^ 63 - 1) 1 4 (-5)).1.metadata.costMicroUsd = none := by
  decide +kernel

/-- With costs of 4 and 3 the result says 30 tokens and a cost of 7. -/
theorem usage_summed_twice :
    reportedCosts (received (twice 10 20 4 3).2) = [4, 3] ∧
      (twice 10 20 4 3).1.metadata.tokens = some { prompt := 30, completion := 0, total := 30 } ∧
      (twice 10 20 4 3).1.metadata.costMicroUsd.map toInt = some 7 := by
  have hcosts : reportedCosts (received (twice 10 20 4 3).2) = [4, 3] := by decide +kernel
  have haccounts : Accounts (received (twice 10 20 4 3).2) (twice 10 20 4 3).1.metadata :=
    usage_summed ..
  refine ⟨hcosts, haccounts.tokens.trans (by decide +kernel), ?_⟩
  rfl

end Agnosai.Answer
