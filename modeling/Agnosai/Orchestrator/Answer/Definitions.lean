import Agnosai.Llm.Retry
import Agnosai.Support.Loop
import Agnosai.ToolLoop.Definitions

/-!
# Orchestrator — Answer — Definitions

How `orchestrator/crew_runner.cyr` answers a task: `converse` asks the model, and for as long as it
answers with tool calls takes the turn and asks again; `answer` adds the one change of a refused
model, the output-schema retries, and the result. A response is an object in memory, which the
source compares by address (`Reply`). The prompts' texts, the output check and the model catalog
are parameters.
-/

namespace Agnosai.Answer

open Llm ToolLoop

/-- The texts of a task's prompts, the output filter and the output check. -/
structure Prompts where
  systemPrompt : Option Agent → String
  /-- The task's context as the model reads it, if it has one. -/
  context : Task → Option String
  userMessage : Task → String
  /-- The prompt of a retry, from the text that failed and why; with tools the text is unmarked. -/
  retryPrompt : Task → Bool → String → String → Json → String
  filterOutput : String → String
  /-- `agnosai_extract_and_validate`: why an answer does not fit, if so, and the text checked. -/
  validate : String → Json → Option String × String

/-- What answering a task draws on. -/
structure Engine where
  setup : Setup
  prompts : Prompts
  /-- `_agnosai_crew_select_model_a`: the model for an agent, or why there is none. -/
  selectModel : Trace → Option Agent → Except String String
  /-- Whether the agent's model is fixed. -/
  selectionFixed : Option Agent → Bool
  /-- The catalog's owner of a model. -/
  catalogOwner : Trace → String → Option String

/-- `AGNOSAI_MAX_VALIDATION_RETRIES`. -/
def maxValidationRetries : Nat := 2

/-- A response at its address. -/
structure Reply where
  addr : Nat
  body : Response

/-- How a conversation went: an answer, or an error and the last answer before it, which was paid
for too. -/
inductive Outcome where
  | answered (reply : Reply)
  | failed (err : String) (last : Option Reply)

/-- The last answer, if there was one. -/
def Outcome.reply : Outcome → Option Reply
  | .answered reply => some reply
  | .failed _ last => last

/-- The conversation of a task, with its tools' state if it has tools. -/
structure Talk where
  st : Option TaskState
  request : Request
  trace : Trace

/-! ### Asking -/

/-- `_agnosai_crew_infer_fp`: one attempt. -/
def infer (w : World) (request : Request) (tr : Trace) : Except String Response × Trace :=
  match w.chat tr request with
  | .ok r => (.ok r, tr ++ [.chat request, .answered r])
  | .error e => (.error e, tr ++ [.chat request, .failed e])

/-- A chat call, with its retries. -/
def chat (w : World) (request : Request) (tr : Trace) : Except String Response × Trace :=
  withRetry (infer w request) defaultMaxRetries tr

/-- The state of the loop of `converse`. -/
structure ToolTalk where
  conv : Conv
  reply : Reply

/-- One round of the loop of `_agnosai_crew_converse_a`. -/
def converseStep (s : Setup) (t : ToolTalk) : ToolTalk ⊕ (Outcome × Conv) :=
  if t.reply.body.toolCalls = [] then .inr (.answered t.reply, t.conv)
  else
    match turn s t.conv t.reply.body with
    | (some why, k) => .inr (.failed why t.reply, k)
    | (none, k) =>
      match chat s.world k.request k.trace with
      | (.error e, tr) => .inr (.failed e t.reply, { k with trace := tr })
      | (.ok r, tr) =>
        .inl
          { conv := { k with trace := tr }
            reply := { addr := tr.length, body := r.carryUsage t.reply.body } }

theorem prepareAll_steps (texts : Texts) (asked : List ChatToolCall) (st : TaskState) (i : Nat) :
    (prepareAll texts st i asked).2.steps = st.steps := by
  induction asked generalizing st i with
  | nil => rfl
  | cons a rest ih => exact ih _ _

theorem deliver_steps (s : Setup) (n : Nat) (calls : List Call) (k : Conv) :
    (deliver s n calls k).st.steps = k.st.steps := by
  have hfold : ∀ (sh : Int) (calls : List Call) (k : Conv),
      (calls.foldl (deliverOne s n sh) k).st.steps = k.st.steps := by
    intro sh calls
    induction calls with
    | nil => exact fun _ => rfl
    | cons c rest ih => exact fun k => ih _
  exact hfold _ calls k

theorem noteDropped_steps (kept total : Nat) (k : Conv) :
    (noteDropped kept total k).st.steps = k.st.steps := by
  unfold noteDropped
  split <;> rfl

theorem turnBody_steps (s : Setup) (k : Conv) (resp : Response) :
    (turnBody s k resp).st.steps = k.st.steps + 1 := by
  simp only [turnBody, openTurn, closeTurn, noteDropped_steps, deliver_steps, prepareAll_steps]

theorem taskHalt_none {w : World} {tr tr' : Trace} (h : taskHalt w tr = (none, tr')) :
    tr' = tr := by
  unfold taskHalt at h
  split at h
  · cases h
    rfl
  · cases h
  · cases h

/-- What a turn can come to. -/
inductive Turned (s : Setup) (k : Conv) (resp : Response) : Option String → Conv → Prop where
  /-- The task had to stop before it. -/
  | halted {why : String} {tr : Trace} (h : taskHalt s.world k.trace = (some why, tr)) :
      Turned s k resp (some why) (k.stop tr)
  /-- There were too many before. -/
  | spent (h : s.limits.maxSteps ≤ k.st.steps) :
      Turned s k resp (some (stepsSpent s.limits)) (k.stop k.trace)
  | taken (h : k.st.steps < s.limits.maxSteps) : Turned s k resp none (turnBody s k resp)
  /-- It was taken, and the task had to stop after it. -/
  | stopped {why : String} {tr : Trace} (h : k.st.steps < s.limits.maxSteps)
      (hhalt : taskHalt s.world (turnBody s k resp).trace = (some why, tr)) :
      Turned s k resp (some why) ((turnBody s k resp).stop tr)

variable {s : Setup} {resp : Response}

theorem turn_turned {k k' : Conv} {why : Option String}
    (h : turn s k resp = (why, k')) : Turned s k resp why k' := by
  unfold turn at h
  split at h
  next hhalt =>
    cases h
    exact .halted hhalt
  next hhalt =>
    obtain rfl := taskHalt_none hhalt
    split at h
    next hspent =>
      cases h
      exact .spent hspent
    next hlt =>
      have hlt := Nat.lt_of_not_le hlt
      simp only at h
      split at h
      next hlast =>
        cases h
        exact .stopped hlt hlast
      next hlast =>
        cases h
        obtain rfl := taskHalt_none hlast
        exact .taken hlt

/-- A turn that does not end the task was within the limit, and counts. -/
theorem turn_steps {k k' : Conv} (h : turn s k resp = (none, k')) :
    k.st.steps < s.limits.maxSteps ∧ k'.st.steps = k.st.steps + 1 := by
  cases turn_turned h with
  | taken hlt => exact ⟨hlt, turnBody_steps s k resp⟩

/-- What a round can come to. -/
inductive Rounded (s : Setup) (t : ToolTalk) : ToolTalk ⊕ (Outcome × Conv) → Prop where
  | answered : Rounded s t (.inr (.answered t.reply, t.conv))
  /-- The turn ended the task. -/
  | stopped {why : String} {k : Conv} (hturn : turn s t.conv t.reply.body = (some why, k)) :
      Rounded s t (.inr (.failed why t.reply, k))
  /-- The turn was taken, and the model failed. -/
  | failed {k : Conv} {err : String} {tr : Trace} (hturn : turn s t.conv t.reply.body = (none, k))
      (hchat : chat s.world k.request k.trace = (.error err, tr)) :
      Rounded s t (.inr (.failed err t.reply, { k with trace := tr }))
  /-- The turn was taken, and the model answered again. -/
  | again {k : Conv} {r : Response} {tr : Trace} (hturn : turn s t.conv t.reply.body = (none, k))
      (hchat : chat s.world k.request k.trace = (.ok r, tr)) :
      Rounded s t (.inl ⟨{ k with trace := tr }, tr.length, r.carryUsage t.reply.body⟩)

theorem converseStep_rounded (s : Setup) (t : ToolTalk) : Rounded s t (converseStep s t) := by
  unfold converseStep
  split
  · exact .answered
  · split
    next hturn => exact .stopped hturn
    next hturn =>
      split
      next hchat => exact .failed hturn hchat
      next hchat => exact .again hturn hchat

/-- The loop of `_agnosai_crew_converse_a`. -/
def converseLoop (s : Setup) : Loop ToolTalk (Outcome × Conv) where
  step := converseStep s
  measure t := s.limits.maxSteps - t.conv.st.steps
  decreasing := by
    intro t t' h
    have hround := converseStep_rounded s t
    rw [h] at hround
    cases hround with
    | again hturn =>
      have := turn_steps hturn
      simp only
      omega

/-- `_agnosai_crew_converse_a`, where `out` is the last answer there is. -/
def converse (s : Setup) (talk : Talk) (out : Option Reply) : Outcome × Talk :=
  match chat s.world talk.request talk.trace with
  | (.error e, tr) => (.failed e out, { talk with trace := tr })
  | (.ok r, tr) =>
    let reply : Reply := { addr := tr.length, body := r }
    match talk.st with
    | none => (.answered reply, { talk with trace := tr })
    | some st =>
      let (outcome, k) :=
        (converseLoop s).run { conv := { st, request := talk.request, trace := tr }, reply }
      (outcome, { st := some k.st, request := k.request, trace := k.trace })

/-! ### Requests -/

/-- `_agnosai_crew_build_request_a`; the user message is the task's, unless one is given. -/
def buildRequest (p : Prompts) (task : Task) (agent : Option Agent) (model : String)
    (userMsg : Option String) : Request :=
  let r := ({ model } : Request).say .system (p.systemPrompt agent)
  let r :=
    match p.context task with
    | none => r
    | some context => (r.say .user context).say .assistant "Understood, I have the context."
  { r.say .user (userMsg.getD (p.userMessage task)) with
    maxTokens := 4096, temperatureMilli := 700 }

variable (e : Engine)

/-- `_agnosai_crew_reselect_a`: another model, for one the gateway refused. -/
def reselect (tr : Trace) (agent : Option Agent) (model err : String) : Option String :=
  if refusedModel err ∧ ¬ e.selectionFixed agent then
    match e.selectModel tr agent with
    | .error _ => none
    | .ok next => if next = model then none else some next
  else none

/-- The request of a validation retry: with a tool called, the prompt goes on the end of the
transcript, and otherwise the request is built again. -/
def retryRequest (p : Prompts) (task : Task) (agent : Option Agent) (model : String) (talk : Talk)
    (prompt : String) : Request :=
  let request :=
    if talk.st.any fun st => 0 < st.steps then talk.request.say .user prompt
    else buildRequest p task agent model (some prompt)
  { request with temperatureMilli := 100 }

/-! ### Answering -/

/-- Where the conversation of a task ends. -/
structure Ending where
  outcome : Outcome
  /-- Why the last answer checked does not fit the schema. -/
  verr : Option String := none
  /-- The text that was checked. -/
  extracted : String := ""
  attempts : Nat := 1
  talk : Talk

/-- The usage of an earlier answer goes to a newer one. -/
def Reply.carry (prior r : Reply) : Reply :=
  if r.addr = prior.addr then r else { r with body := r.body.carryUsage prior.body }

/-- The output-schema loop of `_agnosai_crew_answer_a`, with so many retries left. -/
def validateLoop (e : Engine) (task : Task) (agent : Option Agent) (model : String) (schema : Json)
    (retries : Nat) (talk : Talk) (reply : Reply) : Ending :=
  let attempts := maxValidationRetries + 1 - retries
  let (verr, extracted) := e.prompts.validate reply.body.content schema
  match verr, retries with
  | some verr, retries + 1 =>
    let prompt := e.prompts.retryPrompt task talk.st.isSome extracted verr schema
    let talk := { talk with request := retryRequest e.prompts task agent model talk prompt }
    match converse e.setup talk (some reply) with
    | (.answered r, talk) => validateLoop e task agent model schema retries talk (reply.carry r)
    | (.failed err last, talk) =>
      { outcome := .failed err (last.map reply.carry)
        verr := some verr
        extracted
        attempts := attempts + 1
        talk }
  | verr, _ => { outcome := .answered reply, verr, extracted, attempts, talk }

variable (task : Task)

variable (agent : Option Agent)

variable (model : String)

/-- The first answer of `_agnosai_crew_answer_a`: a model the gateway refused is changed once, if
there is no answer yet. -/
def firstAnswer (st : Option TaskState) (tr : Trace) : String × Outcome × Talk :=
  let talk : Talk := { st, request := buildRequest e.prompts task agent model none, trace := tr }
  match converse e.setup talk none with
  | (.failed err none, talk) =>
    match reselect e talk.trace agent model err with
    | none => (model, .failed err none, talk)
    | some better =>
      (better, converse e.setup
        { talk with request := buildRequest e.prompts task agent better none } none)
  | (outcome, talk) => (model, outcome, talk)

/-- The conversation of `_agnosai_crew_answer_a`, and the model it ended with. -/
def discuss (st : Option TaskState) (tr : Trace) : String × Ending :=
  match firstAnswer e task agent model st tr, task.outputSchema with
  | (model, .answered reply, talk), some schema =>
    (model, validateLoop e task agent model schema maxValidationRetries talk reply)
  | (model, outcome, talk), _ => (model, { outcome, talk })

/-! ### Results -/

/-- `_agnosai_crew_attribute`. -/
def attributeProvider (tr : Trace) (model : String) (resp : Response) : Response :=
  { resp with
    provider := resp.provider <|> e.catalogOwner tr resp.model <|> e.catalogOwner tr model }

/-- `_agnosai_crew_answer_metadata_a`. -/
def answerMetadata (resp : Response) (agent : Option Agent) (md : TaskMetadata) : TaskMetadata :=
  { md with
    model := some resp.model
    agent := agent.map Agent.key
    provider := resp.provider
    tokens := some
      { prompt := resp.promptTokens
        completion := resp.completionTokens
        total := resp.totalTokens }
    costMicroUsd := if resp.costMicroUsd = noLimit then none else some resp.costMicroUsd }

/-- `_agnosai_crew_error_result_a`. -/
def errorResult (err : String) : TaskResult :=
  { taskId := task.id, output := "LLM error: " ++ err, status := .failed,
    metadata := { error := some err } }

/-- `_agnosai_crew_tool_failed_result_a`. -/
def toolFailedResult (why : String) : TaskResult :=
  { taskId := task.id, output := why, status := .failed, metadata := { error := some why } }

/-- The result for where the conversation ended. -/
def conclude (d : Ending) :
    TaskResult :=
  match d.outcome with
  | .failed err last =>
    let failed :=
      if d.talk.st.any TaskState.stopped then toolFailedResult task err else errorResult task err
    match last with
    | none => failed
    | some r =>
      let resp := attributeProvider e d.talk.trace model r.body
      { failed with metadata := answerMetadata resp agent failed.metadata }
  | .answered r =>
    let resp := attributeProvider e d.talk.trace model r.body
    let answer := if task.outputSchema.isSome ∧ d.verr = none then d.extracted else resp.content
    let content := e.prompts.filterOutput answer
    match d.verr with
    | some verr =>
      { taskId := task.id
        output := content
        status := .failed
        metadata := answerMetadata resp agent
          { error := some ("output failed validation: " ++ verr)
            validationAttempts := some d.attempts } }
    | none =>
      { taskId := task.id
        output := content
        status := .completed
        metadata := answerMetadata resp agent {} }

/-- `_agnosai_crew_answer_a`: the task's result, and the conversation it took. -/
def answer (st : Option TaskState)
    (tr : Trace) : TaskResult × Talk :=
  let (model, d) := discuss e task agent model st tr
  (conclude e task agent model d, d.talk)

/-- `_agnosai_tool_task_finish_a`. -/
def taskFinish (st : TaskState) (r : TaskResult) : TaskResult :=
  { r with
    metadata :=
      { r.metadata with
        toolCalls := if st.records = [] then none else some st.records
        toolCallsDropped := if 0 < st.dropped then some st.dropped else none } }

/-- `_agnosai_crew_answer_with_tools_a`. -/
def answerWithTools (registry : String → Option Tool) (task : Task) (agent : Agent)
    (model : String) (tr : Trace) : TaskResult × Trace :=
  match taskNew registry agent with
  | .error why => (toolFailedResult task why, tr)
  | .ok st =>
    let (result, talk) := answer e task (some agent) model (some st) tr
    (talk.st.elim result (taskFinish · result), talk.trace)

/-- `_agnosai_execute_task_body_a`: `registry` is there if the crew has tools. -/
def executeTask (client : Option Engine) (registry : Option (String → Option Tool))
    (redacted : String → String) (task : Task) (agent : Option Agent) (tr : Trace) :
    TaskResult × Trace :=
  match client with
  | none =>
    ({ taskId := task.id, output := redacted task.description, status := .completed }, tr)
  | some e =>
    match e.selectModel tr agent with
    | .error why => (errorResult task why, tr)
    | .ok model =>
      match registry, agent with
      | some registry, some agent =>
        if agent.tools = [] then
          let (result, talk) := answer e task (some agent) model none tr
          (result, talk.trace)
        else answerWithTools e registry task agent model tr
      | _, agent =>
        let (result, talk) := answer e task agent model none tr
        (result, talk.trace)

end Agnosai.Answer
