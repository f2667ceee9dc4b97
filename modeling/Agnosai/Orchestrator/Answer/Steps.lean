import Agnosai.Orchestrator.Answer.Definitions
import Agnosai.ToolLoop.Passes

/-!
# Orchestrator — Answer — Steps

Answering a task, as a run of small steps. Between two looks at it, a conversation can note
something that belongs to no turn, be marked as stopped, take a tool turn for calls the model asked
for, have a message put on its end, or, while no turn has been taken, be begun again (`Step`).
Answering does nothing else (`answer_run`), so what every step preserves holds of the conversation
at its end.
-/

namespace Agnosai.Answer

open Llm ToolLoop

/-- What a conversation with this request may note: nothing of a turn, and no other request sent. -/
structure Noted (request : Request) (seg : Trace) : Prop where
  quiet : Quiet seg
  sent : ∀ r, .chat r ∈ seg → r = request

theorem Noted.nil (request : Request) : Noted request [] := ⟨by simp [Quiet], by simp⟩

variable {request : Request}

theorem Noted.append {seg seg' : Trace} (h : Noted request seg)
    (h' : Noted request seg') : Noted request (seg ++ seg') where
  quiet e he := (List.mem_append.1 he).elim (h.quiet e) (h'.quiet e)
  sent r hr := (List.mem_append.1 hr).elim (h.sent r) (h'.sent r)

/-- A tool conversation, as a conversation. -/
def Conv.talk (k : Conv) : Talk := { st := some k.st, request := k.request, trace := k.trace }

inductive Step (s : Setup) : Talk → Talk → Prop where
  /-- Something happens that belongs to no turn: the request is sent, or an answer comes. -/
  | note (t : Talk) {seg : Trace} (h : Noted t.request seg) :
      Step s t { t with trace := t.trace ++ seg }
  /-- The task is marked as stopped. -/
  | stop (t : Talk) :
      Step s t { t with st := t.st.map fun st => { st with stopped := true } }
  /-- A turn is taken, for calls the model asked for. -/
  | turn (k : Conv) (resp : Response) {r : Response} (hr : r ∈ received k.trace)
      (hcalls : r.toolCalls = resp.toolCalls) :
      Step s (Conv.talk k) (Conv.talk (turnBody s k resp))
  /-- A message goes on the end of the transcript. -/
  | say (t : Talk) {request : Request} {m : Message} (hm : Message.Plain m)
      (h : request.messages = t.request.messages ++ [m]) : Step s t { t with request }
  /-- The request is made anew, which happens only while no turn has been taken. -/
  | rebuild (t : Talk) {request : Request} (hst : ∀ st ∈ t.st, st.steps = 0)
      (h : ∀ m ∈ request.messages, Message.Plain m) : Step s t { t with request }

/-- Any number of steps. -/
abbrev Run (s : Setup) : Talk → Talk → Prop := Relation.ReflTransGen (Step s)

variable {s : Setup} {w : World}

/-- **The rule for runs.** What every step preserves, a run preserves. -/
theorem Run.invariant {I : Talk → Prop} (hstep : ∀ t t', I t → Step s t t' → I t') {t t' : Talk}
    (hrun : Run s t t') (h : I t) : I t' := by
  induction hrun with
  | refl => exact h
  | tail _ hlast ih => exact hstep _ _ ih hlast

/-! ### Chat calls -/

/-- What a chat call may note: it does not look at the clock. -/
structure Chatted (request : Request) (seg : Trace) : Prop extends Noted request seg where
  inTime : .timedOut ∉ seg

/-- What came of a chat call. -/
def Responses : Except String Response → List Response
  | .ok r => [r]
  | .error _ => []

theorem infer_spec (tr : Trace) :
    ∃ seg, (infer w request tr).2 = tr ++ seg ∧ Chatted request seg ∧
      received seg = Responses (infer w request tr).1 := by
  unfold infer
  split
  · exact ⟨_, rfl, ⟨⟨by simp [Quiet, Event.turnNo], by simp⟩, by simp⟩, rfl⟩
  · exact ⟨_, rfl, ⟨⟨by simp [Quiet, Event.turnNo], by simp⟩, by simp⟩, rfl⟩

/-- However many attempts a chat call takes, it brings at most the response it ends with. -/
theorem chat_spec (request : Request) (tr : Trace) :
    ∃ seg, (chat w request tr).2 = tr ++ seg ∧ Chatted request seg ∧
      received seg = Responses (chat w request tr).1 := by
  unfold chat
  generalize defaultMaxRetries = n
  induction n generalizing tr with
  | zero => exact infer_spec tr
  | succ n ih =>
    obtain ⟨seg, htr, hchat, hrec⟩ := infer_spec tr
    unfold withRetry
    split
    next h =>
      rw [h] at htr hrec
      exact ⟨seg, htr, hchat, hrec⟩
    next tr' h =>
      rw [h] at htr hrec
      obtain rfl : tr' = tr ++ seg := htr
      split
      · -- the failed attempt brought no response, so only the later ones count
        obtain ⟨seg', htr', hchat', hrec'⟩ := ih (tr ++ seg)
        refine ⟨seg ++ seg', ?_, ⟨hchat.toNoted.append hchat'.toNoted, ?_⟩, ?_⟩
        · rw [htr', List.append_assoc]
        · simp [hchat.inTime, hchat'.inTime]
        · rw [received_append, hrec, hrec']
          rfl
      · exact ⟨seg, rfl, hchat, hrec⟩

/-! ### Turns -/

theorem taskHalt_spec (w : World) (tr : Trace) (request : Request) :
    ∃ seg, (taskHalt w tr).2 = tr ++ seg ∧ Noted request seg ∧ received seg = [] := by
  unfold taskHalt
  split
  · exact ⟨[], by simp, .nil request, rfl⟩
  · exact ⟨[], by simp, .nil request, rfl⟩
  · exact ⟨_, rfl, ⟨by simp [Quiet, Event.turnNo], by simp⟩, rfl⟩

theorem Run.note (t : Talk) {seg : Trace} (h : Noted t.request seg) :
    Run s t { t with trace := t.trace ++ seg } :=
  .single (.note t h)

variable {tr : Trace} {why : Option String}

/-- Being stopped after a look at the clock. -/
theorem stop_run {k : Conv}
    (h : taskHalt s.world k.trace = (why, tr)) : Run s (Conv.talk k) (Conv.talk (k.stop tr)) := by
  obtain ⟨seg, htr, hnoted, -⟩ := taskHalt_spec s.world k.trace k.request
  rw [h] at htr
  obtain rfl : tr = k.trace ++ seg := htr
  exact (Run.note (Conv.talk k) hnoted).tail (.stop _)

/-- What a turn with its checks comes to, given that the model asked for its calls. -/
theorem turn_run {k k' : Conv} {resp : Response}
    (h : turn s k resp = (why, k')) (hasked : ∃ r ∈ received k.trace,
      r.toolCalls = resp.toolCalls) :
    Run s (Conv.talk k) (Conv.talk k') := by
  obtain ⟨r, hr, hcalls⟩ := hasked
  have hbody : Run s (Conv.talk k) (Conv.talk (turnBody s k resp)) :=
    .single (.turn k resp hr hcalls)
  cases turn_turned h with
  | halted hhalt => exact stop_run hhalt
  | spent => exact .single (.stop _)
  | taken => exact hbody
  | stopped _ hhalt => exact hbody.trans (stop_run hhalt)

/-! ### Conversations -/

/-- What a chat call noted, and what was received in it. -/
theorem chat_noted {tr' : Trace} {res : Except String Response}
    (h : chat w request tr = (res, tr')) :
    ∃ seg, tr' = tr ++ seg ∧ Chatted request seg ∧ received seg = Responses res := by
  have hspec := chat_spec (w := w) request tr
  rw [h] at hspec
  exact hspec

section Conversing

variable {talk : Talk} {out : Option Reply}

/-- **The rule for conversations.** `J` holds of every answer of the model; the conversation ends
where there is none, with the one that asks for no calls, or where a turn or the model fails. -/
theorem converse_rule {J : Talk → Reply → Prop} {Q : Outcome → Talk → Prop}
    (unanswered : ∀ err tr, chat s.world talk.request talk.trace = (.error err, tr) →
      Q (.failed err out) { talk with trace := tr })
    (first : ∀ r tr, chat s.world talk.request talk.trace = (.ok r, tr) →
      J { talk with trace := tr } ⟨tr.length, r⟩)
    (answered : ∀ t reply, J t reply → Q (.answered reply) t)
    (stop : ∀ k reply why k', J (Conv.talk k) reply → turn s k reply.body = (some why, k') →
      Q (.failed why reply) (Conv.talk k'))
    (fail : ∀ k reply k' err tr, J (Conv.talk k) reply → turn s k reply.body = (none, k') →
      chat s.world k'.request k'.trace = (.error err, tr) →
        Q (.failed err reply) (Conv.talk { k' with trace := tr }))
    (again : ∀ k reply k' r tr, J (Conv.talk k) reply → turn s k reply.body = (none, k') →
      chat s.world k'.request k'.trace = (.ok r, tr) →
        J (Conv.talk { k' with trace := tr }) ⟨tr.length, r.carryUsage reply.body⟩) :
    Q (converse s talk out).1 (converse s talk out).2 := by
  unfold converse
  split
  next hchat => exact unanswered _ _ hchat
  next hchat =>
    have hfirst := first _ _ hchat
    split
    · exact answered _ _ hfirst
    next hst =>
      refine (converseLoop s).run_spec (I := fun t => J (Conv.talk t.conv) t.reply)
        (Q := fun o => Q o.1 (Conv.talk o.2)) (fun t t' h hstep => ?_) (fun t o h hstep => ?_) ?_
      · have hround := converseStep_rounded s t
        rw [show converseStep s t = .inl t' from hstep] at hround
        cases hround with
        | again hturn hchat => exact again _ _ _ _ _ h hturn hchat
      · have hround := converseStep_rounded s t
        rw [show converseStep s t = .inr o from hstep] at hround
        cases hround with
        | answered => exact answered _ _ h
        | stopped hturn => exact stop _ _ _ _ h hturn
        | failed hturn hchat => exact fail _ _ _ _ _ h hturn hchat
      · obtain ⟨_, request, tr⟩ := talk
        cases hst
        exact hfirst

/-- What holds of a conversation whatever comes of it: `P` before the model is asked, and `Q` after.
The calls of a turn are those the model asked for. -/
theorem converse_invariant {P Q : Talk → Prop} (h : P talk)
    (ask : ∀ t res tr, P t → chat s.world t.request t.trace = (res, tr) → Q { t with trace := tr })
    (next : ∀ k resp k', Q (Conv.talk k) → (∃ r ∈ received k.trace, r.toolCalls = resp.toolCalls) →
      turn s k resp = (none, k') → P (Conv.talk k'))
    (stop : ∀ k resp why k', Q (Conv.talk k) →
      (∃ r ∈ received k.trace, r.toolCalls = resp.toolCalls) →
      turn s k resp = (some why, k') → Q (Conv.talk k')) :
    Q (converse s talk out).2 := by
  have hasked : ∀ {request tr r tr'}, chat s.world request tr = (.ok r, tr') →
      r ∈ received tr' := by
    intro request tr r tr' hchat
    obtain ⟨seg, rfl, -, hrec⟩ := chat_noted hchat
    rw [received_append, hrec]
    exact List.mem_append_right _ List.mem_cons_self
  refine converse_rule (Q := fun _ => Q)
    (J := fun t reply => Q t ∧ ∃ r ∈ received t.trace, r.toolCalls = reply.body.toolCalls)
    (fun _ _ hchat => ask _ _ _ h hchat)
      (fun r _ hchat => ⟨ask _ _ _ h hchat, r, hasked hchat, rfl⟩)
    (fun _ _ hJ => hJ.1) (fun _ _ _ _ hJ => stop _ _ _ _ hJ.1 hJ.2) ?_ ?_
  · exact fun _ _ _ _ _ hJ hturn hchat => ask _ _ _ (next _ _ _ hJ.1 hJ.2 hturn) hchat
  · exact fun _ _ _ r _ hJ hturn hchat =>
      ⟨ask _ _ _ (next _ _ _ hJ.1 hJ.2 hturn) hchat, r, hasked hchat, rfl⟩

theorem converse_run (s : Setup) (talk : Talk) (out : Option Reply) :
    Run s talk (converse s talk out).2 := by
  refine converse_invariant (P := Run s talk) .refl (fun t res tr hrun hchat => ?_)
    (fun _ _ _ hrun hasked hturn => hrun.trans (turn_run hturn hasked))
    (fun _ _ _ _ hrun hasked hturn => hrun.trans (turn_run hturn hasked))
  obtain ⟨seg, rfl, hchatted, -⟩ := chat_noted hchat
  exact hrun.trans (Run.note t hchatted.toNoted)

variable {err : String}

/-- A conversation that fails with no answer at all failed at its first chat call, before any
turn. -/
theorem converse_failed_none {talk' : Talk} (h : converse s talk none = (.failed err none, talk')) :
    ∃ seg, Chatted talk.request seg ∧ received seg = [] ∧
      talk' = { talk with trace := talk.trace ++ seg } := by
  let Q (o : Outcome) (t : Talk) : Prop := o = .failed err none → ∃ seg, Chatted talk.request seg ∧
    received seg = [] ∧ t = { talk with trace := talk.trace ++ seg }
  have hrule : Q (converse s talk none).1 (converse s talk none).2 := by
    refine converse_rule (J := fun _ _ => True) (fun _ _ hchat _ => ?_) (fun _ _ _ => trivial)
      (fun _ _ _ => nofun) (fun _ _ _ _ _ _ => nofun) (fun _ _ _ _ _ _ _ _ => nofun)
      (fun _ _ _ _ _ _ _ _ => trivial)
    obtain ⟨seg, rfl, hchatted, hrec⟩ := chat_noted hchat
    exact ⟨seg, hchatted, hrec, rfl⟩
  rw [h] at hrule
  exact hrule rfl

end Conversing

variable {talk : Talk} {err : String}

/-! ### Answering -/

theorem buildRequest_plain (p : Prompts) (task : Task) (agent : Option Agent) (model : String)
    (userMsg : Option String) :
    ∀ m ∈ (buildRequest p task agent model userMsg).messages, Message.Plain m := by
  unfold buildRequest
  cases p.context task <;> simp [Request.say, Message.Plain]

/-- The request of a retry is a step: its prompt goes on the end, or no turn has been taken. -/
theorem retryRequest_step (p : Prompts) (task : Task) (agent : Option Agent) (model : String)
    (prompt : String) :
    Step s talk { talk with request := retryRequest p task agent model talk prompt } := by
  by_cases hsteps : talk.st.any (fun st => 0 < st.steps)
  · refine .say talk (m := { role := .user, content := prompt }) (by simp [Message.Plain]) ?_
    simp [retryRequest, hsteps, Request.say]
  · refine .rebuild talk (fun st hst => ?_) ?_
    · rw [Option.mem_def] at hst
      simpa [hst] using hsteps
    · simp only [retryRequest, hsteps]
      exact buildRequest_plain p task agent model (some prompt)

section Validating

variable (e : Engine) (task : Task) (agent : Option Agent) (model : String) (schema : Json)

/-- The conversation with the request of a retry. -/
def Talk.retry (talk : Talk) (prompt : String) : Talk :=
  { talk with request := retryRequest e.prompts task agent model talk prompt }

/-- **The rule for the output-schema loop.** `I n` holds of every answer that is checked with `n`
retries left; the loop ends with the one it holds, or with a retry that failed. -/
theorem validateLoop_rule {I : Nat → Talk → Reply → Prop} {Q : Ending → Prop}
    (leave : ∀ n talk reply d, I n talk reply → d.outcome = .answered reply → d.talk = talk → Q d)
    (again : ∀ n talk reply prompt r talk', I (n + 1) talk reply →
      converse e.setup (talk.retry e task agent model prompt) (some reply) = (.answered r, talk') →
        I n talk' (reply.carry r))
    (fail : ∀ n talk reply prompt err last talk' d, I (n + 1) talk reply →
      converse e.setup (talk.retry e task agent model prompt) (some reply) =
        (.failed err last, talk') →
        d.outcome = .failed err (last.map reply.carry) → d.talk = talk' → Q d)
    (retries : Nat) {reply : Reply} (h : I retries talk reply) :
    Q (validateLoop e task agent model schema retries talk reply) := by
  induction retries generalizing talk reply with
  | zero =>
    unfold validateLoop
    simp only
    split
    next heq =>
      cases heq
    · exact leave _ talk reply _ h rfl rfl
  | succ retries ih =>
    unfold validateLoop
    simp only
    split
    next heq =>
      cases heq
      split
      next hconv =>
        exact ih (again retries talk reply _ _ _ h hconv)
      next hconv =>
        exact fail retries talk reply _ _ _ _ _ h hconv rfl rfl
    · exact leave _ talk reply _ h rfl rfl

/-- What a retry keeps, with one fewer left, holds of the conversation in the end. -/
theorem validateLoop_invariant {I : Nat → Talk → Prop}
    (again : ∀ n talk prompt out, I (n + 1) talk →
      I n (converse e.setup (talk.retry e task agent model prompt) out).2)
    (retries : Nat) (reply : Reply) (h : I retries talk) :
    ∃ n, I n (validateLoop e task agent model schema retries talk reply).talk := by
  refine validateLoop_rule e task agent model schema (I := fun n talk _ => I n talk)
    (Q := fun d => ∃ n, I n d.talk) ?_ ?_ ?_ retries h
  · rintro n _ _ d hI - rfl
    exact ⟨n, hI⟩
  · intro n talk reply prompt r talk' hI hconv
    have := again n talk prompt (some reply) hI
    rwa [hconv] at this
  · rintro n talk reply prompt err last talk' d hI hconv - rfl
    have := again n talk prompt (some reply) hI
    rw [hconv] at this
    exact ⟨n, this⟩

theorem validateLoop_run (retries : Nat) (reply : Reply) :
    Run e.setup talk (validateLoop e task agent model schema retries talk reply).talk := by
  obtain ⟨-, hrun⟩ :=
    validateLoop_invariant e task agent model schema (I := fun _ => Run e.setup talk)
    (fun _ talk₁ prompt out hrun =>
      (hrun.tail (retryRequest_step e.prompts task agent model prompt)).trans (converse_run ..))
    retries reply .refl
  exact hrun

end Validating

variable {task : Task} {agent : Option Agent} {st : Option TaskState}

/-- The first answer comes of one conversation, or of a second one after a chat call that failed. -/
theorem firstAnswer_cases {e : Engine} {model model' : String} {o : Outcome}
    (h : firstAnswer e task agent model st tr = (model', o, talk)) :
    converse e.setup ⟨st, buildRequest e.prompts task agent model none, tr⟩ none = (o, talk) ∨
    ∃ err seg, converse e.setup ⟨st, buildRequest e.prompts task agent model none, tr⟩ none =
        (.failed err none, ⟨st, buildRequest e.prompts task agent model none, tr ++ seg⟩) ∧
      Chatted (buildRequest e.prompts task agent model none) seg ∧ received seg = [] ∧
      converse e.setup ⟨st, buildRequest e.prompts task agent model' none, tr ++ seg⟩ none =
        (o, talk) := by
  unfold firstAnswer at h
  simp only at h
  split at h
  next hfirst =>
    obtain ⟨seg, hchatted, hrec, rfl⟩ := converse_failed_none hfirst
    split at h
    · cases h
      exact .inl hfirst
    · rw [Prod.mk.injEq] at h
      obtain ⟨rfl, hsecond⟩ := h
      exact .inr ⟨_, seg, hfirst, hchatted, hrec, hsecond⟩
  next hfirst =>
    cases h
    exact .inl hfirst

theorem firstAnswer_run {e : Engine} {model model' : String} {o : Outcome}
    (hst : ∀ st' ∈ st, st'.steps = 0)
    (h : firstAnswer e task agent model st tr = (model', o, talk)) :
    Run e.setup ⟨st, buildRequest e.prompts task agent model none, tr⟩ talk := by
  have hconv := fun request tr => converse_run e.setup ⟨st, request, tr⟩ none
  obtain hfirst | ⟨-, seg, -, hchatted, -, hsecond⟩ := firstAnswer_cases h
  · have := hconv (buildRequest e.prompts task agent model none) tr
    rwa [hfirst] at this
  · have := hconv (buildRequest e.prompts task agent model' none) (tr ++ seg)
    rw [hsecond] at this
    refine ((Run.note _ hchatted.toNoted).tail (.rebuild _ hst ?_)).trans this
    exact buildRequest_plain e.prompts task agent model' none

section Concluding

variable (e : Engine) (task : Task) (agent : Option Agent) (model : String)

/-- **Answering takes only such steps.** -/
theorem answer_run (st : Option TaskState) (tr : Trace) (hst : ∀ st' ∈ st, st'.steps = 0) :
    Run e.setup ⟨st, buildRequest e.prompts task agent model none, tr⟩
      (answer e task agent model st tr).2 := by
  unfold answer discuss
  simp only
  split
  next h _ =>
    exact (firstAnswer_run hst h).trans (validateLoop_run ..)
  next h _ =>
    exact firstAnswer_run hst h

/-! ### Tasks -/

/-- The state of the task's tools; that of a task with none is empty. -/
def Talk.state (t : Talk) : TaskState := t.st.getD { tools := [] }

/-- Being stopped changes nothing else of the tools' state. -/
theorem state_stop (t : Talk) : ∃ stopped,
    ({ t with st := t.st.map fun st => { st with stopped := true } } : Talk).state =
      { t.state with stopped } := by
  cases hst : t.st with
  | none => exact ⟨false, by simp [Talk.state, hst]⟩
  | some => exact ⟨true, by simp [Talk.state, hst]⟩

/-- The tools granted to a task at its start. -/
def startTools (registry : Option (String → Option Tool)) (agent : Option Agent) : List Tool :=
  match registry, agent with
  | some registry, some agent => (taskNew registry agent).toOption.elim [] TaskState.tools
  | _, _ => []

/-- A conversation that is about to begin, with these tools. -/
structure Fresh (tools : List Tool) (t : Talk) : Prop where
  state : t.state = { tools }
  plain : ∀ m ∈ t.request.messages, Message.Plain m
  trace : t.trace = []

theorem Step.st_isSome {t t' : Talk} (h : Step s t t') : t'.st.isSome = t.st.isSome := by
  cases h with
  | note | turn | say | rebuild => rfl
  | stop => simp

theorem Run.st_isSome {t t' : Talk} (h : Run s t t') : t'.st.isSome = t.st.isSome :=
  h.invariant
    (fun _ _ hsome hstep => hstep.st_isSome.trans hsome) rfl

/-- What a result says of where the conversation ended: `md` is what it says of anything else. -/
structure Concluded (d : Ending) (result : TaskResult) (md : TaskMetadata) : Prop where
  taskId : result.taskId = task.id
  completed : result.status = .completed → ∃ r, d.outcome = .answered r
  metadata : result.metadata = d.outcome.reply.elim md
    fun r => answerMetadata (attributeProvider e d.talk.trace model r.body) agent md
  tokens : md.tokens = none
  cost : md.costMicroUsd = none
  toolCalls : md.toolCalls = none

theorem conclude_spec (d : Ending) :
    ∃ md, Concluded e task agent model d (conclude e task agent model d) md := by
  unfold conclude
  cases houtcome : d.outcome with
  | failed err last =>
    refine ⟨{ error := some err }, ?_⟩
    cases hstopped : d.talk.st.any TaskState.stopped with
    | true | false => cases last <;> exact ⟨rfl, nofun, by rw [houtcome]; rfl, rfl, rfl, rfl⟩
  | answered r =>
    cases d.verr with
    | none => exact ⟨_, rfl, fun _ => ⟨r, houtcome⟩, by rw [houtcome]; rfl, rfl, rfl, rfl⟩
    | some => exact ⟨_, rfl, nofun, by rw [houtcome]; rfl, rfl, rfl, rfl⟩

/-- The result itself says nothing of tool calls: that is added when the task is finished. -/
theorem conclude_toolCalls (d : Ending) :
    (conclude e task agent model d).metadata.toolCalls = none := by
  obtain ⟨md, h⟩ := conclude_spec e task agent model d
  rw [h.metadata]
  cases d.outcome.reply <;> exact h.toolCalls

end Concluding

/-- A task's conversation: where it began, where it ended, and what the result says of it. -/
structure Conversed (e : Engine) (tools : List Tool) (out : TaskResult × Trace) (t₀ t : Talk) :
    Prop where
  fresh : Fresh tools t₀
  run : Run e.setup t₀ t
  trace : out.2 = t.trace
  records : out.1.metadata.toolCalls.getD [] = t.state.records

theorem taskNew_ok {registry : String → Option Tool} {agent : Agent} {st : TaskState}
    (h : taskNew registry agent = .ok st) : ∃ tools, st = { tools } := by
  unfold taskNew at h
  split at h
  · cases h
  · cases h
    exact ⟨_, rfl⟩

/-- What executing a task with a client can come to. -/
inductive Executed (e : Engine) (task : Task) (agent : Option Agent) :
    List Tool → TaskResult × Trace → Prop where
  /-- There was no model to ask. -/
  | unselected (tools : List Tool) (why : String) :
      Executed e task agent tools (errorResult task why, [])
  /-- The agent names a tool it cannot have. -/
  | refused (why : String) : Executed e task agent [] (toolFailedResult task why, [])
  | plain (model : String) :
      Executed e task agent []
        ((answer e task agent model none []).1, (answer e task agent model none []).2.trace)
  | tooled (model : String) (tools : List Tool) {st : TaskState}
      (hst : (answer e task agent model (some { tools }) []).2.st = some st) :
      Executed e task agent tools
        (taskFinish st (answer e task agent model (some { tools }) []).1,
          (answer e task agent model (some { tools }) []).2.trace)

theorem answerWithTools_executed (e : Engine) (registry : String → Option Tool) (agent : Agent)
    (model : String) : Executed e task agent (startTools (some registry) (some agent))
      (answerWithTools e registry task agent model []) := by
  unfold answerWithTools startTools
  simp only
  cases hnew : taskNew registry agent with
  | error why => exact .refused why
  | ok =>
    obtain ⟨tools, rfl⟩ := taskNew_ok hnew
    have hrun := answer_run e task (some agent) model (some { tools }) [] (by simp)
    obtain ⟨st, hst⟩ := Option.isSome_iff_exists.1 hrun.st_isSome
    simp only [hst]
    exact .tooled model tools hst

/-- Every execution is one of the cases. -/
theorem executeTask_executed (e : Engine) (registry : Option (String → Option Tool))
    (redacted : String → String) (task : Task) (agent : Option Agent) :
    Executed e task agent (startTools registry agent)
      (executeTask (some e) registry redacted task agent []) := by
  unfold executeTask
  simp only
  split
  · exact .unselected _ _
  next model _ =>
    cases registry with
    | none => exact .plain model
    | some registry =>
      cases agent with
      | none => exact .plain model
      | some agent =>
        simp only
        split
        next hnil =>
          have htools : startTools (some registry) (some agent) = [] := by
            simp only [startTools, taskNew, hnil, grant]
            rfl
          rw [htools]
          exact .plain model
        · exact answerWithTools_executed e registry agent model

/-- **Every task is such a conversation**, with the tools granted at its start. -/
theorem Executed.conversed {e : Engine} {tools : List Tool}
    {out : TaskResult × Trace} (h : Executed e task agent tools out) :
    ∃ t₀ t, Conversed e tools out t₀ t := by
  cases h with
  | unselected =>
    exact ⟨⟨some { tools }, { model := "" }, []⟩, _, ⟨rfl, nofun, rfl⟩, .refl, rfl, rfl⟩
  | refused => exact ⟨⟨none, { model := "" }, []⟩, _, ⟨rfl, nofun, rfl⟩, .refl, rfl, rfl⟩
  | plain model =>
    have hrun := answer_run e task agent model none [] nofun
    have hnone : (answer e task agent model none []).2.st = none :=
      Option.not_isSome_iff_eq_none.1 (by rw [hrun.st_isSome]; exact nofun)
    refine ⟨_, _, ⟨rfl, buildRequest_plain e.prompts task agent model none, rfl⟩, hrun, rfl, ?_⟩
    rw [Talk.state, hnone]
    simp only [answer, conclude_toolCalls]
    rfl
  | @tooled model _ st hst =>
    have hrun := answer_run e task agent model (some { tools }) [] (by simp)
    refine ⟨_, _, ⟨rfl, buildRequest_plain e.prompts task agent model none, rfl⟩, hrun, rfl, ?_⟩
    simp only [hst, taskFinish, Talk.state, Option.getD_some]
    split
    next hnil =>
      exact hnil.symm
    · rfl

end Agnosai.Answer
