import Agnosai.Orchestrator.Answer.Steps

/-!
# Orchestrator — Answer — Messages

How many messages a task sends. A turn puts the model's words, one reply for each call it keeps
and, when it keeps fewer than the model asked for, a note on the transcript
(`turnBody_messages_length`). A task starts from at most four messages and has at most two prompts
put on its end; `Fits` carries that count along. `agnosai_tool_loop_set_limits` counts a turn
without its note, and multiplies in 64 bits.
-/

namespace Agnosai.Answer

open Llm ToolLoop Conv List

variable {s : Setup}

/-! ### The messages of a turn -/

theorem prepareAll_length (texts : Texts) (asked : List ChatToolCall) (st : TaskState) (i : Nat) :
    (prepareAll texts st i asked).1.length = asked.length := by
  induction asked generalizing st i with
  | nil => rfl
  | cons a rest ih => exact congrArg (· + 1) (ih _ _)

theorem deliver_messages_length (n : Nat) (calls : List Call) (k : Conv) :
    (deliver s n calls k).request.messages.length = k.request.messages.length + calls.length := by
  obtain ⟨replies, hmsgs, hrep⟩ := (deliver_spec s n calls k).messages
  rw [hmsgs, length_append, hrep.length_eq]

theorem noteDropped_messages_length (kept total : Nat) (k : Conv) :
    (noteDropped kept total k).request.messages.length =
      k.request.messages.length + if kept < total then 1 else 0 := by
  unfold noteDropped
  split
  · simp [Request.say]
  · rfl

theorem settle_length (w : World) (n : Nat) (calls : List Call) (tr : Trace) :
    (settle w n calls tr).1.length = calls.length := by
  obtain ⟨-, -, -, -, -, -, hstop, -⟩ := settle_spec
  exact hstop.length_eq.symm

/-- The messages a turn with so many calls asked for puts on the transcript. -/
def turnMessages (maxCalls asked : Nat) : Nat :=
  1 + min asked maxCalls + if min asked maxCalls < asked then 1 else 0

theorem turnMessages_le (maxCalls asked : Nat) : turnMessages maxCalls asked ≤ maxCalls + 2 := by
  unfold turnMessages
  split <;> omega

/-- A call too many makes a turn as long as it can be. -/
theorem turnMessages_succ (maxCalls : Nat) :
    turnMessages maxCalls (maxCalls + 1) = maxCalls + 2 := by
  unfold turnMessages
  rw [min_eq_right (Nat.le_succ maxCalls), if_pos (Nat.lt_succ_self maxCalls)]
  omega

theorem turnBody_messages_length (s : Setup) (k : Conv) (resp : Response) :
    (turnBody s k resp).request.messages.length =
      k.request.messages.length + turnMessages s.limits.maxCalls resp.toolCalls.length := by
  simp only [turnBody, closeTurn, noteDropped_messages_length, deliver_messages_length,
    settle_length,
    openTurn, Request.sayToolCalls, length_append, length_singleton, prepareAll_length,
    length_take, turnMessages]
  omega

/-- A turn sends nothing. -/
theorem turnBody_sent (k : Conv) (resp : Response) {r : Request}
    (h : .chat r ∈ (turnBody s k resp).trace) : .chat r ∈ k.trace := by
  obtain ⟨calls, seg, hspec⟩ := turnBody_spec k resp
  rw [hspec.trace, mem_append] at h
  refine h.resolve_right fun hseg => ?_
  cases hspec.turnNo _ hseg

/-! ### The messages of a task -/

/-- The most messages a request of a task can have. -/
def mostMessages (limits : Limits) : Nat := limits.maxSteps * (limits.maxCalls + 2) + 6

/-- The conversation has `n` messages besides those of its turns, which are within the limits, and
so has everything it sent. -/
structure Fits (s : Setup) (n : Nat) (t : Talk) : Prop where
  messages : t.request.messages.length ≤ n + t.state.steps * (s.limits.maxCalls + 2)
  steps : t.state.steps ≤ s.limits.maxSteps
  sent : ∀ r, .chat r ∈ t.trace → r.messages.length ≤ mostMessages s.limits

variable {t : ToolTalk} {k : Conv} {resp : Response}

section Conversing

variable {n : Nat}

theorem Fits.request {t : Talk} (h : Fits s n t) (hn : n ≤ 6) :
    t.request.messages.length ≤ mostMessages s.limits := by
  have hsteps := Nat.mul_le_mul_right (s.limits.maxCalls + 2) h.steps
  have hmessages := h.messages
  unfold mostMessages
  omega

theorem Fits.note {t : Talk} (h : Fits s n t) (hn : n ≤ 6) {seg : Trace}
    (hnoted : Noted t.request seg) : Fits s n { t with trace := t.trace ++ seg } where
  messages := h.messages
  steps := h.steps
  sent r hr := by
    obtain hold | hnew := mem_append.1 hr
    · exact h.sent r hold
    · rw [hnoted.sent r hnew]
      exact h.request hn

theorem Fits.stop (h : Fits s n (talk k)) (hn : n ≤ 6) {why : Option String}
    {tr : Trace} (hhalt : taskHalt s.world k.trace = (why, tr)) :
    Fits s n (talk (k.stop tr)) := by
  obtain ⟨seg, htr, hnoted, -⟩ := taskHalt_spec s.world k.trace k.request
  rw [hhalt] at htr
  obtain rfl : tr = k.trace ++ seg := htr
  have hnote := h.note hn hnoted
  exact ⟨hnote.messages, hnote.steps, hnote.sent⟩

/-- A turn adds what it may, and counts. -/
theorem Fits.turnBody (h : Fits s n (talk k)) (hlt : k.st.steps < s.limits.maxSteps) :
    Fits s n (talk (ToolLoop.turnBody s k resp)) where
  messages := by
    have hle := turnMessages_le s.limits.maxCalls resp.toolCalls.length
    have hmessages : k.request.messages.length ≤ n + k.st.steps * (s.limits.maxCalls + 2) :=
      h.messages
    simp only [talk, Talk.state, Option.getD_some, turnBody_messages_length, turnBody_steps,
      add_mul, one_mul] at hmessages ⊢
    omega
  steps := by
    simp only [talk, Talk.state, Option.getD_some, turnBody_steps]
    exact hlt
  sent r hr := h.sent r (turnBody_sent k resp hr)

theorem Fits.turn {k' : Conv} {why : Option String} (h : Fits s n (talk k))
    (hn : n ≤ 6) (hturn : ToolLoop.turn s k resp = (why, k')) : Fits s n (talk k') := by
  cases turn_turned hturn with
  | halted hhalt => exact h.stop hn hhalt
  | spent => exact ⟨h.messages, h.steps, h.sent⟩
  | taken hlt => exact h.turnBody hlt
  | stopped hlt hhalt => exact (h.turnBody hlt).stop hn hhalt

theorem Fits.converse {talk : Talk} (h : Fits s n talk) (hn : n ≤ 6) (out : Option Reply) :
    Fits s n (Answer.converse s talk out).2 := by
  refine converse_invariant h (fun _ _ _ h hchat => ?_) (fun _ _ _ h _ hturn => h.turn hn hturn)
    (fun _ _ _ _ h _ hturn => h.turn hn hturn)
  obtain ⟨seg, rfl, hchatted, -⟩ := chat_noted hchat
  exact h.note hn hchatted.toNoted

end Conversing

section Answering

variable (e : Engine) (task : Task) (agent : Option Agent) (model : String)

theorem buildRequest_messages_le (p : Prompts) (userMsg : Option String) :
    (buildRequest p task agent model userMsg).messages.length ≤ 4 := by
  unfold buildRequest
  cases p.context task <;> simp [Request.say]

/-- A retry adds its prompt, or begins anew. -/
theorem Fits.retry {n : Nat} {talk : Talk} (h : Fits e.setup n talk) (hn : 4 ≤ n)
    (prompt : String) : Fits e.setup (n + 1) (talk.retry e task agent model prompt) where
  messages := by
    have hmessages := h.messages
    have hbuild := buildRequest_messages_le task agent model e.prompts (some prompt)
    simp only [Talk.retry, retryRequest, Talk.state] at hmessages ⊢
    split
    · simp only [Request.say, length_append, length_singleton]
      omega
    · omega
  steps := h.steps
  sent := h.sent

/-- With two retries left there are at most four messages besides those of the turns. -/
theorem Fits.validateLoop (schema : Json) {talk : Talk} (reply : Reply) (h : Fits e.setup 4 talk) :
    ∃ n ≤ 6, Fits e.setup n
      (Answer.validateLoop e task agent model schema maxValidationRetries talk reply).talk := by
  obtain ⟨left, -, hfits⟩ := validateLoop_invariant e task agent model schema
    (I := fun left talk => left ≤ 2 ∧ Fits e.setup (6 - left) talk)
    (fun left talk prompt out h => by
      have hconverse := (h.2.retry e task agent model (by omega) prompt).converse (by omega) out
      rw [show 6 - (left + 1) + 1 = 6 - left by omega] at hconverse
      exact ⟨by omega, hconverse⟩)
    maxValidationRetries reply ⟨le_rfl, by simpa [maxValidationRetries] using h⟩
  exact ⟨_, Nat.sub_le 6 left, hfits⟩

theorem fits_start (st : Option TaskState) (hst : ∀ st' ∈ st, st'.steps = 0) (tr : Trace)
    (hsent : ∀ r, .chat r ∈ tr → r.messages.length ≤ mostMessages e.setup.limits) :
    Fits e.setup 4 ⟨st, buildRequest e.prompts task agent model none, tr⟩ where
  messages :=
    (buildRequest_messages_le task agent model e.prompts none).trans (Nat.le_add_right 4 _)
  steps := by
    cases st with
    | none => exact Nat.zero_le _
    | some st =>
      show st.steps ≤ _
      rw [hst st rfl]
      exact Nat.zero_le _
  sent := hsent

theorem Fits.firstAnswer {st : Option TaskState} (hst : ∀ st' ∈ st, st'.steps = 0) {model' : String}
    {o : Outcome} {talk : Talk}
    (h : Answer.firstAnswer e task agent model st [] = (model', o, talk)) :
    Fits e.setup 4 talk := by
  have hstart := fits_start e task agent model st hst [] (by simp)
  obtain hfirst | ⟨-, seg, -, hchatted, -, hsecond⟩ := firstAnswer_cases h
  · have hconverse := hstart.converse (by omega) none
    rwa [hfirst] at hconverse
  · have hnote := hstart.note (by omega) hchatted.toNoted
    have hconverse := (fits_start e task agent model' st hst _ hnote.sent).converse (by omega) none
    rw [nil_append] at hsecond
    rwa [nil_append, hsecond] at hconverse

theorem answer_fits {st : Option TaskState} (hst : ∀ st' ∈ st, st'.steps = 0) :
    ∃ n ≤ 6, Fits e.setup n (answer e task agent model st []).2 := by
  unfold answer discuss
  simp only
  split
  next h _ =>
    exact Fits.validateLoop e task agent _ _ _ (.firstAnswer e task agent model hst h)
  next h _ =>
    exact ⟨4, by omega, .firstAnswer e task agent model hst h⟩

/-- **No request of a task has more messages than that**, whatever the model does. -/
theorem sent_le (registry : Option (String → Option Tool)) (redacted : String → String)
    {r : Request} (hr : .chat r ∈ (executeTask (some e) registry redacted task agent []).2) :
    r.messages.length ≤ mostMessages e.setup.limits := by
  have hanswer : ∀ (model : String) (st : Option TaskState), (∀ st' ∈ st, st'.steps = 0) →
      .chat r ∈ (answer e task agent model st []).2.trace →
        r.messages.length ≤ mostMessages e.setup.limits := by
    intro model st hst hmem
    obtain ⟨n, -, hfits⟩ := answer_fits e task agent model hst
    exact hfits.sent r hmem
  have hexecuted := executeTask_executed e registry redacted task agent
  generalize executeTask (some e) registry redacted task agent [] = out at hr hexecuted
  generalize startTools registry agent = tools at hexecuted
  cases hexecuted with
  | unselected => cases hr
  | refused => cases hr
  | plain model => exact hanswer model none (nofun) hr
  | tooled model => exact hanswer model (some { tools }) (fun st' hst' => by cases hst'; rfl) hr

end Answering

/-! ### A model that takes all it may -/

/-- With turns left and nothing to halt it, a turn is taken. -/
theorem turn_of_no_halt (hhalt : ∀ tr, s.world.halt tr = none)
    (hlt : k.st.steps < s.limits.maxSteps) : turn s k resp = (none, turnBody s k resp) := by
  have hgoes : ∀ tr, taskHalt s.world tr = (none, tr) := fun tr => by rw [taskHalt, hhalt]
  simp only [turn, hgoes, if_neg (not_le.2 hlt)]

/-- An answer with no calls ends the conversation. -/
theorem converse_of_plain {talk : Talk} (out : Option Reply) {r : Response} {tr : Trace}
    (hchat : chat s.world talk.request talk.trace = (.ok r, tr)) (hcalls : r.toolCalls = []) :
    converse s talk out =
      (.answered { addr := tr.length, body := r }, { talk with trace := tr }) := by
  obtain ⟨_ | st, request, trace⟩ := talk
  · simp only [converse, hchat]
  · have hleave : (converseLoop s).step
        { conv := { st, request, trace := tr }, reply := { addr := tr.length, body := r } } =
          .inr (.answered { addr := tr.length, body := r }, { st, request, trace := tr }) :=
      if_pos hcalls
    simp only [converse, hchat, (converseLoop s).run_of_inr hleave]

/-- An answer that does not fit, and a retry that is answered. -/
theorem validateLoop_succ {e : Engine} {task : Task} {agent : Option Agent} {model : String}
    {schema : Json} {retries : Nat} {talk talk' : Talk} {reply r : Reply} {verr extracted : String}
    (hverr : e.prompts.validate reply.body.content schema = (some verr, extracted))
    (hconv : converse e.setup (talk.retry e task agent model
      (e.prompts.retryPrompt task talk.st.isSome extracted verr schema)) (some reply) =
        (.answered r, talk')) :
    validateLoop e task agent model schema (retries + 1) talk reply =
      validateLoop e task agent model schema retries talk' (reply.carry r) := by
  rw [Talk.retry] at hconv
  rw [validateLoop]
  simp only [hverr, hconv]

section Greedy

variable {limits : Limits}

variable (limits)

/-- What such a model answers: one call too many for as long as there are turns, and then nothing
that fits. -/
def greedyReply (request : Request) : Response :=
  { content := ""
    model := "m"
    toolCalls :=
      if request.messages.length < 4 + limits.maxSteps * (limits.maxCalls + 2) then
        replicate (limits.maxCalls + 1) { id := none, name := "t", arguments := "" }
      else [] }

def greedyWorld : World where
  chat _ request := .ok (greedyReply limits request)
  halt _ := none
  gate _ _ := none
  batch _ _ _ := none
  gateCall _ _ _ := none
  journal := none
  execute _ _ := none
  heldBack _ _ _ := none
  order _ calls := calls
  order_perm _ calls := .refl calls

/-- An engine for it, whose tasks have a context and whose check takes no answer. -/
def greedy : Engine where
  setup :=
    { world := greedyWorld limits
      limits
      texts :=
        { parse := fun _ => none
          build := fun _ => ""
          redact := none
          redactValue := id
          outputText := fun _ _ => ""
          scan := fun _ => none
          wrap := fun text _ => text } }
  prompts :=
    { systemPrompt := fun _ => ""
      context := fun _ => some ""
      userMessage := fun _ => ""
      retryPrompt := fun _ _ _ _ _ => ""
      filterOutput := id
      validate := fun content _ => (some "", content) }
  selectModel _ _ := .ok "m"
  selectionFixed _ := true
  catalogOwner _ _ := none

/-- The task, which has an output schema. -/
def greedyTask : Task := { id := "t", description := "", outputSchema := some .null }

/-- The agent, and the tool it names. -/
def greedyAgent : Agent := { key := "a", role := "", goal := "", tools := ["t"] }

def greedyRegistry (name : String) : Option Tool := some { addr := 0, name }

def greedyRun : TaskResult × Trace :=
  executeTask (some (greedy limits)) (some greedyRegistry) id greedyTask (some greedyAgent) []

/-- The trace after the request was answered. -/
def greedyTrace (request : Request) (tr : Trace) : Trace :=
  tr ++ [.chat request, .answered (greedyReply limits request)]

variable {limits}

theorem greedy_chat (request : Request) (tr : Trace) :
    chat (greedy limits).setup.world request tr =
      (.ok (greedyReply limits request), greedyTrace limits request tr) := rfl

theorem mem_greedyTrace (request : Request) (tr : Trace) :
    .chat request ∈ greedyTrace limits request tr :=
  mem_append_right _ mem_cons_self

/-- What holds at the top of its rounds: each turn has been as long as it can be. -/
structure Greedy (limits : Limits) (t : ToolTalk) : Prop where
  steps : t.conv.st.steps ≤ limits.maxSteps
  messages : t.conv.request.messages.length = 4 + t.conv.st.steps * (limits.maxCalls + 2)
  asked : t.reply.body.toolCalls = (greedyReply limits t.conv.request).toolCalls
  sent : .chat t.conv.request ∈ t.conv.trace

theorem Greedy.asked_lt (h : Greedy limits t) (hlt : t.conv.st.steps < limits.maxSteps) :
    t.reply.body.toolCalls =
      replicate (limits.maxCalls + 1) { id := none, name := "t", arguments := "" } := by
  have hmul := Nat.mul_lt_mul_of_pos_right hlt (Nat.succ_pos (limits.maxCalls + 1))
  rw [h.asked, greedyReply, h.messages]
  exact if_pos (Nat.add_lt_add_left hmul 4)

theorem Greedy.asked_eq (h : Greedy limits t)
    (heq : t.conv.st.steps = limits.maxSteps) : t.reply.body.toolCalls = [] := by
  rw [h.asked, greedyReply, h.messages, heq]
  exact if_neg (lt_irrefl _)

/-- While there are turns left, it takes one more. -/
theorem Greedy.next (h : Greedy limits t) (hlt : t.conv.st.steps < limits.maxSteps) :
    ∃ t', converseStep (greedy limits).setup t = .inl t' ∧ Greedy limits t' ∧
      t'.conv.st.steps = t.conv.st.steps + 1 := by
  have hasked := h.asked_lt hlt
  have hturn : turn (greedy limits).setup t.conv t.reply.body =
      (none, turnBody (greedy limits).setup t.conv t.reply.body) :=
    turn_of_no_halt (fun _ => rfl) hlt
  have hsteps := turnBody_steps (greedy limits).setup t.conv t.reply.body
  have hlength := turnBody_messages_length (greedy limits).setup t.conv t.reply.body
  rw [hasked, length_replicate, h.messages] at hlength
  replace hlength := hlength.trans (congrArg _ (turnMessages_succ limits.maxCalls))
  have hstep := converseStep.eq_1 (greedy limits).setup t
  rw [if_neg (by rw [hasked]; exact cons_ne_nil _ _), hturn] at hstep
  refine ⟨_, hstep, ⟨?_, ?_, rfl, mem_greedyTrace _ _⟩, hsteps⟩
  · exact hsteps.trans_le hlt
  · rw [hsteps, hlength, Nat.succ_mul, add_assoc]

/-- **It takes them all**, and answers. -/
theorem Greedy.run (h : Greedy limits t) :
    ∃ t', (converseLoop (greedy limits).setup).run t = (.answered t'.reply, t'.conv) ∧
      Greedy limits t' ∧ t'.conv.st.steps = limits.maxSteps := by
  induction hleft : limits.maxSteps - t.conv.st.steps generalizing t with
  | zero =>
    have hsteps : t.conv.st.steps = limits.maxSteps := by
      have := h.steps
      omega
    exact ⟨t, (converseLoop _).run_of_inr (if_pos (h.asked_eq hsteps)), h, hsteps⟩
  | succ left ih =>
    obtain ⟨t', hstep, h', hsteps⟩ := h.next (by omega)
    rw [(converseLoop _).run_of_inl hstep]
    exact ih h' (by omega)

/-- A conversation whose turns are all taken, and that has sent its request of `m` messages. -/
structure Sated (limits : Limits) (m : Nat) (t : Talk) : Prop where
  st : ∃ st, t.st = some st ∧ 0 < st.steps
  messages : t.request.messages.length = m
  sent : .chat t.request ∈ t.trace

/-- The first answer comes after all the turns. -/
theorem greedy_converse (limits : Limits) (st : TaskState) (request : Request) (tr : Trace)
    (hst : st.steps = 0) (hrequest : request.messages.length = 4) :
    ∃ reply talk, converse (greedy limits).setup ⟨some st, request, tr⟩ none =
      (.answered reply, talk) ∧
      Sated limits (4 + limits.maxSteps * (limits.maxCalls + 2)) talk := by
  have hstart : Greedy limits
      { conv := { st, request, trace := greedyTrace limits request tr }
        reply :=
          { addr := (greedyTrace limits request tr).length
            body := greedyReply limits request } } :=
    { steps := hst.trans_le (Nat.zero_le _)
      messages := by simp only [hst, hrequest, Nat.zero_mul]
      asked := rfl
      sent := mem_greedyTrace request tr }
  obtain ⟨t, hrun, h, hsteps⟩ := hstart.run
  refine ⟨t.reply, talk t.conv, ?_, ⟨t.conv.st, rfl, ?_⟩, ?_, h.sent⟩
  · unfold converse
    simp only [greedy_chat, hrun]
    rfl
  · rw [hsteps]
    exact limits.maxSteps_pos
  · exact h.messages.trans (by rw [hsteps])

/-- Every later one comes at once. -/
theorem greedy_converse_again {m : Nat} (talk : Talk) (hst : ∃ st, talk.st = some st ∧ 0 < st.steps)
    (hrequest : talk.request.messages.length = m)
    (hm : 4 + limits.maxSteps * (limits.maxCalls + 2) ≤ m) (out : Option Reply) :
    ∃ reply talk', converse (greedy limits).setup talk out = (.answered reply, talk') ∧
      Sated limits m talk' := by
  obtain ⟨st, hsome, hpos⟩ := hst
  have hplain : (greedyReply limits talk.request).toolCalls = [] := by
    rw [greedyReply, hrequest]
    exact if_neg (not_lt.2 hm)
  exact ⟨_, _, converse_of_plain out (greedy_chat _ _) hplain, ⟨st, hsome, hpos⟩, hrequest,
    mem_greedyTrace _ _⟩

/-- Every retry puts one more message on the transcript. -/
theorem Sated.validateLoop (retries : Nat) {m : Nat} {talk : Talk} (model : String) (schema : Json)
    (reply : Reply) (h : Sated limits m talk)
    (hm : 4 + limits.maxSteps * (limits.maxCalls + 2) ≤ m) :
    ∃ r : Request, r.messages.length = m + retries ∧
      .chat r ∈
        (Answer.validateLoop (greedy limits) greedyTask (some greedyAgent) model schema retries
        talk reply).talk.trace := by
  induction retries generalizing m talk reply with
  | zero => exact ⟨talk.request, h.messages, h.sent⟩
  | succ retries ih =>
    obtain ⟨st, hst, hpos⟩ := h.st
    have hlength : (retryRequest (greedy limits).prompts greedyTask (some greedyAgent) model talk
        "").messages.length = m + 1 := by
      simp [retryRequest, hst, hpos, Request.say, h.messages]
    obtain ⟨r, talk', hconv, h'⟩ := greedy_converse_again
      (talk.retry (greedy limits) greedyTask (some greedyAgent) model "") ⟨st, hst, hpos⟩ hlength
      (hm.trans (Nat.le_succ m)) (some reply)
    obtain ⟨request, hrequest, hmem⟩ := ih (reply.carry r) h' (hm.trans (Nat.le_succ m))
    refine ⟨request, by omega, ?_⟩
    rw [validateLoop_succ rfl hconv]
    exact hmem

/-- **The bound is met.** -/
theorem greedy_sent (limits : Limits) :
    ∃ r : Request, r.messages.length = mostMessages limits ∧ .chat r ∈ (greedyRun limits).2 := by
  have hnew : taskNew greedyRegistry greedyAgent =
      .ok { tools := [{ addr := 0, name := "t" }] } := by
    simp only [taskNew, greedyAgent, greedyRegistry, grant]
    rfl
  obtain ⟨reply, talk, hconv, h⟩ := greedy_converse limits
    { tools := [{ addr := 0, name := "t" }] }
    (buildRequest (greedy limits).prompts greedyTask (some greedyAgent) "m" none) [] rfl rfl
  obtain ⟨r, hr, hmem⟩ := h.validateLoop maxValidationRetries "m" .null reply le_rfl
  have hfirst : firstAnswer (greedy limits) greedyTask (some greedyAgent) "m"
      (some { tools := [{ addr := 0, name := "t" }] }) [] = ("m", .answered reply, talk) := by
    simp only [firstAnswer, hconv]
  have htrace : (greedyRun limits).2 =
      (validateLoop (greedy limits) greedyTask (some greedyAgent) "m"
      .null maxValidationRetries talk reply).talk.trace := by
    have hanswer : (greedyRun limits).2 =
        (answerWithTools (greedy limits) greedyRegistry greedyTask greedyAgent "m" []).2 := rfl
    rw [hanswer, answerWithTools, hnew]
    simp only [answer, discuss, hfirst]
    rfl
  refine ⟨r, ?_, htrace ▸ hmem⟩
  rw [hr, mostMessages, maxValidationRetries]
  omega

end Greedy

/-! ### The limits -/

/-- The messages hoosh takes in a request. -/
def hooshMessages : Nat := 256

theorem setLimits_eq_some {maxSteps maxCalls resultBytes transcriptBytes : Int64} {limits : Limits}
    (h : setLimits maxSteps maxCalls resultBytes transcriptBytes = some limits) :
    (limits.maxSteps : Int) = maxSteps.toInt ∧ (limits.maxCalls : Int) = maxCalls.toInt := by
  unfold setLimits at h
  split at h
  next hpos =>
    split at h
    · cases h
    · split at h
      · cases h
      · cases h
        have hsteps := Int64.lt_iff_toInt_lt.1 hpos.1
        have hcalls := Int64.lt_iff_toInt_lt.1 hpos.2.1
        exact ⟨Int.toNat_of_nonneg hsteps.le, Int.toNat_of_nonneg hcalls.le⟩
  · cases h

/-- **The limits that keep every request within what hoosh takes**, among those that are
accepted. -/
theorem requests_within_hoosh {maxSteps maxCalls resultBytes transcriptBytes : Int64}
    {limits : Limits} (h : setLimits maxSteps maxCalls resultBytes transcriptBytes = some limits) :
    (∀ e : Engine, e.setup.limits = limits → ∀ registry redacted task agent (r : Request),
      .chat r ∈ (executeTask (some e) registry redacted task agent []).2 →
        r.messages.length ≤ hooshMessages) ↔
      maxSteps.toInt * (maxCalls.toInt + 2) ≤ 250 := by
  obtain ⟨hsteps, hcalls⟩ := setLimits_eq_some h
  have hmost : mostMessages limits ≤ hooshMessages ↔
      maxSteps.toInt * (maxCalls.toInt + 2) ≤ 250 := by
    have hcast : ((limits.maxSteps * (limits.maxCalls + 2) : Nat) : Int) =
        limits.maxSteps * (limits.maxCalls + 2) := by
      rfl
    rw [← hsteps, ← hcalls, mostMessages, hooshMessages, ← hcast]
    omega
  rw [← hmost]
  constructor
  · intro hall
    obtain ⟨r, hr, hmem⟩ := greedy_sent limits
    exact hr ▸ hall (greedy limits) rfl _ _ _ _ r hmem
  · rintro hle e rfl registry redacted task agent r hr
    exact (sent_le e task agent registry redacted hr).trans hle

/-- The default of eight calls in sixteen turns keeps within. -/
theorem requests_within_default :
    ∃ limits, setLimits 16 8 32768 262144 = some limits ∧
      ∀ e : Engine, e.setup.limits = limits → ∀ registry redacted task agent (r : Request),
        .chat r ∈ (executeTask (some e) registry redacted task agent []).2 →
          r.messages.length ≤ hooshMessages := by
  have hset : setLimits 16 8 32768 262144 = some {} := rfl
  exact ⟨_, hset, (requests_within_hoosh hset).2 (by decide)⟩

/-- Sixteen turns of fourteen calls are accepted, and a request can have 262 messages. -/
theorem requests_past_hoosh :
    ∃ limits, setLimits 16 14 32768 262144 = some limits ∧
      ∃ r : Request, .chat r ∈ (greedyRun limits).2 ∧ r.messages.length = 262 := by
  have hset : setLimits 16 14 32768 262144 = some { maxCalls := 14 } := rfl
  obtain ⟨r, hr, hmem⟩ := greedy_sent { maxCalls := 14 }
  exact ⟨_, hset, r, hmem, hr⟩

end Agnosai.Answer
