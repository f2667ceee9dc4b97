import Agnosai.Orchestrator.Answer.Steps

/-!
# Orchestrator — Answer — Calls

How often a task asks. A conversation makes one chat call, and another after each turn it takes.
The turns of all of a task's conversations are counted by one counter, and there are at most four
conversations: the first, the one with another model, and two for answers that do not fit. So the
calls made are at most the conversations begun and the turns taken (`Counted`).
-/

namespace Agnosai.Answer

open Llm ToolLoop Conv List

/-! ### Attempts -/

/-- How many times a chat request was sent. -/
def attempts (tr : Trace) : Nat := tr.countP fun | .chat _ => true | _ => false

@[simp] theorem attempts_append (tr tr' : Trace) :
    attempts (tr ++ tr') = attempts tr + attempts tr' :=
  countP_append

variable {tr : Trace}

/-- What happens in a turn is no attempt. -/
theorem attempts_eq_zero (h : ∀ r, .chat r ∉ tr) : attempts tr = 0 := by
  refine countP_eq_zero.2 fun e he hchat => ?_
  cases e <;> first | exact h _ he | cases hchat

variable {w : World} {s : Setup}

theorem infer_attempts (request : Request) :
    ∃ seg, (infer w request tr).2 = tr ++ seg ∧ attempts seg = 1 := by
  unfold infer
  split <;> exact ⟨_, rfl, rfl⟩

/-- A call is tried once, and once more for each retry at most. -/
theorem withRetry_attempts (request : Request) (retries : Nat) (tr : Trace) :
    ∃ seg, (withRetry (infer w request) retries tr).2 = tr ++ seg ∧
      1 ≤ attempts seg ∧ attempts seg ≤ retries + 1 := by
  induction retries generalizing tr with
  | zero =>
    obtain ⟨seg, htr, hone⟩ := infer_attempts request
    exact ⟨seg, htr, hone.ge, hone.le⟩
  | succ retries ih =>
    obtain ⟨seg, htr, hone⟩ := infer_attempts request
    unfold withRetry
    split
    next h =>
      rw [h] at htr
      exact ⟨seg, htr, by omega, by omega⟩
    next tr' h =>
      rw [h] at htr
      obtain rfl : tr' = tr ++ seg := htr
      split
      · obtain ⟨seg', htr', hpos, hle⟩ := ih (tr ++ seg)
        refine ⟨seg ++ seg', ?_, ?_⟩
        · rw [htr', append_assoc]
        · rw [attempts_append]
          omega
      · exact ⟨seg, rfl, by omega, by omega⟩

/-! ### Chat calls -/

/-- The chat calls of what has happened, each with its attempts. -/
inductive Calls (w : World) : List Nat → Trace → Prop where
  | start : Calls w [] []
  /-- Something else happens. -/
  | pass {ns : List Nat} {tr seg : Trace} (h : Calls w ns tr) (hseg : attempts seg = 0) :
      Calls w ns (tr ++ seg)
  /-- The model is asked. -/
  | call {ns : List Nat} {tr seg : Trace} (h : Calls w ns tr) (request : Request)
      (hseg : (chat w request tr).2 = tr ++ seg) : Calls w (ns ++ [attempts seg]) (tr ++ seg)

/-- Each call is tried at most as often as it may be. -/
theorem Calls.attempts_le {ns : List Nat} (h : Calls w ns tr) :
    ∀ n ∈ ns, 1 ≤ n ∧ n ≤ defaultMaxRetries + 1 := by
  induction h with
  | start => exact nofun
  | pass _ _ ih => exact ih
  | @call ns tr seg _ request hseg ih =>
    intro n hn
    obtain hold | hnew := mem_append.1 hn
    · exact ih n hold
    · obtain rfl := mem_singleton.1 hnew
      obtain ⟨seg', htr, hpos, hle⟩ := withRetry_attempts request defaultMaxRetries tr
      obtain rfl : seg = seg' := append_cancel_left (hseg.symm.trans htr)
      exact ⟨hpos, hle⟩

/-! ### Retry prompts -/

/-- The messages of a transcript that has had so many prompts for an answer that did not fit. -/
inductive Prompted (e : Engine) (task : Task) (agent : Option Agent) :
    Nat → List Message → Prop where
  | base (model : String) :
      Prompted e task agent 0 (buildRequest e.prompts task agent model none).messages
  /-- The transcript is made anew, with the prompt for the task's own message. -/
  | anew {n : Nat} {messages : List Message} (h : Prompted e task agent n messages)
      (model prompt : String) :
      Prompted e task agent (n + 1) (buildRequest e.prompts task agent model (some prompt)).messages
  /-- The prompt goes on the end. -/
  | say {n : Nat} {messages : List Message} (h : Prompted e task agent n messages)
      (prompt : String) :
      Prompted e task agent (n + 1) (messages ++ [{ role := .user, content := prompt }])
  | turn {n : Nat} (k : Conv) (resp : Response) (h : Prompted e task agent n k.request.messages) :
      Prompted e task agent n (turnBody e.setup k resp).request.messages

/-! ### The calls of a task -/

/-- The conversation has made at most `asked` chat calls besides one for each turn it has taken, its
turns are within the limit, and its transcript has had `prompts` prompts. -/
structure Counted (e : Engine) (task : Task) (agent : Option Agent) (asked prompts : Nat)
    (t : Talk) : Prop where
  calls : ∃ ns, Calls e.setup.world ns t.trace ∧ ns.length ≤ asked + t.state.steps
  steps : t.state.steps ≤ e.setup.limits.maxSteps
  prompted : Prompted e task agent prompts t.request.messages

section Counting

variable {e : Engine} {task : Task} {agent : Option Agent} {asked prompts : Nat}

theorem Counted.mono {t : Talk} (h : Counted e task agent asked prompts t) {asked' : Nat}
    (hle : asked ≤ asked') : Counted e task agent asked' prompts t := by
  obtain ⟨⟨ns, hcalls, hlength⟩, hsteps, hprompted⟩ := h
  exact ⟨⟨ns, hcalls, by omega⟩, hsteps, hprompted⟩

/-- Asking is one call more. -/
theorem Counted.ask {t : Talk} (h : Counted e task agent asked prompts t)
    {out : Except String Response} (hchat : chat e.setup.world t.request t.trace = (out, tr)) :
    Counted e task agent (asked + 1) prompts { t with trace := tr } := by
  obtain ⟨⟨ns, hcalls, hlength⟩, hsteps, hprompted⟩ := h
  obtain ⟨seg, hseg, -, -⟩ := chat_spec t.request t.trace
  have htr : tr = t.trace ++ seg := by rw [← hseg, hchat]
  refine ⟨⟨ns ++ [attempts seg], ?_, ?_⟩, hsteps, hprompted⟩
  · rw [htr]
    exact hcalls.call t.request hseg
  · rw [length_append, length_singleton]
    have : ns.length ≤ asked + ({ t with trace := tr } : Talk).state.steps := hlength
    omega

/-- A turn makes room for a call. -/
theorem Counted.turnBody {k : Conv} (h : Counted e task agent (asked + 1) prompts (talk k))
    (resp : Response) (hlt : k.st.steps < e.setup.limits.maxSteps) :
    Counted e task agent asked prompts (talk (ToolLoop.turnBody e.setup k resp)) := by
  obtain ⟨⟨ns, hcalls, hlength⟩, -, hprompted⟩ := h
  obtain ⟨calls, seg, hspec⟩ := turnBody_spec k resp
  have hsteps : (talk (ToolLoop.turnBody e.setup k resp)).state.steps = k.st.steps + 1 :=
    turnBody_steps e.setup k resp
  refine ⟨⟨ns, ?_, ?_⟩, ?_, hprompted.turn k resp⟩
  · show Calls _ ns (ToolLoop.turnBody e.setup k resp).trace
    rw [hspec.trace]
    refine hcalls.pass (attempts_eq_zero fun r hr => ?_)
    cases hspec.turnNo _ hr
  · have : ns.length ≤ asked + 1 + k.st.steps := hlength
    omega
  · omega

/-- Being stopped asks nothing. -/
theorem Counted.stop {k : Conv} (h : Counted e task agent asked prompts (talk k))
    {why : Option String} (hhalt : taskHalt e.setup.world k.trace = (why, tr)) :
    Counted e task agent asked prompts (talk (k.stop tr)) := by
  obtain ⟨⟨ns, hcalls, hlength⟩, hsteps, hprompted⟩ := h
  refine ⟨⟨ns, ?_, hlength⟩, hsteps, hprompted⟩
  show Calls _ ns tr
  unfold taskHalt at hhalt
  split at hhalt <;> cases hhalt
  · exact hcalls
  · exact hcalls
  · exact hcalls.pass rfl

/-- A turn with its checks makes room for a call if the task goes on. -/
theorem Counted.turn {k k' : Conv} {resp : Response} {why : Option String}
    (h : Counted e task agent (asked + 1) prompts (talk k))
    (hturn : ToolLoop.turn e.setup k resp = (why, k')) :
    Counted e task agent (if why = none then asked else asked + 1) prompts (talk k') := by
  cases turn_turned hturn with
  | halted hhalt => exact h.stop hhalt
  | spent => exact ⟨h.calls, h.steps, h.prompted⟩
  | taken hlt => exact h.turnBody resp hlt
  | stopped hlt hhalt => exact ((h.turnBody resp hlt).stop hhalt).mono (Nat.le_succ asked)

variable {talk : Talk}

/-- A conversation is one call more, besides those of its turns. -/
theorem Counted.converse (h : Counted e task agent asked prompts talk) (out : Option Reply) :
    Counted e task agent (asked + 1) prompts (Answer.converse e.setup talk out).2 := by
  refine converse_invariant h (Q := Counted e task agent (asked + 1) prompts)
    (fun _ _ _ h hchat => h.ask hchat) (fun k resp k' h _ hturn => ?_)
      (fun k resp why k' h _ hturn => ?_)
  · exact h.turn hturn
  · exact h.turn hturn

/-- A retry is one prompt more. -/
theorem Counted.retry (h : Counted e task agent asked prompts talk) (model prompt : String) :
    Counted e task agent asked (prompts + 1) (talk.retry e task agent model prompt) := by
  refine ⟨h.calls, h.steps, ?_⟩
  simp only [Talk.retry, retryRequest]
  split
  · exact h.prompted.say prompt
  · exact h.prompted.anew model prompt

/-- Each retry of an answer that does not fit is one prompt, and one conversation. -/
theorem Counted.validateLoop (schema : Json) (model : String) (reply : Reply)
    (h : Counted e task agent asked 0 talk) :
    ∃ n ≤ maxValidationRetries, Counted e task agent (asked + n) n
      (Answer.validateLoop e task agent model schema maxValidationRetries talk reply).talk := by
  obtain ⟨left, n, hn, hcounted⟩ := validateLoop_invariant e task agent model schema
    (I := fun left talk => ∃ n, n + left = maxValidationRetries ∧
      Counted e task agent (asked + n) n talk)
    (fun left talk prompt out ⟨n, hn, hcounted⟩ =>
      ⟨n + 1, by omega, (hcounted.retry model prompt).converse out⟩) _ reply ⟨0, zero_add _, h⟩
  exact ⟨n, by omega, hcounted⟩

/-- The first answer takes one conversation, or two. -/
theorem Counted.firstAnswer {model model' : String} {st : Option TaskState} {o : Outcome}
    (h : Counted e task agent asked 0 ⟨st, buildRequest e.prompts task agent model none, tr⟩)
    (hfirst : Answer.firstAnswer e task agent model st tr = (model', o, talk)) :
    Counted e task agent (asked + 2) 0 talk := by
  have hconverse := h.converse none
  obtain hfirst | ⟨err, seg, hfailed, -, -, hsecond⟩ := firstAnswer_cases hfirst
  · rw [hfirst] at hconverse
    exact hconverse.mono (Nat.le_succ _)
  · rw [hfailed] at hconverse
    have hanew : Counted e task agent (asked + 1) 0
        ⟨st, buildRequest e.prompts task agent model' none, tr ++ seg⟩ :=
      ⟨hconverse.calls, hconverse.steps, .base model'⟩
    have hagain := hanew.converse none
    rwa [hsecond] at hagain

end Counting

/-- The calls an answer can make. -/
theorem answer_counted (e : Engine) (task : Task) (agent : Option Agent) (model : String)
    (tools : Option (List Tool)) :
    ∃ n ≤ maxValidationRetries, Counted e task agent (2 + n) n
      (answer e task agent model (tools.map fun tools => { tools }) []).2 := by
  have hstart : Counted e task agent 0 0
      ⟨tools.map fun tools => { tools }, buildRequest e.prompts task agent model none, []⟩ := by
    refine ⟨⟨[], .start, Nat.zero_le _⟩, ?_, .base model⟩
    cases tools <;> exact Nat.zero_le _
  unfold answer discuss
  simp only
  split
  next h _ =>
    exact Counted.validateLoop _ _ _ (hstart.firstAnswer h)
  next h _ =>
    exact ⟨0, Nat.zero_le _, hstart.firstAnswer h⟩

/-- **Answering a task ends.** Whatever the task, the limits and the model, the rounds of a
conversation are bounded; the task makes at most so many chat calls, each tried at most so often,
and its transcript gains at most so many prompts. -/
theorem answer_bounded (e : Engine) (task : Task) (agent : Option Agent) (model : String)
    (tools : Option (List Tool)) :
    (∀ t, (converseLoop e.setup).within (e.setup.limits.maxSteps + 1) t =
      some ((converseLoop e.setup).run t)) ∧
    (∃ ns, Calls e.setup.world ns
        (answer e task agent model (tools.map fun tools => { tools }) []).2.trace ∧
      ns.length ≤ (e.setup.limits.maxSteps + 1) + maxValidationRetries + 1 ∧
      ∀ n ∈ ns, 1 ≤ n ∧ n ≤ defaultMaxRetries + 1) ∧
    ∃ prompts ≤ maxValidationRetries, Prompted e task agent prompts
      (answer e task agent model (tools.map fun tools => { tools }) []).2.request.messages := by
  obtain ⟨prompts, hle, hcounted⟩ := answer_counted e task agent model tools
  refine ⟨fun t => ?_, ?_, prompts, hle, hcounted.prompted⟩
  · exact (converseLoop e.setup).within_eq_run (Nat.lt_succ_of_le (Nat.sub_le _ _))
  · obtain ⟨ns, hcalls, hlength⟩ := hcounted.calls
    have hsteps := hcounted.steps
    exact ⟨ns, hcalls, by omega, hcalls.attempts_le⟩

end Agnosai.Answer
