import Agnosai.Orchestrator.Answer.Steps
import Agnosai.Orchestrator.CrewRunner.Definitions

/-!
# Orchestrator — Answer — Outcome

What the crew runner relies on of a task's execution (`taskEnv`): the result is that of the task it
was given (`Executed.taskId`), and a task whose tool loop saw the deadline pass did not complete
(`Executed.inTime`), as the loop stops it there and nothing asks the model again.
-/

namespace Agnosai.Answer

open Llm ToolLoop

variable {s : Setup}

/-! ### In time -/

/-- A turn after which the task goes on did not see the deadline pass. -/
theorem turn_inTime {k k' : Conv} {resp : Response} (h : turn s k resp = (none, k'))
    (hin : .timedOut ∉ k.trace) : .timedOut ∉ k'.trace := by
  cases turn_turned h with
  | taken =>
    obtain ⟨calls, seg, hturn⟩ := turnBody_spec k resp
    rw [hturn.trace, List.mem_append, not_or]
    exact ⟨hin, fun hmem => nomatch hturn.turnNo _ hmem⟩

variable {st : Option TaskState} {agent : Option Agent} {r : Reply} {tr : Trace} {model : String}
  {talk : Talk} {task : Task}

theorem chat_inTime {w : World} {request : Request} {tr' : Trace} {r : Response}
    (h : chat w request tr = (.ok r, tr')) (hin : .timedOut ∉ tr) : .timedOut ∉ tr' := by
  obtain ⟨seg, rfl, hchatted, -⟩ := chat_noted h
  rw [List.mem_append, not_or]
  exact ⟨hin, hchatted.inTime⟩

/-- A conversation that ended with an answer did not see the deadline pass. -/
theorem converse_inTime {talk' : Talk} {out : Option Reply}
    (h : converse s talk out = (.answered r, talk')) (hin : .timedOut ∉ talk.trace) :
    .timedOut ∉ talk'.trace := by
  have hrule : (converse s talk out).1 = .answered r →
      .timedOut ∉ (converse s talk out).2.trace := by
    refine converse_rule (J := fun t _ => .timedOut ∉ t.trace)
      (Q := fun o t => o = .answered r → .timedOut ∉ t.trace) (fun _ _ _ => nofun)
      (fun _ _ hchat => chat_inTime hchat hin) (fun _ _ hin _ => hin) (fun _ _ _ _ _ _ => nofun)
      (fun _ _ _ _ _ _ _ _ => nofun) ?_
    exact fun _ _ _ _ _ hin hturn hchat => chat_inTime hchat (turn_inTime hturn hin)
  rw [h] at hrule
  exact hrule rfl

theorem validateLoop_inTime (e : Engine) (schema : Json) (retries : Nat) {reply : Reply}
    (hin : .timedOut ∉ talk.trace)
    (h : (validateLoop e task agent model schema retries talk reply).outcome = .answered r) :
    .timedOut ∉ (validateLoop e task agent model schema retries talk reply).talk.trace := by
  refine validateLoop_rule e task agent model schema (I := fun _ talk _ => .timedOut ∉ talk.trace)
    (Q := fun d => d.outcome = .answered r → .timedOut ∉ d.talk.trace) ?_ ?_ ?_ retries hin h
  · rintro _ talk reply d hin - rfl -
    exact hin
  · exact fun _ talk reply prompt r talk' hin hconv => converse_inTime hconv hin
  · intro _ talk reply prompt err last talk' d _ _ hfailed _ hanswered
    rw [hfailed] at hanswered
    cases hanswered

theorem firstAnswer_inTime {e : Engine} {model' : String} (hin : .timedOut ∉ tr)
    (h : firstAnswer e task agent model st tr = (model', .answered r, talk)) :
    .timedOut ∉ talk.trace := by
  obtain hfirst | ⟨-, seg, -, hchatted, -, hsecond⟩ := firstAnswer_cases h
  · exact converse_inTime hfirst hin
  · refine converse_inTime hsecond ?_
    rw [List.mem_append, not_or]
    exact ⟨hin, hchatted.inTime⟩

theorem discuss_inTime {e : Engine} (hin : .timedOut ∉ tr)
    (h : (discuss e task agent model st tr).2.outcome = .answered r) :
    .timedOut ∉ (discuss e task agent model st tr).2.talk.trace := by
  revert h
  unfold discuss
  split
  next hfirst _ =>
    exact validateLoop_inTime e _ _ (firstAnswer_inTime hin hfirst)
  next hfirst _ =>
    rintro rfl
    exact firstAnswer_inTime hin hfirst

/-! ### Results -/

theorem conclude_taskId (e : Engine) (d : Ending) :
    (conclude e task agent model d).taskId = task.id := by
  obtain ⟨md, h⟩ := conclude_spec e task agent model d
  exact h.taskId

theorem answer_inTime {e : Engine} (h : (answer e task agent model st []).1.status = .completed) :
    .timedOut ∉ (answer e task agent model st []).2.trace := by
  obtain ⟨md, hconcluded⟩ := conclude_spec e task agent (discuss e task agent model st []).1
    (discuss e task agent model st []).2
  obtain ⟨r, hr⟩ := hconcluded.completed h
  exact discuss_inTime List.not_mem_nil hr

/-! ### The runner's environment -/

section Executed

variable {e : Engine} {task : Task} {agent : Option Agent} {tools : List Tool}
  {out : TaskResult × Trace}

/-- The result of a task is that of the task. -/
theorem Executed.taskId (h : Executed e task agent tools out) : out.1.taskId = task.id := by
  cases h with
  | unselected => rfl
  | refused => rfl
  | plain => exact conclude_taskId ..
  | tooled => exact conclude_taskId ..

/-- A task whose tool loop saw the deadline pass did not complete. -/
theorem Executed.inTime (h : Executed e task agent tools out)
    (hcompleted : out.1.status = .completed) : .timedOut ∉ out.2 := by
  cases h with
  | unselected => cases hcompleted
  | refused => cases hcompleted
  | plain | tooled => exact answer_inTime hcompleted

end Executed

/-- Whether a deadline was seen to pass. -/
def sawDeadline (tr : Trace) : Bool :=
  tr.any fun
    | .timedOut => true
    | _ => false

theorem sawDeadline_iff : sawDeadline tr = true ↔ .timedOut ∈ tr := by
  simp only [sawDeadline, List.any_eq_true]
  constructor
  · rintro ⟨e, he, h⟩
    cases e with
    | timedOut => exact he
    | _ => cases h
  · exact fun h => ⟨_, h, rfl⟩

/-- What the runner sees of a crew whose tasks are answered by `e`. -/
def taskEnv (e : Engine) (registry : Option (String → Option Tool)) (redacted : String → String)
    (agentOf : Task → Option Agent) (cancelled deadline : Nat → Bool) : CrewRunner.Env where
  cancelled
  deadline
  outcome t := (executeTask (some e) registry redacted t (agentOf t) []).1
  timesOut t := sawDeadline (executeTask (some e) registry redacted t (agentOf t) []).2
  outcome_taskId t := (executeTask_executed e registry redacted t (agentOf t)).taskId
  timesOut_failed t h hcompleted :=
    (executeTask_executed e registry redacted t (agentOf t)).inTime hcompleted (sawDeadline_iff.1 h)

end Agnosai.Answer
