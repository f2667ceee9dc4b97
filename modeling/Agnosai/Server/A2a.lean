import Agnosai.Core.JsonLib
import Agnosai.Orchestrator.Registry.Definitions
import Agnosai.Server.Router
import Agnosai.Server.Ssrf.Definitions

/-!
# Server — A2A delegation

`POST /api/v1/a2a/receive` (`server/routes/a2a.cyr`): the request is read and checked, a crew of
one task is made of it and run, and the answer says what came of it; the same answer goes to the
callback (`server/serve.cyr`). What the route sees of the run is whether there is a state. A run
that failed, timed out or was cancelled leaves one too, so the route answers `completed` for all of
them.
-/

namespace Agnosai.A2a

open CrewRunner Router

/-! ### The request -/

/-- `AGNOSAI_A2A_MAX_STRING_LEN`. -/
def maxStringLen : Nat := 10000

/-- `AGNOSAI_A2A_MAX_METADATA_BYTES`. -/
def maxMetadataBytes : Nat := 65536

/-- `A2ARequest`. -/
structure A2aRequest where
  taskId : String
  description : String
  domain : Option String := none
  size : Option String := none
  preset : Option String := none
  callbackUrl : Option String := none
  metadata : Option Json := none

/-- `_agnosai_a2a_fields`. -/
def a2aFields : List String :=
  ["task_id", "description", "domain", "size", "preset", "callback_url", "metadata"]

variable (lib : JsonLib Bytes)

/-- `_agnosai_a2a_opt_str_a`: nothing when the field is there and is not a string. -/
def optStr (fields : List (String × Json)) (key : String) : Option (Option String) :=
  match lib.objGet fields key with
  | none | some .null => some none
  | some (.str s) => some (some s)
  | some _ => none

/-- A string field that must be there. -/
def reqStr (fields : List (String × Json)) (key : String) : Option String :=
  match lib.objGet fields key with
  | some (.str s) => some s
  | _ => none

/-- `agnosai_a2a_req_from_value_a`. -/
def fromValue : Json → Option A2aRequest
  | .obj fields =>
    if fields.all fun f => f.1 ∈ a2aFields then do
      let taskId ← reqStr lib fields "task_id"
      let description ← reqStr lib fields "description"
      let domain ← optStr lib fields "domain"
      let size ← optStr lib fields "size"
      let preset ← optStr lib fields "preset"
      let callbackUrl ← optStr lib fields "callback_url"
      let metadata := lib.objGet fields "metadata"
      return { taskId, description, domain, size, preset, callbackUrl, metadata }
    else none
  | _ => none

/-! ### The answer -/

/-- The `A2AResponse` every arm has. -/
def a2aResponse (code : Nat) (taskId status : String) (result error : Json) : Response where
  status := code
  body := .json (.obj [("task_id", .str taskId), ("status", .str status), ("result", result),
    ("error", error)])

/-- `_agnosai_a2a_failed_a`. -/
def failed (code : Nat) (taskId message : String) : Response :=
  a2aResponse code taskId "failed" .null (.str message)

/-- The request of a body that is not refused, or the refusal. -/
def accept (body : Bytes) : Except Response A2aRequest :=
  match lib.parseBuf body with
  | .error _ => .error (routeError 400 "malformed JSON body")
  | .ok v =>
    match fromValue lib v with
    | none => .error (routeError 422 "body is not a valid A2A request")
    | some req =>
      if req.taskId.utf8ByteSize > maxStringLen ∨ req.description.utf8ByteSize > maxStringLen then
        .error (failed 400 req.taskId "field exceeds max length")
      else if req.metadata.any fun md => (lib.build md).length > maxMetadataBytes then
        .error (failed 400 req.taskId "metadata exceeds 64 KiB limit")
      else .ok req

/-- The task of a request, under a minted id. -/
def taskOf (req : A2aRequest) (taskId : String) : Task :=
  { id := taskId, description := req.description }

/-- The crew of a request: one task, no agents, and sequential as `agnosai_crew_new` has it. -/
def crewOf (req : A2aRequest) (crewId taskId : String) : CrewSpec where
  id := crewId
  name := "a2a-" ++ req.domain.getD "general" ++ "-" ++ req.taskId
  agents := []
  tasks := [taskOf req taskId]
  process := .sequential

/-- `agnosai_orchestrator_run_crew_err`: the state of a run, or why there is none. -/
def runCrew (env : Env) (spec : CrewSpec) : Except CrewError CrewState :=
  Orchestrator.finalResult spec (crewRun env spec).1 (crewRun env spec).2.timedOut

/-- `agnosai_error_message`, for the errors a run has. -/
def errorMessage : CrewError → String
  | .cyclicDag => "task DAG contains a cycle"
  | .scheduling detail => "scheduling error: " ++ detail
  | .crewNotFound detail => "crew not found: " ++ detail
  | .other detail => detail

/-- One result as the answer has it. -/
def resultJson (r : TaskResult) : Json :=
  .obj [("task_id", .str r.taskId), ("output", .str r.output)]

/-- What is answered when the run is over. A state is answered with `completed`, whatever its
status. -/
def answer (req : A2aRequest) : Except CrewError CrewState → Response
  | .error e => failed 500 req.taskId (errorMessage e)
  | .ok st =>
    a2aResponse 200 req.taskId "completed" (.obj [("tasks", .arr (st.results.map resultJson))])
      .null

/-- `agnosai_route_a2a_receive_tp_a`, with the ids minted for the crew and its task. -/
def receive (env : Env) (crewId taskId : String) (body : Bytes) : Response :=
  match accept lib body with
  | .error refusal => refusal
  | .ok req => answer req (runCrew env (crewOf req crewId taskId))

/-! ### The callback -/

/-- `agnosai_serve_callback_url`. -/
def callbackUrl (client : Ssrf.Client) (body : Bytes) : Option Bytes :=
  (((lib.parseBuf body).toOption.bind (fromValue lib)).bind A2aRequest.callbackUrl).bind fun url =>
    let bytes := url.toByteArray.toList
    if Ssrf.isSafeUrl client bytes then some bytes else none

/-- `agnosai_serve_dispatch_callback`, after an answer of 200: where it is posted, and what. -/
def dispatchCallback (client : Ssrf.Client) (body : Bytes) (response : Response) :
    Option (Bytes × Body) :=
  if response.status = 200 then (callbackUrl lib client body).map fun url => (url, response.body)
  else none

/-! ### What an answer says -/

/-- The `status` of an answer. -/
def bodyStatus : Body → Option String
  | .json (.obj fields) =>
    match fields.lookup "status" with
    | some (.str s) => some s
    | _ => none
  | _ => none

/-- **An answer that says what became of the crew.** It is `completed` only for a crew whose final
status is; a crew that ended in any other way, or not at all, is answered as failed; and the
callback gets the same. -/
structure Truthful (lib : JsonLib Bytes) (client : Ssrf.Client) (env : Env) (crewId taskId : String)
    (body : Bytes) : Prop where
  completed : bodyStatus (receive lib env crewId taskId body).body = some "completed" →
    ∃ req st, accept lib body = .ok req ∧ runCrew env (crewOf req crewId taskId) = .ok st ∧
      st.status = .completed
  failed : ∀ req, accept lib body = .ok req →
    (∀ st, runCrew env (crewOf req crewId taskId) = .ok st → st.status ≠ .completed) →
    bodyStatus (receive lib env crewId taskId body).body = some "failed"
  posted : ∀ url payload,
    dispatchCallback lib client body (receive lib env crewId taskId body) = some (url, payload) →
    bodyStatus payload = bodyStatus (receive lib env crewId taskId body).body

/-- A crew of the one task completes: nothing stops it before the task, the task completes, and no
cancel comes before the status is computed. -/
structure Completes (env : Env) (t : Task) : Prop where
  notCancelled : env.cancelled 0 = false
  inTime : env.deadline 0 = false
  done : (env.outcome t).status = .completed
  notCancelledAfter : env.cancelled 1 = false

/-! ### The crew of one task -/

section OneTask

variable {env : Env} {spec : CrewSpec} {t : Task}

/-- The run over the one task, by what the runner sees before it. -/
theorem runSequential_one :
    runSequential env [t] {} =
      if env.cancelled 0 then ([], { polls := 1 })
      else if env.deadline 0 then ([], { polls := 1, timedOut := true })
      else ([env.outcome t],
        { polls := 1, timedOut := env.timesOut t,
          trace := [.dispatch t, .execute t, .result (env.outcome t)] }) := by
  unfold runSequential Run.halt
  split_ifs <;> rfl

/-- A sequential crew returns a state, which is that of its results. -/
theorem runCrew_sequential (hprocess : spec.process = .sequential) :
    runCrew env spec =
      .ok (finalState env spec (runSequential env spec.tasks {}).1
        (runSequential env spec.tasks {}).2) := by
  have htasks : runTasks env spec {} =
      (.ok (runSequential env spec.tasks {}).1, (runSequential env spec.tasks {}).2) := by
    rw [runTasks, hprocess]
  rw [runCrew, crewRun_ok htasks]
  show Except.ok (if (runSequential env spec.tasks {}).2.timedOut = true then _ else _) = _
  split
  next htimed => rw [finalState, finalStatus, if_pos htimed, if_pos htimed]
  next => rfl

/-- When a run is reported complete. -/
theorem finalStatus_completed_iff {rs : List TaskResult} {s : Run} :
    finalStatus env spec rs s = .completed ↔
      s.timedOut = false ∧ env.cancelled s.polls = false ∧ (∀ r ∈ rs, r.status = .completed) ∧
        spec.tasks.length ≤ rs.length := by
  unfold finalStatus
  split_ifs with htimed hcancel hleft
  · simp [htimed]
  · simp [hcancel]
  · refine iff_of_false (fun h => h) ?_
    rintro ⟨-, -, hall, hlen⟩
    rcases hleft with ⟨r, hr, hne⟩ | hlt
    · exact hne (hall r hr)
    · exact not_lt.2 hlen hlt
  · rw [not_or, not_lt] at hleft
    have hall : ∀ r ∈ rs, r.status = .completed := fun r hr =>
      Decidable.byContradiction fun hne => hleft.1 ⟨r, hr, hne⟩
    exact iff_of_true rfl
      ⟨Bool.eq_false_iff.2 htimed, Bool.eq_false_iff.2 hcancel, hall, hleft.2⟩

/-- **When the crew completes.** -/
theorem status_completed_iff (htasks : spec.tasks = [t]) :
    (finalState env spec (runSequential env spec.tasks {}).1
      (runSequential env spec.tasks {}).2).status = .completed ↔ Completes env t := by
  show finalStatus env spec _ _ = _ ↔ _
  rw [finalStatus_completed_iff, htasks, runSequential_one]
  by_cases hcancel : env.cancelled 0 = true
  · rw [if_pos hcancel]
    refine iff_of_false (fun h => Nat.not_succ_le_zero 0 h.2.2.2) fun h => ?_
    rw [h.notCancelled] at hcancel
    cases hcancel
  by_cases hdeadline : env.deadline 0 = true
  · rw [if_neg hcancel, if_pos hdeadline]
    refine iff_of_false (fun h => Bool.noConfusion h.1) fun h => ?_
    rw [h.inTime] at hdeadline
    cases hdeadline
  rw [if_neg hcancel, if_neg hdeadline]
  constructor
  · rintro ⟨-, hafter, hall, -⟩
    exact ⟨Bool.eq_false_iff.2 hcancel, Bool.eq_false_iff.2 hdeadline,
      hall _ (List.mem_singleton_self _), hafter⟩
  · intro h
    -- A task whose tool loop saw the deadline does not complete.
    have htimes : env.timesOut t = false :=
      Bool.eq_false_iff.2 fun htimes => env.timesOut_failed t htimes h.done
    exact ⟨htimes, h.notCancelledAfter, fun r hr => List.mem_singleton.1 hr ▸ h.done, le_rfl⟩

end OneTask

/-! ### The answer and the crew -/

section Answer

variable {lib : JsonLib Bytes} {client : Ssrf.Client} {env : Env} {crewId taskId : String}
  {body : Bytes}
  {req : A2aRequest}

theorem bodyStatus_failed (code : Nat) (tid message : String) :
    bodyStatus (failed code tid message).body = some "failed" := rfl

theorem bodyStatus_refusal {refusal : Response} (h : accept lib body = .error refusal) :
    bodyStatus refusal.body ≠ some "completed" := by
  unfold accept at h
  split at h
  next => cases h; exact (Option.some_ne_none _).symm
  next =>
    split at h
    next => cases h; exact (Option.some_ne_none _).symm
    next =>
      split at h
      next => cases h; rw [bodyStatus_failed]; decide
      next =>
        split at h
        next => cases h; rw [bodyStatus_failed]; decide
        next => cases h

/-- The state of the crew a request starts, and when it is completed. -/
theorem runCrew_crewOf (env : Env) (req : A2aRequest) (crewId taskId : String) :
    ∃ st, runCrew env (crewOf req crewId taskId) = .ok st ∧
      (st.status = .completed ↔ Completes env (taskOf req taskId)) :=
  ⟨_, runCrew_sequential rfl, status_completed_iff rfl⟩

theorem bodyStatus_receive (hreq : accept lib body = .ok req) :
    bodyStatus (receive lib env crewId taskId body).body = some "completed" := by
  obtain ⟨st, hst, -⟩ := runCrew_crewOf env req crewId taskId
  rw [receive, hreq]
  dsimp only
  rfl

/-- **What a delegation is answered.** For every body and whatever becomes of the crew: the answer,
and the callback with it, says so exactly when the request is refused or the crew completes. -/
theorem truthful_iff :
    Truthful lib client env crewId taskId body ↔
      ∀ req, accept lib body = .ok req → Completes env (taskOf req taskId) := by
  constructor
  · intro h req hreq
    obtain ⟨req', st, hreq', hst, hstatus⟩ := h.completed (bodyStatus_receive hreq)
    rw [hreq] at hreq'
    cases hreq'
    obtain ⟨st', hst', hiff⟩ := runCrew_crewOf env req crewId taskId
    rw [hst] at hst'
    cases hst'
    exact hiff.1 hstatus
  · intro h
    refine ⟨fun hstatus => ?_, fun req hreq hno => ?_, fun url payload hposted => ?_⟩
    · cases hreq : accept lib body with
      | error =>
        rw [receive, hreq] at hstatus
        exact absurd hstatus (bodyStatus_refusal hreq)
      | ok req =>
        obtain ⟨st, hst, hiff⟩ := runCrew_crewOf env req crewId taskId
        exact ⟨req, st, rfl, hst, hiff.2 (h req hreq)⟩
    · obtain ⟨st, hst, hiff⟩ := runCrew_crewOf env req crewId taskId
      exact absurd (hiff.2 (h req hreq)) (hno st hst)
    · unfold dispatchCallback at hposted
      split at hposted
      next =>
        obtain ⟨url', -, hpair⟩ := Option.map_eq_some_iff.1 hposted
        cases hpair
        rfl
      next => cases hposted

end Answer

/-- The delegation of task `t`, with a callback. -/
def delegation : Json :=
  .obj [("task_id", .str "t"), ("description", .str "d"),
    ("callback_url", .str "http://example.com/")]

def sampleLib : JsonLib Bytes := .reading ascii [delegation]

def sampleBody : Bytes := ascii delegation.text

/-- What the route makes of it. -/
def sampleRequest : A2aRequest :=
  { taskId := "t", description := "d", callbackUrl := some "http://example.com/" }

theorem parseBuf_sampleBody : sampleLib.parseBuf sampleBody = .ok delegation := by
  rw [sampleLib, sampleBody, JsonLib.parseBuf_reading_cons]

theorem accept_sampleBody : accept sampleLib sampleBody = .ok sampleRequest := by
  rw [accept, parseBuf_sampleBody]
  rfl

/-- A client that reads every URL as one of `example.com`. -/
def sampleClient : Ssrf.Client where
  urlHost := fun _ => some (ascii "example.com")
  netParseIpv4 := fun _ => none

/-- Tasks that end with `status`, in a run that nothing stops. -/
def sampleEnv (status : TaskStatus) : Env where
  cancelled := fun _ => false
  deadline := fun _ => false
  outcome := fun t => { taskId := t.id, output := "", status }
  timesOut := fun _ => false
  outcome_taskId := fun _ => rfl
  timesOut_failed := nofun

/-- A crew that completes is answered as completed. -/
theorem truthful_completed :
    Truthful sampleLib sampleClient (sampleEnv .completed) "c" "1" sampleBody ∧
      bodyStatus (receive sampleLib (sampleEnv .completed) "c" "1" sampleBody).body =
        some "completed" :=
  ⟨truthful_iff.2 fun _ _ => ⟨rfl, rfl, rfl, rfl⟩, bodyStatus_receive accept_sampleBody⟩

/-- A crew whose task failed has failed, and is answered and called back as completed. -/
theorem failed_answered_completed :
    (∃ req st, accept sampleLib sampleBody = .ok req ∧
      runCrew (sampleEnv .failed) (crewOf req "c" "1") = .ok st ∧ st.status = .failed) ∧
    bodyStatus (receive sampleLib (sampleEnv .failed) "c" "1" sampleBody).body = some "completed" ∧
    (∃ url payload, dispatchCallback sampleLib sampleClient sampleBody
      (receive sampleLib (sampleEnv .failed) "c" "1" sampleBody) = some (url, payload) ∧
        bodyStatus payload = some "completed") ∧
    ¬ Truthful sampleLib sampleClient (sampleEnv .failed) "c" "1" sampleBody := by
  have hanswer : bodyStatus (receive sampleLib (sampleEnv .failed) "c" "1" sampleBody).body =
      some "completed" := bodyStatus_receive accept_sampleBody
  have hurl : ∃ url, callbackUrl sampleLib sampleClient sampleBody = some url := by
    rw [callbackUrl, parseBuf_sampleBody]
    exact Option.isSome_iff_exists.1 (by decide +kernel)
  obtain ⟨url, hurl⟩ := hurl
  refine ⟨⟨_, _, accept_sampleBody, rfl, rfl⟩, hanswer, ⟨url, _, ?_, hanswer⟩, fun h => ?_⟩
  · have hstatus : (receive sampleLib (sampleEnv .failed) "c" "1" sampleBody).status = 200 := by
      rw [receive, accept_sampleBody]
      rfl
    rw [dispatchCallback, if_pos hstatus, hurl]
    rfl
  · obtain ⟨req, st, hreq, hst, hstatus⟩ := h.completed hanswer
    cases accept_sampleBody.symm.trans hreq
    cases hst
    cases hstatus

end Agnosai.A2a
