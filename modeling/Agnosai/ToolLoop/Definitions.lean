import Mathlib.Algebra.Order.Ring.Int
import Mathlib.Data.List.Nodup
import Mathlib.Data.List.Perm.Subperm
import Agnosai.Core.Crew
import Agnosai.Llm.Hoosh

/-!
# ToolLoop — Definitions

The tool loop of `tool_loop.cyr`: a task's conversation with its tools, and one turn of it. What
the engine does not decide is a `World`: what the gateway answers, whether the crew was cancelled
or its deadline has passed, what gates, the journal and the tools answer, and in which order the
calls of a turn, which run on threads, get to run. Each answer may depend on all that has
happened, so a world is a function of the trace.

The trace records what the engine did, in order. Spans, audit entries and log lines are left out.
-/

namespace Agnosai.ToolLoop

open Llm List

/-! ### Tools and calls -/

/-- A gate: which callbacks it has. -/
structure Gate where
  addr : Nat
  batch : Bool
  call : Bool
  deriving Repr, DecidableEq

structure Tool where
  addr : Nat
  name : String
  deriving Repr, DecidableEq

structure ToolOutput where
  success : Bool
  result : Json
  error : Option String := none
  effect : ToolEffect := .unknown

/-- One call of one turn, `AGN_TC_*`. -/
structure Call where
  id : String
  name : String
  arguments : String
  tool : Option Tool := none
  input : Option Json := none
  output : Option ToolOutput := none
  refused : Bool := false
  /-- The name a model asked for that the agent does not hold. -/
  asked : Option String := none

/-- `agnosai_tool_call_effect`. -/
def Call.effect (c : Call) : ToolEffect :=
  match c.output with
  | none => .unknown
  | some out => out.effect

/-- `agnosai_tool_output_refused`. -/
def outputRefused (text : String) : ToolOutput :=
  { success := false, result := .null, error := some text, effect := .none }

/-- `_agnosai_tool_call_refuse_a`: the call will not run. -/
def Call.refuse (c : Call) (reason : String) : Call :=
  { c with output := some (outputRefused reason), refused := true }

/-! ### The trace and the world -/

/-- What the engine did. -/
inductive Event where
  /-- A chat request was sent. -/
  | chat (request : Request)
  | answered (response : Response)
  | failed (err : String)
  /-- The calls of a turn were put in the transcript. -/
  | echo (turn : Nat) (calls : List Call)
  /-- A gate was asked about the turn's calls. -/
  | batch (turn : Nat) (gate : Gate) (refusal : Option String)
  /-- The intent of a call was journalled. -/
  | intent (turn : Nat) (call : Call) (refusal : Option String)
  /-- The tool's execute function was invoked for a call. -/
  | execute (turn : Nat) (call : Call)
  /-- The result of a call was journalled. -/
  | result (turn : Nat) (call : Call)
  /-- The turn is over, and left these messages. -/
  | turned (turn : Nat) (messages : List Message)
  /-- The deadline was seen to have passed. -/
  | timedOut

/-- What has happened. -/
abbrev Trace := List Event

/-- Why a task must stop. -/
inductive Halt where
  | cancelled
  | deadline
  deriving Repr, DecidableEq

/-- What the engine does not decide. -/
structure World where
  chat : Trace → Request → Except String Response
  halt : Trace → Option Halt
  /-- The gate a tool is held to. -/
  gate : Trace → Tool → Option Gate
  /-- A gate's answer about a set of calls: a refusal, or nothing. -/
  batch : Trace → Gate → List Call → Option String
  /-- A gate's answer about one call, when it is about to run. -/
  gateCall : Trace → Gate → Call → Option String
  /-- The journal, if there is one: its answer to an intent. Its answer to a result is ignored. -/
  journal : Option (Trace → Call → Option String)
  execute : Trace → Call → Option ToolOutput
  /-- What a gate would have the model read instead of a result. -/
  heldBack : Trace → Call → Option String → Option String
  /-- The order in which the calls of a turn get to run. -/
  order : Trace → List Call → List Call
  order_perm : ∀ tr calls, (order tr calls).Perm calls

/-- The limits of `agnosai_tool_loop_set_limits`, which refuses one of 0 or less. -/
structure Limits where
  maxSteps : Nat := 16
  maxCalls : Nat := 8
  resultBytes : Nat := 32768
  transcriptBytes : Nat := 262144
  maxSteps_pos : 0 < maxSteps := by decide
  maxCalls_pos : 0 < maxCalls := by decide

/-- `_AGNOSAI_TOOL_MESSAGES_CEILING`. -/
def messagesCeiling : Int64 := 240

/-- `_AGNOSAI_TOOL_TRANSCRIPT_CEILING`. -/
def transcriptCeiling : Int64 := 409600

theorem toNat_pos {n : Int64} (h : 0 < n) : 0 < n.toInt.toNat :=
  Int.lt_toNat.2 (Int64.lt_iff_toInt_lt.1 h)

/-- `agnosai_tool_loop_set_limits`: the limits, or nothing when they are refused. The product is
that of the machine, and wraps around. -/
def setLimits (maxSteps maxCalls resultBytes transcriptBytes : Int64) : Option Limits :=
  if h : 0 < maxSteps ∧ 0 < maxCalls ∧ 0 < resultBytes ∧ 0 < transcriptBytes then
    if messagesCeiling < maxSteps * (1 + maxCalls) then none
    else if transcriptCeiling < transcriptBytes then none
    else some
      { maxSteps := maxSteps.toInt.toNat
        maxCalls := maxCalls.toInt.toNat
        resultBytes := resultBytes.toInt.toNat
        transcriptBytes := transcriptBytes.toInt.toNat
        maxSteps_pos := toNat_pos h.1
        maxCalls_pos := toNat_pos h.2.1 }
  else none

/-- `_AGNOSAI_TOOL_RESULT_MIN_BYTES`. -/
def resultMinBytes : Int := 256

/-- The JSON library, and the text functions a turn uses. -/
structure Texts where
  parse : String → Option Json
  build : Json → String
  /-- `agnosai_output_redact`, when redaction is on. -/
  redact : Option (String → String)
  /-- `_agnosai_tool_value_copy_a`, redacting. -/
  redactValue : Json → Json
  /-- `_agnosai_tool_output_text_a` at a cap, cleaned. -/
  outputText : Option ToolOutput → Int → String
  /-- `agnosai_prompt_scan_input`: the finding, if any. -/
  scan : String → Option String
  /-- `_agnosai_tool_wrap_a`. -/
  wrap : String → Option String → String

/-- What a crew's tasks share. -/
structure Setup where
  world : World
  limits : Limits := {}
  texts : Texts

/-- `AGN_TT_*`: a task's conversation with its tools. -/
structure TaskState where
  tools : List Tool
  steps : Nat := 0
  spent : Int := 0
  records : List CallRecord := []
  dropped : Nat := 0
  stopped : Bool := false
  seen : List String := []

/-! ### Offering tools -/

/-- A byte a provider takes in a name. -/
def wireChar (c : Char) : Bool :=
  ('a' ≤ c ∧ c ≤ 'z') ∨ ('A' ≤ c ∧ c ≤ 'Z') ∨ ('0' ≤ c ∧ c ≤ '9') ∨ c = '_' ∨ c = '-'

/-- `_agnosai_tool_name_wire_ok`. -/
def nameWireOk (name : String) : Bool :=
  0 < name.utf8ByteSize ∧ name.utf8ByteSize ≤ 64 ∧ name.toList.all wireChar

/-- `_agnosai_tool_miss_a`. -/
def miss (agent : Agent) (name why : String) : String :=
  "agent " ++ agent.key ++ " names tool " ++ name ++ why

/-- The loop of `_agnosai_tool_task_new_a` over the names the agent gives. -/
def grant (registry : String → Option Tool) (agent : Agent) :
    List String → List Tool → Except String (List Tool)
  | [], tools => .ok tools
  | name :: names, tools =>
    match registry name with
    | none => .error (miss agent name ", which no registry holds")
    | some t =>
      if nameWireOk name then grant registry agent names (if t ∈ tools then tools else tools ++ [t])
      else .error (miss agent name ", which no provider would take as a name")

/-- `_agnosai_tool_task_new_a`. -/
def taskNew (registry : String → Option Tool) (agent : Agent) : Except String TaskState :=
  match grant registry agent agent.tools [] with
  | .error why => .error why
  | .ok tools => .ok { tools }

/-! ### Call ids -/

/-- The id minted for call `i` of turn `steps`, at the given attempt. -/
def mintedId (steps i attempt : Nat) : String :=
  "call_" ++ toString steps ++ "_" ++ toString i ++
    if attempt = 0 then "" else "_" ++ toString attempt

theorem toString_nat_injective {m n : Nat} (h : toString m = toString n) : m = n := by
  have hdigits : Nat.toDigits 10 m = Nat.toDigits 10 n := by
    have hrepr : m.repr = n.repr := h
    rwa [Nat.repr_eq_ofList_toDigits, Nat.repr_eq_ofList_toDigits, String.ofList_inj] at hrepr
  rw [← @Nat.ofDigitChars_toDigits 10 m (by decide) (by decide), hdigits,
    Nat.ofDigitChars_toDigits (by decide) (by decide)]

theorem mintedId_injective (steps i : Nat) : Function.Injective (mintedId steps i) := by
  intro m n h
  simp only [mintedId, String.append_right_inj] at h
  by_cases hm : m = 0
  · by_cases hn : n = 0
    · rw [hm, hn]
    · simp [hm, hn, String.ext_iff] at h
  · by_cases hn : n = 0
    · simp [hm, hn, String.ext_iff] at h
    · simp only [hm, hn, if_false, String.append_right_inj] at h
      exact toString_nat_injective h

/-- The loop of `_agnosai_tool_call_id_a`, for so many attempts. -/
def mint (seen : List String) (steps i : Nat) : Nat → Nat → Option String
  | 0, _ => none
  | fuel + 1, attempt =>
    if mintedId steps i attempt ∈ seen then mint seen steps i fuel (attempt + 1)
    else some (mintedId steps i attempt)

theorem mint_eq_none {seen : List String} {steps i fuel attempt : Nat}
    (h : mint seen steps i fuel attempt = none) :
    ∀ k < fuel, mintedId steps i (attempt + k) ∈ seen := by
  induction fuel generalizing attempt with
  | zero => exact fun k hk => absurd hk (Nat.not_lt_zero k)
  | succ fuel ih =>
    unfold mint at h
    split at h
    next hmem =>
      rintro (_ | k) hk
      · exact hmem
      · have := ih h k (Nat.lt_of_succ_lt_succ hk)
        rwa [add_right_comm, add_assoc] at this
    · cases h

/-- The attempts are all different, so one more than there are ids in use finds a free one. -/
theorem mint_isSome (seen : List String) (steps i : Nat) :
    (mint seen steps i (seen.length + 1) 0).isSome := by
  rw [Option.isSome_iff_ne_none]
  intro hnone
  have hsub : (range (seen.length + 1)).map (mintedId steps i) ⊆ seen := by
    intro id hid
    obtain ⟨k, hk, rfl⟩ := mem_map.1 hid
    simpa using mint_eq_none hnone k (mem_range.1 hk)
  have hnodup : ((range (seen.length + 1)).map (mintedId steps i)).Nodup :=
    nodup_range.map (mintedId_injective steps i)
  have hle := (hnodup.subperm hsub).length_le
  simp only [length_map, length_range] at hle
  omega

/-- The first minted id that is not in use. -/
def freshId (seen : List String) (steps i : Nat) : String :=
  (mint seen steps i (seen.length + 1) 0).get (mint_isSome seen steps i)

variable (texts : Texts)

/-- `_agnosai_tool_id_usable`. -/
def idUsable (seen : List String) (id : String) : Bool :=
  nameWireOk id && id ∉ seen && texts.redact.all fun redact => redact id = id

/-- `_agnosai_tool_call_id_a`: the model's id, if it can be kept, or a minted one. -/
def callId (st : TaskState) (asked : ChatToolCall) (i : Nat) : String :=
  match asked.id with
  | none => freshId st.seen st.steps i
  | some id => if idUsable texts st.seen id then id else freshId st.seen st.steps i

/-! ### The passes of a turn -/

/-- The arguments of a call, as JSON: no text is an empty object. -/
def readArguments (raw : String) : Option Json :=
  if raw.utf8ByteSize = 0 then some (.obj []) else texts.parse raw

/-- `_agnosai_tool_granted`. -/
def granted (tools : List Tool) (name : String) : Option Tool := tools.find? fun t => t.name = name

/-- The arguments of a call when they are an object. -/
def objectArguments (raw : String) : Option Json :=
  (readArguments texts raw).filter Json.isObj

/-- `_agnosai_tool_call_prepare_a`: the call, with the id it got. -/
def prepare (st : TaskState) (asked : ChatToolCall) (i : Nat) : Call :=
  let value := objectArguments texts asked.arguments
  let id := callId texts st asked i
  -- what goes back is rebuilt and never echoed
  let arguments := value.elim "\x7b\x7d" texts.build
  match granted st.tools asked.name, value with
  | none, _ =>
    { id, name := "unknown_tool", arguments
      asked := if nameWireOk asked.name then some asked.name else none : Call }.refuse
      "tool call refused: this agent has no such tool"
  | some t, none =>
    { id, name := asked.name, arguments, tool := some t : Call }.refuse
      "tool call refused: its arguments are not a JSON object"
  | some t, some v => { id, name := asked.name, arguments, tool := some t, input := some v }

/-- The preparing loop of `_agnosai_tool_turn_a`, from call `i` on. -/
def prepareAll (texts : Texts) : TaskState → Nat → List ChatToolCall → List Call × TaskState
  | st, _, [] => ([], st)
  | st, i, asked :: rest =>
    let c := prepare texts st asked i
    let (cs, st') := prepareAll texts { st with seen := st.seen ++ [c.id] } (i + 1) rest
    (c :: cs, st')

/-- What goes back in the transcript for a call. -/
def Call.echo (c : Call) : ChatToolCall :=
  { id := some c.id, name := c.name, arguments := c.arguments }

/-- The asking loop of `_agnosai_tool_turn_approve`: the first refusal, if any. -/
def askGates (w : World) (turn : Nat) (set : List Call) :
    List Call → List Gate → Trace → Option String × Trace
  | [], _, tr => (none, tr)
  | c :: rest, asked, tr =>
    match c.tool.bind (w.gate tr) with
    | none => askGates w turn set rest asked tr
    | some g =>
      if g.batch ∧ g ∉ asked then
        match w.batch tr g set with
        | some reason => (some reason, tr ++ [.batch turn g (some reason)])
        | none => askGates w turn set rest (asked ++ [g]) (tr ++ [.batch turn g none])
      else askGates w turn set rest asked tr

/-- The calls that nothing has stopped. -/
def live (calls : List Call) : List Call := calls.filter fun c => !c.refused

variable (w : World)

/-- `_agnosai_tool_turn_approve`: a refusal stops every call that nothing else has stopped. -/
def approve (turn : Nat) (calls : List Call) (tr : Trace) : List Call × Trace :=
  match askGates w turn (live calls) (live calls) [] tr with
  | (none, tr) => (calls, tr)
  | (some reason, tr) =>
    (calls.map fun c => if c.refused then c else c.refuse ("tool call refused: " ++ reason), tr)

/-- `_agnosai_tool_turn_journal_intents`. -/
def journalIntents (w : World) (turn : Nat) : List Call → Trace → List Call × Trace
  | [], tr => ([], tr)
  | c :: rest, tr =>
    match w.journal with
    | none => (c :: rest, tr)
    | some journal =>
      if c.refused then
        let (cs, tr') := journalIntents w turn rest tr
        (c :: cs, tr')
      else
        let answer := journal tr c
        let (cs, tr') := journalIntents w turn rest (tr ++ [.intent turn c answer])
        (answer.elim c (fun reason =>
          c.refuse ("tool call refused: not journaled: " ++ reason)) :: cs, tr')

/-- A successful output's effect is committed. -/
def ToolOutput.commit (out : ToolOutput) : ToolOutput :=
  if out.success then { out with effect := .committed } else out

/-- `agnosai_tool_execute_for`: the tool's gate is asked, and then the tool is run. -/
def executeFor (turn : Nat) (c : Call) (tr : Trace) : Option ToolOutput × Trace :=
  let refusal := (c.tool.bind (w.gate tr)).bind fun g =>
    if c.input.isNone then some "no input to judge"
    else if g.call then w.gateCall tr g c
    else none
  match refusal with
  | some reason => (some (outputRefused ("tool call refused: " ++ reason)), tr)
  | none => ((w.execute tr c).map ToolOutput.commit, tr ++ [.execute turn c])

/-- Give the call of this id its output. -/
def setOutput (id : String) (out : Option ToolOutput) (calls : List Call) : List Call :=
  calls.map fun c => if c.id = id then { c with output := out } else c

/-- Run these calls, one after the other. -/
def runOrder (w : World) (turn : Nat) : List Call → List Call → Trace → List Call × Trace
  | [], calls, tr => (calls, tr)
  | c :: rest, calls, tr =>
    let (out, tr') := executeFor w turn c tr
    runOrder w turn rest (setOutput c.id out calls) tr'

/-- `_agnosai_tool_turn_run`: run what is left, in the order the threads get to it. -/
def runCalls (turn : Nat) (calls : List Call) (tr : Trace) : List Call × Trace :=
  runOrder w turn (w.order tr (live calls)) calls tr

/-- From the prepared calls to their outputs: approve, journal, run. -/
def settle (turn : Nat) (calls : List Call) (tr : Trace) : List Call × Trace :=
  let (calls, tr) := approve w turn calls tr
  let (calls, tr) := journalIntents w turn calls tr
  runCalls w turn calls tr

/-! ### A turn -/

/-- A task's conversation: its tools' state, the request so far, and what has happened. -/
structure Conv where
  st : TaskState
  request : Request
  trace : Trace

/-- The share of the transcript budget that each of `n` results gets. -/
def share (limits : Limits) (spent : Int) (n : Nat) : Int :=
  min (((limits.transcriptBytes : Int) - spent).tdiv n) limits.resultBytes

variable (s : Setup)

/-- What the model reads of a call's result, the finding in it, and whether a gate held it back. -/
def readResult (share : Int) (c : Call) (tr : Trace) : String × Option String × Bool :=
  if share < resultMinBytes then
    ("result withheld: this task has read all it may of its tools' results", none, false)
  else
    let text := s.texts.outputText c.output share
    if c.effect = .none then (text, none, false)
    else
      let finding := s.texts.scan text
      match s.world.heldBack tr c finding with
      | none => (text, finding, false)
      | some held => (held, finding, true)

/-- `_agnosai_tool_call_record_a`. -/
def callRecord (c : Call) (finding : Option String) (held : Bool) : CallRecord where
  tool := c.name
  effect := c.effect
  success := c.output.any ToolOutput.success
  id := c.id
  arguments := (texts.parse c.arguments).map (if texts.redact.isSome then texts.redactValue else id)
  askedFor := c.asked.map (texts.redact.getD id)
  flagged := finding
  heldBack := held

/-- The journal is told that a call is over. -/
def journalResult (turn : Nat) (c : Call) (tr : Trace) : Trace :=
  if w.journal.isSome then tr ++ [.result turn c] else tr

/-- One round of the loop of `_agnosai_tool_turn_deliver`. -/
def deliverOne (turn : Nat) (share : Int) (k : Conv) (c : Call) : Conv :=
  let tr := journalResult s.world turn c k.trace
  let (text, finding, held) := readResult s share c tr
  let wrapped := s.texts.wrap text finding
  { st :=
      { k.st with
        spent := k.st.spent + wrapped.utf8ByteSize
        records := k.st.records ++ [callRecord s.texts c finding held] }
    request := k.request.sayToolResult c.id wrapped
    trace := tr }

/-- `_agnosai_tool_turn_deliver`. -/
def deliver (turn : Nat) (calls : List Call) (k : Conv) : Conv :=
  calls.foldl (deliverOne s turn (share s.limits k.st.spent calls.length)) k

/-- The note for calls past the limit of a turn. -/
def noteDropped (kept total : Nat) (k : Conv) : Conv :=
  if kept < total then
    { k with
      st := { k.st with dropped := k.st.dropped + (total - kept) }
      request := k.request.say .user ("Only the first " ++ toString kept ++ " of your " ++
        toString total ++
        " tool calls ran. The rest were dropped: call them again if you still need them.") }
  else k

/-- `_agnosai_tool_task_halt`: why the task must stop, if it must. -/
def taskHalt (tr : Trace) : Option String × Trace :=
  match w.halt tr with
  | none => (none, tr)
  | some .cancelled => (some "crew cancelled", tr)
  | some .deadline => (some "crew deadline passed", tr ++ [.timedOut])

/-- `_agnosai_tool_task_stop`. -/
def Conv.stop (k : Conv) (tr : Trace) : Conv :=
  { k with st := { k.st with stopped := true }, trace := tr }

/-- `_agnosai_tool_steps_spent_a`. -/
def stepsSpent (limits : Limits) : String :=
  "tool loop stopped: no final answer after " ++ toString limits.maxSteps ++ " turns of tool calls"

/-- How much of the budget the model's own words take. -/
def said (content : String) (calls : List Call) : Int :=
  content.utf8ByteSize + (calls.map fun c => (c.arguments.utf8ByteSize : Int)).sum

/-- The first part of a turn: the calls are prepared and put in the transcript. -/
def openTurn (k : Conv) (resp : Response) : List Call × Conv :=
  let n := k.st.steps + 1
  let (calls, st) :=
    prepareAll s.texts { k.st with steps := n } 0 (resp.toolCalls.take s.limits.maxCalls)
  (calls,
    { st := { st with spent := st.spent + said resp.content calls }
      request := k.request.sayToolCalls resp.content (calls.map Call.echo)
      trace := k.trace ++ [.echo n calls] })

/-- The last part of a turn: the results are delivered. -/
def closeTurn (n : Nat) (resp : Response) (settled : List Call) (k : Conv) : Conv :=
  let total := resp.toolCalls.length
  let k := noteDropped (min total s.limits.maxCalls) total (deliver s n settled k)
  { k with trace := k.trace ++ [.turned n k.request.messages] }

/-- `_agnosai_tool_turn_a`, between its checks. -/
def turnBody (k : Conv) (resp : Response) : Conv :=
  let n := k.st.steps + 1
  let (calls, k) := openTurn s k resp
  let (settled, tr) := settle s.world n calls k.trace
  closeTurn s n resp settled { k with trace := tr }

/-- `_agnosai_tool_turn_a`: why the task must end, or nothing to send the request. -/
def turn (k : Conv) (resp : Response) : Option String × Conv :=
  match taskHalt s.world k.trace with
  | (some why, tr) => (some why, k.stop tr)
  | (none, tr) =>
    if s.limits.maxSteps ≤ k.st.steps then (some (stepsSpent s.limits), k.stop tr)
    else
      let k' := turnBody s { k with trace := tr } resp
      match taskHalt s.world k'.trace with
      | (some why, tr') => (some why, k'.stop tr')
      | (none, tr') => (none, { k' with trace := tr' })

end Agnosai.ToolLoop
