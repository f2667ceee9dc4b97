import Mathlib.Data.List.Basic
import Mathlib.Logic.Function.Iterate

/-!
# Llm — Hoosh

Chat requests and responses, after `llm/hoosh.cyr`. A response's token counts are 64-bit, and so is
its cost, with `AGNOSAI_NO_LIMIT` for a response that reports none.

`carryUsage` adds what an earlier call cost to a response; `Llm.Usage` says what that comes to over
a list of them.
-/

namespace Agnosai.Llm

/-- `AGNOSAI_NO_LIMIT`, the cost of a response that reports none. -/
def noLimit : Int64 := -1

/-- `AGNOSAI_ROLE_*`. -/
inductive Role where
  | system
  | user
  | assistant
  | tool
  deriving Repr, DecidableEq

/-- A tool call as a model asks for it: the id may be missing, and the arguments are text. -/
structure ChatToolCall where
  id : Option String
  name : String
  arguments : String
  deriving Repr, DecidableEq

structure Message where
  role : Role
  content : String
  /-- The calls an assistant message carries. -/
  toolCalls : List ChatToolCall := []
  /-- The call a tool message answers. -/
  toolCallId : Option String := none
  deriving Repr, DecidableEq

structure Request where
  model : String
  messages : List Message := []
  temperatureMilli : Int64 := noLimit
  maxTokens : Int64 := noLimit
  deriving Repr, DecidableEq

namespace Request

/-- `agnosai_inference_request_say`. -/
def say (r : Request) (role : Role) (content : String) : Request :=
  { r with messages := r.messages ++ [{ role, content }] }

/-- `agnosai_inference_request_say_tool_calls`. -/
def sayToolCalls (r : Request) (content : String) (calls : List ChatToolCall) : Request :=
  { r with messages := r.messages ++ [{ role := .assistant, content, toolCalls := calls }] }

/-- `agnosai_inference_request_say_tool_result`. -/
def sayToolResult (r : Request) (callId content : String) : Request :=
  { r with messages := r.messages ++ [{ role := .tool, content, toolCallId := some callId }] }

end Request

/-- An inference response. Its tool calls are a vector with something in it, or `0`: the empty list
is the latter. -/
structure Response where
  content : String
  model : String
  promptTokens : Int64 := 0
  completionTokens : Int64 := 0
  costMicroUsd : Int64 := noLimit
  provider : Option String := none
  toolCalls : List ChatToolCall := []
  deriving Repr, DecidableEq

namespace Response

/-- `agnosai_inference_response_total_tokens`. -/
def totalTokens (r : Response) : Int64 := r.promptTokens + r.completionTokens

/-- The cost after carrying that of an earlier call. -/
def carryCost (cost earlier : Int64) : Int64 :=
  if earlier = noLimit then cost
  else (if cost = noLimit then 0 else cost) + earlier

/-- `agnosai_inference_response_carry_usage`. -/
def carryUsage (r prior : Response) : Response :=
  { r with
    promptTokens := r.promptTokens + prior.promptTokens
    completionTokens := r.completionTokens + prior.completionTokens
    costMicroUsd := carryCost r.costMicroUsd prior.costMicroUsd }

end Response

/-! ### The gateway's cache -/

/-- `AGNOSAI_HOOSH_CACHE_*`: what the gateway said about its response cache. -/
inductive Cache where
  | unknown
  | miss
  | hit
  | semantic
  deriving Repr, DecidableEq

/-- `agnosai_hoosh_cache_from_header`. -/
def cacheFromHeader (v : String) : Cache :=
  if v = "HIT" then .hit
  else if v = "SEMANTIC" then .semantic
  else if v = "MISS" then .miss
  else .unknown

/-- `AGN_RESP_CACHE`, from the `X-Hoosh-Cache` header, which may be missing. -/
def cacheOf (header : Option String) : Cache := header.elim .unknown cacheFromHeader

/-- Whether the gateway answered from its cache. -/
def Cache.replayed : Cache → Bool
  | .hit | .semantic => true
  | .unknown | .miss => false

/-! ### Errors -/

/-- `agnosai_str_contains_ci_cstr`: whether `needle` occurs in `text`, ASCII case aside. -/
def containsCi (text needle : String) : Bool :=
  (text.toList.map Char.toLower).tails.any fun rest =>
    (needle.toList.map Char.toLower).isPrefixOf rest

/-- `agnosai_hoosh_refused_model`: whether the gateway did not know the model. -/
def refusedModel (err : String) : Bool :=
  containsCi err "hoosh returned HTTP 404" || containsCi err "upstream provider returned HTTP 404"

end Agnosai.Llm
