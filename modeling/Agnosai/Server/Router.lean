import Agnosai.Server.Auth.Definitions

/-!
# Server — the router

The route table, path matching and the auth boundary (`server/router.cyr`), with the responses of
`server/routes/mod.cyr`. The matcher walks a path and a pattern segment by segment; here both are
cut into segments first (`segments`).

What the handlers do is a parameter (`Handlers`). `dispatch` records, beside its response, what
the check did with the token, the check's answer, and the handler that ran. The per-request arena,
which changes where a response is built and nothing else, is left out.
-/

namespace Agnosai.Router

open Auth

/-! ### Responses -/

/-- A body is a JSON value, or text as it is. -/
inductive Body where
  | json (v : Json)
  | text (t : Bytes)

/-- `AgnosaiRouteResp`. -/
structure Response where
  status : Nat
  body : Body
  headers : Option Bytes := none

/-- `agnosai_route_error_a`. -/
def routeError (status : Nat) (message : String) : Response where
  status := status
  body := .json (.obj [("error", .str message)])

/-! ### Matching -/

/-- `AgnosaiRouteId`. -/
inductive Route where
  | none
  | health
  | ready
  | metrics
  | mcp
  | createCrew
  | getCrew
  | cancelCrew
  | crewStream
  | a2aReceive
  | a2aStatus
  | listDefinitions
  | createDefinition
  | listTools
  | removeTool
  | listPending
  | submitApproval
  | listPresets
  | crewHistory
  | agentPerformance
  deriving DecidableEq

/-- The methods the table distinguishes. -/
inductive Method where
  | get
  | post
  | delete
  | other
  deriving DecidableEq

/-- `AgnosaiAllowBit`. -/
def Method.allowBit : Method → Nat
  | .get => 1
  | .post => 2
  | .delete => 4
  | .other => 0

/-- `AgnosaiRouteMatch`. -/
structure RouteMatch where
  id : Route
  param : Option Bytes := none
  methodMismatch : Bool := false
  allow : Nat := 0

/-- A path or a pattern cut at its slashes, after one leading slash. Nothing left is no segment; a
slash at the end starts an empty one. -/
def segments (s : Bytes) : List Bytes :=
  let s := match s with
    | 47 :: rest => rest
    | s => s
  if s = [] then [] else s.splitOn 47

/-- The segments one by one: `*` takes any one that is not empty, and the last it took is the
parameter. -/
def matchSegments (cap : Option Bytes) : List Bytes → List Bytes → Option (Option Bytes)
  | [], [] => some cap
  | p :: ps, q :: qs =>
    if q = [42] then
      if p = [] then none else matchSegments (some p) ps qs
    else if p = q then matchSegments cap ps qs
    else none
  | _, _ => none

/-- `_agnosai_path_matches_at`: no match, or a match with its parameter. -/
def pathMatchesAt (path : Bytes) (start : Nat) (pattern : Bytes) : Option (Option Bytes) :=
  matchSegments none (segments (path.drop start)) (segments pattern)

/-- `_agnosai_path_prefix_end`. -/
def pathPrefixEnd (path lit : Bytes) : Option Nat :=
  if lit.isPrefixOf path && path[lit.length]? = some 47 then some lit.length else none

/-- `_agnosai_seg_is`. -/
def segIs (path : Bytes) (start : Nat) (lit : Bytes) : Bool :=
  let rest := path.drop (start + 1)
  lit.isPrefixOf rest && (rest[lit.length]? = none || rest[lit.length]? = some 47)

/-- A pattern and what its methods route to. -/
structure Pattern where
  path : Bytes
  routes : List (Method × Route)

/-- The methods of a pattern, as bits. -/
def Pattern.allow (p : Pattern) : Nat := (p.routes.map (·.1.allowBit)).foldl (· ||| ·) 0

/-- Patterns in order, from a set of methods already seen: a route, or the methods seen. -/
def tryPatterns (method : Method) (path : Bytes) (start : Nat) :
    List Pattern → Nat → RouteMatch ⊕ Nat
  | [], seen => .inr seen
  | p :: ps, seen =>
    match pathMatchesAt path start p.path with
    | none => tryPatterns method path start ps seen
    | some param =>
      match p.routes.lookup method with
      | some id => .inl { id := id, param := param }
      | none => tryPatterns method path start ps (seen ||| p.allow)

/-- The patterns under `/api/v1`, by the segment that selects them. -/
def apiGroups : List (Bytes × List Pattern) :=
  [(ascii "crews",
      [⟨ascii "/crews", [(.post, .createCrew)]⟩,
        ⟨ascii "/crews/*", [(.get, .getCrew)]⟩,
        ⟨ascii "/crews/*/cancel", [(.post, .cancelCrew)]⟩,
        ⟨ascii "/crews/*/stream", [(.get, .crewStream)]⟩]),
    (ascii "a2a",
      [⟨ascii "/a2a/receive", [(.post, .a2aReceive)]⟩,
        ⟨ascii "/a2a/status", [(.post, .a2aStatus)]⟩]),
    (ascii "agents",
      [⟨ascii "/agents/definitions", [(.get, .listDefinitions), (.post, .createDefinition)]⟩]),
    (ascii "tools",
      [⟨ascii "/tools", [(.get, .listTools)]⟩,
        ⟨ascii "/tools/*", [(.delete, .removeTool)]⟩]),
    (ascii "approvals",
      [⟨ascii "/approvals", [(.get, .listPending), (.post, .submitApproval)]⟩]),
    (ascii "presets",
      [⟨ascii "/presets", [(.get, .listPresets)]⟩]),
    (ascii "dashboard",
      [⟨ascii "/dashboard/crews", [(.get, .crewHistory)]⟩,
        ⟨ascii "/dashboard/agents", [(.get, .agentPerformance)]⟩])]

/-- The patterns outside `/api/v1`. -/
def rootPatterns : List Pattern :=
  [⟨ascii "/health", [(.get, .health)]⟩, ⟨ascii "/ready", [(.get, .ready)]⟩,
    ⟨ascii "/metrics", [(.get, .metrics)]⟩, ⟨ascii "/mcp", [(.post, .mcp)]⟩]

/-- The groups in order. -/
def tryGroups (method : Method) (path : Bytes) (api : Nat) :
    List (Bytes × List Pattern) → Nat → RouteMatch ⊕ Nat
  | [], seen => .inr seen
  | (lit, patterns) :: groups, seen =>
    if segIs path api lit then
      match tryPatterns method path api patterns seen with
      | .inl m => .inl m
      | .inr seen => tryGroups method path api groups seen
    else tryGroups method path api groups seen

/-- `agnosai_route_resolve_a`. -/
def routeResolve (method : Method) (path : Bytes) : RouteMatch :=
  let tried :=
    match pathPrefixEnd path (ascii "/api/v1") with
    | some api => tryGroups method path api apiGroups 0
    | none => tryPatterns method path 0 rootPatterns 0
  match tried with
  | .inl m => m
  | .inr seen =>
    if seen ≠ 0 then { id := .none, methodMismatch := true, allow := seen } else { id := .none }

/-- `agnosai_route_allow_header_a`. -/
def routeAllowHeader (allow : Nat) : Option Bytes :=
  if allow = 0 then none
  else
    let names := [Method.get, .post, .delete].filter (fun m => allow &&& m.allowBit ≠ 0)
    let text : Method → Bytes
      | .get => ascii "GET"
      | .post => ascii "POST"
      | .delete => ascii "DELETE"
      | .other => []
    some (ascii "Allow: " ++ (ascii ", ").intercalate (names.map text) ++ [13, 10])

/-! ### The auth boundary -/

/-- `agnosai_route_needs_auth`: all routes but the three probes. -/
def routeNeedsAuth : Route → Bool
  | .health | .ready | .metrics | .none => false
  | _ => true

/-- `_agnosai_route_takes_json`. -/
def routeTakesJson : Route → Bool
  | .mcp | .createCrew | .a2aReceive | .createDefinition | .submitApproval => true
  | _ => false

/-! ### Dispatch -/

/-- The handlers, on a state `σ`. -/
structure Handlers (σ : Type*) where
  health : Response
  ready : Response
  metrics : Response
  mcp : σ → (body : Bytes) → (traceparent : Option Bytes) → σ × Response
  createCrew : σ → (body : Bytes) → (traceparent : Option Bytes) → σ × Response
  getCrew : σ → (param : Option Bytes) → σ × Response
  cancelCrew : σ → (param : Option Bytes) → σ × Response
  a2aReceive : σ → (body : Bytes) → (traceparent : Option Bytes) → σ × Response
  a2aStatus : Response
  listDefinitions : σ → σ × Response
  createDefinition : σ → (body : Bytes) → σ × Response
  listTools : σ → σ × Response
  removeTool : σ → (param : Option Bytes) → σ × Response
  listPending : σ → σ × Response
  submitApproval : σ → (body : Bytes) → σ × Response
  listPresets : Response
  crewHistory : σ → σ × Response
  agentPerformance : σ → σ × Response

/-- The ladder that runs a route's handler. A stream has none here. -/
def Handlers.run {σ : Type*} (h : Handlers σ) (id : Route) (s : σ) (param : Option Bytes)
    (body : Bytes) (traceparent : Option Bytes) : Option (σ × Response) :=
  match id with
  | .health => some (s, h.health)
  | .ready => some (s, h.ready)
  | .metrics => some (s, h.metrics)
  | .mcp => some (h.mcp s body traceparent)
  | .createCrew => some (h.createCrew s body traceparent)
  | .getCrew => some (h.getCrew s param)
  | .cancelCrew => some (h.cancelCrew s param)
  | .a2aReceive => some (h.a2aReceive s body traceparent)
  | .a2aStatus => some (s, h.a2aStatus)
  | .listDefinitions => some (h.listDefinitions s)
  | .createDefinition => some (h.createDefinition s body)
  | .listTools => some (h.listTools s)
  | .removeTool => some (h.removeTool s param)
  | .listPending => some (h.listPending s)
  | .submitApproval => some (h.submitApproval s body)
  | .listPresets => some (s, h.listPresets)
  | .crewHistory => some (h.crewHistory s)
  | .agentPerformance => some (h.agentPerformance s)
  | .none | .crewStream => none

/-- What is seen of a request being served. -/
inductive Event where
  | token (e : TokenEvent)
  | authChecked (status : Nat)
  | handled (id : Route)
  | streamed (crewId : Bytes)
  | calledBack (url : Bytes)
  | sent (response : Response) (headOnly : Bool)

/-- Where a request leaves the server. -/
structure Outcome (σ : Type*) where
  state : σ
  response : Response
  events : List Event

/-- A request as the router sees it. -/
structure Request where
  method : Method
  path : Bytes
  authorization : Option Bytes
  body : Bytes
  jsonContent : Bool
  traceparent : Option Bytes

/-- `AGNOSAI_MAX_BODY_BYTES`. -/
def maxBodyBytes : Nat := 10485760

/-- What the check of a header shows. -/
def checkEvents (checked : List TokenEvent × Nat) : List Event :=
  checked.1.map .token ++ [.authChecked checked.2]

/-- The part of the dispatch after routing and the check. -/
def runRoute {σ : Type*} (h : Handlers σ) (s : σ) (m : RouteMatch) (req : Request) : Outcome σ :=
  if req.jsonContent = false && routeTakesJson m.id then
    ⟨s, routeError 415 "expected request with `Content-Type: application/json`", []⟩
  else
    match h.run m.id s m.param req.body req.traceparent with
    | some (s', response) => ⟨s', response, [.handled m.id]⟩
    | none => ⟨s, routeError 501 "crew streaming is unavailable in this build", []⟩

/-- `_agnosai_route_dispatch_inner`, for a server whose configuration is `auth` and whose clock says
`now`. -/
def dispatch {σ : Type*} (lib : AuthLib) (auth : AuthConfig) (h : Handlers σ) (s : σ)
    (req : Request) (now : Int64) : Outcome σ :=
  if req.body.length > maxBodyBytes then
    ⟨s, routeError 413 "request body exceeds the 10 MiB limit", []⟩
  else
    let m := routeResolve req.method req.path
    if m.id = .none then
      if m.methodMismatch then
        ⟨s, { routeError 405 "method not allowed" with headers := routeAllowHeader m.allow }, []⟩
      else ⟨s, routeError 404 "not found", []⟩
    else if routeNeedsAuth m.id then
      let checked := authCheck lib auth req.authorization now
      if checked.2 ≠ httpOk then ⟨s, routeError checked.2 "unauthorized", checkEvents checked⟩
      else
        let out := runRoute h s m req
        { out with events := checkEvents checked ++ out.events }
    else runRoute h s m req

end Agnosai.Router
