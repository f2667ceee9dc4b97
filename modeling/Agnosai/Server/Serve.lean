import Agnosai.Server.Auth.Verdict
import Agnosai.Server.Router

/-!
# Server — serving a request

`agnosai_serve_handler` (`server/serve.cyr`) on the bytes of a request: the rate limiter, the
stream that the router cannot express, the dispatch, the callback of an A2A delegation, the answer.

Every way to a handler passes the check. A stream is refused before it starts; any other route is
run by the dispatch alone; and the callback is made only after a response of 200 under the path of
a protected route. The transport, the limiter, the SSE stream and the reading of ids are
parameters (`Server`).
-/

namespace Agnosai.Serve

open Auth Router List

/-! ### The handler -/

/-- What the handler relies on. -/
structure Server (σ : Type*) where
  lib : AuthLib
  handlers : Handlers σ
  /-- `agnosai_app_state_auth`. -/
  auth : σ → AuthConfig
  /-- `sandhi_server_get_method`. -/
  getMethod : Bytes → Option Bytes
  /-- `sandhi_server_get_path`. -/
  getPath : Bytes → Option Bytes
  /-- `sandhi_server_find_header`. -/
  findHeader : Bytes → String → Option Bytes
  /-- `sandhi_server_body_offset`. -/
  bodyOffset : Bytes → Int
  /-- The mounted limiter, by client key. -/
  limiter : Option (Bytes → Nat)
  /-- `agnosai_rate_limit_client_key_a`. -/
  clientKey : (forwardedFor realIp : Option Bytes) → Bytes
  /-- `_agnosai_uuid_key_a`. -/
  uuidKey : Bytes → Option Bytes
  /-- `agnosai_sse_crew_stream`. -/
  sseCrewStream : σ → (crewId : Bytes) → σ
  /-- `agnosai_serve_callback_url`. -/
  callbackUrl : (body : Bytes) → Option Bytes

/-- `_agnosai_serve_method`: HEAD routes as GET. -/
def serveMethod : Option Bytes → Method
  | none => .other
  | some m =>
    if m = ascii "GET" then .get
    else if m = ascii "POST" then .post
    else if m = ascii "DELETE" then .delete
    else if m = ascii "HEAD" then .get
    else .other

/-- `_agnosai_serve_strip_query`. -/
def stripQuery (path : Bytes) : Bytes := path.takeWhile (· ≠ 63)

/-- An ASCII letter in lower case. -/
def lower (c : UInt8) : UInt8 := if 65 ≤ c && c ≤ 90 then c + 32 else c

/-- `agnosai_content_type_is_json`. -/
def contentTypeIsJson : Option Bytes → Bool
  | none => false
  | some ct =>
    let blank : UInt8 → Bool := fun c => c = 32 || c = 9
    let value := (((ct.dropWhile blank).takeWhile (· ≠ 59)).reverse.dropWhile blank).reverse
    let text := value.map lower
    if text.length < 16 then false
    else if ¬ (ascii "application/").isPrefixOf text then false
    else if text.length = 16 ∧ text.drop 12 = ascii "json" then true
    else if text.length > 17 ∧ text.drop (text.length - 5) = ascii "+json" then true
    else false

/-- `_agnosai_serve_rl_exempt`. -/
def rateLimitExempt (method : Method) (path : Bytes) : Bool :=
  match method with
  | .get =>
    match (routeResolve method path).id with
    | .health | .ready | .metrics => true
    | _ => false
  | _ => false

variable {σ : Type*} (srv : Server σ)

/-- What the router is given of a request. -/
def requestOf (buf : Bytes) : Request where
  method := serveMethod (srv.getMethod buf)
  path := stripQuery ((srv.getPath buf).getD (ascii "/"))
  authorization := srv.findHeader buf "Authorization"
  body :=
    let off := srv.bodyOffset buf
    if 0 < off ∧ off < buf.length then buf.drop off.toNat else []
  jsonContent := contentTypeIsJson (srv.findHeader buf "Content-Type")
  traceparent := srv.findHeader buf "traceparent"

/-- Whether the limiter turns a request away. -/
def rateLimited (buf : Bytes) : Bool :=
  match srv.limiter with
  | none => false
  | some check =>
    let req := requestOf srv buf
    !rateLimitExempt req.method req.path &&
      check (srv.clientKey (srv.findHeader buf "X-Forwarded-For") (srv.findHeader buf "X-Real-IP"))
        ≠ httpOk

/-- A response sent as it is, with nothing run. -/
def answer (s : σ) (response : Response) : Outcome σ := ⟨s, response, [.sent response false]⟩

/-- The stream of a crew's events. The id is looked at before the check. -/
def serveStream (s : σ) (param : Option Bytes) (authorization : Option Bytes) (now : Int64) :
    Outcome σ :=
  match param.bind srv.uuidKey with
  | none => answer s (routeError 422 "crew id is not a valid UUID")
  | some crewId =>
    let streamed : Outcome σ :=
      { state := srv.sseCrewStream s crewId
        response := { status := httpOk, body := .text [] }
        events := [.streamed crewId] }
    if routeNeedsAuth .crewStream then
      let checked := authCheck srv.lib (srv.auth s) authorization now
      let out :=
        if checked.2 ≠ httpOk then answer s (routeError checked.2 "unauthorized") else streamed
      { out with events := checkEvents checked ++ out.events }
    else streamed

/-- `agnosai_serve_dispatch_callback`, where the request asks for it and was answered with 200. -/
def callbackEvents (req : Request) (response : Response) : List Event :=
  if req.method = .post ∧ response.status = httpOk ∧ req.path = ascii "/api/v1/a2a/receive" then
    match srv.callbackUrl req.body with
    | none => []
    | some url => [.calledBack url]
  else []

/-- `agnosai_serve_handler`, when the clock says `now`. -/
def serveHandler (s : σ) (buf : Bytes) (now : Int64) : Outcome σ :=
  let req := requestOf srv buf
  let headOnly := srv.getMethod buf = some (ascii "HEAD")
  if rateLimited srv buf then answer s { status := 429, body := .text (ascii "Too Many Requests") }
  else if req.method = .get ∧ ¬ headOnly
      ∧ (routeResolve req.method req.path).id = .crewStream then
    serveStream srv s (routeResolve req.method req.path).param req.authorization now
  else
    let out := dispatch srv.lib (srv.auth s) srv.handlers s req now
    { out with
      events := out.events ++ callbackEvents srv req out.response ++ [.sent out.response headOnly] }

/-! ### The guarantee -/

/-- Something behind the auth boundary happens. -/
def Protected : Event → Prop
  | .handled id => id ≠ .health ∧ id ≠ .ready ∧ id ≠ .metrics
  | .streamed _ | .calledBack _ => True
  | _ => False

/-- The check lets the request through. -/
def Passes : Event → Prop
  | .authChecked status => status = httpOk
  | _ => False

def Parses : Event → Prop
  | .token e => e.Parses
  | _ => False

def Verifies (header : Option Bytes) : Event → Prop
  | .token e => e.Verifies header
  | _ => False

/-- The events of a request whose header is checked with this status: nothing protected before the
check has passed, no parsing before the signature, and no other check. -/
structure Guarded (header : Option Bytes) (status : Nat) (events : List Event) : Prop where
  passed : Precedes Passes Protected events
  order : Precedes (Verifies header) Parses events
  checked : ∀ st, .authChecked st ∈ events → st = status

/-- Events that are no part of a check. -/
def Unchecked (events : List Event) : Prop :=
  ∀ e ∈ events, ¬ Parses e ∧ ∀ st, e ≠ .authChecked st

variable {header : Option Bytes} {status : Nat} {events events' : List Event}

theorem Guarded.append (h : Guarded header status events) (hu : Unchecked events')
    (hp : (∃ e ∈ events, Passes e) ∨ ∀ e ∈ events', ¬ Protected e) :
    Guarded header status (events ++ events') where
  passed := h.passed.append (hp.imp id precedes_of_not)
  order := h.order.append (.inr (precedes_of_not fun e he => (hu e he).1))
  checked st hst := by
    rcases mem_append.1 hst with hst | hst
    · exact h.checked st hst
    · exact absurd rfl ((hu _ hst).2 st)

theorem Guarded.nil : Guarded header status [] where
  passed := precedes_of_not nofun
  order := precedes_of_not nofun
  checked := nofun

/-- Events of which none is protected nor part of a check. -/
theorem Guarded.of_quiet (hu : Unchecked events) (hp : ∀ e ∈ events, ¬ Protected e) :
    Guarded header status events := by
  simpa only [nil_append] using Guarded.nil.append hu (.inr hp)

theorem unchecked_singleton {e : Event} (hp : ¬ Parses e) (hc : ∀ st, e ≠ .authChecked st) :
    Unchecked [e] := by
  intro e' he'
  obtain rfl := mem_singleton.1 he'
  exact ⟨hp, hc⟩

theorem guarded_sent (response : Response) (headOnly : Bool) :
    Guarded header status [.sent response headOnly] := by
  refine .of_quiet (unchecked_singleton id nofun) fun e he hp => ?_
  obtain rfl := mem_singleton.1 he
  exact hp

/-- The events of the check itself. -/
theorem guarded_check (lib : AuthLib) (c : AuthConfig) (header : Option Bytes) (now : Int64) :
    Guarded header (authCheck lib c header now).2 (checkEvents (authCheck lib c header now)) where
  passed := by
    refine precedes_of_not fun e he hp => ?_
    rcases mem_append.1 he with he | he
    · obtain ⟨t, -, rfl⟩ := mem_map.1 he
      exact hp
    · obtain rfl := mem_singleton.1 he
      exact hp
  order := by
    refine ((authCheck_precedes c header).map Event.token (fun _ => id) fun _ => id).append
      (.inr (precedes_of_not fun e he hp => ?_))
    obtain rfl := mem_singleton.1 he
    exact hp
  checked st hst := by
    rcases mem_append.1 hst with hst | hst
    · obtain ⟨t, -, ht⟩ := mem_map.1 hst
      cases ht
    · cases mem_singleton.1 hst
      rfl

theorem passes_of_ok {checked : List TokenEvent × Nat} (h : checked.2 = httpOk) :
    ∃ e ∈ checkEvents checked, Passes e :=
  ⟨.authChecked checked.2, mem_append_right _ mem_cons_self, h⟩

/-! ### Dispatch -/

/-- A route runs its handler or nothing. -/
theorem runRoute_events (h : Handlers σ) (s : σ) (m : RouteMatch) (req : Request) :
    (runRoute h s m req).events = [] ∧ (runRoute h s m req).state = s ∨
      (runRoute h s m req).events = [.handled m.id] := by
  unfold runRoute
  split
  · exact .inl ⟨rfl, rfl⟩
  · split
    · exact .inr rfl
    · exact .inl ⟨rfl, rfl⟩

theorem unchecked_runRoute (h : Handlers σ) (s : σ) (m : RouteMatch) (req : Request) :
    Unchecked (runRoute h s m req).events := by
  rcases runRoute_events h s m req with ⟨hev, -⟩ | hev
  · rw [hev]
    exact nofun
  · rw [hev]
    exact unchecked_singleton id nofun

/-- A route that needs no check is a probe, and leaves the state alone. -/
theorem runRoute_public (h : Handlers σ) (s : σ) (m : RouteMatch) (req : Request)
    (hpublic : routeNeedsAuth m.id = false) :
    (∀ e ∈ (runRoute h s m req).events, ¬ Protected e) ∧ (runRoute h s m req).state = s := by
  have hprobe : m.id = .health ∨ m.id = .ready ∨ m.id = .metrics ∨ m.id = .none := by
    revert hpublic
    cases m.id <;> decide
  constructor
  · intro e he hp
    rcases runRoute_events h s m req with ⟨hev, -⟩ | hev
    · rw [hev] at he
      exact not_mem_nil he
    · rw [hev] at he
      obtain rfl := mem_singleton.1 he
      obtain ⟨h1, h2, h3⟩ := hp
      rcases hprobe with hid | hid | hid | hid
      · exact h1 hid
      · exact h2 hid
      · exact h3 hid
      · -- an unrouted request has no handler
        unfold runRoute at hev
        simp only [hid, routeTakesJson, Bool.and_false, Bool.false_eq_true, if_false,
          Handlers.run] at hev
        cases hev
  · unfold runRoute
    rcases hprobe with hid | hid | hid | hid <;>
      simp [hid, routeTakesJson, Handlers.run]

/-- What a dispatch leaves: guarded events, a state that only an accepted request changes, and under
the path of the A2A route a 200 only after the check passed. -/
structure Dispatched (status : Nat) (header : Option Bytes) (s : σ) (req : Request)
    (out : Outcome σ) : Prop where
  guarded : Guarded header status out.events
  kept : status ≠ httpOk → out.state = s
  answered : req.method = .post → req.path = ascii "/api/v1/a2a/receive" →
    out.response.status = httpOk → ∃ e ∈ out.events, Passes e

/-- An error before any handler. -/
theorem Dispatched.of_error {s : σ} {req : Request} {response : Response}
    (h : response.status ≠ httpOk) : Dispatched status header s req ⟨s, response, []⟩ where
  guarded := .nil
  kept _ := rfl
  answered _ _ hok := absurd hok h

theorem resolve_a2a : (routeResolve .post (ascii "/api/v1/a2a/receive")).id = .a2aReceive := by
  decide

/-- Every dispatch is one of the cases. -/
theorem dispatched (lib : AuthLib) (auth : AuthConfig) (h : Handlers σ) (s : σ) (req : Request)
    (now : Int64) :
    Dispatched (authCheck lib auth req.authorization now).2 req.authorization s req
      (dispatch lib auth h s req now) := by
  have hcheck := guarded_check lib auth req.authorization now
  unfold dispatch
  split
  · exact .of_error (by decide)
  · dsimp only
    split
    · split
      · exact .of_error (by decide : (405 : Nat) ≠ httpOk)
      · exact .of_error (by decide : (404 : Nat) ≠ httpOk)
    · split
      · split
        next hrefused =>
          refine ⟨hcheck, fun _ => rfl, fun _ _ hok => absurd hok hrefused⟩
        next hok =>
          have hpasses := passes_of_ok (not_not.1 hok)
          refine ⟨hcheck.append (unchecked_runRoute _ _ _ _) (.inl hpasses),
            fun hne => absurd hne hok, fun _ _ _ => ?_⟩
          obtain ⟨e, he, hp⟩ := hpasses
          exact ⟨e, mem_append_left _ he, hp⟩
      next hpublic =>
        rw [Bool.not_eq_true] at hpublic
        obtain ⟨hquiet, hstate⟩ :=
          runRoute_public h s (routeResolve req.method req.path) req hpublic
        refine ⟨.of_quiet (unchecked_runRoute _ _ _ _) hquiet, fun _ => hstate, ?_⟩
        intro hpost hpath
        rw [hpost, hpath, resolve_a2a] at hpublic
        cases hpublic

/-! ### The whole handler -/

theorem unchecked_callbackEvents (req : Request) (response : Response) :
    Unchecked (callbackEvents srv req response) := by
  unfold callbackEvents
  split
  · split
    · exact nofun
    · exact unchecked_singleton id nofun
  · exact nofun

/-- A callback is made under the A2A path, after a 200. -/
theorem callbackEvents_eq_nil {req : Request} {response : Response}
    (h : ¬ (req.method = .post ∧ response.status = httpOk ∧
      req.path = ascii "/api/v1/a2a/receive")) : callbackEvents srv req response = [] :=
  if_neg h

/-- So are those of a stream. -/
theorem guarded_serveStream (s : σ) (param header : Option Bytes) (now : Int64) :
    Guarded header (authCheck srv.lib (srv.auth s) header now).2
        (serveStream srv s param header now).events ∧
      ((authCheck srv.lib (srv.auth s) header now).2 ≠ httpOk →
        (serveStream srv s param header now).state = s) := by
  have hcheck := guarded_check srv.lib (srv.auth s) header now
  unfold serveStream
  split
  · exact ⟨guarded_sent _ _, fun _ => rfl⟩
  · simp only [routeNeedsAuth, if_true]
    split
    · refine ⟨hcheck.append (unchecked_singleton id nofun) (.inr fun e he hp => ?_), fun _ => rfl⟩
      obtain rfl := mem_singleton.1 he
      exact hp
    next hok =>
      exact ⟨hcheck.append (unchecked_singleton id nofun)
        (.inl (passes_of_ok (not_not.1 hok))), fun hne => absurd hne hok⟩

/-- The events of a request are guarded. -/
theorem guarded_serveHandler (s : σ) (buf : Bytes) (now : Int64) :
    Guarded (srv.findHeader buf "Authorization")
        (authCheck srv.lib (srv.auth s) (srv.findHeader buf "Authorization") now).2
        (serveHandler srv s buf now).events ∧
      ((authCheck srv.lib (srv.auth s) (srv.findHeader buf "Authorization") now).2 ≠ httpOk →
        (serveHandler srv s buf now).state = s) := by
  unfold serveHandler
  dsimp only
  split
  · exact ⟨guarded_sent _ _, fun _ => rfl⟩
  · split
    · exact guarded_serveStream srv s _ _ now
    · have hd := dispatched srv.lib (srv.auth s) srv.handlers s (requestOf srv buf) now
      generalize dispatch srv.lib (srv.auth s) srv.handlers s (requestOf srv buf) now = out at hd
      refine ⟨?_, hd.kept⟩
      refine Guarded.append (hd.guarded.append (unchecked_callbackEvents srv _ _) ?_)
        (unchecked_singleton id nofun) (.inr fun e he hp => ?_)
      · by_cases hcall : (requestOf srv buf).method = .post ∧ out.response.status = httpOk ∧
            (requestOf srv buf).path = ascii "/api/v1/a2a/receive"
        · exact .inl (hd.answered hcall.1 hcall.2.2 hcall.2.1)
        · rw [callbackEvents_eq_nil srv hcall]
          exact .inr nofun
      · obtain rfl := mem_singleton.1 he
        exact hp

/-- **Handlers run behind the check.** For every request to a server with authentication enabled: no
handler but a probe's runs, nothing is streamed and no callback is made before the check of the
request's `Authorization` header has answered OK, and without that the state is left as it was; OK
means an authorized header; and no JSON of the token is parsed before its signature was verified. -/
theorem handlers_guarded (s : σ) (buf : Bytes) (now : Int64)
    (henabled : (srv.auth s).enabled = true) :
    Precedes Passes Protected (serveHandler srv s buf now).events ∧
    (∀ status, .authChecked status ∈ (serveHandler srv s buf now).events →
      status = (authCheck srv.lib (srv.auth s) (srv.findHeader buf "Authorization") now).2) ∧
    ((authCheck srv.lib (srv.auth s) (srv.findHeader buf "Authorization") now).2 ≠ httpOk →
      (serveHandler srv s buf now).state = s) ∧
    ((authCheck srv.lib (srv.auth s) (srv.findHeader buf "Authorization") now).2 = httpOk →
      Authorized srv.lib (srv.auth s) (srv.findHeader buf "Authorization") now) ∧
    Precedes (Verifies (srv.findHeader buf "Authorization")) Parses
      (serveHandler srv s buf now).events := by
  obtain ⟨hguarded, hkept⟩ := guarded_serveHandler srv s buf now
  exact ⟨hguarded.passed, hguarded.checked, hkept, authorized_of_check henabled, hguarded.order⟩

/-! ### A server with a secret -/

/-- A handler that answers and does nothing else. -/
def sampleAnswer : Response where
  status := httpOk
  body := .json (.arr [])

/-- A server whose transport reads `GET /api/v1/tools` and the Bearer token `s3cret`, and whose
secret that is. -/
def sampleServer : Server Unit where
  lib :=
    { sha256 := id
      pemB64Decode := fun _ _ => none
      rsaPubkeyFromDer := fun _ _ _ => none
      rsaPkcs1v15VerifySha256 := fun _ _ _ => false
      jsonParse := fun _ => none
      jsonObjGet := fun fields key => fields.lookup key }
  handlers :=
    { health := sampleAnswer
      ready := sampleAnswer
      metrics := sampleAnswer
      mcp := fun _ _ _ => ((), sampleAnswer)
      createCrew := fun _ _ _ => ((), sampleAnswer)
      getCrew := fun _ _ => ((), sampleAnswer)
      cancelCrew := fun _ _ => ((), sampleAnswer)
      a2aReceive := fun _ _ _ => ((), sampleAnswer)
      a2aStatus := sampleAnswer
      listDefinitions := fun _ => ((), sampleAnswer)
      createDefinition := fun _ _ => ((), sampleAnswer)
      listTools := fun _ => ((), sampleAnswer)
      removeTool := fun _ _ => ((), sampleAnswer)
      listPending := fun _ => ((), sampleAnswer)
      submitApproval := fun _ _ => ((), sampleAnswer)
      listPresets := sampleAnswer
      crewHistory := fun _ => ((), sampleAnswer)
      agentPerformance := fun _ => ((), sampleAnswer) }
  auth := fun _ => .withSecret (ascii "s3cret")
  getMethod := fun _ => some (ascii "GET")
  getPath := fun _ => some (ascii "/api/v1/tools?all")
  findHeader := fun _ name => if name = "Authorization" then some (ascii "Bearer s3cret") else none
  bodyOffset := fun _ => 0
  limiter := none
  clientKey := fun _ _ => []
  uuidKey := fun _ => none
  sseCrewStream := fun _ _ => ()
  callbackUrl := fun _ => none

theorem handlers_guarded_sample :
    Event.handled .listTools ∈ (serveHandler sampleServer () [] 0).events ∧
    Precedes Passes Protected (serveHandler sampleServer () [] 0).events ∧
    Authorized sampleServer.lib (sampleServer.auth ()) (sampleServer.findHeader [] "Authorization")
      0 := by
  obtain ⟨hpassed, hchecked, -, hauthorized, -⟩ := handlers_guarded sampleServer () [] 0 rfl
  have hok : Event.authChecked httpOk ∈ (serveHandler sampleServer () [] 0).events := by
    exact mem_cons_self
  refine ⟨?_, hpassed, hauthorized (hchecked httpOk hok).symm⟩
  exact mem_cons_of_mem _ mem_cons_self

end Agnosai.Serve
