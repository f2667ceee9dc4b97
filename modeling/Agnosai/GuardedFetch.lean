import Agnosai.Server.Ssrf.Definitions

/-!
# GuardedFetch

The fetch of `guarded_fetch.cyr`, which follows redirects and asks a guard before every hop.
Servers, the clock and a caller's hop check are a `World`: each of their answers may depend on all
that has happened. The trace records the requests, what they were answered and what the guard was
asked, so that a chain of redirects, however an attacker chooses it, is a trace.
-/

namespace Agnosai.GuardedFetch

open Ssrf List

/-! ### URLs -/

/-- The bytes read at the start of a C string: past its end there is the NUL. -/
def readBytes (n : Nat) (s : Bytes) : Bytes := (range n).map fun i => s.getD i 0

/-- `agnosai_fetch_scheme_len`. -/
def schemeLen (url : Bytes) : Nat :=
  if url.length < 7 then 0
  else if toAsciiLower (readBytes 8 url) = ascii "https://" then 8
  else if toAsciiLower (readBytes 7 url) = ascii "http://" then 7
  else 0

/-- `agnosai_fetch_is_https`. -/
def isHttps (url : Bytes) : Bool := schemeLen url = 8

/-- The scheme is `https`, in whatever case. -/
def Https (url : Bytes) : Prop := ascii "https://" <+: toAsciiLower url

theorem readBytes_of_le {n : Nat} {s : Bytes} (h : n ≤ s.length) : readBytes n s = s.take n := by
  refine ext_getElem (by simp [readBytes, h]) fun i hi _ => ?_
  simp only [readBytes, length_map, length_range] at hi
  simp [readBytes, getElem?_eq_getElem (hi.trans_le h)]

/-- The scheme test is exact. -/
theorem isHttps_iff {url : Bytes} : isHttps url = true ↔ Https url := by
  have hread : toAsciiLower (readBytes 8 url) = ascii "https://" ↔ Https url := by
    by_cases hlen : 8 ≤ url.length
    · rw [readBytes_of_le hlen, Https, toAsciiLower, map_take, prefix_iff_eq_take, eq_comm]
      rfl
    · refine iff_of_false (fun h => ?_) fun h => hlen ?_
      · -- past the end of the URL there is a NUL
        have hlast := congrArg (·[7]?) h
        have hnul : url[7]? = none := getElem?_eq_none (by omega)
        simp [toAsciiLower, readBytes, ascii, hnul] at hlast
      · simpa [toAsciiLower, ascii] using h.length_le
  rw [isHttps, decide_eq_true_iff, ← hread, schemeLen]
  split
  next hshort =>
    refine iff_of_false (by decide) fun h => absurd (hread.1 h).length_le ?_
    simp [toAsciiLower, ascii]
    omega
  next =>
    split
    next h => exact iff_of_true rfl h
    next h => split <;> exact iff_of_false (by decide) h

/-- `agnosai_fetch_is_redirect`. -/
def isRedirect (status : Int) : Bool :=
  status = 301 || status = 302 || status = 303 || status = 307 || status = 308

/-- The origin of a URL: up to the first `/`, `?` or `#` after its scheme. -/
def origin (p : Nat) (base : Bytes) : Bytes :=
  base.take p ++ (base.drop p).takeWhile fun c => c ≠ 47 && c ≠ 63 && c ≠ 35

/-- `agnosai_fetch_resolve_location`: an absolute URL, an absolute path on the same origin, or
nothing. -/
def resolveLocation (base loc : Bytes) : Option Bytes :=
  if loc = [] then none
  else if 0 < schemeLen loc then some loc
  else if ¬ (ascii "/").isPrefixOf loc then none
  else if (ascii "//").isPrefixOf loc then none
  else if schemeLen base = 0 then none
  else some (origin (schemeLen base) base ++ loc)

/-! ### The world -/

/-- A request, as it is sent; the headers are the same for all. -/
structure Request where
  verb : Bytes
  url : Bytes
  body : Option Bytes

/-- A response: its status and its `Location`. -/
structure Response where
  status : Int
  location : Option Bytes

/-- How a request failed, if not without a word. -/
abbrev ErrKind := Option Int

inductive Event where
  | request (r : Request)
  | answered (resp : Response)
  /-- The guard was asked about a hop. -/
  | checked (url : Bytes) (ok : Bool)

abbrev Trace := List Event

/-- What the fetch does not decide. -/
structure World where
  client : Client
  clock : Trace → Int
  send : Trace → Request → Except ErrKind Response
  /-- `hop_fp`, if there is one. -/
  hop : Option (Trace → Bytes → Bool)

/-- `_agnosai_fetch_hop_ok`. -/
def hopOk (w : World) (tr : Trace) (url : Bytes) : Bool :=
  match w.hop with
  | none => isSafeUrl w.client url
  | some hop => hop tr url

inductive Result where
  | response (resp : Response)
  | failed (kind : ErrKind)
  /-- `AGNOSAI_FETCH_BLOCKED`. -/
  | blocked

/-! ### The fetch -/

/-- `AGNOSAI_FETCH_MAX_HOPS`. -/
def maxHops : Nat := 10

/-- The state of the loop of `agnosai_guarded_fetch_hops`. -/
structure FetchState where
  current : Bytes
  verb : Bytes
  body : Option Bytes
  hops : Nat := 0
  trace : Trace := []

/-- The request a round sends. -/
def FetchState.toRequest (st : FetchState) : Request :=
  { verb := st.verb, url := st.current, body := st.body }

/-- What is left of the budget, in milliseconds. -/
def leftMs (w : World) (deadline : Int) (tr : Trace) : Int := (deadline - w.clock tr).tdiv 1000000

/-- A redirect to `next`, from a response that has just come. -/
def followStep (w : World) (st : FetchState) (resp : Response) (next : Bytes) (tr : Trace) :
    FetchState ⊕ (Result × Trace) :=
  if isHttps st.current ∧ ¬ isHttps next then .inr (.blocked, tr)
  else if hopOk w tr next then
    .inl
      { current := next
        -- a 303 turns the next request into a GET
        verb := if resp.status = 303 then ascii "GET" else st.verb
        body := if resp.status = 303 then none else st.body
        hops := st.hops + 1
        trace := tr ++ [.checked next true] }
  else .inr (.blocked, tr ++ [.checked next false])

/-- One round of the loop of `agnosai_guarded_fetch_hops`. -/
def fetchStep (w : World) (deadline : Int) (st : FetchState) : FetchState ⊕ (Result × Trace) :=
  if maxHops < st.hops then .inr (.failed none, st.trace)
  else if leftMs w deadline st.trace ≤ 0 then .inr (.failed none, st.trace)
  else
    let tr := st.trace ++ [.request st.toRequest]
    match w.send st.trace st.toRequest with
    | .error kind => .inr (.failed kind, tr)
    | .ok resp =>
      let tr := tr ++ [.answered resp]
      if isRedirect resp.status then
        match resp.location.bind (resolveLocation st.current) with
        | none => .inr (.response resp, tr)
        | some next => followStep w st resp next tr
      else .inr (.response resp, tr)

/-- A hop that is followed. -/
structure Followed (w : World) (st : FetchState) (resp : Response) (st' : FetchState) : Prop where
  hops : st.hops ≤ maxHops
  next : st'.hops = st.hops + 1
  https : Https st.current → Https st'.current
  ok : hopOk w (st.trace ++ [.request st.toRequest, .answered resp]) st'.current = true
  trace : st'.trace =
    st.trace ++ [.request st.toRequest, .answered resp, .checked st'.current true]
  verb : st'.verb = if resp.status = 303 then ascii "GET" else st.verb
  body : st'.body = if resp.status = 303 then none else st.body

/-- A fetch that ends: nothing more is sent, or one request and nothing after it. -/
def Ended (st : FetchState) (tr : Trace) : Prop :=
  tr = st.trace ∨ st.hops ≤ maxHops ∧ ∃ seg, tr = st.trace ++ .request st.toRequest :: seg ∧
    ∀ r, .request r ∉ seg

section Steps

variable {w : World} {deadline : Int} {st st' : FetchState}

/-- A round follows a hop or ends the fetch. -/
theorem fetchStep_spec (w : World) (deadline : Int) (st : FetchState) :
    Sum.elim (fun st' => ∃ resp, Followed w st resp st') (fun o => Ended st o.2)
      (fetchStep w deadline st) := by
  unfold fetchStep
  split
  · exact .inl rfl
  next hhops =>
  have hhops := not_lt.1 hhops
  split
  · exact .inl rfl
  dsimp only
  split
  · exact .inr ⟨hhops, [], rfl, by simp⟩
  next resp _ =>
  have hanswered : Ended st (st.trace ++ [.request st.toRequest] ++ [.answered resp]) :=
    .inr ⟨hhops, [.answered resp], by simp, by simp⟩
  split
  · split
    · exact hanswered
    next next _ =>
    unfold followStep
    split
    · exact hanswered
    next hdown =>
    rw [isHttps_iff, isHttps_iff] at hdown
    split
    next hok =>
      refine ⟨resp, hhops, rfl, fun hcur => ?_, ?_, ?_, rfl, rfl⟩
      · by_contra hnext
        exact hdown ⟨hcur, hnext⟩
      · simpa using hok
      · simp
    · exact .inr ⟨hhops, [.answered resp, .checked next false], by simp, by simp⟩
  · exact hanswered

theorem fetchStep_eq_inl (h : fetchStep w deadline st = .inl st') :
    ∃ resp, Followed w st resp st' := by
  simpa [h] using fetchStep_spec w deadline st

theorem fetchStep_eq_inr {o : Result × Trace} (h : fetchStep w deadline st = .inr o) :
    Ended st o.2 := by
  simpa [h] using fetchStep_spec w deadline st

end Steps

/-- The loop of `agnosai_guarded_fetch_hops`. -/
def fetchLoop (w : World) (deadline : Int) : Loop FetchState (Result × Trace) where
  step := fetchStep w deadline
  measure st := maxHops + 1 - st.hops
  decreasing := by
    intro st st' h
    obtain ⟨resp, hfollow⟩ := fetchStep_eq_inl h
    have hhops := hfollow.hops
    have hnext := hfollow.next
    omega

/-- `agnosai_guarded_fetch_hops`. -/
def fetch (w : World) (method url : Bytes) (body : Option Bytes) (timeoutMs : Int) :
    Result × Trace :=
  (fetchLoop w (w.clock [] + timeoutMs * 1000000)).run { current := url, verb := method, body }

/-! ### Chains of redirects -/

def requests (tr : Trace) : List Request :=
  tr.filterMap fun
    | .request r => some r
    | _ => none

@[simp] theorem requests_append (tr tr' : Trace) :
    requests (tr ++ tr') = requests tr ++ requests tr' := by
  simp [requests]

@[simp] theorem requests_cons (r : Request) (tr : Trace) :
    requests (.request r :: tr) = r :: requests tr := rfl

theorem requests_eq_nil {tr : Trace} (h : ∀ r, .request r ∉ tr) : requests tr = [] := by
  refine filterMap_eq_nil_iff.2 fun e he => ?_
  cases e with
  | request r => exact absurd he (h r)
  | answered | checked => rfl

/-- What a trace of a fetch can be. -/
structure Guarded (w : World) (tr : Trace) : Prop where
  /-- The first request and ten hops. -/
  bounded : (requests tr).length ≤ 11
  /-- A hop is taken right after the guard has passed it. -/
  checked : ∀ pre r post, tr = pre ++ .request r :: post → pre ≠ [] →
    ∃ pre', pre = pre' ++ [.checked r.url true] ∧ hopOk w pre' r.url = true
  https : (requests tr).Pairwise fun a b => Https a.url → Https b.url
  seeOther : ∀ pre resp post, tr = pre ++ .answered resp :: post → resp.status = 303 →
    ∀ r ∈ requests post, r.verb = ascii "GET" ∧ r.body = none

theorem Guarded.nil (w : World) : Guarded w [] where
  bounded := Nat.zero_le 11
  checked _ _ _ h := absurd h.symm (append_ne_nil_of_right_ne_nil _ (cons_ne_nil _ _))
  https := .nil
  seeOther _ _ _ h := absurd h.symm (append_ne_nil_of_right_ne_nil _ (cons_ne_nil _ _))

/-- What holds at the top of the loop. -/
structure Chain (w : World) (st : FetchState) : Prop where
  guarded : Guarded w st.trace
  count : (requests st.trace).length = st.hops
  checked : st.trace ≠ [] →
    ∃ pre, st.trace = pre ++ [.checked st.current true] ∧ hopOk w pre st.current = true
  https : ∀ r ∈ requests st.trace, Https r.url → Https st.current
  seeOther : ∀ resp, .answered resp ∈ st.trace → resp.status = 303 →
    st.verb = ascii "GET" ∧ st.body = none

/-- Where an event of a longer trace is: in the old part, or after it. -/
theorem split_append {A B pre post : Trace} {e : Event} (h : A ++ B = pre ++ e :: post) :
    (∃ c, A = pre ++ e :: c ∧ post = c ++ B) ∨ ∃ c, pre = A ++ c ∧ B = c ++ e :: post := by
  obtain ⟨c, hpre, hB⟩ | ⟨c, hA, hpost⟩ := append_eq_append_iff.1 h
  · exact .inr ⟨c, hpre, hB⟩
  · obtain _ | ⟨e', c⟩ := c
    · refine .inr ⟨[], ?_, ?_⟩
      · rw [hA, append_nil, append_nil]
      · exact hpost.symm
    · cases hpost
      exact .inl ⟨c, hA, rfl⟩

section Run

variable {w : World} {deadline : Int} {st st' : FetchState}

/-- A round's request keeps the trace guarded, whatever but requests comes after it. -/
theorem Chain.send (h : Chain w st) (hhops : st.hops ≤ maxHops) {seg : Trace}
    (hseg : ∀ r, .request r ∉ seg) : Guarded w (st.trace ++ .request st.toRequest :: seg) where
  bounded := by
    have hcount := h.count
    rw [requests_append, requests_cons, requests_eq_nil hseg, length_append]
    simp only [length_singleton, maxHops] at hhops ⊢
    omega
  checked pre r post heq hne := by
    obtain ⟨c, hold, -⟩ | ⟨c, rfl, hnew⟩ := split_append heq
    · exact h.guarded.checked pre r c hold hne
    · obtain _ | ⟨e, c⟩ := c
      · cases hnew
        rw [append_nil] at hne ⊢
        exact h.checked hne
      · cases hnew
        exact absurd (mem_append_right c mem_cons_self) (hseg r)
  https := by
    rw [requests_append, requests_cons, requests_eq_nil hseg]
    refine pairwise_append.2 ⟨h.guarded.https, pairwise_singleton _ _, ?_⟩
    intro a ha b hb
    obtain rfl := mem_singleton.1 hb
    exact h.https a ha
  seeOther pre resp post heq h303 := by
    obtain ⟨c, hold, rfl⟩ | ⟨c, rfl, hnew⟩ := split_append heq
    · rw [requests_append, requests_cons, requests_eq_nil hseg]
      intro r hr
      obtain hr | hr := mem_append.1 hr
      · exact h.guarded.seeOther pre resp c hold h303 r hr
      · obtain rfl := mem_singleton.1 hr
        exact h.seeOther resp (by rw [hold]; simp) h303
    · obtain _ | ⟨e, c⟩ := c
      · cases hnew
      · cases hnew
        rw [requests_eq_nil fun r hr => hseg r (by simp [hr])]
        exact nofun

theorem Chain.start (url verb : Bytes) (body : Option Bytes) :
    Chain w { current := url, verb, body } where
  guarded := .nil w
  count := rfl
  checked h := absurd rfl h
  https := nofun
  seeOther := nofun

/-- A hop keeps what holds at the top of the loop. -/
theorem Chain.follow (h : Chain w st) {resp : Response} (hf : Followed w st resp st') :
    Chain w st' where
  guarded := by
    rw [hf.trace]
    exact h.send hf.hops (by simp)
  count := by
    have hcount := h.count
    rw [hf.trace, hf.next, ← hcount]
    simp [requests]
  checked _ := ⟨st.trace ++ [.request st.toRequest, .answered resp], by rw [hf.trace]; simp, hf.ok⟩
  https r hr hurl := by
    rw [hf.trace] at hr
    have hr' : r ∈ requests st.trace ∨ r = st.toRequest := by simpa [requests] using hr
    obtain hold | rfl := hr'
    · exact hf.https (h.https r hold hurl)
    · exact hf.https hurl
  seeOther resp' hmem h303 := by
    rw [hf.trace] at hmem
    have hmem' : .answered resp' ∈ st.trace ∨ resp' = resp := by simpa using hmem
    rw [hf.verb, hf.body]
    by_cases hstatus : resp.status = 303
    · simp [hstatus]
    · rw [if_neg hstatus, if_neg hstatus]
      obtain hold | rfl := hmem'
      · exact h.seeOther resp' hold h303
      · exact absurd h303 hstatus

theorem Chain.ended (h : Chain w st) {tr : Trace} (hend : Ended st tr) : Guarded w tr := by
  obtain rfl | ⟨hhops, seg, rfl, hseg⟩ := hend
  · exact h.guarded
  · exact h.send hhops hseg

end Run

/-- **Every fetch is guarded**, whatever the servers answer, the clock shows and the hop check
says. -/
theorem fetch_guarded (w : World) (method url : Bytes) (body : Option Bytes) (timeoutMs : Int) :
    Guarded w (fetch w method url body timeoutMs).2 := by
  refine (fetchLoop w _).run_spec (I := Chain w) (Q := fun o => Guarded w o.2) ?_ ?_
    (.start url method body)
  · intro st st' h hstep
    obtain ⟨resp, hf⟩ := fetchStep_eq_inl hstep
    exact h.follow hf
  · intro st o h hstep
    exact h.ended (fetchStep_eq_inr hstep)

end Agnosai.GuardedFetch
