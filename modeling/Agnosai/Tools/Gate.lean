import Agnosai.Server.Ssrf.Definitions
import Agnosai.Support.KeyMap
import Agnosai.Support.Machine
import Agnosai.ToolLoop.Definitions

/-!
# Tools — registries and gates

A consumer's gate stands between a model and its tools. It is set on a registry
(`tools/registry.cyr`), copied from there to every tool (`tools/native.cyr`), and from the tool to
the input of a call as the call is bound; what a tool may fetch is asked of the input
(`tool_call.cyr`).

Registries, tools and gates are addresses. What a gate's callbacks answer, what a tool does and
which URLs it asks about may depend on all that has happened (`World`). The invariant is `Kept`:
the gate of a registry is the gate of its tools, and no tool is in two registries.
-/

namespace Agnosai.Tools

open Function List

open ToolLoop (ToolOutput outputRefused)

/-! ### Calls -/

/-- `ToolInput`: the parameters, and what a call binds to them. -/
structure Input where
  parameters : Json
  task : Option Nat := none
  tool : Option Nat := none
  gate : Option Nat := none

/-- `agnosai_tool_input_bind`. -/
def Input.bind (i : Input) (t : Nat) (task gate : Option Nat) : Input :=
  { i with task, tool := some t, gate }

/-- What happens in a call. -/
inductive Event where
  /-- The gate's `call_fp` was asked: the reason to refuse, or 0. -/
  | asked (gate : Nat) (input : Input) (reason : Option String)
  /-- The tool's execute function was called. -/
  | executed (tool : Nat) (input : Option Input)
  /-- A URL was asked about: what the gate's `url_fp` said, where it was asked, and the answer. -/
  | url (input : Option Input) (url : Bytes) (verdict : Option Int) (ok : Bool)

/-- What the engine does not decide. -/
structure World where
  client : Ssrf.Client
  name : Nat → String
  /-- Which callbacks a gate has. -/
  hasCall : Nat → Bool
  hasUrl : Nat → Bool
  call : List Event → Nat → Input → Option String
  url : List Event → Nat → Input → Bytes → Int
  execute : List Event → Nat → Option Input → Option ToolOutput
  /-- The URLs a tool asks about as it runs. -/
  asks : List Event → Nat → Option Input → List Bytes

/-- `AGNOSAI_GATE_PASS`. -/
def gatePass : Int := 0

/-- `AGNOSAI_GATE_ADMIT`. -/
def gateAdmit : Int := 1

variable (w : World)

/-- `agnosai_tool_url_ok` once the gate has answered. Any other verdict refuses. -/
def onVerdict (u : Bytes) (verdict : Int) : Bool :=
  if verdict = gatePass then Ssrf.isSafeUrl w.client u
  else if verdict = gateAdmit then Ssrf.urlIsAdmissible w.client u
  else false

variable (trace : List Event)

/-- `agnosai_tool_url_ok`, with what the gate said. -/
def urlOk (input : Option Input) (u : Bytes) : Option Int × Bool :=
  match input with
  | none => (none, Ssrf.isSafeUrl w.client u)
  | some i =>
    match i.gate with
    | none => (none, Ssrf.isSafeUrl w.client u)
    | some g =>
      if w.hasUrl g then (some (w.url trace g i u), onVerdict w u (w.url trace g i u))
      else (none, Ssrf.isSafeUrl w.client u)

/-- The URLs a tool asks about, in turn. -/
def checks (input : Option Input) : List Event → List Bytes → List Event
  | _, [] => []
  | trace, u :: us =>
    let e := .url input u (urlOk w trace input u).1 (urlOk w trace input u).2
    e :: checks input (trace ++ [e]) us

/-- A tool that reported success did its work. -/
def committed (out : ToolOutput) : ToolOutput :=
  if out.success then { out with effect := .committed } else out

/-- The call of the tool's execute function. -/
def invoke (t : Nat) (input : Option Input) :
    Option ToolOutput × List Event :=
  let called := trace ++ [.executed t input]
  let asked := checks w input called (w.asks called t input)
  ((w.execute (called ++ asked) t input).map committed, .executed t input :: asked)

/-- `_agnosai_tool_refused`. -/
def refused (reason : String) : ToolOutput := outputRefused ("tool call refused: " ++ reason)

/-- `_agnosai_tool_run`, of a tool that is held to `gate`: the output, and what happened. -/
def toolRun (gate : Option Nat) (t : Nat) (input : Option Input)
    (task : Option Nat) : Option ToolOutput × List Event :=
  match gate, input.map (·.bind t task gate) with
  | none, bound => invoke w trace t bound
  -- Fail closed: a gate cannot judge a call it cannot see.
  | some _, none => (some (refused "no input to judge"), [])
  | some g, some i =>
    if w.hasCall g then
      match w.call trace g i with
      | some reason => (some (refused reason), [.asked g i (some reason)])
      | none =>
        let r := invoke w (trace ++ [.asked g i none]) t (some i)
        (r.1, .asked g i none :: r.2)
    else invoke w trace t (some i)

/-! ### Registries -/

/-- `ToolRegistry`. -/
structure Registry where
  tools : KeyMap String Nat := .empty
  gate : Option Nat := none

def Registry.Holds (r : Registry) (t : Nat) : Prop := ∃ name, r.tools.lookup name = some t

/-- The registries, the gate of every tool, and what has happened. -/
structure State where
  registries : Nat → Registry := fun _ => {}
  gates : Nat → Option Nat := fun _ => none
  trace : List Event := []

/-- `agnosai_tool_with_gate`. -/
def withGate (gates : Nat → Option Nat) (t : Nat) (gate : Option Nat) : Nat → Option Nat :=
  update gates t gate

/-- The loop of `agnosai_tool_registry_set_gate`. -/
def holdAll (tools : KeyMap String Nat) (gate : Option Nat) (gates : Nat → Option Nat) :
    Nat → Option Nat :=
  tools.keys.foldl (fun gates name =>
    match tools.lookup name with
    | some t => withGate gates t gate
    | none => gates) gates

variable (s : State)

/-- `agnosai_tool_registry_get`. -/
def State.get (r : Nat) (name : String) : Option Nat :=
  (s.registries r).tools.lookup name

inductive Action where
  | register (r t : Nat)
  | remove (r : Nat) (name : String)
  | setGate (r : Nat) (gate : Option Nat)
  | withGate (t : Nat) (gate : Option Nat)
  | execute (t : Nat) (input : Option Input) (task : Option Nat)

/-- `agnosai_tool_registry_register`. -/
def register (r t : Nat) : State :=
  let reg := s.registries r
  { s with
    registries := update s.registries r { reg with tools := reg.tools.set (w.name t) t }
    gates := if reg.gate ≠ none then withGate s.gates t reg.gate else s.gates }

/-- `agnosai_tool_registry_remove`. -/
def remove (r : Nat) (name : String) : State :=
  let reg := s.registries r
  { s with registries := update s.registries r { reg with tools := reg.tools.erase name } }

/-- `agnosai_tool_registry_set_gate`. -/
def setGate (r : Nat) (gate : Option Nat) : State :=
  let reg := s.registries r
  { s with
    registries := update s.registries r { reg with gate }
    gates := holdAll reg.tools gate s.gates }

/-- `agnosai_tool_execute_for`, telemetry apart. -/
def execute (t : Nat) (input : Option Input) (task : Option Nat) : State :=
  { s with trace := s.trace ++ (toolRun w s.trace (s.gates t) t input task).2 }

/-- Every operation is possible in every state. -/
def step : Action → State
  | .register r t => register w s r t
  | .remove r name => remove s r name
  | .setGate r gate => setGate s r gate
  | .withGate t gate => { s with gates := withGate s.gates t gate }
  | .execute t input task => execute w s t input task

def machine : Machine State Action where
  step s a := some (step w s a)

/-- No tool comes to be in two registries, and a tool's own gate is set only while it is in none. -/
def Apart : Action → Prop
  | .register r t => ∀ r', r' ≠ r → ¬ (s.registries r').Holds t
  | .withGate t _ => ∀ r, ¬ (s.registries r).Holds t
  | _ => True

/-- The gate the history last set on a registry, 0 being none. -/
def lastGate (r : Nat) (as : List Action) : Option Nat :=
  as.foldl (fun gate a =>
    match a with
    | .setGate r' gate' => if r' = r then gate' else gate
    | _ => gate) none

/-- **A tool that is held to a gate.** Its execute function is called only for an input, bound to
the tool, the task and the gate, that the gate's callback, if it has one, answered 0 on; a call
without input is refused and had no effect; and a URL is accepted only under the gate's verdict and
the guard that goes with it. -/
structure Held (s : State) (g t : Nat) : Prop where
  gate : s.gates t = some g
  asked : ∀ input task t' b, .executed t' b ∈ (toolRun w s.trace (s.gates t) t input task).2 →
    t' = t ∧ ∃ i, input = some i ∧ b = some (i.bind t task (some g)) ∧
      (w.hasCall g = false ∨
        .asked g (i.bind t task (some g)) none ∈ (toolRun w s.trace (s.gates t) t input task).2)
  blind : ∀ task, ∃ out, toolRun w s.trace (s.gates t) t none task = (some out, []) ∧
    out.success = false ∧ out.effect = .none
  url : ∀ input task b u v,
    .url b u v true ∈ (toolRun w s.trace (s.gates t) t input task).2 →
    ((v = none ∧ w.hasUrl g = false ∨ v = some gatePass) ∧ Ssrf.isSafeUrl w.client u = true) ∨
      (v = some gateAdmit ∧ Ssrf.urlIsAdmissible w.client u = true)

/-! ### What a call does -/

section Calls

variable {w : World} {trace : List Event} {input : Option Input} {task : Option Nat} {g t : Nat}
  {e : Event}

theorem mem_checks {us : List Bytes} (h : e ∈ checks w input trace us) :
    ∃ trace' u, e = .url input u (urlOk w trace' input u).1 (urlOk w trace' input u).2 := by
  induction us generalizing trace with
  | nil => cases h
  | cons u us ih =>
    rcases mem_cons.1 h with rfl | h
    · exact ⟨trace, u, rfl⟩
    · exact ih h

theorem mem_invoke (h : e ∈ (invoke w trace t input).2) :
    e = .executed t input ∨
      ∃ trace' u, e = .url input u (urlOk w trace' input u).1 (urlOk w trace' input u).2 :=
  (mem_cons.1 h).imp_right mem_checks

/-- A URL is accepted for an input bound to `g` under the verdict of `g`. -/
theorem urlOk_gated {i : Input} {u : Bytes} (hi : i.gate = some g)
    (hok : (urlOk w trace (some i) u).2 = true) :
    (((urlOk w trace (some i) u).1 = none ∧ w.hasUrl g = false ∨
        (urlOk w trace (some i) u).1 = some gatePass) ∧ Ssrf.isSafeUrl w.client u = true) ∨
      ((urlOk w trace (some i) u).1 = some gateAdmit ∧
        Ssrf.urlIsAdmissible w.client u = true) := by
  simp only [urlOk, hi] at hok ⊢
  by_cases hurl : w.hasUrl g = true
  · rw [if_pos hurl] at hok ⊢
    unfold onVerdict at hok
    split at hok
    next hpass => exact .inl ⟨.inr (congrArg some hpass), hok⟩
    next =>
      split at hok
      next hadmit => exact .inr ⟨congrArg some hadmit, hok⟩
      next => cases hok
  · rw [if_neg hurl] at hok ⊢
    exact .inl ⟨.inl ⟨rfl, Bool.eq_false_iff.2 hurl⟩, hok⟩

/-- What can happen in a call of a tool that is held to `g`. -/
theorem mem_toolRun (h : e ∈ (toolRun w trace (some g) t input task).2) :
    ∃ i, input = some i ∧
      ((∃ reason, e = .asked g (i.bind t task (some g)) reason) ∨
        ((w.hasCall g = false ∨
            .asked g (i.bind t task (some g)) none ∈ (toolRun w trace (some g) t input task).2) ∧
          ∃ trace', e ∈ (invoke w trace' t (some (i.bind t task (some g)))).2)) := by
  cases input with
  | none => cases h
  | some i =>
    refine ⟨i, rfl, ?_⟩
    simp only [toolRun, Option.map_some] at h ⊢
    by_cases hcall : w.hasCall g = true
    · rw [if_pos hcall] at h ⊢
      cases hreason : w.call trace g (i.bind t task (some g)) with
      | some reason =>
        rw [hreason] at h
        exact .inl ⟨some reason, mem_singleton.1 h⟩
      | none =>
        rw [hreason] at h
        rcases mem_cons.1 h with rfl | h
        · exact .inl ⟨none, rfl⟩
        · exact .inr ⟨.inr mem_cons_self, _, h⟩
    · rw [if_neg hcall] at h
      exact .inr ⟨.inl (Bool.eq_false_iff.2 hcall), trace, h⟩

/-- **The calls of a tool**: all of it follows from the gate the tool carries. -/
theorem held_of_gate {s : State} (hgate : s.gates t = some g) : Held w s g t where
  gate := hgate
  asked := by
    intro input task t' b h
    rw [hgate] at h ⊢
    obtain ⟨i, rfl, ⟨reason, he⟩ | ⟨hasked, trace', h⟩⟩ := mem_toolRun h
    · cases he
    · rcases mem_invoke h with he | ⟨_, _, he⟩
      · cases he
        exact ⟨rfl, i, rfl, rfl, hasked⟩
      · cases he
  blind := by
    intro task
    rw [hgate]
    exact ⟨refused "no input to judge", rfl, rfl, rfl⟩
  url := by
    intro input task b u v h
    rw [hgate] at h
    obtain ⟨i, rfl, ⟨reason, he⟩ | ⟨-, trace', h⟩⟩ := mem_toolRun h
    · cases he
    · rcases mem_invoke h with he | ⟨trace'', u', he⟩
      · cases he
      · injection he with hb hu hv hok
        subst hu hv
        exact urlOk_gated rfl hok.symm

end Calls

/-! ### The gates over a history -/

/-- The gate of a registry is the gate of its tools, and no tool is in two registries. -/
structure Kept (as : List Action) (s : State) : Prop where
  last : ∀ r, (s.registries r).gate = lastGate r as
  gates : ∀ r g t, (s.registries r).gate = some g → (s.registries r).Holds t → s.gates t = some g
  apart : ∀ r r' t, (s.registries r).Holds t → (s.registries r').Holds t → r = r'

variable {reg : Registry} {t : Nat}

section History

variable {w : World} {as : List Action} {s : State}

theorem lastGate_snoc (r : Nat) (a : Action) :
    lastGate r (as ++ [a]) =
      match a with
      | .setGate r' gate => if r' = r then gate else lastGate r as
      | _ => lastGate r as := by
  rw [lastGate, foldl_append]
  rfl

/-- One turn of the loop over the tools. -/
theorem holdOne_apply (tools : KeyMap String Nat) (gate : Option Nat) (gates : Nat → Option Nat)
    (name : String) :
    (match tools.lookup name with
      | some t' => withGate gates t' gate
      | none => gates) t = if tools.lookup name = some t then gate else gates t := by
  cases tools.lookup name with
  | none => rfl
  | some t' =>
    by_cases ht : t = t'
    · subst ht
      rw [if_pos rfl]
      exact update_self t gate gates
    · rw [if_neg fun h => ht (Option.some.inj h).symm]
      exact update_of_ne ht gate gates

/-- The loop leaves a tool the registry does not hold as it is. -/
theorem holdAll_of_not_holds (gate : Option Nat)
    (gates : Nat → Option Nat) (h : ¬ reg.Holds t) : holdAll reg.tools gate gates t = gates t := by
  unfold holdAll
  generalize reg.tools.keys = names
  induction names generalizing gates with
  | nil => rfl
  | cons name names ih =>
    rw [foldl_cons, ih, holdOne_apply, if_neg fun hname => h ⟨name, hname⟩]

/-- The loop gives the gate to every tool the registry holds. -/
theorem holdAll_of_holds (gate : Option Nat)
    (gates : Nat → Option Nat) (h : reg.Holds t) : holdAll reg.tools gate gates t = gate := by
  obtain ⟨name, hname⟩ := h
  have hmem : name ∈ reg.tools.keys := mem_map.2 ⟨_, KeyMap.lookup_eq_some.1 hname, rfl⟩
  unfold holdAll
  -- A tool that has the gate keeps it, so it is enough that the loop comes to its name.
  have hstays : ∀ (names : List String) (gates : Nat → Option Nat), gates t = gate →
      names.foldl (fun gates name =>
        match reg.tools.lookup name with
        | some t => withGate gates t gate
        | none => gates) gates t = gate := by
    intro names
    induction names with
    | nil => exact fun _ hgates => hgates
    | cons n names ih =>
      intro gates hgates
      refine ih _ ((holdOne_apply _ _ _ _).trans ?_)
      rw [hgates, ite_self]
  generalize reg.tools.keys = names at hmem
  induction names generalizing gates with
  | nil => cases hmem
  | cons n names ih =>
    rcases mem_cons.1 hmem with rfl | hmem
    · exact hstays names _ ((holdOne_apply _ _ _ _).trans (if_pos hname))
    · exact ih _ hmem

theorem holds_set {name : String} {t' : Nat}
    (h : Registry.Holds { reg with tools := reg.tools.set name t } t') : t' = t ∨ reg.Holds t' := by
  obtain ⟨n, hn⟩ := h
  rw [KeyMap.lookup_set] at hn
  split at hn
  · exact .inl (Option.some.inj hn).symm
  · exact .inr ⟨n, hn⟩

theorem holds_erase {name : String}
    (h : Registry.Holds { reg with tools := reg.tools.erase name } t) : reg.Holds t := by
  obtain ⟨n, hn⟩ := h
  rw [KeyMap.lookup_erase] at hn
  split at hn
  · cases hn
  · exact ⟨n, hn⟩

theorem kept_start : Kept [] {} where
  last := fun _ => rfl
  gates := by
    intro r g t _ hold
    obtain ⟨name, hname⟩ := hold
    cases hname
  apart := by
    intro r r' t hold
    obtain ⟨name, hname⟩ := hold
    cases hname

/-- What leaves the gates alone, keeps every registry's gate and adds no tool keeps the
invariant. -/
theorem Kept.of_sub {s' : State} {a : Action} (h : Kept as s)
    (hlast : ∀ r, lastGate r (as ++ [a]) = lastGate r as) (hgates : s'.gates = s.gates)
    (hgate : ∀ r, (s'.registries r).gate = (s.registries r).gate)
    (hsub : ∀ r t, (s'.registries r).Holds t → (s.registries r).Holds t) :
    Kept (as ++ [a]) s' where
  last := fun r => by rw [hgate, h.last, hlast]
  gates := fun r g t hg hold => by
    rw [hgates]
    exact h.gates r g t (hgate r ▸ hg) (hsub r t hold)
  apart := fun r r' t hold hold' => h.apart r r' t (hsub r t hold) (hsub r' t hold')

theorem remove_registries (r r' : Nat) (name : String) :
    (remove s r name).registries r' =
      if r' = r then { s.registries r with tools := (s.registries r).tools.erase name }
      else s.registries r' :=
  update_apply _ _ _ _

theorem setGate_registries (r r' : Nat) (gate : Option Nat) :
    (setGate s r gate).registries r' =
      if r' = r then { s.registries r with gate } else s.registries r' :=
  update_apply _ _ _ _

theorem register_registries (r r' t : Nat) :
    (register w s r t).registries r' =
      if r' = r then { s.registries r with tools := (s.registries r).tools.set (w.name t) t }
      else s.registries r' :=
  update_apply _ _ _ _

theorem Kept.remove (h : Kept as s) (r : Nat) (name : String) :
    Kept (as ++ [.remove r name]) (Tools.remove s r name) := by
  refine h.of_sub (fun _ => lastGate_snoc _ _) rfl (fun r' => ?_) fun r' t hold => ?_
  · rw [remove_registries]
    split
    next hr => rw [hr]
    next => rfl
  · rw [remove_registries] at hold
    split at hold
    next hr => exact hr ▸ holds_erase hold
    next => exact hold

/-- A new gate reaches the tools it is for. -/
theorem Kept.setGate (h : Kept as s) (r : Nat) (gate : Option Nat) :
    Kept (as ++ [.setGate r gate]) (Tools.setGate s r gate) := by
  have hholds : ∀ r' t, ((Tools.setGate s r gate).registries r').Holds t →
      (s.registries r').Holds t := by
    intro r' t hold
    rw [setGate_registries] at hold
    split at hold
    next hr => exact hr ▸ hold
    next => exact hold
  refine ⟨fun r' => ?_, fun r' g t hg hold => ?_, fun r₁ r₂ t h₁ h₂ =>
    h.apart r₁ r₂ t (hholds r₁ t h₁) (hholds r₂ t h₂)⟩
  · rw [lastGate_snoc, setGate_registries]
    by_cases hr : r' = r
    · rw [if_pos hr]
      exact (if_pos hr.symm).symm
    · rw [if_neg hr, h.last]
      exact (if_neg (Ne.symm hr)).symm
  · have hold' := hholds r' t hold
    rw [setGate_registries] at hg
    show holdAll (s.registries r).tools gate s.gates t = some g
    by_cases hr : r' = r
    · rw [if_pos hr] at hg
      rw [holdAll_of_holds gate s.gates (hr ▸ hold')]
      exact hg
    · -- A tool of another registry is not one of this one.
      rw [if_neg hr] at hg
      rw [holdAll_of_not_holds gate s.gates fun hold₀ => hr (h.apart r' r t hold' hold₀)]
      exact h.gates r' g t hg hold'

/-- A new tool takes its registry's gate. -/
theorem Kept.register (h : Kept as s) (r t : Nat)
    (hapart : ∀ r', r' ≠ r → ¬ (s.registries r').Holds t) :
    Kept (as ++ [.register r t]) (Tools.register w s r t) := by
  have hgate : ∀ r', ((Tools.register w s r t).registries r').gate = (s.registries r').gate := by
    intro r'
    rw [register_registries]
    split
    next hr => rw [hr]
    next => rfl
  have hholds : ∀ r' t', ((Tools.register w s r t).registries r').Holds t' →
      (r' = r ∧ t' = t) ∨ (s.registries r').Holds t' := by
    intro r' t' hold
    rw [register_registries] at hold
    split at hold
    next hr => exact (holds_set hold).imp (fun ht => ⟨hr, ht⟩) fun hold => hr ▸ hold
    next => exact .inr hold
  have hin : ∀ r', ((Tools.register w s r t).registries r').Holds t → r' = r := by
    intro r' hold
    rcases hholds r' t hold with ⟨hr, -⟩ | hold
    · exact hr
    · exact Decidable.byContradiction fun hr => hapart r' hr hold
  have hold_of_ne : ∀ r' t', t' ≠ t → ((Tools.register w s r t).registries r').Holds t' →
      (s.registries r').Holds t' := fun r' t' ht hold =>
    (hholds r' t' hold).resolve_left fun hrt => ht hrt.2
  have hgates : ∀ t', t' ≠ t → (Tools.register w s r t).gates t' = s.gates t' := by
    intro t' ht
    unfold Tools.register
    dsimp only
    split
    · exact update_of_ne ht _ _
    · rfl
  have hself : ∀ g, (s.registries r).gate = some g → (Tools.register w s r t).gates t = some g := by
    intro g hg
    unfold Tools.register
    dsimp only
    rw [hg, if_pos (Option.some_ne_none g)]
    exact update_self _ _ _
  refine ⟨fun r' => ?_, fun r' g t' hg hold => ?_, fun r₁ r₂ t' h₁ h₂ => ?_⟩
  · rw [hgate, h.last, lastGate_snoc]
  · rw [hgate] at hg
    by_cases ht : t' = t
    · subst ht
      obtain rfl := hin r' hold
      exact hself g hg
    · rw [hgates t' ht]
      exact h.gates r' g t' hg (hold_of_ne r' t' ht hold)
  · by_cases ht : t' = t
    · subst ht
      rw [hin r₁ h₁, hin r₂ h₂]
    · exact h.apart r₁ r₂ t' (hold_of_ne r₁ t' ht h₁) (hold_of_ne r₂ t' ht h₂)

/-- **The step.** -/
theorem Kept.step (h : Kept as s) (a : Action) (ha : Apart s a) :
    Kept (as ++ [a]) (Tools.step w s a) := by
  cases a with
  | register r t => exact h.register r t ha
  | remove r name => exact h.remove r name
  | setGate r gate => exact h.setGate r gate
  | withGate t =>
    refine ⟨fun r => ?_, fun r g t' hg hold => ?_, h.apart⟩
    · rw [lastGate_snoc]
      exact h.last r
    · have ht : t' ≠ t := fun ht => ha r (ht ▸ hold)
      exact (update_of_ne ht _ _).trans (h.gates r g t' hg hold)
  | execute =>
    exact h.of_sub (fun _ => lastGate_snoc _ _) rfl (fun _ => rfl) fun _ _ hold => hold

/-- **No call escapes a gate.** In every history of registrations, removals, gates set and tools
executed, with no tool in two registries and no tool's own gate set (`tool_with_gate`) while a
registry holds it: a tool that is looked up in a registry whose last gate set is `g` is held to
`g`. -/
theorem gates_hold {r g t : Nat} {name : String} (hapart : (machine w).Along Apart {} as)
    (hrun : (machine w).exec {} as = some s) (hlast : lastGate r as = some g)
    (hget : s.get r name = some t) : Held w s g t := by
  have hkept : Kept as s := by
    refine (machine w).exec_rule kept_start ?_ hapart hrun
    intro as s a s' h ha hstep
    cases hstep
    exact h.step a ha
  exact held_of_gate (hkept.gates r g t ((hkept.last r).trans hlast) ⟨name, hget⟩)

end History

/-- A world with one tool, called `probe`, and a gate that lets every call through and has a say on
URLs. -/
def probeWorld : World where
  client := { urlHost := fun url => some url, netParseIpv4 := fun _ => none }
  name := fun _ => "probe"
  hasCall := fun _ => true
  hasUrl := fun _ => true
  call := fun _ _ _ => none
  url := fun _ _ _ _ => gatePass
  execute := fun _ _ _ => none
  asks := fun _ _ _ => []

/-- A tool registered under one gate is held to the next. -/
theorem gates_hold_reset :
    ∃ s, (machine probeWorld).exec {} [.setGate 0 (some 1), .register 0 7, .setGate 0 (some 2)] =
        some s ∧ s.get 0 "probe" = some 7 ∧ Held probeWorld s 2 7 := by
  have hlast : lastGate 0 [.setGate 0 (some 1), .register 0 7, .setGate 0 (some 2)] = some 2 := rfl
  refine ⟨_, rfl, rfl, gates_hold ?_ rfl hlast (show State.get _ 0 "probe" = some 7 from rfl)⟩
  refine ⟨trivial, ?_⟩
  rintro s₁ ⟨⟩
  refine ⟨?_, ?_⟩
  · rintro r' hr ⟨name, hname⟩
    rw [step, setGate_registries, if_neg hr] at hname
    cases hname
  · rintro s₂ ⟨⟩
    exact ⟨trivial, fun _ _ => trivial⟩

end Agnosai.Tools
