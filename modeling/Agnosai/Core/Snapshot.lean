import Agnosai.Core.Agent
import Agnosai.Core.Crew
import Agnosai.Core.Uuid
import Agnosai.Support.KeyMap

/-!
# Core — Snapshot

Crew states with all they hold, after `core/crew.cyr` and `core/task.cyr`, and the functions
between a state and its JSON value.

A result or a profile that lacks a required field is dropped by the state's reader; an unknown
spelling of a status reads as pending; a field with a default reads as the default.
-/

namespace Agnosai

open Json List

/-! ### Spellings -/

/-- `agnosai_task_status_to_wire`. -/
def TaskStatus.toWire : TaskStatus → String
  | .queued => "queued"
  | .running => "running"
  | .completed => "completed"
  | .failed => "failed"
  | .cancelled => "cancelled"
  | .pending => "pending"

/-- `agnosai_task_status_from_wire`. Unknown spellings read as pending. -/
def TaskStatus.fromWire (s : String) : TaskStatus :=
  if s = "queued" then .queued
  else if s = "running" then .running
  else if s = "completed" then .completed
  else if s = "failed" then .failed
  else if s = "cancelled" then .cancelled
  else .pending

/-- `agnosai_crew_status_to_wire`. -/
def CrewStatus.toWire : CrewStatus → String
  | .running => "running"
  | .completed => "completed"
  | .failed => "failed"
  | .cancelled => "cancelled"
  | .pending => "pending"

/-- `agnosai_crew_status_from_wire`. Unknown spellings read as pending. -/
def CrewStatus.fromWire (s : String) : CrewStatus :=
  if s = "running" then .running
  else if s = "completed" then .completed
  else if s = "failed" then .failed
  else if s = "cancelled" then .cancelled
  else .pending

theorem TaskStatus.fromWire_toWire (s : TaskStatus) : fromWire s.toWire = s := by
  cases s <;> rfl

theorem CrewStatus.fromWire_toWire (s : CrewStatus) : fromWire s.toWire = s := by
  cases s <;> rfl

/-- A spelling is the one its status is written with exactly when it is one of the five. -/
theorem CrewStatus.toWire_fromWire_iff {s : String} :
    (fromWire s).toWire = s ↔ ∃ st : CrewStatus, st.toWire = s := by
  constructor
  · exact fun h => ⟨fromWire s, h⟩
  · rintro ⟨st, rfl⟩
    rw [fromWire_toWire]

namespace Snapshot

/-! ### Maps -/

/-- The conversion between micro-USD and a number of dollars: `agnosai_micro_usd_to_f64` and
`agnosai_f64_to_micro_usd`. -/
structure Usd where
  toF64 : Int64 → String
  ofF64 : String → Int64

/-- Rebuild a map from the fields of an object, each value read by `f` and left out where there is
none. A value that is missing or no object is an empty map. -/
def mapFrom {β : Type} (f : Json → Option β) : Option Json → KeyMap String β
  | some (.obj fields) =>
    fields.foldl (fun m e =>
      match f e.2 with
      | some x => m.set e.1 x
      | none => m) .empty
  | _ => .empty

/-- The fields of a map's object. -/
def mapTo {β : Type} (g : β → Json) (m : KeyMap String β) : Json :=
  .obj (m.entries.map fun e => (e.1, g e.2))

variable (usd : Usd)

/-- An amount in micro-USD from a number of dollars. -/
def microUsd : Json → Int64
  | .float f => usd.ofF64 f
  | .int n => n * 1000000
  | _ => 0

/-- `_agnosai_map_to_value`. -/
def mapToValue (m : KeyMap String Json) : Json := mapTo id m

/-- `_agnosai_map_from_value`. -/
def mapFromValue : Option Json → KeyMap String Json := mapFrom some

/-- `_agnosai_int_map_to_value`. -/
def intMapToValue (m : KeyMap String Int64) : Json := mapTo .int m

/-- `_agnosai_int_map_from_value`. -/
def intMapFromValue : Option Json → KeyMap String Int64 := mapFrom int?

/-- `_agnosai_cost_map_to_value`. -/
def costMapToValue (m : KeyMap String Int64) : Json := mapTo (fun c => .float (usd.toF64 c)) m

/-- `_agnosai_cost_map_from_value`. -/
def costMapFromValue : Option Json → KeyMap String Int64 := mapFrom fun v => some (microUsd usd v)

/-- **A map reads back** where its values do. -/
theorem mapFrom_mapTo {β : Type} {f : Json → Option β} {g : β → Json} {m : KeyMap String β}
    (h : ∀ e ∈ m.entries, f (g e.2) = some e.2) : mapFrom f (some (mapTo g m)) = m := by
  have hfold : ∀ (l : List (String × β)) (m₀ : KeyMap String β), (∀ e ∈ l, f (g e.2) = some e.2) →
      (l.map fun e => (e.1, g e.2)).foldl (fun m e =>
        match f e.2 with
        | some x => m.set e.1 x
        | none => m) m₀ = l.foldl (fun m e => m.set e.1 e.2) m₀ := by
    intro l
    induction l with
    | nil => exact fun _ _ => rfl
    | cons e l ih =>
      intro m₀ hl
      obtain ⟨he, hl⟩ := forall_mem_cons.1 hl
      rw [map_cons, foldl_cons, foldl_cons, ih _ hl]
      simp only [he]
  rw [mapTo, mapFrom, hfold m.entries .empty h, m.foldl_set_entries]

/-! ### Results -/

/-- `AgnosaiTaskResult`. -/
structure TaskResult where
  taskId : String
  output : String
  status : TaskStatus
  metadata : KeyMap String Json

/-- `agnosai_task_result_to_value`. -/
def TaskResult.toValue (r : TaskResult) : Json :=
  .obj
    [("task_id", .str r.taskId),
      ("output", .str r.output),
      ("status", .str r.status.toWire),
      ("metadata", mapToValue r.metadata)]

variable (v : Json)

/-- `agnosai_task_result_from_value`. Only the metadata has a default. -/
def TaskResult.fromValue : Option TaskResult :=
  match (v.strField "task_id").bind Uuid.canonical, v.strField "output", v.strField "status" with
  | some taskId, some output, some status =>
    some
      { taskId := taskId
        output := output
        status := .fromWire status
        metadata := mapFromValue (v.objGet "metadata") }
  | _, _, _ => none

/-- Which values are read as results. -/
theorem TaskResult.fromValue_isSome :
    (fromValue v).isSome ↔ ((v.strField "task_id").bind Uuid.canonical).isSome ∧
      (v.strField "output").isSome ∧
      (v.strField "status").isSome := by
  unfold fromValue
  cases (v.strField "task_id").bind Uuid.canonical <;> cases v.strField "output" <;>
    cases v.strField "status" <;> simp

theorem TaskResult.status_of_fromValue {v : Json} {r : TaskResult} (h : fromValue v = some r) :
    v.strField "status" = some r.status.toWire ↔ ∃ st : TaskStatus, v.strField "status" =
      some st.toWire := by
  refine ⟨fun hst => ⟨r.status, hst⟩, ?_⟩
  rintro ⟨st, hst⟩
  unfold fromValue at h
  split at h
  next status _ _ hstatus =>
    cases h
    obtain rfl : status = st.toWire := Option.some.inj (hstatus.symm.trans hst)
    rw [hstatus, TaskStatus.fromWire_toWire]
  · cases h

/-- An id in the form it is minted in. -/
def Canonical (id : String) : Prop := ∃ u : Uuid, id = u.toStr

theorem Canonical.canonical {id : String} (h : Canonical id) : Uuid.canonical id = some id := by
  obtain ⟨u, rfl⟩ := h
  exact u.canonical_toStr

theorem TaskResult.fromValue_toValue {r : TaskResult} (h : Canonical r.taskId) :
    fromValue r.toValue = some r := by
  have hmetadata : mapFromValue (some (mapToValue r.metadata)) = r.metadata :=
    mapFrom_mapTo fun _ _ => rfl
  simp [fromValue, toValue, strField, objGet, str?, h.canonical,
    TaskStatus.fromWire_toWire, hmetadata]

/-! ### Profiles -/

/-- `AgnosaiCrewProfile`. The strength is `noLimit` when unset. -/
structure CrewProfile where
  wallMs : Int64
  taskMs : KeyMap String Int64
  taskCount : Int64
  costMicroUsd : Int64
  agentCost : KeyMap String Int64
  taskCost : KeyMap String Int64
  sandboxStrength : Int64

/-- A field that is left out under a condition. -/
def fieldIf (c : Bool) (key : String) (v : Json) : List (String × Json) :=
  if c then [(key, v)] else []

/-- `agnosai_crew_profile_to_value`. A cost of zero, a map of costs that is empty and an unset
strength are left out. -/
def CrewProfile.toValue (p : CrewProfile) : Json :=
  .obj <|
    [("wall_ms", .int p.wallMs), ("task_ms", intMapToValue p.taskMs),
      ("task_count", .int p.taskCount)] ++
      (fieldIf (p.costMicroUsd ≠ 0) "cost_usd" (.float (usd.toF64 p.costMicroUsd)) ++
        (fieldIf (0 < p.agentCost.size) "agent_cost_usd" (costMapToValue usd p.agentCost) ++
          (fieldIf (0 < p.taskCost.size) "task_cost_usd" (costMapToValue usd p.taskCost) ++
            fieldIf (p.sandboxStrength ≠ Llm.noLimit) "sandbox_strength" (.int p.sandboxStrength))))

/-- `agnosai_crew_profile_from_value`. The time, the count and the times of the tasks are
required. -/
def CrewProfile.fromValue : Option CrewProfile :=
  match v.objGet "wall_ms", v.objGet "task_count", v.objGet "task_ms" with
  | some (.int wallMs), some (.int taskCount), some (.obj taskMs) =>
    some
      { wallMs := wallMs
        taskMs := intMapFromValue (some (.obj taskMs))
        taskCount := taskCount
        costMicroUsd := ((v.objGet "cost_usd").map (microUsd usd)).getD 0
        agentCost := costMapFromValue usd (v.objGet "agent_cost_usd")
        taskCost := costMapFromValue usd (v.objGet "task_cost_usd")
        sandboxStrength := v.optIntField "sandbox_strength" }
  | _, _, _ => none

/-- Which values are read as profiles. -/
theorem CrewProfile.fromValue_isSome :
    (fromValue usd v).isSome ↔ (∃ n, v.objGet "wall_ms" = some (.int n)) ∧
      (∃ n, v.objGet "task_count" = some (.int n)) ∧
      ∃ fields, v.objGet "task_ms" = some (.obj fields) := by
  unfold fromValue
  split
  next wallMs taskCount taskMs hwall hcount hms =>
    exact ⟨fun _ => ⟨⟨wallMs, hwall⟩, ⟨taskCount, hcount⟩, taskMs, hms⟩, fun _ => rfl⟩
  next hnot =>
    refine ⟨fun h => (by cases h), ?_⟩
    rintro ⟨⟨wallMs, hwall⟩, ⟨taskCount, hcount⟩, taskMs, hms⟩
    exact absurd hms (hnot wallMs taskCount taskMs hwall hcount)

theorem objGet_nil (key : String) : (obj []).objGet key = none := rfl

theorem objGet_cons (key key' : String) (v : Json) (l : List (String × Json)) :
    (obj ((key, v) :: l)).objGet key' = if key = key' then some v else (obj l).objGet key' := by
  by_cases h : key = key' <;> simp [objGet, h]

theorem objGet_append (l₁ l₂ : List (String × Json)) (key : String) :
    (obj (l₁ ++ l₂)).objGet key = ((obj l₁).objGet key).or ((obj l₂).objGet key) := by
  simp only [objGet, find?_append]
  cases l₁.find? fun f => f.1 = key <;> rfl

theorem objGet_fieldIf (c : Bool) (key key' : String) (v : Json) :
    (obj (fieldIf c key v)).objGet key' = if c = true ∧ key = key' then some v else none := by
  cases c with
  | true => simp only [fieldIf, if_true, objGet_cons, objGet_nil, true_and]
  | false => simp only [fieldIf, objGet_nil, Bool.false_eq_true, if_false, false_and]

def CrewProfile.amounts (p : CrewProfile) : List Int64 :=
  p.costMicroUsd :: (p.agentCost.entries.map Prod.snd ++ p.taskCost.entries.map Prod.snd)

theorem costMapFromValue_if {usd : Usd} {m : KeyMap String Int64}
    (h : ∀ e ∈ m.entries, usd.ofF64 (usd.toF64 e.2) = e.2) :
    costMapFromValue usd (if 0 < m.size then some (costMapToValue usd m) else none) = m := by
  split
  · exact mapFrom_mapTo fun e he => congrArg some (h e he)
  next hempty =>
    obtain ⟨entries, nodup⟩ := m
    obtain rfl : entries = [] := length_eq_zero_iff.1 (Nat.eq_zero_of_not_pos hempty)
    rfl

/-- The fields a profile writes. -/
theorem CrewProfile.objGet_toValue (p : CrewProfile) :
    (p.toValue usd).objGet "wall_ms" = some (.int p.wallMs) ∧
      (p.toValue usd).objGet "task_count" = some (.int p.taskCount) ∧
      (p.toValue usd).objGet "task_ms" = some (intMapToValue p.taskMs) ∧
      (p.toValue usd).objGet "cost_usd"
        = (if p.costMicroUsd ≠ 0 then some (.float (usd.toF64 p.costMicroUsd)) else none) ∧
      (p.toValue usd).objGet "agent_cost_usd"
        = (if 0 < p.agentCost.size then some (costMapToValue usd p.agentCost) else none) ∧
      (p.toValue usd).objGet "task_cost_usd"
        = (if 0 < p.taskCost.size then some (costMapToValue usd p.taskCost) else none) ∧
      (p.toValue usd).objGet "sandbox_strength"
        = if p.sandboxStrength ≠ Llm.noLimit then some (.int p.sandboxStrength) else none := by
  refine ⟨?_, ?_, ?_, ?_, ?_, ?_, ?_⟩ <;>
    simp [toValue, objGet_append, objGet_fieldIf, objGet_cons]

/-- A profile reads back from its own value. -/
theorem CrewProfile.fromValue_toValue {usd : Usd} {p : CrewProfile}
    (h : ∀ c ∈ p.amounts, usd.ofF64 (usd.toF64 c) = c) :
    fromValue usd (p.toValue usd) = some p := by
  obtain ⟨hwall, hcount, hms, hcost, hagent, htask, hstrength⟩ := p.objGet_toValue usd
  obtain ⟨hc, hrest⟩ := forall_mem_cons.1 h
  have hcosts : ((if p.costMicroUsd ≠ 0 then some (float (usd.toF64 p.costMicroUsd)) else none).map
      (microUsd usd)).getD 0 = p.costMicroUsd := by
    by_cases hzero : p.costMicroUsd = 0
    · rw [if_neg (not_not.2 hzero), hzero]
      rfl
    · rw [if_pos hzero]
      exact hc
  have hms' : intMapFromValue (some (intMapToValue p.taskMs)) = p.taskMs :=
    mapFrom_mapTo fun _ _ => rfl
  have hagents : costMapFromValue usd (if 0 < p.agentCost.size then
      some (costMapToValue usd p.agentCost) else none) = p.agentCost :=
    costMapFromValue_if fun e he => hrest _ (mem_append_left _ (mem_map_of_mem he))
  have htasks : costMapFromValue usd (if 0 < p.taskCost.size then
      some (costMapToValue usd p.taskCost) else none) = p.taskCost :=
    costMapFromValue_if fun e he => hrest _ (mem_append_right _ (mem_map_of_mem he))
  have hstrengths : (p.toValue usd).optIntField "sandbox_strength" = p.sandboxStrength := by
    rw [optIntField, intField, hstrength]
    by_cases hunset : p.sandboxStrength = Llm.noLimit
    · rw [if_neg (not_not.2 hunset), hunset]
      rfl
    · rw [if_pos hunset]
      rfl
  rw [fromValue, hwall, hcount, hms, hcost, hagent, htask, hcosts, hagents, htasks, hstrengths]
  simp only [intMapToValue, mapTo] at hms' ⊢
  rw [hms']

/-! ### States -/

/-- `AgnosaiCrewState`. -/
structure CrewState where
  crewId : String
  status : CrewStatus
  results : List TaskResult
  profile : Option CrewProfile

/-- `agnosai_crew_state_to_value`. A profile that is unset is left out. -/
def CrewState.toValue (s : CrewState) : Json :=
  .obj <|
    [("crew_id", .str s.crewId),
      ("status", .str s.status.toWire),
      ("results", .arr (s.results.map TaskResult.toValue))] ++
    match s.profile with
    | none => []
    | some p => [("profile", p.toValue usd)]

/-- The elements of an array; none of anything else. -/
def elems : Option Json → List Json
  | some (.arr es) => es
  | _ => []

/-- `agnosai_crew_state_from_value`. A result or a profile that is not read is dropped. -/
def CrewState.fromValue : Option CrewState :=
  ((v.strField "crew_id").bind Uuid.canonical).map fun crewId =>
    { crewId := crewId
      status := ((v.strField "status").map CrewStatus.fromWire).getD .pending
      results := (elems (v.objGet "results")).filterMap TaskResult.fromValue
      profile := (v.objGet "profile").bind (CrewProfile.fromValue usd) }

theorem CrewState.fromValue_isSome :
    (fromValue usd v).isSome ↔ ((v.strField "crew_id").bind Uuid.canonical).isSome := by
  rw [fromValue, Option.isSome_map]

structure CrewState.CanonicalIds (s : CrewState) : Prop where
  crew : Canonical s.crewId
  results : ∀ r ∈ s.results, Canonical r.taskId

def CrewState.amounts (s : CrewState) : List Int64 := (s.profile.map CrewProfile.amounts).getD []

/-- **A state is read back from its value.** -/
theorem CrewState.fromValue_toValue {usd : Usd} {s : CrewState} (hids : s.CanonicalIds)
    (husd : ∀ c ∈ s.amounts, usd.ofF64 (usd.toF64 c) = c) :
    fromValue usd (s.toValue usd) = some s := by
  have hresults : (s.results.map TaskResult.toValue).filterMap TaskResult.fromValue =
      s.results := by
    rw [filterMap_map]
    have hread : ∀ r ∈ s.results, (TaskResult.fromValue ∘ TaskResult.toValue) r = some r :=
      fun r hr => TaskResult.fromValue_toValue (hids.results r hr)
    rw [filterMap_congr hread, filterMap_some]
  have hprofile : ((s.toValue usd).objGet "profile").bind (CrewProfile.fromValue usd) =
      s.profile := by
    rw [toValue, objGet_append]
    cases hp : s.profile with
    | none => simp [objGet_cons, objGet_nil]
    | some p =>
      have hread : CrewProfile.fromValue usd (p.toValue usd) = some p :=
        CrewProfile.fromValue_toValue fun c hc => husd c (by rw [amounts, hp]; exact hc)
      simp [objGet_cons, objGet_nil, hread]
  rw [fromValue, hprofile]
  simp [toValue, strField, objGet_cons, str?, hids.crew.canonical, elems, hresults,
    CrewStatus.fromWire_toWire]

end Snapshot

end Agnosai
