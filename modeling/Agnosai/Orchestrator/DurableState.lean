import Agnosai.Core.JsonLib
import Agnosai.Core.Snapshot
import Agnosai.Orchestrator.CrewRunner.Outcome

/-!
# Orchestrator — DurableState

Snapshots of crew states as pretty JSON, after the two ends of `orchestrator/durable_state.cyr`.
The JSON library and the conversion of amounts are parameters.

Reading a snapshot checks the object, the spelling of the crew's status and that there are results,
and leaves the rest to the lenient reader of the core, so a result or a profile that is not read is
dropped without an error. The state a run leaves is read back (`deserializeValue_ofRun`).
-/

namespace Agnosai.Snapshot

open Json Snapshot.CrewState List Option

/-- `agnosai_serialize_crew_state`. -/
def serialize (lib : JsonLib String) (usd : Usd) (s : CrewState) : Option String :=
  lib.buildPretty (s.toValue usd) 2

/-- `agnosai_deserialize_crew_state` once the text is parsed. An error is the text of its
`AgnosaiError::Serialization`. -/
def deserializeValue (usd : Usd) (v : Json) : Except String CrewState :=
  if v.isObj = false then .error "expected a JSON object"
  else
    match v.strField "status" with
    | none => .error "missing field `status`"
    | some spelling =>
      if (CrewStatus.fromWire spelling).toWire ≠ spelling then
        .error ("unknown variant for field `status`: " ++ spelling)
      else
        match v.objGet "results" with
        | some (.arr _) =>
          match fromValue usd v with
          | none => .error "missing or malformed field `crew_id`"
          | some s => .ok s
        | _ => .error "missing field `results`"

/-- `agnosai_deserialize_crew_state`. -/
def deserialize (lib : JsonLib String) (usd : Usd) (buf : String) : Except String CrewState :=
  match lib.parseBuf buf with
  | .error e => .error e
  | .ok v => deserializeValue usd v

variable {lib : JsonLib String} {usd : Usd} {v : Json} {s : CrewState}

/-! ### Round trip -/

theorem deserializeValue_toValue (hids : s.CanonicalIds)
    (husd : ∀ c ∈ s.amounts, usd.ofF64 (usd.toF64 c) = c) :
    deserializeValue usd (s.toValue usd) = .ok s := by
  have hstatus : (s.toValue usd).strField "status" = some s.status.toWire := by
    simp [toValue, strField, objGet_cons, str?]
  have hresults : (s.toValue usd).objGet "results" =
      some (.arr (s.results.map TaskResult.toValue)) := by
    simp [toValue, objGet_cons]
  rw [deserializeValue, hstatus, hresults]
  simp only [CrewStatus.fromWire_toWire, fromValue_toValue hids husd]
  simp [toValue, isObj]

/-- **A snapshot reads back**, where the library reads what it wrote and the amounts convert
back. -/
theorem deserialize_serialize (lib : JsonLib String) (usd : Usd) (s : CrewState)
    (hids : s.CanonicalIds)
    (hlib : ∃ text, lib.buildPretty (s.toValue usd) 2 = some text ∧
      lib.parseBuf text = .ok (s.toValue usd))
    (husd : ∀ c ∈ s.amounts, usd.ofF64 (usd.toF64 c) = c) :
    ∃ text, serialize lib usd s = some text ∧ deserialize lib usd text = .ok s := by
  obtain ⟨text, hbuild, hparse⟩ := hlib
  refine ⟨text, hbuild, ?_⟩
  rw [deserialize, hparse]
  exact deserializeValue_toValue hids husd

/-- Amounts kept in words. -/
def wordUsd : Usd :=
  { toF64 := fun c => if c = 1500000 then "1.5" else "0"
    ofF64 := fun f => if f = "1.5" then 1500000 else 0 }

def idOf (n : UInt8) : Uuid := { bytes := replicate 15 0 ++ [n], length_eq := by simp }

/-- A finished crew with a failed task and a profile. -/
def finishedCrew : CrewState :=
  { crewId := (idOf 1).toStr
    status := .completed
    results :=
      [{ taskId := (idOf 2).toStr, output := "", status := .failed
         metadata := KeyMap.empty.set "retries" (.int 2) }]
    profile := some
      { wallMs := 12, taskMs := KeyMap.empty.set "t" 12, taskCount := 1, costMicroUsd := 1500000
        agentCost := .empty, taskCost := KeyMap.empty.set "t" 1500000
        sandboxStrength := Llm.noLimit } }

theorem wordUsd_finishedCrew : ∀ c ∈ finishedCrew.amounts, wordUsd.ofF64 (wordUsd.toF64 c) = c := by
  have hall : (finishedCrew.amounts.all fun c => wordUsd.ofF64 (wordUsd.toF64 c) == c) =
      true := by decide +kernel
  exact fun c hc => eq_of_beq (all_eq_true.1 hall c hc)

theorem deserialize_serialize_finishedCrew :
    ∃ text, serialize (.only [finishedCrew.toValue wordUsd]) wordUsd finishedCrew = some text ∧
      deserialize (.only [finishedCrew.toValue wordUsd]) wordUsd text = .ok finishedCrew := by
  have htext := JsonLib.buildPretty_only (mem_singleton_self (finishedCrew.toValue wordUsd)) 2
  refine deserialize_serialize _ wordUsd finishedCrew ⟨⟨idOf 1, rfl⟩, fun r hr => ?_⟩
    ⟨_, htext, JsonLib.parseBuf_only (by simp) htext⟩ wordUsd_finishedCrew
  obtain rfl := mem_singleton.1 hr
  exact ⟨idOf 2, rfl⟩

/-! ### The state of a run -/

section Run

variable (write : Agnosai.TaskResult → KeyMap String Json) (profile : Option CrewProfile)

/-- A run's state as the record that is kept: `write` makes a result's metadata a map. -/
def ofRun (s : Agnosai.CrewState) : CrewState where
  crewId := s.crewId
  status := s.status
  results := s.results.map fun r => ⟨r.taskId, r.output, r.status, write r⟩
  profile := profile

/-- The crew's ids are those of the state its run leaves. -/
theorem canonicalIds_ofRun {env : CrewRunner.Env} {spec : CrewSpec} {s : Agnosai.CrewState}
    {run : CrewRunner.Run} (hquiet : env.Quiet) (hrun : CrewRunner.crewRun env spec = (.ok s, run))
    (hcrew : Canonical spec.id) (htasks : ∀ id ∈ spec.taskIds, Canonical id) :
    (ofRun write profile s).CanonicalIds := by
  unfold CrewRunner.crewRun at hrun
  split at hrun
  · cases hrun
  next results run' heq =>
    cases hrun
    obtain ⟨done, left, rfl, hperm, htimed⟩ := CrewRunner.runTasks_quiet hquiet heq
    refine ⟨hcrew, fun r hr => ?_⟩
    simp only [ofRun, CrewRunner.finalState, htimed, Bool.false_eq_true, if_false,
      List.map_map, List.mem_map] at hr
    obtain ⟨t, ht, rfl⟩ := hr
    refine htasks _ (hperm.mem_iff.1 (mem_append_left _ (List.mem_map.2 ⟨t, ht, ?_⟩)))
    exact (env.outcome_taskId t).symm

/-- **The state of a run is read back**, whatever its results' metadata and its profile are. -/
theorem deserializeValue_ofRun {env : CrewRunner.Env} {spec : CrewSpec} {s : Agnosai.CrewState}
    {run : CrewRunner.Run} (hquiet : env.Quiet) (hrun : CrewRunner.crewRun env spec = (.ok s, run))
    (hcrew : Canonical spec.id) (htasks : ∀ id ∈ spec.taskIds, Canonical id)
    (husd : ∀ c ∈ (ofRun write profile s).amounts, usd.ofF64 (usd.toF64 c) = c) :
    deserializeValue usd ((ofRun write profile s).toValue usd) = .ok (ofRun write profile s) :=
  deserializeValue_toValue (canonicalIds_ofRun write profile hquiet hrun hcrew htasks) husd

end Run

/-! ### What is accepted -/

/-- A value the checks let through. -/
structure Accepted (v : Json) : Prop where
  status : ∃ st : CrewStatus, v.strField "status" = some st.toWire
  results : ∃ es, v.objGet "results" = some (.arr es)
  crew : ((v.strField "crew_id").bind Uuid.canonical).isSome

/-- A value is read exactly when it is accepted, and then by the core's reader. -/
theorem deserializeValue_ok :
    deserializeValue usd v = .ok s ↔ Accepted v ∧ fromValue usd v = some s := by
  constructor
  · intro h
    unfold deserializeValue at h
    split at h
    · cases h
    · split at h
      · cases h
      next hspelling =>
        split at h
        · cases h
        next hknown =>
          obtain ⟨st, rfl⟩ := CrewStatus.toWire_fromWire_iff.1 (not_not.1 hknown)
          split at h
          next es hes =>
            split at h
            · cases h
            next hs' =>
              cases h
              refine ⟨⟨⟨st, hspelling⟩, ⟨es, hes⟩, ?_⟩, hs'⟩
              rw [← fromValue_isSome usd, hs']
              rfl
          · cases h
  · rintro ⟨⟨⟨st, hst⟩, ⟨es, hes⟩, -⟩, hs⟩
    have hobj : v.isObj = true := by
      cases v with
      | obj => rfl
      | _ => cases hes
    simp only [deserializeValue, hobj, hst, hes, hs, CrewStatus.fromWire_toWire]
    rw [if_neg (by decide), if_neg (not_not.2 rfl)]

/-! ### What is represented -/

def isNull : Json → Bool
  | .null => true
  | _ => false

/-- The state represents the value: a result for each element, with the status that is written
there, and a profile if the value holds one. -/
structure Represents (v : Json) (s : CrewState) : Prop where
  results : s.results.map (fun r => some r.status.toWire)
    = (elems (v.objGet "results")).map (·.strField "status")
  profile : ∀ pv, v.objGet "profile" = some pv → isNull pv = false → s.profile.isSome

/-- An element of the results that is read for what it is. -/
structure ReadableResult (e : Json) : Prop where
  task : ((e.strField "task_id").bind Uuid.canonical).isSome
  output : (e.strField "output").isSome
  status : ∃ st : TaskStatus, e.strField "status" = some st.toWire

/-- A profile that is read. -/
structure ReadableProfile (pv : Json) : Prop where
  wallMs : ∃ n, pv.objGet "wall_ms" = some (.int n)
  taskCount : ∃ n, pv.objGet "task_count" = some (.int n)
  taskMs : ∃ fields, pv.objGet "task_ms" = some (.obj fields)

/-- A value all of whose parts are read. -/
structure Readable (v : Json) : Prop where
  results : ∀ e ∈ elems (v.objGet "results"), ReadableResult e
  profile : ∀ pv, v.objGet "profile" = some pv → isNull pv = false → ReadableProfile pv

/-- Where some elements may be dropped, the rest is one for one exactly when none is. -/
theorem map_filterMap_eq_map_iff {α β γ : Type*} {f : α → Option β} {g : β → γ} {g' : α → γ}
    {l : List α} : (l.filterMap f).map g = l.map g' ↔ ∀ x ∈ l, ∃ y, f x = some y ∧ g y = g' x := by
  induction l with
  | nil => simp
  | cons x l ih =>
    rw [forall_mem_cons, ← ih]
    cases hx : f x with
    | none =>
      rw [filterMap_cons_none hx]
      refine ⟨fun h => ?_, fun h => ?_⟩
      · have hlen := congrArg length h
        have hle : (l.filterMap f).length ≤ l.length := length_filterMap_le f l
        simp only [length_map, length_cons] at hlen
        omega
      · obtain ⟨y, hy, -⟩ := h.1
        cases hy
    | some =>
      rw [filterMap_cons_some hx, map_cons, map_cons, cons_eq_cons]
      simp

theorem readableResult_iff {e : Json} : ReadableResult e ↔
    ∃ r, TaskResult.fromValue e = some r ∧ some r.status.toWire = e.strField "status" := by
  constructor
  · rintro ⟨htask, houtput, st, hst⟩
    have hsome : (TaskResult.fromValue e).isSome :=
      (TaskResult.fromValue_isSome e).2 ⟨htask, houtput, by rw [hst]; rfl⟩
    obtain ⟨r, hr⟩ := isSome_iff_exists.1 hsome
    exact ⟨r, hr, ((TaskResult.status_of_fromValue hr).2 ⟨st, hst⟩).symm⟩
  · rintro ⟨r, hr, hst⟩
    obtain ⟨htask, houtput, -⟩ := (TaskResult.fromValue_isSome e).1 (by rw [hr]; rfl)
    exact ⟨htask, houtput, r.status, hst.symm⟩

theorem readableProfile_iff (usd : Usd) {pv : Json} :
    ReadableProfile pv ↔ (CrewProfile.fromValue usd pv).isSome := by
  rw [CrewProfile.fromValue_isSome]
  exact ⟨fun h => ⟨h.wallMs, h.taskCount, h.taskMs⟩, fun h => ⟨h.1, h.2.1, h.2.2⟩⟩

/-- What the core's reader makes of a value represents it exactly when all its parts are read. -/
theorem represents_iff (h : fromValue usd v = some s) : Represents v s ↔ Readable v := by
  obtain ⟨crewId, -, rfl⟩ := map_eq_some_iff.1 h
  have hresults : ((elems (v.objGet "results")).filterMap TaskResult.fromValue).map
      (fun r => some r.status.toWire) = (elems (v.objGet "results")).map (·.strField "status") ↔
        ∀ e ∈ elems (v.objGet "results"), ReadableResult e := by
    rw [map_filterMap_eq_map_iff]
    exact forall₂_congr fun e _ => readableResult_iff.symm
  constructor
  · rintro ⟨hr, hp⟩
    refine ⟨hresults.1 hr, fun pv hpv hnull => (readableProfile_iff usd).2 ?_⟩
    have hread := hp pv hpv hnull
    simp only [hpv, bind_some] at hread
    exact hread
  · rintro ⟨hr, hp⟩
    refine ⟨hresults.2 hr, fun pv hpv hnull => ?_⟩
    simp only [hpv, bind_some]
    exact (readableProfile_iff usd).1 (hp pv hpv hnull)

/-- **When nothing is lost.** -/
theorem deserialize_complete_iff (lib : JsonLib String) (usd : Usd) (buf : String) (v : Json)
    (h : lib.parseBuf buf = .ok v) :
    (∀ s, deserialize lib usd buf = .ok s → Represents v s) ↔ (Accepted v → Readable v) := by
  have hval : deserialize lib usd buf = deserializeValue usd v := by rw [deserialize, h]
  rw [hval]
  constructor
  · intro hall hacc
    obtain ⟨s, hs⟩ := isSome_iff_exists.1 ((fromValue_isSome usd v).2 hacc.crew)
    exact (represents_iff hs).1 (hall s (deserializeValue_ok.2 ⟨hacc, hs⟩))
  · intro hread s hok
    obtain ⟨hacc, hs⟩ := deserializeValue_ok.1 hok
    exact (represents_iff hs).2 (hread hacc)

/-- The value of a running crew with the given results and further fields. -/
def runningWith (results : List Json) (rest : List (String × Json)) : Json :=
  .obj ([("crew_id", .str (idOf 1).toStr), ("status", .str "running"), ("results", .arr results)] ++
    rest)

theorem accepted_runningWith (results : List Json) (rest : List (String × Json)) :
    Accepted (runningWith results rest) where
  status := ⟨.running, by simp [runningWith, strField, objGet_cons, str?, CrewStatus.toWire]⟩
  results := ⟨results, by simp [runningWith, objGet_cons]⟩
  crew := by simp [runningWith, strField, objGet_cons, str?, Uuid.canonical_toStr]

/-- A result that is written with the given status. -/
def resultWith (status : String) : Json :=
  .obj [("task_id", .str (idOf 2).toStr), ("output", .str "done"), ("status", .str status)]

theorem deserialize_complete_iff_running :
    let v := runningWith [resultWith "failed"] []
    (JsonLib.reading id [v]).parseBuf v.text = .ok v ∧
      ∀ s, deserialize (.reading id [v]) wordUsd v.text = .ok s → Represents v s := by
  intro v
  have hparse := JsonLib.parseBuf_reading_id v []
  refine ⟨hparse, (deserialize_complete_iff _ wordUsd v.text v hparse).2 fun _ => ?_⟩
  refine ⟨fun e he => ?_, fun pv hpv => ?_⟩
  · obtain rfl : e = resultWith "failed" := by simpa [v, runningWith, objGet_cons, elems] using he
    refine ⟨?_, ?_, .failed, ?_⟩ <;>
      simp [resultWith, strField, objGet_cons, str?, Uuid.canonical_toStr, TaskStatus.toWire]
  · simp [v, runningWith, objGet_cons, objGet_nil] at hpv

/-- Accepted, and not represented by what is returned. -/
def Loses (v : Json) : Prop :=
  ∃ s, deserialize (.reading id [v]) wordUsd v.text = .ok s ∧ ¬ Represents v s

theorem loses_runningWith {results : List Json} {rest : List (String × Json)}
    (hnot : ¬ Readable (runningWith results rest)) : Loses (runningWith results rest) := by
  have hacc := accepted_runningWith results rest
  obtain ⟨s, hs⟩ := isSome_iff_exists.1 ((fromValue_isSome wordUsd _).2 hacc.crew)
  refine ⟨s, ?_, fun hrep => hnot ((represents_iff hs).1 hrep)⟩
  rw [deserialize, JsonLib.parseBuf_reading_id]
  exact deserializeValue_ok.2 ⟨hacc, hs⟩

/-- The result is dropped; its status reads as pending; the profile is dropped. -/
theorem deserialize_incomplete :
    Loses (runningWith [.obj []] []) ∧ Loses (runningWith [resultWith "done"] []) ∧
      Loses (runningWith [] [("profile", .obj [])]) := by
  refine ⟨loses_runningWith fun h => ?_, loses_runningWith fun h => ?_,
    loses_runningWith fun h => ?_⟩
  · have hread := h.results (.obj []) (by simp [runningWith, objGet_cons, elems])
    cases hread.output
  · obtain ⟨st, hst⟩ :=
      (h.results (resultWith "done") (by simp [runningWith, objGet_cons, elems])).status
    cases st <;> simp [resultWith, strField, objGet_cons, str?, TaskStatus.toWire] at hst
  · obtain ⟨n, hn⟩ := (h.profile (.obj []) (by simp [runningWith, objGet_cons]) rfl).wallMs
    cases hn

end Agnosai.Snapshot
