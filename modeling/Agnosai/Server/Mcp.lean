import Agnosai.Core.Agent
import Agnosai.Support.KeyMap

/-!
# Server — Mcp

Agent definitions as MCP resources, after `server/routes/mcp.cyr`, `server/routes/agents.cyr` and
the definitions of `server/state.cyr`. A definition is stored under its key and listed under a URI
made of its name, and a URI is read by looking its end up as a key. So what is listed is what is
read exactly where every name is the key (`resources_iff`).
-/

namespace Agnosai.Mcp

open KeyMap

/-- `AppState.definitions`. -/
abbrev Definitions := KeyMap String AgentDefinition

/-- `agnosai_route_create_definition`, of the body as parsed. A refusal is a status and a text. -/
def createDefinition (body : Option Json) (s : Definitions) :
    Definitions × Except (Nat × String) Json :=
  match body with
  | none => (s, .error (400, "malformed JSON body"))
  | some v =>
    match AgentDefinition.fromValue v with
    | none => (s, .error (422, "body is not a valid agent definition"))
    | some d => (s.set d.agentKey d, .ok d.toValue)

variable (bodies : List (Option Json))

/-- What a sequence of requests leaves in the store. -/
def stored : Definitions :=
  bodies.foldl (fun s body => (createDefinition body s).1) .empty

/-- `AGNOSAI_MCP_RESOURCE_PREFIX`. -/
def resourcePrefix : String := "agnosai://agents/"

/-- `_agnosai_mcp_resource_name`. -/
def resourceName (uri : String) : Option String :=
  (uri.toList.dropPrefix? resourcePrefix.toList).map String.ofList

variable (d : AgentDefinition)

/-- The URI of `_agnosai_mcp_resource_of`. -/
def resourceUri : String := resourcePrefix ++ d.name

/-- `_agnosai_mcp_resource_of`. -/
def resourceOf : Json :=
  .obj [("uri", .str (resourceUri d)), ("name", .str d.name), ("description", .str d.role),
    ("mimeType", .str "application/json")]

/-- The result of a read. The text is given as the value it is built from. -/
def contents (uri : String) (d : AgentDefinition) : Json :=
  .obj [("contents", .arr [.obj [("uri", .str uri), ("mimeType", .str "application/json"),
    ("text", d.toValue)]])]

/-- `_agnosai_mcp_resources_read`. Every refusal is an `AGNOSAI_MCP_INVALID_PARAMS`. -/
def resourcesRead (params : Option Json) (s : Definitions) : Except String Json :=
  match params.filter Json.isObj with
  | none => .error "params must be an object with a uri"
  | some params =>
    match params.strField "uri" with
    | none => .error "uri is required and must be a string"
    | some uri =>
      match resourceName uri with
      | none => .error "unknown resource URI scheme"
      | some name =>
        match s.lookup name with
        | none => .error "no such resource"
        | some d => .ok (contents uri d)

/-- What is listed is what is read, and no URI is listed twice. -/
structure Faithful (s : Definitions) : Prop where
  read : ∀ e ∈ s.entries, ∀ params : Json,
    params.strField "uri" = (resourceOf e.2).strField "uri" →
    resourcesRead (some params) s = .ok (contents (resourceUri e.2) e.2)
  distinct : (s.entries.map fun e => (resourceOf e.2).strField "uri").Nodup

theorem resourceOf_uri :
    (resourceOf d).strField "uri" = some (resourceUri d) := rfl

theorem resourceName_uri : resourceName (resourceUri d) = some d.name := by
  simp [resourceName, resourceUri, List.dropPrefix?_append_of_beq]

/-- A definition's URI is read as whatever has the definition's name for its key. -/
theorem resourcesRead_uri {params : Json} {d : AgentDefinition} (s : Definitions)
    (h : params.strField "uri" = some (resourceUri d)) :
    resourcesRead (some params) s = match s.lookup d.name with
      | none => .error "no such resource"
      | some d' => .ok (contents (resourceUri d) d') := by
  have hobj : params.isObj = true := by
    cases params <;> first | rfl | cases h
  simp only [resourcesRead, Option.filter, hobj, if_true, h, resourceName_uri]

theorem contents_injective {uri : String} {d d' : AgentDefinition}
    (h : contents uri d = contents uri d') : d = d' := by
  simp only [contents, Json.obj.injEq, List.cons.injEq, Prod.mk.injEq, Json.arr.injEq, true_and,
    and_true] at h
  exact Option.some.inj (by rw [← d.fromValue_toValue, h, d'.fromValue_toValue])

/-- Every definition is stored under its key. -/
theorem stored_key :
    ∀ e ∈ (stored bodies).entries, e.1 = e.2.agentKey := by
  refine List.foldlRecOn (motive := fun s : Definitions => ∀ e ∈ s.entries,
    e.1 = e.2.agentKey) bodies
    _ nofun ?_
  rintro s ih body - ⟨k, d⟩ he
  unfold createDefinition at he
  split at he
  · exact ih _ he
  · split at he
    · exact ih _ he
    · rcases lookup_set_eq_some.1 (lookup_eq_some.2 he) with ⟨rfl, rfl⟩ | ⟨-, hold⟩
      · rfl
      · exact ih _ (lookup_eq_some.1 hold)

/-- **Resources.** What is listed is what is read, under distinct URIs, exactly if every stored
definition is named by its key. -/
theorem resources_iff :
    Faithful (stored bodies) ↔ ∀ e ∈ (stored bodies).entries, e.2.name = e.2.agentKey := by
  have hkey := stored_key bodies
  generalize stored bodies = s at hkey ⊢
  constructor
  · rintro h ⟨k, d⟩ he
    have hread := h.read _ he _ rfl
    rw [resourcesRead_uri s (resourceOf_uri d)] at hread
    split at hread
    · cases hread
    next hd' =>
      -- what was found under the name is the definition itself, and lies under its key
      obtain rfl := contents_injective (Except.ok.inj hread)
      exact hkey _ (lookup_eq_some.1 hd')
  · intro h
    have hname : ∀ e ∈ s.entries, e.2.name = e.1 := fun e he => (h e he).trans (hkey e he).symm
    refine ⟨fun e he params hparams => ?_, ?_⟩
    · rw [resourcesRead_uri s hparams, hname e he, lookup_eq_some.2 he]
    · have huri : ∀ e ∈ s.entries, (resourceOf e.2).strField "uri" = some (resourcePrefix ++ e.1) :=
        fun e he => by rw [resourceOf_uri, resourceUri, hname e he]
      rw [List.map_congr_left huri]
      have hinj : Function.Injective fun k => some (resourcePrefix ++ k) := fun a b hab => by
        simpa using hab
      simpa [Function.comp_def] using s.nodup.map hinj

/-- A definition named by another one's key. -/
def misnamed (key name : String) : AgentDefinition :=
  { agentKey := key, name := name, role := "writer", goal := "write" }

/-- Of two definitions with each other's key for a name, each is read for the other. -/
theorem resources_swapped :
    ¬ Faithful (stored [some (misnamed "a" "b").toValue, some (misnamed "b" "a").toValue]) := by
  have hstored :
      (stored [some (misnamed "a" "b").toValue, some (misnamed "b" "a").toValue]).entries =
      [("a", misnamed "a" "b"), ("b", misnamed "b" "a")] := by
    rfl
  intro h
  have hread := h.read ("a", misnamed "a" "b") (hstored ▸ List.mem_cons_self) _ rfl
  exact absurd (contents_injective (Except.ok.inj hread)) (by decide)

end Agnosai.Mcp
