import Agnosai.Core.Task
import Agnosai.Llm.Hoosh

/-!
# Core — Agent

Agent definitions with their hardware requirements, after `core/agent.cyr` and `core/resource.cyr`,
and the two functions between a definition and its JSON value. The reader is lenient: a field of
the wrong kind reads as if it were absent. Only the four required strings can make it fail.
-/

namespace Agnosai

open Json

open Llm (noLimit)

/-! ### JSON fields -/

/-- `bayan_json_v_obj_get_by_cstr`. -/
def Json.objGet : Json → String → Option Json
  | .obj fields, key => (fields.find? fun f => f.1 = key).map Prod.snd
  | _, _ => none

/-- `bayan_json_v_str`, of a string. -/
def Json.str? : Json → Option String
  | .str s => some s
  | _ => none

/-- `bayan_json_v_int`, of an integer. -/
def Json.int? : Json → Option Int64
  | .int n => some n
  | _ => none

/-- The elements that are strings; none of what is no array. -/
def Json.strs : Json → List String
  | .arr elems => elems.filterMap str?
  | _ => []

variable (v : Json)

/-- `_agnosai_str_field`. -/
def Json.strField (key : String) : Option String := (v.objGet key).bind str?

/-- `_agnosai_int_field`. -/
def Json.intField (key : String) (fallback : Int64) : Int64 :=
  ((v.objGet key).bind int?).getD fallback

/-- `_agnosai_bool_field`. -/
def Json.boolField (key : String) : Bool :=
  match v.objGet key with
  | some (.bool b) => b
  | _ => false

/-- `_agnosai_opt_str_to_value`. -/
def optStrToValue : Option String → Json
  | none => .null
  | some s => .str s

/-- `_agnosai_opt_int_to_value`. -/
def optIntToValue (n : Int64) : Json := if n = noLimit then .null else .int n

/-- `_agnosai_opt_int_field`. -/
def Json.optIntField (key : String) : Int64 := v.intField key noLimit

/-! ### Hardware -/

/-- `AgnosaiAcceleratorFamily`. -/
inductive AcceleratorFamily where
  | cpu
  | gpu
  | npu
  | tpu
  | aiAsic
  deriving Repr, DecidableEq

/-- `AgnosaiAcceleratorType`. -/
inductive AcceleratorType where
  | cpu
  | cuda
  | rocm
  | metal
  | vulkan
  | tpu
  deriving Repr, DecidableEq

/-- `agnosai_accelerator_family_to_wire`. -/
def AcceleratorFamily.toWire : AcceleratorFamily → String
  | .gpu => "gpu"
  | .npu => "npu"
  | .tpu => "tpu"
  | .aiAsic => "ai_asic"
  | .cpu => "cpu"

/-- `agnosai_accelerator_family_from_wire`. Unknown spellings read as a CPU. -/
def AcceleratorFamily.fromWire (s : String) : AcceleratorFamily :=
  if s = "gpu" then .gpu
  else if s = "npu" then .npu
  else if s = "tpu" then .tpu
  else if s = "ai_asic" then .aiAsic
  else .cpu

/-- `agnosai_accelerator_type_to_wire`. -/
def AcceleratorType.toWire : AcceleratorType → String
  | .cuda => "cuda"
  | .rocm => "rocm"
  | .metal => "metal"
  | .vulkan => "vulkan"
  | .tpu => "tpu"
  | .cpu => "cpu"

/-- `agnosai_accelerator_type_from_wire`. Unknown spellings read as a CPU. -/
def AcceleratorType.fromWire (s : String) : AcceleratorType :=
  if s = "cuda" then .cuda
  else if s = "rocm" then .rocm
  else if s = "metal" then .metal
  else if s = "vulkan" then .vulkan
  else if s = "tpu" then .tpu
  else .cpu

theorem AcceleratorFamily.fromWire_toWire (f : AcceleratorFamily) : fromWire f.toWire = f := by
  cases f <;> rfl

theorem AcceleratorType.fromWire_toWire (t : AcceleratorType) : fromWire t.toWire = t := by
  cases t <;> rfl

/-- `HardwareRequirement`. -/
structure HwRequirement where
  accelerators : List AcceleratorType := []
  minMemoryMb : Int64 := 0
  minDeviceCount : Int64 := 0
  minCpuCores : Int64 := 0
  requiredFamily : Option AcceleratorFamily := none
  deriving DecidableEq

/-- `agnosai_hw_requirement_to_value`. An unset family is left out, not written as null. -/
def HwRequirement.toValue (r : HwRequirement) : Json :=
  .obj <|
    [("accelerators", .arr (r.accelerators.map fun t => .str t.toWire)),
      ("min_memory_mb", .int r.minMemoryMb),
      ("min_device_count", .int r.minDeviceCount),
      ("min_cpu_cores", .int r.minCpuCores)] ++
    match r.requiredFamily with
    | none => []
    | some f => [("required_family", .str f.toWire)]

/-- `agnosai_hw_requirement_from_value`. -/
def HwRequirement.fromValue : HwRequirement where
  accelerators := ((v.objGet "accelerators").map strs).getD [] |>.map AcceleratorType.fromWire
  minMemoryMb := v.intField "min_memory_mb" 0
  minDeviceCount := v.intField "min_device_count" 0
  minCpuCores := v.intField "min_cpu_cores" 0
  requiredFamily := (v.strField "required_family").map AcceleratorFamily.fromWire

theorem strs_arr_map {α : Type} (f : α → String) (l : List α) :
    (arr (l.map fun x => .str (f x))).strs = l.map f := by
  induction l with
  | nil => rfl
  | cons x l ih => exact congrArg (f x :: ·) ih

/-- A requirement reads back. -/
theorem HwRequirement.fromValue_toValue (r : HwRequirement) : fromValue r.toValue = r := by
  obtain ⟨accelerators, minMemoryMb, minDeviceCount, minCpuCores, requiredFamily⟩ := r
  have haccel : (accelerators.map AcceleratorType.toWire).map AcceleratorType.fromWire =
      accelerators := by
    rw [List.map_map]
    exact List.map_id'' AcceleratorType.fromWire_toWire accelerators
  cases requiredFamily with
  | none =>
    simp [fromValue, toValue, objGet, intField, int?, strField, strs_arr_map, haccel]
  | some =>
    simp [fromValue, toValue, objGet, intField, int?, strField, str?,
      strs_arr_map, haccel, AcceleratorFamily.fromWire_toWire]

/-! ### Definitions -/

/-- `AgentDefinition`. The memory is `noLimit` when unset. -/
structure AgentDefinition where
  agentKey : String
  name : String
  role : String
  goal : String
  backstory : Option String := none
  domain : Option String := none
  tools : List String := []
  complexity : String := "medium"
  llmModel : Option String := none
  gpuRequired : Bool := false
  gpuPreferred : Bool := false
  gpuMemoryMinMb : Int64 := noLimit
  hardware : Option HwRequirement := none
  deriving DecidableEq

/-- `agnosai_agent_to_value`. -/
def AgentDefinition.toValue (a : AgentDefinition) : Json :=
  .obj
    [("agent_key", .str a.agentKey),
      ("name", .str a.name),
      ("role", .str a.role),
      ("goal", .str a.goal),
      ("backstory", optStrToValue a.backstory),
      ("domain", optStrToValue a.domain),
      ("tools", .arr (a.tools.map fun t => .str t)),
      ("complexity", .str a.complexity),
      ("llm_model", optStrToValue a.llmModel),
      ("gpu_required", .bool a.gpuRequired),
      ("gpu_preferred", .bool a.gpuPreferred),
      ("gpu_memory_min_mb", optIntToValue a.gpuMemoryMinMb),
      ("hardware", (a.hardware.map HwRequirement.toValue).getD .null),
      ("personality", .null)]

/-- The hardware of a definition: an object is read as a requirement, anything else as none. -/
def hardwareField : Option HwRequirement :=
  ((v.objGet "hardware").filter isObj).map HwRequirement.fromValue

/-- `agnosai_agent_from_value`. -/
def AgentDefinition.fromValue : Option AgentDefinition :=
  match v.strField "agent_key", v.strField "name", v.strField "role", v.strField "goal" with
  | some key, some name, some role, some goal =>
    some {
      agentKey := key
      name := name
      role := role
      goal := goal
      backstory := v.strField "backstory"
      domain := v.strField "domain"
      tools := ((v.objGet "tools").map strs).getD []
      complexity := (v.strField "complexity").getD "medium"
      llmModel := v.strField "llm_model"
      gpuRequired := v.boolField "gpu_required"
      gpuPreferred := v.boolField "gpu_preferred"
      gpuMemoryMinMb := v.optIntField "gpu_memory_min_mb"
      hardware := hardwareField v }
  | _, _, _, _ => none

theorem str?_str (s : String) : (str s).str? = some s := rfl

theorem str?_optStrToValue (o : Option String) : (optStrToValue o).str? = o := by
  cases o <;> rfl

theorem int?_optIntToValue (n : Int64) : ((optIntToValue n).int?).getD noLimit = n := by
  unfold optIntToValue
  split
  next h => exact h.symm
  next => rfl

theorem hardware_toValue (o : Option HwRequirement) :
    ((some ((o.map HwRequirement.toValue).getD .null)).filter isObj).map
      HwRequirement.fromValue = o := by
  cases o with
  | none => rfl
  | some r => exact congrArg some r.fromValue_toValue

/-- **Every definition is read back from its value.** -/
theorem AgentDefinition.fromValue_toValue (a : AgentDefinition) : fromValue a.toValue = some a := by
  have htools : (arr (a.tools.map fun t => .str t)).strs = a.tools :=
    (strs_arr_map id a.tools).trans (List.map_id _)
  simp [fromValue, toValue, hardwareField, objGet, strField, str?_str, boolField,
    optIntField, intField, str?_optStrToValue, int?_optIntToValue, hardware_toValue, htools]

end Agnosai
