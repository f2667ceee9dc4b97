import Agnosai.Core.Task

/-!
# Core — JSON library

The JSON library `bayan`, as far as the engine uses it, is a parameter on texts of a type `τ`. A
value's JSON text (`Json.text`) gives libraries that write and read the texts of some values.
-/

namespace Agnosai

/-- What is used of the JSON library. -/
structure JsonLib (τ : Type) where
  /-- `bayan_json_v_parse_buf`, whose error is the text of `bayan_json_last_error`. -/
  parseBuf : τ → Except String Json
  /-- `bayan_json_v_build`. -/
  build : Json → τ
  /-- `bayan_json_v_build_pretty`, with its indent. -/
  buildPretty : Json → Nat → Option τ
  /-- `bayan_json_v_obj_get`, on the fields of an object. -/
  objGet : List (String × Json) → String → Option Json

/-- A character as it stands in a JSON string. -/
def escape (c : Char) : List Char :=
  if c = '"' ∨ c = '\\' then ['\\', c]
  else if c.toNat < 32 then
    "\\u00".toList ++ [Nat.digitChar (c.toNat / 16), Nat.digitChar (c.toNat % 16)]
  else [c]

def quoted (s : String) : String := String.ofList ('"' :: s.toList.flatMap escape ++ ['"'])

namespace Json

mutual

/-- The JSON text of a value, without blanks. -/
def text : Json → String
  | .null => "null"
  | .bool b => toString b
  | .int n => toString n
  | .float text => text
  | .str s => quoted s
  | .arr elems => "[" ++ ",".intercalate (texts elems) ++ "]"
  | .obj fields => "\x7b" ++ ",".intercalate (fieldTexts fields) ++ "\x7d"

def texts : List Json → List String
  | [] => []
  | v :: vs => v.text :: texts vs

def fieldTexts : List (String × Json) → List String
  | [] => []
  | (key, v) :: fields => (quoted key ++ ":" ++ v.text) :: fieldTexts fields

end

theorem texts_eq (vs : List Json) : texts vs = vs.map text := by
  induction vs with
  | nil => rfl
  | cons v vs ih => rw [texts, ih, List.map_cons]

end Json

namespace JsonLib

variable {τ : Type} [DecidableEq τ] (encode : String → τ) {values : List Json} {v : Json}

/-- A library that writes JSON texts, and reads those of `values`. -/
def reading (values : List Json) : JsonLib τ where
  parseBuf text :=
    match values.find? fun v => encode v.text = text with
    | some v => .ok v
    | none => .error "unexpected text"
  build v := encode v.text
  buildPretty v _ := some (encode v.text)
  objGet fields key := fields.lookup key

/-- The text of the first of the values reads as it. -/
theorem parseBuf_reading_cons (v : Json) (values : List Json) :
    (reading encode (v :: values)).parseBuf (encode v.text) = .ok v := by
  simp [reading]

theorem parseBuf_reading_id (v : Json) (values : List Json) :
    (reading id (v :: values)).parseBuf v.text = .ok v := parseBuf_reading_cons id v values

open Classical in
/-- A library that writes and reads the texts of `values` and no others. -/
noncomputable def only (values : List Json) : JsonLib String :=
  { reading id values with buildPretty := fun v _ => if v ∈ values then some v.text else none }

theorem buildPretty_only (h : v ∈ values) (indent : Nat) :
    (only values).buildPretty v indent = some v.text := if_pos h

/-- What it writes it reads back, where no two of the texts are the same. -/
theorem parseBuf_only (hnodup : (values.map Json.text).Nodup) {indent : Nat} {text : String}
    (h : (only values).buildPretty v indent = some text) :
    (only values).parseBuf text = .ok v := by
  simp only [only, Option.ite_none_right_eq_some, Option.some.injEq] at h
  obtain ⟨hv, rfl⟩ := h
  have hfind : values.find? (fun w => w.text = v.text) = some v := by
    induction values with
    | nil => cases hv
    | cons w values ih =>
      obtain ⟨hw, hnodup⟩ := List.nodup_cons.1 hnodup
      rcases List.mem_cons.1 hv with rfl | hv
      · simp
      · have hne : w.text ≠ v.text := fun heq => hw (heq ▸ List.mem_map_of_mem hv)
        simpa [hne] using ih hnodup hv
  simp [only, reading, hfind]

end JsonLib

end Agnosai
