import Mathlib.Data.List.Infix
import Mathlib.Data.List.TakeWhile
import Agnosai.Core.Agent
import Agnosai.Core.JsonLib
import Agnosai.Support.Loop

/-!
# Definitions — Packaging

`.agpkg` bundles, after `definitions/packaging.cyr`: a package is exported as a ZIP archive with a
manifest and one member per definition, and imported from one. The ZIP and the JSON library are
parameters; `Inverse` says that what they write they read back. A member name is handed to the ZIP
library as a C string. Allocation failures are left out.

Export has no limit on the number of members or on their size, and takes any key. Import has all
three limits, so the round trip is not the identity (`import_export`).
-/

namespace Agnosai.Packaging

open List

/-- `AGNOSAI_PKG_MAX_FILE_SIZE`. -/
def maxFileSize : Nat := 1048576

/-- `AGNOSAI_PKG_MAX_ENTRIES`. -/
def maxEntries : Nat := 100

/-- `AGNOSAI_PKG_JSON_INDENT`. -/
def jsonIndent : Nat := 2

/-- The variants of `AgnosaiError` raised here. -/
inductive Error where
  | invalidDefinition (detail : String)
  | serialization (detail : String)
  | io (detail : String)
  | other (detail : String)
  deriving Repr, DecidableEq

/-! ### The libraries -/

/-- `AGNOSAI_PKG_STAGE_*`: which call of the writer failed. -/
inductive Stage where
  | add
  | finish
  deriving Repr, DecidableEq

/-- `zip_last_error`, as far as import tells it apart. -/
inductive OpenError where
  | outOfMemory
  | unsupportedFormat
  | unreadable
  deriving Repr, DecidableEq

/-- A member of an archive as the reader shows it: `zip_entry_name`, `zip_entry_size`,
`zip_method_supported` of its method, and `zip_extract_any`, which can fail with a code. -/
structure Entry where
  name : Option String
  size : Int
  supported : Bool
  extract : Except Int String

/-- The ZIP library, on archives of type `β`. The writer takes names as C strings. -/
structure ZipLib (β : Type) where
  write : List (String × String) → Except (Stage × Int) β
  openArchive : β → Except OpenError (List Entry)

/-- The entry of a member that was written. -/
def written (member : String × String) : Entry where
  name := some member.1
  size := member.2.utf8ByteSize
  supported := true
  extract := .ok member.2

/-- What the libraries write they read back. -/
structure Inverse {β : Type} (zip : ZipLib β) (json : JsonLib String) : Prop where
  archive : ∀ members bytes, zip.write members = .ok bytes →
    zip.openArchive bytes = .ok (members.map written)
  value : ∀ v indent text, json.buildPretty v indent = some text → json.parseBuf text = .ok v

/-! ### Export -/

/-- `AgnosPackage`. -/
structure Package where
  name : String
  version : String
  definitions : List AgentDefinition := []
  metadata : Json := .obj []

/-- `_agnosai_pkg_manifest_value`. -/
def manifestValue (p : Package) : Json :=
  .obj [("name", .str p.name), ("version", .str p.version), ("metadata", p.metadata)]

/-- `_agnosai_pkg_member_name`. -/
def memberName (agentKey : String) : String := "definitions/" ++ agentKey ++ ".json"

/-- `_agnosai_pkg_zip_detail`. -/
def zipDetail (what : String) (rc : Int) : String := what ++ ": sankoch error " ++ toString (-rc)

variable (json : JsonLib String)

/-- One definition as a member. -/
def definitionMember (d : AgentDefinition) : Except Error (String × String) :=
  match json.buildPretty d.toValue jsonIndent with
  | none => .error (.serialization ("could not serialize " ++ d.agentKey))
  | some body => .ok (memberName d.agentKey, body)

/-- `_agnosai_pkg_members`: the manifest, then each definition. -/
def members (p : Package) : Except Error (List (String × String)) :=
  match json.buildPretty (manifestValue p) jsonIndent with
  | none => .error (.serialization "could not serialize manifest.json")
  | some manifest => do
    let defs ← p.definitions.mapM (definitionMember json)
    return ("manifest.json", manifest) :: defs

/-- `_agnosai_pkg_duplicate_name`: the first member name that appears again. -/
def duplicateName : List (String × String) → Option String
  | [] => none
  | m :: rest => if m.1 ∈ rest.map Prod.fst then some m.1 else duplicateName rest

/-- What a C function sees of a string. -/
def cstr (s : String) : String := String.ofList (s.toList.takeWhile (· ≠ '\x00'))

/-- `agnosai_package_export`. -/
def packageExport {β : Type} (zip : ZipLib β) (json : JsonLib String) (p : Package) :
    Except Error β := do
  let ms ← members json p
  match duplicateName ms with
  | some name => .error (.other ("zip error: duplicate filename: " ++ name))
  | none =>
    match zip.write (ms.map fun m => (cstr m.1, m.2)) with
    | .ok bytes => .ok bytes
    | .error (.finish, rc) => .error (.other (zipDetail "zip finish error" rc))
    | .error (.add, rc) => .error (.other (zipDetail "zip error" rc))

/-! ### Import -/

/-- `zip_open`, and what import makes of its failure. -/
def openZip {β : Type} (zip : ZipLib β) (bytes : β) : Except Error (List Entry) :=
  match zip.openArchive bytes with
  | .ok z => .ok z
  | .error .outOfMemory => .error (.io "out of memory reading the archive index")
  | .error .unsupportedFormat =>
    .error (.invalidDefinition "invalid zip: encrypted or multi-disk archives are not supported")
  | .error .unreadable => .error (.invalidDefinition "invalid zip: not a readable archive")

/-- One turn of the loop over the names. -/
def addName (out : List String) (e : Entry) : List String :=
  match e.name with
  | none => out
  | some name => if name ∈ out then out else out ++ [name]

variable (z : List Entry)

/-- `_agnosai_pkg_unique_names`: the distinct names, in order of first appearance. -/
def uniqueNames : List String := z.foldl addName []

/-- `_agnosai_pkg_find_last`. -/
def findLast (name : String) : Option Entry :=
  z.foldl (fun found e => if e.name = some name then some e else found) none

/-- `_agnosai_pkg_is_definition_member`. -/
def isDefinitionMember (name : String) : Bool :=
  !decide ("..".toList <:+: name.toList) && decide ("definitions/".toList <+: name.toList) &&
    decide (".json".toList <:+ name.toList)

/-- `_agnosai_pkg_read_member`. -/
def readMember (e : Entry) (what : String) : Except Error String :=
  if e.size < 0 then .error (.io (zipDetail "unreadable archive member" e.size))
  else if maxFileSize < e.size then
    .error (.invalidDefinition (what ++ " exceeds 1 MiB size limit"))
  else
    match e.extract with
    | .error rc => .error (.io (zipDetail "read failed" rc))
    | .ok text => .ok text

/-- The package of a manifest, with no definitions yet. -/
def packageOf (manifest : Json) : Except Error Package :=
  if manifest.isObj then
    match manifest.objGet "name", manifest.objGet "version", manifest.objGet "metadata" with
    | some name, some version, some metadata =>
      match name.str?, version.str? with
      | some name, some version => .ok { name := name, version := version, metadata := metadata }
      | _, _ => .error (.serialization "manifest.json name and version must be strings")
    | _, _, _ => .error (.serialization "manifest.json is missing a required field")
  else .error (.serialization "manifest.json is not an object")

/-- The manifest of an archive, read and parsed. -/
def readManifest : Except Error Package := do
  match findLast z "manifest.json" with
  | none => .error (.invalidDefinition "missing manifest.json: no such member")
  | some e =>
    let src ← readMember e "manifest.json"
    match json.parseBuf src with
    | .error detail => .error (.serialization detail)
    | .ok v => packageOf v

/-- `agnosai_load_from_json`. -/
def loadFromJson (text : String) : Except Error AgentDefinition :=
  match json.parseBuf text with
  | .error detail => .error (.serialization detail)
  | .ok v =>
    match AgentDefinition.fromValue v with
    | none => .error (.serialization "missing or malformed agent definition field")
    | some d => .ok d

/-- One turn of the second loop of import: a member by its name. -/
def loadMember (want : String) : Except Error AgentDefinition := do
  match findLast z want with
  | none => .error (.other "zip read error: member vanished")
  | some e =>
    let src ← readMember e want
    loadFromJson json src

/-- `_agnosai_pkg_can_decode`, of the last member of that name. -/
def canDecode (name : String) : Bool :=
  match findLast z name with
  | none => false
  | some e => e.supported

/-- `agnosai_package_import`. -/
def packageImport {β : Type} (zip : ZipLib β) (json : JsonLib String) (bytes : β) :
    Except Error Package := do
  let z ← openZip zip bytes
  let names := uniqueNames z
  if maxEntries < names.length then
    .error (.invalidDefinition ("package has " ++ toString names.length ++ " entries, max is " ++
      toString maxEntries))
  else
    let pkg ← readManifest json z
    let wanted := names.filter fun name => isDefinitionMember name && canDecode z name
    let defs ← wanted.mapM (loadMember json z)
    return { pkg with definitions := defs }

variable {β : Type} {zip : ZipLib β} {json : JsonLib String} {p : Package}
  {ms : List (String × String)}

/-! ### What export writes -/

/-- The text of a value, where the builder makes one. -/
def text (json : JsonLib String) (v : Json) : String := (json.buildPretty v jsonIndent).getD ""

def memberOf (json : JsonLib String) (d : AgentDefinition) : String × String :=
  (memberName d.agentKey, text json d.toValue)

def lastRecord (name : String) : Option Entry :=
  z.reverse.find? fun e => e.name = some name

theorem findLast_eq (name : String) : findLast z name = lastRecord z name := by
  rw [findLast, lastRecord, ← foldr_reverse]
  induction z.reverse with
  | nil => rfl
  | cons e z ih =>
    rw [foldr_cons, ih, find?_cons]
    by_cases h : e.name = some name <;> simp [h]

variable {d : AgentDefinition} {z : List Entry} {m : String × String}

theorem definitionMember_ok (h : definitionMember json d = .ok m) :
    m = memberOf json d ∧ json.buildPretty d.toValue jsonIndent = some (text json d.toValue) := by
  unfold definitionMember at h
  split at h
  · cases h
  next hbody =>
    cases h
    simp [memberOf, text, hbody]

theorem members_ok (h : members json p = .ok ms) :
    ms = ("manifest.json", text json (manifestValue p)) :: p.definitions.map (memberOf json) ∧
      json.buildPretty (manifestValue p) jsonIndent = some (text json (manifestValue p)) ∧
      ∀ d ∈ p.definitions,
        json.buildPretty d.toValue jsonIndent = some (text json d.toValue) := by
  unfold members at h
  split at h
  · cases h
  next manifest hmanifest =>
  obtain ⟨defs, hdefs, h⟩ := bind_ok h
  cases h
  obtain ⟨rfl, hall⟩ := mapM_ok (fun _ _ => definitionMember_ok) hdefs
  have htext : text json (manifestValue p) = manifest := by rw [text, hmanifest, Option.getD_some]
  exact ⟨by rw [htext], by rw [htext, hmanifest], hall⟩

theorem duplicateName_eq_none : duplicateName ms = none ↔ (ms.map Prod.fst).Nodup := by
  induction ms with
  | nil => simp [duplicateName]
  | cons m ms ih =>
    rw [duplicateName, map_cons, nodup_cons, ← ih]
    split <;> simp [*]

variable {bytes : β}

/-- What a successful export has done. -/
theorem export_ok (h : packageExport zip json p = .ok bytes) :
    ∃ ms, members json p = .ok ms ∧ (ms.map Prod.fst).Nodup ∧
      zip.write (ms.map fun m => (cstr m.1, m.2)) = .ok bytes := by
  obtain ⟨ms, hms, h⟩ := bind_ok h
  split at h
  · cases h
  next hdup =>
  refine ⟨ms, hms, duplicateName_eq_none.1 hdup, ?_⟩
  split at h <;> cases h
  assumption

/-- A name without a zero byte is the same as a C string. -/
theorem cstr_eq {s : String} (h : '\x00' ∉ s.toList) : cstr s = s := by
  have htake : s.toList.takeWhile (· ≠ '\x00') = s.toList := by
    rw [takeWhile_eq_self_iff]
    intro c hc
    exact decide_eq_true fun he => h (he ▸ hc)
  rw [cstr, htake, String.ofList_toList]

theorem zero_not_mem_memberName {key : String} (h : '\x00' ∉ key.toList) :
    '\x00' ∉ (memberName key).toList := by
  rw [memberName, String.toList_append, String.toList_append, mem_append, mem_append]
  rintro ((hmem | hmem) | hmem)
  · exact absurd hmem (by decide)
  · exact h hmem
  · exact absurd hmem (by decide)

/-! ### What import reads of it -/

variable (z)

/-- The distinct names of an archive, in order of first appearance. -/
def distinctNames : List String := (z.filterMap Entry.name).eraseDups

theorem uniqueNames_eq : uniqueNames z = distinctNames z := by
  induction z using reverseRecOn with
  | nil => rfl
  | append_singleton z e ih =>
    have hsnoc : uniqueNames (z ++ [e]) = addName (uniqueNames z) e := foldl_concat _ _ e z
    rw [hsnoc, ih, addName, distinctNames, distinctNames, filterMap_append]
    generalize z.filterMap Entry.name = names
    cases hname : e.name with
    | none => simp [hname]
    | some name =>
      by_cases hmem : name ∈ names <;>
        simp [hname, hmem, eraseDups_append, removeAll, eraseDups_cons]

theorem eraseDups_of_nodup {l : List String} (h : l.Nodup) : l.eraseDups = l := by
  induction l with
  | nil => rfl
  | cons x l ih =>
    obtain ⟨hx, hl⟩ := nodup_cons.1 h
    have hkeep : l.filter (fun y => !y == x) = l :=
      filter_eq_self.2 fun y hy => by simpa using ne_of_mem_of_not_mem hy hx
    rw [eraseDups_cons, hkeep, ih hl]

theorem uniqueNames_written (hnodup : (ms.map Prod.fst).Nodup) :
    uniqueNames (ms.map written) = ms.map Prod.fst := by
  have hnames : (ms.map written).filterMap Entry.name = ms.map Prod.fst := by
    simp [filterMap_map, Function.comp_def, written]
  rw [uniqueNames_eq, distinctNames, hnames, eraseDups_of_nodup hnodup]

/-- The last member of a name is the only one. -/
theorem findLast_written (hnodup : (ms.map Prod.fst).Nodup) (hm : m ∈ ms) :
    findLast (ms.map written) m.1 = some (written m) := by
  obtain ⟨pre, post, rfl⟩ := append_of_mem hm
  rw [findLast_eq, lastRecord, find?_eq_some_iff_append]
  refine ⟨decide_eq_true rfl, (post.map written).reverse, (pre.map written).reverse, by simp, ?_⟩
  intro e he
  obtain ⟨x, hx, rfl⟩ := mem_map.1 (mem_reverse.1 he)
  rw [map_append, map_cons] at hnodup
  have hne : x.1 ≠ m.1 := fun heq =>
    (nodup_cons.1 (nodup_append.1 hnodup).2.1).1 (heq ▸ mem_map_of_mem hx)
  simp [written, hne]

theorem readMember_written (what : String) :
    readMember (written m) what = if maxFileSize < m.2.utf8ByteSize then
      .error (.invalidDefinition (what ++ " exceeds 1 MiB size limit")) else .ok m.2 := by
  have hneg : ¬ (m.2.utf8ByteSize : Int) < 0 := Int.not_lt.2 (Int.natCast_nonneg _)
  simp only [readMember, written, if_neg hneg, Int.ofNat_lt]

/-- Import keeps a definition unless its member name has two dots in a row. -/
def kept (d : AgentDefinition) : Bool := !decide ("..".toList <:+: (memberName d.agentKey).toList)

variable (key : String)

theorem isDefinitionMember_memberName :
    isDefinitionMember (memberName key) = !decide ("..".toList <:+: (memberName key).toList) := by
  have hpre : "definitions/".toList <+: (memberName key).toList := by
    rw [memberName, String.append_assoc, String.toList_append]
    exact prefix_append _ _
  have hsuf : ".json".toList <:+ (memberName key).toList := by
    rw [memberName, String.toList_append]
    exact suffix_append _ _
  rw [isDefinitionMember, decide_eq_true hpre, decide_eq_true hsuf, Bool.and_true, Bool.and_true]

theorem packageOf_manifestValue :
    packageOf (manifestValue p) = .ok { p with definitions := [] } := by
  simp [packageOf, manifestValue, Json.isObj, Json.objGet, Json.str?]

theorem loadFromJson_text (hinv : Inverse zip json)
    (hbuild : json.buildPretty d.toValue jsonIndent = some (text json d.toValue)) :
    loadFromJson json (text json d.toValue) = .ok d := by
  rw [loadFromJson, hinv.value _ _ _ hbuild]
  dsimp only
  rw [AgentDefinition.fromValue_toValue]

/-- The manifest that was written. -/
theorem readManifest_written (hinv : Inverse zip json) (hnodup : (ms.map Prod.fst).Nodup)
    (hmem : ("manifest.json", text json (manifestValue p)) ∈ ms)
    (hbuild : json.buildPretty (manifestValue p) jsonIndent = some (text json (manifestValue p))) :
    readManifest json (ms.map written) =
      if maxFileSize < (text json (manifestValue p)).utf8ByteSize then
        .error (.invalidDefinition "manifest.json exceeds 1 MiB size limit")
      else .ok { p with definitions := [] } := by
  have hfind : findLast (ms.map written) "manifest.json" = _ := findLast_written hnodup hmem
  rw [readManifest, hfind]
  dsimp only
  rw [readMember_written]
  split
  · rfl
  · simp only [bind, Except.bind, hinv.value _ _ _ hbuild, packageOf_manifestValue]

/-- A definition that was written. -/
theorem loadMember_written (hinv : Inverse zip json) (hnodup : (ms.map Prod.fst).Nodup)
    (hmem : memberOf json d ∈ ms)
    (hbuild : json.buildPretty d.toValue jsonIndent = some (text json d.toValue)) :
    loadMember json (ms.map written) (memberName d.agentKey) =
      if maxFileSize < (text json d.toValue).utf8ByteSize then
        .error (.invalidDefinition (memberName d.agentKey ++ " exceeds 1 MiB size limit"))
      else .ok d := by
  have hfind : findLast (ms.map written) (memberName d.agentKey) = _ := findLast_written hnodup hmem
  rw [loadMember, hfind]
  dsimp only
  rw [readMember_written, memberOf]
  by_cases hbig : maxFileSize < (text json d.toValue).utf8ByteSize
  · rw [if_pos hbig, if_pos hbig]
    rfl
  · rw [if_neg hbig, if_neg hbig]
    exact loadFromJson_text hinv hbuild

/-- The names import goes through: those of the definitions it keeps. -/
theorem wanted_written (hnodup : (ms.map Prod.fst).Nodup)
    (hms : ms = ("manifest.json", text json (manifestValue p)) ::
      p.definitions.map (memberOf json)) :
    ((ms.map Prod.fst).filter fun name =>
        isDefinitionMember name && canDecode (ms.map written) name) =
      (p.definitions.filter kept).map fun d => memberName d.agentKey := by
  have hdecode : ∀ m ∈ ms, canDecode (ms.map written) m.1 = true := by
    intro m hm
    rw [canDecode, findLast_written hnodup hm]
    rfl
  have hfilter : ((ms.map Prod.fst).filter fun name =>
      isDefinitionMember name && canDecode (ms.map written) name) =
      (ms.map Prod.fst).filter isDefinitionMember := by
    refine filter_congr fun name hname => ?_
    obtain ⟨m, hm, rfl⟩ := mem_map.1 hname
    rw [hdecode m hm, Bool.and_true]
  have hmanifest : isDefinitionMember "manifest.json" = false := by decide
  rw [hfilter, hms, map_cons, filter_cons_of_neg (by rw [hmanifest]; decide), map_map, filter_map]
  refine congrArg (map _) (filter_congr fun d _ => ?_)
  exact isDefinitionMember_memberName d.agentKey

/-! ### The round trip -/

/-- Whether the text of a definition is over the limit. -/
def tooBig (json : JsonLib String) (d : AgentDefinition) : Bool :=
  maxFileSize < (text json d.toValue).utf8ByteSize

/-- What an exported package is imported as. -/
def readBack (json : JsonLib String) (p : Package) : Except Error Package :=
  if maxEntries < p.definitions.length + 1 then
    .error (.invalidDefinition ("package has " ++ toString (p.definitions.length + 1) ++
      " entries, max is " ++ toString maxEntries))
  else if maxFileSize < (text json (manifestValue p)).utf8ByteSize then
    .error (.invalidDefinition "manifest.json exceeds 1 MiB size limit")
  else
    match (p.definitions.filter kept).find? (tooBig json) with
    | some d => .error (.invalidDefinition (memberName d.agentKey ++ " exceeds 1 MiB size limit"))
    | none => .ok { p with definitions := p.definitions.filter kept }

/-- The second loop of import, over the definitions that were written. -/
theorem loadAll_written (hinv : Inverse zip json) (hnodup : (ms.map Prod.fst).Nodup)
    (ds : List AgentDefinition) (hmem : ∀ d ∈ ds, memberOf json d ∈ ms)
    (hbuild : ∀ d ∈ ds, json.buildPretty d.toValue jsonIndent = some (text json d.toValue)) :
    (ds.map fun d => memberName d.agentKey).mapM (loadMember json (ms.map written)) =
      match ds.find? (tooBig json) with
      | some d => .error (.invalidDefinition (memberName d.agentKey ++ " exceeds 1 MiB size limit"))
      | none => .ok ds := by
  have hload : ∀ d ∈ ds, loadMember json (ms.map written) (memberName d.agentKey) =
      if tooBig json d then
        .error (.invalidDefinition (memberName d.agentKey ++ " exceeds 1 MiB size limit"))
      else .ok (id d) := by
    intro d hd
    rw [loadMember_written hinv hnodup (hmem d hd) (hbuild d hd)]
    simp [tooBig, id_eq]
  rw [mapM_map]
  refine (mapM_find hload).trans ?_
  rw [map_id]
  cases ds.find? (tooBig json) with
  | some => rfl
  | none => rfl

theorem cstr_members (hms : ms = ("manifest.json", text json (manifestValue p)) ::
      p.definitions.map (memberOf json))
    (hkeys : ∀ d ∈ p.definitions, '\x00' ∉ d.agentKey.toList) :
    (ms.map fun m => (cstr m.1, m.2)) = ms := by
  have hmanifest : '\x00' ∉ "manifest.json".toList := by decide
  have hall : ∀ m ∈ ms, (cstr m.1, m.2) = m := by
    subst hms
    refine forall_mem_cons.2 ⟨?_, fun m hm => ?_⟩
    · rw [cstr_eq hmanifest]
    · obtain ⟨d, hd, rfl⟩ := mem_map.1 hm
      rw [memberOf, cstr_eq (zero_not_mem_memberName (hkeys d hd))]
  exact (map_congr_left hall).trans (map_id' ms)

/-- An import reads back what was exported. -/
theorem import_of_export (hinv : Inverse zip json) (hexport : packageExport zip json p = .ok bytes)
    (hkeys : ∀ d ∈ p.definitions, '\x00' ∉ d.agentKey.toList) :
    packageImport zip json bytes = readBack json p := by
  obtain ⟨ms, hmembers, hnodup, hwrite⟩ := export_ok hexport
  obtain ⟨hms, hmanifest, hdefs⟩ := members_ok hmembers
  rw [cstr_members hms hkeys] at hwrite
  have hopen : openZip zip bytes = .ok (ms.map written) := by
    rw [openZip, hinv.archive ms bytes hwrite]
  have hlen : (ms.map Prod.fst).length = p.definitions.length + 1 := by
    rw [hms, map_cons, length_cons, length_map, length_map]
  have hmem : ("manifest.json", text json (manifestValue p)) ∈ ms := hms ▸ mem_cons_self
  have hload := loadAll_written hinv hnodup (p.definitions.filter kept)
    (fun d hd => hms ▸ mem_cons_of_mem _ (mem_map_of_mem (mem_of_mem_filter hd)))
    (fun d hd => hdefs d (mem_of_mem_filter hd))
  rw [packageImport, hopen]
  simp only [bind, Except.bind, uniqueNames_written hnodup, hlen, wanted_written hnodup hms, hload,
    readManifest_written hinv hnodup hmem hmanifest]
  unfold readBack
  by_cases hmany : maxEntries < p.definitions.length + 1
  · rw [if_pos hmany, if_pos hmany]
  · by_cases hbig : maxFileSize < (text json (manifestValue p)).utf8ByteSize
    · rw [if_pos hbig, if_pos hbig]
    · rw [if_neg hbig, if_neg hbig]
      cases (p.definitions.filter kept).find? (tooBig json) with
      | some => rfl
      | none => rfl

/-- The package comes back as it was: it has at most 99 definitions, none over the limit or with two
dots in a row in its member name, and its manifest is within the limit. -/
structure Fits (json : JsonLib String) (p : Package) : Prop where
  entries : p.definitions.length + 1 ≤ maxEntries
  manifest : (text json (manifestValue p)).utf8ByteSize ≤ maxFileSize
  names : ∀ d ∈ p.definitions, kept d = true
  sizes : ∀ d ∈ p.definitions, (text json d.toValue).utf8ByteSize ≤ maxFileSize

/-- A package survives just when it fits. -/
theorem readBack_eq_self : readBack json p = .ok p ↔ Fits json p := by
  unfold readBack
  constructor
  · intro h
    split at h
    · cases h
    next hmany =>
    split at h
    · cases h
    next hbig =>
    split at h
    · cases h
    next hfind =>
    have hp : { p with definitions := p.definitions.filter kept } = p := Except.ok.inj h
    have hfilter : p.definitions.filter kept = p.definitions := congrArg Package.definitions hp
    rw [hfilter, find?_eq_none] at hfind
    refine ⟨not_lt.1 hmany, not_lt.1 hbig, filter_eq_self.1 hfilter, fun d hd => ?_⟩
    exact not_lt.1 fun hlt => hfind d hd (decide_eq_true hlt)
  · intro h
    have hfilter : p.definitions.filter kept = p.definitions := filter_eq_self.2 h.names
    have hfind : p.definitions.find? (tooBig json) = none :=
      find?_eq_none.2 fun d hd hbig =>
        not_lt.2 (h.sizes d hd) (of_decide_eq_true hbig)
    rw [if_neg (not_lt.2 h.entries), if_neg (not_lt.2 h.manifest), hfilter, hfind]

/-- **The round trip of a package.** With libraries that read back what they write, an exported
package none of whose keys holds a zero byte is imported as `readBack` says, and as itself exactly
when it fits. -/
theorem import_export {bytes : β} (hinv : Inverse zip json)
    (hexport : packageExport zip json p = .ok bytes)
    (hkeys : ∀ d ∈ p.definitions, '\x00' ∉ d.agentKey.toList) :
    packageImport zip json bytes = readBack json p ∧
      (packageImport zip json bytes = .ok p ↔ Fits json p) := by
  have himport := import_of_export hinv hexport hkeys
  exact ⟨himport, himport ▸ readBack_eq_self⟩

/-! ### Any archive -/

/-- `agnosai_package_import` on its output slot: the error, and the slot afterwards. -/
def importInto {β : Type} (zip : ZipLib β) (json : JsonLib String) (bytes : β)
    (slot : Option Package) : Option Error × Option Package :=
  match packageImport zip json bytes with
  | .ok pkg => (none, some pkg)
  | .error e => (some e, slot)

/-- A definition's member whose last record can be decoded. -/
def wanted (name : String) : Bool :=
  isDefinitionMember name && (lastRecord z name).any Entry.supported

/-- More than 100 names, or a manifest or a definition to import that declares more than 1 MiB. -/
def Oversized : Prop :=
  maxEntries < (distinctNames z).length ∨
    ∃ name ∈ "manifest.json" :: (distinctNames z).filter (wanted z),
      ∃ e, lastRecord z name = some e ∧ maxFileSize < e.size

variable {z}

/-- What is read of a member: its last record, which is within the limit. -/
structure ReadFrom (z : List Entry) (name src : String) (e : Entry) : Prop where
  last : lastRecord z name = some e
  within : e.size ≤ maxFileSize
  text : e.extract = .ok src

theorem readMember_ok {name src what : String} {e : Entry}
    (hlast : findLast z name = some e) (h : readMember e what = .ok src) :
    ReadFrom z name src e := by
  unfold readMember at h
  split at h
  · cases h
  split at h
  · cases h
  next hsize =>
  split at h <;> cases h
  exact ⟨findLast_eq z name ▸ hlast, Int.not_lt.1 hsize, ‹_›⟩

theorem loadMember_ok {name : String} (h : loadMember json z name = .ok d) :
    ∃ e src, ReadFrom z name src e ∧ loadFromJson json src = .ok d := by
  unfold loadMember at h
  split at h
  · cases h
  next e hlast =>
  obtain ⟨src, hread, h⟩ := bind_ok h
  exact ⟨e, src, readMember_ok hlast hread, h⟩

theorem readManifest_ok (h : readManifest json z = .ok p) :
    ∃ e src, ReadFrom z "manifest.json" src e := by
  unfold readManifest at h
  split at h
  · cases h
  next e hlast =>
  obtain ⟨src, hread, -⟩ := bind_ok h
  exact ⟨e, src, readMember_ok hlast hread⟩

/-- An import that got through: the number of names, the manifest, and the definitions in turn. -/
theorem packageImport_ok (hopen : zip.openArchive bytes = .ok z)
    (h : packageImport zip json bytes = .ok p) :
    (distinctNames z).length ≤ maxEntries ∧ (∃ m, readManifest json z = .ok m) ∧
      List.Forall₂ (fun name d => loadMember json z name = .ok d)
        ((distinctNames z).filter (wanted z)) p.definitions := by
  have hwanted : (fun name => isDefinitionMember name && canDecode z name) = wanted z := by
    funext name
    rw [wanted, canDecode, findLast_eq]
    cases lastRecord z name <;> rfl
  rw [packageImport, openZip, hopen] at h
  obtain ⟨_, ⟨⟩, h⟩ := bind_ok h
  simp only [uniqueNames_eq, hwanted] at h
  split at h
  · cases h
  next hmany =>
  obtain ⟨m, hmanifest, h⟩ := bind_ok h
  obtain ⟨defs, hdefs, h⟩ := bind_ok h
  cases h
  exact ⟨not_lt.1 hmany, ⟨m, hmanifest⟩, mapM_forall₂ hdefs⟩

/-- **What an archive is imported as.** A successful import has, in order of first appearance, one
definition for each name that is wanted, read from the last record of the name; an oversized archive
is refused; and the slot is written on success only. -/
theorem import_archive {bytes : β} {z : List Entry} (hopen : zip.openArchive bytes = .ok z)
    (slot : Option Package) :
    ((importInto zip json bytes slot).1 = none →
      ∃ pkg, (importInto zip json bytes slot).2 = some pkg ∧
        List.Forall₂ (fun name d => ∃ e src, ReadFrom z name src e ∧ loadFromJson json src = .ok d)
          ((distinctNames z).filter (wanted z)) pkg.definitions) ∧
      (Oversized z → (importInto zip json bytes slot).1 ≠ none) ∧
      ((importInto zip json bytes slot).1 ≠ none → (importInto zip json bytes slot).2 = slot) := by
  unfold importInto
  cases himport : packageImport zip json bytes with
  | error => simp
  | ok pkg =>
    obtain ⟨hmany, ⟨m, hmanifest⟩, hdefs⟩ := packageImport_ok hopen himport
    refine ⟨fun _ => ⟨pkg, rfl, hdefs.imp fun _ _ => loadMember_ok⟩, ?_, fun h => absurd rfl h⟩
    rintro (hlt | ⟨name, hname, e, hlast, hsize⟩)
    · exact absurd hlt (not_lt.2 hmany)
    · have hread : ∃ e src, ReadFrom z name src e := by
        rcases mem_cons.1 hname with rfl | hname
        · exact readManifest_ok hmanifest
        · obtain ⟨i, hi, rfl⟩ := getElem_of_mem hname
          obtain ⟨e, src, hread, _⟩ := loadMember_ok (hdefs.get hi (hdefs.length_eq ▸ hi))
          exact ⟨e, src, hread⟩
      obtain ⟨e', src, hread⟩ := hread
      cases hlast.symm.trans hread.last
      exact absurd hsize (Int.not_lt.2 hread.within)

/-! ### Two packages -/

/-- An archive that is the list of its members. -/
def listZip : ZipLib (List (String × String)) where
  write members := .ok members
  openArchive z := .ok (z.map written)

/-- A definition with a given key. -/
def agent : AgentDefinition :=
  { agentKey := key, name := "agent", role := "reviewer", goal := "review" }

/-- A package of one definition. -/
def package : Package := { name := "pack", version := "1", definitions := [agent key] }

/-- The library that writes and reads the texts of its manifest and its definition. -/
noncomputable def packageJson (key : String) : JsonLib String :=
  .only [manifestValue (package key), (agent key).toValue]

theorem buildPretty_manifest :
    (packageJson key).buildPretty (manifestValue (package key)) jsonIndent
    = some (manifestValue (package key)).text := JsonLib.buildPretty_only mem_cons_self jsonIndent

theorem buildPretty_agent : (packageJson key).buildPretty (agent key).toValue jsonIndent
    = some (agent key).toValue.text :=
  JsonLib.buildPretty_only (mem_cons_of_mem _ mem_cons_self) jsonIndent

/-- It is exported, where the key gives a member name of its own. -/
theorem export_package (hkey : "manifest.json" ≠ memberName key) :
    ∃ bytes, packageExport listZip (packageJson key) (package key) = .ok bytes := by
  have hmembers : members (packageJson key) (package key) =
      .ok [("manifest.json", (manifestValue (package key)).text),
        (memberName key, (agent key).toValue.text)] := by
    have hagent : definitionMember (packageJson key) (agent key) =
        .ok (memberName key, (agent key).toValue.text) := by
      rw [definitionMember, buildPretty_agent]
      rfl
    simp only [members, buildPretty_manifest]
    simp [package, hagent, bind, Except.bind, pure, Except.pure]
  refine ⟨[(cstr "manifest.json", (manifestValue (package key)).text),
    (cstr (memberName key), (agent key).toValue.text)], ?_⟩
  simp [packageExport, hmembers, bind, Except.bind, duplicateName, hkey, listZip]

theorem inverse_packageJson {key : String}
    (hne : (manifestValue (package key)).text ≠ (agent key).toValue.text) :
    Inverse listZip (packageJson key) where
  archive _ _ h := by
    cases h
    rfl
  value _ _ _ h := JsonLib.parseBuf_only (by simp [hne]) h

theorem keys_package {key : String} (h : '\x00' ∉ key.toList) :
    ∀ d ∈ (package key).definitions, '\x00' ∉ d.agentKey.toList := by
  intro d hd
  obtain rfl := mem_singleton.1 hd
  exact h

theorem fits_package : Fits (packageJson "agent") (package "agent") := by
  refine ⟨by decide, ?_, ?_, ?_⟩
  · rw [text, buildPretty_manifest]
    decide +kernel
  · intro d hd
    obtain rfl := mem_singleton.1 hd
    decide
  · intro d hd
    obtain rfl := mem_singleton.1 hd
    rw [text, buildPretty_agent]
    decide +kernel

theorem import_export_package :
    ∃ bytes, packageExport listZip (packageJson "agent") (package "agent") = .ok bytes ∧
      packageImport listZip (packageJson "agent") bytes = .ok (package "agent") := by
  obtain ⟨bytes, hbytes⟩ := export_package "agent" (by decide)
  exact ⟨bytes, hbytes,
    (import_export (inverse_packageJson (by decide +kernel)) hbytes (keys_package (by decide))).2.2
      fits_package⟩

/-- Two definitions, of which the first is there again with another goal. -/
def repeated : List (String × Json) :=
  [("manifest.json", manifestValue (package "a")), ("definitions/a.json", (agent "a").toValue),
    ("definitions/b.json", (agent "b").toValue),
    ("definitions/a.json", { agent "a" with goal := "again" }.toValue)]

/-- It is imported as the last record of each name, in the order of the first. -/
theorem import_archive_package :
    let json := JsonLib.reading id (repeated.map Prod.snd)
    let bytes := repeated.map fun m => (m.1, m.2.text)
    ∃ pkg, (importInto listZip json bytes none).2 = some pkg ∧
      pkg.definitions = [{ agent "a" with goal := "again" }, agent "b"] ∧
      List.Forall₂ (fun name d => ∃ e src, ReadFrom (bytes.map written) name src e ∧
          loadFromJson json src = .ok d)
        ((distinctNames (bytes.map written)).filter (wanted (bytes.map written)))
          pkg.definitions := by
  intro json bytes
  have himport : (importInto listZip json bytes none).1 = none ∧
      ((importInto listZip json bytes none).2.map (·.definitions))
        = some [{ agent "a" with goal := "again" }, agent "b"] := by
    decide +kernel
  obtain ⟨pkg, hpkg, hread⟩ := (import_archive rfl none).1 himport.1
  rw [hpkg] at himport
  exact ⟨pkg, hpkg, Option.some.inj himport.2, hread⟩

/-- A definition with the key `v1..2` is exported, and is not in what is imported. -/
theorem import_drops_dots :
    ∃ bytes, Inverse listZip (packageJson "v1..2") ∧
      packageExport listZip (packageJson "v1..2") (package "v1..2") = .ok bytes ∧
      packageImport listZip (packageJson "v1..2") bytes ≠ .ok (package "v1..2") ∧
      packageImport listZip (packageJson "v1..2") bytes =
        .ok { package "v1..2" with definitions := [] } := by
  obtain ⟨bytes, hbytes⟩ := export_package "v1..2" (by decide)
  have hinv : Inverse listZip (packageJson "v1..2") := inverse_packageJson (by decide +kernel)
  have himport : packageImport listZip (packageJson "v1..2") bytes =
      .ok { package "v1..2" with definitions := [] } := by
    rw [import_of_export hinv hbytes (keys_package (by decide))]
    have hkept : (package "v1..2").definitions.filter kept = [] := by decide
    have hsize : ¬ maxFileSize <
        (text (packageJson "v1..2") (manifestValue (package "v1..2"))).utf8ByteSize := by
      rw [text, buildPretty_manifest]
      decide +kernel
    rw [readBack, if_neg (by decide), if_neg hsize, hkept]
    rfl
  refine ⟨bytes, hinv, hbytes, fun h => ?_, himport⟩
  have heq := congrArg Package.definitions (Except.ok.inj (himport.symm.trans h))
  exact absurd heq (cons_ne_nil _ _).symm

end Agnosai.Packaging
