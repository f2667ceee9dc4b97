import Agnosai.Server.OutputFilter.Definitions
import Agnosai.Support.Options

/-!
# Sandbox — the container backend

The configuration of a container run, the check of its image reference and the argument vector the
runtime is invoked with (`sandbox/oci.cyr`). What the runtime makes of the vector depends on its
own grammar: which of its options take the next word as their value. `RunGrammar` is any such
grammar in which the options used here are what the runtime's manual says they are.
-/

namespace Agnosai.Oci

open OutputFilter (Decoder)

/-- `AgnosaiOciConfig`, with the defaults of `agnosai_oci_config_new`. -/
structure OciConfig where
  runtime : Bytes := ascii "docker"
  image : Bytes
  timeoutSecs : Int64 := 60
  memoryLimit : Bytes := ascii "256m"
  allowNetwork : Bool := false
  /-- Keys and values in turn. -/
  env : List Bytes := []
  volumes : List Bytes := []

variable (c : OciConfig)

/-! ### The image reference -/

/-- The standard library's decoder and its general categories: whether a code point is a letter, or
a number. -/
structure Unicode where
  decoder : Decoder
  letter : Nat → Bool
  number : Nat → Bool

variable (u : Unicode)

/-- `_agnosai_oci_image_cp_ok`. -/
def imageCpOk (cp : Nat) : Bool :=
  u.letter cp || u.number cp || cp = 45 || cp = 95 || cp = 46 || cp = 47 || cp = 58 ||
    cp = 35 || cp = 64

/-- The walk over the code points: the bytes of the first that may not appear. -/
def imageLoop : Loop Bytes (Option Bytes) where
  step
    | [] => .inr none
    | b :: rest =>
      let (cp, used) := u.decoder.decode (b :: rest)
      if imageCpOk u cp then .inl ((b :: rest).drop used) else .inr (some ((b :: rest).take used))
  measure := List.length
  decreasing := by
    rintro (_ | ⟨b, rest⟩) rest' h
    · cases h
    · simp only at h
      split at h
      · cases h
        rw [List.length_drop]
        exact Nat.sub_lt (Nat.succ_pos rest.length) (u.decoder.advance b rest).1
      · cases h

/-- `agnosai_oci_validate_image_ref`. -/
def validateImageRef (image : Bytes) : Bool :=
  match image with
  | [] => false
  | b :: rest => if b = 45 then false else ((imageLoop u).run (b :: rest)).isNone

/-! ### The argument vector -/

/-- The environment's pairs; a key that is left over is passed over. -/
def envPairs : List Bytes → List Bytes
  | key :: value :: rest => (key ++ ascii "=" ++ value) :: envPairs rest
  | _ => []

/-- `agnosai_oci_build_argv`. -/
def buildArgv (entrypointArgs : List Bytes) : List Bytes :=
  [c.runtime, ascii "run", ascii "--rm", ascii "-i", ascii "--read-only", ascii "--tmpfs",
    ascii "/tmp", ascii "--memory", c.memoryLimit] ++
  (if c.allowNetwork then [] else [ascii "--network=none"]) ++
  (envPairs c.env).flatMap (fun pair => [ascii "--env", pair]) ++
  c.volumes.flatMap (fun spec => [ascii "-v", spec]) ++
  c.image :: entrypointArgs

/-! ### What the runtime reads -/

/-- The options used here that take a value, and those that do not, as the runtime documents
them. -/
def valueWords : List Bytes := [ascii "--tmpfs", ascii "--memory", ascii "--env", ascii "-v"]

def flagWords : List Bytes :=
  [ascii "--rm", ascii "-i", ascii "--read-only", ascii "--network=none"]

/-- Which options of `run` take the next word as their value. -/
structure RunGrammar where
  takes : Bytes → Bool
  values : ∀ w ∈ valueWords, takes w = true
  flags : ∀ w ∈ flagWords, takes w = false

/-- An option starts with a dash and has more to it. -/
def RunGrammar.shape (g : RunGrammar) (w : Bytes) : Options.Shape :=
  if w.head? = some 45 ∧ w ≠ [45] then if g.takes w then .takesValue else .flag else .operand

/-- What an option of `run` asks for. -/
inductive RunOption where
  | rm
  | interactive
  | readOnly
  | tmpfs (spec : Bytes)
  | memory (limit : Bytes)
  | network (mode : Bytes)
  | env (pair : Bytes)
  | volume (spec : Bytes)
  | other (word : Bytes) (value : Option Bytes)
  deriving DecidableEq

/-- The meaning of an option and its value. -/
def RunOption.ofWords (word : Bytes) (value : Option Bytes) : RunOption :=
  match value with
  | none =>
    if word = ascii "--rm" then .rm
    else if word = ascii "-i" then .interactive
    else if word = ascii "--read-only" then .readOnly
    else if word.takeWhile (· != 61) = ascii "--network" then
      .network ((word.dropWhile (· != 61)).drop 1)
    else .other word none
  | some v =>
    if word = ascii "--tmpfs" then .tmpfs v
    else if word = ascii "--memory" then .memory v
    else if word = ascii "--env" then .env v
    else if word = ascii "-v" then .volume v
    else .other word (some v)

/-- A container to run. -/
structure RunCommand where
  runtime : Bytes
  options : List RunOption
  image : Bytes
  command : List Bytes
  deriving DecidableEq

/-- An argument vector as the runtime reads it. -/
def readRun (g : RunGrammar) : List Bytes → Option RunCommand
  | runtime :: sub :: words =>
    if sub = ascii "run" then
      (Options.read g.shape words).map fun r =>
        ⟨runtime, r.1.map fun o => .ofWords o.1 o.2, r.2.1, r.2.2⟩
    else none
  | _ => none

/-- The posture a configuration stands for. -/
def posture : List RunOption :=
  [.rm, .interactive, .readOnly, .tmpfs (ascii "/tmp"), .memory c.memoryLimit] ++
    (if c.allowNetwork then [] else [.network (ascii "none")]) ++
    (envPairs c.env).map .env ++ c.volumes.map .volume

/-! ### The vector is read as it was meant -/

section

variable {g : RunGrammar} {u : Unicode} {c : OciConfig} {args : List Bytes}

/-- The options of a vector, each with its value. -/
def options (c : OciConfig) : List (Bytes × Option Bytes) :=
  [(ascii "--rm", none), (ascii "-i", none), (ascii "--read-only", none),
    (ascii "--tmpfs", some (ascii "/tmp")), (ascii "--memory", some c.memoryLimit)] ++
  (if c.allowNetwork then [] else [(ascii "--network=none", none)]) ++
  (envPairs c.env).map (fun pair => (ascii "--env", some pair)) ++
  c.volumes.map (fun spec => (ascii "-v", some spec))

theorem buildArgv_eq : buildArgv c args =
    c.runtime :: ascii "run" :: ((options c).flatMap Options.render ++ c.image :: args) := by
  cases h : c.allowNetwork <;> simp [buildArgv, options, Options.render, h, List.flatMap_map]

theorem fits_flag : ∀ w ∈ flagWords, Options.Fits g.shape (w, none) := by
  have hdash : ∀ w ∈ flagWords, w.head? = some 45 ∧ w ≠ [45] := by decide +kernel
  intro w hw
  simp [Options.Fits, RunGrammar.shape, hdash w hw, g.flags w hw]

theorem fits_value : ∀ w ∈ valueWords, ∀ v, Options.Fits g.shape (w, some v) := by
  have hdash : ∀ w ∈ valueWords, w.head? = some 45 ∧ w ≠ [45] := by decide +kernel
  intro w hw v
  simp [Options.Fits, RunGrammar.shape, hdash w hw, g.values w hw]

theorem options_fit : ∀ o ∈ options c, Options.Fits g.shape o := by
  obtain ⟨hrm, hi, hro, hnet⟩ : _ ∧ _ ∧ _ ∧ _ := by simpa [flagWords] using fits_flag (g := g)
  obtain ⟨htmpfs, hmemory, henv, hv⟩ : _ ∧ _ ∧ _ ∧
      _ := by simpa [valueWords] using fits_value (g := g)
  cases h : c.allowNetwork <;>
    simp [options, h, or_imp, forall_and, hrm, hi, hro, hnet, htmpfs, hmemory, henv, hv]

theorem ofWords_options : (options c).map (fun o => RunOption.ofWords o.1 o.2) = posture c := by
  have henv : (fun pair => RunOption.ofWords (ascii "--env") (some pair)) = .env := rfl
  have hvolume : (fun spec => RunOption.ofWords (ascii "-v") (some spec)) = .volume := rfl
  cases h : c.allowNetwork <;> simp only [options, posture, h, List.map_append, List.map_map]
  · exact congrArg₂ _ (congrArg₂ _ rfl (congrArg (List.map · _) henv))
      (congrArg (List.map · _) hvolume)
  · exact congrArg₂ _ (congrArg₂ _ rfl (congrArg (List.map · _) henv))
      (congrArg (List.map · _) hvolume)

/-- A valid image is no option. -/
theorem shape_image (h : validateImageRef u c.image = true) : g.shape c.image = .operand := by
  unfold validateImageRef at h
  split at h
  · cases h
  next b rest himage =>
    have hdash : b ≠ 45 := by
      rintro rfl
      cases h
    simp [RunGrammar.shape, himage, hdash]

/-- **The vector is read as it was meant.** -/
theorem readRun_buildArgv (himage : validateImageRef u c.image = true) :
    readRun g (buildArgv c args) = some ⟨c.runtime, posture c, c.image, args⟩ := by
  rw [buildArgv_eq, readRun, if_pos rfl, Options.read_render options_fit (shape_image himage),
    Option.map_some, ofWords_options]

end

/-- The options of `docker run` that are used here. -/
def docker : RunGrammar where
  takes w := w ∈ valueWords
  values := by decide +kernel
  flags := by decide +kernel

/-- One byte a code point, and the letters of ASCII. -/
def asciiUnicode : Unicode where
  decoder :=
    { decode := fun s => (s.headD 0 |>.toNat, 1)
      advance := fun _ rest => ⟨Nat.one_pos, Nat.succ_le_succ (Nat.zero_le rest.length)⟩ }
  letter cp := (65 ≤ cp && cp ≤ 90) || (97 ≤ cp && cp ≤ 122)
  number cp := 48 ≤ cp && cp ≤ 57

/-- A configuration whose strings all look like options. -/
def dashed : OciConfig :=
  { image := ascii "alpine:latest", memoryLimit := ascii "--privileged"
    env := [ascii "-A", ascii "--rm"], volumes := [ascii "-v"] }

/-- Strings that look like options are the values they were given as, and the arguments are the
command's. -/
theorem readRun_dashed : validateImageRef asciiUnicode dashed.image = true ∧
    readRun docker (buildArgv dashed [ascii "--network=host"]) =
      some ⟨ascii "docker", posture dashed, ascii "alpine:latest", [ascii "--network=host"]⟩ := by
  have himage : validateImageRef asciiUnicode dashed.image = true := by decide +kernel
  exact ⟨himage, readRun_buildArgv himage⟩

end Agnosai.Oci
