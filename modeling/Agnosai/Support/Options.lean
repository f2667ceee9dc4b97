import Mathlib.Data.List.Basic

/-!
# Support — Options

The words of a command line, read with an option grammar: some options stand alone, some take the
next word whole, and the first word that is no option is the operand, after which no word is read
as an option. The grammar is a function from words to `Shape`s, so nothing is said of how words are
spelled.
-/

namespace Agnosai.Options

/-- How a word is read. -/
inductive Shape where
  | flag
  | takesValue
  | operand
  deriving DecidableEq

variable {ω : Type*} (shape : ω → Shape)

/-- The options with their values, the operand, and the words after it. There may be no operand, or
no value where one is due. -/
def read : List ω → Option (List (ω × Option ω) × ω × List ω)
  | [] => none
  | w :: ws =>
    match shape w, ws with
    | .operand, ws => some ([], w, ws)
    | .flag, ws => (read ws).map fun r => ((w, none) :: r.1, r.2)
    | .takesValue, [] => none
    | .takesValue, v :: ws => (read ws).map fun r => ((w, some v) :: r.1, r.2)

/-- An option as it is written. -/
def render (o : ω × Option ω) : List ω := o.1 :: o.2.toList

/-- An option has a value exactly if the grammar says it takes one. -/
def Fits (o : ω × Option ω) : Prop := shape o.1 = if o.2.isSome then .takesValue else .flag

variable {shape} {w : ω} {ws : List ω}

/-- **Reading back what was written**: the options, the first word that is none, and the rest
untouched. -/
theorem read_render {os : List (ω × Option ω)} (hos : ∀ o ∈ os, Fits shape o)
    (hw : shape w = .operand) : read shape (os.flatMap render ++ w :: ws) = some (os, w, ws) := by
  induction os with
  | nil => simp [read, hw]
  | cons o os ih =>
    have ih := ih fun o ho => hos o (List.mem_cons_of_mem _ ho)
    obtain ⟨word, _ | v⟩ := o
    · have hflag : shape word = .flag := hos _ List.mem_cons_self
      simp [render, read, hflag, ih]
    · have htakes : shape word = .takesValue := hos _ List.mem_cons_self
      simp [render, read, htakes, ih]

end Agnosai.Options
