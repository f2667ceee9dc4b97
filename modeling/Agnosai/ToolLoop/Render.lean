import Agnosai.ToolLoop.Clean

/-!
# ToolLoop — Render

How much of a tool's answer the model reads. A JSON value is rendered piece by piece against a
budget, and a string is cut to what is left **before** it is quoted and escaped: the last piece may
be longer than what is left of the cap.

`spend` is the account of it: each piece is charged for, and the account fails where a piece has no
room. An open bracket has a byte set aside for its closing one, which is not written once a value
is cut, so the last piece may take those bytes too.
-/

namespace Agnosai.ToolLoop

open OutputFilter List Option

/-- What is left once a piece is paid for, with `depth` brackets open, or nothing when it has no
room. -/
def charge (piece : Bytes) (left : Int) (depth : Nat) : Option Int :=
  if piece.length ≤ left + depth then some (left - piece.length) else none

variable (R : Renderer)

mutual

/-- What is left once a value is paid for. -/
def spend (v : Value) (left : Int) (depth : Nat) : Option Int :=
  if left ≤ 0 then some 0
  else
    match v with
    | .str s => charge (leafText R s left.toNat) left depth
    | .arr elems => spendElems elems true (left - 2) (depth + 1)
    | .obj fields => spendFields fields true (left - 2) (depth + 1)
    | v => charge (R.build v) left depth

def spendElems : List Value → Bool → Int → Nat → Option Int
  | [], _, left, _ => some left
  | v :: vs, first, left, depth =>
    if left ≤ 0 then some left
    else
      let sep := if first then [] else ascii ","
      (charge sep left depth).bind fun left =>
        (spend v left depth).bind fun left => spendElems vs false left depth

def spendFields : List (Bytes × Value) → Bool → Int → Nat → Option Int
  | [], _, left, _ => some left
  | (k, v) :: fs, first, left, depth =>
    if left ≤ 0 then some left
    else
      let sep := if first then [] else ascii ","
      let key := leafText R k (left - sep.length).toNat
      (charge (sep ++ key ++ ascii ":") left depth).bind fun left =>
        (spend v left depth).bind fun left => spendFields fs false left depth

end

/-! ### What is written, and what is left -/

/-- What a rendering comes to. Without a budget nothing is written. With one, nothing is lost
while something is left, and the account fails exactly where what is written runs over the budget
and what is set aside. -/
structure Spent (text : Bytes) (rest left : Int) (depth : Nat) (account : Option Int) : Prop where
  nothing : left ≤ 0 → text = [] ∧ rest ≤ 0 ∧ account = some rest
  exact_of_pos : 0 < left → 0 < rest → text.length = left - rest
  account_eq : 0 < left → account = if text.length ≤ left + depth then some rest else none

section Spent

variable {inner piece t u : Bytes} {rest left mid : Int} {depth : Nat} {account : Option Int}

/-- Nothing at all. -/
theorem spent_nil : Spent [] left left depth (some left) where
  nothing hle := ⟨rfl, hle, rfl⟩
  exact_of_pos _ _ := by simp
  account_eq h := by rw [if_pos (by simp; omega)]

/-- A piece of its own. -/
theorem spent_piece (h : 0 < left) :
    Spent piece (left - piece.length) left depth (charge piece left depth) where
  nothing hle := by omega
  exact_of_pos _ _ := by omega
  account_eq _ := rfl

/-- A piece, a value, and what follows. -/
theorem Spent.piece_append {f g : Int → Option Int} (h : 0 < left)
    (ht : Spent t mid (left - piece.length) depth (f (left - piece.length)))
    (hu : Spent u rest mid depth (g mid)) :
    Spent (piece ++ t ++ u) rest left depth
      ((charge piece left depth).bind fun l => (f l).bind g) := by
  have hlength : ((piece ++ t ++ u).length : Int) = piece.length + t.length + u.length := by
    rw [length_append, length_append, Int.natCast_add, Int.natCast_add]
  by_cases hle : left - piece.length ≤ 0
  · -- the piece leaves nothing
    obtain ⟨rfl, hmid, hf⟩ := ht.nothing hle
    obtain ⟨rfl, hrest, hg⟩ := hu.nothing hmid
    refine ⟨fun h' => by omega, fun _ h' => by omega, fun _ => ?_⟩
    rw [hlength, charge, length_nil]
    split
    · rw [bind_some, hf, bind_some, hg, if_pos (by omega)]
    · rw [bind_none, if_neg (by omega)]
  have hpos : 0 < left - piece.length := by omega
  have hcharge : charge piece left depth = some (left - piece.length) := if_pos (by omega)
  rw [hcharge, bind_some, ht.account_eq hpos]
  by_cases hmid : mid ≤ 0
  · -- the value leaves nothing
    obtain ⟨rfl, hrest, hg⟩ := hu.nothing hmid
    refine ⟨fun h' => by omega, fun _ h' => by omega, fun _ => ?_⟩
    rw [hlength, length_nil]
    split
    · rw [bind_some, hg, if_pos (by omega)]
    · rw [bind_none, if_neg (by omega)]
  have hpos' : 0 < mid := by omega
  have hexact := ht.exact_of_pos hpos hpos'
  refine ⟨fun h' => by omega, fun _ hrest => ?_, fun _ => ?_⟩
  · have := hu.exact_of_pos hpos' hrest
    omega
  · rw [if_pos (by omega), bind_some, hu.account_eq hpos', hlength]
    refine if_congr ?_ rfl rfl
    omega

/-- While something is left, what is written is within the budget. -/
theorem Spent.length_le (h : Spent t rest left depth account) (hrest : 0 < rest) :
    t.length ≤ left := by
  by_cases hle : left ≤ 0
  · have := (h.nothing hle).2.1
    omega
  · have := h.exact_of_pos (by omega) hrest
    omega

/-- What stands in brackets. -/
theorem Spent.bracket (h : 0 < left) (hinner : Spent inner rest (left - 2) (depth + 1) account)
    {opening closing : Bytes} (ho : opening.length = 1) (hc : closing.length = 1) :
    Spent (opening ++ inner ++ if 0 < rest then closing else []) rest left depth account := by
  by_cases hle : left - 2 ≤ 0
  · obtain ⟨rfl, hrest, rfl⟩ := hinner.nothing hle
    refine ⟨fun h' => by omega, fun _ h' => by omega, fun _ => ?_⟩
    have hclose : ¬0 < rest := by omega
    rw [if_neg hclose, append_nil, append_nil, ho, if_pos (by omega)]
  have hpos : 0 < left - 2 := by omega
  rw [hinner.account_eq hpos]
  by_cases hrest : 0 < rest
  · have hexact := hinner.exact_of_pos hpos hrest
    have hlength : (opening ++ inner ++ closing).length = inner.length + 2 := by
      rw [length_append, length_append]
      omega
    rw [if_pos hrest]
    refine ⟨fun h' => by omega, fun _ _ => by omega, fun _ => ?_⟩
    refine if_congr ?_ rfl rfl
    omega
  · -- the closing bracket is not written: its byte is the last piece's
    rw [if_neg hrest, append_nil]
    refine ⟨fun h' => by omega, fun _ h' => absurd h' hrest, fun _ => ?_⟩
    refine if_congr ?_ rfl rfl
    rw [length_append]
    omega

end Spent

/-- What is left for the value of a field, as the loop takes it off. -/
theorem field_budget (sep key : Bytes) (left : Int) :
    left - sep.length - key.length - 1 = left - (sep ++ key ++ ascii ":").length := by
  simp [ascii]
  omega

mutual

/-- **What rendering a value comes to.** -/
theorem render_spec (v : Value) (left : Int) (depth : Nat) :
    Spent (render R v left).1 (render R v left).2 left depth (spend R v left depth) := by
  by_cases hle : left ≤ 0
  · have hrender : render R v left = ([], 0) := by cases v <;> simp [render, hle]
    have hspend : spend R v left depth = some 0 := by cases v <;> simp [spend, hle]
    rw [hrender, hspend]
    exact ⟨fun _ => ⟨rfl, le_rfl, rfl⟩, fun h => by omega, fun h => by omega⟩
  have hpos : 0 < left := by omega
  cases v with
  | null | bool b | int n | float t | str s =>
    simp only [render, spend, if_neg hle]
    exact spent_piece hpos
  | arr elems =>
    simp only [render, spend, if_neg hle]
    exact (renderElems_spec elems true (left - 2) (depth + 1)).bracket hpos rfl rfl
  | obj fields =>
    simp only [render, spend, if_neg hle]
    exact (renderFields_spec fields true (left - 2) (depth + 1)).bracket hpos rfl rfl

theorem renderElems_spec (vs : List Value) (first : Bool) (left : Int) (depth : Nat) :
    Spent (renderElems R vs first left).1 (renderElems R vs first left).2 left depth
      (spendElems R vs first left depth) := by
  cases vs with
  | nil => exact spent_nil
  | cons v vs =>
    rw [renderElems, spendElems]
    by_cases hle : left ≤ 0
    · rw [if_pos hle, if_pos hle]
      exact spent_nil
    rw [if_neg hle, if_neg hle]
    exact Spent.piece_append (by omega) (render_spec v _ depth) (renderElems_spec vs false _ depth)

theorem renderFields_spec (fs : List (Bytes × Value)) (first : Bool) (left : Int) (depth : Nat) :
    Spent (renderFields R fs first left).1 (renderFields R fs first left).2 left depth
      (spendFields R fs first left depth) := by
  cases fs with
  | nil => exact spent_nil
  | cons f fs =>
    obtain ⟨k, v⟩ := f
    rw [renderFields, spendFields]
    by_cases hle : left ≤ 0
    · rw [if_pos hle, if_pos hle]
      exact spent_nil
    rw [if_neg hle, if_neg hle]
    simp only [field_budget]
    exact Spent.piece_append (by omega) (render_spec v _ depth) (renderFields_spec fs false _ depth)

end

/-! ### The cap and the note -/

/-- At most `cap` bytes, and a note saying what was cut. -/
def WithinCap (text : Bytes) (cap : Nat) : Prop :=
  ∃ body note, text = body ++ note ∧ body.length ≤ cap ∧
    (note = [] ∨ note = renderNote ∨ ∃ more, note = cutNote more)

variable {text : Bytes} {cap : Nat}

theorem withinCap_of_le (h : text.length ≤ cap) : WithinCap text cap :=
  ⟨text, [], (append_nil _).symm, h, .inl rfl⟩

/-- A text that was cut is within the cap. -/
theorem withinCap_cut (total : Nat) : WithinCap (cut text cap total) cap := by
  unfold cut
  split
  · exact withinCap_of_le (by omega)
  · refine ⟨_, _, rfl, ?_, .inr (.inr ⟨_, rfl⟩)⟩
    have := cutBack_le text (min cap text.length)
    rw [length_take]
    omega

/-- The notes end in different words. -/
theorem append_renderNote_ne (body text : Bytes) (more : Int) :
    text ++ renderNote ≠ body ++ cutNote more := by
  intro h
  have hsuffix : renderNote.reverse ++ text.reverse = (cutNote more).reverse ++ body.reverse := by
    rw [← reverse_append, h, reverse_append]
  rw [cutNote, reverse_append, reverse_append] at hsuffix
  simp [renderNote, ascii] at hsuffix

theorem withinCap_append_renderNote_iff :
    WithinCap (text ++ renderNote) cap ↔ text.length ≤ cap := by
  constructor
  · rintro ⟨body, note, heq, hle, rfl | rfl | ⟨more, rfl⟩⟩
    · rw [append_nil] at heq
      rw [← heq, length_append] at hle
      omega
    · rwa [append_cancel_right heq]
    · exact absurd heq (append_renderNote_ne body text more)
  · exact fun hle => ⟨text, renderNote, rfl, hle, .inr (.inl rfl)⟩

/-- A text that does not end as the notes do has none. -/
theorem withinCap_iff_of_getLast? (h : text.getLast? ≠ some 93) :
    WithinCap text cap ↔ text.length ≤ cap := by
  refine ⟨?_, withinCap_of_le⟩
  rintro ⟨body, note, rfl, hle, rfl | rfl | ⟨more, rfl⟩⟩
  · rwa [append_nil]
  · exact absurd (by simp [renderNote, ascii]) h
  · rw [cutNote, ← append_assoc, getLast?_append] at h
    exact absurd (by simp [ascii]) h

/-- Whether there is room for what a tool answered: the loop's own texts are not cut, and of a JSON
value no piece may be longer than what is left for it. -/
def HasRoom (out : Option Output) (cap : Nat) : Prop :=
  match out with
  | none => (ascii "the tool answered nothing").length ≤ cap
  | some out =>
    if out.success = false then
      out.error = none → (ascii "the tool failed and said nothing").length ≤ cap
    else
      out.result.text? = none → (spend R out.result cap 0).isSome

/-- The account of a value does not fail exactly when what is written of it is within the cap. -/
theorem spend_isSome_iff (v : Value) :
    (spend R v cap 0).isSome ↔ (render R v cap).1.length ≤ cap := by
  have hspec := render_spec R v cap 0
  by_cases hpos : (0 : Int) < cap
  · rw [hspec.account_eq hpos]
    split <;> simp <;> omega
  · obtain ⟨htext, -, hspend⟩ := hspec.nothing (by omega)
    rw [htext, hspend]
    simp

/-- **What the model reads of a tool's answer.** It is within the cap and a note exactly when there
is room for each piece of it. -/
theorem outputText_withinCap_iff (out : Option Output) (cap : Nat) :
    WithinCap (outputText R out cap) cap ↔ HasRoom R out cap := by
  cases out with
  | none =>
    show WithinCap (ascii "the tool answered nothing") cap ↔ _
    exact withinCap_iff_of_getLast? (by decide)
  | some out =>
    simp only [outputText, HasRoom]
    split
    · -- a failure: what it says is cut, what the loop says for it is not
      cases out.error with
      | none => simpa using withinCap_iff_of_getLast? (by decide)
      | some => simpa using withinCap_cut _
    · cases out.result.text? with
      | some => simpa using withinCap_cut _
      | none =>
        simp only [spend_isSome_iff, forall_const]
        split
        · -- nothing was cut: all of it is within the cap
          rename_i hrest
          have hle := (render_spec R out.result cap 0).length_le hrest
          exact iff_of_true (withinCap_of_le (by omega)) (by omega)
        · exact withinCap_append_renderNote_iff

/-! ### A string of quotes -/

/-- A quote and a backslash take two bytes in a JSON string. -/
def escapeByte (b : UInt8) : Bytes := if b = 34 ∨ b = 92 then [92, b] else [b]

/-- JSON as the library writes it, for strings without control bytes. -/
def quoting : Renderer where
  redact := false
  dec := ⟨fun bs => (0, min 1 bs.length), fun _ _ => by simp⟩
  build
    | .null => ascii "null"
    | .bool b => ascii (toString b)
    | .int n => ascii (toString n.toInt)
    | .float text => text
    | .str s => ascii "\"" ++ s.flatMap escapeByte ++ ascii "\""
    | .arr _ | .obj _ => []

/-- Of an array that holds three hundred quotes, twice the cap is written. -/
theorem quotes_past_cap :
    (outputText quoting (some ⟨true, .arr [.str (replicate 300 34)], none⟩) 256).length =
      511 + renderNote.length ∧
    ¬ WithinCap (outputText quoting (some ⟨true, .arr [.str (replicate 300 34)], none⟩) 256)
      256 := by
  have htext : outputText quoting (some ⟨true, .arr [.str (replicate 300 34)], none⟩) 256 =
      (ascii "[\"" ++ (replicate 254 [92, 34]).flatten ++ ascii "\"") ++ renderNote := by
    decide +kernel
  rw [htext, withinCap_append_renderNote_iff]
  decide +kernel

/-- After two hundred and fifty-two letters, which have room, the `null` is cut. -/
theorem letters_within_cap :
    HasRoom quoting (some ⟨true, .arr [.str (replicate 252 97), .null], none⟩) 256 ∧
    WithinCap (outputText quoting (some ⟨true, .arr [.str (replicate 252 97), .null], none⟩) 256)
      256 := by
  have hroom : HasRoom quoting (some ⟨true, .arr [.str (replicate 252 97), .null], none⟩) 256 := by
    simp only [HasRoom]
    decide +kernel
  exact ⟨hroom, (outputText_withinCap_iff _ _ _).2 hroom⟩

end Agnosai.ToolLoop
