import Agnosai.ToolLoop.Text
import Agnosai.Server.OutputFilter.Hidden
import Agnosai.Support.Fork

/-!
# ToolLoop — Window

What a string of a tool's answer lets through. The filter reads a window, 256 bytes past the cap,
and not the whole string. A key may be longer than that: the window then holds a key without its
end, of which the filter replaces 20 bytes, and shows the rest. The window and the whole string
are filtered in lockstep, as long as the twelve walks find the same in both.
-/

namespace Agnosai.ToolLoop

open OutputFilter Spans List

variable (dec : Decoder)

/-- What the filter looks for, in order. -/
def filters : List (Spans UInt8) :=
  apiKeyPrefixes.map (keySpans dec) ++ [ssnSpans, emailSpans]

/-- The filter is twelve walks. -/
theorem outputRedact_eq (text : Bytes) :
    outputRedact dec text = replaceAll (filters dec) redacted text := by
  have hkeys : ∀ (ps : List KeyPrefix) (text : Bytes),
      ps.foldl (fun text p => redactPrefix dec p text) text =
        replaceAll (ps.map (keySpans dec)) redacted text := by
    intro ps
    induction ps with
    | nil => exact fun _ => rfl
    | cons p ps ih =>
      intro text
      rw [foldl_cons, ih, redactPrefix_eq]
      rfl
  rw [outputRedact, hkeys, redactSsn_eq, replaceAll, replaceAll, filters, foldl_append]
  rfl

/-- A string and its window, filtered in lockstep. -/
def filtered (s : Bytes) (window : Nat) : Fork UInt8 :=
  forkAll (filters dec) redacted ⟨s.take window, [], s.drop window⟩

theorem filtered_first (s : Bytes) (window : Nat) :
    (filtered dec s window).first = outputRedact dec (s.take window) := by
  rw [filtered, forkAll_first, outputRedact_eq, Fork.first, append_nil]

theorem filtered_second (s : Bytes) (window : Nat) :
    (filtered dec s window).second = outputRedact dec s := by
  rw [filtered, forkAll_second, outputRedact_eq, Fork.second, take_append_drop]

/-- **What a leaf lets through.** With the filter on, it is a beginning of the filtered string if
the string and its window are filtered alike up to the cap; if they are not, it is one at most where
they happen to go on with the same byte. -/
theorem leaf_prefix_of_settled (R : Renderer) (hredact : R.redact = true) (s : Bytes) (cap : Nat) :
    ((filtered R.dec s (cap + 256)).Settled cap → leaf R s cap <+: outputRedact R.dec s) ∧
    (leaf R s cap <+: outputRedact R.dec s → ¬ (filtered R.dec s (cap + 256)).Settled cap →
      (filtered R.dec s (cap + 256)).left.head? = (filtered R.dec s (cap + 256)).right.head?) := by
  rw [leaf, if_pos hredact, ← filtered_first, ← filtered_second R.dec s (cap + 256)]
  exact ⟨Fork.Settled.isPrefix, fun h hn => Fork.head?_eq_of_prefix hn h⟩

/-- The filter on, and the library's decoder; nothing is rendered as JSON here. -/
def filtering : Renderer where
  redact := true
  dec := utf8.toDecoder
  build _ := []

/-- A key, and a word that the window cuts. -/
def shortKey : Bytes := skPrefix.bytes ++ ascii "abc " ++ replicate 300 97

theorem leaf_prefix_shortKey :
    (filtered filtering.dec shortKey (32 + 256)).Settled 32 ∧
      leaf filtering shortKey 32 <+: outputRedact filtering.dec shortKey := by
  have hsettled : (filtered filtering.dec shortKey (32 + 256)).Settled 32 := by decide +kernel
  exact ⟨hsettled, (leaf_prefix_of_settled filtering rfl shortKey 32).1 hsettled⟩

/-- A key of three hundred bytes, and a word. -/
def longKey : Bytes := skPrefix.bytes ++ replicate 297 97 ++ ascii " end"

/-- Of the key, twenty-two bytes are shown, and all of it is hidden in the filtered string. -/
theorem longKey_shown :
    leaf filtering longKey 32 = redacted.text ++ replicate 22 97 ∧
    outputRedact filtering.dec longKey = redacted.text ++ ascii " end" ∧
    ¬ leaf filtering longKey 32 <+: outputRedact filtering.dec longKey := by
  have hleaf : leaf filtering longKey 32 = redacted.text ++ replicate 22 97 := by decide +kernel
  have hall : outputRedact filtering.dec longKey = redacted.text ++
      ascii " end" := by decide +kernel
  refine ⟨hleaf, hall, ?_⟩
  rw [hleaf, hall]
  decide

end Agnosai.ToolLoop
