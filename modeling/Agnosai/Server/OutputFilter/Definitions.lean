import Agnosai.Core.Bytes
import Agnosai.Support.Loop
import Agnosai.Support.Spans

/-!
# Server — OutputFilter — Definitions

The redaction of `server/output_filter.cyr`. Each API-key prefix is looked for and replaced, with
the token it begins, until it does not occur; then SSNs, and then emails, are replaced in one walk
each. The UTF-8 decoder is the standard library's (`Decoder`). What the walks keep is copied in
runs in the source, and byte by byte here.
-/

namespace Agnosai.OutputFilter

open List

/-- `AGNOSAI_REDACTED`. -/
def redacted : Marker UInt8 := { opening := 91, word := ascii "REDACTED", closing := 93 }

example : redacted.text = ascii "[REDACTED]" := by decide +kernel

/-! ### API keys -/

/-- `_agnosai_is_unicode_space`. -/
def isUnicodeSpace (cp : Nat) : Bool :=
  (9 ≤ cp && cp ≤ 13) || cp = 32 || cp = 0x85 || cp = 0xA0 || cp = 0x1680 ||
    (0x2000 ≤ cp && cp ≤ 0x200A) || cp = 0x2028 || cp = 0x2029 || cp = 0x202F || cp = 0x205F ||
    cp = 0x3000

/-- `_uc_decode_utf8`: from the bytes that are left, the code point they begin with and how many of
them it takes. -/
structure Decoder where
  decode : Bytes → Nat × Nat
  advance : ∀ b rest, 0 < (decode (b :: rest)).2 ∧ (decode (b :: rest)).2 ≤ (b :: rest).length

variable (dec : Decoder)

/-- The loop that looks for the end of a token: how far it has come, and the bytes that are left. -/
def spaceLoop : Loop (Nat × Bytes) (Option Nat) where
  step
    | (_, []) => .inr none
    | (j, b :: rest) =>
      let (cp, used) := dec.decode (b :: rest)
      if isUnicodeSpace cp then .inr (some j) else .inl (j + used, (b :: rest).drop used)
  measure t := t.2.length
  decreasing := by
    rintro ⟨j, _ | ⟨b, rest⟩⟩ ⟨j', rest'⟩ h
    · cases h
    · simp only at h
      split at h
      · cases h
      · cases h
        rw [length_drop]
        exact Nat.sub_lt (Nat.succ_pos rest.length) (dec.advance b rest).1

/-- Where the first whitespace of these bytes is. -/
def firstSpace (rest : Bytes) : Option Nat := (spaceLoop dec).run (0, rest)

/-- How long the span is that begins with a prefix of `plen` bytes, up to whitespace. A token that
runs to the end of the text is cut after 20 bytes. -/
def tokenLength (plen : Nat) (rest : Bytes) : Nat :=
  max ((firstSpace dec rest).getD (min (plen + 20) rest.length)) plen

/-- `_agnosai_index_of_str`. -/
def indexOf (needle : Bytes) : Bytes → Option Nat
  | [] => if needle = [] then some 0 else none
  | b :: rest =>
    if needle.isPrefixOf (b :: rest) then some 0 else (indexOf needle rest).map (· + 1)

/-- A prefix that what replaces it cannot bring back. -/
structure KeyPrefix where
  bytes : Bytes
  avoids : redacted.Avoids bytes

instance (w : Bytes) : Decidable (redacted.Avoids w) :=
  decidable_of_iff (w ≠ [] ∧ redacted.opening ∉ w ∧ redacted.closing ∉ w ∧ ¬ w <:+: redacted.word)
    ⟨fun ⟨h₁, h₂, h₃, h₄⟩ => ⟨h₁, h₂, h₃, h₄⟩, fun h => ⟨h.ne_nil, h.opening, h.closing, h.word⟩⟩

/-- `_agnosai_api_key_prefix_a`, the ten of them in order. -/
def apiKeyPrefixes : List KeyPrefix :=
  [⟨ascii "AKIA", by decide +kernel⟩, ⟨ascii "ASIA", by decide +kernel⟩,
    ⟨ascii "ghp_", by decide +kernel⟩, ⟨ascii "gho_", by decide +kernel⟩,
    ⟨ascii "ghs_", by decide +kernel⟩, ⟨ascii "ghr_", by decide +kernel⟩,
    ⟨ascii "github_pat_", by decide +kernel⟩, ⟨ascii "sk-", by decide +kernel⟩,
    ⟨ascii "Bearer ", by decide +kernel⟩, ⟨ascii "xox", by decide +kernel⟩]

variable (p : KeyPrefix)

/-- One round of the loop of `agnosai_output_redact_a` for a prefix. -/
def redactStep (text : Bytes) : Bytes ⊕ Bytes :=
  match indexOf p.bytes text with
  | none => .inr text
  | some pos =>
    let tokenEnd := pos + tokenLength dec p.bytes.length (text.drop pos)
    .inl (text.take pos ++ redacted.text ++ text.drop tokenEnd)

/-! ### Where a word is found -/

section IndexOf

variable {needle xs ys : Bytes}

/-- What comes before the first occurrence is counted. -/
theorem indexOf_append (h : ∀ s, s <:+ xs → s ≠ [] → ¬ needle <+: s ++ ys) :
    indexOf needle (xs ++ ys) = (indexOf needle ys).map (· + xs.length) := by
  induction xs with
  | nil => simp
  | cons x xs ih =>
    have hx := h (x :: xs) suffix_rfl (cons_ne_nil x xs)
    rw [cons_append] at hx ⊢
    rw [indexOf, if_neg (fun hpre => hx (List.isPrefixOf_iff_prefix.1 hpre)),
      ih fun s hs => h s (hs.trans (suffix_cons x xs))]
    simp [Function.comp_def, Nat.add_assoc]

theorem indexOf_eq_none (hne : needle ≠ []) (h : indexOf needle xs = none) : ¬ needle <:+: xs := by
  induction xs with
  | nil => exact fun hin => hne (infix_nil.1 hin)
  | cons x xs ih =>
    unfold indexOf at h
    split at h
    · cases h
    next hpre =>
      intro hin
      obtain hx | hxs := infix_cons_iff.1 hin
      · exact hpre (List.isPrefixOf_iff_prefix.2 hx)
      · exact ih (Option.map_eq_none_iff.1 h) hxs

/-- An occurrence that is found is the first. -/
theorem indexOf_eq_some {pos : Nat} (hne : needle ≠ []) (h : indexOf needle xs = some pos) :
    pos < xs.length ∧ needle <+: xs.drop pos ∧
      ∀ s, s <:+ xs.take pos → s ≠ [] → ¬ needle <+: s ++ xs.drop pos := by
  induction xs generalizing pos with
  | nil =>
    rw [indexOf, if_neg hne] at h
    cases h
  | cons x xs ih =>
    unfold indexOf at h
    split at h
    next hpre =>
      cases h
      exact ⟨Nat.succ_pos _, isPrefixOf_iff_prefix.1 hpre,
        fun s hs hs' => absurd (suffix_nil.1 hs) hs'⟩
    next hpre =>
      obtain ⟨k, hk, rfl⟩ := Option.map_eq_some_iff.1 h
      obtain ⟨hlt, hin, hfirst⟩ := ih hk
      refine ⟨Nat.succ_lt_succ hlt, hin, fun s hs hs' => ?_⟩
      obtain rfl | htail := suffix_cons_iff.1 hs
      · rw [drop_succ_cons, cons_append, take_append_drop]
        exact fun h' => hpre (List.isPrefixOf_iff_prefix.2 h')
      · exact hfirst s htail hs'

end IndexOf

/-- After a round, the prefix begins only after what has been replaced. -/
theorem not_prefix_of_replaced {text : Bytes} {pos : Nat}
    (h : indexOf p.bytes text = some pos) (post : Bytes) :
    ∀ s, s <:+ text.take pos ++ redacted.text → s ≠ [] → ¬ p.bytes <+: s ++ post := by
  obtain ⟨-, -, hfirst⟩ := indexOf_eq_some p.avoids.ne_nil h
  intro s hs hne
  refine p.avoids.not_prefix_append (fun s' hs' hne' hpre => ?_) hs hne
  exact hfirst s' hs' hne' (hpre.trans (prefix_append s' _))

theorem redactStep_eq_inl {dec : Decoder} {p : KeyPrefix} {text text' : Bytes}
    (h : redactStep dec p text = .inl text') :
    ∃ pos, indexOf p.bytes text = some pos ∧
      text' = text.take pos ++ redacted.text ++
        (text.drop pos).drop (tokenLength dec p.bytes.length (text.drop pos)) := by
  unfold redactStep at h
  split at h
  · cases h
  next pos hpos =>
    cases h
    exact ⟨pos, hpos, by rw [drop_drop]⟩

theorem redactStep_eq_inr {dec : Decoder} {p : KeyPrefix} {text text' : Bytes}
    (h : redactStep dec p text = .inr text') : indexOf p.bytes text = none ∧ text' = text := by
  unfold redactStep at h
  split at h
  next hnone =>
    cases h
    exact ⟨hnone, rfl⟩
  · cases h

theorem tokenLength_pos (rest : Bytes) :
    0 < tokenLength dec p.bytes.length rest :=
  (length_pos_of_ne_nil p.avoids.ne_nil).trans_le (le_max_right _ _)

/-- The loop of `agnosai_output_redact_a` for a prefix. What is left from its first occurrence on
gets shorter. -/
def prefixLoop : Loop Bytes Bytes where
  step := redactStep dec p
  measure text := (indexOf p.bytes text).elim 0 (text.length - ·)
  decreasing := by
    intro text text' h
    obtain ⟨pos, hpos, rfl⟩ := redactStep_eq_inl h
    obtain ⟨hlt, -, -⟩ := indexOf_eq_some p.avoids.ne_nil hpos
    have htoken := tokenLength_pos dec p (text.drop pos)
    rw [indexOf_append (not_prefix_of_replaced p hpos _), hpos]
    generalize hpost : (text.drop pos).drop _ = post
    have hlength : post.length < text.length - pos := by
      rw [← hpost, length_drop, length_drop]
      omega
    cases indexOf p.bytes post with
    | none => exact Nat.sub_pos_of_lt hlt
    | some k =>
      simp only [Option.map_some, Option.elim_some, length_append]
      omega

/-- Redact one prefix. -/
def redactPrefix (text : Bytes) : Bytes := (prefixLoop dec p).run text

/-! ### SSNs and emails -/

/-- `_agnosai_ssn_at`, within bounds. -/
def ssnAt : Bytes → Bool
  | a :: b :: c :: d :: e :: f :: g :: h :: i :: j :: k :: _ =>
    isDigit a && isDigit b && isDigit c && d = 45 && isDigit e && isDigit f && g = 45 &&
      isDigit h && isDigit i && isDigit j && isDigit k
  | _ => false

/-- The spans of `agnosai_redact_ssn_a`. -/
def ssnSpans : Spans UInt8 where
  find rest := if ssnAt rest then some 11 else none
  pos h := by
    split at h
    · cases h
      decide
    · cases h

/-- `agnosai_redact_ssn_a`. -/
def redactSsn (text : Bytes) : Bytes :=
  if text.length < 11 then text else ssnSpans.replace redacted text

/-- `_agnosai_email_local_byte`. -/
def emailLocalByte (b : UInt8) : Bool := isAlnum b || b = 46 || b = 95 || b = 45 || b = 43

/-- `_agnosai_email_domain_byte`. -/
def emailDomainByte (b : UInt8) : Bool := isAlnum b || b = 46 || b = 45

/-- The length of the email that begins here, if one does. -/
def emailSpan (rest : Bytes) : Option Nat :=
  let localPart := rest.takeWhile emailLocalByte
  match localPart, rest.drop localPart.length with
  | _ :: _, 64 :: after =>
    let domain := after.takeWhile emailDomainByte
    if 46 ∈ domain then some (localPart.length + 1 + domain.length) else none
  | _, _ => none

/-- The spans of `agnosai_redact_email_a`. -/
def emailSpans : Spans UInt8 where
  find := emailSpan
  pos h := by
    unfold emailSpan at h
    simp only at h
    split at h
    · split at h
      · cases h
        omega
      · cases h
    · cases h

/-- `agnosai_redact_email_a`. -/
def redactEmail (text : Bytes) : Bytes := emailSpans.replace redacted text

/-- `agnosai_output_redact_a`. -/
def outputRedact (response : Bytes) : Bytes :=
  redactEmail (redactSsn (apiKeyPrefixes.foldl (fun text p => redactPrefix dec p text) response))

end Agnosai.OutputFilter
