import Agnosai.Server.OutputFilter.Definitions
import Mathlib.Data.List.TakeWhile

/-!
# Server — OutputFilter — Clean

What redaction leaves. The loop for a prefix comes to one walk from left to right
(`redactPrefix_eq`), so all twelve passes are rewritings by `Spans.replace`, and `[REDACTED]`
cannot join what stands beside it into anything they look for.
-/

namespace Agnosai.OutputFilter

open Spans List

/-! ### A prefix, in one walk -/

/-- The spans of a prefix and its token. -/
def keySpans (dec : Decoder) (p : KeyPrefix) : Spans UInt8 where
  find rest := if p.bytes.isPrefixOf rest then some (tokenLength dec p.bytes.length rest) else none
  pos {rest _} h := by
    split at h
    · cases h
      exact tokenLength_pos dec p rest
    · cases h

section Key

variable {dec : Decoder} {p : KeyPrefix}

theorem keySpans_find {rest : Bytes} (h : p.bytes <+: rest) :
    (keySpans dec p).find rest = some (tokenLength dec p.bytes.length rest) :=
  if_pos (List.isPrefixOf_iff_prefix.2 h)

theorem keySpans_find_none {rest : Bytes} (h : ¬ p.bytes <+: rest) :
    (keySpans dec p).find rest = none :=
  if_neg fun hpre => h (List.isPrefixOf_iff_prefix.1 hpre)

/-- A round does the walk's first replacement. -/
theorem redactStep_replace {text text' : Bytes} (h : redactStep dec p text = .inl text') :
    (keySpans dec p).replace redacted text' = (keySpans dec p).replace redacted text := by
  obtain ⟨pos, hpos, rfl⟩ := redactStep_eq_inl h
  obtain ⟨hlt, hpre, hfirst⟩ := indexOf_eq_some p.avoids.ne_nil hpos
  have hne : text.drop pos ≠ [] := fun hnil => p.avoids.ne_nil (prefix_nil.1 (hnil ▸ hpre))
  calc (keySpans dec p).replace redacted (text.take pos ++ redacted.text ++
        (text.drop pos).drop (tokenLength dec p.bytes.length (text.drop pos)))
      = text.take pos ++ redacted.text ++ (keySpans dec p).replace redacted
          ((text.drop pos).drop (tokenLength dec p.bytes.length (text.drop pos))) :=
        replace_append fun s hs hne' =>
          keySpans_find_none (not_prefix_of_replaced p hpos _ s hs hne')
    _ = text.take pos ++ (keySpans dec p).replace redacted (text.drop pos) := by
        rw [replace_span hne (keySpans_find hpre), append_assoc]
    _ = (keySpans dec p).replace redacted (text.take pos ++ text.drop pos) :=
        (replace_append fun s hs hne' => keySpans_find_none (hfirst s hs hne')).symm
    _ = (keySpans dec p).replace redacted text := by rw [take_append_drop]

/-- A text without the prefix has no span. -/
theorem keySpans_replace_eq_self {text : Bytes} (h : ¬ p.bytes <:+: text) :
    (keySpans dec p).replace redacted text = text :=
  replace_eq_self fun _ hs _ => keySpans_find_none fun hpre => h (hpre.isInfix.trans hs.isInfix)

/-- **The loop comes to one walk.** -/
theorem redactPrefix_eq (text : Bytes) :
    redactPrefix dec p text = (keySpans dec p).replace redacted text := by
  refine (prefixLoop dec p).run_spec
    (I := fun t => (keySpans dec p).replace redacted t = (keySpans dec p).replace redacted text)
    (Q := fun r => r = (keySpans dec p).replace redacted text) ?_ ?_ rfl
  · intro t t' ht hstep
    exact (redactStep_replace hstep).trans ht
  · intro t r ht hstep
    obtain ⟨hnone, rfl⟩ := redactStep_eq_inr hstep
    exact (keySpans_replace_eq_self (indexOf_eq_none p.avoids.ne_nil hnone)).symm.trans ht

end Key

/-! ### SSNs -/

variable {s w : Bytes}

theorem ssnAt_mono (h : ssnAt w) (hpre : w <+: s) : ssnAt s := by
  obtain ⟨rest, rfl⟩ := hpre
  unfold ssnAt at h
  split at h
  · exact h
  · cases h

/-- The eleven bytes of an SSN. -/
theorem exists_ssn_word (h : ssnAt s) :
    ∃ w, w <+: s ∧ ssnAt w ∧ w ≠ [] ∧ ∀ b ∈ w, isDigit b ∨ b = 45 := by
  unfold ssnAt at h
  split at h
  next a b c d e f g i j k l rest =>
    refine ⟨[a, b, c, d, e, f, g, i, j, k, l], ⟨rest, rfl⟩, h, cons_ne_nil _ _, ?_⟩
    simp only [Bool.and_eq_true, decide_eq_true_eq] at h
    simp only [mem_cons, not_mem_nil, or_false]
    rintro x (rfl | rfl | rfl | rfl | rfl | rfl | rfl | rfl | rfl | rfl | rfl) <;> simp [h]
  · cases h

theorem avoids_of_ssn (hne : w ≠ []) (h : ∀ b ∈ w, isDigit b ∨ b = 45) : redacted.Avoids w where
  ne_nil := hne
  opening hmem := absurd (h _ hmem) (by decide)
  closing hmem := absurd (h _ hmem) (by decide)
  word hin := by
    obtain ⟨b, hb⟩ := exists_mem_of_ne_nil w hne
    have hword : ∀ b ∈ redacted.word, ¬ (isDigit b ∨ b = 45) := by decide +kernel
    exact hword b (hin.subset hb) (h b hb)

theorem ssnSpans_find (h : ssnAt s) : ssnSpans.find s = some 11 := if_pos h

/-- A short text has no SSN, so the check for one changes nothing. -/
theorem redactSsn_eq (text : Bytes) : redactSsn text = ssnSpans.replace redacted text := by
  unfold redactSsn
  split
  · refine (replace_eq_self fun s hs _ => if_neg fun hssn => ?_).symm
    unfold ssnAt at hssn
    split at hssn
    · have hlength := hs.length_le
      simp only [length_cons] at hlength
      omega
    · cases hssn
  · rfl

/-! ### Emails -/

/-- What makes an email: a local part, an at sign, and a domain up to a dot. -/
structure EmailWord (w : Bytes) : Prop where
  split : ∃ localPart domain, w = localPart ++ 64 :: (domain ++ [46]) ∧ localPart ≠ [] ∧
    (∀ b ∈ localPart, emailLocalByte b) ∧ ∀ b ∈ domain, emailDomainByte b

theorem EmailWord.avoids (h : EmailWord w) : redacted.Avoids w := by
  obtain ⟨l, d, rfl, hne, hl, hd⟩ := h.split
  have hbyte : ∀ b ∈ l ++ 64 :: (d ++ [46]), emailLocalByte b ∨ emailDomainByte b ∨ b = 64 := by
    intro b hb
    simp only [mem_append, mem_cons, not_mem_nil, or_false] at hb
    obtain hb | rfl | hb | rfl := hb
    · exact .inl (hl b hb)
    · exact .inr (.inr rfl)
    · exact .inr (.inl (hd b hb))
    · exact .inl rfl
  refine ⟨by simp, fun hmem => absurd (hbyte _ hmem) (by decide),
    fun hmem => absurd (hbyte _ hmem) (by decide), fun hin => ?_⟩
  have hat : (64 : UInt8) ∈ redacted.word := hin.subset (by simp)
  revert hat
  decide +kernel

theorem takeWhile_append_cons {P : UInt8 → Bool} {xs ys : Bytes} {a : UInt8} (h : ∀ b ∈ xs, P b)
    (ha : ¬ P a) : (xs ++ a :: ys).takeWhile P = xs := by
  rw [takeWhile_append_of_pos h, takeWhile_cons_of_neg ha, append_nil]

/-- Such a word begins an email wherever it is. -/
theorem EmailWord.span (h : EmailWord w) (hpre : w <+: s) : emailSpan s ≠ none := by
  obtain ⟨rest, rfl⟩ := hpre
  obtain ⟨l, d, rfl, hne, hl, hd⟩ := h.split
  have hshape : l ++ 64 :: (d ++ [46]) ++ rest = l ++ 64 :: (d ++ 46 :: rest) := by simp
  have hlocal : (l ++ 64 :: (d ++ 46 :: rest)).takeWhile emailLocalByte = l :=
    takeWhile_append_cons hl (by decide)
  have hdot : 46 ∈ (d ++ 46 :: rest).takeWhile emailDomainByte := by
    rw [takeWhile_append_of_pos hd, takeWhile_cons_of_pos (by decide)]
    exact mem_append_right _ mem_cons_self
  obtain _ | ⟨a, l⟩ := l
  · exact absurd rfl hne
  · rw [hshape, emailSpan, hlocal, drop_left]
    simp only [if_pos hdot]
    exact Option.some_ne_none _

/-- An email begins with such a word. -/
theorem exists_email_word (h : emailSpan s ≠ none) : ∃ w, w <+: s ∧ EmailWord w := by
  unfold emailSpan at h
  simp only at h
  split at h
  next a l after hlocal hafter =>
    split at h
    next hdot =>
      obtain ⟨d, d', hd⟩ := append_of_mem hdot
      have hs : s.takeWhile emailLocalByte ++ 64 :: after = s := by
        rw [← hafter]
        exact prefix_iff_eq_append.1 (List.takeWhile_prefix _)
      have hdomain : d ++ 46 :: d' <+: after := hd ▸ takeWhile_prefix _
      obtain ⟨after', hafter'⟩ := hdomain
      refine ⟨s.takeWhile emailLocalByte ++ 64 :: (d ++ [46]), ⟨d' ++ after', ?_⟩,
        ⟨_, d, rfl, ?_, ?_, ?_⟩⟩
      · conv_rhs => rw [← hs, ← hafter']
        simp
      · rw [hlocal]
        exact cons_ne_nil a l
      · exact fun b hb => mem_takeWhile_imp hb
      · intro b hb
        exact mem_takeWhile_imp (hd ▸ mem_append_left _ hb)
    · exact absurd rfl h
  · exact absurd rfl h

/-! ### The passes -/

/-- None of what redaction looks for. -/
structure Clean (text : Bytes) : Prop where
  keys : ∀ p ∈ apiKeyPrefixes, ¬ p.bytes <:+: text
  ssn : ∀ s, s <:+ text → ¬ ssnAt s
  email : ∀ s, s <:+ text → emailSpan s = none

section Passes

variable {text : Bytes}

/-- A walk over the prefixes takes them all out. -/
theorem foldl_redactPrefix_clean (dec : Decoder) (ps : List KeyPrefix) (text : Bytes) :
    ∀ p ∈ ps, ¬ p.bytes <:+: ps.foldl (fun text p => redactPrefix dec p text) text := by
  -- from the end: the last prefix is taken out last, and brings none of the others back
  induction ps using reverseRecOn generalizing text with
  | nil => exact nofun
  | append_singleton ps last ih =>
    intro p hp
    rw [foldl_append, foldl_cons, foldl_nil, redactPrefix_eq]
    obtain hp | hp := mem_append.1 hp
    · exact not_infix_replace p.avoids (ih text p hp)
    · obtain rfl := mem_singleton.1 hp
      exact not_infix_replace_of_span p.avoids fun s hpre => by
        rw [keySpans_find hpre]
        exact Option.some_ne_none _

theorem redactSsn_ssn : ∀ s, s <:+ redactSsn text → ¬ ssnAt s := by
  intro s hs hssn
  obtain ⟨w, hw, hssn', hne, hbytes⟩ := exists_ssn_word hssn
  rw [redactSsn_eq] at hs
  refine not_infix_replace_of_span (avoids_of_ssn hne hbytes) (fun s' hpre => ?_)
    (hw.isInfix.trans hs.isInfix)
  rw [ssnSpans_find (ssnAt_mono hssn' hpre)]
  exact Option.some_ne_none _

/-- The pass for emails brings back no SSN. -/
theorem redactEmail_ssn (h : ∀ s, s <:+ text → ¬ ssnAt s) :
    ∀ s, s <:+ redactEmail text → ¬ ssnAt s := by
  intro s hs hssn
  obtain ⟨w, hw, hssn', hne, hbytes⟩ := exists_ssn_word hssn
  refine not_infix_replace (avoids_of_ssn hne hbytes) (fun hin => ?_) (hw.isInfix.trans hs.isInfix)
  obtain ⟨front, rest, rfl⟩ := hin
  exact h (w ++ rest) ⟨front, by simp⟩ (ssnAt_mono hssn' (prefix_append w rest))

theorem redactEmail_email : ∀ s, s <:+ redactEmail text → emailSpan s = none := by
  intro s hs
  by_contra hspan
  obtain ⟨w, hw, hemail⟩ := exists_email_word hspan
  exact not_infix_replace_of_span hemail.avoids (fun s' hpre => hemail.span hpre)
    (hw.isInfix.trans hs.isInfix)

/-- **What redaction leaves is clean.** -/
theorem outputRedact_clean (dec : Decoder) (text : Bytes) : Clean (outputRedact dec text) where
  keys p hp := by
    have hkeys := foldl_redactPrefix_clean dec apiKeyPrefixes text p hp
    refine not_infix_replace p.avoids ?_
    rw [redactSsn_eq]
    exact not_infix_replace p.avoids hkeys
  ssn := redactEmail_ssn redactSsn_ssn
  email := redactEmail_email

/-- **A clean text is left as it is.** -/
theorem Clean.outputRedact_eq (h : Clean text) (dec : Decoder) : outputRedact dec text = text := by
  have hkeys : apiKeyPrefixes.foldl (fun text p => redactPrefix dec p text) text = text := by
    refine foldlRecOn (motive := fun t => t = text) _ _ rfl fun t ht p hp => ?_
    rw [ht, redactPrefix_eq]
    exact keySpans_replace_eq_self (h.keys p hp)
  have hssn : redactSsn text = text := by
    rw [redactSsn_eq]
    exact replace_eq_self fun s hs _ => if_neg (h.ssn s hs)
  rw [outputRedact, hkeys, hssn]
  exact replace_eq_self fun s hs _ => h.email s hs

end Passes

/-- **Redaction terminates, takes out every prefix and every SSN, and done again changes nothing.**
A loop for a prefix takes no more rounds than the text has bytes, and so does the search for the end
of a token. -/
theorem outputRedact_terminates (dec : Decoder) (text : Bytes) :
    (∀ p ∈ apiKeyPrefixes, ∀ t : Bytes, ((prefixLoop dec p).within (t.length + 1) t).isSome) ∧
    (∀ t : Bytes, ((spaceLoop dec).within (t.length + 1) (0, t)).isSome) ∧
    (∀ p ∈ apiKeyPrefixes, ¬ p.bytes <:+: outputRedact dec text) ∧
    (∀ s, s <:+ outputRedact dec text → ¬ ssnAt s) ∧
    outputRedact dec (outputRedact dec text) = outputRedact dec text := by
  have hclean := outputRedact_clean dec text
  refine ⟨fun p _ t => (prefixLoop dec p).within_isSome ?_, fun t => ?_, hclean.keys, hclean.ssn,
    hclean.outputRedact_eq dec⟩
  · show (indexOf p.bytes t).elim 0 (t.length - ·) < t.length + 1
    cases indexOf p.bytes t with
    | none => exact Nat.succ_pos _
    | some pos => exact Nat.lt_succ_of_le (Nat.sub_le t.length pos)
  · exact (spaceLoop dec).within_isSome (Nat.lt_succ_self t.length)

end Agnosai.OutputFilter
