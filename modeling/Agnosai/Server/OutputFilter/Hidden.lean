import Agnosai.Server.OutputFilter.Clean

/-!
# Server — OutputFilter — Hidden

What redaction lets through of a key. Two texts that differ only in the token after a prefix become
the same text once the token is replaced: an earlier span either ends before the prefix, in both
texts alike, or runs over the whole token (`replace_agree`). A token that runs to the end of the
text is cut after 20 bytes, and what it has past them is shown.
-/

namespace Agnosai.OutputFilter

open List

/-- A decoder of UTF-8: an ASCII byte is itself, and a code point takes at most four bytes, which
are all it depends on. -/
structure Utf8Decoder extends Decoder where
  single : ∀ b rest, b < 128 → decode (b :: rest) = (b.toNat, 1)
  width : ∀ b rest, (decode (b :: rest)).2 ≤ 4
  lookahead : ∀ xs ys : Bytes, xs.take 4 = ys.take 4 → decode xs = decode ys

variable {p : KeyPrefix} {rest : Bytes} (dec : Utf8Decoder)

theorem Utf8Decoder.used (hne : rest ≠ []) : 0 < (dec.decode rest).2 ∧ (dec.decode rest).2 ≤ 4 := by
  obtain ⟨b, rest, rfl⟩ := exists_cons_of_ne_nil hne
  exact ⟨(dec.advance b rest).1, dec.width b rest⟩

/-! ### The end of a token -/

section Scan

variable {dec : Decoder} {b : UInt8} {rest : Bytes}

theorem spaceLoop_space (h : isUnicodeSpace (dec.decode (b :: rest)).1) (j : Nat) :
    (spaceLoop dec).run (j, b :: rest) = some j := by
  have hstep : (spaceLoop dec).step (j, b :: rest) = .inr (some j) := if_pos h
  exact (spaceLoop dec).run_of_inr hstep

theorem spaceLoop_next (h : ¬ isUnicodeSpace (dec.decode (b :: rest)).1) (j : Nat) :
    (spaceLoop dec).run (j, b :: rest) =
      (spaceLoop dec).run
        (j + (dec.decode (b :: rest)).2, (b :: rest).drop (dec.decode (b :: rest)).2) := by
  have hstep : (spaceLoop dec).step (j, b :: rest) =
      .inl (j + (dec.decode (b :: rest)).2, (b :: rest).drop (dec.decode (b :: rest)).2) := if_neg h
  exact (spaceLoop dec).run_of_inl hstep

theorem spaceLoop_run (dec : Decoder) (j k : Nat) (rest : Bytes) :
    (spaceLoop dec).run (j + k, rest) = ((spaceLoop dec).run (j, rest)).map (· + k) := by
  induction hlen : rest.length using Nat.strongRecOn generalizing j rest with
  | ind len ih =>
    obtain _ | ⟨b, rest⟩ := rest
    · rfl
    · by_cases hspace : isUnicodeSpace (dec.decode (b :: rest)).1
      · rw [spaceLoop_space hspace, spaceLoop_space hspace, Option.map_some]
      · rw [spaceLoop_next hspace, spaceLoop_next hspace, Nat.add_right_comm]
        have hadvance := (dec.advance b rest).1
        refine ih _ ?_ _ _ rfl
        rw [length_drop, ← hlen, length_cons]
        omega

theorem firstSpace_of_space (hne : rest ≠ []) (h : isUnicodeSpace (dec.decode rest).1) :
    firstSpace dec rest = some 0 := by
  obtain ⟨b, rest, rfl⟩ := exists_cons_of_ne_nil hne
  exact spaceLoop_space h 0

theorem firstSpace_of_not_space (hne : rest ≠ []) (h : ¬ isUnicodeSpace (dec.decode rest).1) :
    firstSpace dec rest =
      (firstSpace dec (rest.drop (dec.decode rest).2)).map (· + (dec.decode rest).2) := by
  obtain ⟨b, rest, rfl⟩ := exists_cons_of_ne_nil hne
  exact (spaceLoop_next h 0).trans (spaceLoop_run dec 0 _ _)

end Scan

/-- A run of code points that are not whitespace, before `rest`. -/
inductive Spaceless (dec : Decoder) (rest : Bytes) : Bytes → Prop where
  | nil : Spaceless dec rest []
  | next {tok : Bytes} (hne : tok ≠ []) (h : ¬ isUnicodeSpace (dec.decode (tok ++ rest)).1)
      (hle : (dec.decode (tok ++ rest)).2 ≤ tok.length)
      (htail : Spaceless dec rest (tok.drop (dec.decode (tok ++ rest)).2)) : Spaceless dec rest tok

/-- A token: a run without whitespace, and then whitespace or the end of the text. -/
structure Token (dec : Decoder) (tok rest : Bytes) : Prop where
  spaceless : Spaceless dec rest tok
  ends : rest ≠ [] → firstSpace dec rest = some 0

theorem Spaceless.firstSpace {dec : Decoder} {tok : Bytes} (h : Spaceless dec rest tok) :
    firstSpace dec (tok ++ rest) = (OutputFilter.firstSpace dec rest).map (· + tok.length) := by
  induction h with
  | nil => simp
  | @next tok hne h hle _ ih =>
    rw [firstSpace_of_not_space (append_ne_nil_of_left_ne_nil hne rest) h,
      drop_append_of_le_length hle, ih, Option.map_map]
    congr 1
    funext n
    simp only [Function.comp_apply, length_drop]
    omega

/-- A word of ASCII bytes without whitespace. -/
def Plain (w : Bytes) : Prop := ∀ b ∈ w, b < 128 ∧ ¬ isUnicodeSpace b.toNat

instance (w : Bytes) : Decidable (Plain w) :=
  inferInstanceAs (Decidable (∀ b ∈ w, b < 128 ∧ ¬ isUnicodeSpace b.toNat))

theorem Plain.spaceless {w : Bytes} (h : Plain w) : Spaceless dec.toDecoder rest w := by
  induction w with
  | nil => exact .nil
  | cons b w ih =>
    have hb := h b mem_cons_self
    have hdecode := dec.single b (w ++ rest) hb.1
    refine .next (cons_ne_nil b w) ?_ ?_ ?_
    · rw [cons_append, hdecode]
      exact hb.2
    · rw [cons_append, hdecode]
      exact Nat.succ_pos _
    · rw [cons_append, hdecode]
      exact ih fun b' hb' => h b' (mem_cons_of_mem b hb')

/-- The prefixes but `"Bearer "` are such words, of three bytes or more. -/
theorem plain_of_key (hp : p ∈ apiKeyPrefixes) (hbearer : p.bytes ≠ ascii "Bearer ") :
    3 ≤ p.bytes.length ∧ Plain p.bytes := by
  have hall : ∀ p ∈ apiKeyPrefixes, p.bytes ≠ ascii "Bearer " → 3 ≤ p.bytes.length ∧
      Plain p.bytes := by
    decide +kernel
  exact hall p hp hbearer

/-! ### Two texts that differ in a token -/

/-- A key in a text: a plain prefix, and a token of the given length after it. -/
structure Keyed (dec : Utf8Decoder) (p : Bytes) (len : Nat) (tok rest : Bytes) : Prop where
  long : 3 ≤ p.length
  plain : Plain p
  length : tok.length = len
  token : Token dec.toDecoder tok rest

section Agree

variable {dec : Utf8Decoder} {len : Nat} {tok tok' rest : Bytes}

/-- From anywhere in the prefix, the whitespace found is that after the token. -/
theorem Keyed.firstSpace_drop {p : Bytes} (h : Keyed dec p len tok rest) (hrest : rest ≠ [])
    (k : Nat) :
    firstSpace dec.toDecoder (p.drop k ++ (tok ++ rest)) = some (len + (p.length - k)) := by
  have hplain : Plain (p.drop k) := fun b hb => h.plain b (mem_of_mem_drop hb)
  rw [(hplain.spaceless dec).firstSpace, h.token.spaceless.firstSpace,
    h.token.ends hrest, length_drop]
  simp [h.length]

/-- Before the key the decoder reads the same in both texts: it does not see past the prefix. -/
theorem Keyed.decode_eq {p s : Bytes} (h : Keyed dec p len tok rest) (hs : s ≠ [])
    (ys ys' : Bytes) : dec.decode (s ++ (p ++ ys)) = dec.decode (s ++ (p ++ ys')) := by
  have hlong : 4 ≤ (s ++ p).length := by
    have hp := h.long
    have hpos := length_pos_of_ne_nil hs
    rw [length_append]
    omega
  refine dec.lookahead _ _ ?_
  rw [← append_assoc, ← append_assoc, take_append_of_le_length hlong,
    take_append_of_le_length hlong]

/-- A search that begins before the key finds the same in both texts: whitespace before it, or the
whitespace after the token. A code point that reaches into the prefix ends in it. -/
theorem firstSpace_agree {p : Bytes} (h : Keyed dec p len tok rest) (h' : Keyed dec p len tok' rest)
    (hrest : rest ≠ []) (s : Bytes) :
    ∃ n, firstSpace dec.toDecoder (s ++ (p ++ (tok ++ rest))) = some n ∧
      firstSpace dec.toDecoder (s ++ (p ++ (tok' ++ rest))) = some n ∧
      (n < s.length ∨ n = s.length + p.length + len) := by
  induction hlen : s.length using Nat.strongRecOn generalizing s with
  | ind k ih =>
    by_cases hs : s = []
    · subst hs
      refine ⟨len + p.length, h.firstSpace_drop hrest 0, h'.firstSpace_drop hrest 0, .inr ?_⟩
      rw [← hlen, length_nil]
      omega
    · have hdecode := h.decode_eq hs (tok' ++ rest) (tok ++ rest)
      have hne : ∀ ys : Bytes, s ++ ys ≠ [] := append_ne_nil_of_left_ne_nil hs
      obtain ⟨hpos, hwidth⟩ := dec.used (hne (p ++ (tok ++ rest)))
      by_cases hspace : isUnicodeSpace (dec.decode (s ++ (p ++ (tok ++ rest)))).1
      · refine ⟨0, firstSpace_of_space (hne _) hspace,
          firstSpace_of_space (hne _) (hdecode ▸ hspace), .inl ?_⟩
        exact hlen ▸ length_pos_of_ne_nil hs
      · rw [firstSpace_of_not_space (hne _) hspace,
          firstSpace_of_not_space (hne _) (hdecode ▸ hspace), hdecode]
        generalize (dec.decode (s ++ (p ++ (tok ++ rest)))).2 = used at hpos hwidth
        by_cases hused : used ≤ s.length
        · -- the search goes on before the key
          obtain ⟨n, hn, hn', hcases⟩ := ih _ (by rw [length_drop]; omega) (s.drop used) rfl
          rw [drop_append_of_le_length hused, drop_append_of_le_length hused, hn, hn']
          refine ⟨n + used, rfl, rfl, ?_⟩
          rw [length_drop] at hcases
          omega
        · -- the search goes on in the prefix
          have hlong := h.long
          have hpos' := length_pos_of_ne_nil hs
          have hinto : ∀ ys : Bytes, (s ++ (p ++ ys)).drop used =
              p.drop (used - s.length) ++ ys := by
            intro ys
            rw [drop_append, drop_eq_nil_of_le (by omega), nil_append,
              drop_append_of_le_length (by omega)]
          rw [hinto, hinto, h.firstSpace_drop hrest, h'.firstSpace_drop hrest]
          refine ⟨len + (p.length - (used - s.length)) + used, rfl, rfl, .inr ?_⟩
          omega

/-- The span of a key ends where the first whitespace is. -/
theorem tokenLength_of_space {p text : Bytes} (hplain : Plain p) (hpre : p <+: text) {n : Nat}
    (hn : firstSpace dec.toDecoder text = some n) :
    tokenLength dec.toDecoder p.length text = n := by
  obtain ⟨ys, rfl⟩ := hpre
  have hle : p.length ≤ n := by
    rw [(hplain.spaceless dec).firstSpace] at hn
    obtain ⟨k, -, rfl⟩ := Option.map_eq_some_iff.1 hn
    exact Nat.le_add_left _ _
  rw [tokenLength, hn]
  exact max_eq_left hle

/-- Whether a prefix begins before a key does not depend on what comes after it. -/
theorem prefix_before_iff {p s ys : Bytes} : p <+: s ++ (p ++ ys) ↔ p <+: s ++ p := by
  rw [← append_assoc]
  constructor
  · intro h
    exact prefix_of_prefix_length_le h (prefix_append _ _) (by simp)
  · exact fun h => h.trans (prefix_append _ _)

/-- **The walk hides the token.** With whitespace after it, nothing of it is in the result. -/
theorem replace_agree (h : Keyed dec p.bytes len tok rest)
    (h' : Keyed dec p.bytes len tok' rest) (hrest : rest ≠ []) (s : Bytes) :
    (keySpans dec.toDecoder p).replace redacted (s ++ (p.bytes ++ (tok ++ rest))) =
      (keySpans dec.toDecoder p).replace redacted (s ++ (p.bytes ++ (tok' ++ rest))) := by
  induction hlen : s.length using Nat.strongRecOn generalizing s with
  | ind k ih =>
    have hne : ∀ ys : Bytes, s ++ (p.bytes ++ ys) ≠ [] := fun ys =>
      append_ne_nil_of_right_ne_nil s (append_ne_nil_of_left_ne_nil p.avoids.ne_nil ys)
    by_cases hpre : p.bytes <+: s ++ (p.bytes ++ (tok ++ rest))
    · obtain ⟨n, hn, hn', hcases⟩ := firstSpace_agree h h' hrest s
      have hpre' : p.bytes <+: s ++ (p.bytes ++ (tok' ++ rest)) :=
        prefix_before_iff.2 (prefix_before_iff.1 hpre)
      have hspan := tokenLength_of_space h.plain hpre hn
      have hspan' := tokenLength_of_space h.plain hpre' hn'
      have hpos := tokenLength_pos dec.toDecoder p (s ++ (p.bytes ++ (tok ++ rest)))
      rw [Spans.replace_span (hne _) (keySpans_find hpre),
        Spans.replace_span (hne _) (keySpans_find hpre'), hspan, hspan']
      obtain hbefore | hafter := hcases
      · rw [drop_append_of_le_length hbefore.le, drop_append_of_le_length hbefore.le,
          ih _ (by rw [length_drop]; omega) (s.drop n) rfl]
      · have hdrop : ∀ t : Bytes, t.length = len →
          (s ++ (p.bytes ++ (t ++ rest))).drop n = rest := by
          intro t ht
          rw [hafter, ← ht, ← append_assoc, ← append_assoc]
          exact drop_left' (by simp [Nat.add_assoc])
        rw [hdrop tok h.length, hdrop tok' h'.length]
    · obtain _ | ⟨b, s⟩ := s
      · exact absurd (prefix_append _ _) hpre
      · have hpre' : ¬ p.bytes <+: b :: s ++ (p.bytes ++ (tok' ++ rest)) := fun hin =>
          hpre (prefix_before_iff.2 (prefix_before_iff.1 hin))
        rw [cons_append] at hpre hpre' ⊢
        rw [cons_append, Spans.replace_cons (keySpans_find_none hpre),
          Spans.replace_cons (keySpans_find_none hpre'), ih s.length (by rw [← hlen]; simp) s rfl]

/-- At the end of the text the span is cut after 20 bytes. -/
theorem replace_end (h : Keyed dec p.bytes len tok []) {pre : Bytes}
    (hfirst : ∀ s, s <:+ pre → s ≠ [] → ¬ p.bytes <+: s ++ p.bytes) :
    (keySpans dec.toDecoder p).replace redacted (pre ++ (p.bytes ++ tok)) =
      pre ++ (redacted.text ++ (keySpans dec.toDecoder p).replace redacted (tok.drop 20)) := by
  have hnone : firstSpace dec.toDecoder (p.bytes ++ tok) = none := by
    have hspaceless := h.token.spaceless.firstSpace
    rw [append_nil] at hspaceless
    rw [(h.plain.spaceless dec).firstSpace, hspaceless]
    rfl
  have hdrop : (p.bytes ++ tok).drop (tokenLength dec.toDecoder p.bytes.length (p.bytes ++ tok)) =
      tok.drop 20 := by
    rw [tokenLength, hnone, Option.getD_none, length_append,
      max_eq_left (by omega), drop_append, drop_eq_nil_of_le (by omega), nil_append]
    obtain hle | hlt := le_total tok.length 20
    · rw [drop_eq_nil_of_le (by omega), drop_eq_nil_of_le hle]
    · rw [min_eq_left (by omega), Nat.add_sub_cancel_left]
  rw [Spans.replace_append fun s hs hne => keySpans_find_none fun hpre =>
      hfirst s hs hne (prefix_before_iff.1 hpre),
    Spans.replace_span (append_ne_nil_of_left_ne_nil p.avoids.ne_nil tok)
      (keySpans_find (prefix_append p.bytes tok)), hdrop]

end Agree

/-- Two texts that the pass of their one prefix makes equal. -/
theorem foldl_redactPrefix_agree {dec : Decoder} {text text' : Bytes}
    (h : (keySpans dec p).replace redacted text = (keySpans dec p).replace redacted text')
    (ps : List KeyPrefix) (hp : p ∈ ps)
    (hother : ∀ q ∈ ps, q.bytes ≠ p.bytes → ¬ q.bytes <:+: text ∧ ¬ q.bytes <:+: text') :
    ps.foldl (fun text p => redactPrefix dec p text) text =
      ps.foldl (fun text p => redactPrefix dec p text) text' := by
  induction ps with
  | nil => cases hp
  | cons q ps ih =>
    rw [foldl_cons, foldl_cons]
    by_cases hq : q.bytes = p.bytes
    · obtain rfl : q = p := by
        cases q
        cases p
        cases hq
        rfl
      rw [redactPrefix_eq, redactPrefix_eq, h]
    · obtain ⟨hnot, hnot'⟩ := hother q mem_cons_self hq
      have hps : p ∈ ps := (mem_cons.1 hp).resolve_left fun heq => hq (heq ▸ rfl)
      rw [redactPrefix_eq, redactPrefix_eq, keySpans_replace_eq_self hnot,
        keySpans_replace_eq_self hnot']
      exact ih hps fun q' hq' => hother q' (mem_cons_of_mem q hq')

/-- **Redaction hides a key's token.** Of two texts that differ in it alone, and have no other of
the prefixes, the result is the same: always when whitespace follows the token, and at the end of
the text when the prefix does not begin earlier and they agree after the token's first 20 bytes. -/
theorem token_hidden {p : KeyPrefix} (hp : p ∈ apiKeyPrefixes) (hbearer : p.bytes ≠ ascii "Bearer ")
    {pre tok tok' rest : Bytes} (hlen : tok.length = tok'.length)
    (htok : Token dec.toDecoder tok rest) (htok' : Token dec.toDecoder tok' rest)
    (hother : ∀ q ∈ apiKeyPrefixes, q.bytes ≠ p.bytes →
      ¬ q.bytes <:+: pre ++ (p.bytes ++ (tok ++ rest)) ∧
        ¬ q.bytes <:+: pre ++ (p.bytes ++ (tok' ++ rest)))
    (hend : rest = [] → tok.drop 20 = tok'.drop 20 ∧ ∀ s, s <:+ pre → s ≠ [] →
      ¬ p.bytes <+: s ++ p.bytes) :
    outputRedact dec.toDecoder (pre ++ (p.bytes ++ (tok ++ rest))) =
      outputRedact dec.toDecoder (pre ++ (p.bytes ++ (tok' ++ rest))) := by
  obtain ⟨hlong, hplain⟩ := plain_of_key hp hbearer
  have hkey : Keyed dec p.bytes tok'.length tok rest := ⟨hlong, hplain, hlen, htok⟩
  have hkey' : Keyed dec p.bytes tok'.length tok' rest := ⟨hlong, hplain, rfl, htok'⟩
  have hpass : (keySpans dec.toDecoder p).replace redacted (pre ++ (p.bytes ++ (tok ++ rest))) =
      (keySpans dec.toDecoder p).replace redacted (pre ++ (p.bytes ++ (tok' ++ rest))) := by
    by_cases hrest : rest = []
    · subst hrest
      obtain ⟨hdrop, hfirst⟩ := hend rfl
      rw [append_nil, append_nil, replace_end hkey hfirst, replace_end hkey' hfirst, hdrop]
    · exact replace_agree hkey hkey' hrest pre
  rw [outputRedact, outputRedact, foldl_redactPrefix_agree hpass apiKeyPrefixes hp hother]

/-! ### A decoder -/

/-- A byte that goes on a code point. -/
def continues (b : UInt8) : Bool := b &&& 0xC0 = 0x80

/-- The code point that a first byte and the ones that go on it make. -/
def codePoint (lead : UInt8) (more : Bytes) : Nat :=
  more.foldl (fun cp b => cp * 64 + (b &&& 0x3F).toNat) lead.toNat

/-- UTF-8, where a byte that begins no code point stands for U+FFFD. -/
def utf8Decode (rest : Bytes) : Nat × Nat :=
  match rest.take 4 with
  | [] => (0, 1)
  | a :: more =>
    if a < 128 then (a.toNat, 1)
    else if 0xC2 ≤ a ∧ a < 0xE0 ∧ 1 ≤ more.length ∧ (more.take 1).all continues then
      (codePoint (a &&& 0x1F) (more.take 1), 2)
    else if 0xE0 ≤ a ∧ a < 0xF0 ∧ 2 ≤ more.length ∧ (more.take 2).all continues then
      (codePoint (a &&& 0x0F) (more.take 2), 3)
    else if 0xF0 ≤ a ∧ a < 0xF5 ∧ 3 ≤ more.length ∧ (more.take 3).all continues then
      (codePoint (a &&& 0x07) (more.take 3), 4)
    else (0xFFFD, 1)

theorem utf8Decode_used (b : UInt8) (rest : Bytes) :
    0 < (utf8Decode (b :: rest)).2 ∧ (utf8Decode (b :: rest)).2 ≤ ((b :: rest).take 4).length := by
  have htake : (b :: rest).take 4 = b :: rest.take 3 := rfl
  simp only [utf8Decode, htake, length_cons]
  repeat' split
  all_goals
    omega

def utf8 : Utf8Decoder where
  decode := utf8Decode
  advance b rest := by
    have hused := utf8Decode_used b rest
    exact ⟨hused.1, hused.2.trans (take_sublist 4 _).length_le⟩
  single b rest hb := if_pos hb
  width b rest := (utf8Decode_used b rest).2.trans (length_take_le 4 _)
  lookahead xs ys h := by rw [utf8Decode, utf8Decode, h]

theorem Plain.token {tok : Bytes} (h : Plain tok)
    (hrest : rest ≠ [] → firstSpace utf8.toDecoder rest = some 0) : Token utf8.toDecoder tok rest :=
  ⟨h.spaceless utf8, hrest⟩

/-- The one prefix of a text is this one, and the text has no SSN and no email. -/
def OnlyKey (p : KeyPrefix) (text : Bytes) : Prop :=
  (∀ q ∈ apiKeyPrefixes, q.bytes ≠ p.bytes → ¬ q.bytes <:+: text) ∧
    ∀ s ∈ text.tails, ¬ ssnAt s ∧ emailSpan s = none

instance (p : KeyPrefix) (text : Bytes) : Decidable (OnlyKey p text) :=
  inferInstanceAs (Decidable (_ ∧ _))

theorem avoids_sk : redacted.Avoids (ascii "sk-") := by decide +kernel

def skPrefix : KeyPrefix := ⟨ascii "sk-", avoids_sk⟩

theorem skPrefix_mem : skPrefix ∈ apiKeyPrefixes := by simp [skPrefix, apiKeyPrefixes]

/-- A token after another key of the same kind, with more text after it. -/
theorem token_hidden_words :
    outputRedact utf8.toDecoder (ascii "sk-abc " ++
      (skPrefix.bytes ++ (ascii "def" ++ ascii " end"))) =
      outputRedact utf8.toDecoder
        (ascii "sk-abc " ++ (skPrefix.bytes ++ (ascii "xyz" ++ ascii " end"))) := by
  have hspace : ascii " end" ≠ [] → firstSpace utf8.toDecoder (ascii " end") = some 0 := fun _ => by
    decide +kernel
  exact token_hidden utf8 skPrefix_mem (by decide +kernel) rfl
    (Plain.token (by decide +kernel) hspace)
    (Plain.token (by decide +kernel) hspace) (by decide +kernel) (nofun)

/-- Past 20 bytes a token at the end of the text is shown. -/
theorem token_shown :
    Token utf8.toDecoder (ascii "aaaaaaaaaaaaaaaaaaaab") [] ∧
    Token utf8.toDecoder (ascii "aaaaaaaaaaaaaaaaaaaac") [] ∧
    OnlyKey skPrefix (skPrefix.bytes ++ ascii "aaaaaaaaaaaaaaaaaaaab") ∧
    OnlyKey skPrefix (skPrefix.bytes ++ ascii "aaaaaaaaaaaaaaaaaaaac") ∧
    outputRedact utf8.toDecoder (skPrefix.bytes ++ ascii "aaaaaaaaaaaaaaaaaaaab") =
      ascii "[REDACTED]b" ∧
    outputRedact utf8.toDecoder (skPrefix.bytes ++ ascii "aaaaaaaaaaaaaaaaaaaac") =
      ascii "[REDACTED]c" := by
  refine ⟨Plain.token (by decide +kernel) (by simp), Plain.token (by decide +kernel) (by simp), ?_⟩
  decide +kernel

end Agnosai.OutputFilter
