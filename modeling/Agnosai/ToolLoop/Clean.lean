import Agnosai.Support.Utf8
import Agnosai.ToolLoop.Text

/-!
# ToolLoop — Clean

What cleaning and cutting leave. `_agnosai_tool_utf8_len` takes exactly the well-formed UTF-8
sequences (`utf8Len_append`, `exists_seq`), so cleaning walks a text sequence by sequence: it keeps
each one that is no control byte, and puts a `?` for every byte that begins none. Cutting goes back
to the beginning of a sequence, which in valid text is at most three bytes away.
-/

namespace Agnosai.ToolLoop

open Utf8 List

/-! ### Sequences -/

section More

variable {more : Nat} {lo hi b : UInt8} {tail rest : Bytes}

theorem all_tail_iff : (tail.all fun b => 0x80 ≤ b && b ≤ 0xBF) = true ↔ ∀ b ∈ tail, Tail b := by
  simp [tail_iff]

theorem utf8More_append (hb : lo ≤ b ∧ b ≤ hi) (htail : ∀ b ∈ tail, Tail b)
    (hlength : tail.length + 1 = more) : utf8More more lo hi (b :: (tail ++ rest)) = more + 1 := by
  have hin : ¬ (b < lo ∨ hi < b) := by
    rw [not_or, UInt8.not_lt, UInt8.not_lt]
    exact hb
  have htake : (tail ++ rest).take (more - 1) = tail := by
    rw [← hlength, Nat.add_sub_cancel, take_left]
  rw [utf8More, if_neg, if_neg hin, htake, if_pos (all_tail_iff.2 htail)]
  rw [length_append]
  omega

theorem utf8More_ne_zero (hmore : 0 < more) (h : utf8More more lo hi rest ≠ 0) :
    ∃ b tail rest', rest = b :: (tail ++ rest') ∧ (lo ≤ b ∧ b ≤ hi) ∧ (∀ b ∈ tail, Tail b) ∧
      tail.length + 1 = more := by
  unfold utf8More at h
  split at h
  · exact absurd rfl h
  next b rest =>
    simp only [ne_eq, ite_eq_left_iff, ite_eq_right_iff, Nat.add_eq_zero_iff, not_forall] at h
    obtain ⟨hlength, hin, hall, -⟩ := h
    rw [not_or, UInt8.not_lt, UInt8.not_lt] at hin
    refine ⟨b, rest.take (more - 1), rest.drop (more - 1), ?_, hin, all_tail_iff.1 hall, ?_⟩
    · rw [take_append_drop]
    · rw [length_take]
      omega

end More

/-- The cases of the first byte, as numbers. -/
theorem utf8Len_cons (c : UInt8) (rest : Bytes) :
    utf8Len (c :: rest) =
      if c.toNat < 0x80 then 1
      else if 0xC2 ≤ c.toNat ∧ c.toNat ≤ 0xDF then utf8More 1 0x80 0xBF rest
      else if 0xE0 ≤ c.toNat ∧ c.toNat ≤ 0xEF then
        utf8More 2 (if c.toNat = 0xE0 then 0xA0 else 0x80) (if c.toNat = 0xED then 0x9F
          else 0xBF) rest
      else if 0xF0 ≤ c.toNat ∧ c.toNat ≤ 0xF4 then
        utf8More 3 (if c.toNat = 0xF0 then 0x90 else 0x80) (if c.toNat = 0xF4 then 0x8F
          else 0xBF) rest
      else 0 := by
  simp only [utf8Len, UInt8.lt_iff_toNat_lt, UInt8.le_iff_toNat_le, ← UInt8.toNat_inj]
  rfl

variable {text : Bytes} {b : UInt8}

theorem ite_le_iff {p : Prop} [Decidable p] {x y : UInt8} :
    (if p then x else y) ≤ b ↔ (p → x.toNat ≤ b.toNat) ∧ (¬ p → y.toNat ≤ b.toNat) := by
  split <;> simp_all [UInt8.le_iff_toNat_le]

theorem le_ite_iff {p : Prop} [Decidable p] {x y : UInt8} :
    b ≤ (if p then x else y) ↔ (p → b.toNat ≤ x.toNat) ∧ (¬ p → b.toNat ≤ y.toNat) := by
  split <;> simp_all [UInt8.le_iff_toNat_le]

/-- A well-formed sequence is taken whole. -/
theorem utf8Len_append {w : Bytes} (h : Sequence w) (rest : Bytes) :
    utf8Len (w ++ rest) = w.length := by
  cases h with
  | one ha => exact (utf8Len_cons _ _).trans (if_pos ha)
  | @two a b ha hb =>
    show utf8Len (a :: b :: ([] ++ rest)) = 1 + 1
    rw [utf8Len_cons, if_neg (by omega), if_pos ha]
    exact utf8More_append (tail_iff.1 hb) (by simp) rfl
  | @three a b c ha hb hlong hsurrogate hc =>
    show utf8Len (a :: b :: ([c] ++ rest)) = 2 + 1
    rw [utf8Len_cons, if_neg (by omega), if_neg (by omega), if_pos ha]
    refine utf8More_append ⟨ite_le_iff.2 ⟨hlong, fun _ => hb.1⟩,
      le_ite_iff.2 ⟨hsurrogate, fun _ => hb.2⟩⟩ (by simpa using hc) rfl
  | @four a b c d ha hb hlong hpast hc hd =>
    show utf8Len (a :: b :: ([c, d] ++ rest)) = 3 + 1
    rw [utf8Len_cons, if_neg (by omega), if_neg (by omega), if_neg (by omega), if_pos ha]
    refine utf8More_append ⟨ite_le_iff.2 ⟨hlong, fun _ => hb.1⟩,
      le_ite_iff.2 ⟨hpast, fun _ => hb.2⟩⟩ (by simp [hc, hd]) rfl

/-- Whatever is taken is a well-formed sequence. -/
theorem exists_seq {bs : Bytes} (h : utf8Len bs ≠ 0) : ∃ w rest, bs = w ++ rest ∧ Sequence w := by
  cases bs with
  | nil => exact absurd rfl h
  | cons a rest =>
    rw [utf8Len_cons] at h
    split at h
    next ha =>
      exact ⟨[a], rest, rfl, .one ha⟩
    · split at h
      next ha =>
        obtain ⟨b, tail, rest, rfl, hb, -, hlength⟩ := utf8More_ne_zero (by decide) h
        obtain rfl := eq_nil_of_length_eq_zero (Nat.succ.inj hlength)
        exact ⟨[a, b], rest, rfl, .two ha (tail_iff.2 hb)⟩
      · split at h
        next ha =>
          obtain ⟨b, tail, rest, rfl, hb, htail, hlength⟩ := utf8More_ne_zero (by decide) h
          obtain ⟨c, rfl⟩ := length_eq_one_iff.1 (Nat.succ.inj hlength)
          rw [ite_le_iff, le_ite_iff] at hb
          simp only [UInt8.reduceToNat] at hb
          refine ⟨[a, b, c], rest, rfl, .three ha ⟨?_, ?_⟩ hb.1.1 hb.2.1 (htail c (by simp))⟩ <;>
            omega
        · split at h
          next ha =>
            obtain ⟨b, tail, rest, rfl, hb, htail, hlength⟩ := utf8More_ne_zero (by decide) h
            obtain ⟨c, d, rfl⟩ := length_eq_two.1 (Nat.succ.inj hlength)
            rw [ite_le_iff, le_ite_iff] at hb
            simp only [UInt8.reduceToNat] at hb
            refine ⟨[a, b, c, d], rest, rfl, .four ha ⟨?_, ?_⟩ hb.1.1 hb.2.1 (htail c (by simp))
              (htail d (by simp))⟩ <;> omega
          · exact absurd rfl h

/-! ### Cleaning -/

/-- A control byte is a sequence of its own. -/
theorem noise_lt (h : noise b) : b.toNat < 0x80 := by
  unfold noise at h
  split at h
  · cases h
  · simp only [Bool.or_eq_true, decide_eq_true_eq, UInt8.lt_iff_toNat_lt, ← UInt8.toNat_inj,
      UInt8.reduceToNat] at h
    omega

/-- The rest of a sequence that was taken is kept. -/
theorem cleanFrom_append (w rest : Bytes) : cleanFrom w.length (w ++ rest) = w ++ clean rest := by
  induction w with
  | nil => cases rest <;> rfl
  | cons b w ih =>
    rw [length_cons, cons_append, cleanFrom, ih, cons_append]

/-- A sequence with no control byte is kept. -/
theorem clean_seq {w : Bytes} (h : Sequence w) (hnoise : ∀ b ∈ w, ¬ noise b) (rest : Bytes) :
    clean (w ++ rest) = w ++ clean rest := by
  have hlen := utf8Len_append h rest
  obtain ⟨a, more, rfl, -, -, -⟩ := h.shape
  rw [cons_append] at hlen ⊢
  have hkeep : ¬ (utf8Len (a :: (more ++ rest)) = 0 ∨ utf8Len (a :: (more ++ rest)) = 1 ∧
      noise a) := by
    rw [hlen]
    rintro (hzero | ⟨-, hbad⟩)
    · cases hzero
    · exact hnoise a mem_cons_self hbad
  rw [clean, cleanFrom]
  simp only [if_neg hkeep]
  rw [hlen, length_cons, Nat.add_sub_cancel, cleanFrom_append, cons_append]

/-- A byte that is replaced: it begins no sequence, or is a control byte. -/
theorem clean_bad {a : UInt8} {rest : Bytes}
    (h : utf8Len (a :: rest) = 0 ∨ utf8Len (a :: rest) = 1 ∧ noise a) :
    clean (a :: rest) = 63 :: clean rest := by
  exact if_pos h

/-- **The rule for cleaning.** A text is empty, or begins with a sequence that is kept, or with a
byte that is replaced. -/
theorem clean_induction {P : Bytes → Prop} (nil : P [])
    (keep : ∀ w rest, Sequence w → (∀ b ∈ w, ¬ noise b) → P rest → P (w ++ rest))
    (bad : ∀ a rest, (utf8Len (a :: rest) = 0 ∨ utf8Len (a :: rest) = 1 ∧ noise a) → P rest →
      P (a :: rest)) (text : Bytes) : P text := by
  induction hn : text.length using Nat.strong_induction_on generalizing text with
  | _ n ih =>
    cases text with
    | nil => exact nil
    | cons a rest =>
      have hrest : P rest := ih rest.length (by rw [← hn, length_cons]; omega) rest rfl
      by_cases hzero : utf8Len (a :: rest) = 0
      · exact bad a rest (.inl hzero) hrest
      · by_cases hbad : noise a
        · refine bad a rest (.inr ⟨?_, hbad⟩) hrest
          rw [utf8Len_cons, if_pos (noise_lt hbad)]
        · obtain ⟨w, rest', heq, hseq⟩ := exists_seq hzero
          obtain ⟨a', more, rfl, -, hmore, -⟩ := hseq.shape
          rw [cons_append] at heq
          obtain ⟨rfl, rfl⟩ := cons.inj heq
          have hquiet : ∀ b ∈ a :: more, ¬ noise b := by
            intro b hb hnoise
            obtain rfl | hb := mem_cons.1 hb
            · exact hbad hnoise
            · exact absurd (noise_lt hnoise) (not_lt.2 (hmore b hb).1)
          have hshorter : rest'.length < n := by
            rw [← hn, length_cons, length_append]
            omega
          exact keep (a :: more) rest' hseq hquiet (ih rest'.length hshorter rest' rfl)

/-- A question mark is no control byte. -/
theorem sequence_mark : Sequence [63] := .one (by decide)

theorem not_noise_mark : ¬ noise 63 := by decide

/-- **What cleaning leaves.** -/
theorem clean_length : (clean text).length = text.length := by
  induction text using clean_induction with
  | nil => rfl
  | keep w rest hseq hquiet ih => rw [clean_seq hseq hquiet, length_append, length_append, ih]
  | bad a rest hbad ih => rw [clean_bad hbad, length_cons, length_cons, ih]

theorem clean_valid : Valid (clean text) := by
  induction text using clean_induction with
  | nil => exact .nil
  | keep w rest hseq hquiet ih =>
    rw [clean_seq hseq hquiet]
    exact .cons hseq ih
  | bad a rest hbad ih =>
    rw [clean_bad hbad]
    exact .cons sequence_mark ih

theorem clean_quiet : ∀ b ∈ clean text, ¬ noise b := by
  induction text using clean_induction with
  | nil => exact nofun
  | keep w rest hseq hquiet ih =>
    rw [clean_seq hseq hquiet]
    exact fun b hb => (mem_append.1 hb).elim (hquiet b) (ih b)
  | bad a rest hbad ih =>
    rw [clean_bad hbad]
    exact forall_mem_cons.2 ⟨not_noise_mark, ih⟩

/-- A text with nothing to replace is left as it is. -/
theorem clean_eq_self (h : Valid text) (hquiet : ∀ b ∈ text, ¬ noise b) : clean text = text := by
  induction h with
  | nil => rfl
  | @cons w rest hseq hrest ih =>
    rw [clean_seq hseq fun b hb => hquiet b (mem_append_left _ hb),
      ih fun b hb => hquiet b (mem_append_right _ hb)]

/-! ### Cutting -/

/-- The test of the loop is for a byte that continues a sequence. -/
theorem and_eq_iff : b &&& 0xC0 = 0x80 ↔ Tail b := by
  have hall : ∀ n : Fin 256, UInt8.ofNat n &&& 0xC0 = 0x80 ↔
      Tail (UInt8.ofNat n) := by decide +kernel
  have hb := hall ⟨b.toNat, b.toNat_lt⟩
  rwa [UInt8.ofNat_toNat] at hb

theorem cutBack_le (text : Bytes) (keep : Nat) : cutBack text keep ≤ keep := by
  induction keep with
  | zero => exact le_rfl
  | succ keep ih =>
    unfold cutBack
    split
    · exact le_rfl
    · split
      · exact ih.trans (Nat.le_succ keep)
      · exact le_rfl

/-- All that cutting goes back over continues a sequence. -/
theorem cutBack_tail {keep i : Nat} (hi : cutBack text keep < i) (hik : i ≤ keep) :
    ∃ b, text[i]? = some b ∧ Tail b := by
  induction keep with
  | zero => omega
  | succ keep ih =>
    unfold cutBack at hi
    split at hi
    · omega
    next b hb =>
      split at hi
      next htail =>
        obtain rfl | hlt := eq_or_lt_of_le hik
        · exact ⟨b, hb, and_eq_iff.1 htail⟩
        · exact ih hi (Nat.le_of_lt_succ hlt)
      · omega

/-- It stops before a byte that continues none, or at the beginning. -/
theorem cutBack_lead {keep : Nat}
    (hb : text[cutBack text keep]? = some b) (hpos : 0 < cutBack text keep) : ¬ Tail b := by
  induction keep with
  | zero => exact absurd hpos (lt_irrefl 0)
  | succ keep ih =>
    unfold cutBack at hb hpos
    split at hb
    next hnone =>
      rw [hnone] at hb
      cases hb
    next hb' =>
      simp only [hb'] at hpos
      split at hb
      next htail =>
        rw [if_pos htail] at hpos
        exact ih hb hpos
      next htail =>
        rw [hb'] at hb
        cases hb
        rwa [and_eq_iff] at htail

/-- In valid text it goes back at most three bytes. -/
theorem cutBack_near (h : Valid text) {keep : Nat} (hkeep : keep < text.length) :
    keep ≤ cutBack text keep + 3 := by
  obtain ⟨j, b, hj, hnear, hb, hlead⟩ := h.exists_lead hkeep
  by_contra hfar
  have hlt : cutBack text keep < j := by omega
  obtain ⟨b', hb', htail⟩ := cutBack_tail hlt hj
  rw [hb] at hb'
  cases hb'
  exact hlead htail

/-- What the cutter keeps of a text, before its note. -/
structure Kept (text : Bytes) (cap : Nat) (kept : Bytes) : Prop where
  isPrefix : kept <+: text
  valid : Valid kept
  le_cap : kept.length ≤ cap
  near_cap : cap < kept.length + 4

/-- A note that so many bytes are missing: its digits read as that number. -/
def Notes (note : Bytes) (more : Nat) : Prop :=
  ∃ digits : List Char, (∀ c ∈ digits, c.isDigit) ∧ Nat.ofDigitChars 10 digits 0 = more ∧
    note = ascii "\n[cut: " ++ ascii (String.ofList digits) ++ ascii " more bytes]"

theorem notes_cutNote (more : Nat) : Notes (cutNote more) more := by
  refine ⟨Nat.toDigits 10 more, fun c hc => Nat.isDigit_of_mem_toDigits (by decide) (by decide) hc,
    Nat.ofDigitChars_toDigits (by decide) (by decide), ?_⟩
  rw [cutNote, show toString (more : Int) = more.repr from rfl, Nat.repr_eq_ofList_toDigits]

/-- A cut keeps whole characters and says so. -/
theorem cut_kept {cap : Nat} (h : Valid text) (hlong : cap < text.length) :
    ∃ kept, Kept text cap kept ∧
      cut text cap text.length = kept ++ cutNote ((text.length : Int) - kept.length) ∧
      Notes (cutNote ((text.length : Int) - kept.length)) (text.length - kept.length) := by
  have hle := cutBack_le text cap
  have hlength : (text.take (cutBack text cap)).length = cutBack text cap := by
    rw [length_take]
    omega
  refine ⟨text.take (cutBack text cap), ⟨List.take_prefix _ _, ?_, by omega, ?_⟩, ?_, ?_⟩
  · obtain hzero | hpos := Nat.eq_zero_or_pos (cutBack text cap)
    · rw [hzero]
      exact .nil
    · exact h.take fun b hb => cutBack_lead hb hpos
  · have := cutBack_near h hlong
    omega
  · rw [cut, if_neg (by omega), min_eq_left hlong.le, hlength]
  · rw [← Int.ofNat_sub (by omega)]
    exact notes_cutNote _

/-- **Cleaning and cutting.** Cleaning keeps the length of any text, leaves it valid and without
control bytes, and leaves a text that is so already as it is; of a valid text longer than the cap,
cutting keeps a valid part that ends less than four bytes before the cap, and its note says, in
decimal, how many bytes are missing. -/
theorem cleaned_and_cut :
    (∀ text, (clean text).length = text.length ∧ Valid (clean text) ∧
      (∀ b ∈ clean text, ¬ noise b) ∧
      (Valid text → (∀ b ∈ text, ¬ noise b) → clean text = text) ∧
        clean (clean text) = clean text) ∧
    ∀ text cap, Valid text → cap < text.length →
      ∃ kept, Kept text cap kept ∧
        cut text cap text.length = kept ++ cutNote ((text.length : Int) - kept.length) ∧
        Notes (cutNote ((text.length : Int) - kept.length)) (text.length - kept.length) := by
  refine ⟨fun text => ⟨clean_length, clean_valid, clean_quiet, clean_eq_self, ?_⟩, ?_⟩
  · exact clean_eq_self clean_valid clean_quiet
  · exact fun text cap hvalid hlong => cut_kept hvalid hlong

/-- Of `aéb`, cut at two bytes, the first byte is kept. -/
theorem cleaned_and_cut_accent :
    Valid [97, 0xC3, 0xA9, 98] ∧
    (∃ kept, Kept [97, 0xC3, 0xA9, 98] 2 kept ∧
      cut [97, 0xC3, 0xA9, 98] 2 4 = kept ++ cutNote ((4 : Int) - kept.length) ∧
      Notes (cutNote ((4 : Int) - kept.length)) (4 - kept.length)) ∧
    cut [97, 0xC3, 0xA9, 98] 2 4 = 97 :: ascii "\n[cut: 3 more bytes]" := by
  have hvalid : Valid [97, 0xC3, 0xA9, 98] :=
    .cons (.one (by decide)) (.cons (.two (by decide) (by decide)) (.cons (.one (by decide)) .nil))
  exact ⟨hvalid, cleaned_and_cut.2 [97, 0xC3, 0xA9, 98] 2 hvalid (by decide), by decide +kernel⟩

end Agnosai.ToolLoop
