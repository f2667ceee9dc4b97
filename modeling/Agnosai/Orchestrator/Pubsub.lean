import Agnosai.Core.Bytes
import Mathlib.Computability.Language

/-!
# Orchestrator — Pubsub

Topics and patterns of the publish/subscribe hub, after `orchestrator/pubsub.cyr`. Both are split
at the dots, and the empty string is one empty segment, as `tests/orch_pubsub.tcyr` has it. The
matcher carries what is left of the segments for its two indices, and answers no beyond a bound on
its depth. What a pattern stands for is a language over segments (`meaning`).
-/

namespace Agnosai.Pubsub

/-- `AGNOSAI_PUBSUB_MAX_MATCH_DEPTH`. -/
def maxMatchDepth : Nat := 32

/-- `str_split` at the dots. -/
def segments (s : Bytes) : List Bytes := s.splitOn 46

variable (seg : Bytes)

/-- `_agnosai_pubsub_is_hash`. -/
def isHash : Bool := seg == ascii "#"

def isStar : Bool := seg == ascii "*"

/-- `_agnosai_pubsub_match_at`. -/
def matchAt : List Bytes → List Bytes → Nat → Bool
  | [], topic, depth => if maxMatchDepth < depth then false else topic.isEmpty
  | seg :: rest, topic, depth =>
    if maxMatchDepth < depth then false
    else if isHash seg then
      -- a trailing wildcard swallows everything; another tries to consume 0, 1, 2, … segments
      if rest.isEmpty then true else topic.tails.any fun left => matchAt rest left (depth + 1)
    else
      match topic with
      | [] => (seg :: rest).all isHash
      | first :: left =>
        if isStar seg then matchAt rest left (depth + 1)
        else if seg = first then matchAt rest left (depth + 1)
        else false

/-- `agnosai_matches_pattern`. -/
def matchesPattern (pattern topic : Bytes) : Bool := matchAt (segments pattern) (segments topic) 0

/-! ### What a pattern stands for -/

/-- What one segment of a pattern stands for: `#` for any segments, `*` for any one, and another for
itself. -/
def Stands (taken : List Bytes) : Prop :=
  if seg = ascii "#" then True else if seg = ascii "*" then taken.length = 1 else taken = [seg]

def segmentMeaning : Language Bytes := {taken | Stands seg taken}

/-- What a pattern stands for. -/
def meaning (pat : List Bytes) : Language Bytes := (pat.map segmentMeaning).prod

variable {seg : Bytes} {rest pat topic : List Bytes} {depth : Nat}

theorem mem_meaning_nil : topic ∈ meaning [] ↔ topic = [] := Language.mem_one topic

theorem mem_meaning_cons :
    topic ∈ meaning (seg :: rest) ↔
      ∃ taken, Stands seg taken ∧ ∃ left ∈ meaning rest, taken ++ left = topic := by
  exact Language.mem_mul

theorem isHash_iff : isHash seg = true ↔ seg = ascii "#" := beq_iff_eq

theorem isStar_iff : isStar seg = true ↔ seg = ascii "*" := beq_iff_eq

/-- `#` leaves any suffix of the topic to the rest of the pattern. -/
theorem mem_meaning_hash (h : isHash seg = true) :
    topic ∈ meaning (seg :: rest) ↔ ∃ left, left <:+ topic ∧ left ∈ meaning rest := by
  simp only [mem_meaning_cons, Stands, ← isHash_iff, if_pos h, true_and]
  constructor
  · rintro ⟨taken, left, hleft, rfl⟩
    exact ⟨left, List.suffix_append taken left, hleft⟩
  · rintro ⟨left, ⟨taken, rfl⟩, hleft⟩
    exact ⟨taken, left, hleft, rfl⟩

/-- Any other segment takes one segment of the topic, and `*` takes any. -/
theorem mem_meaning_one (h : isHash seg = false) :
    topic ∈ meaning (seg :: rest) ↔
      ∃ first left, topic = first :: left ∧ (isStar seg = true ∨ seg = first) ∧
        left ∈ meaning rest := by
  simp only [mem_meaning_cons, Stands, ← isHash_iff, ← isStar_iff, if_neg (Bool.eq_false_iff.1 h)]
  by_cases hstar : isStar seg = true
  · simp only [if_pos hstar, List.length_eq_one_iff]
    constructor
    · rintro ⟨-, ⟨first, rfl⟩, left, hleft, rfl⟩
      exact ⟨first, left, rfl, .inl hstar, hleft⟩
    · rintro ⟨first, left, rfl, -, hleft⟩
      exact ⟨[first], ⟨first, rfl⟩, left, hleft, rfl⟩
  · simp only [if_neg hstar]
    constructor
    · rintro ⟨-, rfl, left, hleft, rfl⟩
      exact ⟨seg, left, rfl, .inr rfl, hleft⟩
    · rintro ⟨first, left, rfl, hseg, hleft⟩
      obtain rfl := hseg.resolve_left hstar
      exact ⟨[seg], rfl, left, hleft, rfl⟩

/-! ### One level of the matcher -/

theorem matchAt_too_deep (h : maxMatchDepth < depth) : matchAt pat topic depth = false := by
  cases pat with
  | nil => rw [matchAt, if_pos h]
  | cons => cases topic <;> rw [matchAt, if_pos h]

theorem matchAt_nil (h : depth ≤ maxMatchDepth) : matchAt [] topic depth = true ↔ topic = [] := by
  rw [matchAt, if_neg (not_lt.2 h), List.isEmpty_iff]

theorem matchAt_hash (h : depth ≤ maxMatchDepth) (hhash : isHash seg = true) :
    matchAt (seg :: rest) topic depth = true ↔
      rest = [] ∨ ∃ left, left <:+ topic ∧ matchAt rest left (depth + 1) = true := by
  have heq : matchAt (seg :: rest) topic depth =
      if rest.isEmpty then true else topic.tails.any fun left => matchAt rest left (depth + 1) := by
    cases topic <;> rw [matchAt, if_neg (not_lt.2 h), if_pos hhash]
  rw [heq]
  by_cases hrest : rest = []
  · simp [hrest]
  · simp [hrest, List.mem_tails]

theorem matchAt_one (h : depth ≤ maxMatchDepth) (hhash : isHash seg = false) :
    matchAt (seg :: rest) topic depth = true ↔ ∃ first left, topic = first :: left ∧
      (isStar seg = true ∨ seg = first) ∧ matchAt rest left (depth + 1) = true := by
  cases topic with
  | nil =>
    rw [matchAt, if_neg (not_lt.2 h), if_neg (Bool.eq_false_iff.1 hhash)]
    -- a segment that is no `#` is left, so the loop over the rest of the pattern answers no
    simp [hhash]
  | cons =>
    rw [matchAt, if_neg (not_lt.2 h), if_neg (Bool.eq_false_iff.1 hhash)]
    by_cases hstar : isStar seg = true
    · simp [hstar]
    · simp [hstar]

/-! ### The matcher -/

/-- **Soundness**, however deep the matcher is. -/
theorem mem_meaning_of_matchAt (h : matchAt pat topic depth = true) : topic ∈ meaning pat := by
  induction pat generalizing topic depth with
  | nil =>
    by_cases hdepth : depth ≤ maxMatchDepth
    · exact mem_meaning_nil.2 ((matchAt_nil hdepth).1 h)
    · rw [matchAt_too_deep (not_le.1 hdepth)] at h
      cases h
  | cons seg rest ih =>
    by_cases hdepth : depth ≤ maxMatchDepth
    · cases hhash : isHash seg with
      | true =>
        rw [mem_meaning_hash hhash]
        obtain rfl | ⟨left, hsuffix, hleft⟩ := (matchAt_hash hdepth hhash).1 h
        · exact ⟨[], List.nil_suffix, mem_meaning_nil.2 rfl⟩
        · exact ⟨left, hsuffix, ih hleft⟩
      | false =>
        rw [mem_meaning_one hhash]
        obtain ⟨first, left, rfl, hseg, hleft⟩ := (matchAt_one hdepth hhash).1 h
        exact ⟨first, left, rfl, hseg, ih hleft⟩
    · rw [matchAt_too_deep (not_le.1 hdepth)] at h
      cases h

/-- **Completeness**, while what is left of the pattern cannot go too deep. -/
theorem matchAt_of_mem_meaning (hdepth : depth + pat.length ≤ maxMatchDepth)
    (h : topic ∈ meaning pat) :
    matchAt pat topic depth = true := by
  induction pat generalizing topic depth with
  | nil => exact (matchAt_nil hdepth).2 (mem_meaning_nil.1 h)
  | cons seg rest ih =>
    rw [List.length_cons] at hdepth
    have hhere : depth ≤ maxMatchDepth := by omega
    have hnext : depth + 1 + rest.length ≤ maxMatchDepth := by omega
    cases hhash : isHash seg with
    | true =>
      obtain ⟨left, hsuffix, hleft⟩ := (mem_meaning_hash hhash).1 h
      exact (matchAt_hash hhere hhash).2 (.inr ⟨left, hsuffix, ih hnext hleft⟩)
    | false =>
      obtain ⟨first, left, rfl, hseg, hleft⟩ := (mem_meaning_one hhash).1 h
      exact (matchAt_one hhere hhash).2 ⟨first, left, rfl, hseg, ih hnext hleft⟩

/-- **Matching a topic.** A pattern that matches a topic stands for it. A pattern of at most 32
segments matches exactly the topics it stands for, with `*` for one segment and `#` for any number
of them. -/
theorem matchesPattern_correct (pattern topic : Bytes) :
    (matchesPattern pattern topic = true → segments topic ∈ meaning (segments pattern)) ∧
      ((segments pattern).length ≤ maxMatchDepth →
        (matchesPattern pattern topic = true ↔ segments topic ∈ meaning (segments pattern))) := by
  refine ⟨mem_meaning_of_matchAt, fun hlength => ⟨mem_meaning_of_matchAt, fun h => ?_⟩⟩
  exact matchAt_of_mem_meaning (by rwa [zero_add]) h

example : matchesPattern (ascii "#.task.*") (ascii "crew.a.task.done") = true := by decide

end Agnosai.Pubsub
