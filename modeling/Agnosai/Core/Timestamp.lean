import Mathlib.Algebra.Ring.Int.Defs
import Mathlib.Algebra.Ring.Nat
import Agnosai.Core.Bytes

/-!
# Core — Timestamp

The timestamps of `core/message.cyr`: nanoseconds since the epoch, in 64 bits, where a negative
number says that the text is malformed. The library's `iso8601_parse` is a parameter: it answers
the epoch second of the first nineteen bytes, or negative.
-/

namespace Agnosai.Message

open List Int64

/-- The loop over the fractional digits, with what comes after them. -/
def readFraction : Bytes → Nat → Nat → Nat × Bytes
  | c :: rest, fract, scale =>
    if !isDigit c then (fract, c :: rest)
    else if 0 < scale then readFraction rest (fract + (c.toNat - 48) * scale) (scale / 10)
    else readFraction rest fract scale
  | [], fract, _ => (fract, [])

/-- `_agnosai_msg_2digits`. -/
def twoDigits (a b : UInt8) : Option Nat :=
  if isDigit a && isDigit b then some ((a.toNat - 48) * 10 + (b.toNat - 48)) else none

/-- The seconds of an offset `HH:MM`. -/
def hoursMinutes : Bytes → Option Nat
  | [h₁, h₂, 58, m₁, m₂] => do
    let hh ← twoDigits h₁ h₂
    let mm ← twoDigits m₁ m₂
    if hh > 23 ∨ mm > 59 then none else some (hh * 3600 + mm * 60)
  | _ => none

/-- The end of `_agnosai_msg_parse_rfc3339`, from the zone on. -/
def applyZone (ns : Int64) : Bytes → Int64
  | [] => ns
  | z :: rest =>
    if (z = 90 ∨ z = 122) ∧ rest = [] then ns
    else if z ≠ 43 ∧ z ≠ 45 then -1
    else
      match hoursMinutes rest with
      | none => -1
      | some secs =>
        let off := ofNat (secs * nsPerSec)
        if z = 43 then ns - off else ns + off

variable (iso8601Parse : Bytes → Int64) (text : Bytes)

/-- `_agnosai_msg_parse_rfc3339`. -/
def parseRfc3339 : Int64 :=
  let secs := iso8601Parse (text.take 19)
  if secs < 0 then -1
  else
    let (fract, zone) :=
      match text.drop 19 with
      | 46 :: rest => readFraction rest 0 (nsPerSec / 10)
      | zone => (0, zone)
    applyZone (secs * ofNat nsPerSec + ofNat fract) zone

/-! ### What a text denotes -/

/-- What the first `n` digits are worth, in units of the `n`th. -/
def worth : Nat → Bytes → Nat
  | n + 1, d :: digits => (d.toNat - 48) * 10 ^ n + worth n digits
  | _, _ => 0

/-- A number below 100, in two digits. -/
def decimal (n : Nat) : Bytes := [UInt8.ofNat (48 + n / 10), UInt8.ofNat (48 + n % 10)]

/-- A time of day as `HH:MM`, from its minutes. -/
def clock (minutes : Nat) : Bytes := decimal (minutes / 60) ++ 58 :: decimal (minutes % 60)

/-- The minutes of a time of day, of which a day has 1440. -/
def minutesOf (text : Bytes) : Option Nat := (range 1440).find? fun minutes => clock minutes = text

/-- The seconds that a zone is ahead of UTC. -/
def ahead : Bytes → Option Int
  | [] | [90] | [122] => some 0
  | 43 :: rest => (minutesOf rest).map fun minutes => (minutes * 60 : Nat)
  | 45 :: rest => (minutesOf rest).map fun minutes => -(minutes * 60 : Nat)
  | _ => none

/-- The instant that a text denotes, in nanoseconds since the epoch. -/
def instant : Option Int :=
  let secs := iso8601Parse (text.take 19)
  let (digits, zone) :=
    match text.drop 19 with
    | 46 :: rest => (rest.takeWhile isDigit, rest.dropWhile isDigit)
    | zone => ([], zone)
  if secs < 0 then none
  else (ahead zone).map fun off => secs.toInt * nsPerSec + worth 9 digits - off * nsPerSec

theorem readFraction_eq (text : Bytes) (fract n : Nat) : readFraction text fract (10 ^ n / 10) =
    (fract + worth n (text.takeWhile isDigit), text.dropWhile isDigit) := by
  induction text generalizing fract n with
  | nil => cases n <;> rfl
  | cons c rest ih =>
    rw [readFraction]
    cases hc : isDigit c with
    | false => cases n <;> simp [hc, worth]
    | true =>
      cases n with
      | zero => simpa [hc, worth] using ih fract 0
      | succ n =>
        have hscale : 10 ^ (n + 1) / 10 = 10 ^ n := Nat.mul_div_cancel _ (by decide)
        have hpos : 0 < 10 ^ n := Nat.pow_pos (by decide)
        simp [hc, hscale, hpos, ih, worth, Nat.add_assoc]

theorem twoDigits_decimal : ∀ n < 100,
    twoDigits (UInt8.ofNat (48 + n / 10)) (UInt8.ofNat (48 + n % 10)) = some n := by
  decide +kernel

theorem hoursMinutes_clock {minutes : Nat} (h : minutes < 1440) :
    hoursMinutes (clock minutes) = some (minutes * 60) := by
  have hhours := twoDigits_decimal (minutes / 60) (by omega)
  have hmins := twoDigits_decimal (minutes % 60) (by omega)
  simp only [clock, decimal, cons_append, nil_append, hoursMinutes, hhours, hmins,
    Option.bind_eq_bind, Option.bind_some]
  rw [if_neg (by omega), Option.some.injEq]
  omega

/-- Two digits are the decimal of what they are worth. -/
theorem decimal_of_twoDigits {a b : UInt8} {n : Nat} (h : twoDigits a b = some n) :
    decimal n = [a, b] := by
  unfold twoDigits at h
  split at h
  next hdigits =>
    simp only [isDigit, Bool.and_eq_true, decide_eq_true_eq, UInt8.le_iff_toNat_le] at hdigits
    obtain ⟨⟨ha, ha'⟩, hb, hb'⟩ := hdigits
    cases h
    simp only [decimal, UInt8.reduceToNat] at *
    have htens : 48 + ((a.toNat - 48) * 10 + (b.toNat - 48)) / 10 = a.toNat := by omega
    have hones : 48 + ((a.toNat - 48) * 10 + (b.toNat - 48)) % 10 = b.toNat := by omega
    rw [htens, hones, UInt8.ofNat_toNat, UInt8.ofNat_toNat]
  · cases h

/-- An offset is read as minutes. -/
theorem hoursMinutes_eq (text : Bytes) : hoursMinutes text = (minutesOf text).map (· * 60) := by
  cases h : minutesOf text with
  | some minutes =>
    rw [minutesOf] at h
    have hlt := mem_range.1 (mem_of_find?_eq_some h)
    have hclock := find?_some h
    obtain rfl : clock minutes = text := of_decide_eq_true hclock
    exact hoursMinutes_clock hlt
  | none =>
    rw [minutesOf, find?_eq_none] at h
    unfold hoursMinutes
    split
    next h₁ h₂ m₁ m₂ =>
      cases hh : twoDigits h₁ h₂ with
      | none => rfl
      | some hours =>
        cases hm : twoDigits m₁ m₂ with
        | none => rfl
        | some mins =>
          by_cases hrange : hours > 23 ∨ mins > 59
          · simp [hrange]
          · have hclock : clock (hours * 60 + mins) = [h₁, h₂, 58, m₁, m₂] := by
              rw [clock, show (hours * 60 + mins) / 60 = hours by omega,
                show (hours * 60 + mins) % 60 = mins by omega, decimal_of_twoDigits hh,
                decimal_of_twoDigits hm]
              rfl
            exact absurd (decide_eq_true hclock) (h _ (mem_range.2 (by omega)))
    · rfl

/-- The offset is subtracted. -/
theorem applyZone_eq (ns : Int64) (zone : Bytes) :
    applyZone ns zone = ((ahead zone).map fun off => ns - ofInt (off * nsPerSec)).getD (-1) := by
  unfold ahead
  split
  · simp [applyZone]
  · simp [applyZone]
  · simp [applyZone]
  next rest =>
    cases h : minutesOf rest with
    | none => simp [applyZone, hoursMinutes_eq, h]
    | some => simp [applyZone, hoursMinutes_eq, h, ofInt_eq_ofNat]
  next rest =>
    cases h : minutesOf rest with
    | none => simp [applyZone, hoursMinutes_eq, h]
    | some =>
      simp [applyZone, hoursMinutes_eq, h, Int64.ofInt_eq_ofNat, Int64.sub_eq_add_neg,
        Int64.neg_mul]
  next hnil hZ hz hplus hminus =>
    cases zone with
    | nil => exact absurd rfl hnil
    | cons z rest =>
      simp only [cons.injEq, not_and, imp_false] at hZ hz
      have hplus : z ≠ 43 := fun heq => hplus rest (heq ▸ rfl)
      have hminus : z ≠ 45 := fun heq => hminus rest (heq ▸ rfl)
      rw [applyZone, if_neg (by rintro ⟨rfl | rfl, rfl⟩ <;> trivial), if_pos ⟨hplus, hminus⟩]
      rfl

/-- **The parser** returns the instant modulo `2 ^ 64`. -/
theorem parseRfc3339_eq :
    parseRfc3339 iso8601Parse text = ((instant iso8601Parse text).map ofInt).getD (-1) := by
  have hinstant (secs : Int64) (fract : Nat) (off : Int) :
      ofInt (secs.toInt * nsPerSec + fract - off * nsPerSec) =
        secs * ofNat nsPerSec + ofNat fract - ofInt (off * nsPerSec) := by
    rw [ofInt_sub, ofInt_add, ofInt_mul, ofInt_toInt, ofInt_eq_ofNat,
      ofInt_eq_ofNat]
  simp only [parseRfc3339, instant]
  split
  · rfl
  simp only [applyZone_eq, Option.map_map, Function.comp_def, hinstant]
  split
  · rw [show nsPerSec / 10 = 10 ^ 9 / 10 from rfl, readFraction_eq, Nat.zero_add]
  · rfl

variable {iso8601Parse text}

/-- What a timestamp can be. -/
def Fits (t : Int) : Prop := 0 ≤ t ∧ t < 2 ^ 63

/-- **Exactness.** A value that is not negative is the instant, and an instant that does not fit is
rejected: unless one that does not fit has a remainder that does. -/
theorem parseRfc3339_exact_iff :
    ((0 ≤ parseRfc3339 iso8601Parse text →
        instant iso8601Parse text = some (parseRfc3339 iso8601Parse text).toInt) ∧
      ∀ t, instant iso8601Parse text = some t → ¬ Fits t → parseRfc3339 iso8601Parse text < 0) ↔
    ∀ t, instant iso8601Parse text = some t → t % 2 ^ 64 < 2 ^ 63 → Fits t := by
  rw [parseRfc3339_eq]
  cases instant iso8601Parse text with
  | none => simp
  | some t =>
    have hzero : toInt 0 = 0 := rfl
    simp only [Option.map_some, Option.getD_some, le_iff_toInt_le, lt_iff_toInt_lt, hzero,
      toInt_ofInt, Option.some.injEq, forall_eq', Fits, show size = 2 ^ 64 from rfl]
    rw [Int.bmod_def]
    split <;> omega

/-- The second of the epoch whose nanoseconds come to `2 ^ 64` and a little. -/
theorem parseRfc3339_wraps :
    let date := ascii "2554-07-21T23:34:34"
    let iso8601Parse := fun text => if text = date then 18446744074 else -1
    parseRfc3339 iso8601Parse (date ++ [90]) = 290448384 ∧
      instant iso8601Parse (date ++ [90]) = some 18446744074000000000 := by
  decide +kernel

end Agnosai.Message
