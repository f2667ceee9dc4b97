import Mathlib.Data.List.Basic

/-!
# Core — Uuid

Version 4 identifiers, after `id.cyr`. What the engine gets from the kernel's `random_bytes` is a
parameter, a stream of draws. Rendering loses nothing (`toStr_injective`), so two ids are the same
string only when two draws agree on every bit the stamp keeps. `parse` reads the four spellings
that are accepted, and `canonical` renders what it read.
-/

namespace Agnosai

open List

/-- A UUID is sixteen bytes. -/
structure Uuid where
  bytes : List UInt8
  length_eq : bytes.length = 16
  deriving DecidableEq

namespace Uuid

/-- Byte `i` under the stamp: the high nibble of byte 6 is the version, the top bits of byte 8 are
`0b10`. -/
def stampByte (version : UInt8) (i : Nat) (b : UInt8) : UInt8 :=
  if i = 6 then (b &&& (0x0F : UInt8)) ||| (version <<< (4 : UInt8))
  else if i = 8 then (b &&& (0x3F : UInt8)) ||| (0x80 : UInt8)
  else b

/-- `_agnosai_uuid_stamp`. -/
def stamp (u : Uuid) (version : UInt8) : Uuid where
  bytes := u.bytes.mapIdx (stampByte version)
  length_eq := by rw [length_mapIdx, u.length_eq]

/-- `agnosai_uuid_v4_a`, of what `random_bytes` drew. -/
def v4 (drawn : Uuid) : Uuid := drawn.stamp 4

/-- `_agnosai_hex_digit`. -/
def hexDigit (n : UInt8) : Char :=
  if n < 10 then Char.ofNat (48 + n.toNat) else Char.ofNat (87 + n.toNat)

/-- What byte `i` adds to the rendering: its hyphen, if it has one, and its two digits. -/
def renderByte (i : Nat) (b : UInt8) : List Char :=
  (if i ∈ [4, 6, 8, 10] then ['-'] else [])
    ++ [hexDigit ((b >>> 4) &&& 0x0F), hexDigit (b &&& 0x0F)]

/-- `agnosai_uuid_to_str_a`. -/
def toStr (u : Uuid) : String :=
  String.ofList (u.bytes.zipIdx.flatMap fun p => renderByte p.2 p.1)

/-- The value of a digit `hexDigit` writes. -/
def digitValue (c : Char) : UInt8 :=
  if c.toNat < 58 then UInt8.ofNat (c.toNat - 48) else UInt8.ofNat (c.toNat - 87)

/-- A byte reads back from its two digits. -/
theorem byte_of_digits (b : UInt8) :
    digitValue (hexDigit ((b >>> 4) &&& 0x0F)) * 16 + digitValue (hexDigit (b &&& 0x0F)) = b := by
  have h : ∀ n < 256, digitValue (hexDigit ((UInt8.ofNat n >>> 4) &&& 0x0F)) * 16
      + digitValue (hexDigit (UInt8.ofNat n &&& 0x0F)) = UInt8.ofNat n := by
    decide +kernel
  have hb := h b.toNat b.toNat_lt
  rwa [UInt8.ofNat_toNat] at hb

theorem renderByte_injective {i : Nat} {b c : UInt8} (h : renderByte i b = renderByte i c) :
    b = c := by
  have hdigits := append_cancel_left h
  obtain ⟨hhi, hlo⟩ := cons.inj hdigits
  rw [← byte_of_digits b, ← byte_of_digits c, hhi, (cons.inj hlo).1]

theorem renderByte_length (i : Nat) (b c : UInt8) :
    (renderByte i b).length = (renderByte i c).length := by
  simp [renderByte]

theorem render_injective {l l' : List UInt8} (k : Nat) (hl : l.length = l'.length)
    (h : (l.zipIdx k).flatMap (fun p => renderByte p.2 p.1)
      = (l'.zipIdx k).flatMap fun p => renderByte p.2 p.1) : l = l' := by
  induction l generalizing l' k with
  | nil => exact (length_eq_zero_iff.1 hl.symm).symm
  | cons b l ih =>
    cases l' with
    | nil => cases hl
    | cons c =>
      simp only [zipIdx_cons, flatMap_cons] at h
      obtain ⟨hb, hrest⟩ := append_inj h (renderByte_length k b c)
      rw [renderByte_injective hb, ih (k + 1) (Nat.succ.inj hl) hrest]

/-- Two UUIDs that render alike are the same. -/
theorem toStr_injective {u v : Uuid} (h : u.toStr = v.toStr) : u = v := by
  obtain ⟨l, hl⟩ := u
  obtain ⟨l', hl'⟩ := v
  have hlist := String.ofList_injective h
  obtain rfl := render_injective 0 (hl.trans hl'.symm) hlist
  rfl

/-! ### Parsing -/

/-- The value of a hex digit of either case. -/
def hexValue (c : Char) : Option UInt8 :=
  if 48 ≤ c.toNat ∧ c.toNat ≤ 57 then some (UInt8.ofNat (c.toNat - 48))
  else if 97 ≤ c.toNat ∧ c.toNat ≤ 102 then some (UInt8.ofNat (c.toNat - 87))
  else if 65 ≤ c.toNat ∧ c.toNat ≤ 70 then some (UInt8.ofNat (c.toNat - 55))
  else none

/-- What follows a hyphen, where one is due. -/
def skipHyphen (due : Bool) (cs : List Char) : Option (List Char) :=
  if due then
    match cs with
    | '-' :: rest => some rest
    | _ => none
  else some cs

/-- The loop of `_agnosai_uuid_scan` over the next `n` bytes, the first of them byte `i`, with
hyphens or without. -/
def scan (hyphens : Bool) : Nat → Nat → List Char → Option (List UInt8)
  | 0, _, _ => some []
  | n + 1, i, cs =>
    match skipHyphen (hyphens && decide (i ∈ [4, 6, 8, 10])) cs with
    | some (hc :: lc :: rest) => do
      let hi ← hexValue hc
      let lo ← hexValue lc
      let bytes ← scan hyphens n (i + 1) rest
      return ((hi <<< 4) ||| lo) :: bytes
    | _ => none

/-- An ASCII letter in lower case. -/
def toLower (c : Char) : Char :=
  if 65 ≤ c.toNat ∧ c.toNat ≤ 90 then Char.ofNat (c.toNat + 32) else c

/-- `_agnosai_uuid_scan`: hyphenated, simple, braced, or after `urn:uuid:`. -/
def scanStr (s : String) : Option (List UInt8) :=
  let cs := s.toList
  if cs.length = 38 then
    if cs.head? = some '{' ∧ cs.getLast? = some '}' then scan true 16 0 cs.tail else none
  else if cs.length = 45 then
    if (cs.take 9).map toLower = "urn:uuid:".toList then scan true 16 0 (cs.drop 9) else none
  else if cs.length = 32 then scan false 16 0 cs
  else if cs.length = 36 then scan true 16 0 cs
  else none

theorem length_scan {hyphens : Bool} {n i : Nat} {cs : List Char} {bytes : List UInt8}
    (h : scan hyphens n i cs = some bytes) : bytes.length = n := by
  induction n generalizing i cs bytes with
  | zero =>
    cases h
    rfl
  | succ n ih =>
    rw [scan] at h
    split at h
    · simp only [Option.bind_eq_bind, Option.bind_eq_some_iff, Option.pure_def, Option.some.injEq]
        at h
      obtain ⟨hi, -, lo, -, rest, hrest, rfl⟩ := h
      rw [length_cons, ih hrest]
    · cases h

theorem length_scanStr {s : String} {bytes : List UInt8} (h : scanStr s = some bytes) :
    bytes.length = 16 := by
  simp only [scanStr] at h
  split_ifs at h <;> exact length_scan h

/-- `agnosai_uuid_parse`. -/
def parse (s : String) : Option Uuid :=
  (scanStr s).pmap (fun bytes h => ⟨bytes, h⟩) fun _ h => length_scanStr h

/-- `agnosai_uuid_canonical`. -/
def canonical (s : String) : Option String := (parse s).map toStr

/-- A byte is scanned from the digits it renders as. -/
theorem hexValue_hexDigit (b : UInt8) :
    ∃ hi lo, hexValue (hexDigit ((b >>> 4) &&& 0x0F)) = some hi ∧
      hexValue (hexDigit (b &&& 0x0F)) = some lo ∧
      (hi <<< 4) ||| lo = b := by
  have h : ∀ n < 256, hexValue (hexDigit ((UInt8.ofNat n >>> 4) &&& 0x0F)) =
      some ((UInt8.ofNat n >>> 4) &&& 0x0F) ∧
      hexValue (hexDigit (UInt8.ofNat n &&& 0x0F)) = some (UInt8.ofNat n &&& 0x0F) ∧
      (((UInt8.ofNat n >>> 4) &&& 0x0F) <<< 4) ||| (UInt8.ofNat n &&& 0x0F) = UInt8.ofNat n := by
    decide +kernel
  have hb := h b.toNat b.toNat_lt
  rw [UInt8.ofNat_toNat] at hb
  exact ⟨_, _, hb.1, hb.2.1, hb.2.2⟩

/-- The scan inverts the rendering. -/
theorem scan_render (l : List UInt8) (k : Nat) :
    scan true l.length k ((l.zipIdx k).flatMap fun p => renderByte p.2 p.1) = some l := by
  induction l generalizing k with
  | nil => rfl
  | cons b l ih =>
    obtain ⟨hi, lo, hhi, hlo, hb⟩ := hexValue_hexDigit b
    have hskip : skipHyphen (true && decide (k ∈ [4, 6, 8, 10]))
        (renderByte k b ++ (l.zipIdx (k + 1)).flatMap fun p => renderByte p.2 p.1)
        = some (hexDigit ((b >>> 4) &&& 0x0F) :: hexDigit (b &&& 0x0F) ::
            (l.zipIdx (k + 1)).flatMap fun p => renderByte p.2 p.1) := by
      by_cases hk : k ∈ [4, 6, 8, 10]
      · simp [skipHyphen, renderByte, hk]
      · simp [skipHyphen, renderByte, hk]
    rw [zipIdx_cons, flatMap_cons, length_cons, scan, hskip]
    simp [hhi, hlo, ih (k + 1), hb]

/-- Two digits for each byte, and a hyphen before four of them. -/
theorem length_render (l : List UInt8) (k : Nat) :
    ((l.zipIdx k).flatMap fun p => renderByte p.2 p.1).length
      = 2 * l.length + (range' k l.length).countP fun i => i ∈ [4, 6, 8, 10] := by
  induction l generalizing k with
  | nil => rfl
  | cons b l ih =>
    have hb : (renderByte k b).length = 2 + if k ∈ [4, 6, 8, 10] then 1 else 0 := by
      by_cases hk : k ∈ [4, 6, 8, 10] <;>
        simp only [renderByte, hk, if_true, if_false, length_append] <;> rfl
    rw [zipIdx_cons, flatMap_cons, length_append, ih, hb, length_cons, range'_succ, countP_cons]
    simp only [decide_eq_true_eq]
    omega

theorem scanStr_toStr (u : Uuid) : scanStr u.toStr = some u.bytes := by
  have hchars : u.toStr.toList = u.bytes.zipIdx.flatMap fun p => renderByte p.2 p.1 :=
    String.toList_ofList
  have hlength : u.toStr.toList.length = 36 := by
    rw [hchars, length_render, u.length_eq]
    rfl
  have hscan := scan_render u.bytes 0
  rw [u.length_eq] at hscan
  unfold scanStr
  simp only [hlength, Nat.reduceEqDiff, if_true, if_false]
  rw [hchars, hscan]

/-- A rendering is its own canonical form. -/
theorem canonical_toStr (u : Uuid) : canonical u.toStr = some u.toStr := by
  have hparse : parse u.toStr = some u := by
    rw [parse, Option.pmap_eq_some_iff]
    exact ⟨u.bytes, u.length_eq, scanStr_toStr u, rfl⟩
  rw [canonical, hparse, Option.map_some]

end Uuid

end Agnosai
