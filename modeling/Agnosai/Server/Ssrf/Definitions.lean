import Agnosai.Core.Bytes
import Agnosai.Support.Loop
import Mathlib.Data.List.DropRight

/-!
# Server — Ssrf — Definitions

The URL guard of `server/ssrf.cyr`: the blocked names, the two readings of an IPv4 host, the IPv6
parser, and the verdict made of them.

The HTTP client's own parsers are parameters (`Client`): which host it reads in a URL, and which
IPv4 address it dials for a host. An address is a number; a parser that answers `AGNOSAI_NOT_AN_IP`
in the source answers nothing here.
-/

namespace Agnosai.Ssrf

/-- The parsers of the HTTP client. -/
structure Client where
  /-- `sandhi_url_parse` and `sandhi_url_host`: the host of a URL it takes. -/
  urlHost : Bytes → Option Bytes
  /-- `sandhi_net_parse_ipv4`: an address in network order. -/
  netParseIpv4 : Bytes → Option Nat

/-! ### IPv4 -/

/-- `_agnosai_hex_val`. -/
def hexVal (c : UInt8) : Option Nat :=
  if 48 ≤ c ∧ c ≤ 57 then some (c.toNat - 48)
  else if 97 ≤ c ∧ c ≤ 102 then some (c.toNat - 87)
  else if 65 ≤ c ∧ c ≤ 70 then some (c.toNat - 55)
  else none

/-- The digit loop of `_agnosai_parse_ipv4_part`. -/
def readDigits (base : Nat) : Nat → Bytes → Option Nat
  | value, [] => some value
  | value, c :: rest =>
    match hexVal c with
    | none => none
    | some d =>
      if base ≤ d then none
      else if 4294967295 < value * base + d then none
      else readDigits base (value * base + d) rest

/-- `_agnosai_parse_ipv4_part`. -/
def parseIpv4Part : Bytes → Option Nat
  | [] => none
  | 48 :: c :: rest =>
    if c = 120 ∨ c = 88 then
      if rest = [] then none else readDigits 16 0 rest
    else readDigits 8 0 (c :: rest)
  | part => readDigits 10 0 part

/-- The packing loop of `_agnosai_parse_ipv4_whatwg`, from part `j` on: every part but the last fits
in an octet, and the last takes the rest. -/
def packParts : Nat → Nat → List Nat → Option Nat
  | _, _, [] => none
  | j, addr, [last] => if j = 0 ∨ last < 1 <<< (8 * (4 - j)) then some (addr ||| last) else none
  | j, addr, p :: rest =>
    if 255 < p then none else packParts (j + 1) (addr ||| p <<< (8 * (3 - j))) rest

variable (host : Bytes)

/-- The host without one trailing dot. -/
def dropDot : Bytes := if host.getLast? = some 46 then host.dropLast else host

/-- `_agnosai_parse_ipv4_whatwg`. -/
def parseIpv4Whatwg : Option Nat :=
  if dropDot host = [] then none
  else
    let parts := (dropDot host).splitOn 46
    if 4 < parts.length then none else (parts.mapM parseIpv4Part).bind (packParts 0 0)

/-- `agnosai_is_private_ipv4`. -/
def isPrivateIpv4 (addr : Nat) : Bool :=
  let a := addr >>> 24 &&& 255
  let b := addr >>> 16 &&& 255
  a = 10 || (a = 172 && 16 ≤ b && b ≤ 31) || (a = 192 && b = 168) || a = 127 ||
    (a = 169 && b = 254) || a = 0

/-! ### IPv6 -/

/-- The state of the loop of `_agnosai_parse_ipv6`. -/
structure Ipv6State where
  rest : Bytes
  head : List Nat := []
  tail : List Nat := []
  seenDouble : Bool := false

/-- The segments of a group go to the side of `::` the loop is on. -/
def Ipv6State.push (st : Ipv6State) (segs : List Nat) : Option Ipv6State :=
  if st.seenDouble then
    if 8 < st.tail.length + segs.length then none else some { st with tail := st.tail ++ segs }
  else if 8 < st.head.length + segs.length then none
  else some { st with head := st.head ++ segs }

/-- The hex digits of a group. -/
def readHex (group : Bytes) : Option Nat :=
  group.foldlM (fun seg c => (hexVal c).map fun hv => seg * 16 + hv) 0

/-- A group: with a dot in it an IPv4 address, which must be the last. -/
def readGroup (group : Bytes) (last : Bool) : Option (List Nat) :=
  if 46 ∈ group then
    if last then
      (parseIpv4Whatwg group).map fun v4 => [v4 >>> 16 &&& 65535, v4 &&& 65535]
    else none
  else if 4 < group.length then none
  else (readHex group).map ([·])

/-- One round of the loop of `_agnosai_parse_ipv6`. -/
def ipv6Step (st : Ipv6State) : Ipv6State ⊕ Option Ipv6State :=
  match st.rest with
  | [] => .inr (some st)
  | 58 :: rest => if st.seenDouble then .inr none else .inl { st with seenDouble := true, rest }
  | rest =>
    let group := rest.takeWhile (· ≠ 58)
    let after := rest.dropWhile (· ≠ 58)
    match (readGroup group after.isEmpty).bind st.push with
    | none => .inr none
    | some st =>
      match after with
      | [] => .inl { st with rest := [] }
      -- a trailing single colon
      | [_] => .inr none
      | _ :: rest => .inl { st with rest }

theorem ipv6Step_rest {st st' : Ipv6State} (h : ipv6Step st = .inl st') :
    st'.rest.length < st.rest.length := by
  unfold ipv6Step at h
  split at h
  · cases h
  next hrest =>
    split at h
    · cases h
    · cases h
      simp [hrest]
  next hne _ =>
    have hsplit : st.rest.takeWhile (· ≠ 58) ++ st.rest.dropWhile (· ≠ 58) = st.rest :=
      List.takeWhile_append_dropWhile
    have hlength := congrArg List.length hsplit
    rw [List.length_append] at hlength
    simp only at h
    split at h
    · cases h
    · split at h
      · cases h
        exact List.length_pos_of_ne_nil hne
      · cases h
      next hafter =>
        cases h
        rw [hafter, List.length_cons] at hlength
        simp only
        omega

/-- The loop of `_agnosai_parse_ipv6`. -/
def ipv6Loop : Loop Ipv6State (Option Ipv6State) where
  step := ipv6Step
  measure st := st.rest.length
  decreasing := ipv6Step_rest

/-- The segments, with as many zeros in between as make eight. -/
def Ipv6State.segments (st : Ipv6State) : Option (List Nat) :=
  if st.seenDouble then
    if 7 < st.head.length + st.tail.length then none
    else some (st.head ++ List.replicate (8 - (st.head.length + st.tail.length)) 0 ++ st.tail)
  else if st.head.length = 8 then some st.head
  else none

/-- `_agnosai_parse_ipv6`. -/
def parseIpv6 : Option (List Nat) :=
  match host with
  | [] | [_] => none
  | 58 :: c :: rest =>
    if c = 58 then (ipv6Loop.run { rest, seenDouble := true }).bind Ipv6State.segments else none
  | host => (ipv6Loop.run { rest := host }).bind Ipv6State.segments

/-- `agnosai_is_private_ipv6`, of eight segments. -/
def isPrivateIpv6 (segs : List Nat) : Bool :=
  if (segs.take 7).all (· = 0) ∧ (segs.getD 7 0 = 1 ∨ segs.getD 7 0 = 0) then true
  else if (segs.take 5).all (· = 0) ∧ segs.getD 5 0 = 65535 then
    isPrivateIpv4 (segs.getD 6 0 <<< 16 ||| segs.getD 7 0)
  else segs.getD 0 0 &&& 65024 = 64512 || segs.getD 0 0 &&& 65472 = 65152

/-! ### Hosts -/

/-- `_agnosai_to_ascii_lower`. -/
def toAsciiLower (s : Bytes) : Bytes := s.map fun c => if 65 ≤ c ∧ c ≤ 90 then c + 32 else c

/-- `_agnosai_host_sans_root`: without its trailing dots. -/
def hostSansRoot : Bytes := host.rdropWhile (· = 46)

/-- What stands after the last dot. -/
def lastLabel : Bytes := host.rtakeWhile (· ≠ 46)

/-- A label that is all digits, or begins with `0x`. -/
def numericLabel (label : Bytes) : Bool :=
  label ≠ [] ∧ ((ascii "0x").isPrefixOf label ∨ (ascii "0X").isPrefixOf label ∨ label.all isDigit)

/-- `_agnosai_last_label_numeric`. -/
def lastLabelNumeric : Bool := numericLabel (lastLabel (dropDot host))

/-- A name on the list of `_agnosai_is_blocked_hostname`, or with one of its suffixes. -/
def blockedName (lower : Bytes) : Bool :=
  lower = ascii "localhost" || lower = ascii "127.0.0.1" || lower = ascii "::1" ||
    lower = ascii "[::1]" || (ascii ".local").isSuffixOf lower ||
      (ascii ".internal").isSuffixOf lower ||
    (ascii ".localhost").isSuffixOf lower

/-- `_agnosai_is_blocked_hostname`. -/
def isBlockedHostname : Bool := blockedName (hostSansRoot (toAsciiLower host))

variable (client : Client)

/-- `_agnosai_dialed_ipv4`: the address the client dials for a host, if it reads one. -/
def dialedIpv4 (host : Bytes) : Option Nat :=
  (client.netParseIpv4 host).map fun net =>
    (net &&& 255) <<< 24 ||| (net >>> 8 &&& 255) <<< 16 ||| (net >>> 16 &&& 255) <<< 8 |||
      (net >>> 24 &&& 255)

/-- `agnosai_is_private_host`. -/
def isPrivateHost (host : Bytes) : Bool :=
  if host = [] then true
  else
    match parseIpv6 host with
    | some segs => isPrivateIpv6 segs
    | none =>
      if lastLabelNumeric host then
        if (dialedIpv4 client host).any isPrivateIpv4 then true
        else
          match parseIpv4Whatwg host with
          | none => true
          | some addr => isPrivateIpv4 addr
      else false

/-- `agnosai_url_host`. -/
def urlHost (url : Bytes) : Option Bytes :=
  if url = [] then none else (client.urlHost url).filter (· ≠ [])

/-- `agnosai_is_safe_url`. -/
def isSafeUrl (url : Bytes) : Bool :=
  match urlHost client url with
  | none => false
  | some host => !isBlockedHostname host && !isPrivateHost client host

/-- `agnosai_is_metadata_host`: all of `169.254/16` under either reading, `fd00:ec2::254` and two
names; and what must be an address and is none. -/
def isMetadataHost (host : Bytes) : Bool :=
  let lower := hostSansRoot (toAsciiLower host)
  if lower = ascii "metadata.google.internal" || lower = ascii "metadata.goog" then true
  else
    match parseIpv6 host with
    | some segs =>
      ((segs.take 5).all (· = 0) && segs.getD 5 0 = 65535 && segs.getD 6 0 = 43518) ||
        (segs.getD 0 0 = 64768 && segs.getD 1 0 = 3778 && ((segs.drop 2).take 5).all (· = 0) &&
          segs.getD 7 0 = 596)
    | none =>
      if lastLabelNumeric host then
        if (dialedIpv4 client host).any fun addr => addr >>> 16 &&& 65535 = 43518 then true
        else
          match parseIpv4Whatwg host with
          | none => true
          | some addr => addr >>> 16 &&& 65535 = 43518
      else false

/-- `agnosai_url_is_admissible`. -/
def urlIsAdmissible (url : Bytes) : Bool :=
  match urlHost client url with
  | none => false
  | some host => !isMetadataHost client host

end Agnosai.Ssrf
