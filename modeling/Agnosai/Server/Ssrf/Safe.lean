import Agnosai.Server.Ssrf.Addresses

/-!
# Server — Ssrf — Safe

What a URL that the guard lets through says of its host, read without its trailing dots. The
address checks are made on the host with its dots, and one more or less changes what the parsers
take it for; and a host with a colon that is no IPv6 literal is taken for a name.
-/

namespace Agnosai.Ssrf

/-- A host, without trailing dots, that may be dialed: an address where it can be nothing else, and
not a private one however it is read. -/
structure HostOk (client : Client) (host : Bytes) : Prop where
  ipv4 : 58 ∉ host → numericLabel (lastLabel host) → ∃ addr, parseIpv4Whatwg host = some addr ∧
    ¬ PrivateV4 addr ∧ ∀ dialed, dialedIpv4 client host = some dialed → ¬ PrivateV4 dialed
  ipv6 : 58 ∈ host → ∃ segs, Ipv6Literal host segs ∧ ¬ PrivateV6 segs

section Checks

variable {client : Client} {host : Bytes}

theorem getLast?_hostSansRoot : (hostSansRoot host).getLast? ≠ some 46 := by
  intro h
  have hne : hostSansRoot host ≠ [] := by
    intro hnil
    rw [hnil] at h
    cases h
  rw [List.getLast?_eq_some_getLast hne, Option.some.injEq] at h
  have hnot := List.rdropWhile_last_not (fun c : UInt8 => c = 46) host hne
  exact hnot (decide_eq_true h)

theorem dropDot_hostSansRoot : dropDot (hostSansRoot host) = hostSansRoot host :=
  if_neg getLast?_hostSansRoot

/-- Only a dot is lowered to a dot. -/
theorem hostSansRoot_toAsciiLower :
    hostSansRoot (toAsciiLower host) = toAsciiLower (hostSansRoot host) := by
  have hdot : ∀ c : UInt8, (if 65 ≤ c ∧ c ≤ 90 then c + 32 else c) = 46 ↔ c = 46 := by
    intro c
    split
    next hupper =>
      have hlow : 65 ≤ c.toNat := hupper.1
      have hhigh : c.toNat ≤ 90 := hupper.2
      rw [← UInt8.toNat_inj, ← UInt8.toNat_inj, UInt8.toNat_add]
      show (c.toNat + 32) % 256 = 46 ↔ c.toNat = 46
      omega
    · rfl
  have hfun : (fun c : UInt8 => decide ((if 65 ≤ c ∧ c ≤ 90 then c + 32 else c) = 46)) =
      fun c => decide (c = 46) := by
    funext c
    simp only [hdot]
  simp only [hostSansRoot, toAsciiLower, List.rdropWhile, ← List.map_reverse, List.dropWhile_map,
    Function.comp_def, hfun]

/-- What the check on a host without trailing dots comes to. -/
theorem isPrivateHost_iff (hne : host ≠ []) (hdot : dropDot host = host)
    (hcolon : 58 ∈ host → ∃ segs, Ipv6Literal host segs) :
    isPrivateHost client host = false ↔ HostOk client host := by
  unfold isPrivateHost
  rw [if_neg hne]
  cases hparse : parseIpv6 host with
  | some segs =>
    have hlit := parseIpv6_iff.1 hparse
    obtain ⟨hlen, hlt⟩ := hlit.segs_spec
    have hiff := isPrivateIpv6_iff hlen hlt
    constructor
    · intro hpublic
      refine ⟨fun hnot => absurd hlit.colon hnot, fun _ => ⟨segs, hlit, fun hprivate => ?_⟩⟩
      exact absurd (hiff.2 hprivate) (by simpa using hpublic)
    · intro hok
      obtain ⟨segs', hlit', hpublic⟩ := hok.ipv6 hlit.colon
      rw [parseIpv6_iff.2 hlit', Option.some.injEq] at hparse
      rw [hparse] at hpublic
      exact Bool.eq_false_iff.2 fun hprivate => hpublic (hiff.1 hprivate)
  | none =>
    have hnot : 58 ∉ host := by
      intro hmem
      obtain ⟨segs, hlit⟩ := hcolon hmem
      rw [parseIpv6_iff.2 hlit] at hparse
      cases hparse
    simp only [lastLabelNumeric, hdot]
    by_cases hnumeric : numericLabel (lastLabel host)
    · rw [if_pos hnumeric]
      have hdialed : (dialedIpv4 client host).any isPrivateIpv4 = false ↔
          ∀ dialed, dialedIpv4 client host = some dialed → ¬ PrivateV4 dialed := by
        cases hd : dialedIpv4 client host with
        | none => simp
        | some => simp [← isPrivateIpv4_iff (dialedIpv4_lt hd)]
      constructor
      · intro hpublic
        refine ⟨fun _ _ => ?_, fun hmem => absurd hmem hnot⟩
        split at hpublic
        · cases hpublic
        next hany =>
          split at hpublic
          · cases hpublic
          next addr haddr =>
            refine ⟨addr, haddr, fun hprivate => ?_, hdialed.1 (Bool.eq_false_iff.2 hany)⟩
            rw [(isPrivateIpv4_iff (parseIpv4Whatwg_lt haddr)).2 hprivate] at hpublic
            cases hpublic
      · intro hok
        obtain ⟨addr, haddr, hpublic, hall⟩ := hok.ipv4 hnot hnumeric
        rw [if_neg (Bool.eq_false_iff.1 (hdialed.2 hall)), haddr]
        exact Bool.eq_false_iff.2 fun hprivate =>
          hpublic ((isPrivateIpv4_iff (parseIpv4Whatwg_lt haddr)).1 hprivate)
    · rw [if_neg hnumeric]
      exact iff_of_true rfl ⟨fun _ h => absurd h hnumeric, fun hmem => absurd hmem hnot⟩

theorem hostOk_nil : HostOk client [] where
  ipv4 _ h := by
    cases h
  ipv6 := nofun

end Checks

/-- **What the guard guarantees of a host.** It is not blocked; and it is sound exactly when it has
no trailing dots, or the checks pass without them too, and it is an IPv6 literal if it has a
colon. -/
theorem safe_url_host {client : Client} {url host : Bytes} (hhost : urlHost client url = some host)
    (hsafe : isSafeUrl client url = true) :
    blockedName (toAsciiLower (hostSansRoot host)) = false ∧
    (HostOk client (hostSansRoot host) ↔
      (hostSansRoot host = host ∨ hostSansRoot host = [] ∨
        isPrivateHost client (hostSansRoot host) = false) ∧
      (58 ∈ hostSansRoot host → ∃ segs, Ipv6Literal (hostSansRoot host) segs)) := by
  rw [isSafeUrl, hhost] at hsafe
  simp only [Bool.and_eq_true, Bool.not_eq_true'] at hsafe
  obtain ⟨hblocked, hpublic⟩ := hsafe
  rw [isBlockedHostname, hostSansRoot_toAsciiLower] at hblocked
  refine ⟨hblocked, ?_⟩
  by_cases hnil : hostSansRoot host = []
  · rw [hnil]
    exact iff_of_true hostOk_nil ⟨.inr (.inl rfl), nofun⟩
  · constructor
    · intro hok
      have hcolon : 58 ∈ hostSansRoot host → ∃ segs, Ipv6Literal (hostSansRoot host) segs := by
        intro hmem
        obtain ⟨segs, hlit, -⟩ := hok.ipv6 hmem
        exact ⟨segs, hlit⟩
      exact ⟨.inr (.inr ((isPrivateHost_iff hnil dropDot_hostSansRoot hcolon).2 hok)), hcolon⟩
    · rintro ⟨hcheck, hcolon⟩
      refine (isPrivateHost_iff hnil dropDot_hostSansRoot hcolon).1 ?_
      obtain hsame | hempty | hpublic' := hcheck
      · rwa [hsame]
      · exact absurd hempty hnil
      · exact hpublic'

/-! ### A client -/

/-- Four numbers, in network order. -/
def packNet : List (Option Nat) → Option Nat
  | [some a, some b, some c, some d] =>
    if a ≤ 255 ∧ b ≤ 255 ∧ c ≤ 255 ∧ d ≤ 255 then some (a + b * 256 + c * 65536 + d * 16777216)
      else none
  | _ => none

/-- A client that takes `http://` and a host, and dials four decimal parts between dots. -/
def quadClient : Client where
  urlHost url :=
    if (ascii "http://").isPrefixOf url then
      some (((url.drop 7).takeWhile (· ≠ 47)).filter fun c => c ≠ 91 ∧ c ≠ 93)
    else none
  netParseIpv4 host :=
    packNet ((host.splitOn 46).map fun part => if part = [] then none else readDigits 10 0 part)

/-- 8.8.8.8 is sound. -/
theorem safe_url_host_quad : HostOk quadClient (ascii "8.8.8.8") := by
  have hhost : urlHost quadClient (ascii "http://8.8.8.8/") = some (ascii "8.8.8.8") := by
    decide +kernel
  have hiff := (safe_url_host hhost (by decide +kernel)).2
  exact hiff.2 ⟨.inl rfl, fun h => absurd h (by decide +kernel)⟩

/-- An IPv4-mapped address ends in a numeric label and is no IPv4 literal; a second trailing dot
hides 10.0.0.1, and one the decimal reading of 0127.0.0.1; and a zone makes a link-local address a
name. -/
theorem unsound_hosts :
    (isSafeUrl quadClient (ascii "http://[::ffff:8.8.8.8]/") = true ∧
      numericLabel (lastLabel (ascii "::ffff:8.8.8.8")) ∧
      parseIpv4Whatwg (ascii "::ffff:8.8.8.8") = none) ∧
    (isSafeUrl quadClient (ascii "http://10.0.0.1../") = true ∧
      parseIpv4Whatwg (hostSansRoot (ascii "10.0.0.1..")) = some (quad 10 0 0 1) ∧
      PrivateV4 (quad 10 0 0 1)) ∧
    (isSafeUrl quadClient (ascii "http://0127.0.0.1./") = true ∧
      dialedIpv4 quadClient (hostSansRoot (ascii "0127.0.0.1.")) = some (quad 127 0 0 1) ∧
      PrivateV4 (quad 127 0 0 1)) ∧
    isSafeUrl quadClient (ascii "http://[fe80::1%eth0]/") = true ∧
      ¬ ∃ segs, Ipv6Literal (ascii "fe80::1%eth0") segs := by
  refine ⟨by decide +kernel, by decide +kernel, by decide +kernel, by decide +kernel, ?_⟩
  rintro ⟨segs, hlit⟩
  have hnone : parseIpv6 (ascii "fe80::1%eth0") = none := by decide +kernel
  rw [parseIpv6_iff.2 hlit] at hnone
  cases hnone

end Agnosai.Ssrf
