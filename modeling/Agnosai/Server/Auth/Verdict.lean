import Agnosai.Server.Auth.Definitions
import Agnosai.Support.Trace

/-!
# Server — what an accepted header is

`Authorized` says what the check stands for, without its ladder. Nothing of a token is parsed
before its signature was verified (`authCheck_precedes`): the trace of a check is empty, or starts
with the verification, and goes on only if that succeeded.
-/

namespace Agnosai.Auth

open List Option

variable {lib : AuthLib}

/-! ### Segments -/

/-- `token` is these three segments, none of them empty, and there is no other dot. -/
structure ThreeSegments (token header payload signature : Bytes) : Prop where
  token_eq : token = header ++ ascii "." ++ payload ++ ascii "." ++ signature
  nonempty : header ≠ [] ∧ payload ≠ [] ∧ signature ≠ []
  no_dot : 46 ∉ header ∧ 46 ∉ payload ∧ 46 ∉ signature

theorem ascii_dot : ascii "." = [46] := rfl

/-- The first dot from `start` on. -/
theorem findDot_eq_some {p : Bytes} {start d : Nat} (h : findDot p start = some d) :
    ∃ seg rest, p.drop start = seg ++ 46 :: rest ∧ 46 ∉ seg ∧ d = start + seg.length := by
  obtain ⟨i, hi, rfl⟩ := map_eq_some_iff.1 h
  obtain ⟨hlt, hdot, hbefore⟩ := findIdx?_eq_some_iff_getElem.1 hi
  have hdot : (p.drop start)[i] = 46 := by simpa using hdot
  refine ⟨(p.drop start).take i, (p.drop start).drop (i + 1), ?_, fun hmem => ?_, ?_⟩
  · rw [← hdot, ← drop_eq_getElem_cons hlt, take_append_drop]
  · obtain ⟨k, hk, hk46⟩ := getElem_of_mem hmem
    rw [length_take] at hk
    have hki : k < i := by omega
    exact absurd hk46 (by simpa using hbefore k hki)
  · rw [length_take, Nat.min_eq_left (Nat.le_of_lt hlt)]

theorem findDot_eq_none {p : Bytes} {start : Nat} (h : findDot p start = none) :
    46 ∉ p.drop start := by
  rw [findDot, map_eq_none_iff, findIdx?_eq_none_iff] at h
  intro hmem
  exact absurd (h 46 hmem) (by decide)

/-- Cutting a token at its dots. -/
theorem cut_segments (header payload signature : Bytes) :
    let token := header ++ ascii "." ++ payload ++ ascii "." ++ signature
    token.take header.length = header ∧
      token.drop (header.length + 1) = payload ++ ascii "." ++ signature ∧
      token.take (header.length + 1 + payload.length) = header ++ ascii "." ++ payload ∧
      token.drop (header.length + 1 + payload.length + 1) = signature := by
  simp [ascii_dot, Nat.add_assoc, Nat.add_comm 1, take_length_add_append, drop_length_add_append]

variable {now : Int64} {token : Bytes} {j : JwtConfig} {key : String}

/-- The offsets of the two dots, and with them the segments the checks cut out. -/
theorem dots_eq_some {d1 d2 : Nat} (h : dots token = some (d1, d2)) :
    ∃ header payload signature, ThreeSegments token header payload signature ∧
      token.take d1 = header ∧ (token.drop (d1 + 1)).take (d2 - d1 - 1) = payload ∧
      token.drop (d2 + 1) = signature ∧ token.take d2 = header ++ ascii "." ++ payload := by
  simp only [dots] at h
  split at h
  · cases h
  next h1 =>
  split at h
  · cases h
  next h2 =>
  rw [ite_none_left_eq_some, ite_none_left_eq_some] at h
  obtain ⟨h3, hne, ⟨⟩⟩ := h
  obtain ⟨header, rest, hrest, hheader, rfl⟩ := findDot_eq_some h1
  obtain ⟨payload, signature, hsig, hpayload, rfl⟩ := findDot_eq_some h2
  have htoken : token = header ++ ascii "." ++ payload ++ ascii "." ++ signature := by
    rw [drop_zero] at hrest
    rw [hrest, Nat.zero_add, ← drop_drop, drop_left, drop_one, tail_cons] at hsig
    rw [hrest, hsig]
    simp [ascii_dot]
  obtain ⟨htake1, hdrop1, htake2, hdrop2⟩ := cut_segments header payload signature
  rw [← htoken] at htake1 hdrop1 htake2 hdrop2
  have hlen : token.length = header.length + 1 + payload.length + 1 + signature.length := by
    simp only [htoken, ascii_dot, length_append, length_singleton]
  rw [Nat.zero_add] at h3 hne ⊢
  have hplen : header.length + 1 + payload.length - header.length - 1 = payload.length := by
    omega
  have hsignature : 46 ∉ signature :=
    hdrop2 ▸ findDot_eq_none (not_isSome_iff_eq_none.1 h3)
  refine ⟨header, payload, signature, ⟨htoken, ?_, hheader, hpayload, hsignature⟩,
    htake1, ?_, hdrop2, htake2⟩
  · simp only [← length_pos_iff_ne_nil]
    omega
  · rw [hplen, hdrop1, append_assoc, take_left]

/-! ### What a token must be -/

variable (lib)

/-- The configured key verifies the signature over the bytes before the second dot. -/
def SignatureVerified (j : JwtConfig) (header payload signature : Bytes) : Prop :=
  ∃ key sig, prepare lib j = some key ∧ b64uDecode signature jwtMaxModulus = some sig ∧
    lib.rsaPkcs1v15VerifySha256 key (header ++ ascii "." ++ payload) sig = true

/-- The segment is a JSON object with these fields. -/
def Encodes (segment : Bytes) (max : Nat) (fields : List (String × Json)) : Prop :=
  ∃ text, b64uDecode segment max = some text ∧ lib.jsonParse text = some (.obj fields)

/-- The claims are typed as declared, not expired, and those of the configuration. -/
structure ClaimsAccepted (lib : AuthLib) (j : JwtConfig) (claims : List (String × Json))
    (now : Int64) : Prop where
  exp : ∃ exp : Int64, lib.jsonObjGet claims "exp" = some (.int exp) ∧
    now.toInt - 60 ≤ exp.toInt ∧ exp.toInt ≤ 253402300799
  strings : ∀ key ∈ ["sub", "iss", "aud", "scope"], ∀ v, lib.jsonObjGet claims key = some v →
    ∃ s, v = .str s
  times : ∀ key ∈ ["exp", "iat"], ∀ v, lib.jsonObjGet claims key = some v →
    ∃ n : Int64, v = .int n ∧ 0 ≤ n.toInt
  issuer : ∀ iss, j.issuer = some iss → lib.jsonObjGet claims "iss" = some (.str iss)
  audience : ∀ aud, j.audience = some aud → lib.jsonObjGet claims "aud" = some (.str aud)

/-- A token the configuration accepts at `now`. -/
def TokenAccepted (j : JwtConfig) (token : Bytes) (now : Int64) : Prop :=
  ∃ header payload signature, ThreeSegments token header payload signature ∧
    SignatureVerified lib j header payload signature ∧
    (∃ hdr, Encodes lib header jwtMaxHeader hdr ∧
      lib.jsonObjGet hdr "alg" = some (.str "RS256")) ∧
    ∃ claims, Encodes lib payload jwtMaxPayload claims ∧ ClaimsAccepted lib j claims now

/-- What an accepted header is: the Bearer scheme and a token, the secret by its digest or one the
key's configuration accepts. -/
def Authorized (c : AuthConfig) (header : Option Bytes) (now : Int64) : Prop :=
  ∃ token, header = some (ascii "Bearer " ++ token) ∧
    match c.jwt with
    | none => lib.sha256 token = lib.sha256 c.secret
    | some j => TokenAccepted lib j token now

/-! ### The ladder -/

variable {lib}

theorem fieldEq_iff {fields : List (String × Json)} {want : String} :
    fieldEq lib fields key want = true ↔ lib.jsonObjGet fields key = some (.str want) := by
  unfold fieldEq
  split
  next hs => rw [hs, decide_eq_true_iff, some.injEq, Json.str.injEq]
  next hne =>
    refine iff_of_false Bool.false_ne_true ?_
    exact hne want

theorem claimTypeOk_str {claims : List (String × Json)}
    (h : claimTypeOk lib claims key true = true) {v : Json}
    (hv : lib.jsonObjGet claims key = some v) : ∃ s, v = .str s := by
  rw [claimTypeOk, hv] at h
  cases v with
  | str s => exact ⟨s, rfl⟩
  | null | bool | int | float | arr | obj => cases h

theorem claimTypeOk_int {claims : List (String × Json)}
    (h : claimTypeOk lib claims key false = true) {v : Json}
    (hv : lib.jsonObjGet claims key = some v) : ∃ n : Int64, v = .int n ∧ 0 ≤ n.toInt := by
  rw [claimTypeOk, hv] at h
  cases v with
  | int n =>
    have hn : (0 : Int64) ≤ n := by simpa using h
    exact ⟨n, rfl, Int64.le_iff_toInt_le.1 hn⟩
  | null | bool | str | float | arr | obj => cases h

/-- With a clock that reads, the leeway does not wrap. -/
theorem toInt_sub_leeway (h : 0 < now) : (now - jwtLeewaySecs).toInt = now.toInt - 60 := by
  have hpos : 0 < now.toInt := Int64.lt_iff_toInt_lt.1 h
  have hmax : now.toInt < 2 ^ 63 := now.toInt_lt
  have hleeway : jwtLeewaySecs.toInt = 60 := by decide
  rw [Int64.toInt_sub, hleeway]
  exact Int.bmod_eq_of_le (by omega) (by omega)

/-- A check that is passed. -/
theorem passes_iff {p : Prop} [Decidable p] {status : Nat} :
    (if p then httpUnauthorized else status) = httpOk ↔ ¬ p ∧ status = httpOk := by
  have hno : httpUnauthorized ≠ httpOk := by decide
  split <;> simp [*]

/-- Claims that pass are accepted. -/
theorem claimsAccepted_of_check {claims : List (String × Json)}
    (hnow : 0 < now) (h : checkClaims lib claims j now = httpOk) :
    ClaimsAccepted lib j claims now := by
  rw [checkClaims, passes_iff] at h
  obtain ⟨htyped, h⟩ := h
  split at h
  next exp hexp =>
    simp only [passes_iff, and_true, not_not] at h
    obtain ⟨-, hmax, hold, hiss, haud⟩ := h
    simp only [not_not, claimsWellTyped, Bool.and_eq_true] at htyped
    obtain ⟨⟨⟨⟨⟨hsub, hissT⟩, haudT⟩, hscope⟩, hexpT⟩, hiat⟩ := htyped
    refine ⟨⟨exp, hexp, ?_, ?_⟩, ?_, ?_, ?_, ?_⟩
    · rw [← toInt_sub_leeway hnow]
      exact Int64.le_iff_toInt_le.1 (Int64.not_lt.1 hold)
    · exact Int64.le_iff_toInt_le.1 (Int64.not_lt.1 hmax)
    · intro key hkey v hv
      simp only [mem_cons, not_mem_nil, or_false] at hkey
      rcases hkey with rfl | rfl | rfl | rfl
      · exact claimTypeOk_str hsub hv
      · exact claimTypeOk_str hissT hv
      · exact claimTypeOk_str haudT hv
      · exact claimTypeOk_str hscope hv
    · intro key hkey v hv
      simp only [mem_cons, not_mem_nil, or_false] at hkey
      rcases hkey with rfl | rfl
      · exact claimTypeOk_int hexpT hv
      · exact claimTypeOk_int hiat hv
    · intro iss hj
      rw [hj] at hiss
      exact fieldEq_iff.1 hiss
    · intro aud hj
      rw [hj] at haud
      exact fieldEq_iff.1 haud
  · cases h

theorem readObject_eq_some {segment : Bytes} {max : Nat} {fields : List (String × Json)}
    (h : (readObject lib segment max).2 = some fields) : Encodes lib segment max fields := by
  unfold readObject at h
  split at h
  · cases h
  next text htext =>
  split at h
  · cases h
  split at h
  next hparse =>
    obtain rfl := some.inj h
    exact ⟨text, htext, hparse⟩
  · cases h

/-- The segments of a verified token that pass. -/
theorem accepted_of_validateParts {header payload : Bytes}
    (hnow : 0 < now) (h : (validateParts lib header payload j now).2 = httpOk) :
    (∃ hdr, Encodes lib header jwtMaxHeader hdr ∧
      lib.jsonObjGet hdr "alg" = some (.str "RS256")) ∧
    ∃ claims, Encodes lib payload jwtMaxPayload claims ∧ ClaimsAccepted lib j claims now := by
  unfold validateParts at h
  split at h
  · cases h
  next hdr hheader =>
  split at h
  · cases h
  next halg =>
  split at h
  · cases h
  next claims hpayload =>
  refine ⟨⟨hdr, ?_, fieldEq_iff.1 (not_not.1 halg)⟩, claims, ?_, claimsAccepted_of_check hnow h⟩
  · exact readObject_eq_some (by rw [hheader])
  · exact readObject_eq_some (by rw [hpayload])

/-- The ways a token is dealt with: it is refused unseen, its signature is wrong, or its signature
is right and the rest is looked at. -/
inductive Validation (lib : AuthLib) (token : Bytes) (j : JwtConfig) (now : Int64) :
    List TokenEvent × Nat → Prop where
  | refused {status : Nat} (h : status ≠ httpOk) : Validation lib token j now ([], status)
  | forged (message signature : Bytes) :
    Validation lib token j now ([.verified message signature false], httpUnauthorized)
  | signed {header payload signature sig : Bytes} {key : RsaKey}
    (segments : ThreeSegments token header payload signature) (hkey : prepare lib j = some key)
    (hsig : b64uDecode signature jwtMaxModulus = some sig)
    (hverified : lib.rsaPkcs1v15VerifySha256 key (header ++ ascii "." ++ payload) sig = true) :
    Validation lib token j now
      (.verified (header ++ ascii "." ++ payload) sig true ::
        (validateParts lib header payload j now).1, (validateParts lib header payload j now).2)

/-- Every validation is one of the cases. -/
theorem validation (lib : AuthLib) (token : Bytes) (j : JwtConfig) (now : Int64) :
    Validation lib token j now (validateJwt lib token j now) := by
  unfold validateJwt
  split
  · exact .refused (by decide)
  next hkey =>
  split
  · exact .refused (by decide)
  next hdots =>
  obtain ⟨header, payload, signature, hseg, hheader, hpayload, hsignature, hmessage⟩ :=
    dots_eq_some hdots
  rw [hsignature]
  split
  · exact .refused (by decide)
  next hsig =>
  split
  · exact .refused (by decide)
  dsimp only
  rw [hheader, hpayload, hmessage]
  split
  next hverified => exact .signed hseg hkey hsig hverified
  · exact .forged _ _

theorem tokenAccepted_of_validateJwt (hnow : 0 < now)
    (h : (validateJwt lib token j now).2 = httpOk) : TokenAccepted lib j token now := by
  have hval := validation lib token j now
  generalize validateJwt lib token j now = r at h hval
  cases hval with
  | refused hne => exact absurd h hne
  | forged => exact absurd h (by decide : httpUnauthorized ≠ httpOk)
  | @signed header payload signature sig key hseg hkey hsig hverified =>
    obtain ⟨hhdr, hclaims⟩ := accepted_of_validateParts hnow h
    exact ⟨header, payload, signature, hseg, ⟨key, sig, hkey, hsig, hverified⟩, hhdr, hclaims⟩

theorem bearerToken_eq_some {header : Bytes} (h : bearerToken header = some token) :
    header = ascii "Bearer " ++ token := by
  simp only [bearerToken, ite_none_left_eq_some, not_not] at h
  obtain ⟨-, hprefix, -, ⟨⟩⟩ := h
  obtain ⟨rest, rfl⟩ := isPrefixOf_iff_prefix.1 hprefix
  have hlen : (ascii "Bearer ").length = 7 := rfl
  rw [← hlen, drop_left]

/-- **What OK means.** With authentication enabled, a header that the check lets through is an
authorized one. -/
theorem authorized_of_check {c : AuthConfig} {header : Option Bytes}
    (henabled : c.enabled = true) (h : (authCheck lib c header now).2 = httpOk) :
    Authorized lib c header now := by
  have hat : ∀ now', (authCheckAt lib c header now').2 = httpOk →
      ∃ token, header = some (ascii "Bearer " ++ token) ∧
        match c.jwt with
        | none => lib.sha256 token = lib.sha256 c.secret
        | some j => (validateJwt lib token j now').2 = httpOk := by
    intro now' h'
    simp only [authCheckAt, henabled, not_true_eq_false, if_false] at h'
    split at h'
    · cases h'
    split at h'
    · cases h'
    next token htoken =>
    refine ⟨token, congrArg some (bearerToken_eq_some htoken), ?_⟩
    cases hj : c.jwt with
    | none =>
      simp only [hj] at h' ⊢
      split at h'
      next heq => exact of_decide_eq_true heq
      · cases h'
    | some =>
      simp only [hj] at h' ⊢
      exact h'
  simp only [authCheck, henabled, not_true_eq_false, if_false] at h
  cases hj : c.jwt with
  | none =>
    simp only [hj] at h
    simpa only [Authorized, hj] using hat 0 h
  | some =>
    simp only [hj, authCheckClocked] at h
    split at h
    · cases h
    next hclock =>
    obtain ⟨token, hheader, hvalid⟩ := hat now h
    rw [hj] at hvalid
    simp only [Authorized, hj]
    exact ⟨token, hheader, tokenAccepted_of_validateJwt (Int64.not_le.1 hclock) hvalid⟩

/-! ### The order -/

def TokenEvent.Parses : TokenEvent → Prop
  | .parsed _ => True
  | .verified _ _ _ => False

/-- The signature of the header's token was verified, over the bytes before its second dot. -/
def TokenEvent.Verifies (header : Option Bytes) : TokenEvent → Prop
  | .parsed _ => False
  | .verified message _ ok => ok = true ∧ ∃ token h p s, header = some (ascii "Bearer " ++ token) ∧
      ThreeSegments token h p s ∧ message = h ++ ascii "." ++ p

/-- **Nothing of a token is parsed before its signature was verified.** -/
theorem authCheck_precedes (c : AuthConfig) (header : Option Bytes) :
    Precedes (TokenEvent.Verifies header) TokenEvent.Parses (authCheck lib c header now).1 := by
  have hnone : Precedes (TokenEvent.Verifies header) TokenEvent.Parses [] :=
    precedes_of_not nofun
  have hat : ∀ now', Precedes (TokenEvent.Verifies header) TokenEvent.Parses
      (authCheckAt lib c header now').1 := by
    intro now'
    unfold authCheckAt
    split
    · exact hnone
    split
    · exact hnone
    split
    · exact hnone
    next token htoken =>
    split
    next j _ =>
      have hval := validation lib token j now'
      generalize validateJwt lib token j now' = r at hval
      cases hval with
      | refused => exact hnone
      | forged =>
        refine precedes_of_not fun e he hparses => ?_
        obtain rfl := mem_singleton.1 he
        exact hparses
      | @signed h p s sig key hseg hkey hsig hverified =>
        have hheader := congrArg some (bearerToken_eq_some htoken)
        exact precedes_cons ⟨rfl, token, h, p, s, hheader, hseg, rfl⟩ id
    · split <;> exact hnone
  unfold authCheck
  split
  · exact hnone
  split
  · exact hat 0
  unfold authCheckClocked
  split
  · exact hnone
  · exact hat now

end Agnosai.Auth
