import Agnosai.Core.Bytes
import Agnosai.Core.Task

/-!
# Server — authentication

The check of a request's `Authorization` header (`server/auth.cyr`): a shared secret, compared by
its SHA-256, or an RS256 token. So that its order can be stated, a check returns, beside its
status, the trace of what it did with the token: each signature verified, with the answer, and each
text parsed. SHA-256, RSA, the PEM decoder and the JSON library are parameters (`AuthLib`). A key
is decoded once; as the outcome depends on the configured text alone, `prepare` is a function of
that.
-/

namespace Agnosai.Auth

/-! ### Statuses -/

/-- `HTTP_OK`. -/
def httpOk : Nat := 200

/-- `HTTP_UNAUTHORIZED`. -/
def httpUnauthorized : Nat := 401

/-- `HTTP_INTERNAL`. -/
def httpInternal : Nat := 500

/-! ### Configuration -/

/-- `AgnosaiJwtConfig`. -/
structure JwtConfig where
  publicKeyPem : Bytes
  issuer : Option String := none
  audience : Option String := none

/-- `AgnosaiAuthConfig`. -/
structure AuthConfig where
  enabled : Bool := false
  secret : Bytes := []
  jwt : Option JwtConfig := none

/-- `agnosai_auth_config_with_secret`. -/
def AuthConfig.withSecret (secret : Bytes) : AuthConfig where
  enabled := true
  secret := secret

/-- An RSA public key, modulus and exponent. -/
structure RsaKey where
  n : Bytes
  e : Bytes

/-- What other libraries compute. A decoder is given the room it may fill. -/
structure AuthLib where
  sha256 : Bytes → Bytes
  pemB64Decode : (body : Bytes) → (max : Nat) → Option Bytes
  rsaPubkeyFromDer : (der : Bytes) → (nMax eMax : Nat) → Option RsaKey
  rsaPkcs1v15VerifySha256 : (key : RsaKey) → (message signature : Bytes) → Bool
  jsonParse : Bytes → Option Json
  jsonObjGet : (fields : List (String × Json)) → (key : String) → Option Json

variable (lib : AuthLib)

/-! ### The public key -/

/-- What follows the first occurrence of a marker, and what precedes it (`_pem_find`). -/
def cutAt (marker : Bytes) : Bytes → Option (Bytes × Bytes)
  | [] => if marker = [] then some ([], []) else none
  | b :: rest =>
    if marker.isPrefixOf (b :: rest) then some ([], (b :: rest).drop marker.length)
    else (cutAt marker rest).map fun p => (b :: p.1, p.2)

/-- The body of a PEM block between its two markers. -/
def pemBody (beginMarker endMarker pem : Bytes) : Option (Option Bytes) :=
  (cutAt beginMarker pem).map fun p => (cutAt endMarker p.2).map Prod.fst

/-- `_agnosai_auth_pem_to_der`: a PKCS#1 block, or where there is none an SPKI one. -/
def pemToDer (pem : Bytes) (max : Nat) : Option Bytes :=
  if pem = [] then none
  else
    match pemBody (ascii "-----BEGIN RSA PUBLIC KEY-----") (ascii "-----END RSA PUBLIC KEY-----")
        pem with
    | some body => body.bind (lib.pemB64Decode · max)
    | none =>
      match pemBody (ascii "-----BEGIN PUBLIC KEY-----") (ascii "-----END PUBLIC KEY-----") pem with
      | some body => body.bind (lib.pemB64Decode · max)
      | none => none

/-- `AGNOSAI_JWT_MAX_MODULUS`. -/
def jwtMaxModulus : Nat := 512

/-- `AGNOSAI_JWT_MAX_EXPONENT`. -/
def jwtMaxExponent : Nat := 16

/-- `AGNOSAI_JWT_MIN_MODULUS`. -/
def jwtMinModulus : Nat := 256

/-- `agnosai_jwt_config_prepare`. -/
def prepare (j : JwtConfig) : Option RsaKey :=
  match pemToDer lib j.publicKeyPem 1024 with
  | none => none
  | some der =>
    if der = [] then none
    else
      match lib.rsaPubkeyFromDer der jwtMaxModulus jwtMaxExponent with
      | none => none
      | some key => if key.n.length < jwtMinModulus then none else some key

/-! ### base64url -/

/-- `_agnosai_auth_b64u_val`. -/
def b64uVal (c : UInt8) : Option UInt8 :=
  if 65 ≤ c && c ≤ 90 then some (c - 65)
  else if 97 ≤ c && c ≤ 122 then some (c - 97 + 26)
  else if 48 ≤ c && c ≤ 57 then some (c - 48 + 52)
  else if c = 45 then some 62
  else if c = 95 then some 63
  else none

/-- The groups of four, and a tail of two or three whose unused bits must be 0. -/
def b64uGroups : Bytes → Option Bytes
  | a :: b :: c :: d :: rest =>
    match b64uVal a, b64uVal b, b64uVal c, b64uVal d with
    | some a, some b, some c, some d =>
      (b64uGroups rest).map fun out =>
        ((a <<< 2) ||| (b >>> 4)) :: (((b &&& 15) <<< 4) ||| (c >>> 2)) ::
          (((c &&& 3) <<< 6) ||| d) :: out
    | _, _, _, _ => none
  | [a, b, c] =>
    match b64uVal a, b64uVal b, b64uVal c with
    | some a, some b, some c =>
      if c &&& 3 ≠ 0 then none
      else some [(a <<< 2) ||| (b >>> 4), ((b &&& 15) <<< 4) ||| (c >>> 2)]
    | _, _, _ => none
  | [a, b] =>
    match b64uVal a, b64uVal b with
    | some a, some b => if b &&& 15 ≠ 0 then none else some [(a <<< 2) ||| (b >>> 4)]
    | _, _ => none
  | [_] => none
  | [] => some []

/-- How many bytes a text of this length decodes to. -/
def b64uOutLen (srcLen : Nat) : Nat :=
  srcLen / 4 * 3 + (if srcLen % 4 = 2 then 1 else if srcLen % 4 = 3 then 2 else 0)

/-- `_agnosai_auth_b64u_decode`. -/
def b64uDecode (src : Bytes) (outMax : Nat) : Option Bytes :=
  if src.length % 4 = 1 then none
  else if b64uOutLen src.length > outMax then none
  else b64uGroups src

/-! ### The header -/

/-- `_agnosai_auth_is_visible_ascii`. -/
def isVisibleAscii (s : Bytes) : Bool := s.all fun c => c = 9 || (32 ≤ c && c ≤ 126)

/-- `agnosai_auth_bearer_token`. -/
def bearerToken (header : Bytes) : Option Bytes :=
  if ¬ isVisibleAscii header then none
  else if ¬ (ascii "Bearer ").isPrefixOf header then none
  else if header.length = 7 then none
  else some (header.drop 7)

/-- `_agnosai_auth_secret_eq`: the digests are compared, in constant time. -/
def secretEq (a b : Bytes) : Bool := lib.sha256 a = lib.sha256 b

/-! ### Tokens -/

/-- What a check did with a token. -/
inductive TokenEvent where
  | verified (message signature : Bytes) (ok : Bool)
  | parsed (text : Bytes)

/-- `AGNOSAI_JWT_LEEWAY_SECS`. -/
def jwtLeewaySecs : Int64 := 60

/-- `AGNOSAI_JWT_MAX_EXP`: the end of the year 9999. -/
def jwtMaxExp : Int64 := 253402300799

/-- `AGNOSAI_JWT_MAX_HEADER`. -/
def jwtMaxHeader : Nat := 1024

/-- `AGNOSAI_JWT_MAX_PAYLOAD`. -/
def jwtMaxPayload : Nat := 4096

/-- `_agnosai_auth_find_dot`. -/
def findDot (p : Bytes) (start : Nat) : Option Nat :=
  ((p.drop start).findIdx? (· = 46)).map (start + ·)

/-- Where the two dots of a token with three segments are, none of them empty. -/
def dots (token : Bytes) : Option (Nat × Nat) :=
  match findDot token 0 with
  | none => none
  | some d1 =>
    match findDot token (d1 + 1) with
    | none => none
    | some d2 =>
      if (findDot token (d2 + 1)).isSome then none
      else if d1 = 0 ∨ d2 - d1 - 1 = 0 ∨ token.length - d2 - 1 = 0 then none
      else some (d1, d2)

/-- `_agnosai_auth_field_eq`. -/
def fieldEq (fields : List (String × Json)) (key want : String) : Bool :=
  match lib.jsonObjGet fields key with
  | some (.str s) => s = want
  | _ => false

variable (claims : List (String × Json))

/-- `_agnosai_auth_claim_type_ok`. -/
def claimTypeOk (key : String) (wantStr : Bool) : Bool :=
  match lib.jsonObjGet claims key with
  | none => true
  | some (.str _) => wantStr
  | some (.int n) => !wantStr && 0 ≤ n
  | some _ => false

/-- `_agnosai_auth_claims_well_typed`. -/
def claimsWellTyped : Bool :=
  claimTypeOk lib claims "sub" true && claimTypeOk lib claims "iss" true
    && claimTypeOk lib claims "aud" true && claimTypeOk lib claims "scope" true
    && claimTypeOk lib claims "exp" false && claimTypeOk lib claims "iat" false

/-- Whether a claim that is configured is the one configured. -/
def configuredEq (key : String) : Option String → Bool
  | none => true
  | some want => fieldEq lib claims key want

/-- The checks on the claims of a verified token. -/
def checkClaims (j : JwtConfig) (now : Int64) : Nat :=
  if ¬ claimsWellTyped lib claims then httpUnauthorized
  else
    match lib.jsonObjGet claims "exp" with
    | some (.int exp) =>
      if exp < 0 then httpUnauthorized
      else if exp > jwtMaxExp then httpUnauthorized
      else if exp < now - jwtLeewaySecs then httpUnauthorized
      else if ¬ configuredEq lib claims "iss" j.issuer then httpUnauthorized
      else if ¬ configuredEq lib claims "aud" j.audience then httpUnauthorized
      else httpOk
    | _ => httpUnauthorized

/-- A segment decoded and parsed as a JSON object: what was parsed, and its fields. -/
def readObject (segment : Bytes) (max : Nat) :
    List TokenEvent × Option (List (String × Json)) :=
  match b64uDecode segment max with
  | none => ([], none)
  | some text =>
    if text = [] then ([], none)
    else
      match lib.jsonParse text with
      | some (.obj fields) => ([.parsed text], some fields)
      | _ => ([.parsed text], none)

/-- The part of `_agnosai_auth_validate_jwt` after the signature: the algorithm, then the claims. -/
def validateParts (header payload : Bytes) (j : JwtConfig) (now : Int64) :
    List TokenEvent × Nat :=
  match readObject lib header jwtMaxHeader with
  | (seen, none) => (seen, httpUnauthorized)
  | (seen, some hdr) =>
    if ¬ fieldEq lib hdr "alg" "RS256" then (seen, httpUnauthorized)
    else
      match readObject lib payload jwtMaxPayload with
      | (seen', none) => (seen ++ seen', httpUnauthorized)
      | (seen', some claims) => (seen ++ seen', checkClaims lib claims j now)

/-- `_agnosai_auth_validate_jwt`. -/
def validateJwt (token : Bytes) (j : JwtConfig) (now : Int64) : List TokenEvent × Nat :=
  match prepare lib j with
  | none => ([], httpInternal)
  | some key =>
    match dots token with
    | none => ([], httpUnauthorized)
    | some (d1, d2) =>
      match b64uDecode (token.drop (d2 + 1)) jwtMaxModulus with
      | none => ([], httpUnauthorized)
      | some signature =>
        if signature = [] then ([], httpUnauthorized)
        else
          let message := token.take d2
          if lib.rsaPkcs1v15VerifySha256 key message signature then
            let payload := (token.drop (d1 + 1)).take (d2 - d1 - 1)
            let (seen, status) := validateParts lib (token.take d1) payload j now
            (.verified message signature true :: seen, status)
          else ([.verified message signature false], httpUnauthorized)

/-! ### The check -/

/-- `agnosai_auth_check_at`. A missing header is `none`. -/
def authCheckAt (c : AuthConfig) (header : Option Bytes) (now : Int64) : List TokenEvent × Nat :=
  if ¬ c.enabled then ([], httpOk)
  else
    match header with
    | none => ([], httpUnauthorized)
    | some header =>
      match bearerToken header with
      | none => ([], httpUnauthorized)
      | some token =>
        match c.jwt with
        | some jwt => validateJwt lib token jwt now
        | none => if secretEq lib token c.secret then ([], httpOk) else ([], httpUnauthorized)

/-- `agnosai_auth_check_clocked`: a clock that cannot be read is not 1970. -/
def authCheckClocked (c : AuthConfig) (header : Option Bytes) (now : Int64) :
    List TokenEvent × Nat :=
  if now ≤ 0 then ([], httpInternal) else authCheckAt lib c header now

/-- `agnosai_auth_check`, when the clock says `now`. -/
def authCheck (c : AuthConfig) (header : Option Bytes) (now : Int64) : List TokenEvent × Nat :=
  if ¬ c.enabled then ([], httpOk)
  else
    match c.jwt with
    | none => authCheckAt lib c header 0
    | some _ => authCheckClocked lib c header now

end Agnosai.Auth
