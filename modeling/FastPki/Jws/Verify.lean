import FastPki.Framework.Except
import FastPki.Framework.Json
import FastPki.Jws.Base64url

namespace FastPki.Jws

open FastPki.X509

/-- The JSON library: its parser, and what it throws where a member is missing or of another type. -/
structure JsonLib where
  parse : Octets → Except Error Json
  noMember : Json → String → Error
  typeError : Json → String → Error

section Members

variable (lib : JsonLib)

/-- `j.at(k)` -/
def member (j : Json) (k : String) : Except Error Json := requireSome (j.find k) (lib.noMember j k)

/-- `j.at(k).get<std::string>()` -/
def textMember (j : Json) (k : String) : Except Error Octets := do
  let v ← member lib j k
  match v with
  | .str s => .ok (octets s)
  | _ => .error (lib.typeError v k)

/-- `j.value(k, "")` -/
def textValue (j : Json) (k : String) : Except Error Octets :=
  match j.value Json.getStr k "" with
  | some s => .ok (octets s)
  | none => .error (lib.typeError j k)

end Members

/-- What a public key is built from. -/
inductive JwkParams where
  | ec (point : Octets)
  | rsa (n e : Octets)
  deriving DecidableEq

/-- OpenSSL: a key as its SubjectPublicKeyInfo, the DER form of an ECDSA signature, and a signature
over SHA-256. -/
structure Crypto where
  fromData : JwkParams → Except Error Octets
  ecdsaDer : Octets → Octets → Octets
  digestVerify : Octets → Octets → Octets → Bool

section Verify

variable (lib : JsonLib) (crypto : Crypto)

def ecParams (jwk : Json) : Except Error JwkParams := do
  let crv ← textValue lib jwk "crv"
  refuseIf (crv ≠ octets "P-256") ⟨1,"only EC P-256 supported (badPublicKey)"⟩
  let x ← textMember lib jwk "x"
  let x ← base64urlDecode x
  let y ← textMember lib jwk "y"
  let y ← base64urlDecode y
  refuseIf (x.length ≠ 32 ∨ y.length ≠ 32) ⟨1,"EC point size != 32"⟩
  .ok (.ec (0x04::x++y))

def rsaParams (jwk : Json) : Except Error JwkParams := do
  let n ← textMember lib jwk "n"
  let n ← base64urlDecode n
  let e ← textMember lib jwk "e"
  let e ← base64urlDecode e
  .ok (.rsa n e)

def jwkToPubkey (jwk : Json) : Except Error Octets := do
  refuseIf (!jwk.contains "kty") ⟨1,"jwk missing kty"⟩
  let kty ← textMember lib jwk "kty"
  let params ← if kty = octets "EC" then ecParams lib jwk
    else if kty = octets "RSA" then rsaParams lib jwk
    else .error ⟨1,"unsupported kty: "++asText kty++" (badPublicKey)"⟩
  crypto.fromData params

/-- The raw `R || S` of a JWS, as OpenSSL wants it. -/
def ecdsaRawToDer (raw : Octets) : Except Error Octets :=
  if raw.length ≠ 64 then .error ⟨1,"ES256 signature size != 64"⟩
  else .ok (crypto.ecdsaDer (raw.take 32) (raw.drop 32))

structure ParsedJws where
  protectedB64 : Octets
  payloadB64 : Octets
  signatureBytes : Octets
  alg : Octets
  deriving DecidableEq

def signingInput (p : ParsedJws) : Octets := p.protectedB64++0x2e::p.payloadB64

def signatureFor (p : ParsedJws) : Except Error Octets :=
  if p.alg = octets "ES256" then ecdsaRawToDer crypto p.signatureBytes
  else if p.alg = octets "RS256" then .ok p.signatureBytes
  else .error ⟨1,"badSignatureAlgorithm: "++asText p.alg⟩

/-- The key that signed, as its SubjectPublicKeyInfo. -/
def verify (p : ParsedJws) (jwk : Json) : Except Error Octets := do
  let pk ← jwkToPubkey lib crypto jwk
  let sig ← signatureFor crypto p
  refuseIf (!crypto.digestVerify pk sig (signingInput p)) ⟨1,"JWS signature verification failed"⟩
  .ok pk

end Verify

/-- The key of this JWK signed the header and the payload. -/
def SignedBy (lib : JsonLib) (crypto : Crypto) (jwk : Json) (p : ParsedJws) : Prop :=
  ∃ pk sig,jwkToPubkey lib crypto jwk=.ok pk ∧ signatureFor crypto p=.ok sig ∧
    crypto.digestVerify pk sig (signingInput p)=true

theorem verify_eq_ok {lib : JsonLib} {crypto : Crypto} {p : ParsedJws} {jwk : Json} {pk : Octets}
    (h : verify lib crypto p jwk=.ok pk) : SignedBy lib crypto jwk p := by
  obtain ⟨key,hkey,h⟩ := bind_eq_ok_iff.mp h
  obtain ⟨sig,hsig,h⟩ := bind_eq_ok_iff.mp h
  obtain ⟨_,hverify,_⟩ := bind_eq_ok_iff.mp h
  have hok := refuseIf_eq_ok_iff.mp hverify
  exact ⟨key,sig,hkey,hsig,by simpa using hok⟩

end FastPki.Jws
