import FastPki.Framework.Except
import FastPki.Framework.Json
import FastPki.Jws.Base64url
import FastPki.Webauthn.AuthData

namespace FastPki.Webauthn
open X509 Cbor

def kUserPresent : UInt8 := 0x01
def kUserVerified : UInt8 := 0x04

/-- What `EVP_PKEY_is_a` tells apart. -/
inductive KeyType where
  | ec | rsa | ed25519 | other
  deriving DecidableEq

/-- The libraries underneath: the JSON parser with its exceptions, the hash, and OpenSSL's keys and
signatures. `digestVerify` is told whether the message is hashed with SHA-256 first. -/
structure Library where
  parse : Octets → Except Error Json
  typeError : Json → String → Error
  sha256 : Octets → Octets
  spkiOf : KeyParams → Except Error Octets
  keyType : Octets → Option KeyType
  digestVerify : Octets → Bool → Octets → Octets → Bool

structure ClientData where
  type : Octets
  challenge : Octets
  origin : Octets
  deriving DecidableEq

structure Registered where
  credentialId : Octets
  spki : Octets
  alg : Int
  signCount : Nat
  deriving DecidableEq

section Code

variable (lib : Library)

def clientMember (j : Json) (k : String) : Result Octets :=
  match j.find k with
  | some (.str s) => .ok (octets s)
  | _ => bad ("client data has no "++k)

def crossOrigin (j : Json) : Bool :=
  match j.find "crossOrigin" with
  | some (.bool b) => b
  | _ => false

def parseClientData (json : Octets) : Result ClientData :=
  match lib.parse json with
  | .error _ => bad "client data is not JSON"
  | .ok j =>
    if !j.isObject then bad "client data is not a JSON object"
    else do
      let type ← clientMember j "type"
      let challenge ← clientMember j "challenge"
      let origin ← clientMember j "origin"
      if crossOrigin j then bad "a cross-origin request is not accepted"
      else .ok ⟨type,challenge,origin⟩

def isPortDigit (c : UInt8) : Bool := !(c < 0x30 || c > 0x39)

/-- `https://` and the name, and perhaps a port. -/
def originMatches (origin rpId : Octets) : Bool :=
  let base := octets "https://"++rpId
  if rpId = [] ∨ origin.take base.length ≠ base then false
  else if origin.length = base.length then true
  else if origin[base.length]? ≠ some 0x3a ∨ origin.length = base.length+1 then false
  else (origin.drop (base.length+1)).all isPortDigit

/-- The checks that registration and sign-in share. -/
def checkCommon (cd : ClientData) (type : String) (ad : AuthData) (rpId challenge : Octets) :
    Result Unit :=
  if cd.type ≠ octets type then bad ("client data type is not "++type)
  else if challenge = [] ∨ cd.challenge ≠ challenge then bad "the challenge does not match"
  else if !originMatches cd.origin rpId then 
    bad ("the origin "++asText cd.origin++" is not https://"++asText rpId)
  else if ad.rpIdHash ≠ lib.sha256 rpId then bad "the passkey is for another site"
  else if ad.flags &&& kUserPresent = 0 then bad "the authenticator did not confirm user presence"
  else if ad.flags &&& kUserVerified = 0 then
    bad "the authenticator did not verify the user (Face ID, Touch ID or a PIN is required)"
  else .ok ()

def attestationWhat : String := "attestation object"

def authDataMemberOf (s : Option Octets) (k : Octets) (c : Reader) :
    Result (Option Octets × Reader) :=
  if k = octets "authData" then
    bytes attestationWhat c >>= fun (b,c) => .ok (some b,c)
  else skip attestationWhat 1 c >>= fun (_,c) => .ok (s,c)

def authDataMember (s : Option Octets) (c : Reader) : Result (Option Octets × Reader) :=
  key attestationWhat c >>= fun (k,c) => authDataMemberOf s k c

/-- Of members of that name the last one counts. -/
def authDataOfAttestation (data : Octets) : Result Octets :=
  mapCount attestationWhat (.whole data 0) >>= fun (n,c) =>
    scanLoop authDataMember n none c >>= fun (auth,c) =>
      if c.pos ≠ c.stop then Cbor.bad attestationWhat "trailing bytes after the object"
      else match auth with
        | none => Cbor.bad attestationWhat "no authData"
        | some a => .ok a

def verifyRegistration (clientDataJson attestationObject rpId challenge : Octets) :
    Result Registered := do
  let cd ← parseClientData lib clientDataJson
  let auth ← authDataOfAttestation attestationObject
  let ad ← parseAuthData lib.spkiOf auth true
  checkCommon lib cd "webauthn.create" ad rpId challenge
  .ok ⟨Jws.base64urlEncode ad.credentialId,ad.spki,ad.alg,ad.signCount⟩

/-- Only the algorithm a key was registered with, and only with its own type of key. The answer is
whether the message is hashed first. -/
def digestFor (alg : Int) (type : KeyType) : Option Bool :=
  if alg = kES256 ∧ type = .ec then some true
  else if alg = kRS256 ∧ type = .rsa then some true
  else if alg = kEdDSA ∧ type = .ed25519 then some false
  else none

def signedMessage (clientDataJson authenticatorData : Octets) : Octets :=
  authenticatorData++lib.sha256 clientDataJson

def checkSignature (clientDataJson authenticatorData signature spki : Octets) (alg : Int) :
    Result Unit :=
  match lib.keyType spki with
  | none => bad "the stored public key cannot be read"
  | some type =>
    match digestFor alg type with
    | none => bad "the stored key does not match its algorithm"
    | some hashed =>
      if lib.digestVerify spki hashed signature (signedMessage lib clientDataJson authenticatorData) then
        .ok ()
      else bad "the signature does not verify"

/-- The signature counter of the authenticator. -/
def verifyAssertion (clientDataJson authenticatorData signature rpId challenge spki : Octets)
    (alg : Int) : Result Nat := do
  let cd ← parseClientData lib clientDataJson
  let ad ← parseAuthData lib.spkiOf authenticatorData false
  checkCommon lib cd "webauthn.get" ad rpId challenge
  checkSignature lib clientDataJson authenticatorData signature spki alg
  .ok ad.signCount

end Code

section Origin

variable {origin rpId : Octets}

/-- An accepted origin is this site and no other: behind the name comes nothing, or a port. -/
theorem originMatches_iff : originMatches origin rpId=true ↔ rpId≠[] ∧
    (origin=octets "https://"++rpId ∨ ∃ port,port≠[] ∧ (∀ c∈port,isPortDigit c=true) ∧
      origin=octets "https://"++rpId++0x3a::port) := by
  rw [originMatches]
  generalize octets "https://"++rpId=base
  constructor
  · intro h
    split_ifs at h with hbase hlen hcolon
    · rw [not_or,not_not] at hbase
      refine ⟨hbase.1,Or.inl ?_⟩
      rw [← hbase.2,List.take_of_length_le (by omega)]
    · rw [not_or,not_not] at hbase hcolon
      refine ⟨hbase.1,Or.inr ⟨origin.drop (base.length+1),?_,by simpa using h,?_⟩⟩
      · have hshort : base.length ≤ origin.length := by
          have := congrArg List.length hbase.2
          rw [List.length_take] at this
          omega
        intro hnil
        have := congrArg List.length hnil
        rw [List.length_drop,List.length_nil] at this
        omega
      · obtain ⟨hlt,hget⟩ := List.getElem?_eq_some_iff.mp hcolon.1
        have hdrop : origin.drop base.length=0x3a::origin.drop (base.length+1) := by
          rw [List.drop_eq_getElem_cons hlt,hget]
        calc origin = origin.take base.length++origin.drop base.length :=
              (List.take_append_drop _ _).symm
          _ = base++0x3a::origin.drop (base.length+1) := by rw [hbase.2,hdrop]
  · intro h
    obtain ⟨hne,rfl|⟨port,hport,hdigits,rfl⟩⟩ := h
    · simp [hne]
    · have htake : (base++0x3a::port).take base.length=base := List.take_left
      have hget : (base++0x3a::port)[base.length]?=some 0x3a := by simp
      have hdrop : (base++0x3a::port).drop (base.length+1)=port := by
        rw [List.drop_append]
        simp
      rw [if_neg (by simp [hne,htake]),if_neg (by simp),if_neg,hdrop]
      · simpa using hdigits
      · rw [hget]
        simpa using hport

end Origin

section Accepted

variable {lib : Library} {rpId challenge : Octets}

/-- What both ceremonies ask of the browser and of the authenticator. -/
structure Common (lib : Library) (type : String) (rpId challenge : Octets) (cd : ClientData)
    (ad : AuthData) : Prop where
  type : cd.type=octets type
  challenge : challenge≠[] ∧ cd.challenge=challenge
  origin : originMatches cd.origin rpId=true
  site : ad.rpIdHash=lib.sha256 rpId
  present : ad.flags &&& kUserPresent≠0
  verified : ad.flags &&& kUserVerified≠0

theorem checkCommon_eq_ok {cd : ClientData} {type : String} {ad : AuthData}
    (h : checkCommon lib cd type ad rpId challenge=.ok ()) :
    Common lib type rpId challenge cd ad := by
  rw [checkCommon] at h
  split_ifs at h with htype hch horigin hsite hup huv
  all_goals try cases h
  rw [not_or,not_not] at hch
  exact ⟨not_not.mp htype,hch,by simpa using horigin,not_not.mp hsite,hup,huv⟩

/-- The key that stands in these octets signed this sign-in. -/
def Signed (lib : Library) (clientDataJson authenticatorData signature spki : Octets) (alg : Int) :
    Prop :=
  ∃ type hashed,lib.keyType spki=some type ∧ digestFor alg type=some hashed ∧
    lib.digestVerify spki hashed signature (signedMessage lib clientDataJson authenticatorData)=true

theorem checkSignature_eq_ok {cdj data signature spki : Octets} {alg : Int}
    (h : checkSignature lib cdj data signature spki alg=.ok ()) :
    Signed lib cdj data signature spki alg := by
  rw [checkSignature] at h
  cases htype : lib.keyType spki with
  | none =>
    rw [htype] at h
    cases h
  | some type =>
    rw [htype] at h
    cases hdigest : digestFor alg type with
    | none =>
      simp only [hdigest] at h
      cases h
    | some hashed =>
      simp only [hdigest] at h
      split_ifs at h with hverify
      · exact ⟨type,hashed,htype,hdigest,hverify⟩
      · cases h

/-- Everything that a sign-in has been found to be. -/
structure Asserted (lib : Library) (rpId challenge spki : Octets) (alg : Int)
    (clientDataJson authenticatorData signature : Octets) (count : Nat) : Prop where
  common : ∃ cd ad,parseClientData lib clientDataJson=.ok cd ∧
    parseAuthData lib.spkiOf authenticatorData false=.ok ad ∧
    Common lib "webauthn.get" rpId challenge cd ad ∧ ad.signCount=count
  signed : Signed lib clientDataJson authenticatorData signature spki alg

theorem verifyAssertion_eq_ok {cdj data signature spki : Octets} {alg : Int} {count : Nat}
    (h : verifyAssertion lib cdj data signature rpId challenge spki alg=.ok count) :
    Asserted lib rpId challenge spki alg cdj data signature count := by
  obtain ⟨cd,hcd,h⟩ := bind_eq_ok_iff.mp h
  obtain ⟨ad,had,h⟩ := bind_eq_ok_iff.mp h
  obtain ⟨_,hcommon,h⟩ := bind_eq_ok_iff.mp h
  obtain ⟨_,hsigned,h⟩ := bind_eq_ok_iff.mp h
  have hcount : ad.signCount=count := Except.ok.inj h
  exact ⟨⟨cd,ad,hcd,had,checkCommon_eq_ok hcommon,hcount⟩,checkSignature_eq_ok hsigned⟩

/-- Everything that a registration has been found to be. -/
def Attested (lib : Library) (rpId challenge clientDataJson attestationObject : Octets)
    (r : Registered) : Prop :=
  ∃ cd auth ad,parseClientData lib clientDataJson=.ok cd ∧
    authDataOfAttestation attestationObject=.ok auth ∧
    parseAuthData lib.spkiOf auth true=.ok ad ∧ Common lib "webauthn.create" rpId challenge cd ad ∧
    r=⟨Jws.base64urlEncode ad.credentialId,ad.spki,ad.alg,ad.signCount⟩

theorem verifyRegistration_eq_ok {cdj obj : Octets} {r : Registered}
    (h : verifyRegistration lib cdj obj rpId challenge=.ok r) :
    Attested lib rpId challenge cdj obj r := by
  obtain ⟨cd,hcd,h⟩ := bind_eq_ok_iff.mp h
  obtain ⟨auth,hauth,h⟩ := bind_eq_ok_iff.mp h
  obtain ⟨ad,had,h⟩ := bind_eq_ok_iff.mp h
  obtain ⟨_,hcommon,h⟩ := bind_eq_ok_iff.mp h
  exact ⟨cd,auth,ad,hcd,hauth,had,checkCommon_eq_ok hcommon,(Except.ok.inj h).symm⟩

end Accepted

end FastPki.Webauthn
