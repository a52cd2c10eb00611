import FastPki.Attest.Object
import FastPki.Attest.Versions
import FastPki.Framework.Narrow
import FastPki.Policy.Issuance

namespace FastPki.Attest
open X509 Policy

/-- What is read of an attestation certificate: its extensions by OID, and its key. -/
structure AttestCert where
  extensions : List (String × Octets)
  spki : Option Octets
  deriving DecidableEq

/-- What OpenSSL does for the check. -/
structure Ssl where
  /-- The certificate and what is left behind it. -/
  d2iX509 : Octets → Option (AttestCert × Octets)
  pemCerts : Octets → List AttestCert
  /-- `X509_verify_cert` of a leaf and its chain under these roots. -/
  verifyCert : List AttestCert → AttestCert → List AttestCert → Except String Unit
  sha256 : Octets → { h : Octets // h.length=32 }

structure AppleDevice where
  serial : Octets
  udid : Octets
  leafSpkiDer : Octets
  osVersion : Octets
  sip : Int
  deriving DecidableEq

section Code

def kAppleEnterpriseAttestationRoot : Octets := octets <|
  "-----BEGIN CERTIFICATE-----\n"++
  "MIICJDCCAamgAwIBAgIUQsDCuyxyfFxeq/bxpm8frF15hzcwCgYIKoZIzj0EAwMw\n"++
  "UTEtMCsGA1UEAwwkQXBwbGUgRW50ZXJwcmlzZSBBdHRlc3RhdGlvbiBSb290IENB\n"++
  "MRMwEQYDVQQKDApBcHBsZSBJbmMuMQswCQYDVQQGEwJVUzAeFw0yMjAyMTYxOTAx\n"++
  "MjRaFw00NzAyMjAwMDAwMDBaMFExLTArBgNVBAMMJEFwcGxlIEVudGVycHJpc2Ug\n"++
  "QXR0ZXN0YXRpb24gUm9vdCBDQTETMBEGA1UECgwKQXBwbGUgSW5jLjELMAkGA1UE\n"++
  "BhMCVVMwdjAQBgcqhkjOPQIBBgUrgQQAIgNiAAT6Jigq+Ps9Q4CoT8t8q+UnOe2p\n"++
  "oT9nRaUfGhBTbgvqSGXPjVkbYlIWYO+1zPk2Sz9hQ5ozzmLrPmTBgEWRcHjA2/y7\n"++
  "7GEicps9wn2tj+G89l3INNDKETdxSPPIZpPj8VmjQjBAMA8GA1UdEwEB/wQFMAMB\n"++
  "Af8wHQYDVR0OBBYEFPNqTQGd8muBpV5du+UIbVbi+d66MA4GA1UdDwEB/wQEAwIB\n"++
  "BjAKBggqhkjOPQQDAwNpADBmAjEA1xpWmTLSpr1VH4f8Ypk8f3jMUKYz4QPG8mL5\n"++
  "8m9sX/b2+eXpTv2pH4RZgJjucnbcAjEA4ZSB6S45FlPuS/u4pTnzoz632rA+xW/T\n"++
  "ZwFEh9bhKjJ+5VQ9/Do1os0u3LEkgN/r\n"++
  "-----END CERTIFICATE-----\n"

def oidSerial : String := "1.2.840.113635.100.8.9.1"
def oidUdid : String := "1.2.840.113635.100.8.9.2"
def oidOsVersion : String := "1.2.840.113635.100.8.10.1"
def oidFreshness : String := "1.2.840.113635.100.8.11.1"
def oidSip : String := "1.2.840.113635.100.8.13.1"

/-- `X509_get_ext_by_OBJ` and the octets of the extension. -/
def AttestCert.ext? (x : AttestCert) (oid : String) : Option Octets :=
  (x.extensions.find? (·.1 = oid)).map (·.2)

/-- The octets span a single OCTET STRING or UTF8String, by their first two. -/
def spansValue : Octets → Bool
  | tag::len::rest => (tag = 0x04 || tag = 0x0c) && len < 0x80 && len.toNat = rest.length
  | _ => false

def unwrapped (v : Octets) : Octets := if spansValue v then v.drop 2 else v

def extValue (x : AttestCert) (oid : String) : Octets := ((x.ext? oid).map unwrapped).getD []

/-- A DER INTEGER, the digits as text, or one raw byte. The octets of the first are shifted into an
`int`. -/
def attestedInt (d : Octets) : Int :=
  let n := d.length
  if n ≥ 3 ∧ d.head? = some 0x02 ∧ (d.getD 1 0).toNat = n-2 ∧ n-2 ≤ 4 then
    intOf (Cbor.bigEndian (d.drop 2))
  else if n ≥ 1 ∧ n ≤ 9 ∧ d.all Ascii.isDigit then Ascii.value d
  else if n = 1 then (d.getD 0 0).toNat
  else -1

def extInt (x : AttestCert) (oid : String) : Int := ((x.ext? oid).map attestedInt).getD (-1)

variable (ssl : Ssl)

def derToX509 (der : Octets) : Except Error AttestCert :=
  match ssl.d2iX509 der with
  | some (x,[]) => .ok x
  | _ => .error ⟨1,"attestation certificate is not a single DER certificate"⟩

/-- What the leaf says about the device. -/
def deviceOf (leaf : AttestCert) : Except Error AppleDevice := do
  let serial := extValue leaf oidSerial
  refuseIf (serial = []) ⟨1,"the attestation names no serial number (a User Enrollment device "++
    "does not attest one)"⟩
  refuseIf (∃ ch∈serial,ch < 0x21 ∨ ch > 0x7e)
    ⟨1,"the attested serial number is not printable text"⟩
  let spki ← requireSome leaf.spki ⟨1,"the attested key cannot be read"⟩
  .ok ⟨serial,extValue leaf oidUdid,spki,extValue leaf oidOsVersion,extInt leaf oidSip⟩

def checkFreshness (leaf : AttestCert) (token : Octets) : Except Error Unit :=
  let fresh := extValue leaf oidFreshness
  refuseIf (fresh.length ≠ 32 ∨ fresh ≠ ssl.sha256 token)
    ⟨1,"the attestation's freshness code does not match this challenge's token"⟩

/-- The leaf, where its chain ends at a root. -/
def trustedLeaf (obj : AttestationObject) (extraRootsPem : Octets) : Except Error AttestCert := do
  refuseIf (obj.fmt ≠ octets "apple")
    ⟨1,"attestation format '"++asText obj.fmt++"' is not supported; only 'apple' is"⟩
  let first ← requireSome obj.x5c.head? ⟨1,"attestation carries no certificate"⟩
  let leaf ← derToX509 ssl first
  let chain ← obj.x5c.tail.mapM (derToX509 ssl)
  let extra := if extraRootsPem = [] then [] else ssl.pemCerts extraRootsPem
  refuseIf (extraRootsPem ≠ [] ∧ extra = [])
    ⟨2,"ACME_ATTESTATION_ROOTS holds no readable certificate"⟩
  (ssl.verifyCert (ssl.pemCerts kAppleEnterpriseAttestationRoot++extra) leaf chain).mapError
    fun why => ⟨1,"the attestation does not chain to a trusted attestation root: "++why⟩
  .ok leaf

def verifyApple (obj : AttestationObject) (token extraRootsPem : Octets) :
    Except Error AppleDevice := do
  let leaf ← trustedLeaf ssl obj extraRootsPem
  checkFreshness ssl leaf token
  deviceOf leaf

/-- The settings that only add a refusal. -/
structure Posture where
  minOs : Octets
  requireSip : Bool

/-- What `handle_device_attest` asks of a verified device. -/
def checkDevice (cfg : Posture) (expectedSerial : Octets) (dev : AppleDevice) :
    Except Error Unit := do
  refuseIf (expectedSerial ≠ [] ∧ dev.serial ≠ expectedSerial)
    ⟨1,"the attested serial number is not the one this order names"⟩
  refuseIf (cfg.minOs ≠ [] ∧ dev.osVersion = [])
    ⟨1,"the attestation carries no OS version (the device is older "++
      "than iOS 17.2 or macOS 14.2), and ACME_ATTEST_MIN_OS is "++asText cfg.minOs⟩
  refuseIf (cfg.minOs ≠ [] ∧ compareVersions dev.osVersion cfg.minOs < 0)
    ⟨1,"the attested OS version "++asText dev.osVersion++" is below ACME_ATTEST_MIN_OS "++
      asText cfg.minOs⟩
  refuseIf (cfg.requireSip ∧ dev.sip > 0)
    ⟨1,"the attestation says System Integrity Protection is off, and "++
      "ACME_ATTEST_REQUIRE_SIP is on"⟩

end Code

section Accepts

variable {ssl : Ssl}

/-- An accepted device has the components of the minimum, or later ones. -/
theorem minOs_of_checkDevice {cfg : Posture} {expectedSerial : Octets} {dev : AppleDevice}
    (h : checkDevice cfg expectedSerial dev=.ok ()) (hmin : cfg.minOs≠[]) :
    dev.osVersion≠[] ∧ versionKey cfg.minOs ≤ versionKey dev.osVersion := by
  obtain ⟨_,_,h⟩ := bind_eq_ok_iff.mp h
  obtain ⟨_,habsent,h⟩ := bind_eq_ok_iff.mp h
  obtain ⟨_,hbelow,_⟩ := bind_eq_ok_iff.mp h
  rw [refuseIf_eq_ok_iff] at habsent hbelow
  refine ⟨fun hnil => habsent ⟨hmin,hnil⟩,not_lt.mp fun hlt => hbelow ⟨hmin,?_⟩⟩
  exact (compareVersions_neg_iff _ _).mpr hlt

theorem checkFreshness_eq_ok_iff {leaf : AttestCert} {token : Octets} :
    checkFreshness ssl leaf token=.ok () ↔ extValue leaf oidFreshness=ssl.sha256 token := by
  rw [checkFreshness,refuseIf_eq_ok_iff,not_or,not_not,not_not]
  constructor
  · exact And.right
  · intro h
    exact ⟨by rw [h]; exact (ssl.sha256 token).2,h⟩

/-- All that is checked beside the freshness code. -/
def PassesRest (ssl : Ssl) (obj : AttestationObject) (extraRootsPem : Octets) (leaf : AttestCert) :
    Prop :=
  trustedLeaf ssl obj extraRootsPem=.ok leaf ∧ ∃ dev,deviceOf leaf=.ok dev

theorem verifyApple_accepts_iff {obj : AttestationObject} {token extraRootsPem : Octets} :
    (∃ dev,verifyApple ssl obj token extraRootsPem=.ok dev) ↔
      ∃ leaf,PassesRest ssl obj extraRootsPem leaf ∧
        extValue leaf oidFreshness=ssl.sha256 token := by
  constructor
  · rintro ⟨dev,h⟩
    obtain ⟨leaf,hleaf,h⟩ := bind_eq_ok_iff.mp h
    obtain ⟨_,hfresh,hdev⟩ := bind_eq_ok_iff.mp h
    exact ⟨leaf,⟨hleaf,dev,hdev⟩,checkFreshness_eq_ok_iff.mp hfresh⟩
  · rintro ⟨leaf,⟨hleaf,dev,hdev⟩,hfresh⟩
    refine ⟨dev,bind_eq_ok_iff.mpr ⟨leaf,hleaf,bind_eq_ok_iff.mpr ⟨(),?_,hdev⟩⟩⟩
    exact checkFreshness_eq_ok_iff.mpr hfresh

end Accepts

section Freshness

/-- The value in one of its encodings: as it is, as an OCTET STRING or as a UTF8String. -/
def Carries (v h : Octets) : Prop := v=h ∨ v=0x04::0x20::h ∨ v=0x0c::0x20::h

/-- A hash that begins like the header of 30 octets. -/
def LooksWrapped (h : Octets) : Prop := ∃ rest,h=0x04::0x1e::rest ∨ h=0x0c::0x1e::rest

theorem spansValue_iff {v : Octets} : spansValue v=true ↔ ∃ tag len rest,v=tag::len::rest ∧
    (tag=0x04 ∨ tag=0x0c) ∧ len<0x80 ∧ len.toNat=rest.length := by
  match v with
  | [] => simp [spansValue]
  | [a] => simp [spansValue]
  | a::b::rest => simp [spansValue,and_assoc]

theorem octet_eq_of_toNat {b : UInt8} {n : Nat} (h : b.toNat=n) : b=UInt8.ofNat n := by
  rw [← h,UInt8.ofNat_toNat]

/-- A hash spans its octets only by its first two. -/
theorem spansValue_hash_iff {h : Octets} (hlen : h.length=32) :
    spansValue h=true ↔ LooksWrapped h := by
  rw [spansValue_iff]
  constructor
  · rintro ⟨tag,len,rest,rfl,htag,_,hrest⟩
    have hthirty : len.toNat=30 := by
      rw [List.length_cons,List.length_cons] at hlen
      omega
    obtain rfl : len=0x1e := octet_eq_of_toNat hthirty
    rcases htag with rfl|rfl
    · exact ⟨rest,Or.inl rfl⟩
    · exact ⟨rest,Or.inr rfl⟩
  · rintro ⟨rest,rfl|rfl⟩
    · rw [List.length_cons,List.length_cons] at hlen
      exact ⟨_,_,rest,rfl,Or.inl rfl,by decide,(Nat.succ.inj (Nat.succ.inj hlen)).symm⟩
    · rw [List.length_cons,List.length_cons] at hlen
      exact ⟨_,_,rest,rfl,Or.inr rfl,by decide,(Nat.succ.inj (Nat.succ.inj hlen)).symm⟩

/-- A hash is unwrapped from its wrapped encodings and from itself, where it does not look
wrapped. -/
theorem unwrapped_eq_hash_iff {v h : Octets} (hlen : h.length=32) : unwrapped v=h ↔
    (v=h ∧ ¬LooksWrapped h) ∨ v=0x04::0x20::h ∨ v=0x0c::0x20::h := by
  rw [unwrapped]
  split_ifs with hspan
  · obtain ⟨tag,len,rest,rfl,htag,hlt,hrest⟩ := spansValue_iff.mp hspan
    constructor
    · rintro rfl
      rw [List.drop_succ_cons,List.drop_succ_cons,List.drop_zero] at hlen ⊢
      obtain rfl : len=0x20 := octet_eq_of_toNat (hrest.trans hlen)
      rcases htag with rfl|rfl
      · exact Or.inr (Or.inl rfl)
      · exact Or.inr (Or.inr rfl)
    · rintro (⟨rfl,hplain⟩|heq|heq)
      · exact absurd ((spansValue_hash_iff hlen).mp hspan) hplain
      · rw [heq]
        rfl
      · rw [heq]
        rfl
  · have hwrapped : ∀ tag : UInt8,tag=0x04 ∨ tag=0x0c → v≠tag::0x20::h := by
      rintro tag htag rfl
      exact hspan (spansValue_iff.mpr ⟨tag,_,h,rfl,htag,by decide,hlen.symm⟩)
    constructor
    · rintro rfl
      exact Or.inl ⟨rfl,fun h => hspan ((spansValue_hash_iff hlen).mpr h)⟩
    · rintro (⟨rfl,_⟩|heq|heq)
      · rfl
      · exact absurd heq (hwrapped 0x04 (Or.inl rfl))
      · exact absurd heq (hwrapped 0x0c (Or.inr rfl))

theorem extValue_of_ext {x : AttestCert} {oid : String} {v : Octets} (h : x.ext? oid=some v) :
    extValue x oid=unwrapped v := by
  rw [extValue,h]
  rfl

/-- The hash is read in either encoding, and the attestations that are accepted are those, of all
that pass the rest, whose freshness extension is the hash of the token. -/
def FreshnessExact (ssl : Ssl) (h : { h : Octets // h.length=32 }) : Prop :=
  (∀ (x : AttestCert) (oid : String),x.ext? oid=some h.1 → extValue x oid=h.1) ∧
  (∀ (x : AttestCert) (oid : String),x.ext? oid=some (0x04::0x20::h.1) → extValue x oid=h.1) ∧
  ∀ (obj : AttestationObject) (token extraRootsPem : Octets),ssl.sha256 token=h →
    ((∃ dev,verifyApple ssl obj token extraRootsPem=.ok dev) ↔
      ∃ leaf,PassesRest ssl obj extraRootsPem leaf ∧
        ∃ v,leaf.ext? oidFreshness=some v ∧ Carries v h.1)

/-- Whatever OpenSSL answers, this is so for exactly the hashes that do not look wrapped. -/
theorem freshness_exact_iff (ssl : Ssl) (h : { h : Octets // h.length=32 }) :
    FreshnessExact ssl h ↔ ¬LooksWrapped h.1 := by
  constructor
  · rintro ⟨hraw,_⟩ hlooks
    have hread := hraw ⟨[(oidFreshness,h.1)],none⟩ oidFreshness (by simp [AttestCert.ext?])
    rw [extValue_of_ext (v := h.1) (by simp [AttestCert.ext?]),unwrapped_eq_hash_iff h.2] at hread
    rcases hread with ⟨_,hplain⟩|heq|heq
    · exact hplain hlooks
    · exact absurd (congrArg List.length heq) (by simp only [List.length_cons]; omega)
    · exact absurd (congrArg List.length heq) (by simp only [List.length_cons]; omega)
  · intro hplain
    have hcarries : ∀ v,unwrapped v=h.1 ↔ Carries v h.1 := by
      intro v
      rw [unwrapped_eq_hash_iff h.2,Carries]
      exact or_congr (and_iff_left hplain) Iff.rfl
    refine ⟨fun x oid hext => ?_,fun x oid hext => ?_,fun obj token extra htoken => ?_⟩
    · rw [extValue_of_ext hext]
      exact (hcarries _).mpr (Or.inl rfl)
    · rw [extValue_of_ext hext]
      exact (hcarries _).mpr (Or.inr (Or.inl rfl))
    · rw [verifyApple_accepts_iff,htoken]
      refine exists_congr fun leaf => and_congr_right fun _ => ?_
      cases hext : leaf.ext? oidFreshness with
      | none =>
        rw [extValue,hext]
        refine iff_of_false (fun hnil => ?_) (by simp)
        have hlen := h.2
        rw [← hnil] at hlen
        exact absurd hlen (by decide)
      | some v =>
        rw [extValue_of_ext hext,hcarries]
        constructor
        · exact fun hv => ⟨v,rfl,hv⟩
        · rintro ⟨w,hw,hcarry⟩
          rwa [Option.some.inj hw]

/-- SHA-256 of `token-14572`. -/
def unluckyHash : { h : Octets // h.length=32 } := ⟨
  [0x04,0x1e,0xaf,0xcf,0x2c,0x90,0x5e,0x03,0xa0,0xcd,0xfb,0x02,0x60,0xcf,0xcf,0x72,
   0x79,0xb5,0x64,0x74,0x7f,0x98,0x71,0xe6,0x86,0x39,0x54,0x61,0xf0,0x25,0x55,0xe0],rfl⟩

def unluckyLeaf : AttestCert :=
  ⟨[(oidSerial,octets "C02XL0ABJGH5"),(oidFreshness,unluckyHash.1)],some [0x30,0x00]⟩

/-- Every certificate is the one leaf, which a root has signed. -/
def unluckySsl : Ssl where
  d2iX509 _ := some (unluckyLeaf,[])
  pemCerts _ := []
  verifyCert _ _ _ := .ok ()
  sha256 _ := unluckyHash

/-- The attestation of this token is refused, although its freshness code is the token's hash. -/
theorem unlucky_token_refused :
    unluckyLeaf.ext? oidFreshness=some unluckyHash.1 ∧
      verifyApple unluckySsl ⟨octets "apple",[[0x30]]⟩ (octets "token-14572") []=
        .error ⟨1,"the attestation's freshness code does not match this challenge's token"⟩ ∧
      ¬FreshnessExact unluckySsl unluckyHash := by
  have hext : unluckyLeaf.ext? oidFreshness=some unluckyHash.1 := by decide +kernel
  refine ⟨hext,by decide +kernel,fun h => ?_⟩
  have hread := h.1 unluckyLeaf oidFreshness hext
  exact absurd hread (by decide)

end Freshness

end FastPki.Attest
