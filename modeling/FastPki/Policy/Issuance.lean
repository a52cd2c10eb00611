import FastPki.Framework.Except
import FastPki.Framework.Pattern
import FastPki.Profile.CertProfile
import FastPki.X509.Extension

namespace FastPki.Policy

open FastPki.X509 FastPki.Profile

inductive KeyType where
  | rsa | rsaPss | dsa | ec | ed25519 | ed448 | mlDsa | other
  deriving DecidableEq

/-- `key` is the key itself, apart from the restrictions its RSA-PSS encoding may state. -/
structure PublicKey where
  type : KeyType
  bits : Int
  key : Octets
  pssRestricted : Bool
  deriving DecidableEq

/-- `ALLOWED_IPS_REGEX`: empty, not a regular expression, or the addresses it matches. -/
inductive IpPolicy where
  | unrestricted
  | malformed
  | regex (isMatch : String → Bool)

structure Config where
  minRsaBits : Int
  minDsaBits : Int
  minEcBits : Int
  allowedDomains : List Octets
  allowedIps : IpPolicy

def dot : UInt8 := 0x2e
def asterisk : UInt8 := 0x2a
def hyphen : UInt8 := 0x2d

def isAlnum (c : UInt8) : Bool :=
  (0x61 ≤ c && c ≤ 0x7a) || (0x41 ≤ c && c ≤ 0x5a) || (0x30 ≤ c && c ≤ 0x39)

/-- The characters that `regex_escape` puts a backslash in front of. -/
def metaCharacters : Octets := octets ".^$|()[]\x7b\x7d*+?\\"

def regexEscape (s : Octets) : Octets :=
  s.flatMap fun c => if metaCharacters.any (· = c) then [0x5c,c] else [c]

/-- The pattern of the labels in front of an entry. -/
def labelPattern (allowWildcard : Bool) : Octets :=
  if allowWildcard then octets "([a-zA-Z0-9\\*]\\.|[a-zA-Z0-9\\-]*[a-zA-Z0-9]\\.)*"
  else octets "([a-zA-Z0-9]\\.|[a-zA-Z0-9\\-]*[a-zA-Z0-9]\\.)*"

/-- The pattern that `check_cn` compiles for an entry of the list. -/
def entryPattern (allowWildcard : Bool) (dom : Octets) : Octets :=
  octets "^"++labelPattern allowWildcard++regexEscape dom++octets "$"

/-- What the pattern of the labels reads as: letters, digits and hyphens, with a star among the
one-letter labels when wildcards are allowed. -/
def labelPrefix (wildcard : Bool) : Regex UInt8 :=
  .star (.alt
    (.seq (.char fun c => isAlnum c || (wildcard && c = asterisk)) (.char (· = dot)))
    (.seq (.star (.char fun c => isAlnum c || c = hyphen))
      (.seq (.char isAlnum) (.char (· = dot)))))

def checkCn (cfg : Config) (cn : Octets) (allowWildcard : Bool) : Bool :=
  if cn = [] then false
  else if dot ∉ cn then (if asterisk ∈ cn then allowWildcard else true)
  else if cfg.allowedDomains = [] then true
  else cfg.allowedDomains.any fun dom =>
    -- an empty entry and a comment (`#`) are skipped
    dom ≠ [] && dom.head? ≠ some 0x23 &&
      -- so is one whose pattern is a `regex_error`
      (Pattern.read (entryPattern allowWildcard dom)).any fun re => re.isMatch cn

def hexDigit (n : Nat) : Char := if n < 10 then Char.ofNat (48+n) else Char.ofNat (87+n)

def hexOctet (c : UInt8) : List Char := [hexDigit (c.toNat/16),hexDigit (c.toNat%16)]

def printable (s : Octets) : String :=
  String.ofList (s.flatMap fun c =>
    if 0x20 ≤ c ∧ c < 0x7f then [Char.ofNat c.toNat] else '\\' :: 'x' :: hexOctet c)

def ipToString (ip : Octets) : String :=
  match ip with
  | [a,b,c,d] => toString a.toNat++"."++toString b.toNat++"."++toString c.toNat++"."++
      toString d.toNat
  | _ => String.ofList (ip.flatMap hexOctet)

/-- The loop of `dns_name_ok` over the labels: `label` is the length of the current one and `prev`
the octet before. -/
def labelsOk : Octets → Nat → UInt8 → Bool
  | [],label,prev => label ≠ 0 && prev ≠ hyphen
  | c::rest,label,prev =>
    if c = dot then label ≠ 0 && prev ≠ hyphen && labelsOk rest 0 c
    else if !(isAlnum c || c = hyphen || c = 0x5f) then false
    else if c = hyphen && label = 0 then false
    else if label+1 > 63 then false
    else labelsOk rest (label+1) c

def dnsNameOk (n : Octets) : Bool :=
  if n = [] ∨ n.length > 253 then false
  else if [asterisk,dot].isPrefixOf n then labelsOk (n.drop 2) 0 dot
  else labelsOk n 0 dot

def tooShort (algorithm : String) (bits floor : Int) : Except Error Unit :=
  refuseIf (bits < floor)
    ⟨1,"policy: "++algorithm++" key too short ("++toString bits++" < "++toString floor++")"⟩

def checkKeySize (cfg : Config) (pk : PublicKey) : Except Error Unit :=
  match pk.type with
  | .rsa | .rsaPss => tooShort "RSA" pk.bits cfg.minRsaBits
  | .dsa => tooShort "DSA" pk.bits cfg.minDsaBits
  | .ec => tooShort "EC" pk.bits cfg.minEcBits
  | .ed25519 | .ed448 | .mlDsa => .ok ()
  | .other => .error ⟨1,"policy: unsupported key algorithm"⟩

/-- One step of the SAN loop. For ACME a dNSName is checked for its syntax alone. -/
def checkGeneralName (cfg : Config) (p : CertProfile) (acme : Bool) : GeneralName →
    Except Error Unit
  | .email _ => if "email" ∈ p.allowedSanTypes then .ok () else
      .error ⟨1,"policy: email SAN not permitted by profile '"++p.name++"'"⟩
  | .dns dns =>
    if "dns" ∉ p.allowedSanTypes then
      .error ⟨1,"policy: DNS SAN not permitted by profile '"++p.name++"'"⟩
    else if !dnsNameOk dns then
      .error ⟨1,"policy: SAN DNS '"++printable dns++"' is not a syntactically valid DNS name"⟩
    else if !acme && !checkCn cfg dns p.allowWildcard then
      .error ⟨1,"policy: SAN DNS '"++printable dns++"' is not in the approved domains"⟩
    else .ok ()
  | .ip address =>
    if "ip" ∉ p.allowedSanTypes then
      .error ⟨1,"policy: IP SAN not permitted by profile '"++p.name++"'"⟩
    else match cfg.allowedIps with
      | .unrestricted => .ok ()
      | .malformed => .error ⟨1,"policy: bad allowed_ips_regex config"⟩
      | .regex isMatch => if isMatch (ipToString address) then .ok () else
          .error ⟨1,"policy: SAN IP '"++ipToString address++"' is not in the approved range"⟩
  | .uri _ => if "uri" ∈ p.allowedSanTypes then .ok () else
      .error ⟨1,"policy: URI SAN not permitted by profile '"++p.name++"'"⟩
  | .otherName _ => if "othername" ∈ p.allowedSanTypes then .ok () else
      .error ⟨1,"policy: otherName SAN not permitted by profile '"++p.name++"'"⟩
  | .other type _ => .error ⟨1,"policy: unsupported SAN GeneralName type "++toString type++
      " (email, DNS, IP, URI, otherName allowed)"⟩

def checkSubjectAltName (cfg : Config) (p : CertProfile) (acme : Bool) (exts : List Extension) :
    Except Error Unit :=
  match getExt exts oidSubjectAltName with
  | none => .ok ()
  | some e =>
    match d2iSubjectAltName e with
    | none => .error ⟨1,"policy: malformed SubjectAltName"⟩
    | some names => names.forM (checkGeneralName cfg p acme)

/-- The first commonName is checked, and every name of the first subjectAltName extension. -/
def enforceIssuancePolicy (cfg : Config) (subject : Name) (pubkey : Option PublicKey)
    (exts : List Extension) (p : CertProfile) (acme : Bool) : Except Error Unit := do
  pubkey.elim (.ok ()) (checkKeySize cfg)
  refuseIf (!acme ∧ nameCn subject ≠ [] ∧ !checkCn cfg (nameCn subject) p.allowWildcard)
    ⟨1,"policy: CN '"++asText (nameCn subject)++"' is not in the approved domains"⟩
  checkSubjectAltName cfg p acme exts

end FastPki.Policy
