import FastPki.Policy.Issuance
import FastPki.Profile.Evaluate
import FastPki.X509.Time
import Mathlib.Data.Finset.Lattice.Fold

namespace FastPki.Issue

open FastPki.X509 FastPki.Profile FastPki.Policy

structure CaUrls where
  caIssuers : List String
  ocsp : List String
  crl : List String

structure IssueConfig extends Config where
  certValidityDays : Int
  caUrls : CaUrls
  certProfiles : List (String × CertProfile)

/-- The signing certificate. Without a key identifier of its own it cannot be named in the
certificates it signs. -/
structure CaCert where
  subject : Name
  notAfter : Int
  hasKeyId : Bool

structure Cert where
  serial : String
  subject : Name
  issuer : Name
  pubkey : PublicKey
  notBefore : Int
  notAfter : Int
  extensions : List Extension
  deriving DecidableEq

/-- What one issuance takes from outside: the clock, the random serial and the signer. -/
structure Env where
  now : Int
  serial : String
  sign : Except Error Unit

def clockSkewBackdateSec : Int := 300

def containsLineBreak (s : String) : Bool := '\n' ∈ s.toList || '\r' ∈ s.toList

def stripSpaces (s : String) : String :=
  stripOf [' ','\t','\n','\r','\x0b','\x0c'] s

/-- A list text is read name by name unless it breaks the line or its first item introduces
another syntax. -/
def plainList (is : List String) : Bool :=
  is.all (fun i => !containsLineBreak i) &&
    match is with
    | [] => true
    | i::_ => let s := (stripSpaces i).toList
      !("DER:".toList.isPrefixOf s) && !("ASN1:".toList.isPrefixOf s) && !("@".toList.isPrefixOf s)

/-- An item of a list text is `name` or `name:value`; neither part may be empty. -/
def splitItem (i : String) : Option (String × Option String) :=
  let name := stripSpaces (String.ofList (i.toList.takeWhile (· ≠ ':')))
  if name = "" then none
  else if ':' ∈ i.toList then
    let value := stripSpaces (String.ofList ((i.toList.dropWhile (· ≠ ':')).drop 1))
    if value = "" then none else some (name,some value)
  else some (name,none)

/-- Both names of a bit are read; a value after it is not looked at. -/
def kuBit (i : String) : Option Nat :=
  (splitItem i).bind fun nv =>
    ((kuNames.zip kuLongNames).zipIdx.find? fun n => n.1.1 = nv.1 ∨ n.1.2 = nv.1).map (·.2)

/-- Where an item has a value, the value is the purpose. -/
def ekuPurpose (ssl : Openssl) (i : String) : Option Oid :=
  (splitItem i).bind fun nv => ssl.txt2obj (nv.2.getD nv.1)

/-- `critical` counts only where a list follows it. -/
def splitCritical (is : List String) : Bool × List String :=
  match is with
  | "critical"::i::rest => (true,i::rest)
  | is => (false,is)

def confExt (ssl : Openssl) (oid : Oid) (read : List String → Option ExtValue) (is : List String) :
    Except Error (List Extension) :=
  if is = [] then .ok []
  else
    let cr := splitCritical is
    let value := if plainList cr.2 then read cr.2 else ssl.genericExt oid cr.2
    match value with
    | some v => .ok [⟨oid,cr.1,v⟩]
    | none => .error ⟨2,"X509V3_EXT_conf_nid failed for "++oid⟩

def canEncipher (pk : PublicKey) : Bool := pk.type = .rsa

/-- The items of a key usage text that suit the key; any other key than plain RSA drops the two
encipherment bits by name. -/
def keyUsageForKey (ku : List String) (pk : PublicKey) : List String :=
  if canEncipher pk then ku
  else (ku.map (stripOf [' ','\t'])).filter fun t =>
    Rbac.lower t ≠ "keyencipherment" ∧ Rbac.lower t ≠ "dataencipherment" ∧ t ≠ ""

def usageExts (ssl : Openssl) (pe : ProfileExtensions) (pk : PublicKey) :
    Except Error (List Extension) := do
  let ku ← confExt ssl oidKeyUsage (fun is => (is.mapM kuBit).map .keyUsage)
    (keyUsageForKey pe.keyUsage pk)
  let eku ← confExt ssl oidExtKeyUsage (fun is => (is.mapM (ekuPurpose ssl)).map .extKeyUsage)
    pe.extKeyUsage
  return ku++eku

/-- Which extensions of a request the caller and the profile let through. -/
structure Passthrough where
  oids : Finset String
  any : Bool

def eligible (pass : Passthrough) (oid : Oid) : Bool :=
  (pass.any || objTxt oid ∈ pass.oids) && oid ≠ oidSubjectDirectoryAttributes &&
    oid ≠ oidInfoAccess && oid ≠ oidCrlDistributionPoints

def copyStep (pass : Passthrough) (cert : List Extension) (e : Extension) : List Extension :=
  if eligible pass e.oid && !hasExt cert e.oid then cert++[e] else cert

def copyExtsByOid (pass : Passthrough) (cert exts : List Extension) : List Extension :=
  exts.foldl (copyStep pass) cert

def dnsName : GeneralName → Option Octets
  | .dns name => some name
  | _ => none

def firstDnsSan (exts : List Extension) : Octets :=
  ((subjectAltNamesOf exts).findSome? dnsName).getD []

/-- `X509_NAME_add_entry_by_NID` for a commonName: one to 64 characters of UTF-8. -/
def addCommonName (n : Name) (text : Octets) : Option Name :=
  match ByteArray.utf8Decode? ⟨⟨cString text⟩⟩ with
  | none => none
  | some cs => if 1 ≤ cs.size ∧ cs.size ≤ 64 then some (n++[⟨commonName,⟨.utf8,cString text⟩⟩])
      else none

/-- A request without a subject is named after its first DNS name, where that can be encoded. -/
def issuedSubject (subject : Name) (exts : List Extension) : Name :=
  if subject = [] ∧ firstDnsSan exts ≠ [] then (addCommonName [] (firstDnsSan exts)).getD []
  else subject

def copySan (exts : List Extension) (makeCritical : Bool) : List Extension :=
  ((getExt exts oidSubjectAltName).map fun e => { e with critical := makeCritical }).toList

/-- The permanentIdentifier joins the names that are there, or starts a new extension. -/
def addPermanentIdentifier (cert : List Extension) (value : Octets) (makeCritical : Bool) :
    Except Error (List Extension) :=
  if value = [] ∨ value.length > 100 then
    .error ⟨1,"an attested serial number of "++toString value.length++
      " characters cannot be a permanentIdentifier"⟩
  else
    let names := subjectAltNamesOf cert ++ [.otherName value]
    let critical := (getExt cert oidSubjectAltName).elim makeCritical (·.critical)
    .ok (cert.eraseP (·.oid = oidSubjectAltName) ++
      [⟨oidSubjectAltName,critical,.subjectAltName names⟩])

def carriesOcspNocheck (ssl : Openssl) (p : CertProfile) (pass : Passthrough)
    (exts : List Extension) : Bool :=
  p.customExtensions.any (fun x => ssl.txt2obj x.oid = some oidOcspNoCheck) ||
    (hasExt exts oidOcspNoCheck &&
      (pass.any || decide (∃ o∈pass.oids,ssl.txt2obj o = some oidOcspNoCheck)))

def urlExts (p : CertProfile) (urls : CaUrls) (nocheck omitAia omitCrldp : Bool) :
    List Extension :=
  let aia := urls.caIssuers.map ("caIssuers;URI:"++·) ++ urls.ocsp.map ("OCSP;URI:"++·)
  let crldp := urls.crl.map ("URI:"++·)
  (if nocheck || (p.manageAia && omitAia) || aia = [] then [] else
    [⟨oidInfoAccess,false,.text (",".intercalate aia)⟩]) ++
  (if nocheck || (p.manageCrldp && omitCrldp) || crldp = [] then [] else
    [⟨oidCrlDistributionPoints,false,.text (",".intercalate crldp)⟩])

/-- What `add_ext_oid` hands to OpenSSL: an empty value is an ASN.1 NULL. -/
def stampSpec (x : CustomExt) : String :=
  (if x.critical then "critical," else "")++(if x.value = "" then "DER:05:00" else x.value)

def stampStep (ssl : Openssl) (cert : List Extension) (x : CustomExt) :
    Except Error (List Extension) :=
  if x.oid = "" then .ok cert
  else match ssl.txt2objDotted x.oid with
    | none => .error ⟨1,"custom extension: bad OID '"++x.oid++"'"⟩
    | some oid =>
      if hasExt cert oid then .ok cert
      else match ssl.nconf oid (stampSpec x) with
        | none => .error ⟨1,"custom extension '"++x.oid++"'"⟩
        | some cv => .ok (cert++[⟨oid,cv.1,cv.2⟩])

def ownerExts (owner : String) : List Extension :=
  if owner = "" then [] else [⟨oidSubjectDirectoryAttributes,false,.text owner⟩]

/-- An RSA-PSS key is published under its own algorithm, with its restrictions. -/
def publishedKey (pk : PublicKey) : PublicKey :=
  if pk.type = .rsaPss then { pk with pssRestricted := true } else pk

def validityDaysOf (cfg : IssueConfig) (p : CertProfile) : Int :=
  let stated := if p.validityDays > 0 then p.validityDays else cfg.certValidityDays
  if p.maxValidityDays > 0 ∧ p.maxValidityDays < stated then p.maxValidityDays else stated

def notAfterOf (cfg : IssueConfig) (ca : CaCert) (p : CertProfile) (now : Int) : Int :=
  min (now+60*60*24*validityDaysOf cfg p) ca.notAfter

/-- The arguments of `issue_cert_from_parts` that are not the request itself. -/
structure IssueArgs where
  profile : CertProfile
  acme : Bool
  owner : String
  passthroughExtOids : List String
  caUrls : Option CaUrls
  omitAia : Bool
  omitCrldp : Bool
  attestedSerial : Octets

def passthrough (a : IssueArgs) : Passthrough :=
  ⟨a.passthroughExtOids.toFinset ∪ a.profile.allowedCustomExtensions.erase "*",
    "*" ∈ a.profile.allowedCustomExtensions⟩

/-- The extensions the CA writes itself before it looks at the names of the request. -/
def writtenBase (acme : Bool) (usage : List Extension) : List Extension :=
  [⟨oidBasicConstraints,true,.text "CA:FALSE"⟩] ++ usage ++
    [⟨oidSubjectKeyIdentifier,false,.text "hash"⟩,
      ⟨oidAuthorityKeyIdentifier,false,.text "keyid:always"⟩] ++
    (if acme then [⟨oidCertificatePolicies,false,.text "2.23.140.1.2.1"⟩] else [])

def writtenExts (acme : Bool) (usage exts : List Extension) (subject : Name) : List Extension :=
  writtenBase acme usage ++ copySan exts (subject = [])

def withDeviceSerial (a : IssueArgs) (cert : List Extension) (subject : Name) :
    Except Error (List Extension) :=
  if a.attestedSerial ≠ [] ∧ a.profile.deviceSerialSan then
    addPermanentIdentifier cert a.attestedSerial (subject = [])
  else .ok cert

def issueCertFromParts (ssl : Openssl) (cfg : IssueConfig) (ca : CaCert) (env : Env)
    (subject : Name) (pubkey : Option PublicKey) (exts : List Extension) (a : IssueArgs) :
    Except Error Cert := do
  enforceIssuancePolicy cfg.toConfig subject pubkey exts a.profile a.acme
  let pe ← evaluateProfileExtensions ssl a.profile exts
  let subject := issuedSubject subject exts
  let pk ← requireSome pubkey ⟨1,"issuance: missing public key"⟩
  refuseIf (gmtimeAdj env.now (-clockSkewBackdateSec) = none) ⟨2,"notBefore adj failed"⟩
  refuseIf (gmtimeAdj env.now (60*60*24*validityDaysOf cfg a.profile) = none)
    ⟨2,"notAfter adj failed"⟩
  let usage ← usageExts ssl pe pk
  refuseIf (!ca.hasKeyId) ⟨2,"X509V3_EXT_conf_nid failed for "++oidAuthorityKeyIdentifier⟩
  let cert ← withDeviceSerial a (writtenExts a.acme usage exts subject) subject
  let copied := copyExtsByOid (passthrough a) cert exts
  let nocheck := carriesOcspNocheck ssl a.profile (passthrough a) exts
  let urls := urlExts a.profile (a.caUrls.getD cfg.caUrls) nocheck a.omitAia a.omitCrldp
  let stamped ← a.profile.customExtensions.foldlM (stampStep ssl) (copied ++ urls)
  let final := stamped ++ ownerExts a.owner
  refuseIf (subject = [] ∧ !hasExt final oidSubjectAltName)
    ⟨1,"issuance: refusing to sign a certificate with an empty subject and no "++
      "subjectAltName — it would identify nobody. The template grants "++
      "enrollee-supplies-subject and the request named nothing; send a subject or a "++
      "subjectAltName, or use a template where the CA builds the name."⟩
  env.sign
  return ⟨env.serial,subject,ca.subject,publishedKey pk,env.now-clockSkewBackdateSec,
    notAfterOf cfg ca a.profile env.now,final⟩

/-- What a certificate that was issued is made of. -/
structure Issued (ssl : Openssl) (cfg : IssueConfig) (ca : CaCert) (env : Env) (subject : Name)
    (pubkey : Option PublicKey) (exts : List Extension) (a : IssueArgs) (c : Cert) where
  pe : ProfileExtensions
  pk : PublicKey
  usage : List Extension
  cert : List Extension
  stamped : List Extension
  policy : enforceIssuancePolicy cfg.toConfig subject pubkey exts a.profile a.acme=.ok ()
  evaluated : evaluateProfileExtensions ssl a.profile exts=.ok pe
  key : pubkey=some pk
  usages : usageExts ssl pe pk=.ok usage
  written : withDeviceSerial a (writtenExts a.acme usage exts (issuedSubject subject exts))
    (issuedSubject subject exts)=.ok cert
  stamps : a.profile.customExtensions.foldlM (stampStep ssl)
    (copyExtsByOid (passthrough a) cert exts ++ urlExts a.profile (a.caUrls.getD cfg.caUrls)
      (carriesOcspNocheck ssl a.profile (passthrough a) exts) a.omitAia a.omitCrldp)=.ok stamped
  eq : c=⟨env.serial,issuedSubject subject exts,ca.subject,publishedKey pk,
    env.now-clockSkewBackdateSec,notAfterOf cfg ca a.profile env.now,stamped++ownerExts a.owner⟩

theorem issueCertFromParts_issued {ssl : Openssl} {cfg : IssueConfig} {ca : CaCert} {env : Env}
    {subject : Name} {pubkey : Option PublicKey} {exts : List Extension} {a : IssueArgs} {c : Cert}
    (h : issueCertFromParts ssl cfg ca env subject pubkey exts a=.ok c) :
    Nonempty (Issued ssl cfg ca env subject pubkey exts a c) := by
  simp only [issueCertFromParts] at h
  simp only [bind_eq_ok_iff,requireSome_eq_ok_iff] at h
  obtain ⟨_,hpol,pe,hpe,pk,hpk,_,_,_,_,usage,husage,_,_,cert,hcert,stamped,hstamped,_,_,_,_,hc⟩ := h
  exact ⟨pe,pk,usage,cert,stamped,hpol,hpe,hpk,husage,hcert,hstamped,(Except.ok.inj hc).symm⟩

end FastPki.Issue
