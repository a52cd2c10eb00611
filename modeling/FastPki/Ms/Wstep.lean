import FastPki.Auth.Subject
import FastPki.Certs.Store
import FastPki.Framework.Utf8
import FastPki.Issue.Subject
import FastPki.Ms.Template

namespace FastPki.Ms

open X509 Rbac Profile Issue Certs Policy
open Backup (MsTemplate)

def oidCertTypeV1 : Oid := "1.3.6.1.4.1.311.20.2"
def oidCertTypeV2 : Oid := "1.3.6.1.4.1.311.21.7"

/-- What is taken of OpenSSL's DER reader: the octets of a BMPString, the tag and the content of an
object that has no error, and an object identifier. -/
structure DerReader where
  bmp : Octets → Option Octets
  header : Octets → Option (Nat × Octets)
  object : Octets → Option Oid

/-- OpenSSL has no decoder for these extensions, so that their content stays octets. -/
def extOctets (e : Extension) : Octets :=
  match e.value with
  | .raw der => der
  | _ => []

/-- The octets of the first extension of this OID; empty where there is none. -/
def extDer (exts : List Extension) (oid : Oid) : Octets := ((getExt exts oid).map extOctets).getD []

/-- The low octets of a BMPString whose high octets are all zero. -/
def lowOctets : Octets → Option Octets
  | a::b::rest => if a ≠ 0 then none else (lowOctets rest).map (b::·)
  | _ => some []

def decodeBmpName (rd : DerReader) (der : Octets) : Octets :=
  ((rd.bmp der).bind lowOctets).getD []

/-- The object identifier in front of a SEQUENCE. -/
def templateOid (rd : DerReader) (der : Octets) : Option Oid :=
  (rd.header der).bind fun h => if h.1 ≠ 16 then none else (rd.object h.2).filter (· ≠ "")

/-- Its text, as far as it fits a buffer of 128 characters. -/
def decodeV2Oid (rd : DerReader) (der : Octets) : String := ((templateOid rd der).map objTxt).getD ""

/-- The name of the template that a request asks for: that of its second version, where it is known,
else what its first version says. -/
def csrRequestedTemplate (rd : DerReader) (exts : List Extension) (known : List MsTemplate) : Octets :=
  let v1 := extDer exts oidCertTypeV1
  let v2 := extDer exts oidCertTypeV2
  let name := if v1 = [] then [] else decodeBmpName rd v1
  let oid := if v2 = [] then "" else decodeV2Oid rd v2
  if oid = "" then name
  else ((known.find? (·.oid = oid)).map (octets ·.name)).getD name

def msKeyUsageBits : List (Nat × String) :=
  [0x8000,0x4000,0x2000,0x1000,0x0800,0x0400,0x0200,0x0100,0x0080].zip kuNames

def kuFromMsBitmap (ku : Nat) : List String :=
  (msKeyUsageBits.filter fun b => ku &&& b.1 ≠ 0).map (·.2)

/-- What the template lists is the default and all that is allowed. -/
def profileFromMsTemplate (t : MsTemplate) : CertProfile :=
  { CertProfile.init with
    name := t.name
    defaultKu := kuFromMsBitmap t.keyUsage
    allowedKu := (kuFromMsBitmap t.keyUsage).toFinset
    defaultEku := t.ekus
    allowedEku := t.ekus.toFinset
    validityDays := t.validityDays
    maxValidityDays := t.validityDays
    allowWildcard := false }

def msTemplateKeyRefusal (t : MsTemplate) (csr : Csr) : Option String :=
  if t.minKeySize ≤ 0 then none
  else if csr.pubkey.bits ≤ 0 then none
  else if csr.pubkey.bits ≥ t.minKeySize then none
  else some ("the key is "++toString csr.pubkey.bits++" bits and template '"++t.name++
    "' requires at least "++toString t.minKeySize)

def msNil : Int := -1

/-- The flags are a mask of 32 bits in a signed number; without any there is no grant. -/
def msTemplateEnrolleeSuppliesSubject (t : MsTemplate) : Bool :=
  if t.subjectNameFlags = msNil then false
  else (t.subjectNameFlags%4294967296).toNat &&& 1 ≠ 0

structure Server where
  ssl : Openssl
  der : DerReader
  cfg : IssueConfig
  rbac : RbacDb
  templates : List MsTemplate
  caUrlsForInstance : String → CaUrls

/-- `auth_user`, `role` and `groups` of the caller. -/
abbrev Caller := ProfileIdentity

/-- Where the template does not leave the name to the enrollee, it is the caller's. -/
def identityBinding (t : MsTemplate) (user : String) : IdentityBinding :=
  if msTemplateEnrolleeSuppliesSubject t then { }
  else { subjectCn := Auth.subjectUser (octets user)
         subjectDomain := Auth.subjectProvider (octets user)
         replaceSubject := true }

def issueArgs (srv : Server) (ca : String) (t : MsTemplate) (user : String) : IssueArgs where
  profile := profileFromMsTemplate t
  acme := false
  owner := user
  passthroughExtOids := [oidCertTypeV1,oidCertTypeV2]
  caUrls := some (srv.caUrlsForInstance ca)
  omitAia := false
  omitCrldp := false
  attestedSerial := []

/-- The limits of the caller's roles; without a caller there is nobody to limit. -/
def limitGate (srv : Server) (certs : List StoredCert) (who : Caller) (csr : Csr) :
    Except Error (Option Int) :=
  if who.username = "" then .ok none
  else
    let lim := roleLimits srv.rbac who.username who.role who.groups
    match roleLimitRefusal certs lim who.username (nameCn csr.subject) (csrSans csr).card with
    | some why => .error ⟨1,why⟩
    | none => .ok lim.maxCerts

/-- The refusal of a name that is no text, and so no template's. -/
def unnamedTemplate (srv : Server) (who : Caller) (want : Octets) : Except Error MsTemplate :=
  if templatesForIdentity srv.rbac.reader who srv.templates = [] then
    resolveMsTemplate srv.rbac.reader who "" srv.templates
  else .error ⟨1,"policy: MS template '"++asText want++"' is not permitted for this identity"⟩

/-- The template a request is issued under. -/
def templateFor (srv : Server) (who : Caller) (csr : Csr) : Except Error MsTemplate :=
  let want := csrRequestedTemplate srv.der csr.extensions srv.templates
  (textOf want).elim (unnamedTemplate srv who want) fun requested =>
    resolveMsTemplate srv.rbac.reader who requested srv.templates

/-- The WSTEP endpoint, once the caller is authenticated and the request is parsed: the certificate
and the template it is issued under. -/
def wstepIssue (srv : Server) (env : Env) (certs : List StoredCert) (caCert : CaCert) (ca : String)
    (who : Caller) (csr : Csr) : Except Error (MsTemplate × Cert) := do
  let cap ← limitGate srv certs who csr
  let t ← templateFor srv who csr
  (msTemplateKeyRefusal t csr).elim (.ok ()) fun why => .error ⟨1,why⟩
  let cert ← issueCertBound srv.ssl srv.cfg caCert env csr (identityBinding t who.username)
    (issueArgs srv ca t who.username)
  let stored ← insertUnderCap certs (issuedRow cert who.username ca) cap
  refuseIf (stored = none) ⟨1,"Issuance limit reached"⟩
  return (t,cert)

section

variable {srv : Server} {env : Env} {certs : List StoredCert} {caCert : CaCert} {ca : String}
  {who : Caller} {csr : Csr} {t : MsTemplate} {c : Cert}

/-- What a certificate of this endpoint has passed. -/
theorem wstepIssue_eq_ok_iff :
    wstepIssue srv env certs caCert ca who csr=.ok (t,c) ↔
      ∃ cap,limitGate srv certs who csr=.ok cap ∧ templateFor srv who csr=.ok t ∧
        msTemplateKeyRefusal t csr=none ∧
        issueCertBound srv.ssl srv.cfg caCert env csr (identityBinding t who.username)
          (issueArgs srv ca t who.username)=.ok c ∧
        ∃ out,insertUnderCap certs (issuedRow c who.username ca) cap=.ok (some out) := by
  have hrefusal : ∀ o : Option String,
      o.elim (Except.ok ()) (fun why => Except.error (⟨1,why⟩ : Error))=.ok () ↔ o=none := by
    intro o
    cases o <;> simp
  simp only [wstepIssue,bind_eq_ok_iff,refuseIf_eq_ok_iff]
  constructor
  · intro h
    obtain ⟨cap,hcap,t',ht,_,hkey,c',hc,stored,hstored,_,hsome,hpair⟩ := h
    have heq := Except.ok.inj hpair
    have htt : t'=t := congrArg Prod.fst heq
    have hcc : c'=c := congrArg Prod.snd heq
    subst htt
    subst hcc
    cases stored with
    | none => exact absurd rfl hsome
    | some out => exact ⟨cap,hcap,ht,(hrefusal _).mp hkey,hc,out,hstored⟩
  · intro h
    obtain ⟨cap,hcap,ht,hkey,hc,out,hstored⟩ := h
    refine ⟨cap,hcap,t,ht,(),(hrefusal _).mpr hkey,c,hc,some out,hstored,(),?_,rfl⟩
    simp

theorem issueCertBound_eq_ok_iff {ssl : Openssl} {cfg : IssueConfig} {b : IdentityBinding}
    {a : IssueArgs} : issueCertBound ssl cfg caCert env csr b a=.ok c ↔
      ∃ subject,boundSubject b csr.subject=.ok subject ∧
        issueCertFromParts ssl cfg caCert env subject (some csr.pubkey)
          (boundExts b csr.extensions) a=.ok c := by
  rw [issueCertBound,bind_eq_ok_iff]

/-- A request that is answered with a certificate is one that `issue_cert_from_parts` took. -/
theorem issued_of_wstepIssue (h : wstepIssue srv env certs caCert ca who csr=.ok (t,c)) :
    ∃ subject,boundSubject (identityBinding t who.username) csr.subject=.ok subject ∧
      Nonempty (Issued srv.ssl srv.cfg caCert env subject (some csr.pubkey)
        (boundExts (identityBinding t who.username) csr.extensions)
        (issueArgs srv ca t who.username) c) := by
  obtain ⟨_,_,_,_,hissue,_⟩ := wstepIssue_eq_ok_iff.mp h
  obtain ⟨subject,hsubject,hparts⟩ := issueCertBound_eq_ok_iff.mp hissue
  exact ⟨subject,hsubject,issueCertFromParts_issued hparts⟩

end

/-- The arcs behind the first octet of an object identifier, seven bits an octet. -/
def oidArcs : Nat → Octets → List Nat
  | _,[] => []
  | n,b::rest => if b < 0x80 then (n*128+b.toNat)::oidArcs 0 rest
      else oidArcs (n*128+(b.toNat-128)) rest

/-- OpenSSL's reader on objects of less than 128 octets. -/
def shortDer : DerReader where
  bmp
    | 0x1e::n::rest => if n < 0x80 ∧ n.toNat ≤ rest.length then some (rest.take n.toNat) else none
    | _ => none
  header
    | tag::n::rest => if n < 0x80 ∧ n.toNat ≤ rest.length then
        some ((tag &&& 0x1f).toNat,rest.take n.toNat) else none
    | _ => none
  object
    | 0x06::n::a::rest => if n < 0x80 ∧ 1 ≤ n.toNat ∧ n.toNat ≤ rest.length+1 then
        some (".".intercalate (([a.toNat/40,a.toNat%40]++oidArcs 0 (rest.take (n.toNat-1))).map
          toString)) else none
    | _ => none

/-- A directory account that may use one of the templates. -/
def directoryDb : RbacDb where
  roles := [⟨"clerk",none,none,none⟩]
  rolePermissions := [⟨"clerk","template:use","User"⟩]
  webUsers := []
  subjectRoles := [⟨"user","dir\\alice","clerk"⟩]

def userTemplate : MsTemplate :=
  { name := "User",oid := "1.3.6.1.4.1.311.21.8.2",ekus := ["clientAuth"],subjectNameFlags := -1 }

def wstepServer : Server where
  ssl := tlsObjects
  der := shortDer
  cfg := leafConfig
  rbac := directoryDb
  templates := [{ name := "Computer",oid := "1.3.6.1.4.1.311.21.8.1" },userTemplate]
  caUrlsForInstance := fun _ => ⟨[],[],[]⟩

def rsaKey : PublicKey := ⟨.rsa,2048,[3,1,2],false⟩

/-- The first version of the extension, for the template `User`. -/
def userV1 : Extension :=
  ⟨oidCertTypeV1,false,.raw [0x1e,8,0,0x55,0,0x73,0,0x65,0,0x72]⟩

/-- The second version, for the template with this last arc. -/
def templateV2 (arc : UInt8) : Extension :=
  ⟨oidCertTypeV2,false,.raw
    [0x30,15,0x06,10,0x2b,6,1,4,1,0x82,0x37,0x15,8,arc,0x02,1,100]⟩

/-- A certificate for `dir\alice` with these purposes and these extensions of the request. -/
def aliceCert (ku : List Nat) (eku copied : List Extension) : Cert :=
  ⟨"1f",[⟨commonName,⟨.utf8,octets "alice"⟩⟩,⟨domainComponent,⟨.ia5,octets "dir"⟩⟩],
    issuingCa.subject,rsaKey,700,63073000,
    ⟨oidBasicConstraints,true,.text "CA:FALSE"⟩::⟨oidKeyUsage,true,.keyUsage ku⟩::eku++
      [⟨oidSubjectKeyIdentifier,false,.text "hash"⟩,
        ⟨oidAuthorityKeyIdentifier,false,.text "keyid:always"⟩]++copied++
      [⟨oidSubjectDirectoryAttributes,false,.text "dir\\alice"⟩]⟩

def clientAuthExt : Extension := ⟨oidExtKeyUsage,false,.extKeyUsage ["1.3.6.1.5.5.7.3.2"]⟩

/-- The request of `dir\alice`, at a moment at which everything is at hand. -/
def aliceRequest (csr : Csr) : Except Error (MsTemplate × Cert) :=
  wstepIssue wstepServer ⟨1000,"1f",.ok ()⟩ [] issuingCa "east" ⟨"dir\\alice","",[]⟩ csr

end FastPki.Ms
