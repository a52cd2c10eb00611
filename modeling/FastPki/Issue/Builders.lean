import FastPki.Issue.Leaf

namespace FastPki.Issue

open FastPki.X509 FastPki.Profile FastPki.Policy

structure CaCertParams where
  subjectDn : String
  notBefore : Int
  notAfter : Int
  neverExpire : Bool
  pathlen : Int
  keyUsage : List String
  permitted : List String
  excluded : List String
  crldp : List String
  aiaIssuers : List String
  aiaOcsp : List String
  policies : List String
  md : String

/-- What a builder takes from outside: the clock, the random serial, the signer, OpenSSL's digests
and extension texts, and the helpers that read names. -/
structure Workshop where
  now : Int
  serial : String
  sign : Except Error Unit
  digestByName : String → Option String
  txt2objDotted : String → Option Oid
  extConfNid : Cert → Cert → Oid → String → Option Extension
  buildName : String → Except Error Name
  ncNormalizeIp : String → Except Error String
  generalNameOf : String → Except Error String

def oidNameConstraints : Oid := "2.5.29.30"

def join (texts : List String) (before sep : String) : String :=
  sep.intercalate (texts.map (before++·))

section Build

variable (w : Workshop)

/-- An empty text writes nothing; the issuer and the certificate are the context of the others. -/
def addExtText (issuer cert : Cert) (oid : Oid) (val : String) : Except Error Cert :=
  if val = "" then .ok cert
  else (w.extConfNid issuer cert oid val).elim
    (.error ⟨2,"X509V3_EXT_conf_nid failed for "++oid⟩)
    fun e => .ok { cert with extensions := cert.extensions++[e] }

/-- Texts written one after the other. -/
def addExtTexts (issuer : Option Cert) (cert : Cert) (texts : List (Oid × String)) :
    Except Error Cert :=
  texts.foldlM (fun c t => addExtText w (issuer.getD c) c t.1 t.2) cert

def clampNotAfterToIssuer (cert : Cert) : Option Cert → Cert
  | none => cert
  | some issuer =>
    if asn1TimeCompare cert.notAfter issuer.notAfter ≠ 1 then cert
    else { cert with notAfter := issuer.notAfter }

def buildCaCertificateUnsigned (subjectKey : Option PublicKey) (subjectDn : String) (days : Int)
    (issuer : Option Cert) : Except Error Cert := do
  let key ← requireSome subjectKey ⟨1,"create_ca: missing subject key"⟩
  let subject ← w.buildName subjectDn
  let notBefore ← requireSome (gmtimeAdj w.now (-clockSkewBackdateSec)) ⟨2,"validity adj failed"⟩
  let notAfter ← requireSome (gmtimeAdj w.now (60*60*24*days)) ⟨2,"validity adj failed"⟩
  let cert := clampNotAfterToIssuer
    ⟨w.serial,subject,(issuer.map (·.subject)).getD subject,publishedKey key,notBefore,notAfter,[]⟩
    issuer
  addExtTexts w issuer cert [(oidBasicConstraints,"critical,CA:TRUE"),
    (oidKeyUsage,"critical,keyCertSign,cRLSign"),(oidSubjectKeyIdentifier,"hash"),
    (oidAuthorityKeyIdentifier,"keyid:always")]

def createCaCertificate (subjectKey : Option PublicKey) (subjectDn : String) (days : Int)
    (issuer : Option Cert) : Except Error Cert := do
  let cert ← buildCaCertificateUnsigned w subjectKey subjectDn days issuer
  w.sign
  return cert

/-- An RSA-PSS key is restricted to the digest that is asked for, which must be a SHA-1 or SHA-2. -/
def checkRestriction (key : PublicKey) (md : String) : Except Error Unit :=
  refuseIf (key.type = .rsaPss ∧ ∀ n∈w.digestByName (if md = "" then "sha256" else md),
      n ∉ ["sha1","sha224","sha256","sha384","sha512"])
    ⟨1,"RSA-PSS key with --md '"++md++
      "': the SPKI restriction digest must be sha256, sha384 or "++
      "sha512 — OpenSSL cannot encode id-RSASSA-PSS MGF1 "++
      "parameters with SHA-3 digests, and an RFC 4055 restriction "++
      "must match the signature digest, so no certificate can "++
      "carry this combination."⟩

def notBeforeAsked (p : CaCertParams) : Except Error Int :=
  if p.notBefore > 0 then requireSome (asn1TimeSet p.notBefore) ⟨2,"notBefore set failed"⟩
  else requireSome (gmtimeAdj w.now (-clockSkewBackdateSec)) ⟨2,"notBefore adj failed"⟩

/-- `99991231235959Z` for a CA that never expires, the date asked for, or ten years. -/
def notAfterAsked (p : CaCertParams) : Except Error Int :=
  if p.neverExpire then .ok maxTime
  else if p.notAfter > 0 then requireSome (asn1TimeSet p.notAfter) ⟨2,"notAfter set failed"⟩
  else requireSome (gmtimeAdj w.now (60*60*24*3650)) ⟨2,"notAfter adj failed"⟩

def caTexts (p : CaCertParams) (constraints : List String) : List (Oid × String) :=
  let ku := if p.keyUsage = [] then "keyCertSign,cRLSign" else join p.keyUsage "" ","
  let aia := p.aiaIssuers.map ("caIssuers;URI:"++·)++p.aiaOcsp.map ("OCSP;URI:"++·)
  [(oidBasicConstraints,"critical,CA:TRUE"++
      (if p.pathlen ≥ 0 then ",pathlen:"++toString p.pathlen else "")),
    (oidKeyUsage,"critical,"++ku),(oidSubjectKeyIdentifier,"hash"),
    (oidAuthorityKeyIdentifier,"keyid:always")]++
  (if constraints = [] then []
    else [(oidNameConstraints,"critical,"++join constraints "" ",")])++
  (if aia = [] then [] else [(oidInfoAccess,join aia "" ",")])++
  (if p.crldp = [] then [] else [(oidCrlDistributionPoints,join p.crldp "URI:" ",")])

/-- Blank policies are skipped; where none is left there is no extension. -/
def addCertificatePolicies (cert : Cert) (policies : List String) : Except Error Cert := do
  let named := (policies.map (stripOf [' ','\t'])).filter (· ≠ "")
  let oids ← named.mapM fun t =>
    requireSome (w.txt2objDotted t) ⟨1,"certificatePolicies: '"++t++"' is not a dotted OID"⟩
  if oids = [] then return cert
  else return { cert with extensions := cert.extensions++
    [⟨oidCertificatePolicies,false,.text (join oids "" ",")⟩] }

def buildCaCertificateEx (subjectKey : Option PublicKey) (p : CaCertParams) (issuer : Option Cert) :
    Except Error Cert := do
  let key ← requireSome subjectKey ⟨1,"create_ca: missing subject key"⟩
  let subject ← w.buildName p.subjectDn
  checkRestriction w key p.md
  let notBefore ← notBeforeAsked w p
  let notAfter ← notAfterAsked w p
  let cert := clampNotAfterToIssuer
    ⟨w.serial,subject,(issuer.map (·.subject)).getD subject,publishedKey key,notBefore,notAfter,[]⟩
    issuer
  let permitted ← p.permitted.mapM fun e => (w.ncNormalizeIp e).map ("permitted;"++·)
  let excluded ← p.excluded.mapM fun e => (w.ncNormalizeIp e).map ("excluded;"++·)
  let cert ← addExtTexts w issuer cert (caTexts p (permitted++excluded))
  addCertificatePolicies w cert p.policies

def createCaCertificateEx (subjectKey : Option PublicKey) (p : CaCertParams) (issuer : Option Cert) :
    Except Error Cert := do
  let cert ← buildCaCertificateEx w subjectKey p issuer
  w.sign
  return cert

/-- The extensions that describe the CA replace those of the same kind; the key identifiers never
do, and the addresses only where they are not kept. -/
def copyCaIdentityExts (dst src : Cert) (keepDstUrls : Bool) : Cert :=
  src.extensions.foldl (fun dst e =>
    if e.oid = oidSubjectKeyIdentifier ∨ e.oid = oidAuthorityKeyIdentifier then dst
    else if keepDstUrls ∧ (e.oid = oidInfoAccess ∨ e.oid = oidCrlDistributionPoints) then dst
    else { dst with extensions := dst.extensions.filter (·.oid ≠ e.oid)++[e] }) dst

def crossSignCa (signerCert : Option Cert) (signerKey : Bool) (subjectPubkey : Option PublicKey)
    (p : CaCertParams) : Except Error Cert := do
  let signer ← requireSome signerCert ⟨1,"cross_sign_ca: no signing CA certificate"⟩
  refuseIf (!signerKey) ⟨1,"cross_sign_ca: no signing CA key"⟩
  refuseIf (subjectPubkey = none) ⟨1,"cross_sign_ca: no key to certify"⟩
  let cert ← buildCaCertificateEx w subjectPubkey p (some signer)
  let cert := copyCaIdentityExts { cert with subject := signer.subject } signer false
  w.sign
  return cert

def renewCaCertificate (currentCert : Option Cert) (subjectPubkey : Option PublicKey)
    (issuer : Option Cert) (issuerKey : Bool) (p : CaCertParams) : Except Error Cert := do
  let current ← requireSome currentCert ⟨1,"renew_ca_certificate: no current CA certificate"⟩
  refuseIf (subjectPubkey = none) ⟨1,"renew_ca_certificate: no key to certify"⟩
  refuseIf (!issuerKey) ⟨1,"renew_ca_certificate: no signing key"⟩
  let cert ← buildCaCertificateEx w subjectPubkey p issuer
  let cert := { cert with
    subject := current.subject
    issuer := if issuer = none then current.subject else cert.issuer }
  let cert := copyCaIdentityExts cert current true
  w.sign
  return cert

/-- `foreignIsCa` is `X509_check_ca` of the foreign certificate. -/
def crossSignForeignCa (signerCert : Option Cert) (signerKey : Bool) (foreignCert : Option Cert)
    (foreignIsCa : Bool) (p : CaCertParams) : Except Error Cert := do
  let signer ← requireSome signerCert ⟨1,"cross_sign_foreign_ca: no signing CA certificate"⟩
  refuseIf (!signerKey) ⟨1,"cross_sign_foreign_ca: no signing CA key"⟩
  let foreign ← requireSome foreignCert ⟨1,"cross_sign_foreign_ca: no foreign CA certificate"⟩
  refuseIf (p.permitted = []) ⟨1,"cross_sign_foreign_ca: refusing to cross-sign without name "++
    "constraints — a cross-certificate with no permitted subtrees "++
    "lets the foreign CA certify any name at all"⟩
  refuseIf (p.pathlen < 0) ⟨1,"cross_sign_foreign_ca: refusing to cross-sign without an explicit "++
    "pathlen — omitting it lets the foreign CA create further CAs under our trust"⟩
  refuseIf (!foreignIsCa) ⟨1,"cross_sign_foreign_ca: the certificate to cross-sign is not a CA"⟩
  let cert ← buildCaCertificateEx w (some foreign.pubkey) p (some signer)
  w.sign
  return { cert with subject := foreign.subject }

/-- The addresses of the issuing CA; a failure here is swallowed, with what was written so far. -/
def addUrls (ca cert : Cert) (urls : Except Error CaUrls) : Cert :=
  match urls with
  | .error _ => cert
  | .ok urls =>
    let aia := urls.ocsp.map ("OCSP;URI:"++·)++urls.caIssuers.map ("caIssuers;URI:"++·)
    match addExtText w ca cert oidInfoAccess (join aia "" ",") with
    | .error _ => cert
    | .ok cert => (addExtText w ca cert oidCrlDistributionPoints
        (join urls.crl "URI:" ",")).toOption.getD cert

structure TlsRequest where
  cn : String
  dnsSans : List String
  days : Int
  like : Option Cert
  urls : Except Error CaUrls

/-- The names of the certificate that is renewed, or those of the configuration. -/
def addTlsNames (ca cert : Cert) (r : TlsRequest) : Except Error Cert :=
  match r.like.bind fun c => getExt c.extensions oidSubjectAltName with
  | some e => .ok { cert with extensions := cert.extensions++[e] }
  | none => do
    let sans ← (if r.dnsSans = [] then [r.cn] else r.dnsSans).mapM w.generalNameOf
    addExtText w ca cert oidSubjectAltName (join sans "" ",")

def caIssueTlsCert (caCert : Option Cert) (caKey : Bool) (key : Option PublicKey) (r : TlsRequest) :
    Except Error Cert := do
  let ca ← requireSome caCert ⟨2,"ca_issue_tls_cert: missing material"⟩
  refuseIf (!caKey) ⟨2,"ca_issue_tls_cert: missing material"⟩
  let key ← requireSome key ⟨2,"ca_issue_tls_cert: missing material"⟩
  let subject ← w.buildName ("/CN="++r.cn)
  let notBefore ← requireSome (gmtimeAdj w.now (-clockSkewBackdateSec)) ⟨2,"validity adj failed"⟩
  let notAfter ← requireSome (gmtimeAdj w.now (60*60*24*r.days)) ⟨2,"validity adj failed"⟩
  let cert : Cert := ⟨w.serial,(r.like.map (·.subject)).getD subject,ca.subject,key,notBefore,
    notAfter,[]⟩
  let rsa := key.type = .rsa ∨ key.type = .rsaPss
  let cert ← addExtTexts w (some ca) cert [(oidBasicConstraints,"critical,CA:FALSE"),
    (oidKeyUsage,if rsa then "critical,digitalSignature,keyEncipherment"
      else "critical,digitalSignature"),
    (oidExtKeyUsage,"serverAuth"),(oidSubjectKeyIdentifier,"hash"),
    (oidAuthorityKeyIdentifier,"keyid:always")]
  let cert ← addTlsNames w ca cert r
  w.sign
  return addUrls w ca cert r.urls

end Build

section Validity

variable {w : Workshop}

theorem addExtText_notAfter {issuer cert c : Cert} {oid : Oid} {val : String}
    (h : addExtText w issuer cert oid val=.ok c) : c.notAfter=cert.notAfter := by
  simp only [addExtText] at h
  split_ifs at h with hval
  · rw [Except.ok.inj h]
  · cases he : w.extConfNid issuer cert oid val with
    | none =>
      rw [he] at h
      cases h
    | some e =>
      rw [he] at h
      rw [← Except.ok.inj h]

theorem addExtTexts_notAfter {issuer : Option Cert} {cert c : Cert} {texts : List (Oid × String)}
    (h : addExtTexts w issuer cert texts=.ok c) : c.notAfter=cert.notAfter := by
  induction texts generalizing cert with
  | nil => rw [Except.ok.inj h]
  | cons t texts ih =>
    simp only [addExtTexts,List.foldlM_cons] at h
    obtain ⟨d,hd,hrest⟩ := bind_eq_ok_iff.mp h
    rw [ih hrest,addExtText_notAfter hd]

theorem addCertificatePolicies_notAfter {cert c : Cert} {policies : List String}
    (h : addCertificatePolicies w cert policies=.ok c) : c.notAfter=cert.notAfter := by
  simp only [addCertificatePolicies] at h
  obtain ⟨oids,_,h⟩ := bind_eq_ok_iff.mp h
  split_ifs at h
  · rw [← Except.ok.inj h]
  · rw [← Except.ok.inj h]

theorem copyCaIdentityExts_notAfter (dst src : Cert) (keepDstUrls : Bool) :
    (copyCaIdentityExts dst src keepDstUrls).notAfter=dst.notAfter := by
  rw [copyCaIdentityExts]
  induction src.extensions generalizing dst with
  | nil => rfl
  | cons e exts ih =>
    rw [List.foldl_cons,ih]
    split_ifs
    · rfl
    · rfl
    · rfl

theorem addUrls_notAfter (ca cert : Cert) (urls : Except Error CaUrls) :
    (addUrls w ca cert urls).notAfter=cert.notAfter := by
  cases urls with
  | error e => rfl
  | ok urls =>
    simp only [addUrls]
    split
    · rfl
    · rename_i mid hmid
      rw [← addExtText_notAfter hmid]
      cases hlast : addExtText w ca mid oidCrlDistributionPoints (join urls.crl "URI:" ",") with
      | error e => rfl
      | ok last => exact addExtText_notAfter hlast

theorem addTlsNames_notAfter {ca cert c : Cert} {r : TlsRequest} (h : addTlsNames w ca cert r=.ok c) :
    c.notAfter=cert.notAfter := by
  simp only [addTlsNames] at h
  split at h
  · rw [← Except.ok.inj h]
  · obtain ⟨sans,_,h⟩ := bind_eq_ok_iff.mp h
    exact addExtText_notAfter h

/-- The date a certificate gets that asked for `t`. -/
def clamped (t : Int) (issuer : Option Cert) : Int :=
  issuer.elim t fun i => if t ≤ maxTime then min t i.notAfter else t

theorem clampNotAfterToIssuer_notAfter (cert : Cert) (issuer : Option Cert) :
    (clampNotAfterToIssuer cert issuer).notAfter=clamped cert.notAfter issuer := by
  cases issuer with
  | none => rfl
  | some i =>
    simp only [clampNotAfterToIssuer,clamped,Option.elim_some,ne_eq,asn1TimeCompare_eq_one_iff,ite_not]
    split_ifs with h hread
    · simp only
      omega
    · omega
    · omega
    · rfl

/-- A date within the year 9999 never passes the issuer's; a later one is not clamped at all. -/
theorem clamped_le_iff (t : Int) (issuer : Option Cert) :
    (∀ i∈issuer,clamped t issuer ≤ i.notAfter) ↔ t ≤ maxTime ∨ ∀ i∈issuer,t ≤ i.notAfter := by
  cases issuer with
  | none => simp
  | some i =>
    simp only [Option.mem_def,Option.some.injEq,forall_eq',clamped,Option.elim_some]
    split_ifs with hread
    · simp [hread]
    · simp [hread]

theorem buildCaCertificateUnsigned_notAfter {key : Option PublicKey} {dn : String} {days : Int}
    {issuer : Option Cert} {c : Cert} (h : buildCaCertificateUnsigned w key dn days issuer=.ok c) :
    ∃ t ≤ maxTime,c.notAfter=clamped t issuer := by
  simp only [buildCaCertificateUnsigned,bind_eq_ok_iff,requireSome_eq_ok_iff] at h
  obtain ⟨_,_,_,_,_,_,t,ht,h⟩ := h
  refine ⟨t,(gmtimeAdj_eq_some ht).2,?_⟩
  rw [addExtTexts_notAfter h,clampNotAfterToIssuer_notAfter]

theorem buildCaCertificateEx_notAfter {key : Option PublicKey} {p : CaCertParams}
    {issuer : Option Cert} {c : Cert} (h : buildCaCertificateEx w key p issuer=.ok c) :
    ∃ t,notAfterAsked w p=.ok t ∧ c.notAfter=clamped t issuer := by
  simp only [buildCaCertificateEx,bind_eq_ok_iff,requireSome_eq_ok_iff] at h
  obtain ⟨_,_,_,_,_,_,_,_,t,ht,_,_,_,_,d,hd,h⟩ := h
  refine ⟨t,ht,?_⟩
  rw [addCertificatePolicies_notAfter h,addExtTexts_notAfter hd,clampNotAfterToIssuer_notAfter]

/-- What the clamp of a CA builder needs: a date that can be compared with the issuer's, where it is
later. -/
def Comparable (p : CaCertParams) (issuer : Option Cert) : Prop :=
  p.neverExpire=true ∨ p.notAfter ≤ maxTime ∨ ∀ i∈issuer,p.notAfter ≤ i.notAfter

theorem notAfterAsked_le_iff {p : CaCertParams} {t : Int} (h : notAfterAsked w p=.ok t)
    (issuer : Option Cert) : (t ≤ maxTime ∨ ∀ i∈issuer,t ≤ i.notAfter) ↔ Comparable p issuer := by
  simp only [notAfterAsked] at h
  split_ifs at h with hnever hafter
  · have ht : t ≤ maxTime := le_of_eq (Except.ok.inj h).symm
    simp [Comparable,hnever,ht]
  · have ht : t=p.notAfter := asn1TimeSet_eq_some (requireSome_eq_ok_iff.mp h)
    simp [Comparable,hnever,ht]
  · have ht : t ≤ maxTime := (gmtimeAdj_eq_some (requireSome_eq_ok_iff.mp h)).2
    have hdefault : p.notAfter ≤ maxTime := (not_lt.mp hafter).trans (by decide)
    simp [Comparable,ht,hdefault]

theorem buildCaCertificateEx_le_iff {key : Option PublicKey} {p : CaCertParams}
    {issuer : Option Cert} {c : Cert} (h : buildCaCertificateEx w key p issuer=.ok c) :
    (∀ i∈issuer,c.notAfter ≤ i.notAfter) ↔ Comparable p issuer := by
  obtain ⟨t,ht,hc⟩ := buildCaCertificateEx_notAfter h
  rw [hc,clamped_le_iff,notAfterAsked_le_iff ht]

end Validity

/-- A call that signs a certificate, with the certificate that signs it. -/
inductive Signing where
  | leaf (ssl : Openssl) (cfg : IssueConfig) (ca : CaCert) (env : Env) (subject : Name)
    (pubkey : Option PublicKey) (exts : List Extension) (a : IssueArgs)
  | plainCa (w : Workshop) (key : Option PublicKey) (dn : String) (days : Int) (issuer : Option Cert)
  | caEx (w : Workshop) (key : Option PublicKey) (p : CaCertParams) (issuer : Option Cert)
  | cross (w : Workshop) (signer : Cert) (signerKey : Bool) (key : Option PublicKey) (p : CaCertParams)
  | renew (w : Workshop) (current : Option Cert) (key : Option PublicKey) (issuer : Option Cert)
    (issuerKey : Bool) (p : CaCertParams)
  | foreign (w : Workshop) (signer : Cert) (signerKey : Bool) (cert : Option Cert) (isCa : Bool)
    (p : CaCertParams)
  | tls (w : Workshop) (ca : Cert) (caKey : Bool) (key : Option PublicKey) (r : TlsRequest)

namespace Signing

def issue : Signing → Except Error Cert
  | leaf ssl cfg ca env subject pubkey exts a =>
    issueCertFromParts ssl cfg ca env subject pubkey exts a
  | plainCa w key dn days issuer => createCaCertificate w key dn days issuer
  | caEx w key p issuer => createCaCertificateEx w key p issuer
  | cross w signer signerKey key p => crossSignCa w (some signer) signerKey key p
  | renew w current key issuer issuerKey p => renewCaCertificate w current key issuer issuerKey p
  | foreign w signer signerKey cert isCa p =>
    crossSignForeignCa w (some signer) signerKey cert isCa p
  | tls w ca caKey key r => caIssueTlsCert w (some ca) caKey key r

/-- The end of the signing certificate; a root that signs itself has no other. -/
def issuerEnd : Signing → Option Int
  | leaf _ _ ca _ _ _ _ _ => some ca.notAfter
  | plainCa _ _ _ _ issuer | caEx _ _ _ issuer | renew _ _ _ issuer _ _ => issuer.map (·.notAfter)
  | cross _ signer _ _ _ | foreign _ signer _ _ _ _ => some signer.notAfter
  | tls _ ca _ _ _ => some ca.notAfter

/-- The validity asked for ends with the issuer's, or meets a clamp that can read it. -/
def InTime : Signing → Prop
  | leaf _ _ _ _ _ _ _ _ | plainCa _ _ _ _ _ => True
  | caEx _ _ p issuer | renew _ _ _ issuer _ p => Comparable p issuer
  | cross _ signer _ _ p | foreign _ signer _ _ _ p => Comparable p (some signer)
  | tls w ca _ _ r => w.now+60*60*24*r.days≤ca.notAfter

end Signing

/-- A certificate ends no later than the one that signs it exactly where its path clamps what was
asked for or nothing more was asked for: the TLS path does not clamp, and the CA builders cannot
compare a date past the year 9999. -/
theorem not_after_within_issuer_iff (s : Signing) (c : Cert) (h : s.issue=.ok c) :
    (∀ t∈s.issuerEnd,c.notAfter≤t) ↔ s.InTime := by
  cases s with
  | leaf ssl cfg ca env subject pubkey exts a =>
    obtain ⟨i⟩ := issueCertFromParts_issued h
    have hle : c.notAfter≤ca.notAfter := by
      rw [i.eq]
      exact min_le_right _ _
    simpa [Signing.issuerEnd,Signing.InTime] using hle
  | plainCa w key dn days issuer =>
    simp only [Signing.issue,createCaCertificate,bind_eq_ok_iff] at h
    obtain ⟨d,hd,_,_,hc⟩ := h
    obtain ⟨t,ht,hend⟩ := buildCaCertificateUnsigned_notAfter hd
    have hle := (clamped_le_iff t issuer).mpr (Or.inl ht)
    rw [← hend,Except.ok.inj hc] at hle
    simpa [Signing.issuerEnd,Signing.InTime] using hle
  | caEx w key p issuer =>
    simp only [Signing.issue,createCaCertificateEx,bind_eq_ok_iff] at h
    obtain ⟨d,hd,_,_,hc⟩ := h
    have hiff := buildCaCertificateEx_le_iff hd
    rw [Except.ok.inj hc] at hiff
    simpa [Signing.issuerEnd,Signing.InTime] using hiff
  | cross w signer signerKey key p =>
    simp only [Signing.issue,crossSignCa,bind_eq_ok_iff,requireSome_eq_ok_iff] at h
    obtain ⟨_,hsigner,_,_,_,_,d,hd,_,_,hc⟩ := h
    obtain rfl := Option.some.inj hsigner
    have hend : c.notAfter=d.notAfter := by
      rw [← Except.ok.inj hc,copyCaIdentityExts_notAfter]
    have hiff := buildCaCertificateEx_le_iff hd
    simpa [Signing.issuerEnd,Signing.InTime,hend] using hiff
  | renew w current key issuer issuerKey p =>
    simp only [Signing.issue,renewCaCertificate,bind_eq_ok_iff,requireSome_eq_ok_iff] at h
    obtain ⟨_,_,_,_,_,_,d,hd,_,_,hc⟩ := h
    have hend : c.notAfter=d.notAfter := by
      rw [← Except.ok.inj hc,copyCaIdentityExts_notAfter]
    have hiff := buildCaCertificateEx_le_iff hd
    simpa [Signing.issuerEnd,Signing.InTime,hend] using hiff
  | foreign w signer signerKey cert isCa p =>
    simp only [Signing.issue,crossSignForeignCa,bind_eq_ok_iff,requireSome_eq_ok_iff] at h
    obtain ⟨_,hsigner,_,_,_,_,_,_,_,_,_,_,d,hd,_,_,hc⟩ := h
    obtain rfl := Option.some.inj hsigner
    have hend : c.notAfter=d.notAfter := by
      rw [← Except.ok.inj hc]
    have hiff := buildCaCertificateEx_le_iff hd
    simpa [Signing.issuerEnd,Signing.InTime,hend] using hiff
  | tls w ca caKey key r =>
    simp only [Signing.issue,caIssueTlsCert,bind_eq_ok_iff,requireSome_eq_ok_iff] at h
    obtain ⟨_,hca,_,_,_,_,_,_,_,_,t,ht,d,hd,e,he,_,_,hc⟩ := h
    have hend : c.notAfter=t := by
      rw [← Except.ok.inj hc,addUrls_notAfter,addTlsNames_notAfter he,addExtTexts_notAfter hd]
    rw [(gmtimeAdj_eq_some ht).1] at hend
    simp [Signing.issuerEnd,Signing.InTime,hend]

section Example

def plainWorkshop (now : Int) : Workshop where
  now := now
  serial := "2a"
  sign := .ok ()
  digestByName := some
  txt2objDotted := some
  extConfNid := fun _ _ oid val => some ⟨oid,false,.text val⟩
  buildName := fun dn => .ok [⟨commonName,⟨.utf8,octets dn⟩⟩]
  ncNormalizeIp := .ok
  generalNameOf := fun n => .ok ("DNS:"++n)

def ecCaKey : PublicKey := ⟨.ec,256,[],false⟩

/-- An issuing CA that ends at 2 000 000. -/
def endingCa : Cert := ⟨"01",[],[],ecCaKey,0,2000000,[]⟩

def listenerRequest (days : Int) : TlsRequest := ⟨"pki.example.org",[],days,none,.ok ⟨[],[],[]⟩⟩

def subCaParams (notAfter : Int) : CaCertParams :=
  ⟨"/CN=sub",0,notAfter,false,-1,[],[],[],[],[],[],[],"sha256"⟩

/-- The end of what was signed. -/
def endOf (s : Signing) : Option Int := (s.issue.toOption).map (·.notAfter)

theorem not_after_within_issuer_iff_day :
    ∃ c,(Signing.tls (plainWorkshop 1900000) endingCa true (some ecCaKey) (listenerRequest 1)).issue=.ok c ∧
      c.notAfter≤2000000 := by
  refine ⟨_,rfl,?_⟩
  exact (not_after_within_issuer_iff
    (.tls (plainWorkshop 1900000) endingCa true (some ecCaKey) (listenerRequest 1)) _ rfl).mpr
    (show (1900000 : Int)+60*60*24*1≤2000000 by decide) 2000000 rfl

/-- Ninety days under a CA with one day left; and a sub CA to the year 10000 under the same one. -/
theorem tls_cert_outlives_issuer :
    endOf (.tls (plainWorkshop 1900000) endingCa true (some ecCaKey) (listenerRequest 90))=some 9676000 ∧
    endOf (.caEx (plainWorkshop 1900000) (some ecCaKey) (subCaParams 253402300800) (some endingCa))=
      some 253402300800 ∧ endingCa.notAfter<9676000 := by
  decide

end Example

end FastPki.Issue
