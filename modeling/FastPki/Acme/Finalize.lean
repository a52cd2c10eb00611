import FastPki.Issue.Csr

namespace FastPki.Acme

open FastPki.X509 FastPki.Profile FastPki.Policy FastPki.Rbac FastPki.Issue

/-- One element of `identifiers`; `rest` is what else the client put into the object. -/
structure Identifier where
  type : String
  value : Octets
  rest : String
  deriving DecidableEq

/-- A row of `orders`. `status` is 0 pending, 1 ready, 3 valid. -/
structure AcmeOrder where
  id : String
  status : Int
  expires : Int
  identifiers : List Identifier
  certSerial : String
  accountId : String
  caInstanceId : String
  deriving DecidableEq

structure AcmeAccount where
  id : String
  kid : String
  jwk : String
  deriving DecidableEq

/-- `attestedSpki` is empty until the device has attested its key. -/
structure AcmeDeviceTicket where
  owner : String
  profile : String
  deviceSerial : Octets
  attestedSpki : Option PublicKey
  deriving DecidableEq

/-- An RFC 8555 problem document. -/
structure Problem where
  http : Nat
  type : String
  detail : String
  deriving DecidableEq

/-- What the handlers read besides the ACME tables. A CAA refusal carries its reason, empty when
the domain forbids this CA, and a CA that cannot be loaded its HTTP code. -/
structure Server where
  ssl : Openssl
  cfg : IssueConfig
  acmeCaaIdentity : String
  rbac : RbacDb
  profiles : ProfileStore
  directoryGroups : String → List String
  caaAllows : Octets → Except String Unit
  caCache : String → Except (Nat × String) CaCert
  caUrlsForInstance : String → CaUrls

/-- The payload of a finalize request, as far as it can be read. -/
inductive FinalizePayload where
  | unparsable
  | noCsr
  | notText (why : String)
  | badBase64 (why : String)
  | csr (parsed : Except Error Csr)

def isDeviceOrder (ids : List Identifier) : Bool := ids.any (·.type = "permanent-identifier")

def orderedNames (o : AcmeOrder) : List Octets :=
  (o.identifiers.map (·.value)).insertionSort (· ≤ ·)

/-- The subjectAltName of the request is compared with the order in both directions. -/
def checkSans (ordered : List Octets) (csr : Csr) : Except Problem Unit :=
  let want := (ordered.map (octets "DNS:"++·)).toFinset
  let extra := (((subjectAltNamesOf csr.extensions).map sanName).insertionSort (· ≤ ·)).find?
    (· ∉ want)
  refuseIf (csrSans csr ≠ want) ⟨400,"badCSR",extra.elim
    "the CSR does not carry the identifiers this order authorized"
    fun e => "the CSR carries the subjectAltName "++asText e++", which this "++
      "order never validated — it authorized DNS identifiers only"⟩

/-- One commonName of the request is compared with the order, as the octets of a buffer of 256. -/
def checkSubjectCn (ordered : List Octets) (csr : Csr) : Except Problem Unit :=
  refuseIf ((getTextByCn csr.subject 256).any fun cn => cn ≠ [] ∧ cn ∉ ordered)
    ⟨400,"badCSR","CSR subject CN is not one of the authorized identifiers"⟩

def checkCaa (s : Server) (ordered : List Octets) : Except Problem Unit :=
  if s.acmeCaaIdentity = "" then .ok ()
  else ordered.forM fun ident =>
    match s.caaAllows ident with
    | .ok _ => .ok ()
    | .error why => .error ⟨403,"caa",if why = "" then "CAA forbids issuance for "++asText ident
        else why++" (for "++asText ident++")"⟩

/-- A device order is checked for its key, any other for its names. -/
def checkRequest (s : Server) (o : AcmeOrder) (ticket : Option AcmeDeviceTicket) (csr : Csr) :
    Except Problem Unit :=
  match ticket with
  | some t => refuseIf (t.attestedSpki ≠ some csr.pubkey)
      ⟨400,"badCSR","the CSR key is not the key the device attested"⟩
  | none => do
    checkSans (orderedNames o) csr
    checkSubjectCn (orderedNames o) csr
    checkCaa s (orderedNames o)

def loadCa (s : Server) (ca : String) : Except Problem CaCert :=
  match s.caCache ca with
  | .ok c => .ok c
  | .error (404,why) => .error ⟨404,"malformed",why⟩
  | .error (503,why) => .error ⟨403,"unauthorized",why⟩
  | .error (_,why) => .error ⟨500,"serverInternal",why⟩

def readCsr : FinalizePayload → Except Problem Csr
  | .unparsable => .error ⟨400,"malformed","bad payload"⟩
  | .noCsr => .error ⟨400,"malformed","csr required"⟩
  | .notText why => .error ⟨500,"serverInternal",why⟩
  | .badBase64 why => .error ⟨400,"badCSR",why⟩
  | .csr (.error e) => .error ⟨400,"badCSR",e.message⟩
  | .csr (.ok csr) => .ok csr

/-- A `pki::Error` inside the issuance part of finalize is the client's. -/
def asBadCsr {α : Type} : Except Error α → Except Problem α
  | .ok a => .ok a
  | .error e => .error ⟨400,"badCSR",e.message⟩

/-- The ticket of a device order; any other order has none to look for. -/
def orderTicket (o : AcmeOrder) (stored : Option AcmeDeviceTicket) :
    Except Problem (Option AcmeDeviceTicket) :=
  if isDeviceOrder o.identifiers then
    stored.elim (.error ⟨403,"unauthorized","this order no longer holds its device ticket"⟩)
      (.ok ∘ some)
  else .ok none

/-- The user whose grants and limits count, and the owner the certificate is recorded under. -/
def acctUser (account : AcmeAccount) (ticket : Option AcmeDeviceTicket) : String :=
  ticket.elim account.kid (·.owner)

def acmeOwner (account : AcmeAccount) (ticket : Option AcmeDeviceTicket) : String :=
  ticket.elim (if account.kid = "" then account.id else account.kid) (·.owner)

def finalizeProfile (s : Server) (account : AcmeAccount) (ticket : Option AcmeDeviceTicket) :
    Except Error EffectiveProfile :=
  let owner := acmeOwner account ticket
  resolveProfile s.rbac s.profiles ⟨owner,"",s.directoryGroups owner⟩ (ticket.elim "" (·.profile))

def finalizeArgs (s : Server) (account : AcmeAccount) (ticket : Option AcmeDeviceTicket)
    (ca : String) (p : EffectiveProfile) : IssueArgs where
  profile := p.profile
  acme := ticket.isNone
  owner := acmeOwner account ticket
  passthroughExtOids := []
  caUrls := some (s.caUrlsForInstance ca)
  omitAia := false
  omitCrldp := false
  attestedSerial := ticket.elim [] (·.deviceSerial)

/-- The certificate to insert, its owner, and the quota it is inserted under. -/
structure Finalized where
  cert : Cert
  owner : String
  maxCerts : Option Int

/-- `handle_finalize` from the order it read to the certificate it is about to insert. -/
def finalizeCert (s : Server) (env : Env) (account : AcmeAccount) (o : AcmeOrder)
    (stored : Option AcmeDeviceTicket) (ca : String) (payload : FinalizePayload) :
    Except Problem Finalized := do
  refuseIf (o.accountId ≠ account.id) ⟨403,"unauthorized","wrong account"⟩
  let ticket ← orderTicket o stored
  refuseIf (o.caInstanceId ≠ "" ∧ o.caInstanceId ≠ ca)
    ⟨403,"unauthorized","this order was authorized under a different CA"⟩
  let user := acctUser account ticket
  refuseIf (!mayEnrol s.rbac user "" "acme:enrol" ca (s.directoryGroups user))
    ⟨403,"unauthorized","this account may not enrol under this CA"⟩
  refuseIf (o.status ≠ 1) ⟨403,"orderNotReady","order is not ready"⟩
  let csr ← readCsr payload
  checkRequest s o ticket csr
  refuseIf (ca = "") ⟨404,"malformed","this endpoint is per-CA: use /\x7bca_id\x7d"⟩
  let caCert ← loadCa s ca
  let p ← asBadCsr (finalizeProfile s account ticket)
  let cert ← asBadCsr (issueCert s.ssl s.cfg caCert env csr (finalizeArgs s account ticket ca p))
  return ⟨cert,acmeOwner account ticket,
    (roleLimits s.rbac user "" (s.directoryGroups user)).maxCerts⟩

theorem asBadCsr_eq_ok_iff {α : Type} {x : Except Error α} {a : α} :
    asBadCsr x=.ok a ↔ x=.ok a := by
  cases x with
  | ok b => simp [asBadCsr]
  | error e => simp [asBadCsr]

/-- What a finalize that issued has gone through, for an order without a device. -/
structure DnsFinalized (s : Server) (env : Env) (account : AcmeAccount) (o : AcmeOrder)
    (ca : String) (csr : Csr) (f : Finalized) where
  caCert : CaCert
  p : EffectiveProfile
  ready : o.status=1
  sans : csrSans csr=((orderedNames o).map (octets "DNS:"++·)).toFinset
  cn : (getTextByCn csr.subject 256).any (fun cn => cn≠[] ∧ cn∉orderedNames o)=false
  profile : finalizeProfile s account none=.ok p
  issued : issueCert s.ssl s.cfg caCert env csr (finalizeArgs s account none ca p)=.ok f.cert

theorem finalizeCert_dns {s : Server} {env : Env} {account : AcmeAccount} {o : AcmeOrder}
    {stored : Option AcmeDeviceTicket} {ca : String} {csr : Csr} {f : Finalized}
    (hdns : isDeviceOrder o.identifiers=false)
    (h : finalizeCert s env account o stored ca (.csr (.ok csr))=.ok f) :
    Nonempty (DnsFinalized s env account o ca csr f) := by
  have hticket : orderTicket o stored=.ok none := by simp [orderTicket,hdns]
  simp only [finalizeCert,hticket,bind_eq_ok_iff,refuseIf_eq_ok_iff,asBadCsr_eq_ok_iff] at h
  obtain ⟨_,_,ticket,ht,_,_,_,_,_,hready,csr',hcsr,_,hreq,_,_,caCert,_,p,hp,cert,hcert,hf⟩ := h
  obtain rfl := Except.ok.inj ht
  obtain rfl := Except.ok.inj hcsr
  obtain rfl := Except.ok.inj hf
  simp only [checkRequest,checkSans,checkSubjectCn,bind_eq_ok_iff,refuseIf_eq_ok_iff] at hreq
  obtain ⟨_,hsans,_,hcn,_⟩ := hreq
  exact ⟨⟨caCert,p,not_not.mp hready,not_not.mp hsans,by simpa using hcn,hp,hcert⟩⟩

/-- This commonName is the text of an identifier of the order. -/
def CnOrdered (o : AcmeOrder) (v : Asn1String) : Prop :=
  ∃ n∈orderedNames o,asn1StringToUtf8 v=some n

/-- The certificate names nothing but identifiers of the order. -/
def NamesOrdered (o : AcmeOrder) (c : Cert) : Prop :=
  (∀ v∈commonNames c.subject,CnOrdered o v) ∧
    ∀ g∈allAltNames c.extensions,∃ n∈orderedNames o,g=.dns n

/-- The octets that finalize compares are the text of this commonName. -/
def ReadInFull (v : Asn1String) : Prop := v.data≠[] ∧ asn1StringToUtf8 v=some (v.data.take 255)

instance (v : Asn1String) : Decidable (ReadInFull v) := inferInstanceAs (Decidable (_ ∧ _))

/-- The commonNames that finalize does not look at: those after the first, and the first itself
when it is empty, too long, or in an encoding whose octets are not its text. -/
def unreadCns (subject : Name) : List Asn1String :=
  match commonNames subject with
  | [] => []
  | v::vs => if ReadInFull v then vs else v::vs

/-- What finalize does not look at is in order all the same. An order without identifiers leaves
room for a subjectAltName that the profile itself stamps. -/
structure FinalizeCovered (s : Server) (account : AcmeAccount) (o : AcmeOrder) (csr : Csr) :
    Prop where
  cns : ∀ v∈unreadCns csr.subject,CnOrdered o v
  stamped : o.identifiers=[] → hasExt csr.extensions oidSubjectAltName=false →
    ∀ p,finalizeProfile s account none=.ok p →
      ∀ e,stampedExt s.ssl p.profile.customExtensions oidSubjectAltName=some e →
        (d2iSubjectAltName e).getD []=[]

theorem cnOrdered_all_iff {o : AcmeOrder} {subject : Name}
    (h : (getTextByCn subject 256).any (fun cn => cn≠[] ∧ cn∉orderedNames o)=false) :
    (∀ v∈commonNames subject,CnOrdered o v) ↔ ∀ v∈unreadCns subject,CnOrdered o v := by
  simp only [unreadCns]
  cases hcns : commonNames subject with
  | nil => rfl
  | cons v vs =>
    by_cases hfull : ReadInFull v
    · have hv : CnOrdered o v := by
        have hne : v.data.take 255≠[] := by simpa using hfull.1
        have htext : getTextByCn subject 256=some (v.data.take 255) := by
          rw [getTextByCn,hcns]
          rfl
        rw [htext] at h
        refine ⟨v.data.take 255,?_,hfull.2⟩
        by_contra hout
        simp [hne,hout] at h
      simp [hfull,hv]
    · simp [hfull]

theorem mem_orderedNames_of_sans {o : AcmeOrder} {csr : Csr} {g : GeneralName}
    (h : csrSans csr=((orderedNames o).map (octets "DNS:"++·)).toFinset)
    (hg : g∈subjectAltNamesOf csr.extensions) : ∃ n∈orderedNames o,g=.dns n := by
  have hin : sanName g∈csrSans csr := List.mem_toFinset.mpr (List.mem_map.mpr ⟨g,hg,rfl⟩)
  rw [h] at hin
  obtain ⟨n,hn,heq⟩ := List.mem_map.mp (List.mem_toFinset.mp hin)
  exact ⟨n,hn,sanName_eq_dns_iff.mp heq.symm⟩

theorem identifiers_nil_of_sans {o : AcmeOrder} {csr : Csr}
    (h : csrSans csr=((orderedNames o).map (octets "DNS:"++·)).toFinset)
    (hno : hasExt csr.extensions oidSubjectAltName=false) : o.identifiers=[] := by
  have hnone : getExt csr.extensions oidSubjectAltName=none := by simpa [hasExt] using hno
  have hempty : csrSans csr=∅ := by
    rw [csrSans,subjectAltNamesOf,hnone]
    rfl
  have hnames : orderedNames o=[] := by
    simpa using (h.symm.trans hempty)
  have hlen := congrArg List.length hnames
  simpa [orderedNames] using hlen

/-- A certificate issued for DNS names is for names of its order alone exactly when those
commonNames are that finalize does not compare. -/
theorem finalize_names_ordered_iff (s : Server) (env : Env) (account : AcmeAccount) (o : AcmeOrder)
    (stored : Option AcmeDeviceTicket) (ca : String) (csr : Csr) (f : Finalized)
    (hdns : isDeviceOrder o.identifiers=false)
    (hok : finalizeCert s env account o stored ca (.csr (.ok csr))=.ok f) :
    NamesOrdered o f.cert ↔ FinalizeCovered s account o csr := by
  obtain ⟨d⟩ := finalizeCert_dns hdns hok
  obtain ⟨i⟩ := issueCertFromParts_issued d.issued
  obtain ⟨_,hsan⟩ := enforceIssuancePolicy_ok i.policy
  have hvalid := checkSubjectAltName_dns hsan
  have hno : ¬NamesDevice (finalizeArgs s account none ca d.p) := fun h => h.1 rfl
  have hsubject : f.cert.subject=issuedSubject csr.subject csr.extensions :=
    congrArg Cert.subject i.eq
  have hcns : (∀ v∈commonNames f.cert.subject,CnOrdered o v) ↔
      ∀ v∈commonNames csr.subject,CnOrdered o v := by
    rw [hsubject]
    obtain ⟨n,hn,hone,htext,hnil⟩|heq := commonNames_issuedSubject fun n hn => (hvalid n hn).1
    · obtain ⟨m,hm,hnm⟩ := mem_orderedNames_of_sans d.sans (mem_dnsNamesOf.mp hn)
      obtain rfl : n=m := GeneralName.dns.inj hnm
      rw [hone,hnil]
      simpa using ⟨n,hm,htext⟩
    · rw [heq]
  rw [NamesOrdered,hcns,cnOrdered_all_iff d.cn]
  constructor
  · intro h
    obtain ⟨hread,halt⟩ := h
    refine ⟨hread,fun hids hnosan p hp e he => ?_⟩
    obtain rfl := Except.ok.inj (d.profile.symm.trans hp)
    refine List.eq_nil_iff_forall_not_mem.mpr fun g hg => ?_
    obtain ⟨n,hn,_⟩ := halt g ((i.mem_allAltNames hno).mpr (Or.inr ⟨hnosan,e,he,hg⟩))
    simp [orderedNames,hids] at hn
  · intro h
    refine ⟨h.cns,fun g hg => ?_⟩
    obtain hg|⟨hnosan,e,he,hg⟩ := (i.mem_allAltNames hno).mp hg
    · exact mem_orderedNames_of_sans d.sans hg
    · have hids := identifiers_nil_of_sans d.sans hnosan
      rw [h.stamped hids hnosan d.p d.profile e he] at hg
      cases hg

/-- A user who may enrol for TLS certificates on one CA. -/
def tlsServer : Server where
  ssl := tlsObjects
  cfg := leafConfig
  acmeCaaIdentity := ""
  rbac := ⟨[⟨"tls",none,none,none⟩],[⟨"tls","acme:enrol","ca1"⟩,⟨"tls","profile:use","web"⟩],[],
    [⟨"user","alice","tls"⟩]⟩
  profiles := ⟨[("web",{ clientProfile with allowedCustomExtensions := ∅ })],["web"]⟩
  directoryGroups _ := []
  caaAllows _ := .ok ()
  caCache ca := if ca = "ca1" then .ok issuingCa else .error (404,"no such CA")
  caUrlsForInstance _ := ⟨[],[],[]⟩

def alice : AcmeAccount := ⟨"1","alice",""⟩

def hostOrder : AcmeOrder := ⟨"7",1,5000,[⟨"dns",octets "a.de",""⟩],"","1","ca1"⟩

def hostSan : Extension := ⟨oidSubjectAltName,false,.subjectAltName [.dns (octets "a.de")]⟩

def hostCsr (subject : Name) : Csr := ⟨subject,ecKey,[hostSan]⟩

def hostCert (subject : Name) : Cert :=
  ⟨"1f",subject,issuingCa.subject,ecKey,700,7777000,
    [⟨oidBasicConstraints,true,.text "CA:FALSE"⟩,⟨oidKeyUsage,true,.keyUsage [0]⟩,
      ⟨oidExtKeyUsage,false,.extKeyUsage ["1.3.6.1.5.5.7.3.2"]⟩,
      ⟨oidSubjectKeyIdentifier,false,.text "hash"⟩,
      ⟨oidAuthorityKeyIdentifier,false,.text "keyid:always"⟩,
      ⟨oidCertificatePolicies,false,.text "2.23.140.1.2.1"⟩,hostSan,
      ⟨oidSubjectDirectoryAttributes,false,.text "alice"⟩]⟩

theorem finalize_names_ordered_iff_host :
    finalizeCert tlsServer ⟨1000,"1f",.ok ()⟩ alice hostOrder none "ca1"
      (.csr (.ok (hostCsr [cnEntry "a.de"])))=.ok ⟨hostCert [cnEntry "a.de"],"alice",none⟩ ∧
    NamesOrdered hostOrder (hostCert [cnEntry "a.de"]) := by
  have hok : finalizeCert tlsServer ⟨1000,"1f",.ok ()⟩ alice hostOrder none "ca1"
      (.csr (.ok (hostCsr [cnEntry "a.de"])))=.ok ⟨hostCert [cnEntry "a.de"],"alice",none⟩ := by
    rfl
  refine ⟨hok,(finalize_names_ordered_iff _ _ _ _ _ _ _ _ (by decide) hok).mpr ⟨?_,?_⟩⟩
  · have hnone : unreadCns (hostCsr [cnEntry "a.de"]).subject=[] := by decide
    rw [hnone]
    intro v hv
    cases hv
  · intro hids
    cases hids

/-- A second commonName that was never validated. -/
theorem finalize_second_cn_unordered :
    finalizeCert tlsServer ⟨1000,"1f",.ok ()⟩ alice hostOrder none "ca1"
      (.csr (.ok (hostCsr [cnEntry "a.de",cnEntry "b.org"])))=
      .ok ⟨hostCert [cnEntry "a.de",cnEntry "b.org"],"alice",none⟩ ∧
    ¬NamesOrdered hostOrder (hostCert [cnEntry "a.de",cnEntry "b.org"]) := by
  refine ⟨rfl,fun h => ?_⟩
  obtain ⟨n,hn,htext⟩ := h.1 ⟨.utf8,octets "b.org"⟩ (by decide)
  obtain rfl : octets "b.org"=n := Option.some.inj htext
  exact absurd hn (by decide)

end FastPki.Acme
