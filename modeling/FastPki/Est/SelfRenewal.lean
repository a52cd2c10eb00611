import FastPki.Cmp.Identity
import FastPki.Framework.Digest
import FastPki.Issue.Held
import FastPki.X509.Canonical

namespace FastPki.Est

open FastPki.X509 FastPki.Profile FastPki.Policy FastPki.Issue
open FastPki.Cmp (canonicalSerial CertRow)

/-- What the EST server reads: the rows of `certs`, the certificates in them, and the subject of the
CA behind an endpoint, where it can be loaded. Each may throw. -/
structure Server where
  getCert : String → Except String (Option CertRow)
  parseCertDer : Octets → Except String Cert
  caSubject : String → Except String (Option Name)

def renewalMismatch (old : Cert) (csr : Csr) : Option String :=
  if !nameCmp csr.subject old.subject then
    some "the CSR subject differs from the certificate being renewed"
  else if ¬csrSans csr ⊆ certSans old.extensions then
    some "the CSR asks for a subjectAltName the certificate being renewed does not hold"
  else none

/-- No CA stands for an empty endpoint, and one that cannot be loaded refuses nothing here. -/
def endpointSubject (srv : Server) (instanceId : String) : Except String (Option Name) :=
  if instanceId = "" then .ok none else srv.caSubject instanceId

/-- The part of `device_may_renew_itself` that may throw; inside, why it refuses. -/
def checkHeld (srv : Server) (serial instanceId : String) (csr : Csr) :
    Except String (Except String Cert) := do
  match ← srv.getCert serial with
  | none => return .error ("client certificate "++serial++" was not issued here")
  | some row =>
    if row.status = -1 then return .error ("client certificate "++serial++" is revoked")
    else
      let held ← srv.parseCertDer row.certDer
      let ca ← endpointSubject srv instanceId
      if ca.any fun subject => !nameCmp held.issuer subject then
        return .error ("client certificate "++serial++" was not issued by this endpoint's "++
          "CA '"++instanceId++"', so it cannot be renewed here")
      else match renewalMismatch held csr with
        | some why => return .error why
        | none => return .ok held

/-- The stored certificate that a device may renew, found by the serial of the presented one. -/
def deviceMayRenewItself (srv : Server) (peer : Option String) (instanceId : String)
    (csr : Option Csr) : Except String Cert :=
  match csr,peer with
  | none,_ => .error "no CSR"
  | some _,none => .error "no client certificate"
  | some csr,some peerSerial =>
    if peerSerial = "" then .error "client certificate has no serial"
    else match checkHeld srv (canonicalSerial peerSerial) instanceId csr with
      | .error e => .error ("could not check the client certificate: "++e)
      | .ok answer => answer

/-- What EST passes on to issue under the certificate itself. -/
def selfRenewalArgs (ssl : ObjectNames) (held : Cert) (owner : String) (urls : CaUrls) : IssueArgs :=
  ⟨profileFromCert ssl (some held),false,owner,[],some urls,false,false,[]⟩

/-- The certificate is for whom the held one is for. -/
structure SameIdentity (held c : Cert) : Prop where
  subject : nameCmp c.subject held.subject=true
  names : ∀ g∈allAltNames c.extensions,g∈allAltNames held.extensions
  leaf : c.extensions.filter (·.oid=oidBasicConstraints)=
    [⟨oidBasicConstraints,true,.text "CA:FALSE"⟩]

/-- The request names a subject, or has no DNS name that could be written as one. -/
def SubjectKept (csr : Csr) : Prop :=
  csr.subject≠[] ∨ firstDnsSan csr.extensions=[] ∨
    addCommonName [] (firstDnsSan csr.extensions)=none

theorem renewalMismatch_eq_none {old : Cert} {csr : Csr} (h : renewalMismatch old csr=none) :
    nameCmp csr.subject old.subject=true ∧ csrSans csr ⊆ certSans old.extensions := by
  simp only [renewalMismatch] at h
  split_ifs at h with hname hsans
  exact ⟨by simpa using hname,hsans⟩

/-- Who may renew itself asks for the identity of the stored certificate. -/
theorem deviceMayRenewItself_ok {srv : Server} {peer : Option String} {instanceId : String}
    {csr : Csr} {held : Cert} (h : deviceMayRenewItself srv peer instanceId (some csr)=.ok held) :
    nameCmp csr.subject held.subject=true ∧ csrSans csr ⊆ certSans held.extensions := by
  cases peer with
  | none => cases h
  | some peerSerial =>
    simp only [deviceMayRenewItself] at h
    split_ifs at h
    split at h
    · cases h
    · next answer hanswer =>
      rw [checkHeld,bind_eq_ok_iff] at hanswer
      obtain ⟨row,_,hanswer⟩ := hanswer
      subst h
      cases row with
      | none => cases hanswer
      | some row =>
        dsimp only at hanswer
        split_ifs at hanswer with hrevoked
        · cases hanswer
        · rw [bind_eq_ok_iff] at hanswer
          obtain ⟨held',_,hanswer⟩ := hanswer
          rw [bind_eq_ok_iff] at hanswer
          obtain ⟨ca,_,hanswer⟩ := hanswer
          split_ifs at hanswer
          · cases hanswer
          · split at hanswer
            · cases hanswer
            · next hnone =>
              obtain rfl := Except.ok.inj (Except.ok.inj hanswer)
              exact renewalMismatch_eq_none hnone

section Names

theorem octets_injective : Function.Injective octets := by
  intro s t h
  exact toUTF8_injective h

theorem hexOctet_injective : Function.Injective hexOctet := by
  have hdigit : ∀ m<16,∀ n<16,hexDigit m=hexDigit n → m=n := by decide
  intro a b h
  obtain ⟨hhigh,hlow⟩ : hexDigit (a.toNat/16)=hexDigit (b.toNat/16) ∧
      hexDigit (a.toNat%16)=hexDigit (b.toNat%16) := by simpa [hexOctet] using h
  have ha := a.toNat_lt
  have hb := b.toNat_lt
  have hdiv := hdigit _ (by omega) _ (by omega) hhigh
  have hmod := hdigit _ (by omega) _ (by omega) hlow
  exact UInt8.toNat_inj.mp (by omega)

theorem flatMap_hexOctet_injective : Function.Injective fun der : Octets => der.flatMap hexOctet := by
  intro xs ys h
  dsimp only at h
  induction xs generalizing ys with
  | nil =>
    cases ys with
    | nil => rfl
    | cons y ys => cases h
  | cons x xs ih =>
    cases ys with
    | nil => cases h
    | cons y ys =>
      rw [List.flatMap_cons,List.flatMap_cons] at h
      obtain ⟨hhead,htail⟩ := List.append_inj h rfl
      rw [hexOctet_injective hhead,ih htail]

theorem hexText_injective : Function.Injective hexText := by
  intro a b h
  exact flatMap_hexOctet_injective (String.ofList_injective (octets_injective h))

/-- The first octet of a tagged name tells its type, the last two apart. -/
theorem head_sanName (g : GeneralName) : (sanName g).head?=some (match g with
    | .dns _ => 0x44
    | .email _ => 0x45
    | .uri _ => 0x55
    | .ip _ => 0x49
    | .otherName _ => 0x74
    | .other _ _ => 0x74) := by
  cases g <;> rfl

/-- The tagged text of a name says which name it is, for the types a held profile allows. -/
theorem sanName_inj {g g' : GeneralName} (hother : ∀ der,g≠.otherName der)
    (hunknown : ∀ type der,g≠.other type der) (h : sanName g=sanName g') : g=g' := by
  have hhead := congrArg List.head? h
  rw [head_sanName,head_sanName] at hhead
  cases g with
  | otherName der => exact absurd rfl (hother der)
  | other type der => exact absurd rfl (hunknown type der)
  | dns name =>
    cases g' with
    | dns name' => rw [List.append_cancel_left h]
    | _ => simp at hhead
  | email name =>
    cases g' with
    | email name' => rw [List.append_cancel_left h]
    | _ => simp at hhead
  | uri name =>
    cases g' with
    | uri name' => rw [List.append_cancel_left h]
    | _ => simp at hhead
  | ip address =>
    cases g' with
    | ip address' => rw [hexText_injective (List.append_cancel_left h)]
    | _ => simp at hhead

end Names

section Issued

variable {ssl : ObjectNames} {cfg : IssueConfig} {ca : CaCert} {env : Env} {csr : Csr}
  {held c : Cert} {owner : String} {urls : CaUrls}

/-- The names that a self-renewal lets through are of the types the profile knows. -/
theorem policy_names {exts : List Extension} {acme : Bool} {cfg : Config}
    (h : checkSubjectAltName cfg (profileFromCert ssl (some held)) acme exts=.ok ())
    {g : GeneralName} (hg : g∈subjectAltNamesOf exts) :
    (∀ der,g≠.otherName der) ∧ ∀ type der,g≠.other type der := by
  have hunknown : "othername"∉(profileFromCert ssl (some held)).allowedSanTypes := by
    intro hin
    obtain ⟨s,_,htype⟩ := Finset.mem_biUnion.mp hin
    have hsome := Option.mem_toFinset.mp htype
    simp only [sanTypeOf] at hsome
    split_ifs at hsome <;> simp at hsome
  have hok : checkGeneralName cfg (profileFromCert ssl (some held)) acme g=.ok () := by
    rw [checkSubjectAltName] at h
    rw [subjectAltNamesOf] at hg
    cases hext : getExt exts oidSubjectAltName with
    | none =>
      rw [hext] at hg
      cases hg
    | some e =>
      rw [hext] at h hg
      cases hnames : d2iSubjectAltName e with
      | none =>
        rw [Option.bind_some,hnames] at hg
        cases hg
      | some names =>
        rw [Option.bind_some,hnames] at hg
        simp only [hnames] at h
        exact forM_eq_ok_iff.mp h g hg
  constructor
  · rintro der rfl
    rw [checkGeneralName,if_neg hunknown] at hok
    cases hok
  · rintro type der rfl
    cases hok

variable (i : Issued ssl.toOpenssl cfg ca env csr.subject (some csr.pubkey) csr.extensions
    (selfRenewalArgs ssl held owner urls) c)
include i

theorem issued_names {g : GeneralName} (hg : g∈allAltNames c.extensions) :
    g∈subjectAltNamesOf csr.extensions := by
  have hdevice : ¬NamesDevice (selfRenewalArgs ssl held owner urls) := fun h => h.1 rfl
  obtain hg|⟨_,e,he,_⟩ := (i.mem_allAltNames hdevice).mp hg
  · exact hg
  · cases he

theorem issued_basicConstraints : c.extensions.filter (·.oid=oidBasicConstraints)=
    [⟨oidBasicConstraints,true,.text "CA:FALSE"⟩] := by
  have hdevice : ¬NamesDevice (selfRenewalArgs ssl held owner urls) := fun h => h.1 rfl
  obtain ⟨ku,eku,hku,heku,husage⟩ := usageExts_ok i.usages
  have hne : ∀ e∈i.usage++[⟨oidSubjectKeyIdentifier,false,.text "hash"⟩,
      ⟨oidAuthorityKeyIdentifier,false,.text "keyid:always"⟩]++
      copySan csr.extensions (issuedSubject csr.subject csr.extensions=[]),
      e.oid≠oidBasicConstraints := by
    intro e he
    rw [husage,List.mem_append,List.mem_append,List.mem_append] at he
    obtain ((he|he)|he)|he := he
    · rw [confExt_oid hku e he]
      decide
    · rw [confExt_oid heku e he]
      decide
    · obtain rfl|he := List.mem_cons.mp he
      · decide
      · rw [List.mem_singleton.mp he]
        decide
    · rw [copySan_oid he]
      decide
  have hcert : i.cert=[⟨oidBasicConstraints,true,.text "CA:FALSE"⟩]++(i.usage++
      [⟨oidSubjectKeyIdentifier,false,.text "hash"⟩,
        ⟨oidAuthorityKeyIdentifier,false,.text "keyid:always"⟩]++
      copySan csr.extensions (issuedSubject csr.subject csr.extensions=[])) := by
    rw [i.cert_eq hdevice,writtenExts,writtenBase]
    simp [selfRenewalArgs]
  have hget : getExt i.cert oidBasicConstraints=
      some ⟨oidBasicConstraints,true,.text "CA:FALSE"⟩ := by
    rw [hcert]
    rfl
  have hsole : Sole oidBasicConstraints i.cert := by
    rw [hcert]
    exact Sole.append_of_ne rfl hne
  have hfinal : Sole oidBasicConstraints c.extensions :=
    i.sole (by decide) (by decide) (by decide) hsole
  rw [Sole,i.getExt_cert (by decide) (by decide) (by decide),hget] at hfinal
  exact hfinal

end Issued

theorem subjectAltNamesOf_subset {exts : List Extension} {g : GeneralName}
    (hg : g∈subjectAltNamesOf exts) : g∈allAltNames exts := by
  rw [subjectAltNamesOf] at hg
  cases hext : getExt exts oidSubjectAltName with
  | none =>
    rw [hext] at hg
    cases hg
  | some e =>
    rw [hext] at hg
    refine List.mem_flatMap.mpr ⟨e,List.mem_filter.mpr ⟨List.mem_of_find?_eq_some hext,?_⟩,hg⟩
    simpa using getExt_oid hext

theorem issuedSubject_eq_iff {csr : Csr} :
    issuedSubject csr.subject csr.extensions=csr.subject ↔ SubjectKept csr := by
  rw [SubjectKept,issuedSubject]
  split_ifs with hempty
  · obtain ⟨hsubject,hdns⟩ := hempty
    rw [hsubject]
    cases hadd : addCommonName [] (firstDnsSan csr.extensions) with
    | none => simp
    | some n =>
      have hne : n≠[] := by
        rintro rfl
        simp only [addCommonName] at hadd
        split at hadd
        · cases hadd
        · split_ifs at hadd
          cases Option.some.inj hadd
      simp [hdns,hne]
  · refine iff_of_true rfl ?_
    by_cases hsubject : csr.subject=[]
    · exact Or.inr (Or.inl (not_not.mp fun hdns => hempty ⟨hsubject,hdns⟩))
    · exact Or.inl hsubject

/-- A device that renews its own certificate keeps the identity of it exactly when no commonName is
made for its request. -/
theorem self_renewal_same_identity_iff (ssl : ObjectNames) (srv : Server) (cfg : IssueConfig)
    (ca : CaCert) (env : Env) (peer : Option String) (instanceId : String) (csr : Csr)
    (held c : Cert) (owner : String) (urls : CaUrls)
    (hmay : deviceMayRenewItself srv peer instanceId (some csr)=.ok held)
    (hissue : issueCert ssl.toOpenssl cfg ca env csr (selfRenewalArgs ssl held owner urls)=.ok c) :
    SameIdentity held c ↔ SubjectKept csr := by
  obtain ⟨hname,hsans⟩ := deviceMayRenewItself_ok hmay
  obtain ⟨i⟩ := issueCertFromParts_issued hissue
  obtain ⟨_,hpolicy⟩ := enforceIssuancePolicy_ok i.policy
  have hsubject : c.subject=issuedSubject csr.subject csr.extensions := congrArg Cert.subject i.eq
  have hnames : ∀ g∈allAltNames c.extensions,g∈allAltNames held.extensions := by
    intro g hg
    have hasked := issued_names i hg
    obtain ⟨hother,hunknown⟩ := policy_names hpolicy hasked
    have hin : sanName g∈certSans held.extensions :=
      hsans (List.mem_toFinset.mpr (List.mem_map_of_mem hasked))
    obtain ⟨g',hg',hsame⟩ := mem_certSans hin
    rw [sanName_inj hother hunknown hsame.symm]
    exact subjectAltNamesOf_subset hg'
  rw [← issuedSubject_eq_iff]
  constructor
  · intro h
    have hlen := length_eq_of_nameCmp h.subject
    rw [hsubject,← length_eq_of_nameCmp hname] at hlen
    by_contra hchanged
    -- a subject was made, so that the request had none
    have hempty : csr.subject=[] := by
      by_contra hne
      exact hchanged (issuedSubject_eq_iff.mpr (Or.inl hne))
    rw [hempty] at hlen hchanged
    exact hchanged (List.length_eq_zero_iff.mp hlen)
  · intro h
    refine ⟨?_,hnames,issued_basicConstraints i⟩
    rw [hsubject,h]
    exact hname

/-- A server that stores one certificate, with the serial `1f`, of the CA at every endpoint. -/
def serverOf (held : Cert) : Server where
  getCert serial := .ok (if serial = "1f" then some ⟨[],0,octets "device1"⟩ else none)
  parseCertDer _ := .ok held
  caSubject _ := .ok (some issuingCa.subject)

def deviceRequest : Csr := ⟨deviceName,ecKey,[]⟩

def clientExt : Extension := ⟨oidExtKeyUsage,false,.extKeyUsage [oidClientAuth]⟩

theorem self_renewal_same_identity_iff_device :
    deviceMayRenewItself (serverOf (clientCert 7776000)) (some "1F") "ca" (some deviceRequest)=
      .ok (clientCert 7776000) ∧
    issueCert clientObjects.toOpenssl leafConfig issuingCa ⟨1000,"1f",.ok ()⟩ deviceRequest
      (selfRenewalArgs clientObjects (clientCert 7776000) "" ⟨[],[],[]⟩)=
      .ok (deviceCert [clientExt] []) ∧
    SameIdentity (clientCert 7776000) (deviceCert [clientExt] []) := by
  have hmay : deviceMayRenewItself (serverOf (clientCert 7776000)) (some "1F") "ca"
      (some deviceRequest)=.ok (clientCert 7776000) := by rfl
  have hissue : issueCert clientObjects.toOpenssl leafConfig issuingCa ⟨1000,"1f",.ok ()⟩
      deviceRequest (selfRenewalArgs clientObjects (clientCert 7776000) "" ⟨[],[],[]⟩)=
      .ok (deviceCert [clientExt] []) := by rfl
  refine ⟨hmay,hissue,?_⟩
  exact (self_renewal_same_identity_iff _ _ _ _ _ _ _ _ _ _ _ _ hmay hissue).mpr
    (Or.inl (by decide))

def hostSan (critical : Bool) : Extension :=
  ⟨oidSubjectAltName,critical,.subjectAltName [.dns (octets "a.de")]⟩

/-- A certificate that names its host in the subjectAltName alone. -/
def hostCert : Cert := { clientCert 7776000 with subject := [],extensions := [hostSan true] }

def hostRequest : Csr := ⟨[],ecKey,[hostSan true]⟩

/-- What it is renewed into: the host has become the subject. -/
def renewedHost : Cert :=
  ⟨"1f",[⟨commonName,⟨.utf8,octets "a.de"⟩⟩],issuingCa.subject,ecKey,700,7777000,
    [⟨oidBasicConstraints,true,.text "CA:FALSE"⟩,⟨oidSubjectKeyIdentifier,false,.text "hash"⟩,
      ⟨oidAuthorityKeyIdentifier,false,.text "keyid:always"⟩,hostSan false]⟩

theorem self_renewal_renames_host :
    deviceMayRenewItself (serverOf hostCert) (some "1F") "ca" (some hostRequest)=.ok hostCert ∧
    issueCert clientObjects.toOpenssl leafConfig issuingCa ⟨1000,"1f",.ok ()⟩ hostRequest
      (selfRenewalArgs clientObjects hostCert "" ⟨[],[],[]⟩)=.ok renewedHost ∧
    ¬SameIdentity hostCert renewedHost := by
  refine ⟨rfl,rfl,fun h => ?_⟩
  exact absurd (length_eq_of_nameCmp h.subject) (by decide)

end FastPki.Est
