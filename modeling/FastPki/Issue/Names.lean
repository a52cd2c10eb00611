import FastPki.Issue.Usages
import FastPki.Policy.DnsName
import Mathlib.Data.List.TakeWhile

namespace FastPki.Issue

open FastPki.X509 FastPki.Profile FastPki.Policy

/-- The octets a host name is made of. -/
def isHostOctet (c : UInt8) : Bool := isAlnum c || c = hyphen || c = 0x5f || c = dot

theorem isHostOctet_of_labelsOk {l : Octets} {label : Nat} {prev : UInt8}
    (h : labelsOk l label prev=true) : ∀ c∈l,isHostOctet c=true := by
  induction l generalizing label prev with
  | nil =>
    intro c hc
    cases hc
  | cons b l ih =>
    obtain ⟨hoctet,k,hrest,_⟩ := labelsOk_of_cons h
    have hb : isHostOctet b=true := by
      show (isLabelOctet b || decide (b=dot))=true
      rw [Bool.or_eq_true,decide_eq_true_eq]
      exact hoctet.symm
    exact List.forall_mem_cons.mpr ⟨hb,ih hrest⟩

/-- Apart from the star of a wildcard a name for DNS has host octets alone. -/
theorem mem_dnsNameOk {n : Octets} (h : dnsNameOk n=true) {c : UInt8} (hc : c∈n) :
    c=asterisk ∨ isHostOctet c=true := by
  obtain ⟨_,wildcard,rest,hwild,hn,hrest⟩ := dnsNameOk_eq_true_iff.mp h
  rw [hn] at hc
  rcases List.mem_append.mp hc with hc|hc
  · rcases hwild with hwild|hwild
    · rw [hwild] at hc
      cases hc
    · rw [hwild] at hc
      have hstar : c=asterisk ∨ c=dot := by simpa using hc
      apply hstar.imp_right
      intro hdot
      rw [hdot]
      decide
  · exact Or.inr (isHostOctet_of_labelsOk hrest c hc)

/-- A name that is one for DNS has no NUL, so that every reader of it sees the whole of it. -/
theorem cString_of_dnsNameOk {n : Octets} (h : dnsNameOk n=true) : cString n=n := by
  rw [cString_eq_self_iff]
  intro hzero
  rcases mem_dnsNameOk h hzero with hc|hc
  · exact absurd hc (by decide)
  · exact absurd hc (by decide)

def dnsNamesOf (exts : List Extension) : List Octets :=
  (subjectAltNamesOf exts).filterMap dnsName

theorem mem_dnsNamesOf {exts : List Extension} {n : Octets} :
    n∈dnsNamesOf exts ↔ .dns n∈subjectAltNamesOf exts := by
  simp only [dnsNamesOf]
  rw [List.mem_filterMap]
  constructor
  · intro h
    obtain ⟨g,hg,hn⟩ := h
    cases g with
    | dns name =>
      obtain rfl := Option.some.inj hn
      exact hg
    | _ => cases hn
  · intro h
    exact ⟨_,h,rfl⟩

theorem checkSubjectAltName_dns {cfg : Config} {p : CertProfile} {acme : Bool}
    {exts : List Extension} (h : checkSubjectAltName cfg p acme exts=.ok ()) :
    ∀ n∈dnsNamesOf exts,dnsNameOk n=true ∧ (acme=false → checkCn cfg n p.allowWildcard=true) := by
  intro n hn
  rw [mem_dnsNamesOf] at hn
  simp only [checkSubjectAltName] at h
  simp only [subjectAltNamesOf] at hn
  cases hext : getExt exts oidSubjectAltName with
  | none => simp [hext] at hn
  | some e =>
    rw [hext] at h hn
    cases hd : d2iSubjectAltName e with
    | none => simp [hd] at hn
    | some names =>
      simp only [hd] at h
      simp only [Option.bind_some,hd,Option.getD_some] at hn
      have hok := forM_eq_ok_iff.mp h _ hn
      simp only [checkGeneralName] at hok
      split_ifs at hok with htype hsyn hdom
      refine ⟨by simpa using hsyn,fun hacme => ?_⟩
      simpa [hacme] using hdom

theorem enforceIssuancePolicy_ok {cfg : Config} {subject : Name} {pubkey : Option PublicKey}
    {exts : List Extension} {p : CertProfile} {acme : Bool}
    (h : enforceIssuancePolicy cfg subject pubkey exts p acme=.ok ()) :
    (acme=false → nameCn subject≠[] → checkCn cfg (nameCn subject) p.allowWildcard=true) ∧
    checkSubjectAltName cfg p acme exts=.ok () := by
  simp only [enforceIssuancePolicy] at h
  simp only [bind_eq_ok_iff,refuseIf_eq_ok_iff] at h
  obtain ⟨_,_,_,hcn,hsan⟩ := h
  refine ⟨fun hacme hne => ?_,hsan⟩
  by_contra hbad
  exact hcn ⟨by simp [hacme],hne,by simpa using hbad⟩

/-- The commonNames of a subject built from the request's first DNS name, or of the request. -/
theorem commonNames_issuedSubject {subject : Name} {exts : List Extension}
    (hdns : ∀ n∈dnsNamesOf exts,dnsNameOk n=true) :
    (∃ n∈dnsNamesOf exts,commonNames (issuedSubject subject exts)=[⟨.utf8,n⟩] ∧
      asn1StringToUtf8 ⟨.utf8,n⟩=some n ∧ commonNames subject=[]) ∨
    commonNames (issuedSubject subject exts)=commonNames subject := by
  simp only [issuedSubject]
  split_ifs with hempty
  · obtain ⟨hsub,hfirst⟩ := hempty
    have hmem : firstDnsSan exts∈dnsNamesOf exts := by
      simp only [firstDnsSan] at hfirst ⊢
      simp only [dnsNamesOf]
      generalize subjectAltNamesOf exts=names at hfirst ⊢
      cases hf : names.findSome? dnsName with
      | none => exact absurd (by rw [hf]; rfl) hfirst
      | some n =>
        obtain ⟨g,hg,hn⟩ := List.exists_of_findSome?_eq_some hf
        exact List.mem_filterMap.mpr ⟨g,hg,hn⟩
    have hc := cString_of_dnsNameOk (hdns _ hmem)
    simp only [addCommonName]
    rw [hc]
    cases hdec : ByteArray.utf8Decode? ⟨⟨firstDnsSan exts⟩⟩ with
    | none =>
      right
      rw [hsub]
      rfl
    | some cs =>
      dsimp only
      split_ifs
      · refine Or.inl ⟨_,hmem,rfl,?_,by rw [hsub]; rfl⟩
        simp [asn1StringToUtf8,hdec]
      · right
        rw [hsub]
        rfl
  · exact Or.inr rfl

variable {ssl : Openssl} {cfg : IssueConfig} {ca : CaCert} {env : Env} {subject : Name}
  {pubkey : Option PublicKey} {exts : List Extension} {a : IssueArgs} {c : Cert}

theorem Issued.getExt_san (i : Issued ssl cfg ca env subject pubkey exts a c)
    (hno : ¬NamesDevice a) :
    getExt c.extensions oidSubjectAltName=
      ((getExt exts oidSubjectAltName).map fun e =>
        { e with critical := issuedSubject subject exts=[] }).or
        (stampedExt ssl a.profile.customExtensions oidSubjectAltName) := by
  rw [i.getExt_cert (by decide) (by decide) (by decide),i.cert_eq hno,
    getExt_writtenExts_san i.usages]
  cases getExt exts oidSubjectAltName with
  | none => simp
  | some e => rfl

theorem Issued.getExt_san_device (i : Issued ssl cfg ca env subject pubkey exts a c)
    (hdev : NamesDevice a) :
    ∃ critical,getExt c.extensions oidSubjectAltName=some ⟨oidSubjectAltName,critical,
      .subjectAltName (subjectAltNamesOf exts++[GeneralName.otherName a.attestedSerial])⟩ := by
  obtain ⟨critical,hcert⟩ := i.cert_eq_device hdev
  have hbase := getExt_eq_none_iff.mpr (writtenBase_not_san i.usages a.acme)
  refine ⟨critical,?_⟩
  rw [i.getExt_cert (by decide) (by decide) (by decide),hcert,getExt_append,hbase,
    getExt_singleton,if_pos rfl]
  rfl

/-- Every name of every subjectAltName extension. -/
def allAltNames (exts : List Extension) : List GeneralName :=
  (exts.filter (·.oid=oidSubjectAltName)).flatMap fun e => (d2iSubjectAltName e).getD []

theorem Issued.allAltNames_eq (i : Issued ssl cfg ca env subject pubkey exts a c) :
    allAltNames c.extensions=subjectAltNamesOf c.extensions :=
  allOf_eq_readOf i.sole_san

/-- Without a device to name, the names are those of the request, or where it has no
subjectAltName those of the profile's own one. -/
theorem Issued.mem_allAltNames (i : Issued ssl cfg ca env subject pubkey exts a c)
    (hno : ¬NamesDevice a) {g : GeneralName} :
    g∈allAltNames c.extensions ↔ g∈subjectAltNamesOf exts ∨
      (hasExt exts oidSubjectAltName=false ∧
        ∃ e,stampedExt ssl a.profile.customExtensions oidSubjectAltName=some e ∧
          g∈(d2iSubjectAltName e).getD []) := by
  have hget := i.getExt_san hno
  rw [i.allAltNames_eq]
  simp only [hasExt]
  cases hext : getExt exts oidSubjectAltName with
  | some e =>
    rw [hext] at hget
    have hnames : subjectAltNamesOf c.extensions=subjectAltNamesOf exts := by
      rw [subjectAltNamesOf,subjectAltNamesOf,hget,hext]
      rfl
    rw [hnames]
    simp
  | none =>
    rw [hext] at hget
    rw [subjectAltNamesOf,subjectAltNamesOf,hget,hext]
    cases stampedExt ssl a.profile.customExtensions oidSubjectAltName with
    | none => simp
    | some e => simp

theorem Issued.mem_allAltNames_dns (i : Issued ssl cfg ca env subject pubkey exts a c)
    {n : Octets} :
    .dns n∈allAltNames c.extensions ↔ n∈dnsNamesOf exts ∨
      (hasExt exts oidSubjectAltName=false ∧ ¬NamesDevice a ∧
        ∃ e,stampedExt ssl a.profile.customExtensions oidSubjectAltName=some e ∧
          .dns n∈(d2iSubjectAltName e).getD []) := by
  rw [mem_dnsNamesOf]
  by_cases hdev : NamesDevice a
  · obtain ⟨critical,hget⟩ := i.getExt_san_device hdev
    have hnames : subjectAltNamesOf c.extensions=
        subjectAltNamesOf exts++[GeneralName.otherName a.attestedSerial] := by
      rw [subjectAltNamesOf,hget]
      rfl
    rw [i.allAltNames_eq,hnames]
    simp [hdev]
  · rw [i.mem_allAltNames hdev]
    simp [hdev]

/-- This commonName is text that passes the approved domains. -/
def CnApproved (cfg : Config) (p : CertProfile) (v : Asn1String) : Prop :=
  ∃ t,asn1StringToUtf8 v=some t ∧ checkCn cfg t p.allowWildcard=true

def NamesApproved (cfg : Config) (p : CertProfile) (c : Cert) : Prop :=
  (∀ v∈commonNames c.subject,CnApproved cfg p v) ∧
    ∀ n,.dns n∈allAltNames c.extensions → checkCn cfg n p.allowWildcard=true

/-- What the policy does not look at is in order all the same: the first commonName has text at
all, the further ones are approved, and so are the DNS names the profile itself stamps where no
others are there. -/
structure NamesCovered (ssl : Openssl) (cfg : Config) (a : IssueArgs) (subject : Name)
    (exts : List Extension) : Prop where
  first : commonNames subject≠[] → nameCn subject≠[]
  further : ∀ v∈(commonNames subject).tail,CnApproved cfg a.profile v
  stamped : hasExt exts oidSubjectAltName=false → ¬NamesDevice a →
    ∀ e,stampedExt ssl a.profile.customExtensions oidSubjectAltName=some e →
      ∀ n,.dns n∈(d2iSubjectAltName e).getD [] → checkCn cfg n a.profile.allowWildcard=true

theorem ne_nil_of_checkCn {cfg : Config} {t : Octets} {allowWildcard : Bool}
    (h : checkCn cfg t allowWildcard=true) : t≠[] := by
  intro hnil
  rw [hnil,checkCn,if_pos rfl] at h
  cases h

theorem cnApproved_all_iff {cfg : Config} {p : CertProfile} {subject : Name}
    (hfirst : nameCn subject≠[] → checkCn cfg (nameCn subject) p.allowWildcard=true) :
    (∀ v∈commonNames subject,CnApproved cfg p v) ↔
      (commonNames subject≠[] → nameCn subject≠[]) ∧
        ∀ v∈(commonNames subject).tail,CnApproved cfg p v := by
  cases hcns : commonNames subject with
  | nil => simp
  | cons v vs =>
    have hcn : nameCn subject=(asn1StringToUtf8 v).getD [] := by
      rw [nameCn,hcns]
      rfl
    have hv : CnApproved cfg p v ↔ nameCn subject≠[] := by
      constructor
      · intro h
        obtain ⟨t,ht,hok⟩ := h
        rw [hcn,ht]
        exact ne_nil_of_checkCn hok
      · intro hne
        have hok := hfirst hne
        rw [hcn] at hne hok
        cases ht : asn1StringToUtf8 v with
        | none =>
          rw [ht] at hne
          exact absurd rfl hne
        | some t =>
          rw [ht] at hok
          exact ⟨t,ht,hok⟩
    rw [List.forall_mem_cons,hv]
    simp

/-- The names of a certificate all pass the approved domains exactly when those pass that the
policy never reads. -/
theorem issued_names_approved_iff (ssl : Openssl) (cfg : IssueConfig) (ca : CaCert) (env : Env)
    (subject : Name) (pubkey : Option PublicKey) (exts : List Extension) (a : IssueArgs) (c : Cert)
    (hissue : issueCertFromParts ssl cfg ca env subject pubkey exts a=.ok c)
    (hacme : a.acme=false) :
    NamesApproved cfg.toConfig a.profile c ↔ NamesCovered ssl cfg.toConfig a subject exts := by
  obtain ⟨i⟩ := issueCertFromParts_issued hissue
  obtain ⟨hfirst,hsan⟩ := enforceIssuancePolicy_ok i.policy
  have hdns := checkSubjectAltName_dns hsan
  have hsubject : c.subject=issuedSubject subject exts := congrArg Cert.subject i.eq
  have hcns : (∀ v∈commonNames c.subject,CnApproved cfg.toConfig a.profile v) ↔
      ∀ v∈commonNames subject,CnApproved cfg.toConfig a.profile v := by
    rw [hsubject]
    obtain ⟨n,hn,hone,htext,hnil⟩|heq := commonNames_issuedSubject fun n hn => (hdns n hn).1
    · rw [hone,hnil]
      simpa using ⟨n,htext,(hdns n hn).2 hacme⟩
    · rw [heq]
  rw [NamesApproved,hcns,cnApproved_all_iff (hfirst hacme)]
  constructor
  · intro h
    obtain ⟨⟨hone,hmore⟩,halt⟩ := h
    exact ⟨hone,hmore,fun hno hdev e he n hn =>
      halt n (i.mem_allAltNames_dns.mpr (Or.inr ⟨hno,hdev,e,he,hn⟩))⟩
  · intro h
    refine ⟨⟨h.first,h.further⟩,fun n hn => ?_⟩
    obtain hn|⟨hno,hdev,e,he,hn⟩ := i.mem_allAltNames_dns.mp hn
    · exact (hdns n hn).2 hacme
    · exact h.stamped hno hdev e he n hn

def exampleConfig : IssueConfig := { leafConfig with allowedDomains := [octets "a.de"] }

def cnEntry (s : String) : NameEntry := ⟨commonName,⟨.utf8,octets s⟩⟩

/-- The certificate of a client under these names. -/
def namedCert (subject : Name) : Cert :=
  { deviceCert (purposeRequest "1.3.6.1.5.5.7.3.2") [] with subject := subject }

theorem issued_names_approved_iff_host :
    issueCertFromParts tlsObjects exampleConfig issuingCa ⟨1000,"1f",.ok ()⟩ [cnEntry "w.a.de"]
      (some ecKey) [] clientArgs=.ok (namedCert [cnEntry "w.a.de"]) ∧
    NamesApproved exampleConfig.toConfig clientProfile (namedCert [cnEntry "w.a.de"]) := by
  have hissue : issueCertFromParts tlsObjects exampleConfig issuingCa ⟨1000,"1f",.ok ()⟩
      [cnEntry "w.a.de"] (some ecKey) [] clientArgs=.ok (namedCert [cnEntry "w.a.de"]) := by rfl
  refine ⟨hissue,(issued_names_approved_iff _ _ _ _ _ _ _ _ _ hissue rfl).mpr ⟨?_,?_,?_⟩⟩
  · intro _
    decide
  · intro v hv
    cases hv
  · intro _ _ e he
    cases he

/-- A second commonName outside the approved domains goes through unread. -/
theorem names_second_cn_unapproved :
    issueCertFromParts tlsObjects exampleConfig issuingCa ⟨1000,"1f",.ok ()⟩
      [cnEntry "w.a.de",cnEntry "b.org"] (some ecKey) [] clientArgs=
      .ok (namedCert [cnEntry "w.a.de",cnEntry "b.org"]) ∧
    ¬NamesApproved exampleConfig.toConfig clientProfile
      (namedCert [cnEntry "w.a.de",cnEntry "b.org"]) := by
  refine ⟨rfl,fun h => ?_⟩
  obtain ⟨t,ht,hok⟩ := h.1 ⟨.utf8,octets "b.org"⟩ (by decide)
  obtain rfl : octets "b.org"=t := Option.some.inj ht
  exact absurd hok (by decide)

end FastPki.Issue
