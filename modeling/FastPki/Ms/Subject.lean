import FastPki.Ms.Wstep

namespace FastPki.Ms

open X509 Rbac Profile Issue Certs Policy
open Backup (MsTemplate)

/-- The name of a principal: the user part as commonName, and the provider part, where there is one,
as domainComponent. -/
def principalName (user : String) : Name :=
  (if Auth.subjectUser (octets user) = [] then []
    else [⟨commonName,⟨.utf8,cString (Auth.subjectUser (octets user))⟩⟩])++
  (if Auth.subjectProvider (octets user) = [] then []
    else [⟨domainComponent,⟨.ia5,cString (Auth.subjectProvider (octets user))⟩⟩])

/-- The name flags are absent, or their low bit is clear. -/
def NameNotGranted (t : MsTemplate) : Prop := t.subjectNameFlags=-1 ∨ t.subjectNameFlags%2=0

theorem not_supplies {t : MsTemplate} (h : NameNotGranted t) :
    msTemplateEnrolleeSuppliesSubject t=false := by
  unfold msTemplateEnrolleeSuppliesSubject
  split_ifs with hnil
  · rfl
  · have heven : t.subjectNameFlags%2=0 := h.resolve_left hnil
    rw [decide_eq_false_iff_not,not_not,Nat.and_one_is_mod]
    omega

theorem withCommonName_nil {n : Name} {cn : Octets} (h : withCommonName [] cn=.ok n) :
    n=if cn=[] then [] else [⟨commonName,⟨.utf8,cString cn⟩⟩] := by
  unfold withCommonName at h
  split_ifs at h ⊢
  · exact (Except.ok.inj h).symm
  · have hadd := requireSome_eq_ok_iff.mp h
    simp only [addCommonName,List.filter_nil,List.nil_append] at hadd
    split at hadd
    · cases hadd
    · split_ifs at hadd
      exact (Option.some.inj hadd).symm

theorem withDomainComponent_eq {n m : Name} {dc : Octets} (h : withDomainComponent n dc=.ok m) :
    m=n++if dc=[] then [] else [⟨domainComponent,⟨.ia5,cString dc⟩⟩] := by
  unfold withDomainComponent at h
  split_ifs at h ⊢
  · rw [List.append_nil]
    exact (Except.ok.inj h).symm
  · have hadd := requireSome_eq_ok_iff.mp h
    simp only [addDomainComponent] at hadd
    split_ifs at hadd
    exact (Option.some.inj hadd).symm

/-- Whatever subject was asked for, the one that is bound is the principal's name. -/
theorem boundSubject_principal {t : MsTemplate} (h : NameNotGranted t) {user : String}
    {requested subject : Name} (hb : boundSubject (identityBinding t user) requested=.ok subject) :
    subject=principalName user := by
  simp only [identityBinding,not_supplies h,boundSubject,bind_eq_ok_iff] at hb
  obtain ⟨named,hnamed,grouped,hgrouped,hdomain⟩ := hb
  have hgroup : named=grouped := Except.ok.inj hgrouped
  subst hgroup
  have hcn : named=_ := withCommonName_nil hnamed
  rw [withDomainComponent_eq hdomain,hcn]
  rfl

section

variable {srv : Server} {env : Env} {certs : List StoredCert} {caCert : CaCert} {ca : String}
  {who : Caller} {csr : Csr} {t : MsTemplate} {c : Cert}

/-- One run: the certificate names the principal and nobody else. -/
theorem wstepIssue_names_principal (ht : NameNotGranted t)
    (h : wstepIssue srv env certs caCert ca who csr=.ok (t,c)) :
    c.subject=principalName who.username ∧ ∀ e∈c.extensions,e.oid≠oidSubjectAltName := by
  obtain ⟨subject,hsubject,⟨i⟩⟩ := issued_of_wstepIssue h
  have hreplace : (identityBinding t who.username).replaceSubject=true := by
    simp [identityBinding,not_supplies ht]
  have hsan := getExt_boundExts_san hreplace csr.extensions
  have hdns : firstDnsSan (boundExts (identityBinding t who.username) csr.extensions)=[] := by
    simp [firstDnsSan,subjectAltNamesOf,hsan]
  constructor
  · have hissued : c.subject=issuedSubject subject
        (boundExts (identityBinding t who.username) csr.extensions) := congrArg Cert.subject i.eq
    rw [hissued,issuedSubject,if_neg (fun hc => hc.2 hdns)]
    exact boundSubject_principal ht hsubject
  · have hdevice : ¬NamesDevice (issueArgs srv ca t who.username) := fun hd => hd.1 rfl
    have hnone : getExt c.extensions oidSubjectAltName=none := by
      rw [i.getExt_san hdevice,hsan]
      rfl
    exact getExt_eq_none_iff.mp hnone

end

/-- Two requests of one principal, under templates that do not let the enrollee choose the name:
whatever names they carry, the certificates have one subject, the principal's, and no alternative
name. -/
theorem wstep_requester_has_no_say_in_name {srv : Server} {env₁ env₂ : Env}
    {certs₁ certs₂ : List StoredCert} {caCert₁ caCert₂ : CaCert} {ca₁ ca₂ : String}
    {who₁ who₂ : Caller} {csr₁ csr₂ : Csr} {t₁ t₂ : MsTemplate} {c₁ c₂ : Cert}
    (h₁ : wstepIssue srv env₁ certs₁ caCert₁ ca₁ who₁ csr₁=.ok (t₁,c₁))
    (h₂ : wstepIssue srv env₂ certs₂ caCert₂ ca₂ who₂ csr₂=.ok (t₂,c₂))
    (hwho : who₁.username=who₂.username) (ht₁ : NameNotGranted t₁) (ht₂ : NameNotGranted t₂) :
    c₁.subject=c₂.subject ∧ c₁.subject=principalName who₁.username ∧
      (∀ e∈c₁.extensions,e.oid≠oidSubjectAltName) ∧ ∀ e∈c₂.extensions,e.oid≠oidSubjectAltName := by
  obtain ⟨hsubject₁,hsan₁⟩ := wstepIssue_names_principal ht₁ h₁
  obtain ⟨hsubject₂,hsan₂⟩ := wstepIssue_names_principal ht₂ h₂
  refine ⟨?_,hsubject₁,hsan₁,hsan₂⟩
  rw [hsubject₁,hsubject₂,hwho]

/-- A request that asks for somebody else's names. -/
def malloryCsr : Csr :=
  ⟨[⟨commonName,⟨.utf8,octets "mallory"⟩⟩],rsaKey,
    [⟨oidSubjectAltName,false,.subjectAltName [.dns (octets "x.org"),.email (octets "m@x.org")]⟩]⟩

theorem wstep_requester_has_no_say_in_name_mallory :
    aliceRequest malloryCsr=.ok (userTemplate,aliceCert [0,2] [clientAuthExt] []) ∧
    aliceRequest ⟨[],rsaKey,[]⟩=.ok (userTemplate,aliceCert [0,2] [clientAuthExt] []) ∧
    (aliceCert [0,2] [clientAuthExt] []).subject=principalName "dir\\alice" := by
  have hfirst : aliceRequest malloryCsr=.ok (userTemplate,aliceCert [0,2] [clientAuthExt] []) := by
    rfl
  have hsecond : aliceRequest ⟨[],rsaKey,[]⟩=
      .ok (userTemplate,aliceCert [0,2] [clientAuthExt] []) := by rfl
  have habsent : NameNotGranted userTemplate := Or.inl rfl
  exact ⟨hfirst,hsecond,
    (wstep_requester_has_no_say_in_name hfirst hsecond rfl habsent habsent).2.1⟩

end FastPki.Ms
