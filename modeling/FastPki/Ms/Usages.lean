import FastPki.Ms.Wstep

namespace FastPki.Ms

open X509 Rbac Profile Issue Certs Policy
open Backup (MsTemplate)

/-- What `issue_cert_from_parts` does once the usages are evaluated. -/
def issueWithUsages (ssl : Openssl) (cfg : IssueConfig) (ca : CaCert) (env : Env) (subject : Name)
    (pubkey : Option PublicKey) (exts : List Extension) (a : IssueArgs) (pe : ProfileExtensions) :
    Except Error Cert := do
  let subject := issuedSubject subject exts
  let pk ← requireSome pubkey ⟨1,"issuance: missing public key"⟩
  refuseIf (gmtimeAdj env.now (-clockSkewBackdateSec) = none) ⟨2,"notBefore adj failed"⟩
  refuseIf (gmtimeAdj env.now (60*60*24*validityDaysOf cfg a.profile) = none)
    ⟨2,"notAfter adj failed"⟩
  let usage ← usageExts ssl pe pk
  refuseIf (!ca.hasKeyId) ⟨2,"X509V3_EXT_conf_nid failed for "++oidAuthorityKeyIdentifier⟩
  let cert ← withDeviceSerial a (writtenExts a.acme usage exts subject) subject
  let copied := copyExtsByOid (passthrough a) cert exts
  let nocheck := carriesOcspNocheck ssl a.profile (passthrough a) exts
  let urls := urlExts a.profile (a.caUrls.getD cfg.caUrls) nocheck a.omitAia a.omitCrldp
  let stamped ← a.profile.customExtensions.foldlM (stampStep ssl) (copied ++ urls)
  let final := stamped ++ ownerExts a.owner
  refuseIf (subject = [] ∧ !hasExt final oidSubjectAltName)
    ⟨1,"issuance: refusing to sign a certificate with an empty subject and no "++
      "subjectAltName — it would identify nobody. The template grants "++
      "enrollee-supplies-subject and the request named nothing; send a subject or a "++
      "subjectAltName, or use a template where the CA builds the name."⟩
  env.sign
  return ⟨env.serial,subject,ca.subject,publishedKey pk,env.now-clockSkewBackdateSec,
    notAfterOf cfg ca a.profile env.now,final⟩

theorem issueCertFromParts_eq (ssl : Openssl) (cfg : IssueConfig) (ca : CaCert) (env : Env)
    (subject : Name) (pubkey : Option PublicKey) (exts : List Extension) (a : IssueArgs) :
    issueCertFromParts ssl cfg ca env subject pubkey exts a=(do
      enforceIssuancePolicy cfg.toConfig subject pubkey exts a.profile a.acme
      let pe ← evaluateProfileExtensions ssl a.profile exts
      issueWithUsages ssl cfg ca env subject pubkey exts a pe) := rfl

/-- The usages that are left of what is asked for, else of the template's own. -/
def usagesLeft (ssl : Openssl) (p : CertProfile) (ku eku : List String) : ProfileExtensions :=
  let keptE := keptEku ssl p (usageTokens eku p.defaultEku)
  let all := withImpliedKu p (keptKu p (usageTokens ku p.defaultKu)) keptE
  ⟨if all = [] then [] else "critical"::all.flatMap items,keptE.flatMap items⟩

/-- Every usage that the request asks for, in its canonical spelling, is one of the template's; a
star is every purpose. -/
def WithinTemplate (ssl : Openssl) (t : MsTemplate) (exts : List Extension) : Prop :=
  (∀ ku,requestedKu exts=.ok ku → ∀ k∈ku,k∈kuFromMsBitmap t.keyUsage) ∧
    ∀ eku,requestedEku ssl exts=.ok eku → ∀ e∈eku,
      "*"∈t.ekus ∨ canonicalEku ssl e∈t.ekus.map (canonicalEku ssl)

/-- The request asks for key usages, and none of them is the template's. -/
def KuAllOutside (t : MsTemplate) (exts : List Extension) : Prop :=
  ∃ ku,requestedKu exts=.ok ku ∧ ku≠[] ∧ ∀ k∈ku,k∉kuFromMsBitmap t.keyUsage

/-- Every other check that the request meets, with the usages that are left of it. -/
def PassesElse (srv : Server) (env : Env) (certs : List StoredCert) (caCert : CaCert) (ca : String)
    (who : Caller) (csr : Csr) (t : MsTemplate) : Prop :=
  ∃ cap,limitGate srv certs who csr=.ok cap ∧ msTemplateKeyRefusal t csr=none ∧
    ∃ subject,boundSubject (identityBinding t who.username) csr.subject=.ok subject ∧
      enforceIssuancePolicy srv.cfg.toConfig subject (some csr.pubkey)
        (boundExts (identityBinding t who.username) csr.extensions) (profileFromMsTemplate t)
        false=.ok () ∧
      ∃ ku eku,requestedKu csr.extensions=.ok ku ∧
        requestedEku srv.ssl csr.extensions=.ok eku ∧
        ∃ c,issueWithUsages srv.ssl srv.cfg caCert env subject (some csr.pubkey)
            (boundExts (identityBinding t who.username) csr.extensions)
            (issueArgs srv ca t who.username)
            (usagesLeft srv.ssl (profileFromMsTemplate t) ku eku)=.ok c ∧
          ∃ out,insertUnderCap certs (issuedRow c who.username ca) cap=.ok (some out)

theorem requestedKu_boundExts (b : IdentityBinding) (exts : List Extension) :
    requestedKu (boundExts b exts)=requestedKu exts := by
  rw [requestedKu,requestedKu,getExt_boundExts_of_ne b exts (by decide)]

theorem requestedEku_boundExts (ssl : Openssl) (b : IdentityBinding) (exts : List Extension) :
    requestedEku ssl (boundExts b exts)=requestedEku ssl exts := by
  rw [requestedEku,requestedEku,getExt_boundExts_of_ne b exts (by decide)]

/-- A template leaves nothing undecided: its evaluation refuses a malformed extension and key usages
of which none is left. -/
theorem evaluate_template_eq_ok_iff {ssl : Openssl} {t : MsTemplate} {exts : List Extension}
    {pe : ProfileExtensions} :
    evaluateProfileExtensions ssl (profileFromMsTemplate t) exts=.ok pe ↔
      ∃ ku eku,requestedKu exts=.ok ku ∧ requestedEku ssl exts=.ok eku ∧
        ¬(keptKu (profileFromMsTemplate t) (usageTokens ku (kuFromMsBitmap t.keyUsage))=[] ∧
          usageTokens ku (kuFromMsBitmap t.keyUsage)≠[]) ∧
        pe=usagesLeft ssl (profileFromMsTemplate t) ku eku := by
  have hdecided : refuseUndecided ssl (profileFromMsTemplate t) exts=.ok () := by
    rw [refuseUndecided]
    exact if_pos rfl
  simp only [evaluateProfileExtensions,bind_eq_ok_iff,refuseIf_eq_ok_iff]
  constructor
  · intro h
    obtain ⟨_,_,ku,hku,_,hkept,eku,heku,hpe⟩ := h
    exact ⟨ku,eku,hku,heku,hkept,(Except.ok.inj hpe).symm⟩
  · intro h
    obtain ⟨ku,eku,hku,heku,hkept,hpe⟩ := h
    exact ⟨(),hdecided,ku,hku,(),hkept,eku,heku,congrArg Except.ok hpe.symm⟩

/-- The names of the key usages are spelled without blanks. -/
theorem trimTok_kuNames {k : String} (h : k∈kuNames) : trimTok k=k ∧ k≠"" := by
  have hall : ∀ k∈kuNames,trimTok k=k ∧ k≠"" := by decide +kernel
  exact hall k h

theorem usageTokens_of_kuNames {ku default : List String} (h : ∀ k∈ku,k∈kuNames)
    (hd : ∀ k∈default,k∈kuNames) :
    usageTokens ku default=if ku=[] then default else ku := by
  have hself : ∀ l : List String,(∀ k∈l,k∈kuNames) → (l.map trimTok).filter (· ≠ "")=l := by
    intro l hl
    induction l with
    | nil => rfl
    | cons k l ih =>
      obtain ⟨htrim,hne⟩ := trimTok_kuNames (hl k List.mem_cons_self)
      rw [List.map_cons,htrim,List.filter_cons_of_pos (by simpa using hne),
        ih fun j hj => hl j (List.mem_cons_of_mem k hj)]
  unfold usageTokens
  split_ifs
  · exact hself default hd
  · exact hself ku h

theorem requestedKu_mem_kuNames {exts : List Extension} {ku : List String}
    (h : requestedKu exts=.ok ku) : ∀ k∈ku,k∈kuNames := by
  unfold requestedKu at h
  cases hext : getExt exts oidKeyUsage with
  | none =>
    rw [hext] at h
    have hnil : []=ku := Except.ok.inj h
    simp [← hnil]
  | some e =>
    rw [hext] at h
    cases hbits : d2iKeyUsage e with
    | none => simp [hbits] at h
    | some bits =>
      simp only [hbits] at h
      have hku := Except.ok.inj h
      intro k hk
      rw [← hku] at hk
      obtain ⟨n,hn,hname⟩ := List.mem_map.mp hk
      rw [← hname]
      exact (List.mem_zipIdx' (List.mem_filter.mp hn).1).2 ▸ List.getElem_mem _

theorem kuFromMsBitmap_mem_kuNames {bitmap : Nat} {k : String} (h : k∈kuFromMsBitmap bitmap) :
    k∈kuNames := by
  obtain ⟨b,hb,hname⟩ := List.mem_map.mp h
  rw [← hname]
  exact (List.of_mem_zip (List.mem_filter.mp hb).1).2

/-- The one refusal over usages: all that are asked for are dropped. -/
theorem none_kept_iff {t : MsTemplate} {ku : List String} (h : ∀ k∈ku,k∈kuNames) :
    (keptKu (profileFromMsTemplate t) (usageTokens ku (kuFromMsBitmap t.keyUsage))=[] ∧
      usageTokens ku (kuFromMsBitmap t.keyUsage)≠[]) ↔
      ku≠[] ∧ ∀ k∈ku,k∉kuFromMsBitmap t.keyUsage := by
  have hallowed : ∀ k,k∈(profileFromMsTemplate t).allowedKu ↔ k∈kuFromMsBitmap t.keyUsage :=
    fun k => List.mem_toFinset
  rw [usageTokens_of_kuNames h fun k hk => kuFromMsBitmap_mem_kuNames hk]
  split_ifs with hnil
  · constructor
    · intro hboth
      obtain ⟨k,hk⟩ := List.exists_mem_of_ne_nil _ hboth.2
      have hkept : k∈keptKu (profileFromMsTemplate t) (kuFromMsBitmap t.keyUsage) :=
        List.mem_filter.mpr ⟨hk,decide_eq_true ((hallowed k).mpr hk)⟩
      rw [hboth.1] at hkept
      cases hkept
    · intro hboth
      exact absurd hnil hboth.1
  · rw [keptKu,List.filter_eq_nil_iff,and_comm]
    refine and_congr_right fun _ => forall_congr' fun k => forall_congr' fun _ => ?_
    rw [decide_eq_true_eq,hallowed]

section

variable {srv : Server} {env : Env} {certs : List StoredCert} {caCert : CaCert} {ca : String}
  {who : Caller} {csr : Csr} {t : MsTemplate}

/-- A certificate is issued under a template where the request passes every other check and its key
usages, if it asks for any, are not all outside the template. -/
theorem wstepIssue_under_iff :
    (∃ c,wstepIssue srv env certs caCert ca who csr=.ok (t,c)) ↔
      templateFor srv who csr=.ok t ∧ ¬KuAllOutside t csr.extensions ∧
        PassesElse srv env certs caCert ca who csr t := by
  simp only [wstepIssue_eq_ok_iff,issueCertBound_eq_ok_iff,issueCertFromParts_eq,bind_eq_ok_iff]
  have hprofile : (issueArgs srv ca t who.username).profile=profileFromMsTemplate t := rfl
  rw [hprofile]
  simp only [evaluate_template_eq_ok_iff,requestedKu_boundExts,requestedEku_boundExts]
  constructor
  · intro h
    obtain ⟨c,cap,hcap,ht,hkey,⟨subject,hsubject,_,hpolicy,pe,hpe,hissue⟩,out,hout⟩ := h
    obtain ⟨ku,eku,hku,heku,hkept,rfl⟩ := hpe
    rw [none_kept_iff (requestedKu_mem_kuNames hku)] at hkept
    refine ⟨ht,?_,cap,hcap,hkey,subject,hsubject,hpolicy,ku,eku,hku,heku,c,hissue,out,hout⟩
    intro houtside
    obtain ⟨ku',hku',hall⟩ := houtside
    have hsame : ku'=ku := Except.ok.inj (hku'.symm.trans hku)
    subst hsame
    exact hkept hall
  · intro h
    obtain ⟨ht,hinside,cap,hcap,hkey,subject,hsubject,hpolicy,ku,eku,hku,heku,c,hissue,out,hout⟩ := h
    refine ⟨c,cap,hcap,ht,hkey,⟨subject,hsubject,(),hpolicy,_,⟨ku,eku,hku,heku,?_,rfl⟩,hissue⟩,
      out,hout⟩
    rw [none_kept_iff (requestedKu_mem_kuNames hku)]
    intro hall
    exact hinside ⟨ku,hku,hall⟩

end

/-- Whatever is issued was asked for within the template exactly when the request stays within it, has
key usages and none of them inside, or fails another check: usages outside the template are dropped
and not refused. -/
theorem wstep_usages_within_template_iff (srv : Server) (env : Env) (certs : List StoredCert)
    (caCert : CaCert) (ca : String) (who : Caller) (csr : Csr) :
    (∀ t c,wstepIssue srv env certs caCert ca who csr=.ok (t,c) →
      WithinTemplate srv.ssl t csr.extensions) ↔
    ∀ t,templateFor srv who csr=.ok t → WithinTemplate srv.ssl t csr.extensions ∨
      KuAllOutside t csr.extensions ∨ ¬PassesElse srv env certs caCert ca who csr t := by
  constructor
  · intro h t ht
    by_cases houtside : KuAllOutside t csr.extensions
    · exact Or.inr (Or.inl houtside)
    by_cases hpasses : PassesElse srv env certs caCert ca who csr t
    · obtain ⟨c,hissue⟩ := wstepIssue_under_iff.mpr ⟨ht,houtside,hpasses⟩
      exact Or.inl (h t c hissue)
    · exact Or.inr (Or.inr hpasses)
  · intro h t c hissue
    obtain ⟨ht,hinside,hpasses⟩ := wstepIssue_under_iff.mp ⟨c,hissue⟩
    rcases h t ht with hwithin | houtside | hrefused
    · exact hwithin
    · exact absurd houtside hinside
    · exact absurd hpasses hrefused

/-- A request for digitalSignature, which the template has, and for keyAgreement, which it has not,
is issued with the one and without the other. -/
theorem outside_usage_is_dropped :
    aliceRequest ⟨[],rsaKey,[⟨oidKeyUsage,true,.keyUsage [0,4]⟩]⟩=
      .ok (userTemplate,aliceCert [0] [clientAuthExt] []) ∧
    ¬WithinTemplate tlsObjects userTemplate [⟨oidKeyUsage,true,.keyUsage [0,4]⟩] := by
  refine ⟨rfl,?_⟩
  intro h
  have hku : requestedKu [⟨oidKeyUsage,true,.keyUsage [0,4]⟩]=
      .ok ["digitalSignature","keyAgreement"] := by rfl
  exact absurd (h.1 _ hku "keyAgreement" (by decide)) (by decide)

end FastPki.Ms
