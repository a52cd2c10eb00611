import FastPki.Issue.Usages

namespace FastPki.Issue

open FastPki.X509 FastPki.Profile FastPki.Policy

/-- The two extensions that say where to check a certificate. -/
inductive StatusPointer where
  | aia
  | crldp
  deriving DecidableEq

namespace StatusPointer

def oid : StatusPointer → Oid
  | aia => oidInfoAccess
  | crldp => oidCrlDistributionPoints

def urls (u : CaUrls) : StatusPointer → List String
  | aia => u.caIssuers++u.ocsp
  | crldp => u.crl

/-- The profile leaves the choice to the request, and the request makes it. -/
def delegated (a : IssueArgs) : StatusPointer → Bool
  | aia => a.profile.manageAia && a.omitAia
  | crldp => a.profile.manageCrldp && a.omitCrldp

end StatusPointer

/-- A certificate never says both "do not check" and "check it here", and says where to check
unless there is a reason not to. -/
structure RevocationStated (cfg : IssueConfig) (a : IssueArgs) (c : Cert) : Prop where
  apart : hasExt c.extensions oidOcspNoCheck=true →
    ∀ p : StatusPointer,hasExt c.extensions p.oid=false
  present : ∀ p : StatusPointer,p.urls (a.caUrls.getD cfg.caUrls)≠[] →
    hasExt c.extensions p.oid=false →
      hasExt c.extensions oidOcspNoCheck=true ∨ p.delegated a=true

/-- What is relied on of OpenSSL's reading of object identifiers. -/
structure ReadsOids (ssl : Openssl) : Prop where
  dotted : ∀ s o,ssl.txt2objDotted s=some o → ssl.txt2obj s=some o
  nocheck : ssl.txt2obj oidOcspNoCheck=some oidOcspNoCheck
  empty : ssl.txt2obj ""≠some oidOcspNoCheck

def StampsOne (ssl : Openssl) (a : IssueArgs) (oid : Oid) : Prop :=
  ∃ x∈a.profile.customExtensions,Stamps ssl oid x

/-- The request's nocheck is let through in its dotted form, or the profile stamps one. -/
def CarriesNocheck (ssl : Openssl) (a : IssueArgs) (exts : List Extension) : Prop :=
  (hasExt exts oidOcspNoCheck=true ∧
    ((passthrough a).any=true ∨ oidOcspNoCheck∈(passthrough a).oids)) ∨
  StampsOne ssl a oidOcspNoCheck

/-- The request's nocheck is let through under another spelling only. -/
def NamedOtherwise (ssl : Openssl) (a : IssueArgs) (exts : List Extension) : Prop :=
  hasExt exts oidOcspNoCheck=true ∧ (∃ o∈(passthrough a).oids,ssl.txt2obj o=some oidOcspNoCheck) ∧
    ¬CarriesNocheck ssl a exts

/-- A profile that stamps an extension where to check goes with no nocheck, and a nocheck is not
let through by another spelling, unless the certificate says where to check by a stamp or is free
not to. -/
structure NocheckSettled (ssl : Openssl) (cfg : IssueConfig) (a : IssueArgs)
    (exts : List Extension) : Prop where
  apart : CarriesNocheck ssl a exts → ∀ p : StatusPointer,¬StampsOne ssl a p.oid
  present : NamedOtherwise ssl a exts → ∀ p : StatusPointer,
    p.urls (a.caUrls.getD cfg.caUrls)≠[] → StampsOne ssl a p.oid ∨ p.delegated a=true

theorem stampStep_reads {ssl : Openssl} {cert out : List Extension} {x : CustomExt}
    (h : stampStep ssl cert x=.ok out) : x.oid="" ∨ ∃ o,ssl.txt2objDotted x.oid=some o := by
  simp only [stampStep] at h
  split_ifs at h with hempty
  · exact Or.inl hempty
  · split at h
    · cases h
    · next o ho => exact Or.inr ⟨o,ho⟩

theorem stamps_read {ssl : Openssl} {cert out : List Extension} {xs : List CustomExt}
    (h : xs.foldlM (stampStep ssl) cert=.ok out) :
    ∀ x∈xs,x.oid="" ∨ ∃ o,ssl.txt2objDotted x.oid=some o := by
  induction xs generalizing cert with
  | nil => simp
  | cons x xs ih =>
    rw [List.foldlM_cons,bind_eq_ok_iff] at h
    obtain ⟨mid,hmid,hrest⟩ := h
    intro y hy
    obtain rfl|hy := List.mem_cons.mp hy
    · exact stampStep_reads hmid
    · exact ih hrest y hy

/-- Stamping brings in the extensions of the OIDs it reads, and no others. -/
theorem hasExt_stamps {ssl : Openssl} {cert out : List Extension} {xs : List CustomExt}
    (h : xs.foldlM (stampStep ssl) cert=.ok out) (oid : Oid) :
    hasExt out oid=true ↔ hasExt cert oid=true ∨ ∃ x∈xs,Stamps ssl oid x := by
  induction xs generalizing cert with
  | nil =>
    obtain rfl := Except.ok.inj h
    simp
  | cons x xs ih =>
    rw [List.foldlM_cons,bind_eq_ok_iff] at h
    obtain ⟨mid,hmid,hrest⟩ := h
    have hstep : hasExt mid oid=true ↔ hasExt cert oid=true ∨ Stamps ssl oid x := by
      by_cases hx : Stamps ssl oid x
      · have hmid' : hasExt mid oid=true := by
          obtain ⟨e,_,hm⟩|⟨_,cv,_,hm⟩ := getExt_stampStep_of hmid hx
          · simp [hasExt,hm]
          · simp [hasExt,hm]
        simp [hmid',hx]
      · simp [hasExt,getExt_stampStep_of_not hmid hx,hx]
    rw [ih hrest,hstep,List.exists_mem_cons_iff,or_assoc]

theorem hasExt_optional (drop : Bool) (e : Extension) (oid : Oid) :
    hasExt (if drop then [] else [e]) oid=true ↔ drop=false ∧ e.oid=oid := by
  cases drop with
  | true => simp [hasExt,getExt]
  | false => simp [hasExt,getExt]

theorem hasExt_append (xs ys : List Extension) (oid : Oid) :
    hasExt (xs++ys) oid=true ↔ hasExt xs oid=true ∨ hasExt ys oid=true := by
  rw [hasExt,getExt_append,Option.isSome_or,Bool.or_eq_true]
  rfl

theorem hasExt_urlExts (a : IssueArgs) (u : CaUrls) (nocheck : Bool) (p : StatusPointer) :
    hasExt (urlExts a.profile u nocheck a.omitAia a.omitCrldp) p.oid=true ↔
      nocheck=false ∧ p.delegated a=false ∧ p.urls u≠[] := by
  rw [urlExts,hasExt_append,hasExt_optional,hasExt_optional]
  cases p with
  | aia =>
    have hne : oidCrlDistributionPoints≠oidInfoAccess := by decide
    simp [StatusPointer.oid,StatusPointer.delegated,StatusPointer.urls,hne,and_assoc]
  | crldp =>
    have hne : oidInfoAccess≠oidCrlDistributionPoints := by decide
    simp [StatusPointer.oid,StatusPointer.delegated,StatusPointer.urls,hne,and_assoc]

section

variable {ssl : Openssl} {cfg : IssueConfig} {ca : CaCert} {env : Env} {subject : Name}
  {pubkey : Option PublicKey} {exts : List Extension} {a : IssueArgs} {c : Cert}

/-- What the CA writes first. -/
theorem Issued.getExt_cert_eq_none (i : Issued ssl cfg ca env subject pubkey exts a c) {oid : Oid}
    (hoid : oid∉[oidKeyUsage,oidExtKeyUsage,oidSubjectAltName,oidBasicConstraints,
      oidSubjectKeyIdentifier,oidAuthorityKeyIdentifier,oidCertificatePolicies]) :
    getExt i.cert oid=none := by
  have hsan : oid≠oidSubjectAltName := by
    rintro rfl
    exact hoid (by decide)
  rw [getExt_withDeviceSerial i.written hsan,writtenExts,
    getExt_append_of_ne fun e he => by rw [copySan_oid he]; exact hsan.symm,getExt_eq_none_iff]
  obtain ⟨ku,eku,hku,heku,husage⟩ := usageExts_ok i.usages
  intro e he hsame
  apply hoid
  rw [← hsame]
  obtain he|he := writtenBase_oid he
  · rw [husage] at he
    obtain he|he := List.mem_append.mp he
    · rw [confExt_oid hku e he]
      decide
    · rw [confExt_oid heku e he]
      decide
  · exact List.mem_of_mem_drop (i := 3) he

/-- What is there in the end was there before the stamps or was stamped. -/
theorem Issued.hasExt_iff (i : Issued ssl cfg ca env subject pubkey exts a c) {oid : Oid}
    (hsda : oid≠oidSubjectDirectoryAttributes) (hcert : getExt i.cert oid=none) :
    hasExt c.extensions oid=true ↔
      ((eligible (passthrough a) oid=true ∧ hasExt exts oid=true) ∨
        hasExt (urlExts a.profile (a.caUrls.getD cfg.caUrls)
          (carriesOcspNocheck ssl a.profile (passthrough a) exts) a.omitAia a.omitCrldp) oid=true) ∨
      StampsOne ssl a oid := by
  have hfinal : c.extensions=i.stamped++ownerExts a.owner := congrArg Cert.extensions i.eq
  have howner : hasExt c.extensions oid=hasExt i.stamped oid := by
    rw [hfinal,hasExt,getExt_append_of_ne fun e he => by rw [ownerExts_oid he]; exact hsda.symm]
    rfl
  have hcopied : hasExt (copyExtsByOid (passthrough a) i.cert exts) oid=true ↔
      eligible (passthrough a) oid=true ∧ hasExt exts oid=true := by
    rw [hasExt,getExt_copyExtsByOid,hcert,Option.none_or]
    cases eligible (passthrough a) oid with
    | true => simp [hasExt]
    | false => simp
  rw [howner,hasExt_stamps i.stamps,hasExt_append,hcopied]
  rfl

theorem Issued.hasExt_pointer (i : Issued ssl cfg ca env subject pubkey exts a c)
    (p : StatusPointer) :
    hasExt c.extensions p.oid=true ↔ StampsOne ssl a p.oid ∨
      (carriesOcspNocheck ssl a.profile (passthrough a) exts=false ∧ p.delegated a=false ∧
        p.urls (a.caUrls.getD cfg.caUrls)≠[]) := by
  have hcert : getExt i.cert p.oid=none := i.getExt_cert_eq_none (by cases p <;> decide)
  have hel : eligible (passthrough a) p.oid=false := by cases p <;> simp [eligible,StatusPointer.oid]
  rw [i.hasExt_iff (by cases p <;> decide) hcert,hasExt_urlExts,hel]
  simp [or_comm]

theorem Issued.hasExt_nocheck (i : Issued ssl cfg ca env subject pubkey exts a c) :
    hasExt c.extensions oidOcspNoCheck=true ↔ CarriesNocheck ssl a exts := by
  have hcert : getExt i.cert oidOcspNoCheck=none := i.getExt_cert_eq_none (by decide)
  have hel : eligible (passthrough a) oidOcspNoCheck=true ↔
      (passthrough a).any=true ∨ oidOcspNoCheck∈(passthrough a).oids := by
    have htxt : objTxt oidOcspNoCheck=oidOcspNoCheck := by decide
    have hsda : oidOcspNoCheck≠oidSubjectDirectoryAttributes := by decide
    have haia : oidOcspNoCheck≠oidInfoAccess := by decide
    have hcrl : oidOcspNoCheck≠oidCrlDistributionPoints := by decide
    simp [eligible,htxt,hsda,haia,hcrl]
  have hurls : ∀ u nocheck,¬hasExt (urlExts a.profile u nocheck a.omitAia a.omitCrldp)
      oidOcspNoCheck=true := by
    intro u nocheck
    have hnone : getExt (urlExts a.profile u nocheck a.omitAia a.omitCrldp) oidOcspNoCheck=none := by
      refine getExt_eq_none_iff.mpr fun e he => ?_
      obtain h|h := urlExts_oid he
      · rw [h]
        decide
      · rw [h]
        decide
    simp [hasExt,hnone]
  rw [i.hasExt_iff (by decide) hcert,hel,CarriesNocheck,or_iff_left (hurls _ _),and_comm]

/-- The extensions are left out where a nocheck is carried, and where it is only named. -/
theorem Issued.carriesOcspNocheck_iff (i : Issued ssl cfg ca env subject pubkey exts a c)
    (hssl : ReadsOids ssl) :
    carriesOcspNocheck ssl a.profile (passthrough a) exts=true ↔
      CarriesNocheck ssl a exts ∨ NamedOtherwise ssl a exts := by
  rw [carriesOcspNocheck,Bool.or_eq_true,Bool.and_eq_true,Bool.or_eq_true,decide_eq_true_eq,
    List.any_eq_true]
  constructor
  · intro h
    obtain ⟨x,hx,hnid⟩|⟨hreq,hany|hnamed⟩ := h
    · left
      right
      have hnid' : ssl.txt2obj x.oid=some oidOcspNoCheck := by simpa using hnid
      obtain hempty|⟨o,ho⟩ := stamps_read i.stamps x hx
      · rw [hempty] at hnid'
        exact absurd hnid' hssl.empty
      · have hsame : o=oidOcspNoCheck := by
          rw [hssl.dotted _ _ ho] at hnid'
          exact Option.some.inj hnid'
        refine ⟨x,hx,?_,hsame ▸ ho⟩
        intro hempty
        rw [hempty] at hnid'
        exact hssl.empty hnid'
    · exact Or.inl (Or.inl ⟨hreq,Or.inl hany⟩)
    · by_cases hcarries : CarriesNocheck ssl a exts
      · exact Or.inl hcarries
      · exact Or.inr ⟨hreq,hnamed,hcarries⟩
  · intro h
    obtain (⟨hreq,hany|hlit⟩|⟨x,hx,hstamp⟩)|hother := h
    · exact Or.inr ⟨hreq,Or.inl hany⟩
    · exact Or.inr ⟨hreq,Or.inr ⟨_,hlit,hssl.nocheck⟩⟩
    · exact Or.inl ⟨x,hx,by simpa using hssl.dotted _ _ hstamp.2⟩
    · exact Or.inr ⟨hother.1,Or.inr hother.2.1⟩

/-- Where to check is stated consistently exactly when nothing is stamped against a nocheck and
none is let through by name only. -/
theorem revocation_stated_iff (hssl : ReadsOids ssl)
    (hissue : issueCertFromParts ssl cfg ca env subject pubkey exts a=.ok c) :
    RevocationStated cfg a c ↔ NocheckSettled ssl cfg a exts := by
  obtain ⟨i⟩ := issueCertFromParts_issued hissue
  have hpredicted := i.carriesOcspNocheck_iff hssl
  constructor
  · intro h
    refine ⟨fun hcarries p hstamp => ?_,fun hother p hurls => ?_⟩
    · have hno := h.apart (i.hasExt_nocheck.mpr hcarries) p
      rw [(i.hasExt_pointer p).mpr (Or.inl hstamp)] at hno
      cases hno
    · by_cases hstamp : StampsOne ssl a p.oid
      · exact Or.inl hstamp
      · have hmissing : hasExt c.extensions p.oid=false := by
          rw [Bool.eq_false_iff,ne_eq,i.hasExt_pointer p]
          rintro (hs|hs)
          · exact hstamp hs
          · rw [hpredicted.mpr (Or.inr hother)] at hs
            cases hs.1
        obtain hcarried|hdel := h.present p hurls hmissing
        · exact absurd (i.hasExt_nocheck.mp hcarried) hother.2.2
        · exact Or.inr hdel
  · intro h
    refine ⟨fun hcarried p => ?_,fun p hurls hmissing => ?_⟩
    · have hcarries := i.hasExt_nocheck.mp hcarried
      rw [Bool.eq_false_iff,ne_eq,i.hasExt_pointer p]
      rintro (hs|hs)
      · exact h.apart hcarries p hs
      · rw [hpredicted.mpr (Or.inl hcarries)] at hs
        cases hs.1
    · rw [Bool.eq_false_iff,ne_eq,i.hasExt_pointer p,not_or,not_and,not_and] at hmissing
      cases hp : carriesOcspNocheck ssl a.profile (passthrough a) exts with
      | false =>
        cases hdel : p.delegated a with
        | true => exact Or.inr rfl
        | false => exact absurd hurls (hmissing.2 hp hdel)
      | true =>
        obtain hcarries|hother := hpredicted.mp hp
        · exact Or.inl (i.hasExt_nocheck.mpr hcarries)
        · exact Or.inr ((h.present hother p hurls).resolve_left hmissing.1)

end

/-- The object table with the name of the nocheck extension. -/
def nocheckObjects : Openssl where
  txt2obj s := if s.toList.all (fun ch => ch.isDigit || ch = '.') && s ≠ "" then some s
    else if s = "noCheck" then some oidOcspNoCheck else none
  txt2objDotted s := if s.toList.all (fun ch => ch.isDigit || ch = '.') && s ≠ "" then some s else none
  obj2sn o := if o = oidOcspNoCheck then some "noCheck" else none
  genericExt _ _ := none
  nconf _ spec := if spec = "DER:05:00" then some (false,.raw [5,0]) else none
  critical_unknown := by decide

theorem nocheckObjects_reads : ReadsOids nocheckObjects where
  dotted s o h := by
    simp only [nocheckObjects] at h ⊢
    split_ifs at h with hs
    rw [if_pos hs]
    exact h
  nocheck := by decide
  empty := by decide

def nocheckExt : Extension := ⟨oidOcspNoCheck,false,.raw [5,0]⟩

def responderUrls : CaUrls := ⟨[],["http://a.de/ocsp"],["http://a.de/crl"]⟩

/-- A profile that lets through the extensions of these OIDs, as they are written. -/
def responderArgs (oids : Finset String) : IssueArgs :=
  { clientArgs with
    profile := { clientProfile with
      allowedEku := ∅,defaultEku := [],allowedCustomExtensions := oids }
    caUrls := some responderUrls }

theorem revocation_stated_iff_dotted :
    issueCertFromParts nocheckObjects leafConfig issuingCa ⟨1000,"1f",.ok ()⟩ deviceName (some ecKey)
      [nocheckExt] (responderArgs {oidOcspNoCheck})=.ok (deviceCert [] [nocheckExt]) ∧
    RevocationStated leafConfig (responderArgs {oidOcspNoCheck}) (deviceCert [] [nocheckExt]) := by
  have hissue : issueCertFromParts nocheckObjects leafConfig issuingCa ⟨1000,"1f",.ok ()⟩ deviceName
      (some ecKey) [nocheckExt] (responderArgs {oidOcspNoCheck})=
      .ok (deviceCert [] [nocheckExt]) := by rfl
  refine ⟨hissue,(revocation_stated_iff nocheckObjects_reads hissue).mpr ⟨?_,?_⟩⟩
  · intro _ p hstamp
    obtain ⟨x,hx,_⟩ := hstamp
    cases hx
  · intro hother
    exact absurd (Or.inl ⟨by decide,Or.inr (by decide)⟩) hother.2.2

/-- Let through by its name, the extension is not copied, and the pointers are left out for it. -/
theorem revocation_unstated_by_name :
    issueCertFromParts nocheckObjects leafConfig issuingCa ⟨1000,"1f",.ok ()⟩ deviceName (some ecKey)
      [nocheckExt] (responderArgs {"noCheck"})=.ok (deviceCert [] []) ∧
    ¬RevocationStated leafConfig (responderArgs {"noCheck"}) (deviceCert [] []) := by
  refine ⟨rfl,fun h => ?_⟩
  have hreason := h.present .aia (by decide) (by decide)
  exact absurd hreason (by decide)

end FastPki.Issue
