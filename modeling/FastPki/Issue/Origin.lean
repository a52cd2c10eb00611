import FastPki.Issue.Leaf

namespace FastPki.Issue

open FastPki.X509 FastPki.Profile FastPki.Policy

/-- The extension of this OID that the profile would stamp. -/
def stampedExt (ssl : Openssl) (xs : List CustomExt) (oid : Oid) : Option Extension :=
  (xs.find? fun x => x.oid ≠ "" ∧ ssl.txt2objDotted x.oid = some oid).bind fun x =>
    (ssl.nconf oid (stampSpec x)).map fun cv => ⟨oid,cv.1,cv.2⟩

theorem getExt_singleton (e : Extension) (oid : Oid) :
    getExt [e] oid=if e.oid=oid then some e else none := by
  by_cases h : e.oid=oid
  · simp [getExt,h]
  · simp [getExt,h]

theorem getExt_cons (e : Extension) (es : List Extension) (oid : Oid) :
    getExt (e::es) oid=if e.oid=oid then some e else getExt es oid := by
  by_cases h : e.oid=oid
  · simp [getExt,h]
  · simp [getExt,h]

/-- Copying keeps what is there and adds the first eligible extension of each further OID. -/
theorem getExt_copyExtsByOid (pass : Passthrough) (cert exts : List Extension) (oid : Oid) :
    getExt (copyExtsByOid pass cert exts) oid=
      (getExt cert oid).or (if eligible pass oid then getExt exts oid else none) := by
  simp only [copyExtsByOid]
  induction exts generalizing cert with
  | nil =>
    have hnil : getExt [] oid=none := rfl
    simp [hnil]
  | cons e es ih =>
    rw [List.foldl_cons,ih,getExt_cons]
    by_cases he : e.oid=oid
    · subst he
      rw [if_pos rfl]
      cases hc : getExt cert e.oid with
      | some e' =>
        have hstep : copyStep pass cert e=cert := by simp [copyStep,hasExt,hc]
        rw [hstep,hc]
        rfl
      | none =>
        by_cases hel : eligible pass e.oid=true
        · have hstep : copyStep pass cert e=cert++[e] := by simp [copyStep,hasExt,hc,hel]
          rw [hstep,getExt_append,hc,getExt_singleton,if_pos rfl]
          simp [hel]
        · have hstep : copyStep pass cert e=cert := by simp [copyStep,hel]
          rw [hstep,hc]
          simp [hel]
    · have hstep : getExt (copyStep pass cert e) oid=getExt cert oid := by
        simp only [copyStep]
        split_ifs
        · exact getExt_append_of_ne (by simpa using he)
        · rfl
      rw [hstep,if_neg he]

/-- This custom extension is of this OID. -/
def Stamps (ssl : Openssl) (oid : Oid) (x : CustomExt) : Prop :=
  x.oid≠"" ∧ ssl.txt2objDotted x.oid=some oid

theorem stampedExt_cons_of_not {ssl : Openssl} {x : CustomExt} {xs : List CustomExt} {oid : Oid}
    (hx : ¬Stamps ssl oid x) : stampedExt ssl (x::xs) oid=stampedExt ssl xs oid := by
  simp only [stampedExt]
  rw [List.find?_cons_of_neg (by simpa [Stamps] using hx)]

theorem stampedExt_cons_of {ssl : Openssl} {x : CustomExt} {xs : List CustomExt} {oid : Oid}
    (hx : Stamps ssl oid x) :
    stampedExt ssl (x::xs) oid=(ssl.nconf oid (stampSpec x)).map fun cv => ⟨oid,cv.1,cv.2⟩ := by
  simp only [stampedExt]
  rw [List.find?_cons_of_pos (by simpa [Stamps] using hx)]
  rfl

theorem getExt_stampStep_of_not {ssl : Openssl} {cert out : List Extension} {x : CustomExt}
    {oid : Oid} (h : stampStep ssl cert x=.ok out) (hx : ¬Stamps ssl oid x) :
    getExt out oid=getExt cert oid := by
  simp only [stampStep] at h
  split_ifs at h with hempty
  · obtain rfl := Except.ok.inj h
    rfl
  · split at h
    · cases h
    · next o ho =>
      have hne : o≠oid := by
        intro heq
        exact hx ⟨hempty,heq ▸ ho⟩
      split_ifs at h
      · obtain rfl := Except.ok.inj h
        rfl
      · split at h
        · cases h
        · obtain rfl := Except.ok.inj h
          exact getExt_append_of_ne (by simpa using hne)

theorem getExt_stampStep_of {ssl : Openssl} {cert out : List Extension} {x : CustomExt}
    {oid : Oid} (h : stampStep ssl cert x=.ok out) (hx : Stamps ssl oid x) :
    (∃ e,getExt cert oid=some e ∧ getExt out oid=some e) ∨
    (getExt cert oid=none ∧ ∃ cv,ssl.nconf oid (stampSpec x)=some cv ∧
      getExt out oid=some ⟨oid,cv.1,cv.2⟩) := by
  simp only [stampStep] at h
  rw [if_neg hx.1,hx.2] at h
  dsimp only at h
  split_ifs at h with hhas
  · obtain rfl := Except.ok.inj h
    obtain ⟨e,he⟩ := Option.isSome_iff_exists.mp hhas
    exact Or.inl ⟨e,he,he⟩
  · have hc : getExt cert oid=none := by simpa [hasExt] using hhas
    split at h
    · cases h
    · next cv hcv =>
      obtain rfl := Except.ok.inj h
      refine Or.inr ⟨hc,cv,hcv,?_⟩
      rw [getExt_append,hc,getExt_singleton,if_pos rfl]
      rfl

/-- Stamping keeps what is there and adds the profile's first extension of each further OID. -/
theorem getExt_stamps {ssl : Openssl} {cert out : List Extension} {xs : List CustomExt}
    (h : xs.foldlM (stampStep ssl) cert=.ok out) (oid : Oid) :
    getExt out oid=(getExt cert oid).or (stampedExt ssl xs oid) := by
  induction xs generalizing cert with
  | nil =>
    obtain rfl := Except.ok.inj h
    exact (Option.or_none ..).symm
  | cons x xs ih =>
    rw [List.foldlM_cons,bind_eq_ok_iff] at h
    obtain ⟨mid,hmid,hrest⟩ := h
    rw [ih hrest]
    by_cases hx : Stamps ssl oid x
    · obtain ⟨e,hc,hm⟩|⟨hc,cv,hcv,hm⟩ := getExt_stampStep_of hmid hx
      · rw [hc,hm]
        rfl
      · rw [hc,hm,stampedExt_cons_of hx,hcv]
        rfl
    · rw [getExt_stampStep_of_not hmid hx,stampedExt_cons_of_not hx]

/-- The OIDs of which the CA writes the extension itself, the usages apart. -/
def caOids : List Oid :=
  [oidBasicConstraints,oidSubjectKeyIdentifier,oidAuthorityKeyIdentifier,oidCertificatePolicies,
    oidSubjectAltName,oidInfoAccess,oidCrlDistributionPoints,oidSubjectDirectoryAttributes]

theorem getExt_eraseP_of_ne {exts : List Extension} {erased oid : Oid} (hne : erased≠oid) :
    getExt (exts.eraseP (·.oid=erased)) oid=getExt exts oid := by
  induction exts with
  | nil => rfl
  | cons e es ih =>
    by_cases he : e.oid=erased
    · rw [List.eraseP_cons_of_pos (by simpa using he),getExt_cons,if_neg (by rw [he]; exact hne)]
    · rw [List.eraseP_cons_of_neg (by simpa using he),getExt_cons,getExt_cons,ih]

theorem getExt_withDeviceSerial {a : IssueArgs} {cert out : List Extension} {subject : Name}
    (h : withDeviceSerial a cert subject=.ok out) {oid : Oid} (hne : oid≠oidSubjectAltName) :
    getExt out oid=getExt cert oid := by
  simp only [withDeviceSerial,addPermanentIdentifier] at h
  split_ifs at h
  · obtain rfl := Except.ok.inj h
    rw [getExt_append_of_ne (by simpa using hne.symm),getExt_eraseP_of_ne hne.symm]
  · obtain rfl := Except.ok.inj h
    rfl

theorem urlExts_oid {p : CertProfile} {urls : CaUrls} {nocheck omitAia omitCrldp : Bool}
    {e : Extension} (he : e∈urlExts p urls nocheck omitAia omitCrldp) :
    e.oid=oidInfoAccess ∨ e.oid=oidCrlDistributionPoints := by
  simp only [urlExts] at he
  obtain he|he := List.mem_append.mp he
  · split_ifs at he
    · cases he
    · exact Or.inl (by rw [List.mem_singleton.mp he])
  · split_ifs at he
    · cases he
    · exact Or.inr (by rw [List.mem_singleton.mp he])

theorem ownerExts_oid {owner : String} {e : Extension} (he : e∈ownerExts owner) :
    e.oid=oidSubjectDirectoryAttributes := by
  simp only [ownerExts] at he
  split_ifs at he
  · cases he
  · rw [List.mem_singleton.mp he]

theorem copySan_oid {exts : List Extension} {critical : Bool} {e : Extension}
    (he : e∈copySan exts critical) : e.oid=oidSubjectAltName := by
  simp only [copySan] at he
  obtain ⟨e',he',rfl⟩ := Option.map_eq_some_iff.mp (Option.mem_toList.mp he)
  change e'.oid=oidSubjectAltName
  exact getExt_oid he'

theorem writtenBase_oid {acme : Bool} {usage : List Extension} {e : Extension}
    (he : e∈writtenBase acme usage) :
    e∈usage ∨ e.oid∈[oidBasicConstraints,oidSubjectKeyIdentifier,oidAuthorityKeyIdentifier,
      oidCertificatePolicies] := by
  simp only [writtenBase,List.mem_append,List.mem_cons,List.not_mem_nil,or_false] at he
  obtain ((rfl|he)|rfl|rfl)|he := he
  · exact Or.inr (by decide)
  · exact Or.inl he
  · exact Or.inr (by decide)
  · exact Or.inr (by decide)
  · split_ifs at he
    · rw [List.mem_singleton.mp he]
      exact Or.inr (by decide)
    · cases he

theorem getExt_writtenBase {acme : Bool} {usage : List Extension} {oid : Oid}
    (hoid : oid∉caOids) : getExt (writtenBase acme usage) oid=getExt usage oid := by
  simp only [caOids,List.mem_cons,List.not_mem_nil,or_false,not_or] at hoid
  obtain ⟨hbc,hski,haki,hcp,_,_,_,_⟩ := hoid
  have hpolicies : ∀ e∈(if acme then [⟨oidCertificatePolicies,false,.text "2.23.140.1.2.1"⟩]
      else [] : List Extension),e.oid≠oid := by
    intro e he
    split_ifs at he
    · rw [List.mem_singleton.mp he]
      exact Ne.symm hcp
    · cases he
  simp only [writtenBase]
  rw [getExt_append_of_ne hpolicies,
    getExt_append_of_ne (by simp [Ne.symm hski,Ne.symm haki]),getExt_append,getExt_singleton,
    if_neg (Ne.symm hbc)]
  rfl

theorem getExt_writtenExts {acme : Bool} {usage exts : List Extension} {subject : Name} {oid : Oid}
    (hoid : oid∉caOids) : getExt (writtenExts acme usage exts subject) oid=getExt usage oid := by
  have hsan : oidSubjectAltName≠oid := by
    intro h
    exact hoid (h ▸ by decide)
  simp only [writtenExts]
  rw [getExt_append_of_ne (fun e he => by rw [copySan_oid he]; exact hsan),
    getExt_writtenBase hoid]

theorem getExt_eq_none_iff {exts : List Extension} {oid : Oid} :
    getExt exts oid=none ↔ ∀ e∈exts,e.oid≠oid := by
  simp [getExt]

/-- There is at most one extension of this OID. -/
def Sole (oid : Oid) (exts : List Extension) : Prop :=
  exts.filter (·.oid=oid)=(getExt exts oid).toList

theorem sole_of_none {oid : Oid} {exts : List Extension} (h : ∀ e∈exts,e.oid≠oid) :
    Sole oid exts := by
  have hfilter : exts.filter (·.oid=oid)=[] := by simpa using h
  rw [Sole,hfilter,getExt_eq_none_iff.mpr h]
  rfl

theorem Sole.append_of_ne {oid : Oid} {xs ys : List Extension} (hx : Sole oid xs)
    (hy : ∀ e∈ys,e.oid≠oid) : Sole oid (xs++ys) := by
  have hfilter : ys.filter (·.oid=oid)=[] := by simpa using hy
  rw [Sole,List.filter_append,hfilter,List.append_nil,getExt_append_of_ne hy]
  exact hx

theorem Sole.append_new {oid : Oid} {xs : List Extension} (e : Extension)
    (hx : getExt xs oid=none) : Sole oid (xs++[e]) := by
  by_cases he : e.oid=oid
  · have hfilter : xs.filter (·.oid=oid)=[] := by simpa using getExt_eq_none_iff.mp hx
    rw [Sole,List.filter_append,hfilter,getExt_append,hx,getExt_singleton,if_pos he]
    simp [he]
  · exact (sole_of_none (getExt_eq_none_iff.mp hx)).append_of_ne (by simpa using he)

theorem Sole.copyExtsByOid {oid : Oid} {pass : Passthrough} {cert exts : List Extension}
    (h : Sole oid cert) : Sole oid (copyExtsByOid pass cert exts) := by
  simp only [Issue.copyExtsByOid]
  induction exts generalizing cert with
  | nil => exact h
  | cons e es ih =>
    refine ih ?_
    simp only [copyStep]
    split_ifs with hadd
    · by_cases he : e.oid=oid
      · subst he
        simp only [Bool.and_eq_true,hasExt,Bool.not_eq_true',Option.isSome_eq_false_iff,
          Option.isNone_iff_eq_none] at hadd
        exact Sole.append_new e hadd.2
      · exact h.append_of_ne (by simpa using he)
    · exact h

theorem Sole.stampStep {ssl : Openssl} {oid : Oid} {cert out : List Extension} {x : CustomExt}
    (hstep : stampStep ssl cert x=.ok out) (h : Sole oid cert) : Sole oid out := by
  simp only [Issue.stampStep] at hstep
  split_ifs at hstep
  · obtain rfl := Except.ok.inj hstep
    exact h
  · split at hstep
    · cases hstep
    · next o _ =>
      split_ifs at hstep with hhas
      · obtain rfl := Except.ok.inj hstep
        exact h
      · split at hstep
        · cases hstep
        · obtain rfl := Except.ok.inj hstep
          by_cases ho : o=oid
          · subst ho
            exact Sole.append_new _ (by simpa [hasExt] using hhas)
          · exact h.append_of_ne (by simpa using ho)

theorem Sole.stamps {ssl : Openssl} {oid : Oid} {cert out : List Extension} {xs : List CustomExt}
    (hs : xs.foldlM (Issue.stampStep ssl) cert=.ok out) (h : Sole oid cert) : Sole oid out := by
  induction xs generalizing cert with
  | nil =>
    obtain rfl := Except.ok.inj hs
    exact h
  | cons x xs ih =>
    rw [List.foldlM_cons,bind_eq_ok_iff] at hs
    obtain ⟨mid,hmid,hrest⟩ := hs
    exact ih hrest (h.stampStep hmid)

theorem confExt_ok {ssl : Openssl} {oid : Oid} {read : List String → Option ExtValue}
    {is : List String} {l : List Extension} (h : confExt ssl oid read is=.ok l) :
    (is=[] ∧ l=[]) ∨ (is≠[] ∧ ∃ v,l=[⟨oid,(splitCritical is).1,v⟩] ∧
      (if plainList (splitCritical is).2 then read (splitCritical is).2
        else ssl.genericExt oid (splitCritical is).2)=some v) := by
  rw [confExt] at h
  split_ifs at h with hnil
  · exact Or.inl ⟨hnil,(Except.ok.inj h).symm⟩
  · refine Or.inr ⟨hnil,?_⟩
    dsimp only at h
    split at h
    · next v hv => exact ⟨v,(Except.ok.inj h).symm,hv⟩
    · cases h

theorem confExt_oid {ssl : Openssl} {oid : Oid} {read : List String → Option ExtValue}
    {is : List String} {l : List Extension} (h : confExt ssl oid read is=.ok l) :
    ∀ e∈l,e.oid=oid := by
  obtain ⟨_,rfl⟩|⟨_,v,rfl,_⟩ := confExt_ok h
  · simp
  · simp

theorem usageExts_ok {ssl : Openssl} {pe : ProfileExtensions} {pk : PublicKey}
    {usage : List Extension} (h : usageExts ssl pe pk=.ok usage) :
    ∃ ku eku,confExt ssl oidKeyUsage (fun is => (is.mapM kuBit).map .keyUsage)
        (keyUsageForKey pe.keyUsage pk)=.ok ku ∧
      confExt ssl oidExtKeyUsage (fun is => (is.mapM (ekuPurpose ssl)).map .extKeyUsage)
        pe.extKeyUsage=.ok eku ∧ usage=ku++eku := by
  simp only [usageExts] at h
  simp only [bind_eq_ok_iff] at h
  obtain ⟨ku,hku,eku,heku,h⟩ := h
  exact ⟨ku,eku,hku,heku,(Except.ok.inj h).symm⟩

theorem writtenBase_not_san {ssl : Openssl} {pe : ProfileExtensions} {pk : PublicKey}
    {usage : List Extension} (h : usageExts ssl pe pk=.ok usage) (acme : Bool) :
    ∀ e∈writtenBase acme usage,e.oid≠oidSubjectAltName := by
  obtain ⟨ku,eku,hku,heku,rfl⟩ := usageExts_ok h
  intro e he
  obtain he|he := writtenBase_oid he
  · obtain he|he := List.mem_append.mp he
    · rw [confExt_oid hku e he]
      decide
    · rw [confExt_oid heku e he]
      decide
  · intro hsan
    rw [hsan] at he
    exact absurd he (by decide)

theorem getExt_writtenExts_san {ssl : Openssl} {pe : ProfileExtensions} {pk : PublicKey}
    {acme : Bool} {usage exts : List Extension} {subject : Name}
    (h : usageExts ssl pe pk=.ok usage) :
    getExt (writtenExts acme usage exts subject) oidSubjectAltName=
      (getExt exts oidSubjectAltName).map fun e => { e with critical := subject=[] } := by
  have hnone := getExt_eq_none_iff.mpr (writtenBase_not_san h acme)
  simp only [writtenExts]
  rw [getExt_append,hnone,Option.none_or,copySan]
  cases he : getExt exts oidSubjectAltName with
  | none => rfl
  | some e =>
    change getExt [_] oidSubjectAltName=_
    rw [getExt_singleton,if_pos (getExt_oid he)]
    rfl

theorem eraseP_writtenExts_san {ssl : Openssl} {pe : ProfileExtensions} {pk : PublicKey}
    {acme : Bool} {usage exts : List Extension} {subject : Name}
    (h : usageExts ssl pe pk=.ok usage) :
    (writtenExts acme usage exts subject).eraseP (·.oid=oidSubjectAltName)=
      writtenBase acme usage := by
  have hbase : ∀ e∈writtenBase acme usage,¬(decide (e.oid=oidSubjectAltName))=true := by
    intro e he
    simpa using writtenBase_not_san h acme e he
  simp only [writtenExts]
  rw [List.eraseP_append_right _ hbase,copySan]
  cases he : getExt exts oidSubjectAltName with
  | none => exact List.append_nil _
  | some e =>
    change writtenBase acme usage++List.eraseP _ [_]=_
    rw [List.eraseP_cons_of_pos (by simpa using getExt_oid he),List.append_nil]

theorem usageExts_sole {ssl : Openssl} {pe : ProfileExtensions} {pk : PublicKey}
    {usage : List Extension} (h : usageExts ssl pe pk=.ok usage) (oid : Oid) : Sole oid usage := by
  obtain ⟨ku,eku,hku,heku,rfl⟩ := usageExts_ok h
  have hsingle : ∀ e : Extension,Sole oid [e] := by
    intro e
    exact (show Sole oid ([]++[e]) from Sole.append_new e rfl)
  obtain ⟨_,rfl⟩|⟨_,v,rfl,_⟩ := confExt_ok hku
  · obtain ⟨_,rfl⟩|⟨_,w,rfl,_⟩ := confExt_ok heku
    · exact sole_of_none (by simp)
    · exact hsingle _
  · obtain ⟨_,rfl⟩|⟨_,w,rfl,_⟩ := confExt_ok heku
    · exact hsingle _
    · by_cases hoid : oidKeyUsage=oid
      · refine (hsingle _).append_of_ne ?_
        rw [← hoid]
        simpa using (by decide : oidExtKeyUsage≠oidKeyUsage)
      · refine Sole.append_new _ ?_
        rw [getExt_singleton,if_neg hoid]

variable {ssl : Openssl} {cfg : IssueConfig} {ca : CaCert} {env : Env} {subject : Name}
  {pubkey : Option PublicKey} {exts : List Extension} {a : IssueArgs} {c : Cert}

/-- After what the CA wrote itself, an extension comes from the request where its OID is let
through, else from the profile's stamps. -/
theorem Issued.getExt_cert (i : Issued ssl cfg ca env subject pubkey exts a c) {oid : Oid}
    (haia : oid≠oidInfoAccess) (hcrl : oid≠oidCrlDistributionPoints)
    (hsda : oid≠oidSubjectDirectoryAttributes) :
    getExt c.extensions oid=
      ((getExt i.cert oid).or (if eligible (passthrough a) oid then getExt exts oid else none)).or
        (stampedExt ssl a.profile.customExtensions oid) := by
  have hfinal : c.extensions=i.stamped++ownerExts a.owner := congrArg Cert.extensions i.eq
  rw [hfinal,getExt_append_of_ne (fun e he => by rw [ownerExts_oid he]; exact hsda.symm),
    getExt_stamps i.stamps,getExt_append_of_ne (fun e he => ?_),getExt_copyExtsByOid]
  obtain h|h := urlExts_oid he
  · rw [h]
    exact haia.symm
  · rw [h]
    exact hcrl.symm

theorem Issued.getExt_eq (i : Issued ssl cfg ca env subject pubkey exts a c) {oid : Oid}
    (hoid : oid∉caOids) :
    getExt c.extensions oid=
      ((getExt i.usage oid).or (if eligible (passthrough a) oid then getExt exts oid else none)).or
        (stampedExt ssl a.profile.customExtensions oid) := by
  have hca := hoid
  simp only [caOids,List.mem_cons,List.not_mem_nil,or_false,not_or] at hoid
  obtain ⟨_,_,_,_,hsan,haia,hcrl,hsda⟩ := hoid
  rw [i.getExt_cert haia hcrl hsda,getExt_withDeviceSerial i.written hsan,getExt_writtenExts hca]

/-- The certificate is to name the device whose serial was attested. -/
def NamesDevice (a : IssueArgs) : Prop := a.attestedSerial≠[] ∧ a.profile.deviceSerialSan=true

instance : Decidable (NamesDevice a) := inferInstanceAs (Decidable (_ ∧ _))

theorem Issued.cert_eq (i : Issued ssl cfg ca env subject pubkey exts a c)
    (hno : ¬NamesDevice a) :
    i.cert=writtenExts a.acme i.usage exts (issuedSubject subject exts) := by
  have hno' : ¬(a.attestedSerial≠[] ∧ a.profile.deviceSerialSan=true) := hno
  have hw := i.written
  rw [withDeviceSerial,if_neg hno'] at hw
  exact (Except.ok.inj hw).symm

theorem Issued.cert_eq_device (i : Issued ssl cfg ca env subject pubkey exts a c)
    (hdev : NamesDevice a) :
    ∃ critical,i.cert=writtenBase a.acme i.usage++[⟨oidSubjectAltName,critical,
      .subjectAltName (subjectAltNamesOf exts++[GeneralName.otherName a.attestedSerial])⟩] := by
  have hdev' : a.attestedSerial≠[] ∧ a.profile.deviceSerialSan=true := hdev
  have hw := i.written
  rw [withDeviceSerial,if_pos hdev',addPermanentIdentifier] at hw
  split_ifs at hw
  have hnames : subjectAltNamesOf
      (writtenExts a.acme i.usage exts (issuedSubject subject exts))=subjectAltNamesOf exts := by
    simp only [subjectAltNamesOf]
    rw [getExt_writtenExts_san i.usages]
    cases getExt exts oidSubjectAltName with
    | none => rfl
    | some e => rfl
  rw [hnames,eraseP_writtenExts_san i.usages] at hw
  exact ⟨_,(Except.ok.inj hw).symm⟩

/-- Nothing that comes after the CA's own extensions repeats one of them. -/
theorem Issued.sole (i : Issued ssl cfg ca env subject pubkey exts a c) {oid : Oid}
    (haia : oid≠oidInfoAccess) (hcrl : oid≠oidCrlDistributionPoints)
    (hsda : oid≠oidSubjectDirectoryAttributes) (hcert : Sole oid i.cert) :
    Sole oid c.extensions := by
  have hurls : Sole oid (copyExtsByOid (passthrough a) i.cert exts++
      urlExts a.profile (a.caUrls.getD cfg.caUrls)
        (carriesOcspNocheck ssl a.profile (passthrough a) exts) a.omitAia a.omitCrldp) := by
    refine hcert.copyExtsByOid.append_of_ne (fun e he => ?_)
    obtain h|h := urlExts_oid he
    · rw [h]
      exact haia.symm
    · rw [h]
      exact hcrl.symm
  have hfinal : c.extensions=i.stamped++ownerExts a.owner := congrArg Cert.extensions i.eq
  rw [hfinal]
  exact (hurls.stamps i.stamps).append_of_ne
    (fun e he => by rw [ownerExts_oid he]; exact hsda.symm)

/-- However the request and the profile are made up, the certificate has one subjectAltName
extension at most. -/
theorem Issued.sole_san (i : Issued ssl cfg ca env subject pubkey exts a c) :
    Sole oidSubjectAltName c.extensions := by
  have hbase := writtenBase_not_san i.usages a.acme
  refine i.sole (by decide) (by decide) (by decide) ?_
  by_cases hdev : NamesDevice a
  · obtain ⟨critical,hcert⟩ := i.cert_eq_device hdev
    rw [hcert]
    exact Sole.append_new _ (getExt_eq_none_iff.mpr hbase)
  · rw [i.cert_eq hdev,writtenExts,copySan]
    cases getExt exts oidSubjectAltName with
    | none => exact (sole_of_none hbase).append_of_ne (by simp)
    | some e => exact Sole.append_new _ (getExt_eq_none_iff.mpr hbase)

theorem writtenBase_sole {acme : Bool} {usage : List Extension} {oid : Oid} (hoid : oid∉caOids)
    (h : Sole oid usage) : Sole oid (writtenBase acme usage) := by
  have hfilter : (writtenBase acme usage).filter (·.oid=oid)=usage.filter (·.oid=oid) := by
    simp only [caOids,List.mem_cons,List.not_mem_nil,or_false,not_or] at hoid
    obtain ⟨hbc,hski,haki,hcp,_,_,_,_⟩ := hoid
    cases acme <;> simp [writtenBase,Ne.symm hbc,Ne.symm hski,Ne.symm haki,Ne.symm hcp]
  rw [Sole,hfilter,getExt_writtenBase hoid]
  exact h

/-- The same for every extension that the CA writes from the usages alone. -/
theorem Issued.sole_usage (i : Issued ssl cfg ca env subject pubkey exts a c) {oid : Oid}
    (hoid : oid∉caOids) : Sole oid c.extensions := by
  have hbase : Sole oid (writtenBase a.acme i.usage) :=
    writtenBase_sole hoid (usageExts_sole i.usages oid)
  simp only [caOids,List.mem_cons,List.not_mem_nil,or_false,not_or] at hoid
  obtain ⟨_,_,_,_,hsan,haia,hcrl,hsda⟩ := hoid
  refine i.sole haia hcrl hsda ?_
  by_cases hdev : NamesDevice a
  · obtain ⟨critical,hcert⟩ := i.cert_eq_device hdev
    rw [hcert]
    exact hbase.append_of_ne (by simpa using Ne.symm hsan)
  · rw [i.cert_eq hdev,writtenExts]
    exact hbase.append_of_ne (fun e he => by rw [copySan_oid he]; exact Ne.symm hsan)

end FastPki.Issue
