import FastPki.Issue.Builders

namespace FastPki.Issue

open FastPki.X509 FastPki.Profile FastPki.Policy

/-- What identifies a key and not the CA that holds it. -/
def keyIdentifiers : List Oid := [oidSubjectKeyIdentifier,oidAuthorityKeyIdentifier]

/-- Where the issuer of a certificate is found. -/
def addressOids : List Oid := [oidInfoAccess,oidCrlDistributionPoints]

/-- The OIDs that a CA builder writes, in its order. -/
def builtOids : List Oid :=
  [oidBasicConstraints,oidKeyUsage,oidSubjectKeyIdentifier,oidAuthorityKeyIdentifier,
    oidNameConstraints,oidInfoAccess,oidCrlDistributionPoints,oidCertificatePolicies]

/-- A certificate speaks for the CA of another one: it has its subject, each of its extensions but
those of `left`, and no extension twice. -/
structure Succeeds (left : List Oid) (src c : Cert) : Prop where
  subject : c.subject=src.subject
  carried : ∀ e∈src.extensions,e.oid∉left → e∈c.extensions
  once : (c.extensions.map (·.oid)).Nodup

/-- The extension takes the place of all those of its OID. -/
def replaceExt (exts : List Extension) (e : Extension) : List Extension :=
  exts.filter (·.oid ≠ e.oid)++[e]

theorem nodup_replaceExt {exts : List Extension} (h : (exts.map (·.oid)).Nodup) (e : Extension) :
    ((replaceExt exts e).map (·.oid)).Nodup := by
  rw [replaceExt,List.map_append,List.nodup_append]
  refine ⟨(List.filter_sublist.map _).nodup h,by simp,fun o ho o' ho' heq => ?_⟩
  obtain ⟨x,hx,rfl⟩ := List.mem_map.mp ho
  have ho' : o'=e.oid := by simpa using ho'
  have hne : x.oid≠e.oid := by simpa using (List.mem_filter.mp hx).2
  exact hne (heq.trans ho')

theorem nodup_foldl_replaceExt {es exts : List Extension} (h : (exts.map (·.oid)).Nodup) :
    ((es.foldl replaceExt exts).map (·.oid)).Nodup := by
  induction es generalizing exts with
  | nil => exact h
  | cons e es ih => exact ih (nodup_replaceExt h e)

theorem mem_foldl_replaceExt_of_ne {es exts : List Extension} {x : Extension} (hx : x∈exts)
    (hne : ∀ e∈es,e.oid≠x.oid) : x∈es.foldl replaceExt exts := by
  induction es generalizing exts with
  | nil => exact hx
  | cons e es ih =>
    have hkept : x∈replaceExt exts e := by
      have hoid : x.oid≠e.oid := (hne e List.mem_cons_self).symm
      simp [replaceExt,hx,hoid]
    exact ih hkept fun e' he' => hne e' (List.mem_cons_of_mem _ he')

/-- No later one takes the place of an extension that was put in, where the OIDs are distinct. -/
theorem mem_foldl_replaceExt {es exts : List Extension} (h : (es.map (·.oid)).Nodup)
    {x : Extension} (hx : x∈es) : x∈es.foldl replaceExt exts := by
  induction es generalizing exts with
  | nil => cases hx
  | cons e es ih =>
    obtain ⟨hnot,hrest⟩ := List.nodup_cons.mp h
    obtain rfl|hlater := List.mem_cons.mp hx
    · have hin : x∈replaceExt exts x := by simp [replaceExt]
      rw [List.foldl_cons]
      refine mem_foldl_replaceExt_of_ne hin fun e' he' heq => hnot ?_
      exact List.mem_map.mpr ⟨e',he',heq⟩
    · exact ih hrest hlater

/-- The OIDs that `copy_ca_identity_exts` passes over. -/
def leftOids (keepDstUrls : Bool) : List Oid :=
  keyIdentifiers++(if keepDstUrls then addressOids else [])

theorem mem_leftOids {keepDstUrls : Bool} {oid : Oid} :
    oid∈leftOids keepDstUrls ↔
      (oid=oidSubjectKeyIdentifier ∨ oid=oidAuthorityKeyIdentifier) ∨
        (keepDstUrls=true ∧ (oid=oidInfoAccess ∨ oid=oidCrlDistributionPoints)) := by
  cases keepDstUrls <;> simp [leftOids,keyIdentifiers,addressOids,or_assoc]

theorem copyCaIdentityExts_eq (dst src : Cert) (keepDstUrls : Bool) :
    copyCaIdentityExts dst src keepDstUrls={ dst with
      extensions := (src.extensions.filter (·.oid∉leftOids keepDstUrls)).foldl replaceExt
        dst.extensions } := by
  rw [copyCaIdentityExts]
  induction src.extensions generalizing dst with
  | nil => rfl
  | cons e es ih =>
    rw [List.foldl_cons,ih,List.filter_cons]
    by_cases hid : e.oid=oidSubjectKeyIdentifier ∨ e.oid=oidAuthorityKeyIdentifier
    · have hleft : e.oid∈leftOids keepDstUrls := mem_leftOids.mpr (Or.inl hid)
      simp [hid,hleft]
    · by_cases hurl : keepDstUrls=true ∧ (e.oid=oidInfoAccess ∨ e.oid=oidCrlDistributionPoints)
      · have hleft : e.oid∈leftOids keepDstUrls := mem_leftOids.mpr (Or.inr hurl)
        rw [if_neg hid,if_pos hurl,if_neg (by simpa using hleft)]
      · have hkept : e.oid∉leftOids keepDstUrls := by
          rw [mem_leftOids]
          exact not_or.mpr ⟨hid,hurl⟩
        simp [hid,hurl,hkept,replaceExt]

/-- What carrying over makes of a certificate that has no extension twice. -/
theorem Succeeds.of_copy {dst src : Cert} {keepDstUrls : Bool} (hsubject : dst.subject=src.subject)
    (hdst : (dst.extensions.map (·.oid)).Nodup) (hsrc : (src.extensions.map (·.oid)).Nodup) :
    Succeeds (leftOids keepDstUrls) src (copyCaIdentityExts dst src keepDstUrls) := by
  rw [copyCaIdentityExts_eq]
  refine ⟨hsubject,fun e he hleft => ?_,nodup_foldl_replaceExt hdst⟩
  have hkept : e∈src.extensions.filter (·.oid∉leftOids keepDstUrls) := by
    rw [List.mem_filter]
    exact ⟨he,decide_eq_true hleft⟩
  have hnodup := (List.filter_sublist (l := src.extensions)
    (p := fun e => decide (e.oid∉leftOids keepDstUrls))).map (·.oid)
  exact mem_foldl_replaceExt (hnodup.nodup hsrc) hkept

/-- `X509V3_EXT_conf_nid` makes an extension of the OID it is asked for. -/
def WritesOid (w : Workshop) : Prop :=
  ∀ issuer cert oid val e,w.extConfNid issuer cert oid val=some e → e.oid=oid

section Build

variable {w : Workshop} (hw : WritesOid w)
include hw

theorem addExtText_oids {issuer cert c : Cert} {oid : Oid} {val : String}
    (h : addExtText w issuer cert oid val=.ok c) :
    ∃ new,c.extensions=cert.extensions++new ∧ (new.map (·.oid)).Sublist [oid] := by
  simp only [addExtText] at h
  split_ifs at h with hval
  · exact ⟨[],by rw [← Except.ok.inj h,List.append_nil],by simp⟩
  · cases he : w.extConfNid issuer cert oid val with
    | none =>
      rw [he] at h
      cases h
    | some e =>
      rw [he] at h
      refine ⟨[e],by rw [← Except.ok.inj h],?_⟩
      rw [List.map_singleton,hw _ _ _ _ _ he]

/-- A list of texts writes at most one extension for each, in their order. -/
theorem addExtTexts_oids {issuer : Option Cert} {cert c : Cert} {texts : List (Oid × String)}
    (h : addExtTexts w issuer cert texts=.ok c) :
    ∃ new,c.extensions=cert.extensions++new ∧ (new.map (·.oid)).Sublist (texts.map (·.1)) := by
  induction texts generalizing cert with
  | nil => exact ⟨[],by rw [← Except.ok.inj h,List.append_nil],by simp⟩
  | cons t texts ih =>
    simp only [addExtTexts,List.foldlM_cons] at h
    obtain ⟨d,hd,hrest⟩ := bind_eq_ok_iff.mp h
    obtain ⟨first,hfirst,hsub⟩ := addExtText_oids hw hd
    obtain ⟨later,hlater,hsub'⟩ := ih hrest
    refine ⟨first++later,by rw [hlater,hfirst,List.append_assoc],?_⟩
    rw [List.map_append]
    exact hsub.append hsub'

omit hw in
theorem caTexts_oids (p : CaCertParams) (constraints : List String) :
    ((caTexts p constraints).map (·.1)).Sublist (builtOids.take 7) := by
  have optional (c : Prop) [Decidable c] (oid : Oid) (val : String) :
      ((if c then [] else [(oid,val)]).map (·.1)).Sublist [oid] := by
    split_ifs <;> simp
  simp only [caTexts,List.map_append,List.map_cons,List.map_nil]
  exact (((List.Sublist.refl _).append (optional _ _ _)).append (optional _ _ _)).append
    (optional _ _ _)

omit hw in
theorem addCertificatePolicies_oids {cert c : Cert} {policies : List String}
    (h : addCertificatePolicies w cert policies=.ok c) :
    ∃ new,c.extensions=cert.extensions++new ∧
      (new.map (·.oid)).Sublist [oidCertificatePolicies] := by
  simp only [addCertificatePolicies] at h
  obtain ⟨oids,_,h⟩ := bind_eq_ok_iff.mp h
  split_ifs at h
  · exact ⟨[],by rw [← Except.ok.inj h,List.append_nil],by simp⟩
  · exact ⟨_,by rw [← Except.ok.inj h],List.Sublist.refl _⟩

/-- A CA builder writes no extension twice. -/
theorem buildCaCertificateEx_once {key : Option PublicKey} {p : CaCertParams}
    {issuer : Option Cert} {c : Cert} (h : buildCaCertificateEx w key p issuer=.ok c) :
    (c.extensions.map (·.oid)).Nodup := by
  simp only [buildCaCertificateEx,bind_eq_ok_iff,requireSome_eq_ok_iff] at h
  obtain ⟨_,_,_,_,_,_,_,_,_,_,_,_,_,_,d,hd,h⟩ := h
  obtain ⟨texts,htexts,hsub⟩ := addExtTexts_oids hw hd
  obtain ⟨policies,hpolicies,hsub'⟩ := addCertificatePolicies_oids h
  have hstart : ∀ (b : Cert) (i : Option Cert),b.extensions=[] →
      (clampNotAfterToIssuer b i).extensions=[] := by
    intro b i hb
    cases i with
    | none => exact hb
    | some i =>
      simp only [clampNotAfterToIssuer]
      split_ifs
      · exact hb
      · exact hb
  rw [hstart _ _ rfl,List.nil_append] at htexts
  have hall : (c.extensions.map (·.oid)).Sublist builtOids := by
    rw [hpolicies,htexts,List.map_append]
    exact (hsub.trans (caTexts_oids _ _)).append hsub'
  exact hall.nodup (by decide)

end Build

/-- A CA that is cross-signed or renewed keeps its subject and every extension but its key
identifiers, and on renewal the addresses, and gets no extension twice. -/
theorem ca_successor_keeps_identity (w : Workshop) (hw : WritesOid w) (src : Cert)
    (hsrc : (src.extensions.map (·.oid)).Nodup) (c : Cert) :
    (∀ signerKey subjectPubkey p,crossSignCa w (some src) signerKey subjectPubkey p=.ok c →
      Succeeds keyIdentifiers src c) ∧
    ∀ subjectPubkey issuer issuerKey p,
      renewCaCertificate w (some src) subjectPubkey issuer issuerKey p=.ok c →
        Succeeds (keyIdentifiers++addressOids) src c := by
  constructor
  · intro signerKey subjectPubkey p h
    simp only [crossSignCa,bind_eq_ok_iff,requireSome_eq_ok_iff] at h
    obtain ⟨_,hsome,_,_,_,_,d,hd,_,_,hc⟩ := h
    obtain rfl := Option.some.inj hsome
    have honce := buildCaCertificateEx_once hw hd
    rw [← Except.ok.inj hc]
    exact @Succeeds.of_copy { d with subject := src.subject } src false rfl honce hsrc
  · intro subjectPubkey issuer issuerKey p h
    simp only [renewCaCertificate,bind_eq_ok_iff,requireSome_eq_ok_iff] at h
    obtain ⟨_,hsome,_,_,_,_,d,hd,_,_,hc⟩ := h
    obtain rfl := Option.some.inj hsome
    have honce := buildCaCertificateEx_once hw hd
    rw [← Except.ok.inj hc]
    exact @Succeeds.of_copy { d with
      subject := src.subject
      issuer := if issuer = none then src.subject else d.issuer } src true rfl honce hsrc

/-- A CA constrained to one name space, with a path length and addresses of its own. -/
def constrainedCa : Cert :=
  ⟨"07",[⟨commonName,⟨.printable,octets "Issuing CA"⟩⟩],[],ecCaKey,0,2000000,
    [⟨oidBasicConstraints,true,.text "CA:TRUE,pathlen:0"⟩,
      ⟨oidSubjectKeyIdentifier,false,.raw [1]⟩,
      ⟨oidNameConstraints,true,.text "permitted;DNS:corp.example"⟩,
      ⟨oidInfoAccess,false,.text "OCSP;URI:http://ocsp.example"⟩]⟩

theorem ca_successor_keeps_identity_constrained :
    WritesOid (plainWorkshop 1900000) ∧ (constrainedCa.extensions.map (·.oid)).Nodup ∧
    ∃ c d,crossSignCa (plainWorkshop 1900000) (some constrainedCa) true (some ecCaKey)
        (subCaParams 0)=.ok c ∧ Succeeds keyIdentifiers constrainedCa c ∧
      renewCaCertificate (plainWorkshop 1900000) (some constrainedCa) (some ecCaKey) none true
        (subCaParams 0)=.ok d ∧ Succeeds (keyIdentifiers++addressOids) constrainedCa d := by
  have hw : WritesOid (plainWorkshop 1900000) := by
    intro issuer cert oid val e he
    rw [← Option.some.inj he]
  have hsrc : (constrainedCa.extensions.map (·.oid)).Nodup := by decide
  refine ⟨hw,hsrc,_,_,rfl,?_,rfl,?_⟩
  · exact (ca_successor_keeps_identity _ hw _ hsrc _).1 true (some ecCaKey) (subCaParams 0) rfl
  · exact (ca_successor_keeps_identity _ hw _ hsrc _).2 (some ecCaKey) none true (subCaParams 0) rfl

end FastPki.Issue
