import FastPki.Est.SelfRenewal
import FastPki.Issue.Held
import FastPki.Ms.Wstep

namespace FastPki.Ms

open X509 Rbac Profile Issue Certs Policy
open Backup (MsTemplate)

variable (rd : DerReader) (exts : List Extension)

/-- The template name of the first version, where the request has that extension. -/
def v1Name : Option Octets :=
  (getExt exts oidCertTypeV1).map fun e =>
    if extOctets e = [] then [] else decodeBmpName rd (extOctets e)

/-- The template OID of the second version, whole; `some none` is an extension without one. -/
def v2Oid : Option (Option Oid) :=
  (getExt exts oidCertTypeV2).map fun e =>
    if extOctets e = [] then none else templateOid rd (extOctets e)

/-- Every Microsoft template extension among these names the template. -/
def NamesTemplate (t : MsTemplate) : Prop :=
  (∀ e∈exts,e.oid=oidCertTypeV1 → v1Name rd [e]=some (octets t.name)) ∧
    ∀ e∈exts,e.oid=oidCertTypeV2 → v2Oid rd [e]=some (some t.oid)

/-- An OID of the second version that is no template's leaves no name of the first. -/
def NoFallback (known : List MsTemplate) : Prop :=
  ∀ oid,v2Oid rd exts=some (some oid) → (∀ t∈known,t.oid≠objTxt oid) →
    csrRequestedTemplate rd exts known=[]

/-- The versions that are present agree on a template. `permitted` are the templates of the caller:
an OID of more than 127 characters is matched by none, so that its template must come from the
first version or be the only one permitted. -/
def Agrees (known : List MsTemplate) (permitted : List String) : Prop :=
  match v2Oid rd exts with
  | none => v1Name rd exts≠some []
  | some none => False
  | some (some oid) => ∃ t∈known,t.oid=oid ∧ (v1Name rd exts=none ∨ v1Name rd exts=some (octets t.name)) ∧
      (oid.length≤127 ∨ ((∀ u∈known,u.oid≠objTxt oid) ∧
        (v1Name rd exts≠none ∨ permitted=[t.name])))

variable {rd exts}

theorem octets_textOf {o : Octets} {s : String} (h : textOf o=some s) : octets s=o := by
  unfold textOf at h
  obtain ⟨cs,hcs,hs⟩ := Option.map_eq_some_iff.mp h
  have hsome : (ByteArray.utf8Decode? ⟨⟨o⟩⟩).isSome=true := by rw [hcs]; rfl
  have hencode := @ByteArray.utf8Encode_get_utf8Decode? ⟨⟨o⟩⟩ hsome
  have hget : (ByteArray.utf8Decode? ⟨⟨o⟩⟩).get hsome=cs := by simp [hcs]
  rw [hget] at hencode
  have hbytes : s.toByteArray=⟨⟨o⟩⟩ := by
    rw [← hs,← hencode]
    exact (String.utf8Encode_toList).symm.trans (by rw [String.toList_ofList])
  rw [octets,String.toUTF8_eq_toByteArray,hbytes]

theorem octets_eq_nil {s : String} : octets s=[] ↔ s="" := by
  constructor
  · intro h
    exact Est.octets_injective h
  · intro h
    rw [h]
    rfl

theorem templateOid_ne {der : Octets} {oid : Oid} (h : templateOid rd der=some oid) : oid≠"" := by
  obtain ⟨hd,_,hbranch⟩ := Option.bind_eq_some_iff.mp h
  split_ifs at hbranch
  have hfilter := (Option.filter_eq_some_iff.mp hbranch).2
  simpa using hfilter

theorem objTxt_ne {oid : Oid} (h : oid≠"") : objTxt oid≠"" := by
  intro heq
  apply h
  have hlist := congrArg String.toList heq
  rw [objTxt,String.toList_ofList] at hlist
  have hnil : oid.toList=[] := by
    cases hl : oid.toList with
    | nil => rfl
    | cons c l =>
      rw [hl] at hlist
      cases hlist
  exact String.toList_eq_nil_iff.mp hnil

theorem objTxt_eq_self_iff {oid : Oid} : objTxt oid=oid ↔ oid.length≤127 := by
  constructor
  · intro h
    have hlength := congrArg String.length h
    rw [objTxt,String.length_ofList,List.length_take,String.length_toList] at hlength
    omega
  · exact objTxt_of_length

/-- What is asked for, read from the two versions. -/
theorem csrRequestedTemplate_eq (known : List MsTemplate) :
    csrRequestedTemplate rd exts known=
      match (v2Oid rd exts).join with
      | none => (v1Name rd exts).getD []
      | some oid => ((known.find? (·.oid = objTxt oid)).map (octets ·.name)).getD
          ((v1Name rd exts).getD []) := by
  have hname : (if extDer exts oidCertTypeV1=[] then []
      else decodeBmpName rd (extDer exts oidCertTypeV1))=(v1Name rd exts).getD [] := by
    unfold extDer v1Name
    cases getExt exts oidCertTypeV1 with
    | none => rfl
    | some e => rfl
  have hoid : (if extDer exts oidCertTypeV2=[] then ""
      else decodeV2Oid rd (extDer exts oidCertTypeV2))=
        ((v2Oid rd exts).join.map objTxt).getD "" := by
    unfold extDer v2Oid
    cases getExt exts oidCertTypeV2 with
    | none => rfl
    | some e =>
      simp only [Option.map_some,Option.getD_some,Option.join_some]
      split_ifs
      · rfl
      · rfl
  simp only [csrRequestedTemplate,hname,hoid]
  cases hjoin : (v2Oid rd exts).join with
  | none => rfl
  | some oid =>
    have hne : oid≠"" := by
      unfold v2Oid at hjoin
      cases hext : getExt exts oidCertTypeV2 with
      | none => simp [hext] at hjoin
      | some e =>
        simp only [hext,Option.map_some,Option.join_some] at hjoin
        split_ifs at hjoin
        exact templateOid_ne hjoin
    simp only [Option.map_some,Option.getD_some,if_neg (objTxt_ne hne)]

/-- With one extension of the OID at most, every such extension is the first. -/
theorem getExt_of_sole {xs : List Extension} {oid : Oid} (h : Sole oid xs) {e : Extension}
    (he : e∈xs) (hoid : e.oid=oid) : getExt xs oid=some e := by
  have hmem : e∈xs.filter (·.oid=oid) := List.mem_filter.mpr ⟨he,by simpa using hoid⟩
  rw [show xs.filter (·.oid=oid)=_ from h] at hmem
  exact Option.mem_toList.mp hmem

/-- The extensions name the template where the two versions that a reader finds do. -/
theorem namesTemplate_iff {xs : List Extension} {t : MsTemplate} (h1 : Sole oidCertTypeV1 xs)
    (h2 : Sole oidCertTypeV2 xs) :
    NamesTemplate rd xs t ↔ (v1Name rd xs=none ∨ v1Name rd xs=some (octets t.name)) ∧
      (v2Oid rd xs=none ∨ v2Oid rd xs=some (some t.oid)) := by
  have hone : ∀ (e : Extension),e.oid=oidCertTypeV1 → getExt xs oidCertTypeV1=some e →
      v1Name rd [e]=v1Name rd xs := by
    intro e hoid hget
    rw [v1Name,v1Name,hget,getExt_singleton,if_pos hoid]
  have htwo : ∀ (e : Extension),e.oid=oidCertTypeV2 → getExt xs oidCertTypeV2=some e →
      v2Oid rd [e]=v2Oid rd xs := by
    intro e hoid hget
    rw [v2Oid,v2Oid,hget,getExt_singleton,if_pos hoid]
  constructor
  · intro h
    constructor
    · cases hget : getExt xs oidCertTypeV1 with
      | none =>
        left
        rw [v1Name,hget]
        rfl
      | some e =>
        right
        rw [← hone e (getExt_oid hget) hget]
        exact h.1 e (List.mem_of_find?_eq_some hget) (getExt_oid hget)
    · cases hget : getExt xs oidCertTypeV2 with
      | none =>
        left
        rw [v2Oid,hget]
        rfl
      | some e =>
        right
        rw [← htwo e (getExt_oid hget) hget]
        exact h.2 e (List.mem_of_find?_eq_some hget) (getExt_oid hget)
  · intro h
    constructor
    · intro e he hoid
      have hget := getExt_of_sole h1 he hoid
      rw [hone e hoid hget]
      refine h.1.resolve_left ?_
      rw [v1Name,hget]
      simp
    · intro e he hoid
      have hget := getExt_of_sole h2 he hoid
      rw [htwo e hoid hget]
      refine h.2.resolve_left ?_
      rw [v2Oid,hget]
      simp

section

variable {srv : Server} {env : Env} {certs : List StoredCert} {caCert : CaCert} {ca : String}
  {who : Caller} {csr : Csr} {t : MsTemplate} {c : Cert}

/-- The two template extensions of the request are on the certificate as they are. -/
theorem getExt_wstepIssue (h : wstepIssue srv env certs caCert ca who csr=.ok (t,c)) {oid : Oid}
    (hoid : oid=oidCertTypeV1 ∨ oid=oidCertTypeV2) :
    Sole oid c.extensions ∧ getExt c.extensions oid=getExt csr.extensions oid := by
  obtain ⟨subject,_,⟨i⟩⟩ := issued_of_wstepIssue h
  have hca : oid∉caOids := by rcases hoid with rfl | rfl <;> decide
  have hsan : oid≠oidSubjectAltName := by rcases hoid with rfl | rfl <;> decide
  have heligible : eligible (passthrough (issueArgs srv ca t who.username)) oid=true := by
    have hpass : passthrough (issueArgs srv ca t who.username)=
        ⟨[oidCertTypeV1,oidCertTypeV2].toFinset ∪ (∅ : Finset String).erase "*",
          decide ("*" ∈ (∅ : Finset String))⟩ := rfl
    rw [hpass]
    rcases hoid with rfl | rfl <;> decide
  have husage : getExt i.usage oid=none := by
    obtain ⟨ku,eku,hku,heku,husage⟩ := usageExts_ok i.usages
    rw [husage,getExt_eq_none_iff]
    intro e he
    rcases List.mem_append.mp he with he | he
    · rw [confExt_oid hku e he]
      rcases hoid with rfl | rfl <;> decide
    · rw [confExt_oid heku e he]
      rcases hoid with rfl | rfl <;> decide
  refine ⟨i.sole_usage hca,?_⟩
  rw [i.getExt_eq hca,husage,if_pos heligible,getExt_boundExts_of_ne _ _ hsan,Option.none_or]
  exact Option.or_none

theorem unnamedTemplate_ne_ok (want : Octets) : unnamedTemplate srv who want≠.ok t := by
  intro h
  rw [unnamedTemplate] at h
  split_ifs at h with hnil
  rw [resolveMsTemplate,hnil] at h
  cases h

/-- The template of a request, by the name that it asks for. -/
theorem templateFor_eq_ok (h : templateFor srv who csr=.ok t) :
    t∈srv.templates ∧
      (csrRequestedTemplate srv.der csr.extensions srv.templates≠[] →
        csrRequestedTemplate srv.der csr.extensions srv.templates=octets t.name) ∧
      (csrRequestedTemplate srv.der csr.extensions srv.templates=[] →
        templatesForIdentity srv.rbac.reader who srv.templates=[t.name]) := by
  simp only [templateFor] at h
  cases htext : textOf (csrRequestedTemplate srv.der csr.extensions srv.templates) with
  | none =>
    rw [htext] at h
    exact absurd h (unnamedTemplate_ne_ok _)
  | some requested => ?_
  rw [htext,Option.elim_some] at h
  have hoctets := octets_textOf htext
  obtain ⟨hmem,_,hasked,honly⟩ := resolveMsTemplate_eq_ok h
  rw [← hoctets]
  refine ⟨hmem,?_,?_⟩
  · intro hne
    have hreq : requested≠"" := fun heq => hne (octets_eq_nil.mpr heq)
    rw [hasked hreq]
  · intro hnil
    exact honly (octets_eq_nil.mp hnil)

section Agree

variable {known : List MsTemplate} {u : MsTemplate} {v1 : Option Octets} {oid : Oid}
  {permitted : List String}

/-- The OID is that of a known template. -/
theorem named_by_known (hoids : (known.map (·.oid)).Nodup) (hu : u∈known) (huoid : u.oid=objTxt oid) :
    ((v1=none ∨ v1=some (octets u.name)) ∧ oid=u.oid) ↔
      ∃ w∈known,w.oid=oid ∧ (v1=none ∨ v1=some (octets w.name)) ∧
        (oid.length≤127 ∨ ((∀ x∈known,x.oid≠objTxt oid) ∧ (v1≠none ∨ permitted=[w.name]))) := by
  constructor
  · intro hboth
    have hshort : oid.length≤127 := objTxt_eq_self_iff.mp (huoid.symm.trans hboth.2.symm)
    exact ⟨u,hu,hboth.2.symm,hboth.1,Or.inl hshort⟩
  · intro hagree
    obtain ⟨w,hw,hwoid,hwname,hlong | hlong⟩ := hagree
    · have hsame : w.oid=u.oid := by rw [hwoid,huoid,objTxt_eq_self_iff.mpr hlong]
      have hwu : w=u := List.inj_on_of_nodup_map hoids hw hu hsame
      subst hwu
      exact ⟨hwname,hwoid.symm⟩
    · exact absurd huoid (hlong.1 u hu)

/-- It is none's, so that the name or the grants have decided. -/
theorem named_by_unknown (hnames : (known.map (·.name)).Nodup) (hne : ∀ w∈known,octets w.name≠[])
    (ht : t∈known) (hunknown : ∀ w∈known,w.oid≠objTxt oid)
    (hasked : v1.getD []≠[] → v1.getD []=octets t.name)
    (honly : v1.getD []=[] → permitted=[t.name]) :
    ((v1=none ∨ v1=some (octets t.name)) ∧ oid=t.oid) ↔
      ∃ w∈known,w.oid=oid ∧ (v1=none ∨ v1=some (octets w.name)) ∧
        (oid.length≤127 ∨ ((∀ x∈known,x.oid≠objTxt oid) ∧ (v1≠none ∨ permitted=[w.name]))) := by
  constructor
  · intro hboth
    refine ⟨t,ht,hboth.2.symm,hboth.1,Or.inr ⟨hunknown,?_⟩⟩
    by_cases hnone : v1=none
    · right
      apply honly
      rw [hnone]
      rfl
    · exact Or.inl hnone
  · intro hagree
    obtain ⟨w,hw,hwoid,hwname,hlong⟩ := hagree
    have hwt : w=t := by
      rcases hlong with hshort | ⟨_,hchosen⟩
      · exact absurd (hwoid.trans (objTxt_eq_self_iff.mpr hshort).symm) (hunknown w hw)
      · apply List.inj_on_of_nodup_map hnames hw ht
        rcases hwname with hnone | hsome
        · have hsingle := honly (by rw [hnone]; rfl)
          have hpermitted := hchosen.resolve_left (not_not.mpr hnone)
          rw [hsingle] at hpermitted
          exact (List.cons.inj hpermitted).1.symm
        · rw [hsome] at hasked
          exact Est.octets_injective (hasked (hne w hw))
    subst hwt
    exact ⟨hwname,hwoid.symm⟩

end Agree

/-- A request is issued under a template that its extensions name where they agree on one. -/
theorem names_iff_agrees (hnames : (srv.templates.map (·.name)).Nodup)
    (hoids : (srv.templates.map (·.oid)).Nodup) (hnamed : ∀ t∈srv.templates,t.name≠"")
    (h : templateFor srv who csr=.ok t) :
    ((v1Name srv.der csr.extensions=none ∨
        v1Name srv.der csr.extensions=some (octets t.name)) ∧
      (v2Oid srv.der csr.extensions=none ∨ v2Oid srv.der csr.extensions=some (some t.oid))) ↔
      Agrees srv.der csr.extensions srv.templates
        (templatesForIdentity srv.rbac.reader who srv.templates) := by
  obtain ⟨ht,hasked,honly⟩ := templateFor_eq_ok h
  rw [csrRequestedTemplate_eq] at hasked honly
  have hne : ∀ u∈srv.templates,octets u.name≠[] := fun u hu heq =>
    hnamed u hu (octets_eq_nil.mp heq)
  unfold Agrees
  generalize hv1 : v1Name srv.der csr.extensions=v1 at *
  match hv2 : v2Oid srv.der csr.extensions with
  | none =>
    simp only [hv2,Option.join_none] at hasked honly
    cases v1 with
    | none => simp
    | some n =>
      simp only [Option.getD_some] at hasked
      by_cases hn : n=[]
      · have hmiss : ([] : Octets)≠octets t.name := fun heq => hne t ht heq.symm
        simp [hn,hmiss]
      · simp [hasked hn,hne t ht]
  | some none => simp
  | some (some oid) =>
    simp only [hv2,Option.join_some] at hasked honly
    simp only [reduceCtorEq,false_or,Option.some.injEq]
    cases hfind : srv.templates.find? (·.oid = objTxt oid) with
    | some u =>
      have hu : u∈srv.templates := List.mem_of_find?_eq_some hfind
      have huoid : u.oid=objTxt oid := by simpa using List.find?_some hfind
      simp only [hfind,Option.map_some,Option.getD_some] at hasked
      have hname : u.name=t.name := Est.octets_injective (hasked (hne u hu))
      have hut : u=t := List.inj_on_of_nodup_map hnames hu ht hname
      subst hut
      exact named_by_known hoids hu huoid
    | none =>
      have hunknown : ∀ u∈srv.templates,u.oid≠objTxt oid := by
        intro u hu
        simpa using List.find?_eq_none.mp hfind u hu
      simp only [hfind,Option.map_none,Option.getD_none] at hasked honly
      exact named_by_unknown hnames hne ht hunknown hasked honly

end

/-- For a request that is answered with a certificate, the template extensions on it name the
template it was issued under exactly when the request's own agree on one; and an unknown OID of the
second version leaves no name exactly when the first version has none. -/
theorem wstep_extensions_name_template_iff (srv : Server) (who : Caller) (csr : Csr)
    (hnames : (srv.templates.map (·.name)).Nodup) (hoids : (srv.templates.map (·.oid)).Nodup)
    (hnamed : ∀ t∈srv.templates,t.name≠"") :
    (∀ env certs caCert ca t c,wstepIssue srv env certs caCert ca who csr=.ok (t,c) →
      (NamesTemplate srv.der c.extensions t ↔ Agrees srv.der csr.extensions srv.templates
        (templatesForIdentity srv.rbac.reader who srv.templates))) ∧
    (NoFallback srv.der csr.extensions srv.templates ↔
      ∀ oid,v2Oid srv.der csr.extensions=some (some oid) →
        (∀ t∈srv.templates,t.oid≠objTxt oid) →
          v1Name srv.der csr.extensions=none ∨ v1Name srv.der csr.extensions=some []) := by
  constructor
  · intro env certs caCert ca t c h
    obtain ⟨_,_,ht,_⟩ := wstepIssue_eq_ok_iff.mp h
    obtain ⟨hsole1,hget1⟩ := getExt_wstepIssue h (Or.inl rfl)
    obtain ⟨hsole2,hget2⟩ := getExt_wstepIssue h (Or.inr rfl)
    have hname : v1Name srv.der c.extensions=v1Name srv.der csr.extensions := by
      rw [v1Name,v1Name,hget1]
    have hoid : v2Oid srv.der c.extensions=v2Oid srv.der csr.extensions := by
      rw [v2Oid,v2Oid,hget2]
    rw [namesTemplate_iff hsole1 hsole2,hname,hoid]
    exact names_iff_agrees hnames hoids hnamed ht
  · refine forall_congr' fun oid => forall_congr' fun hv2 => forall_congr' fun hunknown => ?_
    have hfind : srv.templates.find? (·.oid = objTxt oid)=none := by
      rw [List.find?_eq_none]
      intro u hu
      simpa using hunknown u hu
    rw [csrRequestedTemplate_eq,hv2]
    simp only [Option.join_some,hfind,Option.map_none,Option.getD_none]
    cases v1Name srv.der csr.extensions with
    | none => simp
    | some n => simp

/-- A request that names the template `User` in both versions. -/
def userCsr : Csr := ⟨[],rsaKey,[userV1,templateV2 2]⟩

theorem wstep_extensions_name_template_iff_user :
    aliceRequest userCsr=.ok (userTemplate,aliceCert [0,2] [clientAuthExt] [userV1,templateV2 2]) ∧
    NamesTemplate shortDer (aliceCert [0,2] [clientAuthExt] [userV1,templateV2 2]).extensions
      userTemplate := by
  have hissue : aliceRequest userCsr=
      .ok (userTemplate,aliceCert [0,2] [clientAuthExt] [userV1,templateV2 2]) := by rfl
  have hboth := (wstep_extensions_name_template_iff wstepServer ⟨"dir\\alice","",[]⟩ userCsr
    (by decide) (by decide) (by decide)).1 _ _ _ _ _ _ hissue
  refine ⟨hissue,hboth.mpr ?_⟩
  exact ⟨userTemplate,by simp [wstepServer],rfl,Or.inr rfl,Or.inl (by decide)⟩

/-- A request whose second version names no template is issued under the one of its first version,
and its certificate carries the OID of no template. -/
theorem unknown_oid_falls_back :
    aliceRequest ⟨[],rsaKey,[userV1,templateV2 9]⟩=
      .ok (userTemplate,aliceCert [0,2] [clientAuthExt] [userV1,templateV2 9]) ∧
    ¬NamesTemplate shortDer (aliceCert [0,2] [clientAuthExt] [userV1,templateV2 9]).extensions
      userTemplate ∧
    ¬NoFallback shortDer [userV1,templateV2 9] wstepServer.templates := by
  refine ⟨rfl,?_,?_⟩
  · intro h
    have hoid := h.2 (templateV2 9) (by simp [aliceCert]) rfl
    exact absurd hoid (by decide)
  · intro h
    have hnone := h "1.3.6.1.4.1.311.21.8.9" (by decide) (by decide)
    exact absurd hnone (by decide)

end FastPki.Ms
