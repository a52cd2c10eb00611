import FastPki.Issue.Origin

namespace FastPki.Issue

open FastPki.X509 FastPki.Profile FastPki.Policy

/-- The bit has a name the profile allows, and it suits the key. -/
def KuWithin (p : CertProfile) (pk : PublicKey) (b : Nat) : Prop :=
  (∃ n,kuNames[b]?=some n ∧ n∈p.allowedKu) ∧ (canEncipher pk=false → b≠2 ∧ b≠3)

/-- The profile allows every purpose, or this one under any of its spellings. -/
def EkuWithin (ssl : Openssl) (p : CertProfile) (o : Oid) : Prop :=
  "*"∈p.allowedEku ∨ objName ssl o∈p.allowedEku.image (canonicalEku ssl)

/-- What is read from all extensions of an OID. -/
def allOf {β : Type} (d2i : Extension → Option (List β)) (exts : List Extension) (oid : Oid) :
    List β :=
  (exts.filter (·.oid=oid)).flatMap fun e => (d2i e).getD []

/-- What the certificate may be used for stays within the profile and suits its key. -/
def UsagesWithin (ssl : Openssl) (p : CertProfile) (pk : PublicKey) (exts : List Extension) :
    Prop :=
  (∀ b∈allOf d2iKeyUsage exts oidKeyUsage,KuWithin p pk b) ∧
    ∀ o∈allOf d2iExtKeyUsage exts oidExtKeyUsage,EkuWithin ssl p o

/-- The name under which a requested purpose is compared is its canonical spelling. -/
def NamesRead (ssl : Openssl) (exts : List Extension) : Prop :=
  ∀ o∈extKeyUsageOf exts,trimTok (objName ssl o)≠"" ∧
    canonicalEku ssl (trimTok (objName ssl o))=objName ssl o

/-- The usages in question: those asked for, else the profile's own. -/
def kuTokens (p : CertProfile) (exts : List Extension) : List String :=
  usageTokens ((requestedKu exts).toOption.getD []) p.defaultKu

def ekuTokens (ssl : Openssl) (p : CertProfile) (exts : List Extension) : List String :=
  usageTokens ((requestedEku ssl exts).toOption.getD []) p.defaultEku

/-- The usages that are left to write. -/
def ekuLeft (ssl : Openssl) (p : CertProfile) (exts : List Extension) : List String :=
  keptEku ssl p (ekuTokens ssl p exts)

def kuLeft (ssl : Openssl) (p : CertProfile) (exts : List Extension) : List String :=
  withImpliedKu p (keptKu p (kuTokens p exts)) (ekuLeft ssl p exts)

/-- The items of the two texts that OpenSSL reads, behind `critical`. -/
def kuItems (ssl : Openssl) (p : CertProfile) (pk : PublicKey) (exts : List Extension) :
    List String :=
  keyUsageForKey ((kuLeft ssl p exts).flatMap items) pk

def ekuItems (ssl : Openssl) (p : CertProfile) (exts : List Extension) : List String :=
  (splitCritical ((ekuLeft ssl p exts).flatMap items)).2

/-- No key usage is in question, and no allowed purpose brings in the one it needs. -/
def NoKu (ssl : Openssl) (p : CertProfile) (exts : List Extension) : Prop :=
  kuTokens p exts=[] ∧ ("digitalSignature"∈p.allowedKu → ∀ t∈ekuTokens ssl p exts,
    "*"∈p.allowedEku ∨ canonicalEku ssl t∈p.allowedEku.image (canonicalEku ssl) →
      ekuKuRequired (canonicalEku ssl t)=[])

/-- None of the purposes in question is allowed. -/
def NoEku (ssl : Openssl) (p : CertProfile) (exts : List Extension) : Prop :=
  ∀ t∈ekuTokens ssl p exts,canonicalEku ssl t∉p.allowedEku.image (canonicalEku ssl)

/-- Where the text is a plain list of names, each allowed name is read as allowed key usages only;
where it is not, so is what OpenSSL's own syntax makes of it; and where no key usage is left to
write, neither the request's own extension nor else the profile's stamp brings in others. -/
structure KuConfined (ssl : Openssl) (a : IssueArgs) (pk : PublicKey) (exts : List Extension) :
    Prop where
  read : plainList (kuItems ssl a.profile pk exts)=true → ∀ t∈kuTokens a.profile exts,
    t∈a.profile.allowedKu → ∀ i∈keyUsageForKey (items t) pk,∀ b,kuBit i=some b →
      KuWithin a.profile pk b
  generic : plainList (kuItems ssl a.profile pk exts)=false →
    ∀ v,ssl.genericExt oidKeyUsage (kuItems ssl a.profile pk exts)=some v →
      ∀ b∈(d2iKeyUsage ⟨oidKeyUsage,true,v⟩).getD [],KuWithin a.profile pk b
  copied : NoKu ssl a.profile exts → eligible (passthrough a) oidKeyUsage=true →
    keyUsageOf exts=[]
  stamped : NoKu ssl a.profile exts →
    (eligible (passthrough a) oidKeyUsage && hasExt exts oidKeyUsage)=false →
    ∀ e,stampedExt ssl a.profile.customExtensions oidKeyUsage=some e →
      ∀ b∈(d2iKeyUsage e).getD [],KuWithin a.profile pk b

/-- The same for purposes, on a profile that does not allow every purpose. -/
structure EkuConfined (ssl : Openssl) (a : IssueArgs) (exts : List Extension) : Prop where
  read : plainList (ekuItems ssl a.profile exts)=true → ∀ t∈ekuTokens ssl a.profile exts,
    canonicalEku ssl t∈a.profile.allowedEku.image (canonicalEku ssl) →
    ∀ i∈items (canonicalEku ssl t),∀ o,ekuPurpose ssl i=some o → EkuWithin ssl a.profile o
  generic : plainList (ekuItems ssl a.profile exts)=false →
    ∀ v,ssl.genericExt oidExtKeyUsage (ekuItems ssl a.profile exts)=some v →
      ∀ o∈(d2iExtKeyUsage ⟨oidExtKeyUsage,false,v⟩).getD [],EkuWithin ssl a.profile o
  copied : NoEku ssl a.profile exts → eligible (passthrough a) oidExtKeyUsage=true →
    extKeyUsageOf exts=[]
  stamped : NoEku ssl a.profile exts →
    (eligible (passthrough a) oidExtKeyUsage && hasExt exts oidExtKeyUsage)=false →
    ∀ e,stampedExt ssl a.profile.customExtensions oidExtKeyUsage=some e →
      ∀ o∈(d2iExtKeyUsage e).getD [],EkuWithin ssl a.profile o

def UsagesConfined (ssl : Openssl) (a : IssueArgs) (pk : PublicKey) (exts : List Extension) :
    Prop :=
  KuConfined ssl a pk exts ∧ ("*"∉a.profile.allowedEku → EkuConfined ssl a exts)

theorem mem_mapM_iff {α β : Type} {f : α → Option β} {l : List α} {bs : List β}
    (h : l.mapM f=some bs) (b : β) : b∈bs ↔ ∃ i∈l,f i=some b := by
  induction l generalizing bs with
  | nil =>
    obtain rfl : []=bs := by simpa using h
    simp
  | cons i l ih =>
    rw [List.mapM_cons] at h
    obtain ⟨b0,hb0,h⟩ := Option.bind_eq_some_iff.mp h
    obtain ⟨bs0,hbs0,h⟩ := Option.bind_eq_some_iff.mp h
    obtain rfl := Option.some.inj h
    rw [List.mem_cons,ih hbs0,List.exists_mem_cons_iff,hb0]
    simp [eq_comm]

theorem keyUsageForKey_nil (pk : PublicKey) : keyUsageForKey [] pk=[] := by
  simp only [keyUsageForKey]
  split_ifs <;> rfl

theorem keyUsageForKey_append (xs ys : List String) (pk : PublicKey) :
    keyUsageForKey (xs++ys) pk=keyUsageForKey xs pk++keyUsageForKey ys pk := by
  simp only [keyUsageForKey]
  split_ifs
  · rfl
  · rw [List.map_append,List.filter_append]

theorem keyUsageForKey_critical (pk : PublicKey) :
    keyUsageForKey ["critical"] pk=["critical"] := by
  simp only [keyUsageForKey]
  split_ifs
  · rfl
  · decide

theorem mem_keyUsageForKey_flatMap {ku : List String} {pk : PublicKey} {i : String} :
    i∈keyUsageForKey (ku.flatMap items) pk ↔ ∃ t∈ku,i∈keyUsageForKey (items t) pk := by
  induction ku with
  | nil => simp [keyUsageForKey_nil]
  | cons t ku ih =>
    rw [List.flatMap_cons,keyUsageForKey_append,List.mem_append,ih,List.exists_mem_cons_iff]

theorem mem_splitCritical {is : List String} {i : String} :
    (i∈(splitCritical is).2 → i∈is) ∧ (i∈is → i≠"critical" → i∈(splitCritical is).2) := by
  simp only [splitCritical]
  split
  · next j rest =>
    refine ⟨List.mem_cons_of_mem _,fun h hne => ?_⟩
    obtain h|h := List.mem_cons.mp h
    · exact absurd h hne
    · exact h
  · exact ⟨id,fun h _ => h⟩

theorem getExt_confExt {ssl : Openssl} {oid : Oid} {read : List String → Option ExtValue}
    {is : List String} {l : List Extension} (h : confExt ssl oid read is=.ok l) (o : Oid) :
    getExt l o=if o=oid then l.head? else none := by
  obtain ⟨_,rfl⟩|⟨_,v,rfl,_⟩ := confExt_ok h
  · split_ifs <;> rfl
  · rw [getExt_singleton]
    by_cases ho : o=oid
    · rw [if_pos ho,if_pos ho.symm]
      rfl
    · rw [if_neg ho,if_neg (Ne.symm ho)]

/-- A key usage text that was accepted has items behind `critical`. -/
theorem kuText_ok {ssl : Openssl} {pk : PublicKey} {ku : List String} {l : List Extension}
    (h : confExt ssl oidKeyUsage (fun is => (is.mapM kuBit).map .keyUsage)
      (keyUsageForKey ("critical"::ku.flatMap items) pk)=.ok l) :
    ∃ v,l=[⟨oidKeyUsage,true,v⟩] ∧
      (if plainList (keyUsageForKey (ku.flatMap items) pk) then
          ((keyUsageForKey (ku.flatMap items) pk).mapM kuBit).map .keyUsage
        else ssl.genericExt oidKeyUsage (keyUsageForKey (ku.flatMap items) pk))=some v := by
  have hcons : keyUsageForKey ("critical"::ku.flatMap items) pk=
      "critical"::keyUsageForKey (ku.flatMap items) pk := by
    rw [← List.singleton_append,keyUsageForKey_append,keyUsageForKey_critical]
    rfl
  rw [hcons] at h
  obtain ⟨hnil,_⟩|⟨_,v,hl,hv⟩ := confExt_ok h
  · cases hnil
  · cases hrest : keyUsageForKey (ku.flatMap items) pk with
    | nil =>
      -- `critical` alone is no list, and no key usage either
      rw [hrest] at hv
      have hnone : (["critical"].mapM kuBit).map ExtValue.keyUsage=none := by decide
      have hp : plainList (splitCritical ["critical"]).2=true := by decide
      rw [if_pos hp] at hv
      exact absurd (hnone.symm.trans hv) (by simp)
    | cons i rest =>
      rw [hrest] at hv hl
      exact ⟨v,hl,hv⟩

/-- A plain key usage text is read as the bits of the items that suit the key. -/
theorem kuText_read {pk : PublicKey} {ku : List String} {v : ExtValue}
    (h : ((keyUsageForKey (ku.flatMap items) pk).mapM kuBit).map .keyUsage=some v) :
    ∃ bits,v=.keyUsage bits ∧
      ∀ b,b∈bits ↔ ∃ t∈ku,∃ i∈keyUsageForKey (items t) pk,kuBit i=some b := by
  obtain ⟨bits,hbits,rfl⟩ := Option.map_eq_some_iff.mp h
  refine ⟨bits,rfl,fun b => ?_⟩
  rw [mem_mapM_iff hbits b]
  constructor
  · intro hb
    obtain ⟨j,hj,hb⟩ := hb
    obtain ⟨t,ht,hj⟩ := mem_keyUsageForKey_flatMap.mp hj
    exact ⟨t,ht,j,hj,hb⟩
  · intro hb
    obtain ⟨t,ht,j,hj,hb⟩ := hb
    exact ⟨j,mem_keyUsageForKey_flatMap.mpr ⟨t,ht,hj⟩,hb⟩

theorem ekuPurpose_critical (ssl : Openssl) : ekuPurpose ssl "critical"=none := by
  have hsplit : splitItem "critical"=some ("critical",none) := by decide
  simp only [ekuPurpose]
  rw [hsplit]
  exact ssl.critical_unknown

theorem ekuText_read {ssl : Openssl} {eku : List String} {v : ExtValue}
    (h : ((splitCritical (eku.flatMap items)).2.mapM (ekuPurpose ssl)).map .extKeyUsage=some v) :
    ∃ purposes,v=.extKeyUsage purposes ∧
      ∀ o,o∈purposes ↔ ∃ t∈eku,∃ i∈items t,ekuPurpose ssl i=some o := by
  obtain ⟨purposes,hp,rfl⟩ := Option.map_eq_some_iff.mp h
  refine ⟨purposes,rfl,fun o => ?_⟩
  rw [mem_mapM_iff hp o]
  constructor
  · intro ho
    obtain ⟨j,hj,ho⟩ := ho
    obtain ⟨t,ht,hj⟩ := List.mem_flatMap.mp (mem_splitCritical.1 hj)
    exact ⟨t,ht,j,hj,ho⟩
  · intro ho
    obtain ⟨t,ht,j,hj,ho⟩ := ho
    refine ⟨j,mem_splitCritical.2 (List.mem_flatMap.mpr ⟨t,ht,hj⟩) ?_,ho⟩
    intro hc
    rw [hc,ekuPurpose_critical] at ho
    cases ho

theorem items_ne_nil (t : String) : items t≠[] := by
  simp [items,List.splitOn_ne_nil]

theorem flatMap_items_eq_nil {ts : List String} : ts.flatMap items=[] ↔ ts=[] := by
  cases ts with
  | nil => simp
  | cons t ts => simp [items_ne_nil]

theorem requestedKu_names {exts : List Extension} {rku : List String}
    (h : requestedKu exts=.ok rku) : ∀ n∈rku,trimTok n=n ∧ n≠"" := by
  have hall : ∀ n∈kuNames,trimTok n=n ∧ n≠"" := by decide
  simp only [requestedKu] at h
  split at h
  · obtain rfl := Except.ok.inj h
    intro n hn
    cases hn
  · split at h
    · cases h
    · obtain rfl := Except.ok.inj h
      intro n hn
      obtain ⟨m,hm,rfl⟩ := List.mem_map.mp hn
      exact hall m.1 (List.fst_mem_of_mem_zipIdx (List.mem_filter.mp hm).1)

/-- A request that names none of the nine key usages has only bits without a name. -/
theorem unnamed_of_requestedKu_nil {exts : List Extension} (h : requestedKu exts=.ok []) :
    ∀ b∈keyUsageOf exts,kuNames[b]?=none := by
  intro b hb
  simp only [requestedKu] at h
  simp only [keyUsageOf] at hb
  cases hext : getExt exts oidKeyUsage with
  | none => simp [hext] at hb
  | some e =>
    rw [hext] at h hb
    cases hd : d2iKeyUsage e with
    | none => simp [hd] at hb
    | some bits =>
      simp only [hd,Except.ok.injEq,List.map_eq_nil_iff] at h
      simp only [Option.bind_some,hd,Option.getD_some] at hb
      cases hn : kuNames[b]? with
      | none => rfl
      | some n =>
        have hmem : (n,b)∈kuNames.zipIdx := List.mem_zipIdx_iff_getElem?.mpr hn
        have hfil : (n,b)∈kuNames.zipIdx.filter fun m => m.2∈bits := by simp [hmem,hb]
        rw [h] at hfil
        cases hfil

theorem kuWithin_digitalSignature {p : CertProfile} {pk : PublicKey} {i : String} {b : Nat}
    (ha : "digitalSignature"∈p.allowedKu) (hi : i∈keyUsageForKey (items "digitalSignature") pk)
    (hb : kuBit i=some b) : KuWithin p pk b := by
  have hitems : keyUsageForKey (items "digitalSignature") pk=["digitalSignature"] := by
    simp only [keyUsageForKey]
    split_ifs
    · decide
    · decide
  rw [hitems,List.mem_singleton] at hi
  have h0 : kuBit "digitalSignature"=some 0 := by decide
  rw [hi,h0] at hb
  obtain rfl := Option.some.inj hb
  exact ⟨⟨"digitalSignature",rfl,ha⟩,fun _ => ⟨by decide,by decide⟩⟩

section

variable {ssl : Openssl} {cfg : IssueConfig} {ca : CaCert} {env : Env} {subject : Name}
  {pubkey : Option PublicKey} {exts : List Extension} {a : IssueArgs} {c : Cert}

/-- Where the CA wrote no extension of this OID, a reader meets the request's, else the stamp. -/
theorem Issued.getExt_unwritten (i : Issued ssl cfg ca env subject pubkey exts a c) {oid : Oid}
    (hoid : oid∉caOids) (hu : getExt i.usage oid=none) :
    getExt c.extensions oid=if eligible (passthrough a) oid && hasExt exts oid
      then getExt exts oid else stampedExt ssl a.profile.customExtensions oid := by
  rw [i.getExt_eq hoid,hu,Option.none_or]
  by_cases hel : eligible (passthrough a) oid=true
  · rw [if_pos hel,hel,Bool.true_and]
    cases he : getExt exts oid with
    | none => simp [hasExt,he]
    | some e => simp [hasExt,he]
  · rw [if_neg hel,if_neg (by simp [hel]),Option.none_or]

/-- What a reader takes from the first extension of an OID. -/
def readOf {β : Type} (d2i : Extension → Option (List β)) (exts : List Extension) (oid : Oid) :
    List β :=
  ((getExt exts oid).bind d2i).getD []

/-- The general form of both usage extensions: `W` is what may stand in the certificate, and
nothing of what the request carries may. -/
theorem unwritten_within_iff {β : Type} {d2i : Extension → Option (List β)} {W : β → Prop}
    {oid : Oid} (i : Issued ssl cfg ca env subject pubkey exts a c) (hoid : oid∉caOids)
    (hu : getExt i.usage oid=none) (hno : ∀ b∈readOf d2i exts oid,¬W b) :
    (∀ b∈readOf d2i c.extensions oid,W b) ↔
      (eligible (passthrough a) oid=true → readOf d2i exts oid=[]) ∧
      ((eligible (passthrough a) oid && hasExt exts oid)=false →
        ∀ e,stampedExt ssl a.profile.customExtensions oid=some e → ∀ b∈(d2i e).getD [],W b) := by
  have hext := i.getExt_unwritten hoid hu
  cases hcase : eligible (passthrough a) oid && hasExt exts oid with
  | true =>
    have hsame : readOf d2i c.extensions oid=readOf d2i exts oid := by
      simp only [readOf]
      rw [hext,hcase,if_pos rfl]
    rw [hsame]
    constructor
    · intro hall
      refine ⟨fun _ => ?_,fun h => absurd h (by decide)⟩
      exact List.eq_nil_iff_forall_not_mem.mpr fun b hb => hno b hb (hall b hb)
    · intro hconf b hb
      rw [hconf.1 (Bool.and_eq_true_iff.mp hcase).1] at hb
      cases hb
  | false =>
    have hread : readOf d2i c.extensions oid=
        ((stampedExt ssl a.profile.customExtensions oid).bind d2i).getD [] := by
      simp only [readOf]
      rw [hext,hcase,if_neg (by decide)]
    rw [hread]
    constructor
    · intro hall
      refine ⟨fun hel => ?_,fun _ e he b hb => ?_⟩
      · rw [hel,Bool.true_and] at hcase
        have hnone : getExt exts oid=none := by simpa [hasExt] using hcase
        simp only [readOf]
        rw [hnone]
        rfl
      · apply hall
        rw [he]
        exact hb
    · intro hconf b hb
      cases hst : stampedExt ssl a.profile.customExtensions oid with
      | none =>
        rw [hst] at hb
        cases hb
      | some e =>
        rw [hst] at hb
        exact hconf.2 rfl e hst b hb

theorem usageTokens_eq_nil {requested default : List String}
    (h : usageTokens requested default=[]) (hr : ∀ n∈requested,trimTok n≠"") : requested=[] := by
  by_contra hne
  obtain ⟨n,hn⟩ := List.exists_mem_of_ne_nil requested hne
  have hmem : trimTok n∈usageTokens requested default := by
    simp only [usageTokens]
    rw [if_neg hne,List.mem_filter]
    exact ⟨List.mem_map.mpr ⟨n,hn,rfl⟩,by simpa using hr n hn⟩
  rw [h] at hmem
  cases hmem

/-- What the evaluation leaves, in terms of the request and the profile. -/
theorem Issued.left (i : Issued ssl cfg ca env subject pubkey exts a c) :
    (keptKu a.profile (kuTokens a.profile exts)=[] → kuTokens a.profile exts=[]) ∧
    i.pe.keyUsage=(if kuLeft ssl a.profile exts=[] then []
      else "critical"::(kuLeft ssl a.profile exts).flatMap items) ∧
    i.pe.extKeyUsage=(ekuLeft ssl a.profile exts).flatMap items := by
  obtain ⟨rku,reku,hrku,hreku,hempty,heku,ku,hku,hpe⟩ := evaluateProfileExtensions_ok i.evaluated
  have hkt : kuTokens a.profile exts=usageTokens rku a.profile.defaultKu := by
    rw [kuTokens,hrku]
    rfl
  have het : ekuTokens ssl a.profile exts=usageTokens reku a.profile.defaultEku := by
    rw [ekuTokens,hreku]
    rfl
  rw [kuLeft,ekuLeft,hkt,het]
  rw [hku] at hpe
  exact ⟨hempty,hpe,heku⟩

theorem mem_ekuLeft {p : CertProfile} {k : String} :
    k∈ekuLeft ssl p exts ↔ ∃ t∈ekuTokens ssl p exts,canonicalEku ssl t=k ∧
      ("*"∈p.allowedEku ∨ k∈p.allowedEku.image (canonicalEku ssl)) := by
  rw [ekuLeft,keptEku,List.mem_filter,List.mem_map,decide_eq_true_eq]
  constructor
  · intro h
    obtain ⟨⟨t,ht,hk⟩,hin⟩ := h
    exact ⟨t,ht,hk,hin⟩
  · intro h
    obtain ⟨t,ht,hk,hin⟩ := h
    exact ⟨⟨t,ht,hk⟩,hin⟩

theorem noKu_iff {p : CertProfile} (hempty : keptKu p (kuTokens p exts)=[] → kuTokens p exts=[]) :
    NoKu ssl p exts ↔ kuLeft ssl p exts=[] := by
  have hkept : keptKu p (kuTokens p exts)=[] ↔ kuTokens p exts=[] := by
    refine ⟨hempty,fun h => ?_⟩
    rw [h]
    rfl
  rw [kuLeft,withImpliedKu_eq_nil_iff,hkept,NoKu]
  refine and_congr_right fun _ => ⟨fun h hsig e he => ?_,fun h hsig t ht hin => ?_⟩
  · obtain ⟨t,ht,rfl,hin⟩ := mem_ekuLeft.mp he
    exact h hsig t ht hin
  · exact h hsig _ (mem_ekuLeft.mpr ⟨t,ht,rfl,hin⟩)

theorem noEku_iff {p : CertProfile} (hstar : "*"∉p.allowedEku) :
    NoEku ssl p exts ↔ ekuLeft ssl p exts=[] := by
  rw [List.eq_nil_iff_forall_not_mem]
  constructor
  · intro h k hk
    obtain ⟨t,ht,rfl,hin⟩ := mem_ekuLeft.mp hk
    exact h t ht (hin.resolve_left hstar)
  · intro h t ht hin
    exact h _ (mem_ekuLeft.mpr ⟨t,ht,rfl,Or.inr hin⟩)

/-- The two usage extensions as the CA wrote them. -/
theorem Issued.getExt_usage (i : Issued ssl cfg ca env subject pubkey exts a c) :
    ∃ ku eku,confExt ssl oidKeyUsage (fun is => (is.mapM kuBit).map .keyUsage)
        (keyUsageForKey i.pe.keyUsage i.pk)=.ok ku ∧
      confExt ssl oidExtKeyUsage (fun is => (is.mapM (ekuPurpose ssl)).map .extKeyUsage)
        i.pe.extKeyUsage=.ok eku ∧
      getExt i.usage oidKeyUsage=ku.head? ∧ getExt i.usage oidExtKeyUsage=eku.head? := by
  obtain ⟨ku,eku,hku,heku,husage⟩ := usageExts_ok i.usages
  refine ⟨ku,eku,hku,heku,?_,?_⟩
  · rw [husage,getExt_append,getExt_confExt heku,if_neg (by decide),Option.or_none,
      getExt_confExt hku,if_pos rfl]
  · rw [husage,getExt_append,getExt_confExt hku,if_neg (by decide),Option.none_or,
      getExt_confExt heku,if_pos rfl]

/-- Nothing is written: the request's own key usage or the profile's stamp decides. -/
theorem Issued.ku_unwritten_iff (i : Issued ssl cfg ca env subject pubkey exts a c)
    (hnil : kuLeft ssl a.profile exts=[]) :
    (∀ b∈keyUsageOf c.extensions,KuWithin a.profile i.pk b) ↔
      (eligible (passthrough a) oidKeyUsage=true → keyUsageOf exts=[]) ∧
      ((eligible (passthrough a) oidKeyUsage && hasExt exts oidKeyUsage)=false →
        ∀ e,stampedExt ssl a.profile.customExtensions oidKeyUsage=some e →
          ∀ b∈(d2iKeyUsage e).getD [],KuWithin a.profile i.pk b) := by
  obtain ⟨rku,_,hrku,_,_,_,_,_,_⟩ := evaluateProfileExtensions_ok i.evaluated
  obtain ⟨hempty,hpeku,_⟩ := i.left
  obtain ⟨ku,_,hku,_,hget,_⟩ := i.getExt_usage
  have hnone : getExt i.usage oidKeyUsage=none := by
    rw [hpeku,if_pos hnil,keyUsageForKey_nil] at hku
    obtain ⟨_,rfl⟩|⟨hne,_⟩ := confExt_ok hku
    · exact hget
    · exact absurd rfl hne
  have htokens : usageTokens rku a.profile.defaultKu=[] := by
    have h0 := ((noKu_iff hempty).mpr hnil).1
    rw [kuTokens,hrku] at h0
    exact h0
  have hrkunil : rku=[] := by
    refine usageTokens_eq_nil htokens (fun n hn => ?_)
    rw [(requestedKu_names hrku n hn).1]
    exact (requestedKu_names hrku n hn).2
  -- what the request then carries has no name, so the profile cannot allow it
  have hno : ∀ b∈readOf d2iKeyUsage exts oidKeyUsage,¬KuWithin a.profile i.pk b := by
    intro b hb hw
    obtain ⟨⟨n,hn,_⟩,_⟩ := hw
    rw [unnamed_of_requestedKu_nil (hrkunil ▸ hrku) b hb] at hn
    cases hn
  exact unwritten_within_iff i (by decide) hnone hno

/-- A text that was accepted was read item by item, or else in OpenSSL's own syntax. -/
theorem read_or_generic_iff {plain : Bool} {read generic : Option ExtValue} {v : ExtValue}
    {W : ExtValue → Prop} {R : Prop} (hv : (if plain then read else generic)=some v)
    (hread : read=some v → (W v ↔ R)) :
    W v ↔ (plain=true → R) ∧ (plain=false → ∀ w,generic=some w → W w) := by
  cases plain with
  | false =>
    rw [if_neg (by decide)] at hv
    constructor
    · intro hall
      refine ⟨fun h => absurd h (by decide),fun _ w hw => ?_⟩
      obtain rfl := Option.some.inj (hv.symm.trans hw)
      exact hall
    · intro hconf
      exact hconf.2 rfl v hv
  | true =>
    rw [if_pos rfl] at hv
    rw [hread hv]
    exact ⟨fun h => ⟨fun _ => h,fun hf => absurd hf (by decide)⟩,fun h => h.1 rfl⟩

/-- The text is written: OpenSSL reads its items one by one, or in its own syntax. -/
theorem Issued.ku_written_iff (i : Issued ssl cfg ca env subject pubkey exts a c)
    (hleft : kuLeft ssl a.profile exts≠[]) :
    (∀ b∈keyUsageOf c.extensions,KuWithin a.profile i.pk b) ↔
      (plainList (kuItems ssl a.profile i.pk exts)=true → ∀ t∈kuTokens a.profile exts,
        t∈a.profile.allowedKu → ∀ j∈keyUsageForKey (items t) i.pk,∀ b,kuBit j=some b →
          KuWithin a.profile i.pk b) ∧
      (plainList (kuItems ssl a.profile i.pk exts)=false →
        ∀ v,ssl.genericExt oidKeyUsage (kuItems ssl a.profile i.pk exts)=some v →
          ∀ b∈(d2iKeyUsage ⟨oidKeyUsage,true,v⟩).getD [],KuWithin a.profile i.pk b) := by
  obtain ⟨_,hpeku,_⟩ := i.left
  obtain ⟨ku,_,hku,_,hget,_⟩ := i.getExt_usage
  rw [hpeku,if_neg hleft] at hku
  obtain ⟨v,rfl,hv⟩ := kuText_ok hku
  have hread : keyUsageOf c.extensions=(d2iKeyUsage ⟨oidKeyUsage,true,v⟩).getD [] := by
    simp only [keyUsageOf]
    rw [i.getExt_eq (by decide),hget]
    rfl
  rw [hread]
  refine read_or_generic_iff (W := fun v => ∀ b∈(d2iKeyUsage ⟨oidKeyUsage,true,v⟩).getD [],
    KuWithin a.profile i.pk b) hv fun hplain => ?_
  obtain ⟨bits,rfl,hmem⟩ := kuText_read hplain
  constructor
  · intro hall t ht hallowed j hj b hb
    refine hall b ((hmem b).mpr ⟨t,?_,j,hj,hb⟩)
    exact mem_withImpliedKu_of_mem (List.mem_filter.mpr ⟨ht,by simpa using hallowed⟩)
  · intro hconf b hb
    obtain ⟨t,ht,j,hj,hb⟩ := (hmem b).mp hb
    obtain ht|⟨rfl,hsig⟩ := mem_withImpliedKu ht
    · obtain ⟨ht,hallowed⟩ := List.mem_filter.mp ht
      exact hconf t ht (by simpa using hallowed) j hj b hb
    · exact kuWithin_digitalSignature hsig hj hb

theorem ku_within_iff (i : Issued ssl cfg ca env subject pubkey exts a c) :
    (∀ b∈keyUsageOf c.extensions,KuWithin a.profile i.pk b) ↔ KuConfined ssl a i.pk exts := by
  have hno : NoKu ssl a.profile exts ↔ kuLeft ssl a.profile exts=[] := noKu_iff i.left.1
  by_cases hnil : kuLeft ssl a.profile exts=[]
  · have hempty : kuItems ssl a.profile i.pk exts=[] := by
      rw [kuItems,hnil]
      exact keyUsageForKey_nil i.pk
    have htokens : kuTokens a.profile exts=[] := (hno.mpr hnil).1
    refine (i.ku_unwritten_iff hnil).trans ⟨fun h => ⟨?_,?_,fun _ => h.1,fun _ => h.2⟩,
      fun h => ⟨h.copied (hno.mpr hnil),h.stamped (hno.mpr hnil)⟩⟩
    · intro _ t ht
      rw [htokens] at ht
      cases ht
    · intro hplain
      rw [hempty] at hplain
      cases hplain
  · have hsome : ¬NoKu ssl a.profile exts := fun h => hnil (hno.mp h)
    exact (i.ku_written_iff hnil).trans ⟨fun h => ⟨h.1,h.2,fun hn => absurd hn hsome,
      fun hn => absurd hn hsome⟩,fun h => ⟨h.read,h.generic⟩⟩

theorem requestedEku_eq {reku : List String} (h : requestedEku ssl exts=.ok reku) :
    reku=(extKeyUsageOf exts).map (objName ssl) := by
  simp only [requestedEku] at h
  simp only [extKeyUsageOf]
  cases hext : getExt exts oidExtKeyUsage with
  | none =>
    rw [hext] at h
    exact (Except.ok.inj h).symm
  | some e =>
    rw [hext] at h
    cases hd : d2iExtKeyUsage e with
    | none =>
      simp only [hd] at h
      cases h
    | some purposes =>
      simp only [hd] at h
      simpa [hd] using (Except.ok.inj h).symm

theorem Issued.eku_unwritten_iff (i : Issued ssl cfg ca env subject pubkey exts a c)
    (hnames : NamesRead ssl exts) (hnil : ekuLeft ssl a.profile exts=[]) :
    (∀ o∈extKeyUsageOf c.extensions,EkuWithin ssl a.profile o) ↔
      (eligible (passthrough a) oidExtKeyUsage=true → extKeyUsageOf exts=[]) ∧
      ((eligible (passthrough a) oidExtKeyUsage && hasExt exts oidExtKeyUsage)=false →
        ∀ e,stampedExt ssl a.profile.customExtensions oidExtKeyUsage=some e →
          ∀ o∈(d2iExtKeyUsage e).getD [],EkuWithin ssl a.profile o) := by
  obtain ⟨_,reku,_,hreku,_,_,_,_,_⟩ := evaluateProfileExtensions_ok i.evaluated
  obtain ⟨_,_,hpeeku⟩ := i.left
  obtain ⟨_,eku,_,heku,_,hget⟩ := i.getExt_usage
  have hnone : getExt i.usage oidExtKeyUsage=none := by
    rw [hpeeku,hnil] at heku
    obtain ⟨_,rfl⟩|⟨hne,_⟩ := confExt_ok heku
    · exact hget
    · exact absurd rfl hne
  -- a purpose of the request that the profile allows would have been kept
  have hno : ∀ o∈readOf d2iExtKeyUsage exts oidExtKeyUsage,¬EkuWithin ssl a.profile o := by
    intro o ho hw
    obtain ⟨hne,hcanon⟩ := hnames o ho
    have hr : objName ssl o∈reku := by
      rw [requestedEku_eq hreku]
      exact List.mem_map.mpr ⟨o,ho,rfl⟩
    have htokens : ekuTokens ssl a.profile exts=usageTokens reku a.profile.defaultEku := by
      rw [ekuTokens,hreku]
      rfl
    have htok : trimTok (objName ssl o)∈ekuTokens ssl a.profile exts := by
      rw [htokens,usageTokens,if_neg (List.ne_nil_of_mem hr),List.mem_filter]
      exact ⟨List.mem_map.mpr ⟨_,hr,rfl⟩,by simpa using hne⟩
    have hin := mem_ekuLeft.mpr ⟨_,htok,hcanon,hw⟩
    rw [hnil] at hin
    cases hin
  exact unwritten_within_iff i (by decide) hnone hno

theorem Issued.eku_written_iff (i : Issued ssl cfg ca env subject pubkey exts a c)
    (hstar : "*"∉a.profile.allowedEku) (hleft : ekuLeft ssl a.profile exts≠[]) :
    (∀ o∈extKeyUsageOf c.extensions,EkuWithin ssl a.profile o) ↔
      (plainList (ekuItems ssl a.profile exts)=true → ∀ t∈ekuTokens ssl a.profile exts,
        canonicalEku ssl t∈a.profile.allowedEku.image (canonicalEku ssl) →
          ∀ j∈items (canonicalEku ssl t),∀ o,ekuPurpose ssl j=some o →
            EkuWithin ssl a.profile o) ∧
      (plainList (ekuItems ssl a.profile exts)=false →
        ∀ v,ssl.genericExt oidExtKeyUsage (ekuItems ssl a.profile exts)=some v →
          ∀ o∈(d2iExtKeyUsage ⟨oidExtKeyUsage,false,v⟩).getD [],EkuWithin ssl a.profile o) := by
  obtain ⟨_,_,hpeeku⟩ := i.left
  obtain ⟨_,eku,_,heku,_,hget⟩ := i.getExt_usage
  rw [hpeeku] at heku
  obtain ⟨hnil,_⟩|⟨_,v,rfl,hv⟩ := confExt_ok heku
  · exact absurd (flatMap_items_eq_nil.mp hnil) hleft
  have hread : extKeyUsageOf c.extensions=(d2iExtKeyUsage ⟨oidExtKeyUsage,false,v⟩).getD [] := by
    simp only [extKeyUsageOf]
    rw [i.getExt_eq (by decide),hget]
    rfl
  rw [hread]
  refine read_or_generic_iff (W := fun v => ∀ o∈(d2iExtKeyUsage ⟨oidExtKeyUsage,false,v⟩).getD [],
    EkuWithin ssl a.profile o) hv fun hplain => ?_
  obtain ⟨purposes,rfl,hmem⟩ := ekuText_read hplain
  constructor
  · intro hall t ht hin j hj o ho
    exact hall o ((hmem o).mpr ⟨_,mem_ekuLeft.mpr ⟨t,ht,rfl,Or.inr hin⟩,j,hj,ho⟩)
  · intro hconf o ho
    obtain ⟨k,hk,j,hj,ho⟩ := (hmem o).mp ho
    obtain ⟨t,ht,rfl,hin⟩ := mem_ekuLeft.mp hk
    exact hconf t ht (hin.resolve_left hstar) j hj o ho

theorem eku_within_iff (i : Issued ssl cfg ca env subject pubkey exts a c)
    (hnames : NamesRead ssl exts) (hstar : "*"∉a.profile.allowedEku) :
    (∀ o∈extKeyUsageOf c.extensions,EkuWithin ssl a.profile o) ↔ EkuConfined ssl a exts := by
  have hno : NoEku ssl a.profile exts ↔ ekuLeft ssl a.profile exts=[] := noEku_iff hstar
  by_cases hnil : ekuLeft ssl a.profile exts=[]
  · have hempty : ekuItems ssl a.profile exts=[] := by
      rw [ekuItems,hnil]
      rfl
    refine (i.eku_unwritten_iff hnames hnil).trans
      ⟨fun h => ⟨?_,?_,fun _ => h.1,fun _ => h.2⟩,
        fun h => ⟨h.copied (hno.mpr hnil),h.stamped (hno.mpr hnil)⟩⟩
    · intro _ t ht hin
      exact absurd hin ((hno.mpr hnil) t ht)
    · intro hplain
      rw [hempty] at hplain
      cases hplain
  · have hsome : ¬NoEku ssl a.profile exts := fun h => hnil (hno.mp h)
    exact (i.eku_written_iff hstar hnil).trans ⟨fun h => ⟨h.1,h.2,fun hn => absurd hn hsome,
      fun hn => absurd hn hsome⟩,fun h => ⟨h.read,h.generic⟩⟩

/-- With one extension of the OID at most, reading the first is reading all. -/
theorem allOf_eq_readOf {β : Type} {d2i : Extension → Option (List β)} {oid : Oid}
    {es : List Extension} (h : Sole oid es) : allOf d2i es oid=readOf d2i es oid := by
  rw [allOf,readOf,show es.filter (·.oid=oid)=_ from h]
  cases getExt es oid with
  | none => rfl
  | some e => exact List.append_nil _

/-- A certificate keeps within the usages of its profile exactly when an allowed name is read as
nothing else and, where no usage is left to write, no extension of the request or of the profile
takes the empty place with other usages. -/
theorem issued_usages_within_iff (ssl : Openssl) (cfg : IssueConfig) (ca : CaCert) (env : Env)
    (subject : Name) (pk : PublicKey) (exts : List Extension) (a : IssueArgs) (c : Cert)
    (hissue : issueCertFromParts ssl cfg ca env subject (some pk) exts a=.ok c)
    (hnames : NamesRead ssl exts) :
    UsagesWithin ssl a.profile pk c.extensions ↔ UsagesConfined ssl a pk exts := by
  obtain ⟨i⟩ := issueCertFromParts_issued hissue
  have hpk : pk=i.pk := Option.some.inj i.key
  have hku : allOf d2iKeyUsage c.extensions oidKeyUsage=keyUsageOf c.extensions :=
    allOf_eq_readOf (i.sole_usage (by decide))
  have heku : allOf d2iExtKeyUsage c.extensions oidExtKeyUsage=extKeyUsageOf c.extensions :=
    allOf_eq_readOf (i.sole_usage (by decide))
  rw [UsagesWithin,UsagesConfined,hku,heku,hpk,ku_within_iff i]
  by_cases hstar : "*"∈a.profile.allowedEku
  · simp only [hstar,EkuWithin,not_true_eq_false,true_or,implies_true,false_implies]
  · rw [eku_within_iff i hnames hstar]
    simp only [hstar,not_false_eq_true,true_implies]

end

/-- The two TLS purposes of OpenSSL's object table, and its dotted form of an OID. -/
def tlsObjects : Openssl where
  txt2obj s := [("serverAuth","1.3.6.1.5.5.7.3.1"),("clientAuth","1.3.6.1.5.5.7.3.2")].lookup s
  txt2objDotted s := if s.toList.all (fun ch => ch.isDigit || ch = '.') then some s else none
  obj2sn o := [("1.3.6.1.5.5.7.3.1","serverAuth"),("1.3.6.1.5.5.7.3.2","clientAuth")].lookup o
  genericExt _ _ := none
  nconf _ spec := if spec = "DER:05:00" then some (false,.raw [5,0]) else none
  critical_unknown := by decide

/-- A profile for client certificates that lets the request bring in extensions of its own. -/
def clientProfile : CertProfile :=
  { CertProfile.init with
    name := "device"
    allowedKu := {"digitalSignature"}
    allowedEku := {"clientAuth"}
    defaultKu := ["digitalSignature"]
    defaultEku := ["clientAuth"]
    allowedCustomExtensions := {"*"} }

def leafConfig : IssueConfig where
  minRsaBits := 2048
  minDsaBits := 2048
  minEcBits := 256
  allowedDomains := []
  allowedIps := .unrestricted
  certValidityDays := 90
  caUrls := ⟨[],[],[]⟩
  certProfiles := []

def issuingCa : CaCert := ⟨[⟨commonName,⟨.utf8,octets "CA"⟩⟩],100000000,true⟩

def ecKey : PublicKey := ⟨.ec,256,[4,1,2],false⟩

def clientArgs : IssueArgs := ⟨clientProfile,false,"",[],none,false,false,[]⟩

def deviceName : Name := [⟨commonName,⟨.utf8,octets "device1"⟩⟩]

def purposeRequest (o : Oid) : List Extension := [⟨oidExtKeyUsage,false,.extKeyUsage [o]⟩]

/-- The certificate of `device1` with its extensions from the usages on. -/
def deviceCert (usage copied : List Extension) : Cert :=
  ⟨"1f",deviceName,issuingCa.subject,ecKey,700,7777000,
    ⟨oidBasicConstraints,true,.text "CA:FALSE"⟩::⟨oidKeyUsage,true,.keyUsage [0]⟩::usage++
      [⟨oidSubjectKeyIdentifier,false,.text "hash"⟩,
        ⟨oidAuthorityKeyIdentifier,false,.text "keyid:always"⟩]++copied⟩

theorem issued_usages_within_iff_client :
    issueCertFromParts tlsObjects leafConfig issuingCa ⟨1000,"1f",.ok ()⟩ deviceName (some ecKey)
      (purposeRequest "1.3.6.1.5.5.7.3.2") clientArgs=
      .ok (deviceCert (purposeRequest "1.3.6.1.5.5.7.3.2") []) ∧
    UsagesConfined tlsObjects clientArgs ecKey (purposeRequest "1.3.6.1.5.5.7.3.2") := by
  have hissue : issueCertFromParts tlsObjects leafConfig issuingCa ⟨1000,"1f",.ok ()⟩ deviceName
      (some ecKey) (purposeRequest "1.3.6.1.5.5.7.3.2") clientArgs=
      .ok (deviceCert (purposeRequest "1.3.6.1.5.5.7.3.2") []) := by rfl
  have hnames : NamesRead tlsObjects (purposeRequest "1.3.6.1.5.5.7.3.2") := by
    simp only [NamesRead]
    decide
  refine ⟨hissue,(issued_usages_within_iff _ _ _ _ _ _ _ _ _ hissue hnames).mp ⟨?_,?_⟩⟩
  · intro b hb
    obtain rfl : b=0 := by simpa using (show b∈[0] from hb)
    exact ⟨⟨"digitalSignature",rfl,by decide⟩,by decide⟩
  · simp only [EkuWithin]
    decide

/-- A request for server authentication alone, which the profile does not allow: the purpose is
dropped, no extendedKeyUsage is written, and the request's own one is copied in. -/
theorem usages_smuggled_by_wildcard :
    issueCertFromParts tlsObjects leafConfig issuingCa ⟨1000,"1f",.ok ()⟩ deviceName (some ecKey)
      (purposeRequest "1.3.6.1.5.5.7.3.1") clientArgs=
      .ok (deviceCert [] (purposeRequest "1.3.6.1.5.5.7.3.1")) ∧
    ¬UsagesWithin tlsObjects clientProfile ecKey
      (deviceCert [] (purposeRequest "1.3.6.1.5.5.7.3.1")).extensions := by
  refine ⟨rfl,fun h => ?_⟩
  have hserver : ¬EkuWithin tlsObjects clientProfile "1.3.6.1.5.5.7.3.1" := by
    simp only [EkuWithin]
    decide
  exact hserver (h.2 "1.3.6.1.5.5.7.3.1" (by decide))

end FastPki.Issue
