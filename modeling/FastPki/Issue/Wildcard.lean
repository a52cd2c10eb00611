import FastPki.Issue.Names
import FastPki.Policy.Domains

namespace FastPki.Issue

open FastPki.X509 FastPki.Profile FastPki.Policy

section Decoded

variable {t : Octets}

theorem validUtf8_utf8OfCode {n : Nat} (h : utf8OfCode n=some t) : validUtf8 t=true := by
  rw [utf8OfCode] at h
  split_ifs at h
  obtain rfl := Option.some.inj h
  exact validUtf8_utf8EncodeChar _

theorem validUtf8_bmpToUtf8 {data : Octets} (h : bmpToUtf8 data=some t) : validUtf8 t=true := by
  induction data using bmpToUtf8.induct generalizing t with
  | case1 =>
    obtain rfl := Option.some.inj h
    decide
  | case2 a b rest ih =>
    simp only [bmpToUtf8] at h
    obtain ⟨c,hc,h⟩ := Option.bind_eq_some_iff.mp h
    obtain ⟨cs,hcs,h⟩ := Option.bind_eq_some_iff.mp h
    obtain rfl := Option.some.inj h
    exact validUtf8_append (validUtf8_utf8OfCode hc) (ih hcs)
  | case3 data hnil hcons =>
    rw [bmpToUtf8] at h
    · cases h
    · exact hnil
    · exact hcons

theorem validUtf8_universalToUtf8 {data : Octets} (h : universalToUtf8 data=some t) :
    validUtf8 t=true := by
  induction data using universalToUtf8.induct generalizing t with
  | case1 =>
    obtain rfl := Option.some.inj h
    decide
  | case2 a b c d rest ih =>
    simp only [universalToUtf8] at h
    obtain ⟨e,he,h⟩ := Option.bind_eq_some_iff.mp h
    obtain ⟨es,hes,h⟩ := Option.bind_eq_some_iff.mp h
    obtain rfl := Option.some.inj h
    exact validUtf8_append (validUtf8_utf8OfCode he) (ih hes)
  | case3 data hnil hcons =>
    rw [universalToUtf8] at h
    · cases h
    · exact hnil
    · exact hcons

theorem validUtf8_latin1 (data : Octets) :
    validUtf8 (data.flatMap fun b => String.utf8EncodeChar (Char.ofNat b.toNat))=true := by
  induction data with
  | nil => decide
  | cons b data ih =>
    rw [List.flatMap_cons]
    exact validUtf8_append (validUtf8_utf8EncodeChar _) ih

/-- What is read out of a name is text, whatever the type of the string. -/
theorem validUtf8_asn1StringToUtf8 {s : Asn1String} (h : asn1StringToUtf8 s=some t) :
    validUtf8 t=true := by
  obtain ⟨tag,data⟩ := s
  cases tag with
  | utf8 =>
    simp only [asn1StringToUtf8] at h
    split_ifs at h with hdec
    obtain rfl := Option.some.inj h
    rw [validUtf8_eq_isSome]
    exact hdec
  | bmp => exact validUtf8_bmpToUtf8 h
  | universal => exact validUtf8_universalToUtf8 h
  | other => cases h
  | _ =>
    obtain rfl := Option.some.inj h
    exact validUtf8_latin1 data

theorem validUtf8_nameCn (subject : Name) : validUtf8 (nameCn subject)=true := by
  rw [nameCn]
  cases h : (commonNames subject).head?.bind asn1StringToUtf8 with
  | none => decide
  | some t =>
    obtain ⟨s,-,ht⟩ := Option.bind_eq_some_iff.mp h
    exact validUtf8_asn1StringToUtf8 ht

end Decoded

section Labels

variable {dom cn l : Octets}

theorem ascii_of_isAlnum {c : UInt8} (h : isAlnum c=true) : c<0x80 := by
  simp only [isAlnum,Bool.or_eq_true,Bool.and_eq_true,decide_eq_true_eq,UInt8.le_iff_toNat_le] at h
  rw [UInt8.lt_iff_toNat_lt]
  have h80 : (0x80 : UInt8).toNat=128 := rfl
  have hz : (0x7a : UInt8).toNat=122 := rfl
  have hZ : (0x5a : UInt8).toNat=90 := rfl
  have h9 : (0x39 : UInt8).toNat=57 := rfl
  omega

/-- Without the permission a label is letters, digits and hyphens. -/
theorem labelOk_false (h : labelOk false l=true) :
    (∀ c∈l,isAlnum c=true ∨ c=hyphen) ∧ l≠[asterisk] := by
  simp only [labelOk,Bool.false_and,Bool.or_false,Bool.and_eq_true,List.all_eq_true,
    Bool.or_eq_true,decide_eq_true_eq] at h
  refine ⟨h.1,?_⟩
  rintro rfl
  exact absurd h.2 (by decide)

theorem dot_notMem_label (h : labelOk false l=true) : dot∉l := by
  intro hdot
  rcases (labelOk_false h).1 dot hdot with hc|hc
  · exact absurd hc (by decide)
  · exact absurd hc (by decide)

theorem splitOn_labels {labels : List Octets} (h : ∀ l∈labels,labelOk false l=true) :
    (labels.flatMap (·++[dot])++dom).splitOn dot=labels++dom.splitOn dot := by
  induction labels with
  | nil => rfl
  | cons l labels ih =>
    have hdot := dot_notMem_label (h l List.mem_cons_self)
    rw [List.flatMap_cons,List.append_assoc,List.append_assoc,List.singleton_append,
      List.splitOn_append_cons_self_of_not_mem hdot,
      ih fun x hx => h x (List.mem_cons_of_mem _ hx)]
    rfl

/-- The star of a name that the list approves is the entry's own. -/
theorem hasStar_under (h : Under false dom cn) : HasStar cn ↔ HasStar dom := by
  obtain ⟨labels,hlabels,rfl⟩ := h
  rw [HasStar,splitOn_labels hlabels,List.mem_append]
  constructor
  · rintro (h|h)
    · exact absurd rfl (labelOk_false (hlabels _ h)).2
    · exact h
  · exact Or.inr

theorem validUtf8_under (h : Under false dom cn) (ht : validUtf8 cn=true) : validUtf8 dom=true := by
  obtain ⟨labels,hlabels,rfl⟩ := h
  rw [validUtf8_ascii_append] at ht
  · exact ht
  intro c hc
  obtain ⟨l,hl,hc⟩ := List.mem_flatMap.mp hc
  rcases List.mem_append.mp hc with hc|hc
  · rcases (labelOk_false (hlabels l hl)).1 c hc with hc|rfl
    · exact ascii_of_isAlnum hc
    · decide
  · rw [List.mem_singleton.mp hc]
    decide

/-- A name for DNS is ASCII. -/
theorem validUtf8_of_dnsNameOk {n : Octets} (h : dnsNameOk n=true) : validUtf8 n=true := by
  apply validUtf8_of_ascii
  intro c hc
  rcases mem_dnsNameOk h hc with rfl|hc
  · decide
  · simp only [isHostOctet,Bool.or_eq_true,decide_eq_true_eq] at hc
    rcases hc with ((hc|rfl)|rfl)|rfl
    · exact ascii_of_isAlnum hc
    all_goals decide

end Labels

/-- There is a list, and no entry of it in use spells a star label. -/
def ListWithoutStars (cfg : Config) : Prop :=
  cfg.allowedDomains≠[] ∧
    ∀ dom∈cfg.allowedDomains,usable dom=true → validUtf8 dom=true → ¬HasStar dom

/-- Every request accepted outside ACME under a profile without wildcards has none in its names. -/
def NoWildcardIssued (cfg : Config) : Prop :=
  ∀ (p : CertProfile) (subject : Name) (pubkey : Option PublicKey) (exts : List Extension),
    p.allowWildcard=false → enforceIssuancePolicy cfg subject pubkey exts p false=.ok () →
      ¬HasStar (nameCn subject) ∧ ∀ n∈dnsNamesOf exts,¬HasStar n

section Requests

variable {cfg : Config} {n : Octets}

theorem not_hasStar_of_checkCn (hlist : ListWithoutStars cfg) (htext : validUtf8 n=true)
    (h : checkCn cfg n false=true) : ¬HasStar n := by
  intro hstar
  have hne : n≠[] := by
    rintro rfl
    cases h
  by_cases hdot : dot∈n
  · rw [checkCn,if_neg hne,if_neg (not_not.mpr hdot),if_neg hlist.1] at h
    obtain ⟨dom,hdom,husable,hunder⟩ := any_entry_iff.mp h
    exact hlist.2 dom hdom husable (validUtf8_under hunder htext) ((hasStar_under hunder).mp hstar)
  -- without a dot the name is its only label
  · rw [HasStar,List.splitOn_eq_singleton hdot,List.mem_singleton] at hstar
    rw [← hstar] at h
    exact absurd h (by simp [checkCn,dot,asterisk])

/-- A subject whose one commonName is this text. -/
def cnSubject (cn : Octets) : Name := [⟨commonName,⟨.utf8,cn⟩⟩]

theorem nameCn_cnSubject (h : validUtf8 n=true) : nameCn (cnSubject n)=n := by
  have hcn : commonNames (cnSubject n)=[⟨.utf8,n⟩] := by
    simp [commonNames,cnSubject]
  rw [nameCn,hcn,List.head?_cons,Option.bind_some,asn1StringToUtf8]
  rw [validUtf8_eq_isSome] at h
  rw [if_pos h]
  rfl

/-- A request that names itself in the commonName alone. -/
theorem enforceIssuancePolicy_cnSubject (htext : validUtf8 n=true)
    (h : checkCn cfg n false=true) :
    enforceIssuancePolicy cfg (cnSubject n) none [] CertProfile.init false=.ok () := by
  have hwild : CertProfile.init.allowWildcard=false := rfl
  simp only [enforceIssuancePolicy,nameCn_cnSubject htext,hwild,h,bind_eq_ok_iff,
    refuseIf_eq_ok_iff]
  exact ⟨(),rfl,(),by simp,rfl⟩

end Requests

/-- Without a list the profile's refusal of wildcards is never asked for a dotted name. -/
theorem wildcard_kept_out_iff_list (cfg : Config) :
    NoWildcardIssued cfg ↔ ListWithoutStars cfg := by
  constructor
  · intro h
    have hcn {n : Octets} (htext : validUtf8 n=true) (hn : checkCn cfg n false=true) : ¬HasStar n := by
      have hok := (h _ _ _ _ rfl (enforceIssuancePolicy_cnSubject htext hn)).1
      rwa [nameCn_cnSubject htext] at hok
    refine ⟨fun hnone => ?_,fun dom hdom husable htext hstar => ?_⟩
    · refine hcn (n := octets "*.example.com") (by decide) ?_ (by decide)
      rw [checkCn,if_neg (by decide),if_neg (by decide),if_pos hnone]
    -- one label more and the entry is a dotted name of its own
    · have hunder : Under false dom (octets "a."++dom) := ⟨[octets "a"],by decide,rfl⟩
      have hlist : cfg.allowedDomains≠[] := List.ne_nil_of_mem hdom
      refine hcn (n := octets "a."++dom) ?_ ?_ ((hasStar_under hunder).mpr hstar)
      · exact validUtf8_append (by decide) htext
      · have hdot : dot∈octets "a."++dom := List.mem_append_left _ (by decide)
        rw [checkCn,if_neg (List.ne_nil_of_mem hdot),if_neg (not_not.mpr hdot),if_neg hlist]
        exact any_entry_iff.mpr ⟨dom,hdom,husable,hunder⟩
  · intro hlist p subject pubkey exts hp hok
    obtain ⟨hcn,hsan⟩ := enforceIssuancePolicy_ok hok
    rw [hp] at hcn
    refine ⟨?_,fun n hn => ?_⟩
    · by_cases hempty : nameCn subject=[]
      · rw [hempty]
        decide
      · exact not_hasStar_of_checkCn hlist (validUtf8_nameCn subject) (hcn rfl hempty)
    · obtain ⟨hsyn,hdom⟩ := checkSubjectAltName_dns hsan n hn
      rw [hp] at hdom
      exact not_hasStar_of_checkCn hlist (validUtf8_of_dnsNameOk hsyn) (hdom rfl)

/-- The shipped default: no approved domains. -/
def noDomains : Config := ⟨2048,2048,256,[],.unrestricted⟩

theorem wildcard_issued_without_list :
    CertProfile.init.allowWildcard=false ∧
    enforceIssuancePolicy noDomains (cnSubject (octets "*.example.com")) (some ⟨.ec,256,[1],false⟩)
      [⟨oidSubjectAltName,false,.subjectAltName [.dns (octets "*.example.com")]⟩]
      CertProfile.init false=.ok () ∧
    HasStar (nameCn (cnSubject (octets "*.example.com"))) ∧ ¬NoWildcardIssued noDomains := by
  have hok : enforceIssuancePolicy noDomains (cnSubject (octets "*.example.com"))
      (some ⟨.ec,256,[1],false⟩)
      [⟨oidSubjectAltName,false,.subjectAltName [.dns (octets "*.example.com")]⟩]
      CertProfile.init false=.ok () := by
    decide
  have hstar : HasStar (nameCn (cnSubject (octets "*.example.com"))) := by decide
  exact ⟨rfl,hok,hstar,fun h => (h _ _ _ _ rfl hok).1 hstar⟩

end FastPki.Issue
