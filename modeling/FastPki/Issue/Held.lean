import FastPki.Issue.Csr
import FastPki.Profile.Merge
import Mathlib.Data.Finset.Option
import Mathlib.Data.Finset.Union

namespace FastPki.Issue

open FastPki.X509 FastPki.Profile

/-- The object table with the long names. -/
structure ObjectNames extends Openssl where
  obj2ln : Oid → Option String

/-- `OBJ_obj2txt` into a buffer of 128 characters, by name where there is one. -/
def objText (ssl : ObjectNames) (o : Oid) : String := objTxt ((ssl.obj2ln o).getD o)

/-- The type a name of `cert_sans` is tagged with, as far as a profile knows it. -/
def sanTypeOf (s : Octets) : Option String :=
  if (octets "DNS:").isPrefixOf s then some "dns"
  else if (octets "IP:").isPrefixOf s then some "ip"
  else if (octets "EMAIL:").isPrefixOf s then some "email"
  else if (octets "URI:").isPrefixOf s then some "uri"
  else none

def findsText (s text : Octets) : Bool := s.tails.any text.isPrefixOf

/-- The key usages and the purposes that are read off a held certificate. -/
def heldBits (held : Cert) : List Nat :=
  ((soleExt held.extensions oidKeyUsage).bind d2iKeyUsage).getD []

def heldPurposes (held : Cert) : List Oid :=
  ((soleExt held.extensions oidExtKeyUsage).bind d2iExtKeyUsage).getD []

/-- The policy is read off the certificate that is renewed: its usages, its types of names and its
own span. Nothing is stamped, and no other extension is let through. -/
def profileFromCert (ssl : ObjectNames) (held : Option Cert) : CertProfile :=
  match held with
  | none => { CertProfile.init with name := "self-renewal" }
  | some held =>
    let ku := (kuNames.zipIdx.filter fun n => n.2 ∈ heldBits held).map (·.1)
    let eku := ((heldPurposes held).map (objText ssl)).filter (· ≠ "")
    let sans := certSans held.extensions
    { CertProfile.init with
      name := "self-renewal"
      allowedKu := ku.toFinset
      defaultKu := ku
      allowedEku := eku.toFinset
      defaultEku := eku
      allowedSanTypes := sans.biUnion fun s => (sanTypeOf s).toFinset
      allowWildcard := decide (∃ s∈sans,findsText s (octets ":*.")) ||
        (octets "*.").isPrefixOf (nameCn held.subject)
      maxValidityDays := match asn1TimeDiff held.notBefore held.notAfter with
        | some days => if days > 0 then days else 0
        | none => 0
      noOverrideSubject := true }

/-- An object identifier in the form `1.2.840`: two arcs at least, of which the root bounds the
second. -/
def Dotted (o : Oid) : Prop :=
  ∃ (root second : Nat) (arcs : List Nat),root ≤ 2 ∧ (root<2 → second<40) ∧
    o=(second::arcs).foldl (fun text arc => text++"."++toString arc) (toString root)

/-- What is relied on of OpenSSL's object table: a registered object is read back from both its
names, they are plain words, and no dotted form of an object that is not registered, cut or not,
is read as one that is. -/
structure ObjectTable (ssl : ObjectNames) : Prop where
  sn_read : ∀ o n,ssl.obj2sn o=some n → ssl.txt2obj n=some o
  ln_read : ∀ o n,ssl.obj2ln o=some n → ssl.txt2obj n=some o
  both : ∀ o,ssl.obj2ln o=none ↔ ssl.obj2sn o=none
  ln_plain : ∀ o n,ssl.obj2ln o=some n → n.length ≤ 127 ∧ n≠"" ∧ n≠"*"
  oid_short : ∀ o n,ssl.obj2sn o=some n → o.length ≤ 127
  unread : ∀ o,Dotted o → ssl.obj2sn o=none → (ssl.txt2obj (objTxt o)).bind ssl.obj2sn=none

def sanType : GeneralName → String
  | .dns _ => "dns"
  | .email _ => "email"
  | .uri _ => "uri"
  | .ip _ => "ip"
  | .otherName _ => "othername"
  | .other _ _ => "other"

/-- What is permitted is no wider than the certificate; its length is rounded up to a day. -/
structure Ceiling (ssl : Openssl) (p : CertProfile) (c : Cert) : Prop where
  keyUsage : ∀ k,Permits ssl p (.keyUsage k) → ∃ b∈keyUsageOf c.extensions,kuNames[b]?=some k
  extKeyUsage : ∀ o,Dotted o → Permits ssl p (.extKeyUsage (objName ssl o)) →
    o∈extKeyUsageOf c.extensions
  nameType : ∀ t,Permits ssl p (.sanType t) → ∃ g∈subjectAltNamesOf c.extensions,sanType g=t
  ca : ∀ k,¬Permits ssl p (.ca k)
  validity : ∀ v,Permits ssl p (.validity v) → v ≤ (c.notAfter-c.notBefore+86399)/86400

/-- The certificate is valid for a whole day at least, between times that can be read, and each of
its purposes has a name or a dotted form that is not cut. -/
structure Representable (ssl : ObjectNames) (c : Cert) : Prop where
  readable : c.notBefore ≤ maxTime ∧ c.notAfter ≤ maxTime
  day : 86400 ≤ c.notAfter-c.notBefore
  short : ∀ o∈heldPurposes c,ssl.obj2sn o=none → o.length<127

section Purposes

variable {ssl : ObjectNames}

theorem objTxt_of_length {o : Oid} (h : o.length ≤ 127) : objTxt o=o := by
  rw [← String.length_toList] at h
  rw [objTxt,List.take_of_length_le h,String.ofList_toList]

/-- Further arcs do not show in a text that is cut already. -/
theorem objTxt_append {o : Oid} (h : 127 ≤ o.length) (more : String) :
    objTxt (o++more)=objTxt o := by
  rw [← String.length_toList] at h
  rw [objTxt,objTxt,String.toList_append,List.take_append_of_le_length h]

theorem Dotted.append {o : Oid} (h : Dotted o) (n : Nat) :
    Dotted (o++"."++toString n) := by
  obtain ⟨root,second,arcs,hroot,hsecond,rfl⟩ := h
  refine ⟨root,second,arcs++[n],hroot,hsecond,?_⟩
  rw [← List.cons_append,List.foldl_append]
  rfl

/-- There are dotted forms of any length that start like this one. -/
theorem Dotted.extend {o : Oid} (h : Dotted o) (n : Nat) :
    ∃ more : String,Dotted (o++more) ∧ n<(o++more).length := by
  have hdot : ("."++toString 1).length=2 := by decide
  induction n with
  | zero =>
    refine ⟨"."++toString 1,?_,?_⟩
    · rw [← String.append_assoc]
      exact h.append 1
    · rw [String.length_append,hdot]
      omega
  | succ n ih =>
    obtain ⟨more,hmore,hlen⟩ := ih
    refine ⟨more++("."++toString 1),?_,?_⟩
    · rw [← String.append_assoc,← String.append_assoc]
      exact hmore.append 1
    · rw [← String.append_assoc,String.length_append,hdot]
      omega

/-- A dotted form starts with a digit, cut or not. -/
theorem Dotted.objTxt_head {o : Oid} (h : Dotted o) :
    ∃ ch rest,(objTxt o).toList=ch::rest ∧ ch.isDigit=true := by
  obtain ⟨root,second,arcs,hroot,_,rfl⟩ := h
  have hhead (l : List Nat) (text : String) (ch : Char) (rest : List Char)
      (ht : text.toList=ch::rest) : ∃ rest',
      (l.foldl (fun text arc => text++"."++toString arc) text).toList=ch::rest' := by
    induction l generalizing text rest with
    | nil => exact ⟨rest,ht⟩
    | cons arc l ih => exact ih _ (rest++(".".toList++(toString arc).toList)) (by simp [ht])
  obtain ⟨ch,hch,hdigit⟩ : ∃ ch,(toString root).toList=[ch] ∧ ch.isDigit=true := by
    obtain rfl|rfl|rfl : root=0 ∨ root=1 ∨ root=2 := by omega
    · exact ⟨'0',by decide,by decide⟩
    · exact ⟨'1',by decide,by decide⟩
    · exact ⟨'2',by decide,by decide⟩
  obtain ⟨rest,hrest⟩ := hhead (second::arcs) _ ch [] hch
  refine ⟨ch,rest.take 126,?_,hdigit⟩
  rw [objTxt,String.toList_ofList,hrest]
  rfl

theorem Dotted.objTxt_ne {o : Oid} (h : Dotted o) {word : String}
    (hword : word.toList.head?.any Char.isDigit=false) : objTxt o≠word := by
  obtain ⟨ch,rest,htext,hdigit⟩ := h.objTxt_head
  intro heq
  rw [heq] at htext
  rw [htext,List.head?_cons,Option.any_some,hdigit] at hword
  cases hword

theorem canonicalEku_of_unread {tok : String} (h : (ssl.txt2obj tok).bind ssl.obj2sn=none) :
    canonicalEku ssl.toOpenssl tok=tok := by
  rw [canonicalEku,h]
  split_ifs <;> rfl

theorem canonicalEku_of_read {tok : String} {o : Oid} {n : String} (hread : ssl.txt2obj tok=some o)
    (hsn : ssl.obj2sn o=some n) (hempty : tok≠"") (hstar : tok≠"*") :
    canonicalEku ssl.toOpenssl tok=n := by
  rw [canonicalEku,if_neg (by tauto),hread,Option.bind_some,hsn]
  rfl

/-- A purpose is compared under its short name or its dotted form, however it was written. -/
theorem ObjectTable.canonicalEku_objName (hssl : ObjectTable ssl) {o : Oid} (ho : Dotted o) :
    canonicalEku ssl.toOpenssl (objName ssl.toOpenssl o)=objName ssl.toOpenssl o := by
  rw [objName]
  cases hsn : ssl.obj2sn o with
  | none => exact canonicalEku_of_unread (hssl.unread o ho hsn)
  | some n =>
    by_cases hspecial : n="" ∨ n="*"
    · rw [Option.getD_some,canonicalEku,if_pos hspecial]
    · obtain ⟨hempty,hstar⟩ := not_or.mp hspecial
      exact canonicalEku_of_read (hssl.sn_read o n hsn) hsn hempty hstar

theorem ObjectTable.canonicalEku_objText (hssl : ObjectTable ssl) {o : Oid} (ho : Dotted o) :
    canonicalEku ssl.toOpenssl (objText ssl o)=objName ssl.toOpenssl o := by
  rw [objName,objText]
  cases hln : ssl.obj2ln o with
  | none =>
    have hsn := (hssl.both o).mp hln
    rw [hsn]
    exact canonicalEku_of_unread (hssl.unread o ho hsn)
  | some l =>
    obtain ⟨hlen,hempty,hstar⟩ := hssl.ln_plain o l hln
    obtain ⟨n,hsn⟩ : ∃ n,ssl.obj2sn o=some n := by
      refine Option.ne_none_iff_exists'.mp fun hnone => ?_
      rw [(hssl.both o).mpr hnone] at hln
      cases hln
    rw [Option.getD_some,objTxt_of_length hlen,hsn]
    exact canonicalEku_of_read (hssl.ln_read o l hln) hsn hempty hstar

theorem ObjectTable.objText_ne (hssl : ObjectTable ssl) {o : Oid} (ho : Dotted o) :
    objText ssl o≠"" ∧ objText ssl o≠"*" := by
  rw [objText]
  cases hln : ssl.obj2ln o with
  | none => exact ⟨ho.objTxt_ne (by decide),ho.objTxt_ne (by decide)⟩
  | some l =>
    obtain ⟨hlen,hplain⟩ := hssl.ln_plain o l hln
    rw [Option.getD_some,objTxt_of_length hlen]
    exact hplain

/-- Two objects are compared as one only where the dotted form of the first is cut. -/
theorem ObjectTable.objName_inj (hssl : ObjectTable ssl) {o0 o : Oid} (ho0 : Dotted o0)
    (ho : Dotted o) (hshort : ssl.obj2sn o0=none → o0.length<127)
    (h : objName ssl.toOpenssl o0=objName ssl.toOpenssl o) : o0=o := by
  rw [objName,objName] at h
  cases hsn0 : ssl.obj2sn o0 with
  | some n0 =>
    have hread := hssl.sn_read o0 n0 hsn0
    rw [hsn0,Option.getD_some] at h
    cases hsn : ssl.obj2sn o with
    | some n =>
      rw [hsn,Option.getD_some] at h
      rw [h,hssl.sn_read o n hsn] at hread
      exact (Option.some.inj hread).symm
    | none =>
      have hunread := hssl.unread o ho hsn
      rw [hsn,Option.getD_none] at h
      rw [← h,hread,Option.bind_some,hsn0] at hunread
      cases hunread
  | none =>
    have hlen0 := hshort hsn0
    rw [hsn0,Option.getD_none] at h
    cases hsn : ssl.obj2sn o with
    | some n =>
      have hunread := hssl.unread o0 ho0 hsn0
      rw [hsn,Option.getD_some] at h
      rw [h,hssl.sn_read o n hsn,Option.bind_some,hsn] at hunread
      cases hunread
    | none =>
      rw [hsn,Option.getD_none,objTxt_of_length hlen0.le] at h
      by_cases hlen : o.length ≤ 127
      · rw [objTxt_of_length hlen] at h
        exact h
      · have hcut : (objTxt o).length=127 := by
          rw [← String.length_toList] at hlen ⊢
          rw [objTxt,String.toList_ofList,List.length_take]
          omega
        rw [← h] at hcut
        omega

end Purposes

section Read

variable {c : Cert}

theorem heldBits_subset {b : Nat} (h : b∈heldBits c) : b∈keyUsageOf c.extensions := by
  rw [heldBits] at h
  cases he : soleExt c.extensions oidKeyUsage with
  | none =>
    rw [he] at h
    cases h
  | some e =>
    rw [he] at h
    rw [keyUsageOf,soleExt_eq_some he]
    exact h

theorem heldPurposes_subset {o : Oid} (h : o∈heldPurposes c) : o∈extKeyUsageOf c.extensions := by
  rw [heldPurposes] at h
  cases he : soleExt c.extensions oidExtKeyUsage with
  | none =>
    rw [he] at h
    cases h
  | some e =>
    rw [he] at h
    rw [extKeyUsageOf,soleExt_eq_some he]
    exact h

theorem sanTypeOf_sanName {g : GeneralName} {t : String} (h : sanTypeOf (sanName g)=some t) :
    sanType g=t := by
  cases g with
  | dns name => exact Option.some.inj h
  | email name => exact Option.some.inj h
  | uri name => exact Option.some.inj h
  | ip address => exact Option.some.inj h
  | otherName der => cases h
  | other type der => cases h

end Read

section Ceiling

variable {ssl : ObjectNames} {c : Cert}

theorem permits_keyUsage_held {k : String}
    (h : Permits ssl.toOpenssl (profileFromCert ssl (some c)) (.keyUsage k)) :
    ∃ b∈keyUsageOf c.extensions,kuNames[b]?=some k := by
  obtain ⟨⟨_,b⟩,hn,rfl⟩ := List.mem_map.mp (List.mem_toFinset.mp h)
  obtain ⟨hname,hbit⟩ := List.mem_filter.mp hn
  have hbit' : b∈heldBits c := by simpa using hbit
  exact ⟨b,heldBits_subset hbit',List.mem_zipIdx_iff_getElem?.mp hname⟩

theorem permits_sanType_held {t : String}
    (h : Permits ssl.toOpenssl (profileFromCert ssl (some c)) (.sanType t)) :
    ∃ g∈subjectAltNamesOf c.extensions,sanType g=t := by
  obtain ⟨s,hs,ht⟩ := Finset.mem_biUnion.mp h
  obtain ⟨g,hg,rfl⟩ := mem_certSans hs
  exact ⟨g,hg,sanTypeOf_sanName (Option.mem_toFinset.mp ht)⟩

/-- The profile permits the purposes that are compared as one of the certificate's. -/
theorem permits_extKeyUsage_held_iff (hssl : ObjectTable ssl)
    (hoids : ∀ o∈extKeyUsageOf c.extensions,Dotted o) {o : Oid} (ho : Dotted o) :
    Permits ssl.toOpenssl (profileFromCert ssl (some c)) (.extKeyUsage (objName ssl.toOpenssl o)) ↔
      ∃ o0∈heldPurposes c,objName ssl.toOpenssl o0=objName ssl.toOpenssl o := by
  have hmem (t : String) : t∈(profileFromCert ssl (some c)).allowedEku ↔
      ∃ o0∈heldPurposes c,objText ssl o0=t := by
    constructor
    · intro h
      obtain ⟨hin,_⟩ := List.mem_filter.mp (List.mem_toFinset.mp h)
      exact List.mem_map.mp hin
    · intro h
      obtain ⟨o0,ho0,rfl⟩ := h
      have hne := (hssl.objText_ne (hoids o0 (heldPurposes_subset ho0))).1
      exact List.mem_toFinset.mpr (List.mem_filter.mpr ⟨List.mem_map_of_mem ho0,by simpa using hne⟩)
  have hstar : "*"∉(profileFromCert ssl (some c)).allowedEku := by
    intro h
    obtain ⟨o0,ho0,htext⟩ := (hmem "*").mp h
    exact (hssl.objText_ne (hoids o0 (heldPurposes_subset ho0))).2 htext
  rw [Permits,or_iff_right hstar,Finset.mem_image,hssl.canonicalEku_objName ho]
  constructor
  · intro h
    obtain ⟨t,ht,hsame⟩ := h
    obtain ⟨o0,ho0,rfl⟩ := (hmem t).mp ht
    rw [hssl.canonicalEku_objText (hoids o0 (heldPurposes_subset ho0))] at hsame
    exact ⟨o0,ho0,hsame⟩
  · intro h
    obtain ⟨o0,ho0,hsame⟩ := h
    refine ⟨objText ssl o0,(hmem _).mpr ⟨o0,ho0,rfl⟩,?_⟩
    rw [hssl.canonicalEku_objText (hoids o0 (heldPurposes_subset ho0)),hsame]

/-- Where a dotted form fills the buffer, a longer one that starts with it passes for it. -/
theorem extKeyUsage_within_iff (hssl : ObjectTable ssl)
    (hoids : ∀ o∈extKeyUsageOf c.extensions,Dotted o) :
    (∀ o,Dotted o → Permits ssl.toOpenssl (profileFromCert ssl (some c))
      (.extKeyUsage (objName ssl.toOpenssl o)) → o∈extKeyUsageOf c.extensions) ↔
      ∀ o∈heldPurposes c,ssl.obj2sn o=none → o.length<127 := by
  constructor
  · intro h o0 ho0 hsn0
    by_contra hlong
    have hdotted := hoids o0 (heldPurposes_subset ho0)
    obtain ⟨more,hmore,hlen⟩ := hdotted.extend
      (((extKeyUsageOf c.extensions).toFinset.sup String.length)+127)
    have hsn : ssl.obj2sn (o0++more)=none := by
      refine Option.eq_none_iff_forall_ne_some.mpr fun n hn => ?_
      have := hssl.oid_short _ _ hn
      omega
    have hsame : objName ssl.toOpenssl o0=objName ssl.toOpenssl (o0++more) := by
      rw [objName,objName,hsn0,hsn,Option.getD_none,Option.getD_none,objTxt_append (by omega)]
    have hin := h _ hmore
      ((permits_extKeyUsage_held_iff hssl hoids hmore).mpr ⟨o0,ho0,hsame⟩)
    have hbound := Finset.le_sup (f := String.length) (List.mem_toFinset.mpr hin)
    omega
  · intro h o ho hpermits
    obtain ⟨o0,ho0,hsame⟩ := (permits_extKeyUsage_held_iff hssl hoids ho).mp hpermits
    have hin := heldPurposes_subset ho0
    rw [← hssl.objName_inj (hoids o0 hin) ho (h o0 ho0) hsame]
    exact hin

/-- A cap is read only off a certificate of one whole day or more. -/
theorem validity_within_iff :
    (∀ v,Permits ssl.toOpenssl (profileFromCert ssl (some c)) (.validity v) →
      v ≤ (c.notAfter-c.notBefore+86399)/86400) ↔
      (c.notBefore ≤ maxTime ∧ c.notAfter ≤ maxTime) ∧ 86400 ≤ c.notAfter-c.notBefore := by
  have hcap : (profileFromCert ssl (some c)).maxValidityDays=
      if (c.notBefore ≤ maxTime ∧ c.notAfter ≤ maxTime) ∧ 86400 ≤ c.notAfter-c.notBefore then
        (c.notAfter-c.notBefore).tdiv 86400 else 0 := by
    simp only [profileFromCert,asn1TimeDiff]
    generalize c.notAfter-c.notBefore=span
    by_cases hread : c.notBefore>maxTime ∨ c.notAfter>maxTime
    · rw [if_pos hread,if_neg (by omega)]
    · rw [if_neg hread]
      by_cases hday : 86400 ≤ span
      · have hpos : span.tdiv 86400>0 := by
          rw [Int.tdiv_eq_ediv_of_nonneg (by omega)]
          omega
        rw [if_pos (by omega)]
        exact if_pos hpos
      · have hnone : ¬span.tdiv 86400>0 := by
          by_cases hneg : 0 ≤ span
          · rw [Int.tdiv_eq_ediv_of_nonneg hneg]
            omega
          · rw [← Int.neg_neg span,Int.neg_tdiv,Int.tdiv_eq_ediv_of_nonneg (by omega)]
            omega
        rw [if_neg (by omega)]
        exact if_neg hnone
  simp only [Permits,Covers,hcap]
  split_ifs with hfull
  · refine iff_of_true (fun v hv => ?_) hfull
    rw [Int.tdiv_eq_ediv_of_nonneg (by omega)] at hv
    omega
  · refine iff_of_false (fun h => ?_) hfull
    have := h ((c.notAfter-c.notBefore+86399)/86400+1) (Or.inl rfl)
    omega

/-- The profile of a held certificate is a ceiling exactly where the certificate can be written as
a profile at all. -/
theorem profile_from_cert_ceiling_iff (ssl : ObjectNames) (hssl : ObjectTable ssl) (c : Cert)
    (hoids : ∀ o∈extKeyUsageOf c.extensions,Dotted o) :
    Ceiling ssl.toOpenssl (profileFromCert ssl (some c)) c ↔ Representable ssl c := by
  constructor
  · intro h
    obtain ⟨hreadable,hday⟩ := validity_within_iff.mp h.validity
    exact ⟨hreadable,hday,(extKeyUsage_within_iff hssl hoids).mp h.extKeyUsage⟩
  · intro h
    refine ⟨fun k => permits_keyUsage_held,(extKeyUsage_within_iff hssl hoids).mpr h.short,
      fun t => permits_sanType_held,fun k hca => ?_,
      validity_within_iff.mpr ⟨h.readable,h.day⟩⟩
    cases hca.1

end Ceiling

def oidClientAuth : Oid := "1.3.6.1.5.5.7.3.2"

/-- An object table that registers client authentication alone. -/
def clientObjects : ObjectNames where
  txt2obj s := if s = "clientAuth" ∨ s = "TLS Web Client Authentication" then some oidClientAuth
    else if s.toList.all (fun ch => ch.isDigit || ch = '.') then some s else none
  txt2objDotted s := if s.toList.all (fun ch => ch.isDigit || ch = '.') then some s else none
  obj2sn o := if o = oidClientAuth then some "clientAuth" else none
  obj2ln o := if o = oidClientAuth then some "TLS Web Client Authentication" else none
  genericExt _ _ := none
  nconf _ _ := none
  critical_unknown := by decide

theorem clientObjects_table : ObjectTable clientObjects where
  sn_read o n h := by
    simp only [clientObjects] at h
    split_ifs at h with ho
    rw [ho,← Option.some.inj h]
    decide
  ln_read o n h := by
    simp only [clientObjects] at h
    split_ifs at h with ho
    rw [ho,← Option.some.inj h]
    decide
  both o := by
    simp only [clientObjects]
    split_ifs <;> simp
  ln_plain o n h := by
    simp only [clientObjects] at h
    split_ifs at h
    rw [← Option.some.inj h]
    decide
  oid_short o n h := by
    simp only [clientObjects] at h
    split_ifs at h with ho
    rw [ho]
    decide
  unread o ho hsn := by
    have hne : objTxt o≠oidClientAuth := by
      intro heq
      have hlen : o.length ≤ 127 := by
        by_contra hlong
        have hcut := congrArg String.length heq
        rw [← String.length_toList,objTxt,String.toList_ofList,List.length_take,
          String.length_toList] at hcut
        have : oidClientAuth.length=17 := by decide
        omega
      rw [objTxt_of_length hlen] at heq
      rw [heq] at hsn
      exact absurd hsn (by decide)
    simp only [clientObjects]
    rw [if_neg]
    · split_ifs
      · simpa using hne
      · rfl
    · rintro (heq|heq)
      · exact ho.objTxt_ne (by decide) heq
      · exact ho.objTxt_ne (by decide) heq

/-- The certificate of a client that is valid for `span` seconds. -/
def clientCert (span : Int) : Cert :=
  ⟨"1f",deviceName,issuingCa.subject,ecKey,0,span,
    [⟨oidKeyUsage,true,.keyUsage [0]⟩,⟨oidExtKeyUsage,false,.extKeyUsage [oidClientAuth]⟩]⟩

theorem clientCert_dotted (span : Int) : ∀ o∈extKeyUsageOf (clientCert span).extensions,Dotted o := by
  intro o ho
  obtain rfl : o=oidClientAuth := List.mem_singleton.mp ho
  exact ⟨1,3,[6,1,5,5,7,3,2],by decide,by decide,by decide⟩

theorem profile_from_cert_ceiling_iff_quarter :
    Ceiling clientObjects.toOpenssl (profileFromCert clientObjects (some (clientCert 7776000)))
      (clientCert 7776000) := by
  refine (profile_from_cert_ceiling_iff clientObjects clientObjects_table (clientCert 7776000)
    (clientCert_dotted _)).mpr ⟨by decide,by decide,?_⟩
  intro o ho hsn
  obtain rfl : o=oidClientAuth := List.mem_singleton.mp ho
  exact absurd hsn (by decide)

/-- A certificate of one hour gives a profile without a cap. -/
theorem profile_from_cert_unlimited : ObjectTable clientObjects ∧
    ¬Ceiling clientObjects.toOpenssl (profileFromCert clientObjects (some (clientCert 3600)))
      (clientCert 3600) := by
  refine ⟨clientObjects_table,fun h => ?_⟩
  exact absurd (h.validity 365 (Or.inl (by decide))) (by decide)

end FastPki.Issue
