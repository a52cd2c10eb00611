import FastPki.Auth.Subject
import FastPki.Framework.Ascii
import FastPki.Saml.Signature
import Mathlib.Data.List.Find

namespace FastPki.Saml
open X509 Xml Ascii

/-- `%d` of `sscanf`: blanks, a sign, digits. -/
def scanInt (s : Octets) : Option (Int × Octets) :=
  let s := s.dropWhile isSpace
  let negative := s.head? = some 0x2d
  let s := if negative ∨ s.head? = some 0x2b then s.drop 1 else s
  let n := value (s.takeWhile isDigit)
  if s.takeWhile isDigit = [] then none
  else some (if negative then -n else n,s.dropWhile isDigit)

def scanChar (c : UInt8) (s : Octets) : Option Octets :=
  if s.head? = some c then some (s.drop 1) else none

/-- Days from 1970-01-01 to the first of a month of the Gregorian calendar. -/
def daysToMonth (year : Int) (month : Nat) : Int :=
  let y := if month ≤ 2 then year-1 else year
  let era := y/400
  let yoe := y-era*400
  let doy : Int := (153*(if month ≤ 2 then month+9 else month-3)+2)/5
  era*146097+yoe*365+yoe/4-yoe/100+doy-719468

/-- `timegm`, which takes fields out of their range as well. -/
def timegm (y mo d h mi sec : Int) : Int :=
  let month := mo-1
  (daysToMonth (y+month/12) ((month%12).toNat+1)+(d-1))*86400+h*3600+mi*60+sec

/-- The offset of `±hh:mm` after the time, in seconds. -/
def instantOffset (s : Octets) : Int :=
  let rest := (s.dropWhile (· ≠ 0x54)).drop 1
  let zone := rest.dropWhile fun c => c ≠ 0x2b ∧ c ≠ 0x2d
  match scanInt (zone.drop 1) with
  | none => 0
  | some (oh,rest) =>
    let om := ((scanChar 0x3a rest).bind scanInt).elim 0 Prod.fst
    (oh*3600+om*60)*(if zone.head? = some 0x2d then -1 else 1)

def parseInstant (s : Octets) : Option Int := do
  let (y,s1) ← scanInt s
  let (mo,s2) ← scanInt (← scanChar 0x2d s1)
  let (d,s3) ← scanInt (← scanChar 0x2d s2)
  let (h,s4) ← scanInt (← scanChar 0x54 s3)
  let (mi,s5) ← scanInt (← scanChar 0x3a s4)
  let (sec,_) ← scanInt (← scanChar 0x3a s5)
  let t := timegm y mo d h mi sec
  if t = -1 then none else return t-instantOffset s

/-- A row of `saml_providers` as the service provider keeps it. -/
structure SamlSp where
  providerId : Octets
  idpEntityId : Octets
  idpSsoUrl : Octets
  idpCert : Octets
  spEntityId : Octets
  spAcsUrl : Octets
  usernameAttr : Octets
  groupsAttr : Octets
  skew : Int

def SamlSp.enabled (sp : SamlSp) : Bool :=
  sp.idpSsoUrl ≠ [] ∧ sp.idpCert ≠ [] ∧ sp.spEntityId ≠ [] ∧ sp.spAcsUrl ≠ []

def trim (s : Octets) : Octets := strip isWhite s

def nodeText (n : Option Nodes) : Octets := n.elim [] fun n => trim n.children.content

def assertChild (n : Option Nodes) (name : String) : Option Nodes :=
  findChild n nsAssert (octets name)

/-- The element children of a local name. -/
def namedChildren (name : Octets) (n : Nodes) : List Nodes :=
  n.children.siblings.filter (·.named name)

def notBeforeOk (sp : SamlSp) (now : Int) (s : Octets) : Bool :=
  s = [] ∨ ∃ t∈parseInstant s,now+sp.skew ≥ t

def notAfterOk (sp : SamlSp) (now : Int) (s : Octets) : Bool :=
  s = [] ∨ ∃ t∈parseInstant s,now-sp.skew < t

def confirmationData (assertion : Nodes) : Option Nodes :=
  assertChild (assertChild (assertChild (some assertion) "Subject") "SubjectConfirmation")
    "SubjectConfirmationData"

/-- The request an assertion answers: what its subject confirmation says, or else the response. -/
def inResponseTo (response assertion : Nodes) : Octets :=
  let signed := attr (confirmationData assertion) (octets "InResponseTo")
  if signed ≠ [] then signed else attr (some response) (octets "InResponseTo")

def validateConditionsAndSubject (sp : SamlSp) (now : Int) (known : Octets → Bool)
    (response assertion : Nodes) : Except Refusal Unit := do
  let statusCode :=
    findChild (findChild (some response) nsProto (octets "Status")) nsProto (octets "StatusCode")
  refuseIf (attr statusCode (octets "Value") ≠ octets "urn:oasis:names:tc:SAML:2.0:status:Success")
    ⟨1,octets "SAML: Response Status is not Success"⟩
  refuseIf (sp.idpEntityId ≠ [] ∧
      nodeText (assertChild (some assertion) "Issuer") ≠ sp.idpEntityId)
    ⟨1,octets "SAML: unexpected assertion Issuer"⟩
  let cond := assertChild (some assertion) "Conditions"
  refuseIf (notBeforeOk sp now (attr cond (octets "NotBefore")) = false ∨
      notAfterOk sp now (attr cond (octets "NotOnOrAfter")) = false)
    ⟨1,octets "SAML: assertion Conditions time window invalid"⟩
  refuseIf (∃ ar∈assertChild cond "AudienceRestriction",
      ¬∃ a∈namedChildren (octets "Audience") ar,nodeText (some a) = sp.spEntityId)
    ⟨1,octets "SAML: audience does not match the SP EntityID"⟩
  let scd := confirmationData assertion
  refuseIf (notAfterOk sp now (attr scd (octets "NotOnOrAfter")) = false)
    ⟨1,octets "SAML: SubjectConfirmationData expired"⟩
  let recip := attr scd (octets "Recipient")
  refuseIf (recip ≠ [] ∧ recip ≠ sp.spAcsUrl)
    ⟨1,octets "SAML: SubjectConfirmationData Recipient mismatch"⟩
  let irt := inResponseTo response assertion
  refuseIf (irt = [] ∨ known irt = false)
    ⟨1,octets "SAML: InResponseTo does not match a pending AuthnRequest"⟩

structure SamlAssertion where
  nameId : Octets
  username : Octets
  groups : List Octets
  email : Octets
  deriving DecidableEq

def emailAttrs : List Octets :=
  [octets "http://schemas.xmlsoap.org/ws/2005/05/identity/claims/emailaddress",
    octets "urn:oid:0.9.2342.19200300.100.1.3",octets "mail",octets "email"]

/-- The values of the attributes in order, each with the name of its attribute. -/
def statementValues (statement : Option Nodes) : List (Octets × Octets) :=
  (statement.elim [] (namedChildren (octets "Attribute"))).flatMap fun item =>
    (namedChildren (octets "AttributeValue") item).map fun v =>
      (attr (some item) (octets "Name"),nodeText (some v))

/-- What the loop over the attributes has so far; `emailRank` is the place of the name that gave
the email. -/
structure Mapped where
  username : Octets
  groups : List Octets
  email : Octets
  emailRank : Nat

def mapValue (sp : SamlSp) (m : Mapped) (v : Octets × Octets) : Mapped :=
  if v.2 = [] then m
  else
    let groups := if sp.groupsAttr ≠ [] ∧ v.1 = sp.groupsAttr then
      m.groups++[Auth.qualifySubject sp.providerId v.2] else m.groups
    let username := if sp.usernameAttr ≠ [] ∧ v.1 = sp.usernameAttr ∧ m.username = [] then v.2
      else m.username
    match (emailAttrs.take m.emailRank).findIdx? (· = v.1) with
    | none => ⟨username,groups,m.email,m.emailRank⟩
    | some k => ⟨username,groups,v.2,k⟩

/-- What is taken from an assertion: the NameID, and its format for the email. -/
def readAssertion (sp : SamlSp) (assertion : Nodes) : SamlAssertion :=
  let nameIdNode := assertChild (assertChild (some assertion) "Subject") "NameID"
  let nameId := nodeText nameIdNode
  let m := (statementValues (assertChild (some assertion) "AttributeStatement")).foldl
    (mapValue sp) ⟨[],[],[],emailAttrs.length⟩
  let email := if m.email = [] ∧ attr nameIdNode (octets "Format") =
      octets "urn:oasis:names:tc:SAML:1.1:nameid-format:emailAddress" then nameId else m.email
  ⟨nameId,if m.username = [] then nameId else m.username,m.groups,email⟩

/-- The part of `consume` up to the last check, which is the only one to ask `known`. -/
def checkResponse (sec : XmlSec) (sp : SamlSp) (now : Int) (known : Octets → Bool) (doc : Doc) :
    Except Refusal Nodes := do
  refuseIf (sp.enabled = false) ⟨1,octets "SAML not configured"⟩
  let assertion ← verifySignedAssertion sec sp.idpCert doc
  validateConditionsAndSubject sp now known doc.root assertion
  return assertion

def consume (sec : XmlSec) (sp : SamlSp) (now : Int) (known : Octets → Bool) (doc : Doc) :
    Except Refusal SamlAssertion := do
  let assertion ← checkResponse sec sp now known doc
  let out := readAssertion sp assertion
  refuseIf (out.username = []) ⟨1,octets "SAML: assertion has no usable NameID/username"⟩
  return out

section

open Nodes

theorem findChild_mem {p x : Nodes} {ns name : Octets} (h : findChild (some p) ns name=some x) :
    x∈p.children.siblings ∧ x.is ns name=true :=
  ⟨List.mem_of_find?_eq_some h,List.find?_some h⟩

theorem attr_congr {m n : Nodes} (h : m.attrs=n.attrs) (name : Octets) :
    attr (some m) name=attr (some n) name := by
  simp only [attr,Option.bind_some,Nodes.getProp,h]

theorem nodeText_dropComments {n : Nodes} (h : IsElement n) :
    nodeText (some n.dropComments)=nodeText (some n) := by
  simp only [nodeText,Option.elim_some]
  rw [h.dropComments.1,content_dropComments]

theorem findChild_dropComments {n : Nodes} (h : IsElement n) (ns name : Octets) :
    findChild (some n.dropComments) ns name=(findChild (some n) ns name).map Nodes.dropComments := by
  simp only [findChild,Option.bind_some]
  rw [h.dropComments.1,siblings_dropComments,List.find?_map]
  congr 1
  apply List.find?_congr
  intro x hx
  exact (siblings_isElement hx).dropComments.2.2.1 ns name

theorem namedChildren_dropComments {n : Nodes} (h : IsElement n) (name : Octets) :
    namedChildren name n.dropComments=(namedChildren name n).map Nodes.dropComments := by
  simp only [namedChildren]
  rw [h.dropComments.1,siblings_dropComments,List.filter_map]
  congr 1
  apply List.filter_congr
  intro x hx
  exact (siblings_isElement hx).dropComments.2.2.2 name

theorem namedChildren_isElement {n x : Nodes} {name : Octets} (h : x∈namedChildren name n) :
    IsElement x := siblings_isElement (List.mem_filter.mp h).1

theorem statementValues_dropComments {n : Nodes} (h : IsElement n) :
    statementValues (some n.dropComments)=statementValues (some n) := by
  simp only [statementValues,Option.elim_some]
  rw [namedChildren_dropComments h,List.flatMap_map]
  apply List.flatMap_congr
  intro item hitem
  have hitem' := namedChildren_isElement hitem
  rw [namedChildren_dropComments hitem',List.map_map]
  apply List.map_congr_left
  intro v hv
  show (attr _ _,nodeText (some v.dropComments))=_
  rw [nodeText_dropComments (namedChildren_isElement hv),
    attr_congr hitem'.dropComments.2.1]

theorem findChild_isElement {p x : Nodes} {ns name : Octets}
    (h : findChild (some p) ns name=some x) : IsElement x :=
  siblings_isElement (findChild_mem h).1

/-- What is read does not depend on the comments. -/
theorem readAssertion_dropComments (sp : SamlSp) {a : Nodes} (ha : IsElement a) :
    readAssertion sp a.dropComments=readAssertion sp a := by
  have hname : ∀ name,nodeText (assertChild (assertChild (some a.dropComments) "Subject") "NameID")=
        nodeText (assertChild (assertChild (some a) "Subject") "NameID") ∧
      attr (assertChild (assertChild (some a.dropComments) "Subject") "NameID") name=
        attr (assertChild (assertChild (some a) "Subject") "NameID") name := by
    intro name
    simp only [assertChild,findChild_dropComments ha]
    cases hsubject : findChild (some a) nsAssert (octets "Subject") with
    | none => exact ⟨rfl,rfl⟩
    | some subject =>
      rw [Option.map_some,findChild_dropComments (findChild_isElement hsubject)]
      cases hnode : findChild (some subject) nsAssert (octets "NameID") with
      | none => exact ⟨rfl,rfl⟩
      | some node =>
        have hel := findChild_isElement hnode
        rw [Option.map_some]
        exact ⟨nodeText_dropComments hel,attr_congr hel.dropComments.2.1 name⟩
  have hvalues : statementValues (assertChild (some a.dropComments) "AttributeStatement")=
      statementValues (assertChild (some a) "AttributeStatement") := by
    simp only [assertChild,findChild_dropComments ha]
    cases hst : findChild (some a) nsAssert (octets "AttributeStatement") with
    | none => rfl
    | some st =>
      rw [Option.map_some]
      exact statementValues_dropComments (findChild_isElement hst)
  simp only [readAssertion,hvalues,hname (octets "Format")]

theorem addr_ne_signature {a sig : Nodes} (hself : a.addr∉a.children.elements.map addr)
    (hsig : findChild (some a) nsDsig (octets "Signature")=some sig) : a.addr≠sig.addr := by
  intro heq
  apply hself
  rw [heq]
  exact List.mem_map_of_mem (siblings_subset _ (findChild_mem hsig).1)

/-- A child of the assertion namespace is the same, inside, once the signature is gone. -/
theorem assertChild_without {a sig : Nodes} (hel : IsElement a)
    (hin : a.addr∉a.children.elements.map addr ∧ (a.children.elements.map addr).Nodup)
    (hsig : findChild (some a) nsDsig (octets "Signature")=some sig) (name : String) :
    (assertChild (some (a.without sig.addr)) name).map children=
      (assertChild (some a) name).map children := by
  obtain ⟨hmem,his⟩ := findChild_mem hsig
  have hchildren : (a.without sig.addr).children=a.children.without sig.addr :=
    (hel.without (addr_ne_signature hin.1 hsig)).2.1
  -- the signature has another namespace, so no other child has its address
  have hother (x : Nodes) (hx : x∈a.children.siblings)
      (hxis : x.is nsAssert (octets name)=true) : x.addr≠sig.addr := by
    intro heq
    have hsame := List.inj_on_of_nodup_map hin.2 (siblings_subset _ hx) (siblings_subset _ hmem) heq
    subst hsame
    obtain ⟨_,ns,_,_,_,_,rfl⟩ := siblings_isElement hx
    simp only [Nodes.is,decide_eq_true_eq] at his hxis
    have hns : some nsDsig=some nsAssert := his.1.symm.trans hxis.1
    exact absurd hns (by decide)
  have hfind : assertChild (some (a.without sig.addr)) name=
      (assertChild (some a) name).map (Nodes.without sig.addr) := by
    simp only [assertChild,findChild,Option.bind_some]
    rw [hchildren,siblings_without,List.find?_map,List.find?_filter]
    congr 1
    apply List.find?_congr
    intro x hx
    by_cases haddr : x.addr=sig.addr
    · have hno : x.is nsAssert (octets name)=false := by
        by_contra his
        exact hother x hx (by simpa using his) haddr
      simp [haddr,hno]
    · have hsame := ((siblings_isElement hx).without haddr).2.2 nsAssert (octets name)
      simp [haddr,hsame]
  rw [hfind]
  cases hx : assertChild (some a) name with
  | none => rfl
  | some x =>
    obtain ⟨hxmem,hxis⟩ := findChild_mem hx
    have hxaddr := hother x hxmem hxis
    have hinside : sig.addr∉x.children.elements.map addr :=
      addr_not_inside hin.2 hmem hxmem fun heq => hxaddr (heq ▸ rfl)
    simp only [Option.map_some]
    rw [((siblings_isElement hxmem).without hxaddr).2.1,without_of_not_mem hinside]

theorem findChild_congr {p q : Option Nodes} (h : p.map children=q.map children)
    (ns name : Octets) : findChild p ns name=findChild q ns name := by
  have hchildren (p : Option Nodes) : findChild p ns name=
      (p.map children).bind fun c => c.siblings.find? (·.is ns name) := by
    cases p <;> rfl
  rw [hchildren p,hchildren q,h]

theorem statementValues_congr {p q : Option Nodes} (h : p.map children=q.map children) :
    statementValues p=statementValues q := by
  cases p with
  | none =>
    cases q with
    | none => rfl
    | some q => cases h
  | some p =>
    cases q with
    | none => cases h
    | some q =>
      have hchildren : p.children=q.children := Option.some.inj h
      simp only [statementValues,Option.elim_some,namedChildren,hchildren]

/-- Only what stands inside the children of the assertion is read. -/
theorem readAssertion_congr (sp : SamlSp) {a b : Nodes}
    (h : ∀ name,(assertChild (some a) name).map children=(assertChild (some b) name).map children) :
    readAssertion sp a=readAssertion sp b := by
  have subject : assertChild (assertChild (some a) "Subject") "NameID"=
      assertChild (assertChild (some b) "Subject") "NameID" :=
    findChild_congr (h "Subject") nsAssert (octets "NameID")
  have statement := statementValues_congr (h "AttributeStatement")
  simp only [readAssertion,subject,statement]

/-- Without its siblings and its signature an assertion is an element with the same children of
the assertion namespace. -/
theorem signedPart_child {root a sig : Nodes} (hroot : (root.elements.map addr).Nodup)
    (ha : a∈root.elements) (hel : a.IsElement)
    (hsig : findChild (some a) nsDsig (octets "Signature")=some sig) :
    (a.alone.without sig.addr).IsElement ∧
      ∀ name,(assertChild (some (a.alone.without sig.addr)) name).map children=
        (assertChild (some a) name).map children := by
  obtain ⟨hel,haddr,hchildren⟩ := hel.alone
  have hin := nodup_inside hroot ha
  rw [← haddr,← hchildren] at hin
  have halone : (some a.alone).map children=(some a).map children := congrArg some hchildren
  rw [← findChild_congr halone] at hsig
  refine ⟨(hel.without (addr_ne_signature hin.1 hsig)).1,?_⟩
  intro name
  have hchild : assertChild (some a.alone) name=assertChild (some a) name :=
    findChild_congr halone nsAssert (octets name)
  rw [assertChild_without hel hin hsig name,hchild]

end

theorem checkResponse_ok {sec : XmlSec} {sp : SamlSp} {now : Int} {known : Octets → Bool}
    {doc : Doc} {a : Nodes} (h : checkResponse sec sp now known doc=.ok a) :
    verifySignedAssertion sec sp.idpCert doc=.ok a ∧
      validateConditionsAndSubject sp now known doc.root a=.ok () := by
  obtain ⟨_,_,h⟩ := bind_eq_ok_iff.mp h
  obtain ⟨b,hverify,h⟩ := bind_eq_ok_iff.mp h
  obtain ⟨_,hvalid,h⟩ := bind_eq_ok_iff.mp h
  obtain rfl := Except.ok.inj h
  exact ⟨hverify,hvalid⟩

/-- All that a login takes is read from the one assertion of the document, and from no part of it
that the signature leaves out: it is the same as what the signed canonical form holds. -/
theorem consume_reads_signed (sec : XmlSec) (sp : SamlSp) (now : Int) (known : Octets → Bool)
    (doc : Doc) (out : SamlAssertion) (h : consume sec sp now known doc=.ok out) :
    ∃ a sig,doc.root.elements.filter (·.is nsAssert (octets "Assertion"))=[a] ∧
      findChild (some a) nsDsig (octets "Signature")=some sig ∧
      ∃ signed : Nodes,signed=(a.alone.without sig.addr).dropComments ∧
        sec.Signed (attr (some a) (octets "ID")) signed.canonical ∧
        out=readAssertion sp a ∧ out=readAssertion sp signed := by
  obtain ⟨a,hcheck,h⟩ := bind_eq_ok_iff.mp h
  obtain ⟨_,_,h⟩ := bind_eq_ok_iff.mp h
  obtain rfl := Except.ok.inj h
  obtain ⟨hone,sig,hsig,hsigned⟩ := verifySignedAssertion_ok (checkResponse_ok hcheck).1
  refine ⟨a,sig,hone,hsig,(a.alone.without sig.addr).dropComments,rfl,?_,rfl,?_⟩
  · rwa [Nodes.canonical_dropComments]
  have hmem : a∈doc.root.elements.filter (·.is nsAssert (octets "Assertion")) := by
    rw [hone]
    exact List.mem_singleton_self a
  obtain ⟨hmem,his⟩ := List.mem_filter.mp hmem
  obtain ⟨hel,hchild⟩ := signedPart_child doc.distinct hmem (Nodes.isElement_of_is his) hsig
  rw [readAssertion_dropComments sp hel,readAssertion_congr sp hchild]

def aliceSignature (next : Nodes) : Nodes :=
  .element 4 (some nsDsig) (octets "Signature") []
    (.element 5 (some nsDsig) (octets "SignedInfo") []
      (.element 6 (some nsDsig) (octets "Reference") [⟨none,octets "URI",octets "#_a"⟩] .nil .nil)
      .nil)
    next

/-- A comment stands inside the name. -/
def aliceSubject : Nodes :=
  .element 7 (some nsAssert) (octets "Subject") []
    (.element 8 (some nsAssert) (octets "NameID") []
      (.text (octets "al") (.comment (octets "x") (.text (octets "ice") .nil)))
      (.element 9 (some nsAssert) (octets "SubjectConfirmation") []
        (.element 10 (some nsAssert) (octets "SubjectConfirmationData")
          [⟨none,octets "InResponseTo",octets "_q"⟩] .nil .nil)
        .nil))
    .nil

def aliceAssertion : Nodes :=
  .element 3 (some nsAssert) (octets "Assertion") [⟨none,octets "ID",octets "_a"⟩]
    (aliceSignature aliceSubject) .nil

def aliceResponse : Doc where
  root := .element 0 (some nsProto) (octets "Response") []
    (.element 1 (some nsProto) (octets "Status") []
      (.element 2 (some nsProto) (octets "StatusCode")
        [⟨none,octets "Value",octets "urn:oasis:names:tc:SAML:2.0:status:Success"⟩] .nil .nil)
      aliceAssertion)
    .nil
  doctype := false
  distinct := by decide

/-- A key that has signed one assertion, with these attributes and children. -/
def oneSec (own : Octets) (attrs : List Attr) (children : Canon)
    (hid : ∃ a∈attrs,a.name=octets "ID") (hown : ∀ a∈attrs,a.name=octets "ID" → a.value=own) :
    XmlSec where
  keyLoads _ := true
  verify doc sig := some (match attr (reference sig) (octets "URI") with
    | [] => false
    | _::id => (resolveId doc.root id).any fun t => id = own ∧ (t.alone.without sig.addr).canonical =
        .element (some nsAssert) (octets "Assertion") attrs children .nil)
  Signed id c := id=own ∧ c=.element (some nsAssert) (octets "Assertion") attrs children .nil
  verify_signed {doc sig id} h huri := by
    rw [huri] at h
    have h' := Option.some.inj h
    obtain ⟨t,ht,hsigned⟩ := (Option.any_eq_true _ _).mp h'
    exact ⟨t,ht,of_decide_eq_true hsigned⟩
  signed_own {id c} h := by
    obtain ⟨rfl,rfl⟩ := h
    exact ⟨_,_,_,_,rfl,.inl ⟨rfl,rfl⟩,hid,hown⟩

theorem ids_named : ∃ a∈[(⟨none,octets "ID",octets "_a"⟩ : Attr)],a.name=octets "ID" := by
  decide

theorem ids_value : ∀ a∈[(⟨none,octets "ID",octets "_a"⟩ : Attr)],a.name=octets "ID" →
    a.value=octets "_a" := by
  decide

def aliceSec : XmlSec :=
  oneSec (octets "_a") [⟨none,octets "ID",octets "_a"⟩] aliceSubject.canonical ids_named ids_value

def corpSp : SamlSp where
  providerId := octets "corp"
  idpEntityId := []
  idpSsoUrl := octets "https://idp.example/sso"
  idpCert := octets "/etc/idp.pem"
  spEntityId := octets "https://pki.example/saml"
  spAcsUrl := octets "https://pki.example/api/saml/acs"
  usernameAttr := []
  groupsAttr := octets "groups"
  skew := 120

def aliceOut : SamlAssertion := ⟨octets "alice",octets "alice",[],[]⟩

theorem consume_reads_signed_alice :
    consume aliceSec corpSp 0 (· = octets "_q") aliceResponse=.ok aliceOut ∧
      ∃ signed : Nodes,aliceSec.Signed (octets "_a") signed.canonical ∧
        aliceOut=readAssertion corpSp signed := by
  have accepted : consume aliceSec corpSp 0 (· = octets "_q") aliceResponse=.ok aliceOut := by
    decide
  refine ⟨accepted,?_⟩
  obtain ⟨a,sig,hone,_,signed,_,hsigned,_,hout⟩ :=
    consume_reads_signed aliceSec corpSp 0 (· = octets "_q") aliceResponse aliceOut accepted
  exact ⟨signed,⟨rfl,hsigned.2⟩,hout⟩

end FastPki.Saml
