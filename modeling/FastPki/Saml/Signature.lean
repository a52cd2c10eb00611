import FastPki.Framework.Except
import FastPki.Framework.Xml
import FastPki.X509.Name
import Mathlib.Data.List.Infix

namespace FastPki.Saml
open X509 Xml

def nsProto : Octets := octets "urn:oasis:names:tc:SAML:2.0:protocol"
def nsAssert : Octets := octets "urn:oasis:names:tc:SAML:2.0:assertion"
def nsDsig : Octets := octets "http://www.w3.org/2000/09/xmldsig#"
def nsXml : Octets := octets "http://www.w3.org/XML/1998/namespace"

structure Refusal where
  code : Nat
  what : Octets
  deriving DecidableEq

/-- First descendant, self or below, in document order. -/
def findDesc (ns name : Octets) : Nodes → Option Nodes
  | .nil => none
  | .element addr ens ename attrs children next =>
    let n := Nodes.element addr ens ename attrs children next
    if n.is ns name then some n
    else match findDesc ns name children with
      | some c => some c
      | none => findDesc ns name next
  | .text _ next => findDesc ns name next
  | .comment _ next => findDesc ns name next

def countDesc (ns name : Octets) : Nodes → Nat
  | .nil => 0
  | .element addr ens ename attrs children next =>
    let n := Nodes.element addr ens ename attrs children next
    (if n.is ns name then 1 else 0)+countDesc ns name children+countDesc ns name next
  | .text _ next => countDesc ns name next
  | .comment _ next => countDesc ns name next

/-- Direct element child; of no node there is none. -/
def findChild (p : Option Nodes) (ns name : Octets) : Option Nodes :=
  p.bind fun p => p.children.siblings.find? (·.is ns name)

/-- `xmlGetProp`; an absent attribute reads as an empty one. -/
def attr (n : Option Nodes) (name : Octets) : Octets :=
  (n.bind fun n => n.getProp name).elim [] Attr.value

def countId (want : Octets) : Nodes → Nat
  | .nil => 0
  | .element addr ens ename attrs children next =>
    let n := Nodes.element addr ens ename attrs children next
    (if attr (some n) (octets "ID") = want then 1 else 0)+countId want children+countId want next
  | .text _ next => countId want next
  | .comment _ next => countId want next

/-- What `register_ids` adds; an attribute without text has no value to register. -/
def registerIds : Nodes → List (Octets × Nodes)
  | .nil => []
  | .element addr ens ename attrs children next =>
    let n := Nodes.element addr ens ename attrs children next
    (match n.getProp (octets "ID") with
      | none => []
      | some a => if a.value = [] then [] else [(a.value,n)])++
      registerIds children++registerIds next
  | .text _ next => registerIds next
  | .comment _ next => registerIds next

/-- The parser registers `xml:id` while it reads the document. -/
def parsedIds (root : Nodes) : List (Octets × Nodes) :=
  root.elements.flatMap fun n =>
    (n.attrs.filter fun a => a.ns = some nsXml ∧ a.name = octets "id").map fun a => (a.value,n)

/-- An id that is taken is not registered again: `#id` is the first one. -/
def resolveId (root : Nodes) (id : Octets) : Option Nodes :=
  ((parsedIds root++registerIds root).find? (·.1 = id)).map (·.2)

def isWeakAlg (uri : Octets) : Bool :=
  ["sha1","#sha1","md5","rsa-sha1","ecdsa-sha1","dsa-sha1","hmac-sha1"].any fun w =>
    octets w <:+: uri

def signedInfo (sig : Nodes) : Option Nodes := findChild (some sig) nsDsig (octets "SignedInfo")

def reference (sig : Nodes) : Option Nodes :=
  findChild (signedInfo sig) nsDsig (octets "Reference")

/-- xmlsec with the pinned key. A signature that it accepts is one of `Signed`: over the canonical
form of the element its URI resolves to, without the signature itself. The identity provider signs
assertions and responses under the one ID that their schema gives them. -/
structure XmlSec where
  keyLoads : Octets → Bool
  verify : Doc → Nodes → Option Bool
  Signed : Octets → Canon → Prop
  verify_signed : ∀ {doc sig id},verify doc sig=some true →
    attr (reference sig) (octets "URI")=octets "#"++id →
    ∃ target,resolveId doc.root id=some target ∧
      Signed id (target.alone.without sig.addr).canonical
  signed_own : ∀ {id c},Signed id c → ∃ ns name attrs children,
    c=.element ns name attrs children .nil ∧
    (ns=some nsAssert ∧ name=octets "Assertion" ∨ ns=some nsProto ∧ name=octets "Response") ∧
    (∃ a∈attrs,a.name=octets "ID") ∧ ∀ a∈attrs,a.name=octets "ID" → a.value=id

def verifySignedAssertion (sec : XmlSec) (idpCert : Octets) (doc : Doc) :
    Except Refusal Nodes := do
  refuseIf (doc.root = .nil) ⟨1,octets "SAML: empty document"⟩
  refuseIf (doc.doctype = true) ⟨1,octets "SAML: DOCTYPE not allowed"⟩
  refuseIf (doc.root.is nsProto (octets "Response") = false)
    ⟨1,octets "SAML: root is not a samlp:Response"⟩
  refuseIf (countDesc nsAssert (octets "Assertion") doc.root ≠ 1)
    ⟨1,octets "SAML: expected exactly one Assertion"⟩
  let assertion ← requireSome (findDesc nsAssert (octets "Assertion") doc.root)
    ⟨1,octets "SAML: assertion has no ID"⟩
  let aid := attr (some assertion) (octets "ID")
  refuseIf (aid = []) ⟨1,octets "SAML: assertion has no ID"⟩
  refuseIf (countId aid doc.root ≠ 1) ⟨1,octets "SAML: duplicate assertion ID"⟩
  let sig ← requireSome (findChild (some assertion) nsDsig (octets "Signature"))
    ⟨1,octets "SAML: assertion is not signed"⟩
  let si ← requireSome (signedInfo sig) ⟨1,octets "SAML: signature has no SignedInfo"⟩
  refuseIf (isWeakAlg (attr (findChild (some si) nsDsig (octets "SignatureMethod"))
    (octets "Algorithm"))) ⟨1,octets "SAML: weak SignatureMethod"⟩
  refuseIf (countDesc nsDsig (octets "Reference") si.children ≠ 1)
    ⟨1,octets "SAML: expected exactly one signature Reference"⟩
  refuseIf (attr (reference sig) (octets "URI") ≠ octets "#"++aid)
    ⟨1,octets "SAML: signature does not cover the assertion"⟩
  refuseIf (isWeakAlg (attr (findChild (reference sig) nsDsig (octets "DigestMethod"))
    (octets "Algorithm"))) ⟨1,octets "SAML: weak DigestMethod"⟩
  refuseIf (sec.keyLoads idpCert = false)
    ⟨2,octets "SAML: cannot load IdP certificate "++idpCert⟩
  let status ← requireSome (sec.verify doc sig) ⟨1,octets "SAML: signature verification error"⟩
  refuseIf (status = false) ⟨1,octets "SAML: assertion signature is INVALID"⟩
  return assertion

/-! The four traversals, over the elements in document order. -/

theorem findDesc_eq_find? (ns name : Octets) (n : Nodes) :
    findDesc ns name n=n.elements.find? (·.is ns name) := by
  induction n with
  | nil => rfl
  | element addr ens ename attrs children next ihc ihn =>
    rw [findDesc,Nodes.elements,List.cons_append]
    split_ifs with his
    · rw [List.find?_cons_of_pos his]
    · rw [List.find?_cons_of_neg his,List.find?_append,← ihc,← ihn]
      cases findDesc ns name children <;> rfl
  | text _ _ ih => exact ih
  | comment _ _ ih => exact ih

theorem countDesc_eq_countP (ns name : Octets) (n : Nodes) :
    countDesc ns name n=n.elements.countP (·.is ns name) := by
  induction n with
  | nil => rfl
  | element addr ens ename attrs children next ihc ihn =>
    rw [countDesc,Nodes.elements,List.cons_append,List.countP_cons,List.countP_append,ihc,ihn]
    omega
  | text _ _ ih => exact ih
  | comment _ _ ih => exact ih

theorem countId_eq_countP (want : Octets) (n : Nodes) :
    countId want n=n.elements.countP (fun e => attr (some e) (octets "ID") = want) := by
  induction n with
  | nil => rfl
  | element addr ens ename attrs children next ihc ihn =>
    rw [countId,Nodes.elements,List.cons_append,List.countP_cons,List.countP_append,ihc,ihn]
    simp only [decide_eq_true_eq]
    omega
  | text _ _ ih => exact ih
  | comment _ _ ih => exact ih

theorem registerIds_mem {n t : Nodes} {id : Octets} (h : (id,t)∈registerIds n) :
    t∈n.elements := by
  induction n with
  | nil => exact absurd h List.not_mem_nil
  | element addr ens ename attrs children next ihc ihn =>
    simp only [registerIds,List.mem_append] at h
    simp only [Nodes.elements,List.cons_append,List.mem_cons,List.mem_append]
    obtain (h|h)|h := h
    · left
      split at h
      · exact absurd h List.not_mem_nil
      · split_ifs at h
        · exact absurd h List.not_mem_nil
        · exact (Prod.mk.inj (List.mem_singleton.mp h)).2
    · exact .inr (.inl (ihc h))
    · exact .inr (.inr (ihn h))
  | text _ _ ih => exact ih h
  | comment _ _ ih => exact ih h

theorem resolveId_mem {root t : Nodes} {id : Octets} (h : resolveId root id=some t) :
    t∈root.elements := by
  obtain ⟨⟨_,t'⟩,hfind,rfl⟩ := Option.map_eq_some_iff.mp h
  obtain h|h := List.mem_append.mp (List.mem_of_find?_eq_some hfind)
  · obtain ⟨n,hn,h⟩ := List.mem_flatMap.mp h
    obtain ⟨a,_,ha⟩ := List.mem_map.mp h
    obtain rfl := (Prod.mk.inj ha).2
    exact hn
  · exact registerIds_mem h

theorem eq_of_countP_one {α : Type*} {l : List α} {p : α → Bool} (h : l.countP p=1) {x y : α}
    (hx : x∈l) (hpx : p x=true) (hy : y∈l) (hpy : p y=true) : x=y := by
  rw [List.countP_eq_length_filter] at h
  obtain ⟨z,hz⟩ := List.length_eq_one_iff.mp h
  have hx' : x∈l.filter p := List.mem_filter.mpr ⟨hx,hpx⟩
  have hy' : y∈l.filter p := List.mem_filter.mpr ⟨hy,hpy⟩
  rw [hz,List.mem_singleton] at hx' hy'
  rw [hx',hy']

/-- Where all attributes of a name have one value, their order does not matter. -/
theorem attr_eq_of_all {n : Nodes} {name v : Octets} (hex : ∃ a∈n.attrs,a.name=name)
    (hall : ∀ a∈n.attrs,a.name=name → a.value=v) : attr (some n) name=v := by
  obtain ⟨a,ha,haname⟩ := hex
  show (n.attrs.find? (·.name = name)).elim [] Attr.value=v
  cases hfind : n.attrs.find? (·.name = name) with
  | none =>
    have hnone := List.find?_eq_none.mp hfind a ha
    simp [haname] at hnone
  | some b =>
    have hb : b.name=name := by simpa using List.find?_some hfind
    exact hall b (List.mem_of_find?_eq_some hfind) hb

/-- A signed element carries the ID it is signed under. -/
theorem attr_of_signed {sec : XmlSec} {id : Octets} {sig : Nat} {t : Nodes}
    (h : sec.Signed id (t.alone.without sig).canonical) : attr (some t) (octets "ID")=id := by
  obtain ⟨ns,name,attrs,children,hc,_,⟨a,ha,haid⟩,hids⟩ := sec.signed_own h
  cases t with
  | element taddr tns tname tattrs tchildren tnext =>
    simp only [Nodes.alone,Nodes.without] at hc
    split_ifs at hc
    · cases hc
    · simp only [Nodes.canonical,Canon.element.injEq] at hc
      obtain ⟨_,_,rfl,_⟩ := hc
      apply attr_eq_of_all
      · exact ⟨a,mem_sortAttrs.mp ha,haid⟩
      · intro b hb
        exact hids b (mem_sortAttrs.mpr hb)
  | nil => cases hc
  | text _ _ => cases hc
  | comment _ _ => cases hc

/-- What is accepted is the one assertion of the document, and it is the element that was signed:
search, counts, child and resolution end at the same node. -/
theorem verifySignedAssertion_ok {sec : XmlSec} {idpCert : Octets} {doc : Doc} {a : Nodes}
    (h : verifySignedAssertion sec idpCert doc=.ok a) :
    doc.root.elements.filter (·.is nsAssert (octets "Assertion"))=[a] ∧
    ∃ sig,findChild (some a) nsDsig (octets "Signature")=some sig ∧
      sec.Signed (attr (some a) (octets "ID")) (a.alone.without sig.addr).canonical := by
  obtain ⟨_,_,h⟩ := bind_eq_ok_iff.mp h
  obtain ⟨_,_,h⟩ := bind_eq_ok_iff.mp h
  obtain ⟨_,_,h⟩ := bind_eq_ok_iff.mp h
  obtain ⟨_,hone,h⟩ := bind_eq_ok_iff.mp h
  obtain ⟨assertion,hassertion,h⟩ := bind_eq_ok_iff.mp h
  obtain ⟨_,_,h⟩ := bind_eq_ok_iff.mp h
  obtain ⟨_,hid,h⟩ := bind_eq_ok_iff.mp h
  obtain ⟨sig,hsig,h⟩ := bind_eq_ok_iff.mp h
  obtain ⟨_,_,h⟩ := bind_eq_ok_iff.mp h
  obtain ⟨_,_,h⟩ := bind_eq_ok_iff.mp h
  obtain ⟨_,_,h⟩ := bind_eq_ok_iff.mp h
  obtain ⟨_,huri,h⟩ := bind_eq_ok_iff.mp h
  obtain ⟨_,_,h⟩ := bind_eq_ok_iff.mp h
  obtain ⟨_,_,h⟩ := bind_eq_ok_iff.mp h
  obtain ⟨status,hstatus,h⟩ := bind_eq_ok_iff.mp h
  obtain ⟨_,hvalid,h⟩ := bind_eq_ok_iff.mp h
  obtain rfl := Except.ok.inj h
  rw [refuseIf_eq_ok_iff,not_not] at hone hid huri
  rw [requireSome_eq_ok_iff] at hassertion hsig hstatus
  rw [refuseIf_eq_ok_iff,Bool.not_eq_false] at hvalid
  subst hvalid
  rw [findDesc_eq_find?] at hassertion
  have hmem := List.mem_of_find?_eq_some hassertion
  have his := List.find?_some hassertion
  refine ⟨?_,sig,hsig,?_⟩
  · rw [countDesc_eq_countP,List.countP_eq_length_filter] at hone
    obtain ⟨z,hz⟩ := List.length_eq_one_iff.mp hone
    have hz' : assertion∈doc.root.elements.filter (·.is nsAssert (octets "Assertion")) :=
      List.mem_filter.mpr ⟨hmem,his⟩
    rw [hz,List.mem_singleton] at hz'
    rw [hz,hz']
  · obtain ⟨target,htarget,hsigned⟩ := sec.verify_signed hstatus huri
    rw [countId_eq_countP] at hid
    have hsame : target=assertion := by
      apply eq_of_countP_one hid (resolveId_mem htarget) _ hmem
      · simp
      · simpa using attr_of_signed hsigned
    rw [← hsame] at hsigned ⊢
    exact hsigned

end FastPki.Saml
