import FastPki.X509.Name
import Mathlib.Data.List.DropRight

namespace FastPki.Cmp

open FastPki.X509

def canonicalSerial (s : String) : String :=
  if s = "" then ""
  else match (s.toList.map Char.toLower).dropWhile (· = '0') with
    | [] => "0"
    | rest => String.ofList rest

/-- A certificate as the CMP server meets it in `extraCerts`. `BN_bn2hex` prints at least one
digit of the serial. -/
structure Cert where
  subject : Name
  serialBnHex : String
  der : Octets
  serial_ne : serialBnHex≠""
  deriving DecidableEq

def x509SerialHex (c : Cert) : String := canonicalSerial c.serialBnHex

/-- What `parse_cmp_request` reads of a PKIMessage. The sender is `none` when it is not a
directoryName. -/
structure PkiMessage where
  sender : Option Name
  protectionAlgPbm : Bool
  senderKid : Octets
  extraCerts : List Cert

structure CmpRequestInfo where
  senderCn : Octets
  protectionPbm : Bool
  senderInExtracerts : Bool
  senderSerial : String
  senderKid : Octets

structure CertRow where
  certDer : Octets
  status : Int
  owner : Octets

section

-- `X509_NAME_cmp(a,b)==0`, which compares the canonical encodings of two names.
variable (nameCmp : Name → Name → Bool)

/-- One match, or none: the list and its order are the client's, so two entries of the sender's
name bind nothing. -/
def boundSigner (m : PkiMessage) : Option Cert :=
  match m.sender with
  | none => none
  | some sender =>
    match m.extraCerts.filter fun c => nameCmp c.subject sender with
    | [c] => some c
    | _ => none

def parseCmpRequest (m : PkiMessage) : CmpRequestInfo where
  senderCn := (m.sender.bind fun sender => getTextByCn sender 256).elim [] cString
  protectionPbm := m.protectionAlgPbm
  senderInExtracerts := (boundSigner nameCmp m).isSome
  senderSerial := (boundSigner nameCmp m).elim "" x509SerialHex
  senderKid := m.senderKid

/-- The user of a request; empty is no identity at all. `getCert` may throw. -/
def cmpIdentity (getCert : String → Except String (Option CertRow)) (st : CmpRequestInfo) :
    Octets :=
  if st.protectionPbm then st.senderKid
  else if !st.senderInExtracerts then []
  else if st.senderSerial = "" then st.senderCn
  else match getCert st.senderSerial with
    | .error _ => []
    | .ok none => st.senderCn
    | .ok (some row) =>
      if row.status ≠ 0 then []
      else if row.owner ≠ [] then row.owner
      else st.senderCn

theorem canonicalSerial_ne {s : String} (hs : s≠"") : canonicalSerial s≠"" := by
  simp only [canonicalSerial]
  rw [if_neg hs]
  split
  · decide
  · next hrest =>
    intro h
    have hnil : ""=String.ofList [] := rfl
    exact hrest (String.ofList_injective (h.trans hnil))

theorem canonicalSerial_cons {s : String} (hs : s≠"") {c : Char} {l : List Char}
    (h : (s.toList.map Char.toLower).dropWhile (· = '0')=c::l) :
    canonicalSerial s=String.ofList (c::l) := by
  rw [canonicalSerial,if_neg hs,h]

/-- The form is a fixed point: a serial made canonical twice names the same row. -/
theorem canonicalSerial_idem (s : String) :
    canonicalSerial (canonicalSerial s)=canonicalSerial s := by
  by_cases hs : s=""
  · subst hs
    decide
  cases hl : (s.toList.map Char.toLower).dropWhile (· = '0') with
  | nil =>
    have hzero : canonicalSerial s="0" := by
      rw [canonicalSerial,if_neg hs,hl]
    rw [hzero]
    decide
  | cons c l =>
    have hcanon := canonicalSerial_cons hs hl
    have hlow : (c::l).map Char.toLower=c::l := by
      refine (List.map_congr_left ?_).trans (List.map_id _)
      intro d hd
      have hmem : d∈s.toList.map Char.toLower := by
        apply (List.dropWhile_suffix (· = '0')).subset
        rwa [hl]
      obtain ⟨e,_,rfl⟩ := List.mem_map.mp hmem
      delta Char.toLower
      grind
    have hdrop : (c::l).dropWhile (· = '0')=c::l := by
      rw [← hl,List.dropWhile_idempotent]
    rw [hcanon]
    have hne : String.ofList (c::l)≠"" := hcanon ▸ canonicalSerial_ne hs
    apply canonicalSerial_cons hne
    rw [String.toList_ofList,hlow,hdrop]

theorem boundSigner_some {m : PkiMessage} {signer : Cert}
    (h : boundSigner nameCmp m=some signer) :
    ∃ sender,m.sender=some sender ∧ signer∈m.extraCerts ∧ nameCmp signer.subject sender=true := by
  simp only [boundSigner] at h
  split at h
  · cases h
  · next sender hsender =>
    split at h
    · next c hc =>
      obtain rfl : c=signer := Option.some.inj h
      have hmem : c∈m.extraCerts.filter fun c => nameCmp c.subject sender := by simp [hc]
      exact ⟨sender,hsender,List.mem_filter.mp hmem⟩
    · cases h

/-- For a bound signature the identity is decided by the row of the signer's serial alone. -/
theorem cmpIdentity_bound {getCert : String → Except String (Option CertRow)} {m : PkiMessage}
    {signer : Cert} (hsig : m.protectionAlgPbm=false)
    (hb : boundSigner nameCmp m=some signer) :
    cmpIdentity getCert (parseCmpRequest nameCmp m)=
      match getCert (x509SerialHex signer) with
      | .error _ => []
      | .ok none => (parseCmpRequest nameCmp m).senderCn
      | .ok (some row) =>
        if row.status ≠ 0 then []
        else if row.owner ≠ [] then row.owner
        else (parseCmpRequest nameCmp m).senderCn := by
  have hserial : x509SerialHex signer≠"" := canonicalSerial_ne signer.serial_ne
  have hstate : (parseCmpRequest nameCmp m).senderSerial=x509SerialHex signer := by
    simp [parseCmpRequest,hb]
  have hbound : (parseCmpRequest nameCmp m).senderInExtracerts=true := by
    simp [parseCmpRequest,hb]
  have hprot : (parseCmpRequest nameCmp m).protectionPbm=false := hsig
  simp only [cmpIdentity]
  rw [hprot,hbound,hstate]
  simp only [Bool.false_eq_true,if_false,Bool.not_true,if_neg hserial]

/-- A bound signer that the deployment issued stands for the owner of its row while that row is
valid; one that has no row here stands for the commonName of the sender field, which is the name
of its subject. -/
theorem cmpIdentity_of_signer (getCert : String → Except String (Option CertRow))
    (m : PkiMessage) (signer : Cert) (u : Octets) (hsig : m.protectionAlgPbm=false)
    (hb : boundSigner nameCmp m=some signer)
    (hu : cmpIdentity getCert (parseCmpRequest nameCmp m)=u) (hne : u≠[]) :
    ∃ sender,m.sender=some sender ∧ nameCmp signer.subject sender=true ∧
      (∀ row,getCert (x509SerialHex signer)=.ok (some row) → row.certDer=signer.der →
        row.status=0 ∧
        (row.owner=u ∨ (row.owner=[] ∧ (getTextByCn sender 256).map cString=some u))) ∧
      (getCert (x509SerialHex signer)=.ok none →
        (getTextByCn sender 256).map cString=some u) ∧
      (∀ e,getCert (x509SerialHex signer)≠.error e) := by
  obtain ⟨sender,hsender,_,hname⟩ := boundSigner_some nameCmp hb
  have hcn : (parseCmpRequest nameCmp m).senderCn=u →
      (getTextByCn sender 256).map cString=some u := by
    intro hcn
    simp only [parseCmpRequest,hsender,Option.bind_some] at hcn
    cases htext : getTextByCn sender 256 with
    | none => exact absurd (by simpa [htext] using hcn.symm) hne
    | some text => simpa [htext] using hcn
  rw [cmpIdentity_bound nameCmp hsig hb] at hu
  refine ⟨sender,hsender,hname,?_,?_,?_⟩
  · intro row hrow _
    rw [hrow] at hu
    dsimp only at hu
    split_ifs at hu with hst how
    · exact absurd hu.symm hne
    · exact ⟨not_not.mp hst,Or.inl hu⟩
    · exact ⟨not_not.mp hst,Or.inr ⟨not_not.mp how,hcn hu⟩⟩
  · intro hnone
    rw [hnone] at hu
    exact hcn hu
  · intro e he
    rw [he] at hu
    exact hne hu.symm

end

/-- A client certificate of a foreign CA, under the names and serials that CA chose. -/
def foreignSigner : Cert :=
  ⟨[⟨commonName,⟨.utf8,octets "ext"⟩⟩],"0A1B",[0x30,0x03,0x02,0x01,0x00],by decide⟩

/-- A deployment that has issued nothing yet. -/
def emptyCerts : String → Except String (Option CertRow) := fun _ => .ok none

def foreignRequest : PkiMessage := ⟨some foreignSigner.subject,false,[],[foreignSigner]⟩

theorem cmpIdentity_of_signer_foreign :
    ∃ sender,foreignRequest.sender=some sender ∧ foreignSigner.subject=sender ∧
      (getTextByCn sender 256).map cString=some (octets "ext") := by
  obtain ⟨sender,hs,hname,_,hnone,_⟩ := cmpIdentity_of_signer (fun a b => decide (a=b))
    emptyCerts foreignRequest foreignSigner (octets "ext") rfl (by decide) (by decide)
    (by decide)
  exact ⟨sender,hs,of_decide_eq_true hname,hnone rfl⟩

/-- With no row of that serial at all, the foreign signer stands for the local account of its
own commonName. -/
theorem cmpIdentity_foreign_cn :
    boundSigner (fun a b => decide (a=b)) foreignRequest=some foreignSigner ∧
    cmpIdentity emptyCerts (parseCmpRequest (fun a b => decide (a=b)) foreignRequest)=
      octets "ext" ∧
    octets "ext"≠[] ∧ ¬(octets "dn\\").isPrefixOf (octets "ext") ∧
    ¬∃ row : CertRow,emptyCerts (x509SerialHex foreignSigner)=.ok (some row) ∧
      row.certDer=foreignSigner.der ∧ row.status=0 ∧ row.owner=octets "ext" := by
  refine ⟨by decide,by decide,by decide,by decide,?_⟩
  intro h
  obtain ⟨row,hrow,_⟩ := h
  cases hrow

end FastPki.Cmp
