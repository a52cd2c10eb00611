import FastPki.Cmp.Identity
import FastPki.X509.Canonical

namespace FastPki.Cmp

open FastPki.X509

section

variable (nameCmp : Name → Name → Bool)

/-- One entry of `extraCerts`: the matches so far, and the first of them. -/
def senderStep (sender : Name) (acc : Nat × Option Cert) (c : Cert) : Nat × Option Cert :=
  if nameCmp c.subject sender then (acc.1+1,if acc.2 = none then some c else acc.2) else acc

/-- The loop over `extraCerts`. -/
def senderScan (sender : Name) (certs : List Cert) : Nat × Option Cert :=
  certs.foldl (senderStep nameCmp sender) (0,none)

/-- `matches == 1 && match != nullptr`. -/
def senderMatch (m : PkiMessage) : Option Cert :=
  match m.sender with
  | none => none
  | some sender =>
    let r := senderScan nameCmp sender m.extraCerts
    if r.1 = 1 then r.2 else none

/-- The serial that a request is judged by. -/
def CmpRequestInfo.takenSerial (i : CmpRequestInfo) : Option String :=
  if i.senderInExtracerts then some i.senderSerial else none

/-- The loop counts the entries of the sender's name and keeps the first. -/
theorem foldl_senderStep (sender : Name) (certs : List Cert) (n : Nat) (o : Option Cert) :
    certs.foldl (senderStep nameCmp sender) (n,o)=
      (n+(certs.filter fun c => nameCmp c.subject sender).length,
        o.or (certs.filter fun c => nameCmp c.subject sender).head?) := by
  induction certs generalizing n o with
  | nil => simp
  | cons c certs ih =>
    rw [List.foldl_cons,senderStep]
    by_cases hc : nameCmp c.subject sender=true
    · rw [if_pos hc,ih]
      have hkeep : (c::certs).filter (fun c => nameCmp c.subject sender)=
          c::certs.filter fun c => nameCmp c.subject sender := List.filter_cons_of_pos hc
      rw [hkeep]
      cases o with
      | none =>
        simp only [List.length_cons,List.head?_cons]
        congr 1
        omega
      | some d =>
        simp only [List.length_cons,List.head?_cons]
        congr 1
        omega
    · rw [if_neg hc,ih]
      have hskip : (c::certs).filter (fun c => nameCmp c.subject sender)=
          certs.filter fun c => nameCmp c.subject sender := List.filter_cons_of_neg hc
      rw [hskip]

/-- The entries of the sender's name. -/
def senderCerts (sender : Name) (certs : List Cert) : List Cert :=
  certs.filter fun c => nameCmp c.subject sender

theorem boundSigner_eq {m : PkiMessage} {sender : Name} (hsender : m.sender=some sender) :
    boundSigner nameCmp m=if (senderCerts nameCmp sender m.extraCerts).length=1 then
      (senderCerts nameCmp sender m.extraCerts).head? else none := by
  simp only [boundSigner,hsender]
  generalize hl : senderCerts nameCmp sender m.extraCerts=l
  rw [senderCerts] at hl
  simp only [hl]
  cases l with
  | nil => rfl
  | cons c rest =>
    cases rest with
    | nil => rfl
    | cons d rest => simp

theorem senderMatch_eq_boundSigner (m : PkiMessage) :
    senderMatch nameCmp m=boundSigner nameCmp m := by
  cases hsender : m.sender with
  | none => simp only [senderMatch,boundSigner,hsender]
  | some sender =>
    rw [boundSigner_eq nameCmp hsender]
    simp only [senderMatch,hsender,senderScan,foldl_senderStep,Nat.zero_add,Option.none_or]
    rfl

theorem takenSerial_eq (m : PkiMessage) :
    (parseCmpRequest nameCmp m).takenSerial=(senderMatch nameCmp m).map x509SerialHex := by
  rw [senderMatch_eq_boundSigner]
  cases hsigner : boundSigner nameCmp m with
  | none => simp [CmpRequestInfo.takenSerial,parseCmpRequest,hsigner]
  | some c => simp [CmpRequestInfo.takenSerial,parseCmpRequest,hsigner]

/-- A permuted list has the same matches up to their order, and one match has no order. -/
theorem boundSigner_perm (m : PkiMessage) {certs : List Cert} (h : certs.Perm m.extraCerts) :
    boundSigner nameCmp { m with extraCerts := certs }=boundSigner nameCmp m := by
  by_cases hnone : m.sender=none
  · simp only [boundSigner,hnone]
  · obtain ⟨sender,hsender⟩ := Option.ne_none_iff_exists'.mp hnone
    have hperm : (senderCerts nameCmp sender certs).Perm
        (senderCerts nameCmp sender m.extraCerts) := h.filter _
    have hpermuted := boundSigner_eq nameCmp (m := { m with extraCerts := certs }) hsender
    rw [hpermuted,boundSigner_eq nameCmp hsender,hperm.length_eq]
    split_ifs with hone
    · obtain ⟨c,hc⟩ := List.length_eq_one_iff.mp hone
      rw [hc] at hperm
      rw [hc,List.perm_singleton.mp hperm]
    · rfl

/-- With exactly one entry of the sender's name that entry is bound, else none is. -/
theorem boundSigner_of_mem {m : PkiMessage} {sender : Name} {signer : Cert}
    (hsender : m.sender=some sender) (hmem : signer∈m.extraCerts)
    (hname : nameCmp signer.subject sender=true) :
    boundSigner nameCmp m=
      if (senderCerts nameCmp sender m.extraCerts).length=1 then some signer else none := by
  have hfilter : signer∈senderCerts nameCmp sender m.extraCerts :=
    List.mem_filter.mpr ⟨hmem,hname⟩
  rw [boundSigner_eq nameCmp hsender]
  split_ifs with hone
  · obtain ⟨c,hc⟩ := List.length_eq_one_iff.mp hone
    rw [hc] at hfilter
    rw [hc,List.mem_singleton.mp hfilter]
    rfl
  · rfl

theorem boundSigner_eq_none {m : PkiMessage}
    (h : ∀ sender,m.sender=some sender → (senderCerts nameCmp sender m.extraCerts).length≠1) :
    boundSigner nameCmp m=none := by
  cases hsender : m.sender with
  | none => simp only [boundSigner,hsender]
  | some sender => rw [boundSigner_eq nameCmp hsender,if_neg (h sender hsender)]

/-- The order of `extraCerts` decides nothing: a permuted list gives the same request, an ambiguous
one and one without the sender no serial, and a signer of the sender's name is the one taken or none
is. -/
theorem sender_serial_of_any_order (m : PkiMessage) :
    (∀ certs : List Cert,certs.Perm m.extraCerts →
      parseCmpRequest nameCmp { m with extraCerts := certs }=parseCmpRequest nameCmp m) ∧
    ((∀ sender,m.sender=some sender → (senderCerts nameCmp sender m.extraCerts).length≠1) →
      (parseCmpRequest nameCmp m).takenSerial=none ∧
      (parseCmpRequest nameCmp m).senderSerial="") ∧
    ∀ sender signer,m.sender=some sender → signer∈m.extraCerts →
      nameCmp signer.subject sender=true →
      (parseCmpRequest nameCmp m).takenSerial=some (x509SerialHex signer) ∨
      (parseCmpRequest nameCmp m).takenSerial=none := by
  refine ⟨?_,?_,?_⟩
  · intro certs hperm
    simp only [parseCmpRequest,boundSigner_perm nameCmp m hperm]
  · intro hcount
    have hnone := boundSigner_eq_none nameCmp hcount
    constructor
    · rw [takenSerial_eq,senderMatch_eq_boundSigner,hnone]
      rfl
    · simp only [parseCmpRequest,hnone]
      rfl
  · intro sender signer hsender hmem hname
    rw [takenSerial_eq,senderMatch_eq_boundSigner,
      boundSigner_of_mem nameCmp hsender hmem hname]
    split_ifs
    · exact Or.inl rfl
    · exact Or.inr rfl

end

/-- Another certificate of the same subject, ahead of the signer's own. -/
def victim : Cert :=
  ⟨[⟨commonName,⟨.utf8,octets "EXT "⟩⟩],"07",[0x30,0x03,0x02,0x01,0x07],by decide⟩

theorem sender_serial_of_any_order_foreign :
    (parseCmpRequest nameCmp foreignRequest).takenSerial=some (x509SerialHex foreignSigner) ∧
    (parseCmpRequest nameCmp { foreignRequest with extraCerts := [victim,foreignSigner] }).takenSerial=
      none := by
  have halone := (sender_serial_of_any_order nameCmp foreignRequest).2.2 foreignSigner.subject
    foreignSigner rfl (by decide) (by decide)
  have hboth := (sender_serial_of_any_order nameCmp
    { foreignRequest with extraCerts := [victim,foreignSigner] }).2.1 (by
      intro sender hsender
      cases hsender
      decide)
  refine ⟨halone.resolve_right ?_,hboth.1⟩
  decide

end FastPki.Cmp
