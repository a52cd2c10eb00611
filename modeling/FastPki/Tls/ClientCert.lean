import FastPki.Auth.Subject
import FastPki.Cmp.Identity

namespace FastPki.Tls
open X509 Auth Cmp

/-- `BN_bn2hex`: a sign, then two upper-case digits an octet; zero is one digit. -/
def bnBn2hex (n : Int) : String :=
  let digits := (Nat.toDigits 16 n.natAbs).map Char.toUpper
  let octets := if n ≠ 0 ∧ digits.length % 2 = 1 then '0'::digits else digits
  String.ofList (if n < 0 then '-'::octets else octets)

theorem bnBn2hex_ne (n : Int) : bnBn2hex n≠"" := by
  have hdigits : (Nat.toDigits 16 n.natAbs).map Char.toUpper≠[] := by
    simp [Nat.toDigits_ne_nil]
  intro h
  have hnil : String.ofList []="" := rfl
  have hlist := String.ofList_injective (h.trans hnil.symm)
  split_ifs at hlist
  exact hdigits hlist

/-- The end-entity certificate of a handshake, from whichever trusted CA. -/
structure Leaf where
  serial : Int
  subject : Name
  der : Octets

def Leaf.cert (leaf : Leaf) : Cert :=
  ⟨leaf.subject,bnBn2hex leaf.serial,leaf.der,bnBn2hex_ne leaf.serial⟩

/-- The database as the listeners read it; each lookup may throw. `users` are the rows of
`web_users` in the order of their names. -/
structure Db where
  getCert : String → Except String (Option CertRow)
  hasDeviceCert : String → Except String Bool
  coll : Collation
  users : Except String (List WebUser)

def Db.getWebUser (db : Db) (name : Octets) : Except String (Option WebUser) :=
  db.users.map fun users => Auth.getWebUser db.coll users name

/-- `client_cert_binding_cb` at depth 0, that is for the leaf. -/
def clientCertBinding (db : Option Db) (preverifyOk : Bool) (leaf : Leaf) : Bool :=
  if !preverifyOk then preverifyOk
  else match db with
    | none => preverifyOk
    | some db =>
      let serial := canonicalSerial (x509SerialHex leaf.cert)
      if serial = "" then preverifyOk
      else match db.getCert serial with
        | .error _ => false
        | .ok none => preverifyOk
        | .ok (some row) => row.certDer ≠ [] ∧ row.certDer = leaf.der

/-- What the HTTP server tells a handler of the certificate. -/
structure PeerCert where
  subjectCn : Octets
  serial : String

structure AuthInfo where
  ok : Bool
  username : Octets
  role : String
  deriving DecidableEq

/-- The name of a certificate: the owner of its row where the subject says the same, else the
qualified commonName. -/
def certUsername (db : Option Db) (peer : PeerCert) : Except String Octets :=
  let foreign := qualifySubject dn peer.subjectCn
  match db with
  | none => .ok foreign
  | some db =>
    let pserial := canonicalSerial peer.serial
    if pserial = "" then .ok foreign
    else do
      match ← db.getCert pserial with
      | none => return foreign
      | some row => return if row.owner = peer.subjectCn then row.owner else foreign

/-- The certificate branch of EST `authenticate`, with the row it onboards; `none` is a client
without one, which goes on to Basic. -/
def authenticate (db : Option Db) (peer : PeerCert) : Option (AuthInfo × Option WebUser) :=
  if peer.subjectCn = [] then none
  else match certUsername db peer with
    | .error _ => some (⟨false,qualifySubject dn peer.subjectCn,""⟩,none)
    | .ok username => match db with
      | none => some (⟨true,username,""⟩,none)
      | some db => match db.getWebUser username with
        | .error _ => some (⟨false,username,""⟩,none)
        | .ok none => some (⟨true,username,"none"⟩,some ⟨username,"none","",false⟩)
        -- a row without a role leaves it as it was, empty
        | .ok (some row) => some (⟨true,username,row.role⟩,none)

/-- A failed lookup finds nobody. -/
def findUser (db : Option Db) (name : Octets) : Option WebUser :=
  db.bind fun db => match db.getWebUser name with
    | .ok user => user
    | .error _ => none

def domainComponent : String := "0.9.2342.19200300.100.1.25"

/-- The first domainComponent as text, empty when there is none or it does not decode. -/
def firstDomainComponent (n : Name) : Octets :=
  ((n.find? (·.nid = domainComponent)).bind fun e => asn1StringToUtf8 e.value).getD []

section

-- The subject of a certificate, `none` where `parse_cert_der` throws, which ends the request.
variable (parseCertDer : Octets → Option Name)

/-- The account of a row of ours: its owner, where the subject names that person. -/
def rowUser (db : Db) (pserial : String) (row : CertRow) (cn : Octets) : Option WebUser :=
  if row.status ≠ 0 then none
  else match db.hasDeviceCert pserial with
    | .error _ | .ok true => none
    | .ok false =>
      if row.owner = [] then none
      else if row.owner = cn then findUser (some db) row.owner
      else if subjectProvider row.owner = [] ∨ subjectUser row.owner ≠ cn then none
      else match parseCertDer row.certDer with
        | none => none
        | some subject =>
          if firstDomainComponent subject ≠ subjectProvider row.owner then none
          else findUser (some db) row.owner

/-- The console's `mtls_user`; `certificateAllowed` is `signin_method_allowed`. -/
def mtlsUser (certificateAllowed : Bool) (db : Option Db) (peer : PeerCert) : Option WebUser :=
  let foreign := findUser db (qualifySubject dn peer.subjectCn)
  let pserial := canonicalSerial peer.serial
  if !certificateAllowed then none
  else if peer.subjectCn = [] then none
  else match db with
    | none => foreign
    | some db =>
      if pserial = "" then foreign
      else match db.getCert pserial with
        | .error _ => none
        | .ok none => foreign
        | .ok (some row) => rowUser parseCertDer db pserial row peer.subjectCn

/-- The row of the leaf's serial holds the leaf itself. -/
def Holds (db : Db) (leaf : Leaf) (row : CertRow) : Prop :=
  db.getCert (x509SerialHex leaf.cert)=.ok (some row) ∧ row.certDer=leaf.der

/-- A row that a handler finds under the presented serial was compared in the handshake. -/
theorem holds_of_binding {db : Db} {leaf : Leaf} {row : CertRow}
    (hpass : clientCertBinding (some db) true leaf=true)
    (hne : x509SerialHex leaf.cert≠"")
    (hrow : db.getCert (x509SerialHex leaf.cert)=.ok (some row)) : Holds db leaf row := by
  have hserial : canonicalSerial (x509SerialHex leaf.cert)=x509SerialHex leaf.cert :=
    canonicalSerial_idem _
  simp only [clientCertBinding,hserial,if_neg hne,hrow] at hpass
  have hder : row.certDer≠[] ∧ row.certDer=leaf.der := by simpa using hpass
  exact ⟨hrow,hder.2⟩

theorem certUsername_of_row {db : Option Db} {peer : PeerCert} {u : Octets}
    (h : certUsername db peer=.ok u) (hu : u≠qualifySubject dn peer.subjectCn) :
    ∃ d row,db=some d ∧ canonicalSerial peer.serial≠"" ∧
      d.getCert (canonicalSerial peer.serial)=.ok (some row) ∧ row.owner=u ∧
      peer.subjectCn=row.owner := by
  cases db with
  | none => exact absurd (Except.ok.inj h).symm hu
  | some d =>
    simp only [certUsername] at h
    by_cases hs : canonicalSerial peer.serial=""
    · rw [if_pos hs] at h
      exact absurd (Except.ok.inj h).symm hu
    rw [if_neg hs] at h
    cases hrow : d.getCert (canonicalSerial peer.serial) with
    | error e =>
      rw [hrow] at h
      cases h
    | ok found =>
      rw [hrow] at h
      cases found with
      | none => exact absurd (Except.ok.inj h).symm hu
      | some row =>
        have h' := Except.ok.inj h
        by_cases howner : row.owner=peer.subjectCn
        · rw [if_pos howner] at h'
          exact ⟨d,row,rfl,hs,hrow,h',howner.symm⟩
        · rw [if_neg howner] at h'
          exact absurd h'.symm hu

/-- However the lookup of the role ends, the name is the one the certificate was given. -/
theorem authenticate_username {db : Option Db} {peer : PeerCert} {a : AuthInfo}
    {onboarded : Option WebUser} (h : authenticate db peer=some (a,onboarded)) :
    a.username=qualifySubject dn peer.subjectCn ∨ certUsername db peer=.ok a.username := by
  simp only [authenticate] at h
  split_ifs at h
  split at h
  · cases h
    exact .inl rfl
  · next username hname =>
    right
    rw [hname]
    split at h
    · cases h
      rfl
    · split at h <;> cases h <;> rfl

theorem rowUser_some {db : Db} {pserial : String} {row : CertRow} {cn : Octets} {u : WebUser}
    (h : rowUser parseCertDer db pserial row cn=some u) :
    findUser (some db) row.owner=some u ∧ (cn=row.owner ∨ cn=subjectUser row.owner ∧
      ∃ subject,parseCertDer row.certDer=some subject ∧
        firstDomainComponent subject=subjectProvider row.owner) := by
  simp only [rowUser] at h
  split at h
  · cases h
  split at h
  · cases h
  · cases h
  split at h
  · cases h
  split at h
  · next howner => exact ⟨h,.inl howner.symm⟩
  split at h
  · cases h
  next hnames =>
  split at h
  · cases h
  next subject hparse =>
  split at h
  · cases h
  next hdc =>
  have hcn : subjectUser row.owner=cn := by
    by_contra hne
    exact hnames (.inr hne)
  exact ⟨h,.inr ⟨hcn.symm,subject,hparse,not_not.mp hdc⟩⟩

theorem mtlsUser_of_row {allowed : Bool} {db : Option Db} {peer : PeerCert} {u : WebUser}
    (h : mtlsUser parseCertDer allowed db peer=some u)
    (hu : findUser db (qualifySubject dn peer.subjectCn)≠some u) :
    ∃ d row,db=some d ∧ canonicalSerial peer.serial≠"" ∧
      d.getCert (canonicalSerial peer.serial)=.ok (some row) ∧
      rowUser parseCertDer d (canonicalSerial peer.serial) row peer.subjectCn=some u := by
  simp only [mtlsUser] at h
  split at h
  · cases h
  split at h
  · cases h
  cases db with
  | none => exact absurd h hu
  | some d =>
    by_cases hs : canonicalSerial peer.serial=""
    · simp only [if_pos hs] at h
      exact absurd h hu
    simp only [if_neg hs] at h
    split at h
    · cases h
    · exact absurd h hu
    · next row hrow => exact ⟨d,row,rfl,hs,hrow,h⟩

/-- A certificate that passed the handshake names an account only through the row that holds it:
to EST, and to the console. -/
theorem client_cert_account_issued (subjectCn : Name → Octets) (peerSerial : Int → String)
    (hserial : ∀ n,peerSerial n=bnBn2hex n) (certificateAllowed : Bool) (db : Option Db)
    (leaf : Leaf) (hpass : clientCertBinding db true leaf=true) :
    let peer : PeerCert := ⟨subjectCn leaf.subject,peerSerial leaf.serial⟩
    (∀ a onboarded,authenticate db peer=some (a,onboarded) →
      a.username≠qualifySubject dn peer.subjectCn →
      ∃ d row,db=some d ∧ Holds d leaf row ∧ row.owner=a.username ∧
        peer.subjectCn=row.owner) ∧
    (∀ u,mtlsUser parseCertDer certificateAllowed db peer=some u →
      findUser db (qualifySubject dn peer.subjectCn)≠some u →
      ∃ d row,db=some d ∧ Holds d leaf row ∧ findUser (some d) row.owner=some u ∧
        d.coll.lower u.username=d.coll.lower (cString row.owner) ∧
        (peer.subjectCn=row.owner ∨ peer.subjectCn=subjectUser row.owner ∧
          ∃ subject,parseCertDer row.certDer=some subject ∧
            firstDomainComponent subject=subjectProvider row.owner)) := by
  intro peer
  have key : canonicalSerial peer.serial=x509SerialHex leaf.cert := by
    show canonicalSerial (peerSerial leaf.serial)=canonicalSerial (bnBn2hex leaf.serial)
    rw [hserial]
  constructor
  · intro a onboarded ha hother
    obtain hforeign|hname := authenticate_username ha
    · exact absurd hforeign hother
    obtain ⟨d,row,rfl,hne,hrow,howner,hcn⟩ := certUsername_of_row hname hother
    rw [key] at hne hrow
    exact ⟨d,row,rfl,holds_of_binding hpass hne hrow,howner,hcn⟩
  · intro u hu hother
    obtain ⟨d,row,rfl,hne,hrow,huser⟩ := mtlsUser_of_row parseCertDer hu hother
    rw [key] at hne hrow
    obtain ⟨hfound,hnames⟩ := rowUser_some parseCertDer huser
    refine ⟨d,row,rfl,holds_of_binding hpass hne hrow,hfound,?_,hnames⟩
    simp only [findUser,Option.bind_some,Db.getWebUser] at hfound
    cases husers : d.users with
    | error e =>
      rw [husers] at hfound
      cases hfound
    | ok users =>
      rw [husers] at hfound
      exact getWebUser_eq_some hfound

end

def aliceLeaf : Leaf where
  serial := -5
  subject := [⟨commonName,⟨.utf8,octets "alice"⟩⟩]
  der := [0x30,0x82]

def alice : WebUser := ⟨octets "alice","requester","",false⟩

/-- The row of a negative serial is filed under `-05`. -/
def aliceDb : Db where
  getCert serial :=
    .ok (if serial = "-05" then some ⟨aliceLeaf.der,0,octets "alice"⟩ else none)
  hasDeviceCert _ := .ok false
  coll := collationC
  users := .ok [alice]

theorem client_cert_account_issued_alice :
    (∃ row,Holds aliceDb aliceLeaf row ∧ row.owner=octets "alice") ∧
      ∃ row,Holds aliceDb aliceLeaf row ∧ findUser (some aliceDb) row.owner=some alice := by
  have issued := client_cert_account_issued (fun _ => none)
    (fun subject => ((getTextByCn subject 256).map cString).getD []) bnBn2hex (fun _ => rfl) true
    (some aliceDb) aliceLeaf (by decide)
  constructor
  · obtain ⟨d,row,hd,hholds,howner,_⟩ :=
      issued.1 ⟨true,octets "alice","requester"⟩ none (by decide) (by decide)
    cases hd
    exact ⟨row,hholds,howner⟩
  · obtain ⟨d,row,hd,hholds,hfound,_⟩ := issued.2 alice (by decide) (by decide)
    cases hd
    exact ⟨row,hholds,hfound⟩

end FastPki.Tls
