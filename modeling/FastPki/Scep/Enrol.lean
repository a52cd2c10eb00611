import FastPki.Certs.Store

namespace FastPki.Scep

open FastPki.X509 FastPki.Profile FastPki.Policy FastPki.Rbac FastPki.Issue FastPki.Certs

/-- A parked request. `status` is 0 pending, 1 issued, 2 rejected. -/
structure ScepPending where
  subject : Octets
  csr : Csr
  status : Int
  serial : String
  deriving DecidableEq

structure ScepChallenge where
  profile : String
  expires : Int
  used : Bool
  deriving DecidableEq

/-- `keys` holds the challenge secrets of the users, the other maps are keyed by token and by
transactionID. -/
structure Tables where
  certs : List StoredCert
  keys : String → Option String
  challenges : String → Option ScepChallenge
  pending : String → Option ScepPending

/-- The configuration and the tables that a request only reads. `nameCmp` is
`X509_NAME_cmp(a,b)==0`. -/
structure Server where
  ssl : Openssl
  nameCmp : Name → Name → Bool
  cfg : IssueConfig
  rbac : RbacDb
  profiles : ProfileStore
  directoryGroups : String → List String
  caUrlsForInstance : String → CaUrls
  scepManualApproval : Bool
  scepDynamicChallenge : Bool
  scepRenewal : Bool

/-- The certificate a pkiMessage is signed with, and which CA keys verify it. -/
structure SignerCert where
  cert : Cert
  verifiedBy : CaCert → Bool

/-- A PKCSReq on the route of `ca`; no CSR when the envelope does not decrypt. -/
structure PkcsReq where
  txid : String
  ca : String
  csr : Option (Except Error Csr)
  challengePassword : String
  signer : Option SignerCert

/-- What goes back: a CertRep, or a bare HTTP status. Every FAILURE says badRequest. -/
inductive Answer where
  | success (cert : Cert)
  | pending
  | failure
  | http (status : Nat) (text : String)
  deriving DecidableEq

def csrSubjectCn (csr : Csr) : Octets := (getTextByCn csr.subject 256).getD []

def renewalMismatch (srv : Server) (old : Cert) (csr : Csr) : Option String :=
  if !srv.nameCmp csr.subject old.subject then
    some "the CSR subject differs from the certificate being renewed"
  else if ¬csrSans csr ⊆ certSans old.extensions then
    some "the CSR asks for a subjectAltName the certificate being renewed does not hold"
  else none

/-- The owner of the certificate that this request renews, if it is a renewal. -/
def renewOwner (srv : Server) (t : Tables) (ca : CaCert) (now : Int) (signer : Option SignerCert)
    (csr : Csr) : Option String :=
  if !srv.scepRenewal then none
  else signer.bind fun s =>
    if !s.verifiedBy ca ∨ s.cert.notAfter ≤ now ∨ s.cert.notBefore > now then none
    else (getCert t.certs s.cert.serial).bind fun row =>
      if row.status ≠ 0 ∨ (renewalMismatch srv s.cert csr).isSome then none else some row.owner

/-- A per-user challenge is `user:secret` with exactly one colon and neither part empty. -/
def parseScepChallenge (presented : String) : Option (String × String) :=
  let kid := presented.toList.takeWhile (· ≠ ':')
  let secret := (presented.toList.dropWhile (· ≠ ':')).drop 1
  if kid = [] ∨ secret = [] ∨ ':' ∈ secret then none
  else some (String.ofList kid,String.ofList secret)

def challengeUser (t : Tables) (presented : String) : Option String :=
  (parseScepChallenge presented).bind fun ks =>
    if t.keys ks.1 = some ks.2 then some ks.1 else none

/-- One UPDATE both spends the token and returns its profile. -/
def consumeScepChallenge (t : Tables) (token : String) (now : Int) : Tables × Option String :=
  match t.challenges token with
  | none => (t,none)
  | some c =>
    if !c.used ∧ c.expires > now then
      ({ t with challenges := Function.update t.challenges token (some { c with used := true }) },
        some c.profile)
    else (t,none)

inductive Credential where
  | renewal (owner : String)
  | user (name : String)
  | token (profile : String)
  deriving DecidableEq

/-- A renewal needs no challenge; otherwise a user's secret is tried before a one-time token. -/
def authenticate (srv : Server) (t : Tables) (ca : CaCert) (now : Int) (m : PkcsReq) (csr : Csr) :
    Tables × Option Credential :=
  match renewOwner srv t ca now m.signer csr with
  | some owner => (t,some (.renewal owner))
  | none =>
    match challengeUser t m.challengePassword with
    | some user => (t,some (.user user))
    | none =>
      if srv.scepDynamicChallenge ∧ m.challengePassword ≠ "" then
        let consumed := consumeScepChallenge t m.challengePassword now
        (consumed.1,consumed.2.map .token)
      else (t,none)

/-- The gate for a user, and the cap it leaves. The other credentials name nobody. -/
def enrolGate (srv : Server) (certs : List StoredCert) (ca : String) (csr : Csr) :
    Credential → Except Answer (Option Int)
  | .user user =>
    let role := ((getWebUser srv.rbac user).map (·.role)).getD ""
    let groups := srv.directoryGroups user
    let lim := roleLimits srv.rbac user role groups
    if !mayEnrol srv.rbac user role "scep:enrol" ca groups then .error .failure
    else if (roleLimitRefusal certs lim user (csrSubjectCn csr) (csrSans csr).card).isSome then
      .error .failure
    else .ok lim.maxCerts
  | _ => .ok none

def issueArgs (srv : Server) (ca owner : String) (p : EffectiveProfile) : IssueArgs where
  profile := p.profile
  acme := false
  owner := owner
  passthroughExtOids := []
  caUrls := some (srv.caUrlsForInstance ca)
  omitAia := false
  omitCrldp := false
  attestedSerial := []

def ownerOf (username : String) : String := if username = "" then "scep" else username

/-- Issue and insert. The row is the new one among the certificates returned. -/
def issueFromCsr (srv : Server) (env : Env) (certs : List StoredCert) (caCert : CaCert)
    (ca : String) (csr : Csr) (requestedProfile username : String) (maxCerts : Option Int) :
    Except Error (List StoredCert × StoredCert) := do
  let owner := ownerOf username
  let p ← resolveProfile srv.rbac srv.profiles ⟨owner,"",srv.directoryGroups owner⟩ requestedProfile
  let cert ← issueCert srv.ssl srv.cfg caCert env csr (issueArgs srv ca owner p)
  let stored ← insertUnderCap certs (issuedRow cert owner ca) maxCerts
  let certs ← requireSome stored ⟨1,"certificate limit reached"⟩
  return (certs,issuedRow cert owner ca)

def certrepForSerial (t : Tables) (serial : String) : Answer :=
  (getCert t.certs serial).elim (.http 500 "failed to build CertRep") (.success ·.cert)

/-- A refusal by policy is an answer, anything else an HTTP status. -/
def refusal (e : Error) : Answer :=
  if e.code = 1 then .failure else .http 500 ("issuance error: "++e.message)

def parkedRow (csr : Csr) : ScepPending := ⟨csrSubjectCn csr,csr,0,""⟩

/-- Parked once; sent again, the request gets what has become of it. -/
def parkRequest (t : Tables) (txid : String) (csr : Csr) : Tables × Answer :=
  match t.pending txid with
  | some row =>
    (t,if row.status = 1 then certrepForSerial t row.serial
      else if row.status = 2 then .failure else .pending)
  | none =>
    ({ t with pending := Function.update t.pending txid (some (parkedRow csr)) },.pending)

/-- The subject and the profile that inline issuance takes from a credential. -/
def Credential.username : Credential → String
  | .renewal owner => owner
  | .user name => name
  | .token _ => ""

def Credential.requestedProfile : Credential → String
  | .token profile => profile
  | _ => ""

def issueInline (srv : Server) (env : Env) (t : Tables) (caCert : CaCert) (m : PkcsReq) (csr : Csr)
    (cred : Credential) (cap : Option Int) : Tables × Answer :=
  match issueFromCsr srv env t.certs caCert m.ca csr cred.requestedProfile cred.username cap with
  | .ok (certs,row) => ({ t with certs := certs },.success row.cert)
  | .error e => (t,refusal e)

def handlePkcsreq (srv : Server) (env : Env) (caCert : CaCert) (t : Tables) (m : PkcsReq) :
    Tables × Answer :=
  match m.csr with
  | none => (t,.http 400 "could not decrypt EnvelopedData with the CA key")
  | some (.error e) => (t,refusal e)
  | some (.ok csr) =>
    let auth := authenticate srv t caCert env.now m csr
    match auth.2 with
    | none => (auth.1,.failure)
    | some cred =>
      match enrolGate srv auth.1.certs m.ca csr cred with
      | .error answer => (auth.1,answer)
      | .ok cap =>
        if srv.scepManualApproval then parkRequest auth.1 m.txid csr
        else issueInline srv env auth.1 caCert m csr cred cap

def handleGetcertinitial (t : Tables) (txid : String) : Answer :=
  match t.pending txid with
  | none => .failure
  | some row =>
    if row.status = 2 then .failure
    else if row.status = 0 then .pending
    else certrepForSerial t row.serial

def setScepPendingStatus (t : Tables) (txid : String) (status : Int) (serial : String) : Tables :=
  let row := (t.pending txid).map fun row => { row with status := status, serial := serial }
  { t with pending := Function.update t.pending txid row }

/-- `--approve txid --ca ca`: the parked CSR is issued for nobody in particular, and the
certificate is recorded in its row. -/
def approve (srv : Server) (env : Env) (caCache : String → Except (Nat × String) CaCert)
    (t : Tables) (txid ca : String) : Except String (Tables × StoredCert) :=
  match t.pending txid with
  | none => .error ("no pending request with txid "++txid)
  | some row =>
    if row.status ≠ 0 then
      .error ("txid "++txid++" is not pending (status="++toString row.status++")")
    else if ca = "" then .error "cannot approve: name the issuing CA with --ca <ca_id>"
    else match caCache ca with
      | .error e => .error ("cannot approve: CA '"++ca++"' unavailable: "++e.2)
      | .ok caCert =>
        match issueFromCsr srv env t.certs caCert ca row.csr "" "" none with
        | .error e => .error e.message
        | .ok (certs,issued) =>
          .ok (setScepPendingStatus { t with certs := certs } txid 1 issued.cert.serial,issued)

def reject (t : Tables) (txid : String) : Tables :=
  if (t.pending txid).isSome then setScepPendingStatus t txid 2 "" else t

theorem pending_setScepPendingStatus_self (t : Tables) (txid : String) (status : Int)
    (serial : String) : (setScepPendingStatus t txid status serial).pending txid=
      (t.pending txid).map fun row => { row with status := status, serial := serial } :=
  Function.update_self ..

theorem pending_setScepPendingStatus_of_ne {txid txid' : String} (h : txid'≠txid) (t : Tables)
    (status : Int) (serial : String) :
    (setScepPendingStatus t txid status serial).pending txid'=t.pending txid' :=
  Function.update_of_ne h ..

/-- A decision keeps the CSR of every row. -/
theorem csr_of_setScepPendingStatus {t : Tables} {txid txid' serial : String} {status : Int}
    {row : ScepPending} (h : (setScepPendingStatus t txid status serial).pending txid'=some row) :
    ∃ old,t.pending txid'=some old ∧ old.csr=row.csr := by
  by_cases htx : txid'=txid
  · subst htx
    rw [pending_setScepPendingStatus_self] at h
    obtain ⟨old,hold,rfl⟩ := Option.map_eq_some_iff.mp h
    exact ⟨old,hold,rfl⟩
  · rw [pending_setScepPendingStatus_of_ne htx] at h
    exact ⟨row,h,rfl⟩

theorem issueFromCsr_eq_ok_iff {srv : Server} {env : Env} {certs out : List StoredCert}
    {caCert : CaCert} {ca : String} {csr : Csr} {requestedProfile username : String}
    {maxCerts : Option Int} {row : StoredCert} :
    issueFromCsr srv env certs caCert ca csr requestedProfile username maxCerts=.ok (out,row) ↔
      ∃ p,resolveProfile srv.rbac srv.profiles
          ⟨ownerOf username,"",srv.directoryGroups (ownerOf username)⟩ requestedProfile=.ok p ∧
        issueCert srv.ssl srv.cfg caCert env csr (issueArgs srv ca (ownerOf username) p)=
          .ok row.cert ∧
        row=issuedRow row.cert (ownerOf username) ca ∧
        insertUnderCap certs row maxCerts=.ok (some out) := by
  simp only [issueFromCsr]
  simp only [bind_eq_ok_iff,requireSome_eq_ok_iff]
  constructor
  · intro h
    obtain ⟨p,hp,cert,hcert,stored,hstored,certs',hsome,hret⟩ := h
    obtain ⟨rfl,rfl⟩ := Prod.mk.inj (Except.ok.inj hret)
    rw [hsome] at hstored
    exact ⟨p,hp,hcert,rfl,hstored⟩
  · intro h
    obtain ⟨p,hp,hcert,hrow,hstored⟩ := h
    rw [hrow] at hstored
    exact ⟨p,hp,row.cert,hcert,some out,hstored,out,rfl,by rw [← hrow]; rfl⟩

/-- The certificate is for the key of this request, from this CA. -/
def CertFor (caCert : CaCert) (csr : Csr) (c : Cert) : Prop :=
  c.pubkey.key=csr.pubkey.key ∧ c.issuer=caCert.subject

theorem publishedKey_key (pk : PublicKey) : (publishedKey pk).key=pk.key := by
  simp only [publishedKey]
  split_ifs
  · rfl
  · rfl

theorem certFor_of_issueCert {srv : Server} {caCert : CaCert} {env : Env} {csr : Csr}
    {a : IssueArgs} {c : Cert} (h : issueCert srv.ssl srv.cfg caCert env csr a=.ok c) :
    CertFor caCert csr c := by
  obtain ⟨i⟩ := issueCertFromParts_issued h
  have hkey : c.pubkey=publishedKey i.pk := congrArg Cert.pubkey i.eq
  have hpk : csr.pubkey=i.pk := Option.some.inj i.key
  refine ⟨?_,congrArg Cert.issuer i.eq⟩
  rw [hkey,publishedKey_key]
  exact congrArg PublicKey.key hpk.symm

/-- Authentication may spend a token and touches nothing else. -/
theorem authenticate_tables (srv : Server) (t : Tables) (ca : CaCert) (now : Int) (m : PkcsReq)
    (csr : Csr) :
    (authenticate srv t ca now m csr).1.certs=t.certs ∧
      (authenticate srv t ca now m csr).1.pending=t.pending := by
  simp only [authenticate]
  split
  · exact ⟨rfl,rfl⟩
  · split
    · exact ⟨rfl,rfl⟩
    · split
      · dsimp only
        simp only [consumeScepChallenge]
        split
        · exact ⟨rfl,rfl⟩
        · split
          · exact ⟨rfl,rfl⟩
          · exact ⟨rfl,rfl⟩
      · exact ⟨rfl,rfl⟩

/-- What a PKCSReq can do: leave certificates and parked requests alone, park, or issue. -/
inductive PkcsreqDoes (srv : Server) (env : Env) (caCert : CaCert) (t : Tables) (m : PkcsReq)
    (out : Tables × Answer) : Prop where
  | kept (certs : out.1.certs=t.certs) (pending : out.1.pending=t.pending)
    (answer : ∀ c,out.2=.success c → srv.scepManualApproval=true ∧
      ∃ row,t.pending m.txid=some row ∧ row.status=1 ∧ certrepForSerial t row.serial=.success c)
  | parked (csr : Csr) (cred : Credential) (read : m.csr=some (.ok csr))
    (auth : (authenticate srv t caCert env.now m csr).2=some cred)
    (manual : srv.scepManualApproval=true) (new : t.pending m.txid=none)
    (certs : out.1.certs=t.certs)
    (pending : out.1.pending=Function.update t.pending m.txid (some (parkedRow csr)))
    (answer : out.2=.pending)
  | issued (csr : Csr) (cred : Credential) (cap : Option Int) (row : StoredCert)
    (read : m.csr=some (.ok csr)) (inline : srv.scepManualApproval=false)
    (issue : issueFromCsr srv env t.certs caCert m.ca csr cred.requestedProfile cred.username cap=
      .ok (out.1.certs,row))
    (pending : out.1.pending=t.pending) (answer : out.2=.success row.cert)

theorem PkcsreqDoes.of_kept {srv : Server} {env : Env} {caCert : CaCert} {t : Tables}
    {m : PkcsReq} {out : Tables × Answer} (certs : out.1.certs=t.certs)
    (pending : out.1.pending=t.pending) (answer : ∀ c,out.2≠.success c) :
    PkcsreqDoes srv env caCert t m out :=
  .kept certs pending fun c hc => absurd hc (answer c)

theorem refusal_ne_success (e : Error) (c : Cert) : refusal e≠.success c := by
  simp only [refusal]
  split
  · exact Answer.noConfusion
  · exact Answer.noConfusion

theorem enrolGate_ne_success {srv : Server} {certs : List StoredCert} {ca : String} {csr : Csr}
    {cred : Credential} {a : Answer} (h : enrolGate srv certs ca csr cred=.error a) (c : Cert) :
    a≠.success c := by
  cases cred with
  | user name =>
    simp only [enrolGate] at h
    split_ifs at h
    · rw [← Except.error.inj h]
      exact Answer.noConfusion
    · rw [← Except.error.inj h]
      exact Answer.noConfusion
  | renewal owner => cases h
  | token profile => cases h

theorem handlePkcsreq_does (srv : Server) (env : Env) (caCert : CaCert) (t : Tables)
    (m : PkcsReq) : PkcsreqDoes srv env caCert t m (handlePkcsreq srv env caCert t m) := by
  simp only [handlePkcsreq]
  cases hcsr : m.csr with
  | none => exact .of_kept rfl rfl fun _ => Answer.noConfusion
  | some parsed =>
    cases parsed with
    | error e => exact .of_kept rfl rfl (refusal_ne_success e)
    | ok csr =>
      obtain ⟨hcerts,hpending⟩ := authenticate_tables srv t caCert env.now m csr
      dsimp only
      cases hcred : (authenticate srv t caCert env.now m csr).2 with
      | none => exact .of_kept hcerts hpending fun _ => Answer.noConfusion
      | some cred =>
        dsimp only
        cases hgate : enrolGate srv (authenticate srv t caCert env.now m csr).1.certs m.ca csr
            cred with
        | error a => exact .of_kept hcerts hpending (enrolGate_ne_success hgate)
        | ok cap =>
          dsimp only
          split
          · next hmanual =>
            simp only [parkRequest]
            rw [hpending]
            cases hrow : t.pending m.txid with
            | none =>
              exact .parked csr cred hcsr hcred hmanual hrow hcerts rfl rfl
            | some row =>
              refine .kept hcerts hpending fun c hc => ⟨hmanual,row,hrow,?_⟩
              dsimp only at hc
              split_ifs at hc with h1
              refine ⟨h1,?_⟩
              rw [certrepForSerial,hcerts] at hc
              exact hc
          · next hmanual =>
            simp only [issueInline]
            rw [hcerts]
            split
            · next certs row hissue =>
              exact .issued csr cred cap row hcsr (by simpa using hmanual) hissue hpending rfl
            · next e _ => exact .of_kept hcerts hpending (refusal_ne_success e)

theorem approve_eq_ok_iff {srv : Server} {env : Env}
    {caCache : String → Except (Nat × String) CaCert} {t out : Tables} {txid ca : String}
    {row : StoredCert} :
    approve srv env caCache t txid ca=.ok (out,row) ↔
      ∃ pend caCert certs,t.pending txid=some pend ∧ pend.status=0 ∧ ca≠"" ∧
        caCache ca=.ok caCert ∧
        issueFromCsr srv env t.certs caCert ca pend.csr "" "" none=.ok (certs,row) ∧
        out=setScepPendingStatus { t with certs := certs } txid 1 row.cert.serial := by
  simp only [approve]
  cases hpend : t.pending txid with
  | none => simp
  | some pend =>
    by_cases hst : pend.status=0
    · by_cases hca : ca=""
      · simp [hst,hca]
      · cases hcache : caCache ca with
        | error e => simp [hst,hca]
        | ok caCert =>
          cases hissue : issueFromCsr srv env t.certs caCert ca pend.csr "" "" none with
          | error e => simp [hst,hca,hissue]
          | ok issued =>
            obtain ⟨certs,row'⟩ := issued
            simp only [hst,hca,hissue,ne_eq,not_true_eq_false,if_false,Except.ok.injEq,
              Prod.mk.injEq,Option.some.injEq]
            constructor
            · intro h
              obtain ⟨hout,rfl⟩ := h
              exact ⟨pend,caCert,certs,rfl,hst,not_false,rfl,by rw [hissue],hout.symm⟩
            · intro h
              obtain ⟨pend',caCert',certs',rfl,_,_,rfl,hissue',hout⟩ := h
              rw [hissue] at hissue'
              obtain ⟨rfl,rfl⟩ := Prod.mk.inj (Except.ok.inj hissue')
              exact ⟨hout.symm,rfl⟩
    · simp [hst]

end FastPki.Scep
