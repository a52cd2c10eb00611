import FastPki.Ca.Instance
import FastPki.Crl.Coverage
import FastPki.X509.Extension

namespace FastPki.Ocsp
open X509 Certs Crl Ca

/-- A CertID: the hash algorithm, the hashes of the issuer's name and key, and the serial. -/
structure CertId where
  algorithm : Oid
  nameHash : Octets
  keyHash : Octets
  serial : Int

/-- What OpenSSL computes: `d2i_X509`, `X509_NAME_cmp(a, b) == 0`, and the issuer hashes that
`OCSP_cert_id_new` puts in a CertID, none for a digest it does not know. -/
structure Openssl where
  d2i : Octets → Option X509Cert
  sameName : Name → Name → Bool
  issuerHashes : Oid → X509Cert → Option (Octets × Octets)

/-- A responder for one CA, with the certificates of the CA it loaded. -/
structure Responder where
  caId : String
  caCert : X509Cert
  caChain : List X509Cert

variable (ssl : Openssl)

/-- `certid_names_this_ca` for these certificates of the CA. -/
def certidNamesThisCa (id : CertId) (cas : List X509Cert) : Bool :=
  cas.any fun ca => ssl.issuerHashes id.algorithm ca = some (id.nameHash,id.keyHash)

/-- The certificates of the CA as the database has them now; none where the CA is not found. -/
def liveCerts (now : Int) (db : Inventory) (caId : String) : List X509Cert :=
  let rc := resolveCaInstance ssl.d2i now db caId
  if rc.found then (rc.certDer::rc.chainDers).filterMap fun der => if der = [] then none else ssl.d2i der
  else []

/-- One SingleResponse. A reason of 0 is sent as no reason. -/
inductive CertStatus where
  | good
  | revoked (reason date : Int)
  | unknown
  deriving DecidableEq

/-- The stored certificate, where there is one that parses. -/
def parsed (row : Row) : Option X509Cert := if row.cert = [] then none else ssl.d2i row.cert

/-- Whether the row stands for a certificate that the CA of this responder issued. A row without a
certificate to look at passes, whichever CA it belongs to. -/
def issuedHere (r : Responder) (row : Row) : Bool :=
  row.caInstanceId.getD "" ≠ "" &&
    (parsed ssl row).all fun c => (r.caCert::r.caChain).any fun ca => ssl.sameName c.issuer ca.subject

def rowStatus (row : Row) : CertStatus :=
  match row.status.getD 0 with
  | 0 | 1 | 3 => .good
  | -1 => .revoked (row.revocationReason.getD 0) (row.revocationDate.getD 0)
  | 2 => .revoked 6 (row.notBefore.getD 0)
  | _ => .unknown

/-- The answer for one CertID, none for unauthorized. A serial the CA did not issue is answered as
on hold since the epoch. -/
def answer (r : Responder) (now : Int) (db : Inventory) (id : CertId) : Option CertStatus :=
  if certidNamesThisCa ssl id (r.caCert::r.caChain) ∨
      certidNamesThisCa ssl id (liveCerts ssl now db r.caId) then
    match (db.getCert (serialHex id.serial)).filter (issuedHere ssl r) with
    | none => some (.revoked 6 0)
    | some row => some (rowStatus row)
  else none

/-- The loop of `handle`: one CertID that is not for this CA refuses the whole request. -/
def handle (r : Responder) (now : Int) (db : Inventory) (ids : List CertId) :
    Option (List (CertId × CertStatus)) :=
  ids.mapM fun id => (answer ssl r now db id).map fun st => (id,st)

/-- A response answers each CertID of the request by itself. -/
theorem handle_answers {r : Responder} {now : Int} {db : Inventory} {ids : List CertId}
    {out : List (CertId × CertStatus)} (h : handle ssl r now db ids=some out) :
    out.map Prod.fst=ids ∧ ∀ p∈out,answer ssl r now db p.1=some p.2 := by
  induction ids generalizing out with
  | nil =>
    obtain rfl : []=out := Option.some.inj h
    simp
  | cons id ids ih =>
    simp only [handle,List.mapM_cons,Option.bind_eq_bind,Option.bind_eq_some_iff,
      Option.map_eq_some_iff] at h
    obtain ⟨p,⟨st,hst,rfl⟩,rest,hrest,hout⟩ := h
    obtain rfl : (id,st)::rest=out := Option.some.inj hout
    obtain ⟨hids,hall⟩ := ih hrest
    constructor
    · simp [hids]
    · intro q hq
      obtain rfl|hq := List.mem_cons.mp hq
      · exact hst
      · exact hall q hq

/-- What the writers of the table see to: a certificate names its issuer, so that its issuer name
is the subject of that CA and of no other; what a CA issued is filed under a CA; the statuses
are those that `db.hpp` lists. -/
structure Filed (db : Inventory) (issuer : Row → Option String) : Prop where
  spelled : Spelled db
  owned : ∀ row∈db.rows,issuer row≠none → row.caInstanceId.getD ""≠""
  named : ∀ row∈db.rows,∀ c,parsed ssl row=some c → ∀ y,∀ g∈generations db y,
    ∀ ca,ssl.d2i g.cert=some ca → (ssl.sameName c.issuer ca.subject=true ↔ issuer row=some y)
  status : ∀ row∈db.rows,row.status.getD 0=0 ∨ row.status.getD 0=1 ∨ row.status.getD 0=-1 ∨
    row.status.getD 0=2 ∨ row.status.getD 0=3

/-- The responder loaded its certificates from rows of its CA. -/
def Loaded (r : Responder) (db : Inventory) : Prop :=
  ∀ ca∈r.caCert::r.caChain,∃ g∈generations db r.caId,ssl.d2i g.cert=some ca

section Agreement

variable {ssl} {db : Inventory} {issuer : Row → Option String} {r : Responder} {row : Row}

/-- Where there is a certificate to look at, the responder finds out who issued it. -/
theorem issuedHere_iff (hfiled : Filed ssl db issuer) (hloaded : Loaded ssl r db)
    (hrow : row∈db.rows) (hread : parsed ssl row=none → issuer row=some r.caId) :
    issuedHere ssl r row=true ↔ issuer row=some r.caId := by
  simp only [issuedHere,Bool.and_eq_true,decide_eq_true_eq]
  constructor
  · intro h
    cases hp : parsed ssl row with
    | none => exact hread hp
    | some c =>
      have hany := h.2
      rw [hp,Option.all_some,List.any_eq_true] at hany
      obtain ⟨ca,hca,hsame⟩ := hany
      obtain ⟨g,hg,hder⟩ := hloaded ca hca
      exact (hfiled.named row hrow c hp r.caId g hg ca hder).mp hsame
  · intro hiss
    refine ⟨hfiled.owned row hrow (by simp [hiss]),?_⟩
    cases hp : parsed ssl row with
    | none => rfl
    | some c =>
      obtain ⟨g,hg,hder⟩ := hloaded r.caCert List.mem_cons_self
      have hsame := (hfiled.named row hrow c hp r.caId g hg r.caCert hder).mpr hiss
      simp [hsame]

theorem rowStatus_good_iff (hfiled : Filed ssl db issuer) (hrow : row∈db.rows) :
    rowStatus row=.good ↔ row.status≠some 2 ∧ row.status≠some (-1) := by
  obtain h|h|h|h|h := hfiled.status row hrow <;> cases hst : row.status <;>
    simp_all [rowStatus]

theorem rowStatus_revoked {reason date : Int}
    (h : revocation row.toCertRow=some (reason,date)) : rowStatus row=.revoked reason date := by
  obtain ⟨hrev,hr,hd⟩ := revoked_of_revocation h
  simp only [revoked,decide_eq_true_eq] at hrev
  simp [rowStatus,hrev,hr,hd]

/-- An entry of the full CRL is what the row of a certificate of this CA says. -/
theorem entry_issuer (hfiled : Filed ssl db issuer) (hissuance : Issuance db issuer) {id : CertId}
    (hroot : ∀ row,db.find (serialHex id.serial)=some row → ∀ y,row.id=some y → ¬Root db issuer y)
    {days number reason date : Int} {x : String}
    (he : ⟨id.serial,reason,date⟩∈(generateCrl days db x number 0).entries) :
    ∃ row,db.find (serialHex id.serial)=some row ∧ issuer row=some x ∧
      revocation row.toCertRow=some (reason,date) := by
  obtain ⟨row,hfind,hcov,hrev⟩ := (mem_full hfiled.spelled).mp he
  have hrow := (Keyed.find_eq_some.mp hfind).1
  exact ⟨row,hfind,(hissuance.covered_iff_issuer hrow (hroot row hfind) x).mp hcov,hrev⟩

/-- The row the answer is about: the one of this serial, if the CA of the responder issued it. -/
theorem answer_eq (hfiled : Filed ssl db issuer) (hloaded : Loaded ssl r db) (now : Int) {id : CertId}
    (hnames : certidNamesThisCa ssl id (r.caCert::r.caChain)=true ∨
      certidNamesThisCa ssl id (liveCerts ssl now db r.caId)=true)
    (hread : ∀ row,db.find (serialHex id.serial)=some row → parsed ssl row=none →
      issuer row=some r.caId) :
    (∃ row,db.find (serialHex id.serial)=some row ∧ issuer row=some r.caId ∧
        answer ssl r now db id=some (rowStatus row)) ∨
      ((∀ row,db.find (serialHex id.serial)=some row → issuer row≠some r.caId) ∧
        answer ssl r now db id=some (.revoked 6 0)) := by
  simp only [answer,Inventory.getCert]
  rw [if_pos hnames]
  cases hfind : db.find (serialHex id.serial) with
  | none =>
    refine Or.inr ⟨?_,rfl⟩
    intro row hrow
    cases hrow
  | some row =>
    have hrow := (Keyed.find_eq_some.mp hfind).1
    have hiff := issuedHere_iff hfiled hloaded hrow (hread row hfind)
    by_cases hiss : issuer row=some r.caId
    · left
      refine ⟨row,rfl,hiss,?_⟩
      simp [Option.filter,hiff.mpr hiss]
    · right
      have hno : issuedHere ssl r row=false := by
        rw [← Bool.not_eq_true]
        exact fun h => hiss (hiff.mp h)
      refine ⟨?_,by simp [Option.filter,hno]⟩
      intro row' hrow'
      rwa [← Option.some.inj hrow']

end Agreement

/-- For a CertID that names the CA, the responder and the full CRL made from the same table agree. -/
theorem ocsp_agrees_with_crl (db : Inventory) (issuer : Row → Option String)
    (hissuance : Issuance db issuer) (hfiled : Filed ssl db issuer) (r : Responder)
    (hloaded : Loaded ssl r db) (now days number : Int) (id : CertId)
    (hnames : certidNamesThisCa ssl id (r.caCert::r.caChain)=true ∨
      certidNamesThisCa ssl id (liveCerts ssl now db r.caId)=true)
    (hroot : ∀ row,db.find (serialHex id.serial)=some row → ∀ y,row.id=some y → ¬Root db issuer y)
    (hread : ∀ row,db.find (serialHex id.serial)=some row → parsed ssl row=none →
      issuer row=some r.caId) :
    let crl := generateCrl days db r.caId number 0
    ∃ st,answer ssl r now db id=some st ∧
      (∀ reason date,⟨id.serial,reason,date⟩∈crl.entries → st=.revoked reason date) ∧
      (∀ row,db.find (serialHex id.serial)=some row → row.status=some 2 → ∃ date,st=.revoked 6 date) ∧
      (st=.good ↔ ∃ row,db.find (serialHex id.serial)=some row ∧ issuer row=some r.caId ∧
        row.status≠some 2 ∧ ¬Listed (serialHex id.serial) crl) ∧
      ((∀ row,db.find (serialHex id.serial)=some row → issuer row≠some r.caId) → st≠.good) := by
  intro crl
  obtain ⟨row,hfind,hiss,hans⟩|⟨hnone,hans⟩ := answer_eq hfiled hloaded now hnames hread
  · have hrow := (Keyed.find_eq_some.mp hfind).1
    have hkey := (Keyed.find_eq_some.mp hfind).2
    have honly : ∀ row',db.find (serialHex id.serial)=some row' → row'=row :=
      fun row' h => Option.some.inj (h.symm.trans hfind)
    have hlisted : Listed (serialHex id.serial) crl ↔ row.status=some (-1) := by
      rw [← hkey,listed_full hfiled.spelled hrow days number r.caId,
        hissuance.covered_iff_issuer hrow (hroot row hfind)]
      simp [hiss,revoked]
    refine ⟨rowStatus row,hans,?_,?_,?_,?_⟩
    · intro reason date he
      obtain ⟨row',hfind',_,hrev⟩ := entry_issuer hfiled hissuance hroot he
      rw [honly row' hfind'] at hrev
      exact rowStatus_revoked hrev
    · intro row' hfind' hpending
      rw [honly row' hfind'] at hpending
      exact ⟨row.notBefore.getD 0,by simp [rowStatus,hpending]⟩
    · rw [rowStatus_good_iff hfiled hrow,hlisted]
      constructor
      · intro h
        exact ⟨row,hfind,hiss,h.1,h.2⟩
      · intro h
        obtain ⟨row',hfind',_,hpending,hlive⟩ := h
        rw [honly row' hfind'] at hpending
        exact ⟨hpending,hlive⟩
    · intro hno
      exact absurd hiss (hno row hfind)
  · refine ⟨.revoked 6 0,hans,?_,?_,?_,?_⟩
    · intro reason date he
      obtain ⟨row,hfind,hiss,_⟩ := entry_issuer hfiled hissuance hroot he
      exact absurd hiss (hnone row hfind)
    · exact fun _ _ _ => ⟨0,rfl⟩
    · constructor
      · intro h
        cases h
      · intro h
        obtain ⟨row,hfind,hiss,_⟩ := h
        exact absurd hiss (hnone row hfind)
    · exact fun _ h => by cases h

section Example

def cnName (b : UInt8) : Name := [⟨commonName,⟨.utf8,[b]⟩⟩]

def caCertOf (b : UInt8) : X509Cert := ⟨cnName b,cnName b,1,[b],some [b],none,true,true⟩

def leafCertOf (b : UInt8) : X509Cert := ⟨cnName 0,cnName b,31,[0],none,some [b],false,false⟩

/-- The octets `[b]` are the certificate of the CA named `b`, the octets `[0,b]` a leaf of it. -/
def exampleSsl : Openssl where
  d2i
    | [b] => some (caCertOf b)
    | [0,b] => some (leafCertOf b)
    | _ => none
  sameName a b := a = b
  issuerHashes alg ca := if alg = "1.3.14.3.2.26" then
    some (ca.subject.flatMap (·.value.data),ca.publicKey) else none

/-- Two roots "a" and "b", and a leaf of "a" stored with these octets as its certificate. -/
def twoRootsRows (cert : Octets) : List Row :=
  [{ caRow 1 (some "a") [1] [1] with cert := [1] },{ caRow 2 (some "b") [2] [2] with cert := [2] },
    { leafRow 31 with caInstanceId := some "a",cert := cert }]

theorem twoRootsRows_distinct (cert : Octets) : ((twoRootsRows cert).map Row.serial).Nodup := by
  have hserials : [serialHex 1,serialHex 2,serialHex 31].Nodup := by decide
  exact hserials

def twoRoots (cert : Octets) : Inventory := ⟨twoRootsRows cert,twoRootsRows_distinct cert⟩

def twoRootsIssuer (row : Row) : Option String := row.caInstanceId

def responderFor (caId : String) (b : UInt8) : Responder := ⟨caId,caCertOf b,[]⟩

def certIdFor (b : UInt8) : CertId := ⟨"1.3.14.3.2.26",[b],[b],31⟩

theorem twoRoots_issuance (cert : Octets) : Issuance (twoRoots cert) twoRootsIssuer := by
  apply Issuance.of_rows <;> simp [twoRoots,twoRootsRows,twoRootsIssuer,caRow,leafRow]

theorem twoRoots_filed : Filed exampleSsl (twoRoots [0,1]) twoRootsIssuer := by
  refine ⟨?_,?_,?_,?_⟩
  · intro row hrow
    have hall : ∀ row∈twoRootsRows [0,1],row.serial=serialHex 1 ∨ row.serial=serialHex 2 ∨
        row.serial=serialHex 31 := by decide
    obtain h|h|h := hall row hrow
    · exact ⟨1,h⟩
    · exact ⟨2,h⟩
    · exact ⟨31,h⟩
  · decide
  · intro row hrow c hc y g hg ca hca
    obtain ⟨hgrow,hgca,hgid⟩ := mem_generations.mp hg
    have hall : ∀ row∈twoRootsRows [0,1],∀ g∈twoRootsRows [0,1],g.isCa=true →
        ((parsed exampleSsl row).all fun c => (exampleSsl.d2i g.cert).all fun ca =>
          exampleSsl.sameName c.issuer ca.subject=decide (twoRootsIssuer row=g.id))=true := by
      decide
    have hsame := hall row hrow g hgrow hgca
    rw [hc,hca,hgid,Option.all_some,Option.all_some,decide_eq_true_eq] at hsame
    rw [hsame,decide_eq_true_eq]
  · decide

theorem ocsp_agrees_with_crl_leaf :
    Filed exampleSsl (twoRoots [0,1]) twoRootsIssuer ∧
    ∃ st,answer exampleSsl (responderFor "a" 1) 1000 (twoRoots [0,1]) (certIdFor 1)=some st ∧
      (st=.good ↔ ∃ row,(twoRoots [0,1]).find "1f"=some row ∧ twoRootsIssuer row=some "a" ∧
        row.status≠some 2 ∧ ¬Listed "1f" (generateCrl 7 (twoRoots [0,1]) "a" 1000 0)) := by
  have hleaf : ∀ row,(twoRoots [0,1]).find (serialHex 31)=some row →
      row.id=none ∧ twoRootsIssuer row=some "a" := by
    intro row hrow
    obtain rfl := Option.some.inj hrow
    exact ⟨rfl,rfl⟩
  have hloaded : Loaded exampleSsl (responderFor "a" 1) (twoRoots [0,1]) := by
    intro ca hca
    rw [List.mem_singleton.mp hca]
    exact ⟨{ caRow 1 (some "a") [1] [1] with cert := [1] },by decide,rfl⟩
  obtain ⟨st,hst,_,_,hgood,_⟩ := ocsp_agrees_with_crl exampleSsl (twoRoots [0,1]) twoRootsIssuer
    (twoRoots_issuance [0,1]) twoRoots_filed (responderFor "a" 1) hloaded 1000 7 1000 (certIdFor 1)
    (Or.inl (by decide)) (fun row hrow y hy => by rw [(hleaf row hrow).1] at hy; cases hy)
    (fun row hrow _ => (hleaf row hrow).2)
  exact ⟨twoRoots_filed,st,hst,hgood⟩

/-- A leaf of "a" whose row holds no certificate is good to the responder of "b". -/
theorem ocsp_good_for_foreign_row :
    Issuance (twoRoots []) twoRootsIssuer ∧
    certidNamesThisCa exampleSsl (certIdFor 2) [caCertOf 2]=true ∧
    (∃ row,(twoRoots []).find (serialHex 31)=some row ∧ row.id=none ∧ twoRootsIssuer row=some "a") ∧
    answer exampleSsl (responderFor "b" 2) 1000 (twoRoots []) (certIdFor 2)=some .good :=
  ⟨twoRoots_issuance [],by decide,⟨_,rfl,rfl,rfl⟩,by decide⟩

end Example

end FastPki.Ocsp
