import FastPki.Issue.Csr

namespace FastPki.Certs

open FastPki.X509 FastPki.Rbac FastPki.Issue

/-- A row of `certs` as the enrolment services write it. `certId` is empty (NULL) but for the
node's own transport certificates. -/
structure StoredCert where
  cert : Cert
  status : Int
  owner : String
  cn : Octets
  caInstanceId : String
  certId : String
  deriving DecidableEq

def issuedRow (cert : Cert) (owner ca : String) : StoredCert :=
  ⟨cert,0,owner,nameCn cert.subject,ca,""⟩

def getCert (certs : List StoredCert) (serial : String) : Option StoredCert :=
  certs.find? (·.cert.serial = serial)

def active (row : StoredCert) : Bool := (row.status = 0 ∨ row.status = 2) ∧ row.certId = ""

def countActiveForOwner (certs : List StoredCert) (owner : String) : Int :=
  (certs.filter fun r => r.owner = owner ∧ active r).length

def countActiveForCn (certs : List StoredCert) (cn : Octets) : Int :=
  (certs.filter fun r => r.cn = cString cn ∧ active r).length

/-- `serial` is the primary key: a second certificate of one serial is an error. -/
def insertCert (certs : List StoredCert) (row : StoredCert) : Except Error (List StoredCert) :=
  if (getCert certs row.cert.serial).isSome then
    .error ⟨2,"insert_cert: duplicate key value violates unique constraint"⟩
  else .ok (certs++[row])

/-- The count and the insert are one transaction; `none` is a refusal. -/
def insertCertWithinQuota (certs : List StoredCert) (row : StoredCert) (owner : String)
    (maxCerts : Int) : Except Error (Option (List StoredCert)) :=
  if countActiveForOwner certs owner ≥ maxCerts then .ok none
  else (insertCert certs row).map some

def insertUnderCap (certs : List StoredCert) (row : StoredCert) (maxCerts : Option Int) :
    Except Error (Option (List StoredCert)) :=
  match maxCerts with
  | some m => if row.owner = "" then (insertCert certs row).map some
      else insertCertWithinQuota certs row row.owner m
  | none => (insertCert certs row).map some

/-- `role_limit_refusal`: the reason to refuse, checked in this order. -/
def roleLimitRefusal (certs : List StoredCert) (lim : RoleLimits) (user : String)
    (requestedCn : Octets) (sanCount : Int) : Option String :=
  let overSan := lim.maxSan.filter fun m => sanCount ≥ 0 ∧ sanCount > m
  let overCerts := lim.maxCerts.filter fun m => user ≠ "" ∧ countActiveForOwner certs user ≥ m
  let overCn := lim.maxCn.filter fun m => requestedCn ≠ [] ∧ countActiveForCn certs requestedCn ≥ m
  (overSan.map fun m => "too many SubjectAltName entries ("++toString sanCount++" > "++
    toString m++" permitted by this role)").or
  ((overCerts.map fun m => "per-requester issuance limit reached: '"++user++"' already holds "++
    toString (countActiveForOwner certs user)++" active certificate(s), role cap is "++
    toString m).or
  (overCn.map fun m => "per-name issuance limit reached: '"++asText requestedCn++
    "' already has "++toString (countActiveForCn certs requestedCn)++
    " active certificate(s), role cap is "++toString m))

theorem insertCert_ok {certs out : List StoredCert} {row : StoredCert}
    (h : insertCert certs row=.ok out) :
    getCert certs row.cert.serial=none ∧ out=certs++[row] := by
  simp only [insertCert] at h
  split_ifs at h with hdup
  exact ⟨by simpa using hdup,(Except.ok.inj h).symm⟩

theorem insertUnderCap_ok {certs out : List StoredCert} {row : StoredCert} {maxCerts : Option Int}
    (h : insertUnderCap certs row maxCerts=.ok (some out)) :
    getCert certs row.cert.serial=none ∧ out=certs++[row] := by
  have hplain : (insertCert certs row).map some=.ok (some out) →
      insertCert certs row=.ok out := by
    intro hmap
    obtain ⟨l,hl,hout⟩ := map_eq_ok_iff.mp hmap
    rw [hl,Option.some.inj hout]
  apply insertCert_ok
  cases maxCerts with
  | none => exact hplain h
  | some m =>
    simp only [insertUnderCap,insertCertWithinQuota] at h
    split_ifs at h
    · exact hplain h
    · cases h
    · exact hplain h

theorem getCert_append_self {certs : List StoredCert} {row : StoredCert}
    (h : getCert certs row.cert.serial=none) :
    getCert (certs++[row]) row.cert.serial=some row := by
  simp only [getCert] at h ⊢
  rw [List.find?_append,h]
  simp

theorem getCert_append_of_some {certs : List StoredCert} {serial : String} {r : StoredCert}
    (h : getCert certs serial=some r) (more : List StoredCert) :
    getCert (certs++more) serial=some r := by
  simp only [getCert] at h ⊢
  rw [List.find?_append,h]
  rfl

end FastPki.Certs
