import FastPki.Issue.Csr

namespace FastPki.Issue

open FastPki.X509 FastPki.Profile FastPki.Policy

def organizationalUnitName : String := "2.5.4.11"
def domainComponent : String := "0.9.2342.19200300.100.1.25"

/-- What of an `IssuanceInput` binds the subject to the caller. -/
structure IdentityBinding where
  subjectCn : Octets := []
  orgUnits : List Octets := []
  subjectDomain : Octets := []
  replaceSubject : Bool := false

/-- The same for an organizationalUnitName: one to 64 characters of UTF-8. -/
def addOrganizationalUnit (n : Name) (text : Octets) : Option Name :=
  match ByteArray.utf8Decode? ⟨⟨cString text⟩⟩ with
  | none => none
  | some cs => if 1 ≤ cs.size ∧ cs.size ≤ 64 then
      some (n++[⟨organizationalUnitName,⟨.utf8,cString text⟩⟩]) else none

/-- A domainComponent is an IA5String, of any length but zero. -/
def addDomainComponent (n : Name) (text : Octets) : Option Name :=
  if cString text ≠ [] ∧ (cString text).all (· < 0x80) then
    some (n++[⟨domainComponent,⟨.ia5,cString text⟩⟩])
  else none

/-- The caller's name stands for every commonName. -/
def withCommonName (n : Name) (cn : Octets) : Except Error Name :=
  if cn = [] then .ok n
  else requireSome (addCommonName (n.filter (·.nid ≠ commonName)) cn)
    ⟨2,"Failed to set identity CN on Subject DN"⟩

def withOrganizationalUnit (n : Name) (ou : Octets) : Except Error Name :=
  if ou = [] then .ok n
  else requireSome (addOrganizationalUnit n ou) ⟨2,"Failed to add OU to Subject DN"⟩

def withDomainComponent (n : Name) (dc : Octets) : Except Error Name :=
  if dc = [] then .ok n
  else requireSome (addDomainComponent n dc) ⟨2,"Failed to add provider DC to Subject DN"⟩

/-- The subject a certificate is to have: the requested one, or none of it; then the caller's name,
the caller's groups and where the caller comes from. -/
def boundSubject (b : IdentityBinding) (subject : Name) : Except Error Name := do
  let named ← withCommonName (if b.replaceSubject then [] else subject) b.subjectCn
  let grouped ← b.orgUnits.foldlM withOrganizationalUnit named
  withDomainComponent grouped b.subjectDomain

/-- A request whose subject is discarded loses every subjectAltName with it. -/
def boundExts (b : IdentityBinding) (exts : List Extension) : List Extension :=
  if b.replaceSubject then exts.filter (·.oid ≠ oidSubjectAltName) else exts

/-- `issue_cert` -/
def issueCertBound (ssl : Openssl) (cfg : IssueConfig) (ca : CaCert) (env : Env) (csr : Csr)
    (b : IdentityBinding) (a : IssueArgs) : Except Error Cert := do
  let subject ← boundSubject b csr.subject
  issueCertFromParts ssl cfg ca env subject (some csr.pubkey) (boundExts b csr.extensions) a

/-- A caller that binds nothing leaves the request as it is. -/
theorem issueCertBound_unbound (ssl : Openssl) (cfg : IssueConfig) (ca : CaCert) (env : Env)
    (csr : Csr) (a : IssueArgs) :
    issueCertBound ssl cfg ca env csr { } a=issueCert ssl cfg ca env csr a := rfl

theorem getExt_boundExts_san {b : IdentityBinding} (h : b.replaceSubject=true)
    (exts : List Extension) : getExt (boundExts b exts) oidSubjectAltName=none := by
  rw [boundExts,if_pos h,getExt_eq_none_iff]
  intro e he
  simpa using (List.mem_filter.mp he).2

theorem getExt_boundExts_of_ne (b : IdentityBinding) (exts : List Extension) {oid : Oid}
    (h : oid≠oidSubjectAltName) : getExt (boundExts b exts) oid=getExt exts oid := by
  unfold boundExts
  split_ifs
  · induction exts with
    | nil => rfl
    | cons e exts ih =>
      by_cases hsan : e.oid=oidSubjectAltName
      · rw [List.filter_cons_of_neg (by simpa using hsan),ih,getExt_cons,
          if_neg (by rw [hsan]; exact h.symm)]
      · rw [List.filter_cons_of_pos (by simpa using hsan),getExt_cons,getExt_cons,ih]
  · rfl

end FastPki.Issue
