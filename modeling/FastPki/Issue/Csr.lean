import FastPki.Issue.Names

namespace FastPki.Issue

open FastPki.X509 FastPki.Profile FastPki.Policy

/-- A PKCS#10 request that `parse_csr` let through: it has a key, and its signature verifies. -/
structure Csr where
  subject : Name
  pubkey : PublicKey
  extensions : List Extension
  deriving DecidableEq

/-- `issue_cert` for a caller that leaves the subject of the request as it is. -/
def issueCert (ssl : Openssl) (cfg : IssueConfig) (ca : CaCert) (env : Env) (csr : Csr)
    (a : IssueArgs) : Except Error Cert :=
  issueCertFromParts ssl cfg ca env csr.subject (some csr.pubkey) csr.extensions a

def hexText (der : Octets) : Octets := octets (String.ofList (der.flatMap hexOctet))

/-- `san_names`: each name under a tag for its type. -/
def sanName : GeneralName → Octets
  | .dns name => octets "DNS:"++name
  | .email name => octets "EMAIL:"++name
  | .uri name => octets "URI:"++name
  | .ip address => octets "IP:"++hexText address
  | .otherName der => octets "type0:"++hexText der
  | .other type der => octets "type"++octets (toString type)++octets ":"++hexText der

def csrSans (csr : Csr) : Finset Octets :=
  ((subjectAltNamesOf csr.extensions).map sanName).toFinset

def certSans (exts : List Extension) : Finset Octets :=
  ((((soleExt exts oidSubjectAltName).bind d2iSubjectAltName).getD []).map sanName).toFinset

theorem mem_certSans {exts : List Extension} {s : Octets} (h : s∈certSans exts) :
    ∃ g∈subjectAltNamesOf exts,sanName g=s := by
  obtain ⟨g,hg,hs⟩ := List.mem_map.mp (List.mem_toFinset.mp h)
  cases he : soleExt exts oidSubjectAltName with
  | none =>
    rw [he] at hg
    cases hg
  | some e =>
    rw [he] at hg
    refine ⟨g,?_,hs⟩
    rw [subjectAltNamesOf,soleExt_eq_some he]
    exact hg

/-- No other type of name passes for a DNS name. -/
theorem sanName_eq_dns_iff {g : GeneralName} {n : Octets} :
    sanName g=octets "DNS:"++n ↔ g=.dns n := by
  constructor
  · intro h
    have hhead := congrArg List.head? h
    cases g with
    | dns name => rw [List.append_cancel_left h]
    | email name => exact absurd hhead (by change some 0x45≠some 0x44; decide)
    | uri name => exact absurd hhead (by change some 0x55≠some 0x44; decide)
    | ip address => exact absurd hhead (by change some 0x49≠some 0x44; decide)
    | otherName der => exact absurd hhead (by change some 0x74≠some 0x44; decide)
    | other type der => exact absurd hhead (by change some 0x74≠some 0x44; decide)
  · intro h
    rw [h]
    rfl

end FastPki.Issue
