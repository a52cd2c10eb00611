import FastPki.X509.Name

namespace FastPki.X509

/-- An object identifier in its dotted form. -/
abbrev Oid := String

def oidSubjectDirectoryAttributes : Oid := "2.5.29.9"
def oidSubjectKeyIdentifier : Oid := "2.5.29.14"
def oidKeyUsage : Oid := "2.5.29.15"
def oidSubjectAltName : Oid := "2.5.29.17"
def oidBasicConstraints : Oid := "2.5.29.19"
def oidCrlDistributionPoints : Oid := "2.5.29.31"
def oidCertificatePolicies : Oid := "2.5.29.32"
def oidAuthorityKeyIdentifier : Oid := "2.5.29.35"
def oidExtKeyUsage : Oid := "2.5.29.37"
def oidInfoAccess : Oid := "1.3.6.1.5.5.7.1.1"
def oidOcspNoCheck : Oid := "1.3.6.1.5.5.7.48.1.5"

inductive GeneralName where
  | dns (name : Octets)
  | email (name : Octets)
  | uri (name : Octets)
  | ip (address : Octets)
  | otherName (der : Octets)
  | other (type : Nat) (der : Octets)
  deriving DecidableEq

/-- The content of an extension as far as issuance looks into it. Content that does not decode as
what its OID says is `raw`. -/
inductive ExtValue where
  | keyUsage (bits : List Nat)
  | extKeyUsage (purposes : List Oid)
  | subjectAltName (names : List GeneralName)
  | text (spec : String)
  | raw (der : Octets)
  deriving DecidableEq

structure Extension where
  oid : Oid
  critical : Bool
  value : ExtValue
  deriving DecidableEq

/-- `X509v3_get_ext_by_NID(exts, nid, -1)`: the first extension of that OID. -/
def getExt (exts : List Extension) (oid : Oid) : Option Extension := exts.find? (·.oid = oid)

def hasExt (exts : List Extension) (oid : Oid) : Bool := (getExt exts oid).isSome

def d2iKeyUsage (e : Extension) : Option (List Nat) :=
  match e.value with
  | .keyUsage bits => some bits
  | _ => none

def d2iExtKeyUsage (e : Extension) : Option (List Oid) :=
  match e.value with
  | .extKeyUsage purposes => some purposes
  | _ => none

def d2iSubjectAltName (e : Extension) : Option (List GeneralName) :=
  match e.value with
  | .subjectAltName names => some names
  | _ => none

/-- What the key usage, extended key usage and subjectAltName of a certificate say to a reader,
who takes the first extension of each OID. -/
def keyUsageOf (exts : List Extension) : List Nat :=
  ((getExt exts oidKeyUsage).bind d2iKeyUsage).getD []

def extKeyUsageOf (exts : List Extension) : List Oid :=
  ((getExt exts oidExtKeyUsage).bind d2iExtKeyUsage).getD []

def subjectAltNamesOf (exts : List Extension) : List GeneralName :=
  ((getExt exts oidSubjectAltName).bind d2iSubjectAltName).getD []

/-- `X509_get_ext_d2i(x, nid, NULL, NULL)`: an extension that occurs more than once is not read. -/
def soleExt (exts : List Extension) (oid : Oid) : Option Extension :=
  match exts.filter (·.oid = oid) with
  | [e] => some e
  | _ => none

theorem soleExt_eq_some {exts : List Extension} {oid : Oid} {e : Extension}
    (h : soleExt exts oid=some e) : getExt exts oid=some e := by
  have hfilter : exts.filter (·.oid=oid)=[e] := by
    simp only [soleExt] at h
    split at h
    · next e' he' => rw [he',Option.some.inj h]
    · cases h
  rw [getExt,← List.head?_filter,hfilter]
  rfl

theorem getExt_append (xs ys : List Extension) (oid : Oid) :
    getExt (xs++ys) oid=(getExt xs oid).or (getExt ys oid) := List.find?_append ..

theorem getExt_append_of_ne {xs ys : List Extension} {oid : Oid} (h : ∀ e∈ys,e.oid≠oid) :
    getExt (xs++ys) oid=getExt xs oid := by
  have hys : getExt ys oid=none := by simpa [getExt] using h
  rw [getExt_append,hys,Option.or_none]

theorem getExt_oid {exts : List Extension} {oid : Oid} {e : Extension}
    (h : getExt exts oid=some e) : e.oid=oid := by
  have hp := List.find?_some h
  simpa using hp

end FastPki.X509
