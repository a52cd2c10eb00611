import FastPki.Framework.Except
import FastPki.Profile.CertProfile
import FastPki.X509.Extension
import Mathlib.Data.Finset.Image

namespace FastPki.Profile

open FastPki.X509

/-- What issuance takes from OpenSSL's object table and from its configuration syntax for
extensions, where a text is not the plain list of names that is read below. -/
structure Openssl where
  txt2obj : String → Option Oid
  txt2objDotted : String → Option Oid
  obj2sn : Oid → Option String
  genericExt : Oid → List String → Option ExtValue
  nconf : Oid → String → Option (Bool × ExtValue)
  critical_unknown : txt2obj "critical"=none

/-- An object table without any name. -/
def noObjects : Openssl where
  txt2obj := fun _ => none
  txt2objDotted := fun _ => none
  obj2sn := fun _ => none
  genericExt := fun _ _ => none
  nconf := fun _ _ => none
  critical_unknown := rfl

def kuNames : List String :=
  ["digitalSignature","nonRepudiation","keyEncipherment","dataEncipherment","keyAgreement",
    "keyCertSign","cRLSign","encipherOnly","decipherOnly"]

/-- The long names OpenSSL reads for the same bits. -/
def kuLongNames : List String :=
  ["Digital Signature","Non Repudiation","Key Encipherment","Data Encipherment","Key Agreement",
    "Certificate Sign","CRL Sign","Encipher Only","Decipher Only"]

def stripOf (cut : List Char) (s : String) : String :=
  String.ofList (((s.toList.dropWhile (· ∈ cut)).reverse.dropWhile (· ∈ cut)).reverse)

def trimTok (s : String) : String := stripOf [' ','\t','\r','\n'] s

/-- A text is held as the items between its commas. -/
def items (tok : String) : List String := (tok.toList.splitOn ',').map String.ofList

/-- `OBJ_obj2txt` into a buffer of 128 characters. -/
def objTxt (o : Oid) : String := String.ofList (o.toList.take 127)

def objName (ssl : Openssl) (o : Oid) : String := (ssl.obj2sn o).getD (objTxt o)

def canonicalEku (ssl : Openssl) (tok : String) : String :=
  if tok = "" ∨ tok = "*" then tok else ((ssl.txt2obj tok).bind ssl.obj2sn).getD tok

def requestedKu (exts : List Extension) : Except Error (List String) :=
  match getExt exts oidKeyUsage with
  | none => .ok []
  | some e =>
    match d2iKeyUsage e with
    | none => .error ⟨1,"policy: malformed KeyUsage in CSR"⟩
    | some bits => .ok ((kuNames.zipIdx.filter fun n => n.2 ∈ bits).map (·.1))

def requestedEku (ssl : Openssl) (exts : List Extension) : Except Error (List String) :=
  match getExt exts oidExtKeyUsage with
  | none => .ok []
  | some e =>
    match d2iExtKeyUsage e with
    | none => .error ⟨1,"policy: malformed ExtendedKeyUsage in CSR"⟩
    | some purposes => .ok (purposes.map (objName ssl))

/-- The two usage texts, as the items between their commas; an empty list is an empty text. -/
structure ProfileExtensions where
  keyUsage : List String
  extKeyUsage : List String
  deriving DecidableEq

/-- A merged profile whose members disagree on a default refuses a request that relies on it. -/
def refuseUndecided (ssl : Openssl) (p : CertProfile) (exts : List Extension) :
    Except Error Unit :=
  if p.undecided = ∅ then .ok ()
  else do
    let ku ← if "default key usage" ∈ p.undecided then requestedKu exts else .ok ["-"]
    let eku ← if "default extended key usage" ∈ p.undecided then requestedEku ssl exts else .ok ["-"]
    let requestable := (if ku = [] then ["key usage"] else []) ++
      (if eku = [] then ["extended key usage"] else [])
    let fixed := ["validity","stamped custom extensions"].filter (· ∈ p.undecided)
    if requestable ++ fixed = [] then .ok ()
    else .error ⟨1,"policy: the profiles this identity holds ("++p.name++") set a different "++
      join ", " (requestable ++ fixed)++", none of them is named after its role, and the "++
      "request does not decide it. "++
      (if fixed = [] then "Ask for the key usages in the request, or name one of the profiles."
        else "Name one of the profiles, or make them agree.")⟩

/-- The usages asked for, else the profile's own, trimmed and without empty ones. -/
def usageTokens (requested default : List String) : List String :=
  ((if requested = [] then default else requested).map trimTok).filter (· ≠ "")

def keptKu (p : CertProfile) (ku : List String) : List String := ku.filter (· ∈ p.allowedKu)

/-- A purpose is compared and kept in its canonical spelling. -/
def keptEku (ssl : Openssl) (p : CertProfile) (eku : List String) : List String :=
  (eku.map (canonicalEku ssl)).filter fun c =>
    "*" ∈ p.allowedEku ∨ c ∈ p.allowedEku.image (canonicalEku ssl)

/-- RFC 5280 4.2.1.12: the key usages a purpose needs. -/
def ekuKuRequired (e : String) : List String :=
  if e ∈ ["serverAuth","clientAuth","codeSigning","emailProtection","timeStamping","OCSPSigning",
    "cmcRA","1.3.6.1.4.1.311.20.2.1"] then ["digitalSignature"] else []

/-- A needed bit is added only where the profile permits it. -/
def addRequired (p : CertProfile) (ku : List String) (req : String) : List String :=
  if req ∈ ku ∨ req ∉ p.allowedKu then ku else ku++[req]

def withImpliedKu (p : CertProfile) (ku eku : List String) : List String :=
  (eku.flatMap ekuKuRequired).foldl (addRequired p) ku

def evaluateProfileExtensions (ssl : Openssl) (p : CertProfile) (exts : List Extension) :
    Except Error ProfileExtensions := do
  refuseUndecided ssl p exts
  let rku ← requestedKu exts
  let ku := usageTokens rku p.defaultKu
  refuseIf (keptKu p ku = [] ∧ ku ≠ [])
    ⟨1,"policy: profile '"++p.name++"' permits none of the requested KeyUsage bits ("++
      join "," ku++"), and a certificate cannot carry an EMPTY KeyUsage (RFC 5280 4.2.1.3), so "++
      "the request is refused rather than issued with no key-usage restriction at all"++
      (if ku.any (· ∈ ["keyCertSign","cRLSign"]) then ". One of them is a CA-only bit: grant it "++
        "on the profile if this profile really should issue CA certificates." else "")⟩
  let reku ← requestedEku ssl exts
  let eku := keptEku ssl p (usageTokens reku p.defaultEku)
  let ku := withImpliedKu p (keptKu p ku) eku
  return ⟨if ku = [] then [] else "critical"::ku.flatMap items,eku.flatMap items⟩

theorem mem_addRequired {p : CertProfile} {ku : List String} {req k : String}
    (h : k∈addRequired p ku req) : k∈ku ∨ (k=req ∧ k∈p.allowedKu) := by
  simp only [addRequired] at h
  split_ifs at h with hc
  · exact Or.inl h
  · simp only [not_or,not_not] at hc
    obtain h|h := List.mem_append.mp h
    · exact Or.inl h
    · obtain rfl := List.mem_singleton.mp h
      exact Or.inr ⟨rfl,hc.2⟩

theorem mem_foldl_addRequired {p : CertProfile} {needed ku : List String} {k : String}
    (hk : k∈ku) : k∈needed.foldl (addRequired p) ku := by
  induction needed generalizing ku with
  | nil => exact hk
  | cons req needed ih =>
    apply ih
    simp only [addRequired]
    split_ifs
    · exact hk
    · exact List.mem_append_left _ hk

theorem mem_withImpliedKu_of_mem {p : CertProfile} {ku eku : List String} {k : String}
    (hk : k∈ku) : k∈withImpliedKu p ku eku := mem_foldl_addRequired hk

/-- What a purpose needs is there afterwards, if the profile permits it. -/
theorem mem_withImpliedKu_of_required {p : CertProfile} {ku eku : List String} {e req : String}
    (he : e∈eku) (hreq : req∈ekuKuRequired e) (hallowed : req∈p.allowedKu) :
    req∈withImpliedKu p ku eku := by
  have hneeded : req∈eku.flatMap ekuKuRequired := List.mem_flatMap.mpr ⟨e,he,hreq⟩
  simp only [withImpliedKu]
  generalize eku.flatMap ekuKuRequired=needed at hneeded
  induction needed generalizing ku with
  | nil => cases hneeded
  | cons r needed ih =>
    obtain rfl|hlater := List.mem_cons.mp hneeded
    · rw [List.foldl_cons]
      apply mem_foldl_addRequired
      simp only [addRequired]
      split_ifs with hc
      · exact hc.resolve_right (not_not_intro hallowed)
      · exact List.mem_append_right _ List.mem_cons_self
    · exact ih hlater

theorem ekuKuRequired_only {e req : String} (h : req∈ekuKuRequired e) :
    req="digitalSignature" := by
  simp only [ekuKuRequired] at h
  split_ifs at h
  · exact List.mem_singleton.mp h
  · cases h

theorem mem_withImpliedKu {p : CertProfile} {ku eku : List String} {k : String}
    (h : k∈withImpliedKu p ku eku) : k∈ku ∨ (k="digitalSignature" ∧ k∈p.allowedKu) := by
  have honly : ∀ req∈eku.flatMap ekuKuRequired,req="digitalSignature" := by
    intro req hreq
    obtain ⟨e,_,he⟩ := List.mem_flatMap.mp hreq
    exact ekuKuRequired_only he
  simp only [withImpliedKu] at h
  generalize eku.flatMap ekuKuRequired=needed at h honly
  induction needed generalizing ku with
  | nil => exact Or.inl h
  | cons req needed ih =>
    obtain hk|hk := ih h (fun r hr => honly r (List.mem_cons_of_mem _ hr))
    · obtain hk|⟨rfl,hallowed⟩ := mem_addRequired hk
      · exact Or.inl hk
      · exact Or.inr ⟨honly k (List.mem_cons_self ..),hallowed⟩
    · exact Or.inr hk

/-- No key usage is left where none was and no purpose brings in the one it needs. -/
theorem withImpliedKu_eq_nil_iff {p : CertProfile} {ku eku : List String} :
    withImpliedKu p ku eku=[] ↔
      ku=[] ∧ ("digitalSignature"∈p.allowedKu → ∀ e∈eku,ekuKuRequired e=[]) := by
  constructor
  · intro hnil
    refine ⟨?_,fun hallowed e he => ?_⟩
    · rw [List.eq_nil_iff_forall_not_mem]
      intro k hk
      have hk' := @mem_withImpliedKu_of_mem p ku eku k hk
      rw [hnil] at hk'
      cases hk'
    · rw [List.eq_nil_iff_forall_not_mem]
      intro req hreq
      have hsig := ekuKuRequired_only hreq
      have hin := @mem_withImpliedKu_of_required p ku eku e req he hreq (hsig ▸ hallowed)
      rw [hnil] at hin
      cases hin
  · intro hnone
    obtain ⟨rfl,hneeds⟩ := hnone
    rw [List.eq_nil_iff_forall_not_mem]
    intro k hk
    obtain hk'|⟨rfl,hallowed⟩ := mem_withImpliedKu hk
    · cases hk'
    · have hflat : eku.flatMap ekuKuRequired=[] :=
        List.flatMap_eq_nil_iff.mpr (hneeds hallowed)
      rw [withImpliedKu,hflat] at hk
      cases hk

/-- What an accepted request is evaluated to. -/
theorem evaluateProfileExtensions_ok {ssl : Openssl} {p : CertProfile} {exts : List Extension}
    {pe : ProfileExtensions} (h : evaluateProfileExtensions ssl p exts=.ok pe) :
    ∃ rku reku,requestedKu exts=.ok rku ∧ requestedEku ssl exts=.ok reku ∧
      (keptKu p (usageTokens rku p.defaultKu)=[] → usageTokens rku p.defaultKu=[]) ∧
      pe.extKeyUsage=(keptEku ssl p (usageTokens reku p.defaultEku)).flatMap items ∧
      ∃ ku,ku=withImpliedKu p (keptKu p (usageTokens rku p.defaultKu))
          (keptEku ssl p (usageTokens reku p.defaultEku)) ∧
        pe.keyUsage=if ku=[] then [] else "critical"::ku.flatMap items := by
  simp only [evaluateProfileExtensions] at h
  simp only [bind_eq_ok_iff,refuseIf_eq_ok_iff] at h
  obtain ⟨_,_,rku,hrku,_,hkept,reku,hreku,hpe⟩ := h
  obtain rfl := Except.ok.inj hpe
  refine ⟨rku,reku,hrku,hreku,?_,rfl,_,rfl,rfl⟩
  intro hnil
  by_contra hne
  exact hkept ⟨hnil,hne⟩

end FastPki.Profile
