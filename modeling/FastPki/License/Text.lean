import FastPki.Framework.KeyValue
import FastPki.Framework.Substring
import FastPki.License.Date

namespace FastPki.License

open X509 (Octets octets)
open Saml (trim)

def kLicensePubKey : Octets :=
  ["-----BEGIN PUBLIC KEY-----\n",
   "MFkwEwYHKoZIzj0CAQYIKoZIzj0DAQcDQgAE8jA/cqQ5x4h5gl3tSlVhhq1mzh3z\n",
   "WegN8GOvTUGHTqIlPvmCl7U0QeA8kx8uKg4L/aHkRiVv737fEf/xJVkzxw==\n",
   "-----END PUBLIC KEY-----\n"].flatMap octets

def kBodyBegin : Octets := octets "-----BEGIN FASTPKI LICENSE-----"
def kBodyEnd : Octets := octets "-----END FASTPKI LICENSE-----"
def kSigBegin : Octets := octets "-----BEGIN FASTPKI LICENSE SIGNATURE-----"
def kSigEnd : Octets := octets "-----END FASTPKI LICENSE SIGNATURE-----"

/-- The evaluation that every build carries. -/
def kEvalLicense : Octets :=
  ["-----BEGIN FASTPKI LICENSE-----\n",
   "number: FPK-EVAL\n",
   "tier: evaluation\n",
   "period_days: 30\n",
   "-----END FASTPKI LICENSE-----\n",
   "-----BEGIN FASTPKI LICENSE SIGNATURE-----\n",
   "MEUCIA1yrfaSZmauqi88wfKPM4WUP+Pcd2SY+WmzOOXIF+gYAiEA0UUK+45cdRzS\n",
   "EQV4Aq4UB2vReQiNpkwd6GIfJE2tbyg=\n",
   "-----END FASTPKI LICENSE SIGNATURE-----\n"].flatMap octets

inductive LicenseState where
  | evaluation
  | evaluationOver
  | licensed
  | expired
  | invalid
  deriving DecidableEq

structure LicenseStatus where
  state : LicenseState := .evaluation
  number : Octets := []
  customer : Octets := []
  tier : Octets := []
  issued : Octets := []
  expires : Octets := []
  nodes : Octets := []
  perpetual : Bool := false
  summary : Octets := []
  detail : Octets := []
  deriving DecidableEq

/-- The text between a pair of marker lines: from the end of the line in which the first one is
found up to the second one. -/
def between (text first last : Octets) : Option Octets := do
  let (_,atFirst) ← splitFirst first text
  let (_,atLine) ← splitFirst [0x0a] atFirst
  let (sect,_) ← splitFirst last atLine
  return sect.drop 1

/-- The lines that have a colon, as pairs of trimmed texts. -/
def fieldsOf (body : Octets) : List (Octets × Octets) :=
  (body.splitOn 0x0a).filterMap fun line =>
    if line.contains 0x3a then
      some (trim (line.takeWhile (· ≠ 0x3a)),trim ((line.dropWhile (· ≠ 0x3a)).drop 1))
    else none

/-- `f[key]`: a later line of the same name overwrites, a missing one is empty. -/
def field (body : Octets) (key : String) : Octets :=
  (KeyValue.settingOf (fieldsOf body) (octets key)).getD []

def invalid (why : Octets) : LicenseStatus where
  state := .invalid
  detail := why
  summary := octets "licence file rejected: "++why

/-- `number (customer)`. -/
def holder (st : LicenseStatus) : Octets :=
  st.number++if st.customer = [] then [] else octets " ("++st.customer++octets ")"

/-- What `license_from_text` makes of a body whose signature verifies. -/
def verifiedLicense (body : Octets) (now : Int) : LicenseStatus :=
  let st : LicenseStatus :=
    { number := field body "number",customer := field body "customer",tier := field body "tier"
      issued := field body "issued",nodes := field body "nodes",expires := field body "expires" }
  if st.number = [] then invalid (octets "the licence has no number")
  else if st.expires = [] then
    { st with state := .licensed,perpetual := true
              summary := octets "licensed: "++holder st++octets ", perpetual" }
  else if !validIsoDate st.expires then
    invalid (octets "expires is not a date (expected YYYY-MM-DD, got '"++st.expires++octets "')")
  else if textLess st.expires (todayUtc now) then
    { st with state := .expired
              summary := octets "licence expired: "++holder st++octets ", expired "++st.expires }
  else
    { st with state := .licensed
              summary := octets "licensed: "++holder st++octets ", expires "++st.expires }

section Verify

-- `verify_release_signature` of a public key, a text and a signature
variable (b64Decode : Octets → Octets) (verifyReleaseSignature : Octets → Octets → Octets → Bool)

def signatureOk (body sig : Octets) : Bool := verifyReleaseSignature kLicensePubKey body sig

def licenseFromText (text : Octets) (now : Int) : LicenseStatus :=
  match between text kBodyBegin kBodyEnd,between text kSigBegin kSigEnd with
  | none,_ => invalid (octets "no BEGIN/END FASTPKI LICENSE block")
  | some _,none => invalid (octets "no signature block")
  | some body,some sig =>
    let raw := b64Decode sig
    if raw = [] then invalid (octets "the signature is not valid base64")
    else if !signatureOk verifyReleaseSignature body raw then
      invalid (octets "the signature does not verify against the built-in FastPKI key")
    else verifiedLicense body now

end Verify

section Sections

/-- The text between the first marker line and the first end marker behind it. -/
def IsSection (text first last body : Octets) : Prop :=
  ∃ pre line post,text=pre++(first++line++0x0a::(body++(last++post))) ∧ 0x0a∉line ∧
    FirstAfter first pre (first++line++0x0a::(body++(last++post))) ∧
    FirstAfter last body (last++post)

variable {text first last body : Octets}

theorem isSection_of_between (hfirst : 0x0a∉first) (hlast : 0x0a∉last) (hne : last≠[])
    (h : between text first last=some body) : IsSection text first last body := by
  obtain ⟨⟨pre,r1⟩,h1,h⟩ := Option.bind_eq_some_iff.mp h
  obtain ⟨⟨w,r2⟩,h2,h⟩ := Option.bind_eq_some_iff.mp h
  obtain ⟨⟨sect,r3⟩,h3,h⟩ := Option.bind_eq_some_iff.mp h
  obtain rfl : sect.drop 1=body := Option.some.inj h
  obtain ⟨htext,hpre⟩ := splitFirst_spec h1
  obtain ⟨rfl,hnewline⟩ := splitFirst_spec h2
  obtain ⟨hr2,hend⟩ := splitFirst_spec h3
  obtain ⟨hw,t,rfl⟩ := firstAfter_singleton hnewline
  -- the marker is within the line, and the end marker is not at the newline
  obtain ⟨line,rfl⟩ := (prefix_append_cons_iff hfirst w t).mp hpre.1
  obtain ⟨post,rfl⟩ := hend.1
  cases sect with
  | nil =>
    obtain ⟨c,l,rfl⟩ := List.exists_cons_of_ne_nil hne
    obtain ⟨rfl,-⟩ := List.cons.inj hr2
    exact absurd List.mem_cons_self hlast
  | cons c sect =>
    obtain ⟨rfl,rfl⟩ := List.cons.inj hr2
    refine ⟨pre,line,post,htext,fun hmem => hw (List.mem_append_right _ hmem),hpre,?_⟩
    exact ⟨hend.1,fun q hq => hend.2 (q+1) (Nat.succ_lt_succ hq)⟩

theorem between_of_isSection (hfirst : 0x0a∉first) (hlast : 0x0a∉last) (hne : last≠[])
    (h : IsSection text first last body) : between text first last=some body := by
  obtain ⟨pre,line,post,rfl,hline,hpre,hend⟩ := h
  have hw : 0x0a∉first++line := fun hmem => (List.mem_append.mp hmem).elim hfirst hline
  have hnewline := firstAfter_singleton_of_notMem hw (body++(last++post))
  have hsect : FirstAfter last (0x0a::body) (last++post) := by
    refine ⟨hend.1,fun q hq => ?_⟩
    cases q with
    | zero =>
      intro hstarts
      obtain ⟨c,l,rfl⟩ := List.exists_cons_of_ne_nil hne
      rw [List.drop_zero,List.cons_append,List.cons_prefix_cons] at hstarts
      exact hlast (hstarts.1 ▸ List.mem_cons_self)
    | succ q => exact hend.2 q (Nat.lt_of_succ_lt_succ hq)
  have h3 := splitFirst_append hsect
  rw [List.cons_append] at h3
  simp only [between,splitFirst_append hpre,splitFirst_append hnewline,h3,Option.bind_eq_bind,
    Option.bind_some,List.drop_succ_cons,List.drop_zero,Option.pure_def]

theorem between_eq_some_iff (hfirst : 0x0a∉first) (hlast : 0x0a∉last) (hne : last≠[]) :
    between text first last=some body ↔ IsSection text first last body :=
  ⟨isSection_of_between hfirst hlast hne,between_of_isSection hfirst hlast hne⟩

/-- The signed body and the signature of a licence text. -/
def Signed (text body sig : Octets) : Prop :=
  IsSection text kBodyBegin kBodyEnd body ∧ IsSection text kSigBegin kSigEnd sig

theorem signed_iff {sig : Octets} : Signed text body sig ↔
    between text kBodyBegin kBodyEnd=some body ∧ between text kSigBegin kSigEnd=some sig := by
  rw [Signed,between_eq_some_iff (by decide) (by decide) (by decide),
    between_eq_some_iff (by decide) (by decide) (by decide)]

end Sections

end FastPki.License
