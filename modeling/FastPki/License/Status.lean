import FastPki.License.Text

namespace FastPki.License

open X509 (Octets octets)
open Saml (trim)

structure Config where
  licenseText : Octets
  licenseFile : Octets
  deriving DecidableEq

/-- `period_days` of the built-in licence. -/
def evalDays : Int :=
  ((kEvalLicense.splitOn 0x0a).find? (octets "period_days:").isPrefixOf).elim 30 fun line =>
    (Saml.scanInt (trim (line.drop 12))).elim 30 Prod.fst

/-- The built-in licence counts from the day the node first ran. -/
def evaluation (st : LicenseStatus) (evalStarted : Octets) (now : Int) : LicenseStatus :=
  let started := if validIsoDate evalStarted then evalStarted else todayUtc now
  let ends := datePlusDays started evalDays
  if ends ≠ [] ∧ textLess ends (todayUtc now) then
    { st with expires := ends,perpetual := false,state := .evaluationOver
              summary := octets "evaluation ended on "++ends++
                octets " — non-commercial use stays free under PolyForm Noncommercial; "++
                octets "a commercial deployment needs a licence" }
  else
    { st with expires := ends,perpetual := false,state := .evaluation
              summary := octets "evaluation: "++octets (toString evalDays)++octets " days from "++
                started++octets ", ends "++ends }

section Status

variable (b64Decode : Octets → Octets) (verifyReleaseSignature : Octets → Octets → Octets → Bool)
  (readFile : Octets → Option Octets)

/-- A configured licence is the answer, whatever it says. -/
def licenseStatus (cfg : Config) (evalStarted : Octets) (now : Int) : LicenseStatus :=
  if cfg.licenseText ≠ [] then licenseFromText b64Decode verifyReleaseSignature cfg.licenseText now
  else if cfg.licenseFile ≠ [] then
    match readFile cfg.licenseFile with
    | none => invalid (octets "cannot read "++cfg.licenseFile)
    | some text => licenseFromText b64Decode verifyReleaseSignature text now
  else
    let st := licenseFromText b64Decode verifyReleaseSignature kEvalLicense now
    if st.state = .invalid then st else evaluation st evalStarted now

/-- The licence text that is configured, inline or in a file. -/
def configured (cfg : Config) : Option Octets :=
  if cfg.licenseText ≠ [] then some cfg.licenseText
  else if cfg.licenseFile ≠ [] then readFile cfg.licenseFile else none

/-- The signature is that of the body under the built-in key. -/
def verifies (body sig : Octets) : Bool :=
  b64Decode sig ≠ [] && signatureOk verifyReleaseSignature body (b64Decode sig)

/-- The signed body of the built-in licence. -/
def evalBody : Octets := octets "number: FPK-EVAL\ntier: evaluation\nperiod_days: 30\n"

/-- The configured text is a licence that was bought and is not over. -/
def LicenceBought (cfg : Config) (now : Int) : Prop :=
  ∃ text body sig,configured readFile cfg=some text ∧ Signed text body sig ∧
    verifies b64Decode verifyReleaseSignature body sig=true ∧ body≠evalBody ∧
    (field body "expires"=[] ∨ validIsoDate (field body "expires")=true ∧
      before (dateOf (field body "expires")) (utcDate now)=false)

/-- The licence has a number and an expiry date. -/
def dated (body : Octets) : Bool := field body "number" ≠ [] && validIsoDate (field body "expires")

/-- Where the configured text verifies, its body is not the built-in one, and its expiry date is not
compared with a year of more than four digits, or sorts below it all the same. -/
def NotMistaken (cfg : Config) (now : Int) : Prop :=
  ∀ text body sig,configured readFile cfg=some text → Signed text body sig →
    verifies b64Decode verifyReleaseSignature body sig=true →
    body≠evalBody ∧ (dated body=true → (utcDate now).1≤9999 ∨
      textLess (field body "expires") (todayUtc now)=true)

end Status

theorem between_kEvalLicense : between kEvalLicense kBodyBegin kBodyEnd=some evalBody := by
  decide +kernel

section Text

variable {b64Decode : Octets → Octets} {verifyReleaseSignature : Octets → Octets → Octets → Bool}
  {readFile : Octets → Option Octets} {cfg : Config} {text body sig : Octets} {now : Int}

theorem verifiedLicense_licensed_iff : (verifiedLicense body now).state=.licensed ↔
    field body "number"≠[] ∧ (field body "expires"=[] ∨ validIsoDate (field body "expires")=true ∧
      textLess (field body "expires") (todayUtc now)=false) := by
  simp only [verifiedLicense]
  split_ifs with hnumber hexpires hvalid hless
  · simp [invalid,hnumber]
  · simp [hnumber,hexpires]
  · have hbad : validIsoDate (field body "expires")=false := by simpa using hvalid
    simp [invalid,hexpires,hbad]
  · simp [hexpires,hless]
  · have hgood : validIsoDate (field body "expires")=true := by simpa using hvalid
    simp [hnumber,hgood,hless]

/-- The state follows from the signed body and the signature alone. -/
theorem licenseFromText_of_signed (h : Signed text body sig) (now : Int) :
    licenseFromText b64Decode verifyReleaseSignature text now=
      if b64Decode sig = [] then invalid (octets "the signature is not valid base64")
      else if !signatureOk verifyReleaseSignature body (b64Decode sig) then
        invalid (octets "the signature does not verify against the built-in FastPKI key")
      else verifiedLicense body now := by
  obtain ⟨hbody,hsig⟩ := signed_iff.mp h
  rw [licenseFromText,hbody,hsig]

theorem licenseFromText_of_verifies (h : Signed text body sig)
    (hv : verifies b64Decode verifyReleaseSignature body sig=true) :
    licenseFromText b64Decode verifyReleaseSignature text now=verifiedLicense body now := by
  rw [verifies,Bool.and_eq_true,decide_eq_true_eq] at hv
  rw [licenseFromText_of_signed h,if_neg hv.1,hv.2]
  rfl

theorem signed_of_licensed
    (h : (licenseFromText b64Decode verifyReleaseSignature text now).state=.licensed) :
    ∃ body sig,Signed text body sig ∧ verifies b64Decode verifyReleaseSignature body sig=true := by
  cases hbody : between text kBodyBegin kBodyEnd with
  | none => simp [licenseFromText,hbody,invalid] at h
  | some body =>
    cases hsig : between text kSigBegin kSigEnd with
    | none => simp [licenseFromText,hbody,hsig,invalid] at h
    | some sig =>
      have hsigned : Signed text body sig := signed_iff.mpr ⟨hbody,hsig⟩
      refine ⟨body,sig,hsigned,?_⟩
      rw [licenseFromText_of_signed hsigned] at h
      split_ifs at h with hraw hok
      · cases h
      · cases h
      · have hgood : signatureOk verifyReleaseSignature body (b64Decode sig)=true := by simpa using hok
        simp [verifies,hraw,hgood]

theorem licenseStatus_of_configured (evalStarted : Octets) (h : configured readFile cfg=some text) :
    licenseStatus b64Decode verifyReleaseSignature readFile cfg evalStarted now=
      licenseFromText b64Decode verifyReleaseSignature text now := by
  simp only [configured] at h
  simp only [licenseStatus]
  split_ifs at h ⊢
  · rw [Option.some.inj h]
  · rw [h]

/-- The evaluation is never reported as a licence. -/
theorem evaluation_state (st : LicenseStatus) (evalStarted : Octets) (now : Int) :
    (evaluation st evalStarted now).state≠.licensed := by
  simp only [evaluation]
  generalize (if validIsoDate evalStarted then evalStarted else todayUtc now)=started
  split_ifs
  · simp
  · simp

theorem licenseStatus_of_none (evalStarted : Octets) (h : configured readFile cfg=none) :
    (licenseStatus b64Decode verifyReleaseSignature readFile cfg evalStarted now).state≠.licensed := by
  simp only [configured] at h
  simp only [licenseStatus]
  split_ifs at h
  · rename_i htext hfile
    rw [if_neg htext,if_pos hfile,h]
    simp [invalid]
  · rename_i htext hfile
    rw [if_neg htext,if_neg hfile]
    split_ifs with hinvalid
    · rw [hinvalid]
      simp
    · exact evaluation_state _ evalStarted now

/-- An expiry date has four digits for its year. -/
theorem before_of_far {s : Octets} (hvalid : validIsoDate s=true) (hyear : 9999 < (utcDate now).1) :
    before (dateOf s) (utcDate now)=true := by
  obtain ⟨y,m,d,-,hylen,-,-,hy,-,-,hdate⟩ := validIsoDate_split hvalid
  have hfour := decimal_lt_pow hy
  rw [hylen] at hfour
  have hless : (Ascii.value y : Int) < (utcDate now).1 := by omega
  simp [before,hdate,hless]

theorem evalBody_licensed : (verifiedLicense evalBody now).state=.licensed := by
  rw [verifiedLicense_licensed_iff]
  exact ⟨by decide,Or.inl (by decide)⟩

theorem signed_unique {body' sig' : Octets} (h : Signed text body sig) (h' : Signed text body' sig') :
    body=body' :=
  Option.some.inj ((signed_iff.mp h).1.symm.trans (signed_iff.mp h').1)

theorem licenseStatus_of_verifies (evalStarted : Octets) (hcfg : configured readFile cfg=some text)
    (hsigned : Signed text body sig) (hv : verifies b64Decode verifyReleaseSignature body sig=true) :
    licenseStatus b64Decode verifyReleaseSignature readFile cfg evalStarted now=
      verifiedLicense body now :=
  (licenseStatus_of_configured evalStarted hcfg).trans (licenseFromText_of_verifies hsigned hv)

theorem notMistaken_of_bought {evalStarted : Octets}
    (h : (licenseStatus b64Decode verifyReleaseSignature readFile cfg evalStarted now).state=.licensed →
      LicenceBought b64Decode verifyReleaseSignature readFile cfg now) :
    NotMistaken b64Decode verifyReleaseSignature readFile cfg now := by
  intro text body sig hcfg hsigned hv
  rw [licenseStatus_of_verifies evalStarted hcfg hsigned hv] at h
  have hsame (hlicensed : (verifiedLicense body now).state=.licensed) : body≠evalBody ∧
      (field body "expires"=[] ∨ validIsoDate (field body "expires")=true ∧
        before (dateOf (field body "expires")) (utcDate now)=false) := by
    obtain ⟨text',body',sig',hcfg',hsigned',-,hnot,hdate⟩ := h hlicensed
    obtain rfl : text=text' := Option.some.inj (hcfg.symm.trans hcfg')
    obtain rfl : body=body' := signed_unique hsigned hsigned'
    exact ⟨hnot,hdate⟩
  refine ⟨fun heval => (hsame (heval ▸ evalBody_licensed)).1 heval,fun hdated => ?_⟩
  rw [dated,Bool.and_eq_true,decide_eq_true_eq] at hdated
  by_contra hfar
  rw [not_or,not_le,Bool.not_eq_true] at hfar
  have hlicensed := verifiedLicense_licensed_iff.mpr ⟨hdated.1,Or.inr ⟨hdated.2,hfar.2⟩⟩
  obtain hempty|⟨-,hnot⟩ := (hsame hlicensed).2
  · rw [hempty] at hdated
    exact absurd hdated.2 (by decide)
  · rw [before_of_far hdated.2 hfar.1] at hnot
    cases hnot

theorem bought_of_notMistaken {evalStarted : Octets}
    (h : NotMistaken b64Decode verifyReleaseSignature readFile cfg now)
    (hstate : (licenseStatus b64Decode verifyReleaseSignature readFile cfg evalStarted now).state=
      .licensed) : LicenceBought b64Decode verifyReleaseSignature readFile cfg now := by
  cases hcfg : configured readFile cfg with
  | none => exact absurd hstate (licenseStatus_of_none evalStarted hcfg)
  | some text =>
    rw [licenseStatus_of_configured evalStarted hcfg] at hstate
    obtain ⟨body,sig,hsigned,hv⟩ := signed_of_licensed hstate
    rw [licenseFromText_of_verifies hsigned hv] at hstate
    obtain ⟨hnumber,hexpires⟩ := verifiedLicense_licensed_iff.mp hstate
    obtain ⟨hnot,hyear⟩ := h text body sig hcfg hsigned hv
    refine ⟨text,body,sig,hcfg,hsigned,hv,hnot,?_⟩
    obtain hempty|⟨hvalid,hless⟩ := hexpires
    · exact Or.inl hempty
    · refine Or.inr ⟨hvalid,?_⟩
      obtain hfour|hover := hyear (by simp [dated,hnumber,hvalid])
      · by_contra hbefore
        rw [Bool.not_eq_false] at hbefore
        rw [textLess_of_before hvalid hfour hbefore] at hless
        cases hless
      · rw [hover] at hless
        cases hless

end Text

/-- For every configuration, file content and time: `Licensed` is reported only for a licence that was
bought and is not over, just when the configured text is not mistaken for one. What stands around
the signed body and the signature is not looked at. -/
theorem licensed_means_bought_iff (b64Decode : Octets → Octets)
    (verifyReleaseSignature : Octets → Octets → Octets → Bool) (readFile : Octets → Option Octets)
    (cfg : Config) (evalStarted : Octets) (now : Int) :
    (((licenseStatus b64Decode verifyReleaseSignature readFile cfg evalStarted now).state=.licensed →
        LicenceBought b64Decode verifyReleaseSignature readFile cfg now) ↔
      NotMistaken b64Decode verifyReleaseSignature readFile cfg now) ∧
    ∀ readFile' cfg' evalStarted' text text' body sig,
      configured readFile cfg=some text → configured readFile' cfg'=some text' →
      Signed text body sig → Signed text' body sig →
      licenseStatus b64Decode verifyReleaseSignature readFile' cfg' evalStarted' now=
        licenseStatus b64Decode verifyReleaseSignature readFile cfg evalStarted now := by
  refine ⟨⟨notMistaken_of_bought,bought_of_notMistaken⟩,?_⟩
  intro readFile' cfg' evalStarted' text text' body sig hcfg hcfg' hsigned hsigned'
  rw [licenseStatus_of_configured evalStarted hcfg,licenseStatus_of_configured evalStarted' hcfg',
    licenseFromText_of_signed hsigned,licenseFromText_of_signed hsigned']

/-- The signature of the built-in licence, and a verifier that knows no other. -/
def evalSignature : Octets :=
  [0x30,0x45,0x02,0x20,0x0d,0x72,0xad,0xf6,0x92,0x66,0x66,0xae,0xaa,0x2f,0x3c,0xc1,0xf2,0x8f,0x33,
   0x85,0x94,0x3f,0xe3,0xdc,0x77,0x64,0x98,0xf9,0x69,0xb3,0x38,0xe5,0xc8,0x17,0xe8,0x18,0x02,0x21,
   0x00,0xd1,0x45,0x0a,0xfb,0x8e,0x5c,0x75,0x1c,0xd2,0x11,0x05,0x78,0x02,0xae,0x14,0x07,0x6b,0xd1,
   0x79,0x08,0x8d,0xa6,0x4c,0x1d,0xe8,0x62,0x1f,0x24,0x4d,0xad,0x6f,0x28]

def evalDecode (sig : Octets) : Octets :=
  if sig = ["MEUCIA1yrfaSZmauqi88wfKPM4WUP+Pcd2SY+WmzOOXIF+gYAiEA0UUK+45cdRzS\n",
    "EQV4Aq4UB2vReQiNpkwd6GIfJE2tbyg=\n"].flatMap octets then evalSignature else []

def evalVerify (key body sig : Octets) : Bool :=
  key = kLicensePubKey && body = evalBody && sig = evalSignature

/-- The built-in licence, uploaded as the configured one, is reported as a perpetual licence. -/
theorem uploaded_evaluation_is_licensed :
    let cfg : Config := ⟨kEvalLicense,[]⟩
    let st := licenseStatus evalDecode evalVerify (fun _ => none) cfg [] 1790000000
    st.state=.licensed ∧ st.perpetual=true ∧
      ¬LicenceBought evalDecode evalVerify (fun _ => none) cfg 1790000000 := by
  refine ⟨by decide +kernel,by decide +kernel,?_⟩
  rintro ⟨text,body,sig,hcfg,hsigned,-,hnot,-⟩
  have htext : configured (fun _ => none) ⟨kEvalLicense,[]⟩=some kEvalLicense := by decide +kernel
  obtain rfl : kEvalLicense=text := Option.some.inj (htext.symm.trans hcfg)
  have hbody := between_kEvalLicense.symm.trans (signed_iff.mp hsigned).1
  exact hnot (Option.some.inj hbody).symm

end FastPki.License
