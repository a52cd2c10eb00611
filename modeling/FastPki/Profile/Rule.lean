import FastPki.Profile.Evaluate

namespace FastPki.Profile

open FastPki.X509

/-- The key usages that a request is evaluated for: its own, else the profile's. -/
def keyUsagesOf (p : CertProfile) (exts : List Extension) : List String :=
  usageTokens ((requestedKu exts).toOption.getD []) p.defaultKu

def purposesOf (ssl : Openssl) (p : CertProfile) (exts : List Extension) : List String :=
  usageTokens ((requestedEku ssl exts).toOption.getD []) p.defaultEku

/-- A usage extension of the request does not decode. -/
def Malformed (ssl : Openssl) (exts : List Extension) : Prop :=
  (requestedKu exts).toOption=none ∨ (requestedEku ssl exts).toOption=none

/-- The request leaves to the profile what the profile has not decided. -/
def Relied (ssl : Openssl) (p : CertProfile) (exts : List Extension) : Prop :=
  ("default key usage"∈p.undecided ∧ (requestedKu exts).toOption=some []) ∨
    ("default extended key usage"∈p.undecided ∧ (requestedEku ssl exts).toOption=some []) ∨
    "validity"∈p.undecided ∨ "stamped custom extensions"∈p.undecided

/-- None of the key usages that are evaluated is allowed. -/
def NoneAllowed (p : CertProfile) (exts : List Extension) : Prop :=
  keyUsagesOf p exts≠[] ∧ ∀ k∈keyUsagesOf p exts,k∉p.allowedKu

/-- The purposes that are evaluated, in their canonical spelling, as far as they are allowed. -/
def allowedPurposes (ssl : Openssl) (p : CertProfile) (exts : List Extension) : List String :=
  ((purposesOf ssl p exts).map (canonicalEku ssl)).filter fun c =>
    "*"∈p.allowedEku ∨ ∃ a∈p.allowedEku,canonicalEku ssl a=c

/-- The key usages that are evaluated, as far as they are allowed. -/
def allowedKeyUsages (p : CertProfile) (exts : List Extension) : List String :=
  (keyUsagesOf p exts).filter (· ∈ p.allowedKu)

/-- A purpose among `eku` needs signatures, the profile allows them and `ku` has not got them. -/
def SignatureImplied (p : CertProfile) (ku eku : List String) : Prop :=
  (∃ e∈eku,"digitalSignature"∈ekuKuRequired e) ∧ "digitalSignature"∈p.allowedKu ∧
    "digitalSignature"∉ku

instance (p : CertProfile) (ku eku : List String) : Decidable (SignatureImplied p ku eku) :=
  inferInstanceAs (Decidable (_ ∧ _ ∧ _))

/-- The needed bit is there or not allowed: needing it once more adds nothing. -/
theorem foldl_addRequired_of_settled {p : CertProfile} {needed ku : List String}
    (honly : ∀ req∈needed,req="digitalSignature")
    (hset : "digitalSignature"∈ku ∨ "digitalSignature"∉p.allowedKu) :
    needed.foldl (addRequired p) ku=ku := by
  induction needed with
  | nil => rfl
  | cons req needed ih =>
    obtain rfl := honly req List.mem_cons_self
    have hstay : addRequired p ku "digitalSignature"=ku := by
      rw [addRequired,if_pos hset]
    rw [List.foldl_cons,hstay]
    exact ih fun r hr => honly r (List.mem_cons_of_mem _ hr)

theorem withImpliedKu_eq (p : CertProfile) (ku eku : List String) :
    withImpliedKu p ku eku=
      if SignatureImplied p ku eku then ku++["digitalSignature"] else ku := by
  have honly : ∀ req∈eku.flatMap ekuKuRequired,req="digitalSignature" := by
    intro req hreq
    obtain ⟨e,_,he⟩ := List.mem_flatMap.mp hreq
    exact ekuKuRequired_only he
  have hneed : (∃ e∈eku,"digitalSignature"∈ekuKuRequired e) ↔
      "digitalSignature"∈eku.flatMap ekuKuRequired := List.mem_flatMap.symm
  rw [withImpliedKu]
  simp only [SignatureImplied,hneed]
  split_ifs with himplied
  · obtain ⟨hin,hallowed,habsent⟩ := himplied
    -- the first purpose that needs the bit adds it, and the later ones find it
    cases hneeded : eku.flatMap ekuKuRequired with
    | nil =>
      rw [hneeded] at hin
      cases hin
    | cons req needed =>
      rw [hneeded] at honly
      obtain rfl := honly req List.mem_cons_self
      have hadd : addRequired p ku "digitalSignature"=ku++["digitalSignature"] := by
        rw [addRequired,if_neg]
        simp [hallowed,habsent]
      rw [List.foldl_cons,hadd]
      exact foldl_addRequired_of_settled (fun r hr => honly r (List.mem_cons_of_mem _ hr))
        (Or.inl (List.mem_append_right _ List.mem_cons_self))
  · by_cases hset : "digitalSignature"∈ku ∨ "digitalSignature"∉p.allowedKu
    · exact foldl_addRequired_of_settled honly hset
    · obtain ⟨habsent,hallowed⟩ := not_or.mp hset
      have hnil : eku.flatMap ekuKuRequired=[] := by
        rw [List.eq_nil_iff_forall_not_mem]
        intro req hreq
        obtain rfl := honly req hreq
        exact himplied ⟨hreq,not_not.mp hallowed,habsent⟩
      rw [hnil]
      rfl

theorem keptEku_purposesOf (ssl : Openssl) (p : CertProfile) (exts : List Extension) :
    keptEku ssl p (purposesOf ssl p exts)=allowedPurposes ssl p exts := by
  simp only [keptEku,allowedPurposes]
  apply List.filter_congr
  intro c _
  simp [Finset.mem_image]

theorem noneAllowed_iff (p : CertProfile) (exts : List Extension) :
    keptKu p (keyUsagesOf p exts)=[] ∧ keyUsagesOf p exts≠[] ↔ NoneAllowed p exts := by
  rw [and_comm,NoneAllowed,keptKu,List.filter_eq_nil_iff]
  simp

section Decoded

variable {ssl : Openssl} {p : CertProfile} {exts : List Extension} {rku reku : List String}

theorem refuseUndecided_eq_ok_iff (hku : requestedKu exts=.ok rku)
    (heku : requestedEku ssl exts=.ok reku) :
    refuseUndecided ssl p exts=.ok () ↔ ¬Relied ssl p exts := by
  simp only [refuseUndecided,Relied,hku,heku,Except.toOption,Option.some.injEq]
  by_cases hempty : p.undecided=∅
  · simp [hempty]
  · rw [if_neg hempty]
    by_cases hk : "default key usage"∈p.undecided
    · by_cases he : "default extended key usage"∈p.undecided
      · simp [hk,he,bind,Except.bind,List.filter_eq_nil_iff]
      · simp [hk,he,bind,Except.bind,List.filter_eq_nil_iff]
    · by_cases he : "default extended key usage"∈p.undecided
      · simp [hk,he,bind,Except.bind,List.filter_eq_nil_iff]
      · simp [hk,he,bind,Except.bind,List.filter_eq_nil_iff]

/-- What is evaluated for a request whose extensions decode. -/
theorem evaluate_decoded (hku : requestedKu exts=.ok rku) (heku : requestedEku ssl exts=.ok reku)
    {pe : ProfileExtensions} :
    evaluateProfileExtensions ssl p exts=.ok pe ↔
      ¬Relied ssl p exts ∧ ¬NoneAllowed p exts ∧
        pe=let ku := withImpliedKu p (allowedKeyUsages p exts) (allowedPurposes ssl p exts)
          ⟨if ku=[] then [] else "critical"::ku.flatMap items,
            (allowedPurposes ssl p exts).flatMap items⟩ := by
  have hU : usageTokens rku p.defaultKu=keyUsagesOf p exts := by
    rw [keyUsagesOf,hku]
    rfl
  have hE : usageTokens reku p.defaultEku=purposesOf ssl p exts := by
    rw [purposesOf,heku]
    rfl
  simp only [evaluateProfileExtensions,bind_eq_ok_iff,refuseIf_eq_ok_iff,hku,heku]
  constructor
  · intro h
    obtain ⟨_,hrelied,a,ha,_,hkept,b,hb,hpe⟩ := h
    obtain rfl := Except.ok.inj ha
    obtain rfl := Except.ok.inj hb
    rw [hU,noneAllowed_iff] at hkept
    rw [hU,hE,keptEku_purposesOf] at hpe
    exact ⟨(refuseUndecided_eq_ok_iff hku heku).mp hrelied,hkept,(Except.ok.inj hpe).symm⟩
  · intro h
    obtain ⟨hrelied,hkept,rfl⟩ := h
    rw [← noneAllowed_iff,← hU] at hkept
    refine ⟨(),(refuseUndecided_eq_ok_iff hku heku).mpr hrelied,rku,rfl,(),hkept,reku,rfl,?_⟩
    rw [hU,hE,keptEku_purposesOf]
    rfl

theorem evaluate_malformed (h : Malformed ssl exts) :
    (evaluateProfileExtensions ssl p exts).toOption=none := by
  cases hpe : evaluateProfileExtensions ssl p exts with
  | error e => rfl
  | ok pe =>
    obtain ⟨rku,reku,hku,heku,_⟩ := evaluateProfileExtensions_ok hpe
    rw [Malformed,hku,heku] at h
    obtain h|h := h
    · cases h
    · cases h

end Decoded

/-- A request is refused for a usage extension that does not decode, for relying on what the
profile leaves undecided and for asking no key usage that the profile allows, and for nothing
else. What is emitted otherwise is what was evaluated and is allowed, and the signature bit that a
purpose implies. -/
theorem evaluate_is_the_rule (ssl : Openssl) (p : CertProfile) (exts : List Extension) :
    ((evaluateProfileExtensions ssl p exts).toOption=none ↔
        Malformed ssl exts ∨ Relied ssl p exts ∨ NoneAllowed p exts) ∧
      ∀ pe,evaluateProfileExtensions ssl p exts=.ok pe →
        ∃ ku,ku=(if SignatureImplied p (allowedKeyUsages p exts) (allowedPurposes ssl p exts)
            then allowedKeyUsages p exts++["digitalSignature"] else allowedKeyUsages p exts) ∧
          pe.keyUsage=(if ku=[] then [] else "critical"::ku.flatMap items) ∧
          pe.extKeyUsage=(allowedPurposes ssl p exts).flatMap items := by
  by_cases hmal : Malformed ssl exts
  · have hnone := @evaluate_malformed ssl p exts hmal
    refine ⟨iff_of_true hnone (Or.inl hmal),fun pe hpe => ?_⟩
    rw [hpe] at hnone
    cases hnone
  · obtain ⟨hku,heku⟩ := not_or.mp hmal
    cases hrku : requestedKu exts with
    | error e => simp [hrku,Except.toOption] at hku
    | ok rku =>
      cases hreku : requestedEku ssl exts with
      | error e => simp [hreku,Except.toOption] at heku
      | ok reku =>
        refine ⟨?_,fun pe hpe => ?_⟩
        · rw [or_iff_right hmal]
          constructor
          · intro hnone
            by_contra hrule
            obtain ⟨hrelied,hallowed⟩ := not_or.mp hrule
            have hok := (evaluate_decoded hrku hreku).mpr ⟨hrelied,hallowed,rfl⟩
            rw [hok] at hnone
            cases hnone
          · intro hrule
            cases hpe : evaluateProfileExtensions ssl p exts with
            | error e => rfl
            | ok pe =>
              obtain ⟨hrelied,hallowed,_⟩ := (evaluate_decoded hrku hreku).mp hpe
              exact absurd hrule (not_or.mpr ⟨hrelied,hallowed⟩)
        · obtain ⟨_,_,rfl⟩ := (evaluate_decoded hrku hreku).mp hpe
          exact ⟨_,withImpliedKu_eq ..,rfl,rfl⟩

/-- A profile that decides everything refuses a key usage that does not decode. -/
theorem evaluate_refuses_undecodable :
    (evaluateProfileExtensions noObjects CertProfile.init
        [⟨oidKeyUsage,false,.raw []⟩]).toOption=none ∧
      ¬(Relied noObjects CertProfile.init [⟨oidKeyUsage,false,.raw []⟩] ∨
        NoneAllowed CertProfile.init [⟨oidKeyUsage,false,.raw []⟩]) := by
  refine ⟨evaluate_malformed (Or.inl (by decide)),?_⟩
  rw [not_or]
  refine ⟨?_,?_⟩
  · simp [Relied,CertProfile.init]
  · simp only [NoneAllowed]
    decide

end FastPki.Profile
