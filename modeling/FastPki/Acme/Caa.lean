import FastPki.Acme.CaaLookup
import FastPki.Framework.Loop
import FastPki.Net.Address

namespace FastPki.Acme.Caa

open X509 Auth Net

def semicolon : UInt8 := 0x3b

/-- What stands before any parameters, without blanks around it; empty authorizes no CA. -/
def caaIssuerDomain (value : Octets) : Octets :=
  (trim (value.takeWhile (· ≠ semicolon))).map asciiLower

/-- The flags the loop over the records sets, in the order of the source. -/
structure Seen where
  haveIssue : Bool
  allowIssue : Bool
  haveIssuewild : Bool
  allowIssuewild : Bool
  deriving DecidableEq

def Seen.none : Seen := ⟨false,false,false,false⟩

def ok (want : Octets) (r : CaaRecord) : Bool :=
  caaIssuerDomain r.value ≠ [] && caaIssuerDomain r.value = want

/-- The loop over the records of one node; the error is the tag it stops at. -/
def scan (want : Octets) : List CaaRecord → Seen → Except Octets Seen
  | [],seen => .ok seen
  | r::recs,seen =>
    if r.tag = octets "issue" then
      scan want recs { seen with haveIssue := true, allowIssue := seen.allowIssue || ok want r }
    else if r.tag = octets "issuewild" then
      scan want recs
        { seen with haveIssuewild := true, allowIssuewild := seen.allowIssuewild || ok want r }
    else if r.tag ≠ octets "iodef" ∧ r.critical then .error r.tag
    else scan want recs seen

/-- The verdict of the records at `name`, with the reason of a refusal. -/
def judgeRecords (isWild : Bool) (want name : Octets) (recs : List CaaRecord) : Except Octets Unit :=
  match scan want recs .none with
  | .error tag => .error (octets "CAA at "++name++
      octets " carries a critical property we do not understand ("++tag++octets ")")
  | .ok seen =>
    if isWild && seen.haveIssuewild then
      if seen.allowIssuewild then .ok ()
      else .error (octets "CAA issuewild at "++name++octets " does not name "++want)
    else if seen.haveIssue then
      if seen.allowIssue then .ok ()
      else .error (octets "CAA issue at "++name++octets " does not name "++want)
    else .ok ()

/-- The configured resolver, as the reason names it. -/
def resolverText (resolver : Octets) : Octets :=
  if resolver = [] then octets "/etc/resolv.conf" else resolver

/-- One round of the climb: `lookup` is asked again where it failed. -/
def climbRound (lookup : Octets → CaaLookup) (resolver : Octets) (isWild : Bool) (want : Octets)
    (name : Octets) : Octets ⊕ Except Octets Unit :=
  if name = [] then .inr (.ok ())
  else
    let st := lookup name
    let st := if st = .kFailed then lookup name else st
    match st with
    | .kFailed => .inr (.error (octets "CAA lookup for "++name++octets " failed (resolver "++
        resolverText resolver++octets ") — refusing rather than treating it as no policy"))
    | .kRecords recs => .inr (judgeRecords isWild want name recs)
    | .kEmpty =>
      if dot ∉ name then .inr (.ok ())
      else .inl ((name.dropWhile (· ≠ dot)).drop 1)

def isWildcard (identifier : Octets) : Bool := (octets "*.").isPrefixOf identifier

def baseName (identifier : Octets) : Octets :=
  if isWildcard identifier then identifier.drop 2 else identifier

/-- `none` would be a climb that does not end within as many rounds as the name has octets. -/
def caaAllows (lookup : Octets → CaaLookup) (resolver identifier identity : Octets) :
    Option (Except Octets Unit) :=
  match rounds (climbRound lookup resolver (isWildcard identifier) (identity.map asciiLower))
      ((baseName identifier).length+1) (baseName identifier) with
  | .inl _ => none
  | .inr r => some r

section Rule

/-- What DNS holds: no answer, or the CAA records at that very name. -/
abbrev Dns := Octets → Option (List CaaRecord)

def lowerTag (r : CaaRecord) : CaaRecord := { r with tag := r.tag.map asciiLower }

/-- What `query_caa` makes of it. -/
def lookupIn (dns : Dns) (name : Octets) : CaaLookup :=
  match dns name with
  | none => .kFailed
  | some [] => .kEmpty
  | some (r::recs) => .kRecords ((r::recs).map lowerTag)

def hasTag (tag : String) (r : CaaRecord) : Bool := r.tag.map asciiLower = octets tag

/-- A name without its first labels, one at a time. -/
def parents : Octets → List Octets
  | [] => []
  | c::s => if c = dot then (if s = [] then [] else s::parents s) else parents s

def ancestors (name : Octets) : List Octets := if name = [] then [] else name::parents name

def hasRecords (dns : Dns) (name : Octets) : Bool := (dns name).any (· ≠ [])

def onTheWay (dns : Dns) (name : Octets) : List Octets :=
  (ancestors name).takeWhile (!hasRecords dns ·)

def closest (dns : Dns) (name : Octets) : Option Octets := (ancestors name).find? (hasRecords dns)

/-- For a wildcard the `issuewild` properties, if there are any; else the `issue` ones. -/
def applicable (isWild : Bool) (recs : List CaaRecord) : List CaaRecord :=
  if isWild && recs.any (hasTag "issuewild") then recs.filter (hasTag "issuewild")
  else recs.filter (hasTag "issue")

def Names (identity : Octets) (r : CaaRecord) : Prop :=
  caaIssuerDomain r.value≠[] ∧ caaIssuerDomain r.value=identity.map asciiLower

def understood (r : CaaRecord) : Bool :=
  hasTag "issue" r || hasTag "issuewild" r || hasTag "iodef" r

def Permits (isWild : Bool) (identity : Octets) (recs : List CaaRecord) : Prop :=
  (∀ r∈recs,r.critical=true → understood r=true) ∧
    (applicable isWild recs=[] ∨ ∃ r∈applicable isWild recs,Names identity r)

/-- The rule of RFC 8659 for a name. -/
def Authorized (dns : Dns) (isWild : Bool) (identity name : Octets) : Prop :=
  (∀ n∈onTheWay dns name,dns n≠none) ∧
    ∀ n recs,closest dns name=some n → dns n=some recs → Permits isWild identity recs

end Rule

section Records

variable {want identity : Octets} {recs : List CaaRecord} {isWild : Bool}

def unknownCritical (r : CaaRecord) : Bool := r.critical && !understood r

def named (want : Octets) (tag : String) (r : CaaRecord) : Bool := hasTag tag r && ok want r

theorem not_issuewild_of_issue {r : CaaRecord} (h : hasTag "issue" r=true) :
    hasTag "issuewild" r=false := by
  rw [hasTag,decide_eq_true_eq] at h
  rw [hasTag,h]
  decide

/-- One record: it sets its flags, or stops the loop, or changes nothing. -/
theorem scan_cons (r : CaaRecord) (rest : List CaaRecord) (seen : Seen) :
    scan want (lowerTag r::rest) seen=
      if unknownCritical r then .error (lowerTag r).tag
      else scan want rest ⟨seen.haveIssue || hasTag "issue" r,
        seen.allowIssue || named want "issue" r,seen.haveIssuewild || hasTag "issuewild" r,
        seen.allowIssuewild || named want "issuewild" r⟩ := by
  have hok : ok want (lowerTag r)=ok want r := rfl
  have htag (t : String) : (lowerTag r).tag=octets t ↔ hasTag t r=true := by
    rw [hasTag,decide_eq_true_eq]
    rfl
  rw [scan,hok]
  simp only [htag,ne_eq,Bool.not_eq_true]
  cases hissue : hasTag "issue" r with
  | true =>
    have hwild := not_issuewild_of_issue hissue
    simp [unknownCritical,understood,named,hissue,hwild]
  | false =>
    cases hwild : hasTag "issuewild" r with
    | true => simp [unknownCritical,understood,named,hissue,hwild]
    | false =>
      cases hiodef : hasTag "iodef" r with
      | true => simp [unknownCritical,understood,named,hissue,hwild,hiodef]
      | false =>
        have hcrit : (lowerTag r).critical=r.critical := rfl
        simp [unknownCritical,understood,named,hissue,hwild,hiodef,hcrit]

/-- The loop stops at a critical property it does not know; else it has looked at every record. -/
theorem scan_eq (want : Octets) (recs : List CaaRecord) (seen : Seen) :
    (recs.any unknownCritical=true → ∃ tag,scan want (recs.map lowerTag) seen=.error tag) ∧
    (recs.any unknownCritical=false → scan want (recs.map lowerTag) seen=.ok
      ⟨seen.haveIssue || recs.any (hasTag "issue"),
        seen.allowIssue || recs.any (named want "issue"),
        seen.haveIssuewild || recs.any (hasTag "issuewild"),
        seen.allowIssuewild || recs.any (named want "issuewild")⟩) := by
  induction recs generalizing seen with
  | nil => simp [scan]
  | cons r recs ih =>
    rw [List.map_cons,scan_cons]
    cases hr : unknownCritical r with
    | true => simp [hr]
    | false =>
      rw [if_neg (by simp)]
      have hrest := ih ⟨seen.haveIssue || hasTag "issue" r,seen.allowIssue || named want "issue" r,
        seen.haveIssuewild || hasTag "issuewild" r,
        seen.allowIssuewild || named want "issuewild" r⟩
      simpa [hr,Bool.or_assoc] using hrest

theorem any_unknownCritical :
    recs.any unknownCritical=false ↔ ∀ r∈recs,r.critical=true → understood r=true := by
  simp [unknownCritical]

theorem any_named (tag : String) : recs.any (named (identity.map asciiLower) tag)=true ↔
    ∃ r∈recs.filter (hasTag tag),Names identity r := by
  simp [named,ok,Names,and_assoc]

/-- The properties of one tag: none of them, or one that names the identity. -/
theorem allowed_iff (tag : String) (why : Octets) :
    (if recs.any (hasTag tag) then
      if recs.any (named (identity.map asciiLower) tag) then (.ok () : Except Octets Unit)
      else .error why
    else .ok ())=.ok () ↔
      recs.filter (hasTag tag)=[] ∨ ∃ r∈recs.filter (hasTag tag),Names identity r := by
  rw [← any_named]
  cases htag : recs.any (hasTag tag) with
  | false =>
    have hnil : recs.filter (hasTag tag)=[] := by simpa using htag
    simp [hnil]
  | true =>
    have hne : recs.filter (hasTag tag)≠[] := by simpa using htag
    rw [if_pos rfl,or_iff_right hne]
    cases recs.any (named (identity.map asciiLower) tag) with
    | false => simp
    | true => simp

theorem judgeRecords_iff (name : Octets) :
    judgeRecords isWild (identity.map asciiLower) name (recs.map lowerTag)=.ok () ↔
      Permits isWild identity recs := by
  obtain ⟨hstop,hscan⟩ := scan_eq (identity.map asciiLower) recs .none
  rw [judgeRecords,Permits,← any_unknownCritical]
  cases hcrit : recs.any unknownCritical with
  | true =>
    obtain ⟨tag,htag⟩ := hstop hcrit
    rw [htag]
    simp
  | false =>
    rw [hscan hcrit,applicable]
    simp only [Seen.none,Bool.false_or,true_and]
    by_cases hwild : (isWild && recs.any (hasTag "issuewild"))=true
    · have hany : recs.any (hasTag "issuewild")=true := (Bool.and_eq_true_iff.mp hwild).2
      rw [if_pos hwild,if_pos hwild,← allowed_iff "issuewild" (octets "CAA issuewild at "++name++
        octets " does not name "++identity.map asciiLower),if_pos hany]
    · rw [if_neg hwild,if_neg hwild]
      exact allowed_iff "issue" _

end Records

section Climb

variable {dns : Dns} {isWild : Bool} {resolver identity name : Octets}

def parent (name : Octets) : Octets := (name.dropWhile (· ≠ dot)).drop 1

theorem parents_eq (name : Octets) :
    parents name=if dot ∈ name then ancestors (parent name) else [] := by
  induction name with
  | nil => rfl
  | cons c s ih =>
    rw [parents]
    by_cases hc : c=dot
    · subst hc
      simp [parent,ancestors]
    · rw [if_neg hc,ih]
      have hne : dot≠c := Ne.symm hc
      simp [parent,hc,hne]

theorem length_parent_lt (hdot : dot∈name) : (parent name).length<name.length := by
  have hle := (List.dropWhile_sublist (p := (fun c => decide (c ≠ dot))) (l := name)).length_le
  have hpos : 0<name.length := List.length_pos_of_mem hdot
  rw [parent,List.length_drop]
  omega

theorem ancestors_of_ne (hne : name≠[]) : ancestors name=name::parents name := if_neg hne

/-- An empty answer leaves the rule to the parent. -/
theorem authorized_parent (hne : name≠[]) (hempty : dns name=some []) (hdot : dot∈name) :
    Authorized dns isWild identity (parent name) ↔ Authorized dns isWild identity name := by
  have hno : hasRecords dns name=false := by simp [hasRecords,hempty]
  have hanc : ancestors name=name::ancestors (parent name) := by
    rw [ancestors_of_ne hne,parents_eq,if_pos hdot]
  have hway : onTheWay dns name=name::onTheWay dns (parent name) := by
    rw [onTheWay,hanc,List.takeWhile_cons_of_pos (by simp [hno])]
    rfl
  have hclosest : closest dns name=closest dns (parent name) := by
    rw [closest,hanc,List.find?_cons_of_neg (by simp [hno])]
    rfl
  rw [Authorized,Authorized,hway,hclosest,List.forall_mem_cons,hempty]
  simp

/-- Without a parent nothing restricts. -/
theorem authorized_top (hne : name≠[]) (hempty : dns name=some []) (hdot : dot∉name) :
    Authorized dns isWild identity name := by
  have hend : parents name=[] := by rw [parents_eq,if_neg hdot]
  simp [Authorized,onTheWay,closest,ancestors_of_ne hne,hend,hasRecords,hempty]

theorem not_authorized_of_failed (hne : name≠[]) (hfailed : dns name=none) :
    ¬Authorized dns isWild identity name := by
  have hmem : name∈onTheWay dns name := by
    rw [onTheWay,ancestors_of_ne hne,List.takeWhile_cons_of_pos (by simp [hasRecords,hfailed])]
    exact List.mem_cons_self
  intro hauth
  exact hauth.1 name hmem hfailed

/-- Records at the name itself decide. -/
theorem authorized_records (hne : name≠[]) {r : CaaRecord} {recs : List CaaRecord}
    (hdns : dns name=some (r::recs)) :
    Authorized dns isWild identity name ↔ Permits isWild identity (r::recs) := by
  have hrec : hasRecords dns name=true := by simp [hasRecords,hdns]
  have hclosest : closest dns name=some name := by
    rw [closest,ancestors_of_ne hne,List.find?_cons_of_pos hrec]
  have hway : onTheWay dns name=[] := by
    rw [onTheWay,ancestors_of_ne hne,List.takeWhile_cons_of_neg (by simp [hrec])]
  rw [Authorized,hway,hclosest]
  constructor
  · intro hauth
    exact hauth.2 name _ rfl hdns
  · intro hpermits
    refine ⟨fun n hn => absurd hn List.not_mem_nil,fun n rs hn hrs => ?_⟩
    obtain rfl := Option.some.inj hn
    rw [hdns] at hrs
    exact Option.some.inj hrs ▸ hpermits

/-- A round goes on to the parent or ends with what the rule says. -/
theorem climbRound_cases (dns : Dns) (resolver : Octets) (isWild : Bool) (identity name : Octets) :
    (name≠[] ∧ dns name=some [] ∧ dot∈name ∧
      climbRound (lookupIn dns) resolver isWild (identity.map asciiLower) name=.inl (parent name)) ∨
    ∃ r,climbRound (lookupIn dns) resolver isWild (identity.map asciiLower) name=.inr r ∧
      (r=.ok () ↔ Authorized dns isWild identity name) := by
  rw [climbRound,lookupIn]
  by_cases hne : name=[]
  · rw [if_pos hne]
    exact Or.inr ⟨_,rfl,by simp [Authorized,onTheWay,closest,ancestors,hne]⟩
  rw [if_neg hne]
  cases hdns : dns name with
  | none => exact Or.inr ⟨_,rfl,by simp [not_authorized_of_failed hne hdns]⟩
  | some recs =>
    cases recs with
    | nil =>
      by_cases hdot : dot∈name
      · exact Or.inl ⟨hne,rfl,hdot,by simp [hdot,parent]⟩
      · exact Or.inr ⟨.ok (),by simp [hdot],by simp [authorized_top hne hdns hdot]⟩
    | cons r recs =>
      refine Or.inr ⟨_,rfl,?_⟩
      rw [judgeRecords_iff,authorized_records hne hdns]

end Climb

/-- The climb ends, and it allows what the rule authorizes. -/
theorem caa_allows_iff_authorized (dns : Dns) (resolver identifier identity : Octets) :
    ∃ r,caaAllows (lookupIn dns) resolver identifier identity=some r ∧
      (r=.ok () ↔ Authorized dns (isWildcard identifier) identity (baseName identifier)) := by
  let body := climbRound (lookupIn dns) resolver (isWildcard identifier) (identity.map asciiLower)
  let rule := Authorized dns (isWildcard identifier) identity
  have keep : ∀ s t,(rule s ↔ rule (baseName identifier)) → body s=.inl t →
      (rule t ↔ rule (baseName identifier)) ∧ t.length<s.length := by
    intro s t hs ht
    rcases climbRound_cases dns resolver (isWildcard identifier) identity s with
      ⟨hne,hempty,hdot,hnext⟩|⟨r,hr,-⟩
    · obtain rfl := Sum.inl.inj (hnext.symm.trans ht)
      exact ⟨(authorized_parent hne hempty hdot).trans hs,length_parent_lt hdot⟩
    · cases hr.symm.trans ht
  have last : ∀ s r,(rule s ↔ rule (baseName identifier)) → body s=.inr r →
      (r=.ok () ↔ rule (baseName identifier)) := by
    intro s r hs hr
    rcases climbRound_cases dns resolver (isWildcard identifier) identity s with
      ⟨-,-,-,hnext⟩|⟨r',hr',hrule⟩
    · cases hnext.symm.trans hr
    · obtain rfl := Sum.inr.inj (hr'.symm.trans hr)
      exact hrule.trans hs
  obtain ⟨r,hr,hrule⟩ := rounds_returns keep last Iff.rfl (Nat.lt_succ_self _)
  exact ⟨r,by rw [caaAllows,hr],hrule⟩

end FastPki.Acme.Caa
