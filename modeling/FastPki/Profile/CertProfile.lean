import FastPki.Rbac.Subject
import FastPki.X509.Name
import Mathlib.Data.List.Sort

namespace FastPki

/-- `pki::Error`: code 1 is a refusal by policy, code 2 a failure of the machinery. -/
structure Error where
  code : Nat
  message : String
  deriving DecidableEq, Repr

namespace Profile

open FastPki.X509 FastPki.Rbac

structure CustomExt where
  oid : String
  value : String
  critical : Bool
  deriving DecidableEq

structure CsrAttr where
  oid : String
  values : List String
  deriving DecidableEq

structure CertProfile where
  name : String
  allowedKu : Finset String
  allowedEku : Finset String
  defaultKu : List String
  defaultEku : List String
  allowWildcard : Bool
  deviceSerialSan : Bool
  allowedSanTypes : Finset String
  maxValidityDays : Int
  validityDays : Int
  csrAttrs : List CsrAttr
  customExtensions : List CustomExt
  allowedCustomExtensions : Finset String
  manageAia : Bool
  manageCrldp : Bool
  noOverrideSubject : Bool
  allowCa : Bool
  maxPathLen : Int
  undecided : Finset String
  deriving DecidableEq

/-- The struct's own initial values. -/
def CertProfile.init : CertProfile where
  name := ""
  allowedKu := ∅
  allowedEku := ∅
  defaultKu := []
  defaultEku := []
  allowWildcard := false
  deviceSerialSan := false
  allowedSanTypes := {"dns","ip","email"}
  maxValidityDays := 0
  validityDays := 0
  csrAttrs := []
  customExtensions := []
  allowedCustomExtensions := ∅
  manageAia := false
  manageCrldp := false
  noOverrideSubject := false
  allowCa := false
  maxPathLen := -1
  undecided := ∅

/-- The separator is left out while nothing has been written yet. -/
def join (sep : String) (v : List String) : String :=
  v.foldl (fun out s => if out = "" then s else out++sep++s) ""

/-- A cap of `none_` means no cap, and no cap is the widest. -/
def widest (first : Int) (none_ : Int) (caps : List Int) : Int :=
  caps.foldl (fun w c => if c = none_ ∨ w = none_ then none_ else max w c) first

/-- A default on which the members agree, else the one of the primary member, else undecided. -/
def decideDefault {α : Type} (same : α → α → Bool) (get : CertProfile → α)
    (first : CertProfile) (members : List CertProfile) (primary : Option CertProfile) : Option α :=
  if members.all fun p => same (get p) (get first) then some (get first) else primary.map get

/-- Allowances are united, caps widened and defaults agreed on. `members` starts with `first`. -/
def mergeProfiles (first : CertProfile) (rest : List CertProfile) (primary : Option CertProfile) :
    CertProfile :=
  let members := first::rest
  let ku := decideDefault List.isPerm (·.defaultKu) first members primary
  let eku := decideDefault List.isPerm (·.defaultEku) first members primary
  let validity := decideDefault (fun a b => decide (a = b)) (·.validityDays) first members primary
  let exts := decideDefault (fun a b => decide (a = b)) (·.customExtensions) first members primary
  { name := join "+" (members.map (·.name))
    allowedKu := members.foldl (fun s p => s ∪ p.allowedKu) ∅
    allowedEku := members.foldl (fun s p => s ∪ p.allowedEku) ∅
    defaultKu := ku.getD []
    defaultEku := eku.getD []
    allowWildcard := members.any (·.allowWildcard)
    deviceSerialSan := members.any (·.deviceSerialSan)
    allowedSanTypes := members.foldl (fun s p => s ∪ p.allowedSanTypes) ∅
    maxValidityDays := widest first.maxValidityDays 0 (members.map (·.maxValidityDays))
    validityDays := validity.getD 0
    csrAttrs := (decideDefault (fun a b => decide (a = b)) (·.csrAttrs) first members primary).getD []
    customExtensions := exts.getD []
    allowedCustomExtensions := members.foldl (fun s p => s ∪ p.allowedCustomExtensions) ∅
    manageAia := members.any (·.manageAia)
    manageCrldp := members.any (·.manageCrldp)
    noOverrideSubject := members.any (·.noOverrideSubject)
    allowCa := members.any (·.allowCa)
    maxPathLen := widest first.maxPathLen (-1) (members.map (·.maxPathLen))
    undecided := (if ku.isSome then ∅ else {"default key usage"}) ∪
      (if eku.isSome then ∅ else {"default extended key usage"}) ∪
      (if validity.isSome then ∅ else {"validity"}) ∪
      (if exts.isSome then ∅ else {"stamped custom extensions"}) }

structure ProfileIdentity where
  username : String
  role : String
  groups : List String

/-- `cfg.cert_profiles` of this node, and the names the database lists now. -/
structure ProfileStore where
  certProfiles : List (String × CertProfile)
  catalogue : List String

/-- The issuance union: only `profile:use` counts, and a star stands for every name listed. -/
def profilesForIdentity (db : RbacDb) (store : ProfileStore) (id : ProfileIdentity) :
    List String :=
  if id.username = "" ∧ id.role = "" then []
  else
    let uses := (subjectGrants db (subjectRoles db id.username id.role id.groups)).filter
      (·.permission = "profile:use")
    let named := (uses.filter (·.scope ≠ "*")).map (·.scope)
    let all := if uses.any (·.scope = "*") then named ++ store.catalogue else named
    all.dedup.insertionSort (· ≤ ·)

structure EffectiveProfile where
  name : String
  profile : CertProfile

def definedProfile (store : ProfileStore) (n : String) : Except Error CertProfile :=
  match store.certProfiles.lookup n with
  | none => .error ⟨1,"policy: profile '"++n++"' is granted but not defined on this node"⟩
  | some p => .ok p

def resolveProfile (db : RbacDb) (store : ProfileStore) (id : ProfileIdentity)
    (requested : String) : Except Error EffectiveProfile :=
  match profilesForIdentity db store id with
  | [] => .error ⟨1,"policy: this identity holds no profile permission, so no "++
      "certificate profile applies. Grant one of its roles profile:use on the profile it "++
      "should use."⟩
  | first::rest =>
    if requested ≠ "" then
      if requested ∈ first::rest then
        (definedProfile store requested).map (⟨requested,·⟩)
      else .error ⟨1,"policy: profile '"++requested++"' is not permitted for this identity"⟩
    else if rest = [] then (definedProfile store first).map (⟨first,·⟩)
    else do
      let primary := if id.role = "" ∧ id.username ≠ "" then
        ((getWebUser db id.username).map (·.role)).getD "" else id.role
      let p ← definedProfile store first
      let ps ← rest.mapM (definedProfile store)
      let prim := ((first::rest).zip (p::ps)).lookup primary
      let merged := mergeProfiles p ps prim
      return ⟨merged.name,merged⟩

end Profile

end FastPki
