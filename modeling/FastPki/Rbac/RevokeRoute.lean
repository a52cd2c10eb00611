import FastPki.Rbac.Grants

namespace FastPki.Rbac

/-- An authenticated request of the console: who acts, the role of the session (empty when there
is no session), the roles mapped to the user or the groups, and whether a reset is pending.
`user_of` falls back to "anonymous", so the acting user is never empty. -/
structure Caller where
  user : String
  role : String
  extraRoles : List String
  mustReset : Bool
  user_ne : user≠""

def rolesOf (c : Caller) : List String :=
  if c.role = "" then c.extraRoles else c.role::c.extraRoles

/-- Open mode is a console with neither a token nor a user, on which the gate stands open. -/
structure Console where
  webAllowRevoke : Bool
  openMode : Bool
  rolePermissions : List RoleGrant

/-- The part of a `certs` row that decides who may revoke it. -/
structure CertRow where
  serial : String
  owner : String
  caInstanceId : String
  isCa : Bool
  caId : String
  deriving DecidableEq

def hasPrefix (path x : String) : Bool := x.toList.isPrefixOf path.toList

def hasSuffix (path x : String) : Bool := x.toList.isSuffixOf path.toList

/-- The inventory block of `required_caps`, for a path under `/api/certs/`. -/
def requiredCertCaps (path : String) : List String :=
  if path.length>12 ∧ hasSuffix path "/revoke" then ["cert:revoke"]
  else if path.length>13 ∧ hasSuffix path "/release" then ["cert:revoke"]
  else if hasPrefix path "/api/certs/request-hsm" then ["hsm:manage"]
  else if hasPrefix path "/api/certs/request" then ["cert:request"]
  else ["cert:read"]

inductive Gate where
  | openMode | unauthorized | passwordReset | forbidden | passed
  deriving DecidableEq

/-- The gate reads permission names only; scopes are left to the handler. -/
def preRouting (con : Console) (c : Caller) (path : String) : Gate :=
  if con.openMode then .openMode
  else if c.role = "" then .unauthorized
  else if c.mustReset then .passwordReset
  else if capsAllow (permissionsForRoles con.rolePermissions (rolesOf c)) (requiredCertCaps path)
    then .passed
  else .forbidden

/-- A starred permission counts whatever its scope; any other one unless it is scoped `own`. -/
def holdsEstateCap (con : Console) (c : Caller) (cap : String) : Bool :=
  ∃ r∈rolesOf c,∃ g∈listRoleGrants con.rolePermissions r,
    g.permission = "*:*" ∨ (permissionImplies g.permission cap ∧ g.scope ≠ "own")

/-- A caller without any role (open mode) is not confined. -/
def scopeOf (con : Console) (c : Caller) : Option (List String) :=
  if rolesOf c = [] then none else caScopeForRoles con.rolePermissions (rolesOf c)

/-- Whose rows alone the caller may revoke; empty for a caller who revokes for others. -/
def selfOwner (con : Console) (c : Caller) : String :=
  if holdsEstateCap con c "cert:revoke" then "" else c.user

def mayRevoke (con : Console) (c : Caller) (row : CertRow) : Bool :=
  inScope (scopeOf con c) row.caInstanceId ∧ (selfOwner con c = "" ∨ row.owner = selfOwner con c)

inductive RevokeAnswer where
  | disabled
  | noSuchSerial
  | needsRevoke
  | admitted (targets : List CertRow)
  deriving DecidableEq

/-- `POST /api/certs/{serial}/revoke` up to its first write. Every further generation of a CA is
authorized on its own. -/
def revokeRoute (con : Console) (generations : String → List CertRow) (c : Caller)
    (row : Option CertRow) : RevokeAnswer :=
  if !con.webAllowRevoke then .disabled
  else match row with
    | none => .noSuchSerial
    | some row =>
      if mayRevoke con c row then
        .admitted (row::if row.isCa ∧ row.caId ≠ "" then
          (generations row.caId).filter fun g => g.serial ≠ row.serial ∧ mayRevoke con c g
        else [])
      else if inScope (scopeOf con c) row.caInstanceId ∧ holdsEstateCap con c "cert:read"
        then .needsRevoke
      else .noSuchSerial

/-- The path of the route for one serial. -/
def revokePath (serial : String) : String := "/api/certs/"++serial++"/revoke"

theorem requiredCertCaps_revokePath (serial : String) :
    requiredCertCaps (revokePath serial)=["cert:revoke"] := by
  have hlen : (revokePath serial).length>12 := by
    simp only [revokePath,String.length_append]
    have h1 : "/api/certs/".length=11 := rfl
    have h2 : "/revoke".length=7 := rfl
    omega
  have hsuf : hasSuffix (revokePath serial) "/revoke"=true := by
    simp only [hasSuffix,revokePath,String.toList_append,List.isSuffixOf_iff_suffix]
    exact List.suffix_append _ _
  simp only [requiredCertCaps,hlen,hsuf,and_self,if_true]

theorem preRouting_passed {con : Console} {c : Caller} {serial : String}
    (h : preRouting con c (revokePath serial)=.passed) :
    rolesOf c≠[] ∧ ∃ g∈grantsOf con.rolePermissions (rolesOf c),
      permissionImplies g.permission "cert:revoke"=true := by
  simp only [preRouting] at h
  split_ifs at h with h1 h2 h3 h4
  rw [requiredCertCaps_revokePath,capsAllow_iff] at h4
  exact ⟨by simp [rolesOf,h2],h4⟩

theorem holdsEstateCap_iff {con : Console} {c : Caller} {cap : String} :
    holdsEstateCap con c cap=true ↔ ∃ g∈grantsOf con.rolePermissions (rolesOf c),
      g.permission="*:*" ∨ (permissionImplies g.permission cap=true ∧ g.scope≠"own") := by
  rw [holdsEstateCap,decide_eq_true_eq,exists_mem_listRoleGrants_iff]

/-- The caller's grants cover the verb on this row: by a scope wider than `own`, by the starred
permission, or by owning the row. -/
def CoversVerb (gs : List RoleGrant) (user : String) (row : CertRow) : Prop :=
  ∃ g∈gs,permissionImplies g.permission "cert:revoke"=true ∧
    (g.scope≠"own" ∨ g.permission="*:*" ∨ row.owner=user)

/-- The caller's grants cover the CA of this row, unless none of them names a CA. -/
def CoversCa (gs : List RoleGrant) (row : CertRow) : Prop :=
  (∃ g∈gs,NamesCas g ∧ (g.scope="*" ∨ g.scope=row.caInstanceId)) ∨ ∀ g∈gs,¬NamesCas g

/-- Past the gate, the handler asks for the verb and for the CA separately, so that two grants
may each answer for one of them. -/
theorem mayRevoke_iff {con : Console} {c : Caller} {serial : String}
    (hgate : preRouting con c (revokePath serial)=.passed) (row : CertRow) :
    mayRevoke con c row=true ↔
      CoversVerb (grantsOf con.rolePermissions (rolesOf c)) c.user row ∧
      CoversCa (grantsOf con.rolePermissions (rolesOf c)) row := by
  obtain ⟨hroles,hheld⟩ := preRouting_passed hgate
  have hscope : inScope (scopeOf con c) row.caInstanceId=true ↔
      CoversCa (grantsOf con.rolePermissions (rolesOf c)) row := by
    rw [scopeOf,if_neg hroles]
    exact inScope_caScopeForRoles_iff hroles row.caInstanceId
  have howner : (selfOwner con c="" ∨ row.owner=selfOwner con c) ↔
      CoversVerb (grantsOf con.rolePermissions (rolesOf c)) c.user row := by
    simp only [selfOwner]
    split_ifs with he
    · obtain ⟨g,hg,hstar|⟨himp,hown⟩⟩ := holdsEstateCap_iff.mp he
      · refine iff_of_true (Or.inl rfl) ⟨g,hg,?_,Or.inr (Or.inl hstar)⟩
        rw [hstar]
        exact permissionImplies_star _
      · exact iff_of_true (Or.inl rfl) ⟨g,hg,himp,Or.inl hown⟩
    · constructor
      · intro hcover
        obtain hu|hu := hcover
        · exact absurd hu c.user_ne
        · obtain ⟨g,hg,himp⟩ := hheld
          exact ⟨g,hg,himp,Or.inr (Or.inr hu)⟩
      · intro hcover
        obtain ⟨g,hg,himp,hown|hstar|hu⟩ := hcover
        · exact absurd (holdsEstateCap_iff.mpr ⟨g,hg,Or.inr ⟨himp,hown⟩⟩) he
        · exact absurd (holdsEstateCap_iff.mpr ⟨g,hg,Or.inl hstar⟩) he
        · exact Or.inr hu
  rw [mayRevoke,decide_eq_true_eq,hscope,howner,and_comm]

/-- Every certificate a request to the route may revoke, the one addressed and the further
generations of a CA, is covered by the caller's grants in its verb and in its CA. -/
theorem revokeRoute_covered (con : Console) (generations : String → List CertRow) (c : Caller)
    (serial : String) (row : CertRow) (targets : List CertRow)
    (hgate : preRouting con c (revokePath serial)=.passed)
    (hroute : revokeRoute con generations c (some row)=.admitted targets) :
    row∈targets ∧ ∀ r∈targets,
      CoversVerb (grantsOf con.rolePermissions (rolesOf c)) c.user r ∧
      CoversCa (grantsOf con.rolePermissions (rolesOf c)) r := by
  unfold revokeRoute at hroute
  dsimp only at hroute
  split_ifs at hroute with hoff hmay hread hca
  all_goals obtain rfl := RevokeAnswer.admitted.inj hroute
  · refine ⟨List.mem_cons_self ..,fun r hr => ?_⟩
    obtain rfl|hr := List.mem_cons.mp hr
    · exact (mayRevoke_iff hgate r).mp hmay
    · have hg := (List.mem_filter.mp hr).2
      rw [decide_eq_true_eq] at hg
      exact (mayRevoke_iff hgate r).mp hg.2
  · refine ⟨List.mem_cons_self ..,fun r hr => ?_⟩
    obtain rfl := List.mem_singleton.mp hr
    exact (mayRevoke_iff hgate r).mp hmay

/-- An operator who may revoke on one CA and enrol over EST on every CA. -/
def enrollingConsole : Console :=
  ⟨true,false,[⟨"op","cert:revoke","ca-a"⟩,⟨"op","est:enrol","*"⟩]⟩

def operator : Caller := ⟨"alice","op",[],false,by decide⟩

def foreignRow : CertRow := ⟨"1f","bob","ca-b",false,""⟩

theorem revokeRoute_covered_foreign :
    foreignRow∈[foreignRow] ∧ ∀ r∈[foreignRow],
      CoversVerb (grantsOf enrollingConsole.rolePermissions (rolesOf operator)) "alice" r ∧
      CoversCa (grantsOf enrollingConsole.rolePermissions (rolesOf operator)) r :=
  revokeRoute_covered enrollingConsole (fun _ => []) operator "1f" foreignRow [foreignRow]
    (by decide) (by decide)

/-- The enrolment grant widens the CA scope of the revocation grant: the operator revokes on a
CA on which no grant of theirs lets them revoke. -/
theorem revoke_admitted_without_covering_grant :
    preRouting enrollingConsole operator (revokePath "1f")=.passed ∧
    revokeRoute enrollingConsole (fun _ => []) operator (some foreignRow)=
      .admitted [foreignRow] ∧
    ¬∃ g∈grantsOf enrollingConsole.rolePermissions (rolesOf operator),
      permissionImplies g.permission "cert:revoke"=true ∧
      (g.scope="*" ∨ g.scope=foreignRow.caInstanceId ∨
        (g.scope="own" ∧ foreignRow.owner=operator.user)) := by
  decide

end FastPki.Rbac
