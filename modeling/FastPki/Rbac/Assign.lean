import FastPki.Rbac.RevokeRoute
import FastPki.Rbac.Subject
import Mathlib.Data.Set.Finite.Basic

namespace FastPki.Rbac

/-- `have_` covers `want`: the permission is the same or starred, and the scope the same or a
star. The match is literal, without the order of the verbs. -/
def covers (have_ want : RoleGrant) : Bool :=
  (have_.permission = want.permission ∨ have_.permission = "*:*") ∧
    grantInScope have_.scope want.scope

/-- `openMode` is the console without a token and without users. -/
def mayAssignRole (table : List RoleGrant) (openMode : Bool) (mine : List String)
    (role : String) : Bool :=
  openMode ∨ ∀ want∈listRoleGrants table role,
    ∃ r∈mine,∃ have_∈listRoleGrants table r,covers have_ want

/-- `holds_estate_cap` for a set of roles. -/
def estateCap (table : List RoleGrant) (roles : List String) (cap : String) : Bool :=
  ∃ r∈roles,∃ g∈listRoleGrants table r,
    g.permission = "*:*" ∨ (permissionImplies g.permission cap ∧ g.scope ≠ "own")

theorem holdsEstateCap_eq (con : Console) (c : Caller) (cap : String) :
    holdsEstateCap con c cap=estateCap con.rolePermissions (rolesOf c) cap := rfl

/-- What a console route asks for: any of these permissions, on an object of this CA and of this
owner. -/
structure Action where
  need : List String
  inst : String
  owner : String
  deriving DecidableEq

/-- The three gates: the permission names, the CA confinement, and for a caller without an
estate-wide grant of the permission the ownership of the object. -/
def allowed (table : List RoleGrant) (roles : List String) (user : String) (a : Action) : Bool :=
  capsAllow (permissionsForRoles table roles) a.need ∧
    inScope (caScopeForRoles table roles) a.inst ∧
    (a.need = [] ∨ a.owner = user ∨ ∃ cap∈a.need,estateCap table roles cap)

theorem covers_iff {have_ want : RoleGrant} : covers have_ want=true ↔
    (have_.permission=want.permission ∨ have_.permission="*:*") ∧
      (have_.scope="*" ∨ have_.scope=want.scope) := by
  simp [covers,grantInScope]

theorem mayAssignRole_iff {table : List RoleGrant} {mine : List String} {role : String} :
    mayAssignRole table false mine role=true ↔ ∀ want∈grantsOf table [role],
      ∃ have_∈grantsOf table mine,covers have_ want=true := by
  have hone : listRoleGrants table role=grantsOf table [role] := by
    simp [listRoleGrants,grantsOf]
  simp only [mayAssignRole,decide_eq_true_eq,Bool.false_eq_true,false_or,hone,
    exists_mem_listRoleGrants_iff]

theorem estateCap_iff {table : List RoleGrant} {roles : List String} {cap : String} :
    estateCap table roles cap=true ↔ ∃ g∈grantsOf table roles,
      g.permission="*:*" ∨ (permissionImplies g.permission cap=true ∧ g.scope≠"own") := by
  rw [estateCap,decide_eq_true_eq,exists_mem_listRoleGrants_iff]

theorem capsAllow_permissions_iff {table : List RoleGrant} {roles need : List String} :
    capsAllow (permissionsForRoles table roles) need=true ↔ need=[] ∨
      ∃ n∈need,∃ g∈grantsOf table roles,permissionImplies g.permission n=true := by
  simp only [capsAllow,decide_eq_true_eq,mem_permissionsForRoles]
  constructor
  · intro h
    obtain hnil|⟨g,hg,hstar⟩|⟨n,hn,⟨g,hg,hgn⟩|⟨p,⟨g,hg,rfl⟩,hp⟩⟩ := h
    · exact Or.inl hnil
    · cases need with
      | nil => exact Or.inl rfl
      | cons n ns =>
        refine Or.inr ⟨n,by simp,g,hg,?_⟩
        rw [hstar]
        exact permissionImplies_star n
    · refine Or.inr ⟨n,hn,g,hg,?_⟩
      rw [hgn]
      exact permissionImplies_self n
    · exact Or.inr ⟨n,hn,g,hg,hp⟩
  · intro h
    obtain hnil|⟨n,hn,g,hg,hp⟩ := h
    · exact Or.inl hnil
    · exact Or.inr (Or.inr ⟨n,hn,Or.inr ⟨g.permission,⟨g,hg,rfl⟩,hp⟩⟩)

theorem covers_implies {have_ want : RoleGrant} (h : covers have_ want=true) {cap : String}
    (hcap : permissionImplies want.permission cap=true) :
    permissionImplies have_.permission cap=true := by
  obtain heq|hstar := (covers_iff.mp h).1
  · rwa [heq]
  · rw [hstar]
    exact permissionImplies_star cap

/-- A grant that covers one that names CAs names CAs itself. -/
theorem covers_namesCas {have_ want : RoleGrant} (h : covers have_ want=true)
    (hn : NamesCas want) : NamesCas have_ := by
  obtain ⟨hperm,hscope⟩ := covers_iff.mp h
  constructor
  · obtain heq|hstar := hperm
    · rw [heq]
      exact hn.1
    · rw [hstar]
      decide
  · obtain hs|hs := hscope
    · simp [hs]
    · rw [hs]
      exact hn.2

section Escalation

variable {table : List RoleGrant} {mine : List String} {role : String}

theorem capsAllow_of_assign (hmay : mayAssignRole table false mine role=true) {need : List String}
    (h : capsAllow (permissionsForRoles table [role]) need=true) :
    capsAllow (permissionsForRoles table mine) need=true := by
  rw [capsAllow_permissions_iff] at h ⊢
  obtain hnil|⟨n,hn,g,hg,hp⟩ := h
  · exact Or.inl hnil
  · obtain ⟨g',hg',hc⟩ := mayAssignRole_iff.mp hmay g hg
    exact Or.inr ⟨n,hn,g',hg',covers_implies hc hp⟩

theorem estateCap_of_assign (hmay : mayAssignRole table false mine role=true) {cap : String}
    (h : estateCap table [role] cap=true) : estateCap table mine cap=true := by
  rw [estateCap_iff] at h ⊢
  obtain ⟨g,hg,hor⟩ := h
  obtain ⟨g',hg',hc⟩ := mayAssignRole_iff.mp hmay g hg
  obtain ⟨heq|hstar',hscope⟩ := covers_iff.mp hc
  · refine ⟨g',hg',?_⟩
    obtain hstar|⟨himp,hown⟩ := hor
    · exact Or.inl (heq.trans hstar)
    · right
      refine ⟨covers_implies hc himp,?_⟩
      obtain hs|hs := hscope
      · simp [hs]
      · rwa [hs]
  · exact ⟨g',hg',Or.inl hstar'⟩

/-- A role that names CAs reaches no CA that its assigner does not reach. -/
theorem inScope_of_assign (hmay : mayAssignRole table false mine role=true) (hmine : mine≠[])
    {g : RoleGrant} (hg : g∈grantsOf table [role]) (hn : NamesCas g) {inst : String}
    (h : inScope (caScopeForRoles table [role]) inst=true) :
    inScope (caScopeForRoles table mine) inst=true := by
  rw [inScope_caScopeForRoles_iff (by simp)] at h
  rw [inScope_caScopeForRoles_iff hmine]
  obtain ⟨w,hw,hwn,hws⟩|hnone := h
  · obtain ⟨w',hw',hc⟩ := mayAssignRole_iff.mp hmay w hw
    refine Or.inl ⟨w',hw',covers_namesCas hc hwn,?_⟩
    obtain hs|hs := (covers_iff.mp hc).2
    · exact Or.inl hs
    · rwa [hs]
  · exact absurd hn (hnone g hg)

/-- A role none of whose grants names a CA is confined to none. -/
theorem inScope_of_no_ca (hno : ∀ g∈grantsOf table [role],¬NamesCas g) (inst : String) :
    inScope (caScopeForRoles table [role]) inst=true :=
  (inScope_caScopeForRoles_iff (by simp) inst).mpr (Or.inr hno)

theorem exists_not_inScope (ids : List String) : ∃ inst,inScope (some ids) inst=false := by
  have hinf : Infinite String :=
    Infinite.of_injective (fun n => String.ofList (List.replicate n 'x')) fun a b h => by
      simpa using congrArg String.length h
  obtain ⟨inst,hinst⟩ := Infinite.exists_notMem_finset ids.toFinset
  exact ⟨inst,by simpa [inScope] using hinst⟩

/-- What a user with the assigned role may do, the assigner may do, exactly when the role names a
CA or the assigner is not confined to CAs. -/
theorem assigned_role_within_assigner_iff (table : List RoleGrant) (mine : List String)
    (role : String) (hmay : mayAssignRole table false mine role=true) :
    (∀ (user caller : String) (a : Action),(a.owner=user → a.owner=caller) →
      allowed table [role] user a=true → allowed table mine caller a=true) ↔
    (∃ g∈listRoleGrants table role,NamesCas g) ∨ caScopeForRoles table mine=none := by
  have hone : listRoleGrants table role=grantsOf table [role] := by
    simp [listRoleGrants,grantsOf]
  rw [hone]
  constructor
  · intro h
    by_contra hno
    rw [not_or] at hno
    obtain ⟨hca,hconf⟩ := hno
    have hfree := inScope_of_no_ca fun g hg hn => hca ⟨g,hg,hn⟩
    obtain ⟨ids,hids⟩ := Option.ne_none_iff_exists'.mp hconf
    obtain ⟨inst,hinst⟩ := exists_not_inScope ids
    have hall := h "" "" ⟨[],inst,""⟩ (fun _ => rfl) (by simp [allowed,capsAllow,hfree inst])
    simp [allowed,hids,hinst] at hall
  · intro h user caller a howner hallow
    simp only [allowed,decide_eq_true_eq] at hallow ⊢
    obtain ⟨hcaps,hscope,hown⟩ := hallow
    refine ⟨capsAllow_of_assign hmay hcaps,?_,?_⟩
    · obtain ⟨g,hg,hn⟩|hconf := h
      · have hmine : mine≠[] := by
          intro hnil
          obtain ⟨g',hg',_⟩ := mayAssignRole_iff.mp hmay g hg
          simp [hnil,grantsOf] at hg'
        exact inScope_of_assign hmay hmine hg hn hscope
      · rw [hconf]
        rfl
    · obtain hnil|hu|⟨cap,hcap,he⟩ := hown
      · exact Or.inl hnil
      · exact Or.inr (Or.inl (howner hu))
      · exact Or.inr (Or.inr ⟨cap,hcap,estateCap_of_assign hmay he⟩)

end Escalation

/-- A helpdesk confined to one CA, and a role that only reads the audit trail. -/
def helpdeskGrants : List RoleGrant :=
  [⟨"helpdesk","user:manage","*"⟩,⟨"helpdesk","audit:read","*"⟩,⟨"helpdesk","cert:read","ca-a"⟩,
    ⟨"reader","audit:read","*"⟩,⟨"reader-a","audit:read","*"⟩,⟨"reader-a","cert:read","ca-a"⟩]

theorem assigned_role_within_assigner_reader_a :
    mayAssignRole helpdeskGrants false ["helpdesk"] "reader-a"=true ∧
    ∀ (user caller : String) (a : Action),(a.owner=user → a.owner=caller) →
      allowed helpdeskGrants ["reader-a"] user a=true →
      allowed helpdeskGrants ["helpdesk"] caller a=true :=
  ⟨by decide,
    (assigned_role_within_assigner_iff helpdeskGrants ["helpdesk"] "reader-a" (by decide)).mpr
      (Or.inl ⟨⟨"reader-a","cert:read","ca-a"⟩,by decide,by decide,by decide⟩)⟩

/-- The helpdesk may hand out a role that reads the audit trail of every CA, and may itself read
only that of its own. -/
theorem assigned_role_exceeds_assigner :
    mayAssignRole helpdeskGrants false ["helpdesk"] "reader"=true ∧
    allowed helpdeskGrants ["reader"] "bob" ⟨["audit:read"],"ca-b",""⟩=true ∧
    allowed helpdeskGrants ["helpdesk"] "alice" ⟨["audit:read"],"ca-b",""⟩=false := by
  decide

end FastPki.Rbac
