import FastPki.Framework.Table
import Mathlib.Data.List.Dedup
import Mathlib.Tactic.Common

namespace FastPki.Rbac

/-- A row of `role_permissions`. A permission is spelled `resource:verb`. -/
structure RoleGrant where
  role : String
  permission : String
  scope : String
  deriving DecidableEq

def permissionResource (permission : String) : String :=
  String.ofList (permission.toList.takeWhile (· ≠ ':'))

/-- What follows the first colon; empty when there is none. -/
def permissionVerb (permission : String) : String :=
  String.ofList ((permission.toList.dropWhile (· ≠ ':')).drop 1)

/-- What kind of name the scope column of a grant holds. -/
inductive ScopeKind where
  | none | ca | profile | template
  deriving DecidableEq

/-- The resource decides, never the verb. -/
def scopeKind (permission : String) : ScopeKind :=
  let r := permissionResource permission
  if r = "profile" then .profile
  else if r = "template" then .template
  else if r ∈ ["ca","cert","est","acme","cmp","ms","scep"] then .ca
  else if r = "*" then .ca
  else .none

/-- Only `ca` and `hsm` order their verbs. -/
def permissionImplies (held wanted : String) : Bool :=
  if held = wanted ∨ held = "*:*" then true
  else if permissionResource held ≠ permissionResource wanted then false
  else (permissionResource held = "ca" ∨ permissionResource held = "hsm") ∧
    permissionVerb held = "manage" ∧ permissionVerb wanted = "read"

/-- An empty scope is written as the star. -/
def starred (g : RoleGrant) : RoleGrant := { g with scope := if g.scope = "" then "*" else g.scope }

def insertGrant (table : List RoleGrant) (g : RoleGrant) : List RoleGrant :=
  insertNew id (starred g) table

def setRoleGrants (role : String) (grants : List RoleGrant) (table : List RoleGrant) : List RoleGrant :=
  grants.foldl insertGrant (table.filter (·.role ≠ role))

/-- `WHERE role = ANY(roles)`. -/
def grantsOf (table : List RoleGrant) (roles : List String) : List RoleGrant :=
  table.filter (·.role ∈ roles)

def listRoleGrants (table : List RoleGrant) (role : String) : List RoleGrant :=
  table.filter (·.role = role)

theorem mem_insertGrant {table : List RoleGrant} {g x : RoleGrant} :
    x∈insertGrant table g ↔ x∈table ∨ starred g=x := by
  rw [insertGrant,mem_insertNew]
  constructor
  · intro h
    obtain hx|⟨rfl,_⟩ := h
    · exact Or.inl hx
    · exact Or.inr rfl
  · intro h
    obtain hx|rfl := h
    · exact Or.inl hx
    · by_cases hknown : starred g∈table
      · exact Or.inl hknown
      · refine Or.inr ⟨rfl,fun y hy heq => hknown ?_⟩
        rw [← id_eq (starred g),← heq]
        exact hy

/-- The grants of the role are those given, and the others as before. -/
theorem mem_setRoleGrants {role : String} {grants table : List RoleGrant} {x : RoleGrant} :
    x∈setRoleGrants role grants table ↔ (x∈table ∧ x.role≠role) ∨ ∃ g∈grants,starred g=x := by
  have hfold : ∀ t : List RoleGrant,x∈grants.foldl insertGrant t ↔ x∈t ∨ ∃ g∈grants,starred g=x := by
    induction grants with
    | nil => simp
    | cons g grants ih =>
      intro t
      rw [List.foldl_cons,ih,mem_insertGrant]
      simp [or_assoc]
  rw [setRoleGrants,hfold,List.mem_filter,decide_eq_true_eq]

/-- The names alone: `SELECT DISTINCT permission` drops the scope. -/
def permissionsForRoles (table : List RoleGrant) (roles : List String) : List String :=
  ((grantsOf table roles).map (·.permission)).dedup

/-- The loop of `ca_scope_for_roles`; `none` is its early return on a star. -/
def caScopeScan : List RoleGrant → Option (List String)
  | [] => some []
  | g::gs =>
    if scopeKind g.permission ≠ .ca then caScopeScan gs
    else if g.scope = "own" then caScopeScan gs
    else if g.scope = "*" then none
    else (caScopeScan gs).map (g.scope::·)

/-- `none` is unconfined. A caller whose grants name no CA is not confined by them. -/
def caScopeForRoles (table : List RoleGrant) (roles : List String) : Option (List String) :=
  if roles = [] then some []
  else match caScopeScan (grantsOf table roles) with
    | none => none
    | some [] => none
    | some ids => some ids.dedup

def inScope (scope : Option (List String)) (inst : String) : Bool :=
  match scope with
  | none => true
  | some ids => inst ∈ ids

/-- The caller holds any one of the wanted verbs, by name. -/
def capsAllow (held need : List String) : Bool :=
  need = [] ∨ "*:*" ∈ held ∨ ∃ n∈need,n ∈ held ∨ ∃ h∈held,permissionImplies h n

/-- A grant as `ca_scope_for_roles` reads it: it names CAs, and not just the caller's own rows. -/
def NamesCas (g : RoleGrant) : Prop := scopeKind g.permission=.ca ∧ g.scope≠"own"

theorem mem_permissionsForRoles {table : List RoleGrant} {roles : List String} {p : String} :
    p∈permissionsForRoles table roles ↔ ∃ g∈grantsOf table roles,g.permission=p := by
  simp [permissionsForRoles]

theorem exists_mem_listRoleGrants_iff {table : List RoleGrant} {roles : List String}
    {P : RoleGrant → Prop} :
    (∃ r∈roles,∃ g∈listRoleGrants table r,P g) ↔ ∃ g∈grantsOf table roles,P g := by
  constructor
  · intro hex
    obtain ⟨r,hr,g,hg,hp⟩ := hex
    simp only [listRoleGrants,List.mem_filter,decide_eq_true_eq] at hg
    exact ⟨g,by simp [grantsOf,hg.1,hg.2,hr],hp⟩
  · intro hex
    obtain ⟨g,hg,hp⟩ := hex
    simp only [grantsOf,List.mem_filter,decide_eq_true_eq] at hg
    exact ⟨g.role,hg.2,g,by simp [listRoleGrants,hg.1],hp⟩

theorem permissionImplies_self (p : String) : permissionImplies p p=true := by
  simp [permissionImplies]

theorem permissionImplies_star (p : String) : permissionImplies "*:*" p=true := by
  simp [permissionImplies]

/-- The gate on names passes exactly when one grant, whatever its scope, implies the verb. -/
theorem capsAllow_iff {table : List RoleGrant} {roles : List String} {verb : String} :
    capsAllow (permissionsForRoles table roles) [verb]=true ↔
      ∃ g∈grantsOf table roles,permissionImplies g.permission verb=true := by
  simp only [capsAllow,decide_eq_true_eq,List.cons_ne_nil,false_or,List.mem_singleton,
    exists_eq_left,mem_permissionsForRoles]
  constructor
  · intro hex
    obtain ⟨g,hg,hp⟩|⟨g,hg,hp⟩|⟨p,⟨g,hg,rfl⟩,hp⟩ := hex
    · exact ⟨g,hg,hp ▸ permissionImplies_star verb⟩
    · exact ⟨g,hg,hp ▸ permissionImplies_self verb⟩
    · exact ⟨g,hg,hp⟩
  · intro hex
    obtain ⟨g,hg,hp⟩ := hex
    exact Or.inr (Or.inr ⟨g.permission,⟨g,hg,rfl⟩,hp⟩)

theorem caScopeScan_eq_none_iff {gs : List RoleGrant} :
    caScopeScan gs=none ↔ ∃ g∈gs,NamesCas g ∧ g.scope="*" := by
  induction gs with
  | nil => simp [caScopeScan]
  | cons g gs ih =>
    rw [caScopeScan,List.exists_mem_cons_iff]
    split_ifs with hk ho hs
    · rw [ih]; simp [NamesCas,hk]
    · rw [ih]; simp [NamesCas,ho]
    · simp [NamesCas,not_not.mp hk,hs]
    · rw [Option.map_eq_none_iff,ih]; simp [hs]

theorem mem_of_caScopeScan {gs : List RoleGrant} {ids : List String} (h : caScopeScan gs=some ids)
    (id : String) : id∈ids ↔ ∃ g∈gs,NamesCas g ∧ g.scope=id := by
  induction gs generalizing ids with
  | nil => obtain rfl : []=ids := by simpa [caScopeScan] using h
           simp
  | cons g gs ih =>
    rw [caScopeScan] at h
    rw [List.exists_mem_cons_iff]
    split_ifs at h with hk ho hs
    · rw [ih h]; simp [NamesCas,hk]
    · rw [ih h]; simp [NamesCas,ho]
    · obtain ⟨ids',hscan,rfl⟩ := Option.map_eq_some_iff.mp h
      rw [List.mem_cons,ih hscan,eq_comm]
      simp [NamesCas,not_not.mp hk,ho]

/-- Three ways to be in scope: a starred CA grant, a grant on that very CA, or no grant at all
that names a CA. -/
theorem inScope_caScopeForRoles_iff {table : List RoleGrant} {roles : List String}
    (hroles : roles≠[]) (inst : String) :
    inScope (caScopeForRoles table roles) inst=true ↔
      (∃ g∈grantsOf table roles,NamesCas g ∧ (g.scope="*" ∨ g.scope=inst)) ∨
      ∀ g∈grantsOf table roles,¬NamesCas g := by
  rw [caScopeForRoles,if_neg hroles]
  cases hscan : caScopeScan (grantsOf table roles) with
  | none =>
    obtain ⟨g,hg,hn,hs⟩ := caScopeScan_eq_none_iff.mp hscan
    exact iff_of_true rfl (Or.inl ⟨g,hg,hn,Or.inl hs⟩)
  | some ids =>
    have hmem := mem_of_caScopeScan hscan
    have hstar : ¬∃ g∈grantsOf table roles,NamesCas g ∧ g.scope="*" := by
      rw [← caScopeScan_eq_none_iff,hscan]
      simp
    cases ids with
    | nil =>
      refine iff_of_true rfl (Or.inr fun g hg hn => ?_)
      exact List.not_mem_nil ((hmem g.scope).mpr ⟨g,hg,hn,rfl⟩)
    | cons id ids =>
      obtain ⟨g0,hg0,hn0,_⟩ := (hmem id).mp (List.mem_cons_self ..)
      simp only [inScope,List.mem_dedup,decide_eq_true_eq]
      rw [hmem inst]
      constructor
      · intro hex
        obtain ⟨g,hg,hn,hs⟩ := hex
        exact Or.inl ⟨g,hg,hn,Or.inr hs⟩
      · intro hex
        obtain ⟨g,hg,hn,hs|hs⟩|hall := hex
        · exact absurd ⟨g,hg,hn,hs⟩ hstar
        · exact ⟨g,hg,hn,hs⟩
        · exact absurd hn0 (hall g0 hg0)

theorem mem_grantsOf {table : List RoleGrant} {roles : List String} {g : RoleGrant} :
    g∈grantsOf table roles ↔ g∈table ∧ g.role∈roles := by
  simp [grantsOf]

/-- A larger set of roles keeps every CA in scope exactly when the smaller one is confined already,
the larger one is not, or its grants name every CA there is. -/
theorem more_roles_keep_cas_iff (table : List RoleGrant) (cas : List String) {a b : List String}
    (ha : a≠[]) (hsub : a⊆b) :
    (∀ inst∈cas,inScope (caScopeForRoles table a) inst=true →
        inScope (caScopeForRoles table b) inst=true) ↔
      (∃ g∈grantsOf table a,NamesCas g) ∨ (∀ g∈grantsOf table b,¬NamesCas g) ∨
        ∀ inst∈cas,∃ g∈grantsOf table b,NamesCas g ∧ (g.scope="*" ∨ g.scope=inst) := by
  have hb : b≠[] := by
    intro hnil
    rw [hnil] at hsub
    exact ha (List.subset_nil.mp hsub)
  simp only [inScope_caScopeForRoles_iff ha,inScope_caScopeForRoles_iff hb]
  by_cases hnames : ∃ g∈grantsOf table a,NamesCas g
  · refine iff_of_true (fun inst _ hin => Or.inl ?_) (Or.inl hnames)
    obtain ⟨g,hg,hn,hs⟩|hall := hin
    · obtain ⟨htable,hrole⟩ := mem_grantsOf.mp hg
      exact ⟨g,mem_grantsOf.mpr ⟨htable,hsub hrole⟩,hn,hs⟩
    · obtain ⟨g,hg,hn⟩ := hnames
      exact absurd hn (hall g hg)
  · -- the smaller set is unconfined, so everything is asked of the larger one
    have hall : ∀ g∈grantsOf table a,¬NamesCas g := fun g hg hn => hnames ⟨g,hg,hn⟩
    simp only [hnames,false_or]
    constructor
    · intro h
      by_cases hnone : ∀ g∈grantsOf table b,¬NamesCas g
      · exact Or.inl hnone
      · exact Or.inr fun inst hinst => (h inst hinst (Or.inr hall)).resolve_right hnone
    · intro h inst hinst _
      obtain hnone|hevery := h
      · exact Or.inr hnone
      · exact Or.inl (hevery inst hinst)

/-- A role that reads the audit log, and one that reads the certificates of one CA. -/
def auditorTable : List RoleGrant := [⟨"auditor","audit:read","*"⟩,⟨"operator","cert:read","east"⟩]

theorem more_roles_keep_cas_operator :
    ["operator"]≠[] ∧ ["operator"]⊆["auditor","operator"] ∧
    ∀ inst∈["east","west"],inScope (caScopeForRoles auditorTable ["operator"]) inst=true →
      inScope (caScopeForRoles auditorTable ["auditor","operator"]) inst=true := by
  have hsub : ["operator"]⊆["auditor","operator"] := by simp
  have hcert : NamesCas ⟨"operator","cert:read","east"⟩ := ⟨by decide,by decide⟩
  refine ⟨by simp,hsub,?_⟩
  rw [more_roles_keep_cas_iff auditorTable ["east","west"] (by simp) hsub]
  exact Or.inl ⟨_,by simp [mem_grantsOf,auditorTable],hcert⟩

/-- The second role takes a CA away. -/
theorem more_roles_lose_ca :
    ["auditor"]≠[] ∧ ["auditor"]⊆["auditor","operator"] ∧
    inScope (caScopeForRoles auditorTable ["auditor"]) "west"=true ∧
    inScope (caScopeForRoles auditorTable ["auditor","operator"]) "west"=false := by
  refine ⟨by simp,by simp,by decide,by decide⟩

end FastPki.Rbac
