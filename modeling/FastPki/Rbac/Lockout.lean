import FastPki.Framework.Run
import FastPki.Rbac.Users
import Mathlib.Data.List.Sort

namespace FastPki.Rbac.Users

def allCapabilities : List String :=
  ["*:*","audit:read","backup:manage","ca:manage","ca:read","cert:read","cert:request","cert:revoke",
    "config:manage","role:manage","self:manage","user:manage","hsm:manage","hsm:read","acme:enrol",
    "cmp:enrol","est:enrol","ms:enrol","scep:enrol","profile:use","profile:edit","template:use",
    "template:edit"]

/-- The roles that are built in, and the names a scope may have: the profiles of the configuration,
and the templates that are stored or built in. -/
structure RoleEnv extends Env where
  builtin : List String
  certProfiles : List String
  templates : List String

/-- One line of `grants`: a permission and, behind a bar, its scope. -/
def grantLine (role : String) (line : String) : Option RoleGrant :=
  let l := (line.toList.reverse.dropWhile fun c => c = '\r' ∨ c = ' ').reverse
  let scope := String.ofList ((l.dropWhile (· ≠ '|')).drop 1)
  if l = [] then none
  else some ⟨role,String.ofList (l.takeWhile (· ≠ '|')),if scope = "" then "*" else scope⟩

def checkGrant (env : RoleEnv) (g : RoleGrant) : Except Refusal Unit := do
  refuseIf (g.permission ∉ allCapabilities) ⟨400,"unknown permission: "++g.permission⟩
  refuseIf (g.scope = "own" ∧ g.permission ≠ "cert:read" ∧ g.permission ≠ "cert:revoke")
    ⟨400,"scope 'own' applies to cert:read and cert:revoke only, not "++g.permission⟩
  refuseIf (g.scope ≠ "*" ∧ scopeKind g.permission = .none)
    ⟨400,g.permission++" has no scope; grant it with *"⟩
  refuseIf (g.scope ≠ "*" ∧ scopeKind g.permission = .profile ∧ g.scope ∉ env.certProfiles)
    ⟨400,"unknown profile: "++g.scope⟩
  refuseIf (g.scope ≠ "*" ∧ scopeKind g.permission = .template ∧ g.scope ∉ env.templates)
    ⟨400,"unknown template: "++g.scope⟩

def linesOf (text : String) : List String := (text.toList.splitOn '\n').map String.ofList

def wantedGrants (role grants : String) : List RoleGrant := (linesOf grants).filterMap (grantLine role)

/-- `count(DISTINCT role) .. WHERE permission=$1` -/
def rolesGranting (db : UsersDb) (permission : String) : Nat :=
  ((db.rolePermissions.filter (·.permission = permission)).map (·.role)).dedup.length

def setRoleGrants (db : UsersDb) (role : String) (grants : List RoleGrant) : UsersDb :=
  { db with rolePermissions := Rbac.setRoleGrants role grants db.rolePermissions }

/-- The grants of the role go with its row. -/
def deleteRole (db : UsersDb) (role : String) : UsersDb :=
  { db with
    subjectRoles := db.subjectRoles.filter (·.role ≠ role)
    roles := db.roles.filter (·.name ≠ role)
    rolePermissions := db.rolePermissions.filter (·.role ≠ role) }

/-- The binding that the database is asked for. -/
def cStrs (b : SubjectRole) : SubjectRole := ⟨cStr b.selectorType,cStr b.selectorValue,cStr b.role⟩

def deleteSubjectRole (db : UsersDb) (b : SubjectRole) : UsersDb :=
  { db with subjectRoles := db.subjectRoles.filter (· ≠ cStrs b) }

def addSubjectRole (db : UsersDb) (b : SubjectRole) : UsersDb :=
  { db with subjectRoles := insertNew id b db.subjectRoles }

def writesDisabled : Refusal := ⟨403,"console writes disabled (set WEB_ALLOW_REVOKE=true)"⟩

/-- Whether the role grants `role:manage` itself; the star is not asked for. -/
def grantsRoleManage (gs : List RoleGrant) : Bool := gs.any (·.permission = "role:manage")

def postPermissions (env : RoleEnv) (db : UsersDb) (role grants : String) : Except Refusal UsersDb := do
  refuseIf (env.webAllowRevoke = false) writesDisabled
  refuseIf (roleExists db role = false) ⟨404,"no such role"⟩
  let want := wantedGrants role grants
  want.forM (checkGrant env)
  refuseIf (grantsRoleManage (listRoleGrants db.rolePermissions role) ∧ grantsRoleManage want = false ∧
      rolesGranting db "role:manage" ≤ 1)
    ⟨409,"this is the last role granting role:manage — removing it would leave the console "++
      "unadministrable"⟩
  return setRoleGrants db role want

def deleteRoleRoute (env : RoleEnv) (db : UsersDb) (role : String) : Except Refusal UsersDb := do
  refuseIf (env.webAllowRevoke = false) writesDisabled
  refuseIf (roleExists db role = false) ⟨404,"no such role"⟩
  refuseIf (role ∈ env.builtin) ⟨409,"builtin roles cannot be deleted"⟩
  refuseIf (grantsRoleManage (listRoleGrants db.rolePermissions role) ∧
      rolesGranting db "role:manage" ≤ 1)
    ⟨409,"this is the last role granting role:manage"⟩
  return deleteRole db role

def deleteUsers (env : RoleEnv) (db : UsersDb) (c : Requester) (username : String) :
    Except Refusal UsersDb := do
  refuseIf (env.webAllowRevoke = false) writesDisabled
  refuseIf (managesUsers env.toEnv db c = false) ⟨403,"user:manage required"⟩
  refuseIf (username = "") ⟨400,"missing username"⟩
  -- the two names are compared as they are written, but the database reads no further than a NUL
  refuseIf (username = c.user) ⟨400,"cannot delete your own account"⟩
  refuseIf (getWebUser db (cStr username) = none) ⟨404,"no such DB user"⟩
  return { db with
    webUsers := remove Account.key (lower (cStr username)) db.webUsers
    subjectRoles := db.subjectRoles.filter fun b =>
      ¬(b.selectorType = "user" ∧ lower b.selectorValue = lower username) }

def printableName (s : String) : Bool :=
  s.toList.all fun c => 0x20 ≤ c.toNat ∧ c.toNat ≠ 0x7f ∧ c ∉ ['<','>','"','\'','&','`']

def postSubjectRoles (env : RoleEnv) (db : UsersDb) (c : Requester) (b : SubjectRole) :
    Except Refusal UsersDb := do
  refuseIf (env.webAllowRevoke = false) writesDisabled
  refuseIf (b.selectorType ≠ "user" ∧ b.selectorType ≠ "group")
    ⟨400,"selector_type must be user|group"⟩
  refuseIf (b.selectorValue = "" ∨ b.selectorValue.utf8ByteSize > 512)
    ⟨400,"selector_value required (<=512 chars)"⟩
  refuseIf (printableName b.selectorValue = false)
    ⟨400,"selector_value may not contain control characters or any of < > \" ' & \\ `"⟩
  refuseIf (b.role = "none" ∨ roleExists db b.role = false) ⟨400,"no such role: "++b.role⟩
  refuseIf (mayAssignRole db.rolePermissions env.openMode (rolesOf db c) b.role = false)
    ⟨403,"role '"++b.role++"' grants permissions you do not hold"⟩
  return addSubjectRole db b

def deleteSubjectRoles (env : RoleEnv) (db : UsersDb) (b : SubjectRole) : Except Refusal UsersDb := do
  refuseIf (env.webAllowRevoke = false) writesDisabled
  refuseIf (b.selectorType = "" ∨ b.selectorValue = "" ∨ b.role = "")
    ⟨400,"missing selector_type/selector_value/role"⟩
  return deleteSubjectRole db b

def Outcome.db : Outcome → UsersDb
  | .emailSet db => db
  | .written db _ => db

inductive Route where
  | postPermissions (role grants : String)
  | deleteRole (role : String)
  | postUsers (q : UserPost)
  | deleteUsers (username : String)
  | postSubjectRoles (b : SubjectRole)
  | deleteSubjectRoles (b : SubjectRole)

/-- A request of a signed-in account. -/
structure Sent where
  who : Requester
  mustReset : Bool
  route : Route

def requiredCaps : Route → List String
  | .postPermissions _ _ | .deleteRole _ => ["role:manage"]
  | .postUsers _ | .deleteUsers _ => ["self:manage","user:manage"]
  | .postSubjectRoles _ | .deleteSubjectRoles _ => ["user:manage"]

def pathOf : Route → String
  | .postPermissions role _ => "/api/roles/"++role++"/permissions"
  | .deleteRole role => "/api/roles/"++role
  | .postUsers _ | .deleteUsers _ => "/api/users"
  | .postSubjectRoles _ | .deleteSubjectRoles _ => "/api/subject-roles"

def preRouting (db : UsersDb) (r : Sent) : Except Refusal Unit := do
  let roles := rolesOf db r.who
  let need := requiredCaps r.route
  refuseIf (r.who.role = "") ⟨401,"unauthorized"⟩
  refuseIf r.mustReset ⟨403,"password reset required"⟩
  refuseIf (capsAllow (permissionsForRoles db.rolePermissions roles) need = false)
    ⟨403,"forbidden: roles ["++",".intercalate (roles.dedup.insertionSort (· ≤ ·))++"] lack "++
      " or ".intercalate need++" for "++pathOf r.route⟩

def handle (env : RoleEnv) (db : UsersDb) (r : Sent) : Except Refusal UsersDb := do
  preRouting db r
  match r.route with
  | .postPermissions role grants => Users.postPermissions env db role grants
  | .deleteRole role => deleteRoleRoute env db role
  | .postUsers q => (Users.postUsers env.toEnv db r.who q).map Outcome.db
  | .deleteUsers username => Users.deleteUsers env db r.who username
  | .postSubjectRoles b => Users.postSubjectRoles env db r.who b
  | .deleteSubjectRoles b => Users.deleteSubjectRoles env db b

/-- What is refused changes nothing. -/
def step (env : RoleEnv) (db : UsersDb) (r : Sent) : UsersDb := (handle env db r).toOption.getD db

def managePermission (p : String) : Bool := p = "role:manage" ∨ p = "*:*"

/-- Some stored account holds a role that grants `role:manage` or the star. -/
def Administrable (db : UsersDb) : Prop :=
  ∃ a∈db.webUsers,∃ g∈grantsHeld db a,managePermission g.permission

/-- One way to be an administrator: an account and a role, its own or one bound to its name. -/
structure Way where
  username : String
  role : String
  bound : Bool

/-- The role grants `role:manage` or the star. -/
def Manages (table : List RoleGrant) (role : String) : Prop :=
  ∃ g∈table,g.role=role ∧ managePermission g.permission

/-- The account is stored and has the role. -/
def Has (db : UsersDb) (w : Way) : Prop :=
  ∃ a∈db.webUsers,a.username=w.username ∧
    if w.bound then ⟨"user",w.username,w.role⟩∈db.subjectRoles else a.role=w.role

theorem administrable_iff (db : UsersDb) :
    Administrable db ↔ ∃ w,Has db w ∧ Manages db.rolePermissions w.role := by
  have hbound : ∀ name r,r∈rolesForSubject db.rbac [("user",name)] ↔
      (⟨"user",name,r⟩ : SubjectRole)∈db.subjectRoles := by
    intro name r
    simp only [rolesForSubject,UsersDb.rbac,List.flatMap_cons,List.flatMap_nil,List.append_nil,
      List.mem_map,List.mem_filter,decide_eq_true_eq]
    constructor
    · intro h
      obtain ⟨⟨t,v,r'⟩,⟨hmem,rfl,rfl⟩,rfl⟩ := h
      exact hmem
    · intro h
      exact ⟨_,⟨h,rfl,rfl⟩,rfl⟩
  constructor
  · intro h
    obtain ⟨a,ha,g,hg,hp⟩ := h
    obtain hown|hother := List.mem_append.mp hg
    · have hg := List.mem_filter.mp hown
      refine ⟨⟨a.username,a.role,false⟩,⟨a,ha,rfl,rfl⟩,g,hg.1,?_,hp⟩
      simpa using hg.2
    · obtain ⟨r,hr,hg⟩ := List.mem_flatMap.mp hother
      have hg := List.mem_filter.mp hg
      refine ⟨⟨a.username,r,true⟩,⟨a,ha,rfl,(hbound _ _).mp hr⟩,g,hg.1,?_,hp⟩
      simpa using hg.2
  · intro h
    obtain ⟨⟨name,role,bound⟩,⟨a,ha,rfl,hhas⟩,g,hg,hrole,hp⟩ := h
    refine ⟨a,ha,g,List.mem_append.mpr ?_,hp⟩
    cases bound with
    | false => exact Or.inl (List.mem_filter.mpr ⟨hg,by simpa [hrole] using hhas.symm⟩)
    | true =>
      have hrole' : g∈listRoleGrants db.rolePermissions role := List.mem_filter.mpr ⟨hg,by simpa using hrole⟩
      exact Or.inr (List.mem_flatMap.mpr ⟨role,(hbound _ _).mpr hhas,hrole'⟩)

/-- The ways a request takes away, whatever it writes in their place. -/
def Touches : Route → Way → Prop
  | .postPermissions role _,w | .deleteRole role,w => w.role=role
  | .postUsers q,w => w.bound=false ∧ lower w.username=lower q.username
  | .deleteUsers username,w => lower w.username=lower (cStr username) ∨
      w.bound=true ∧ lower w.username=lower username
  | .postSubjectRoles _,_ => False
  | .deleteSubjectRoles b,w => w.bound=true ∧ cStrs b=⟨"user",w.username,w.role⟩

/-- The role an account is written with. -/
def writtenRole (env : Env) (db : UsersDb) (c : Requester) (q : UserPost) : String :=
  if managesUsers env db c then q.role.getD ((getWebUser db q.username).elim "" (·.role))
  else (getWebUser db q.username).elim "" (·.role)

/-- The request itself writes a way: the new grants of a role that some account has, or an account
with a role of its own or bound to its name. -/
def Supplies (env : RoleEnv) (db : UsersDb) (r : Sent) : Prop :=
  match r.route with
  | .postPermissions role grants => Manages (wantedGrants role grants) role ∧ ∃ w,w.role=role ∧ Has db w
  | .postUsers q => Manages db.rolePermissions (writtenRole env.toEnv db r.who q) ∨
      ∃ role,⟨"user",storedName db q.username,role⟩∈db.subjectRoles ∧ Manages db.rolePermissions role
  | _ => False

/-- The request is refused, or it leaves one way to be an administrator alone, or it writes one. -/
def Keeps (env : RoleEnv) (db : UsersDb) (r : Sent) : Prop :=
  (handle env db r).toOption=none ∨
  (∃ w,Has db w ∧ Manages db.rolePermissions w.role ∧ ¬Touches r.route w) ∨ Supplies env db r

theorem mem_grants_role {role grants : String} {g : RoleGrant} (h : g∈wantedGrants role grants) :
    g.role=role := by
  obtain ⟨line,_,hline⟩ := List.mem_filterMap.mp h
  simp only [grantLine] at hline
  by_cases hblank : (line.toList.reverse.dropWhile fun c => c = '\r' ∨ c = ' ').reverse=[]
  · rw [if_pos hblank] at hline
    cases hline
  · rw [if_neg hblank] at hline
    rw [← Option.some.inj hline]

theorem manages_filter {table : List RoleGrant} {role r : String} :
    Manages (table.filter (·.role≠role)) r ↔ r≠role ∧ Manages table r := by
  constructor
  · intro h
    obtain ⟨g,hg,rfl,hp⟩ := h
    have hg := List.mem_filter.mp hg
    exact ⟨by simpa using hg.2,g,hg.1,rfl,hp⟩
  · intro h
    obtain ⟨hne,g,hg,rfl,hp⟩ := h
    exact ⟨g,List.mem_filter.mpr ⟨hg,by simpa using hne⟩,rfl,hp⟩

theorem manages_setRoleGrants (db : UsersDb) (role grants r : String) :
    Manages (setRoleGrants db role (wantedGrants role grants)).rolePermissions r ↔
      (r≠role ∧ Manages db.rolePermissions r) ∨ (r=role ∧ Manages (wantedGrants role grants) role) := by
  simp only [Manages,setRoleGrants,mem_setRoleGrants]
  constructor
  · intro h
    obtain ⟨g,⟨hg,hne⟩|⟨w,hw,rfl⟩,rfl,hp⟩ := h
    · exact Or.inl ⟨hne,g,hg,rfl,hp⟩
    · have hrole : w.role=role := mem_grants_role hw
      exact Or.inr ⟨hrole,w,hw,hrole,hp⟩
  · intro h
    obtain ⟨hne,g,hg,rfl,hp⟩|⟨rfl,w,hw,hr,hp⟩ := h
    · exact ⟨g,Or.inl ⟨hg,hne⟩,rfl,hp⟩
    · exact ⟨starred w,Or.inr ⟨w,hw,rfl⟩,hr,hp⟩

section Step

variable {db : UsersDb} {env : RoleEnv}

theorem administrable_setRoleGrants (role grants : String) :
    Administrable (setRoleGrants db role (wantedGrants role grants)) ↔
      (∃ w,Has db w ∧ Manages db.rolePermissions w.role ∧ w.role≠role) ∨
      (Manages (wantedGrants role grants) role ∧ ∃ w,w.role=role ∧ Has db w) := by
  rw [administrable_iff]
  constructor
  · intro h
    obtain ⟨w,hw,hm⟩ := h
    obtain ⟨hne,hm⟩|⟨heq,hm⟩ := (manages_setRoleGrants db role grants w.role).mp hm
    · exact Or.inl ⟨w,hw,hm,hne⟩
    · exact Or.inr ⟨hm,w,heq,hw⟩
  · intro h
    obtain ⟨w,hw,hm,hne⟩|⟨hm,w,heq,hw⟩ := h
    · exact ⟨w,hw,(manages_setRoleGrants db role grants w.role).mpr (Or.inl ⟨hne,hm⟩)⟩
    · exact ⟨w,hw,(manages_setRoleGrants db role grants w.role).mpr (Or.inr ⟨heq,hm⟩)⟩

theorem administrable_deleteRole (role : String) :
    Administrable (deleteRole db role) ↔
      ∃ w,Has db w ∧ Manages db.rolePermissions w.role ∧ w.role≠role := by
  have hhas : ∀ w,w.role≠role → (Has (deleteRole db role) w ↔ Has db w) := by
    intro w hne
    have hbound : (⟨"user",w.username,w.role⟩ : SubjectRole)∈(deleteRole db role).subjectRoles ↔
        (⟨"user",w.username,w.role⟩ : SubjectRole)∈db.subjectRoles := by
      simp [deleteRole,hne]
    simp only [Has,hbound]
    rfl
  rw [administrable_iff]
  constructor
  · intro h
    obtain ⟨w,hw,hm⟩ := h
    obtain ⟨hne,hm⟩ := manages_filter.mp hm
    exact ⟨w,(hhas w hne).mp hw,hm,hne⟩
  · intro h
    obtain ⟨w,hw,hm,hne⟩ := h
    exact ⟨w,(hhas w hne).mpr hw,manages_filter.mpr ⟨hne,hm⟩⟩

theorem has_deleteUsers {w : Way} (username : String) :
    Has { db with
        webUsers := remove Account.key (lower (cStr username)) db.webUsers
        subjectRoles := db.subjectRoles.filter fun b =>
          ¬(b.selectorType="user" ∧ lower b.selectorValue=lower username) } w ↔
      Has db w ∧ lower w.username≠lower (cStr username) ∧
        ¬(w.bound=true ∧ lower w.username=lower username) := by
  simp only [Has,remove,List.mem_filter,decide_eq_true_eq,true_and]
  constructor
  · intro h
    obtain ⟨a,⟨ha,hkey⟩,hname,hrole⟩ := h
    have hne : lower w.username≠lower (cStr username) := by
      rw [← hname]
      simpa [Account.key] using hkey
    split_ifs at hrole with hbound
    · refine ⟨⟨a,ha,hname,?_⟩,hne,fun hboth => hrole.2 hboth.2⟩
      rw [if_pos hbound]
      exact hrole.1
    · refine ⟨⟨a,ha,hname,?_⟩,hne,fun hboth => hbound hboth.1⟩
      rw [if_neg hbound]
      exact hrole
  · intro h
    obtain ⟨⟨a,ha,hname,hrole⟩,hne,hbinding⟩ := h
    refine ⟨a,⟨ha,?_⟩,hname,?_⟩
    · rw [← hname] at hne
      simpa [Account.key] using hne
    · split_ifs at hrole ⊢ with hbound
      · exact ⟨hrole,fun heq => hbinding ⟨hbound,heq⟩⟩
      · exact hrole

theorem has_deleteSubjectRole {w : Way} (b : SubjectRole) :
    Has (deleteSubjectRole db b) w ↔
      Has db w ∧ ¬(w.bound=true ∧ cStrs b=⟨"user",w.username,w.role⟩) := by
  obtain ⟨name,role,bound⟩ := w
  cases bound with
  | false => simp [Has,deleteSubjectRole]
  | true =>
    simp only [Has,deleteSubjectRole,if_true,List.mem_filter,decide_eq_true_eq,true_and]
    constructor
    · intro h
      obtain ⟨a,ha,hname,hmem,hne⟩ := h
      exact ⟨⟨a,ha,hname,hmem⟩,fun heq => hne heq.symm⟩
    · intro h
      obtain ⟨⟨a,ha,hname,hmem⟩,hne⟩ := h
      exact ⟨a,ha,hname,hmem,fun heq => hne heq.symm⟩

theorem has_addSubjectRole {w : Way} (b : SubjectRole) (h : Has db w) : Has (addSubjectRole db b) w := by
  obtain ⟨a,ha,hname,hrole⟩ := h
  refine ⟨a,ha,hname,?_⟩
  split_ifs at hrole ⊢
  · exact mem_insertNew.mpr (Or.inl hrole)
  · exact hrole

theorem has_setWebUserEmail {w : Way} (username email : String) :
    Has (setWebUserEmail db username email) w ↔ Has db w := by
  simp only [Has,setWebUserEmail,List.mem_map]
  constructor
  · intro h
    obtain ⟨_,⟨a,ha,rfl⟩,hname,hrole⟩ := h
    refine ⟨a,ha,?_,?_⟩
    · rw [← hname]
      split_ifs
      · rfl
      · rfl
    · split_ifs at hrole ⊢
      all_goals exact hrole
  · intro h
    obtain ⟨a,ha,hname,hrole⟩ := h
    refine ⟨_,⟨a,ha,rfl⟩,?_,?_⟩
    · rw [← hname]
      split_ifs
      · rfl
      · rfl
    · split_ifs at hrole ⊢
      all_goals exact hrole

/-- `web_users` is unique by name, the case aside. -/
def Unique (db : UsersDb) : Prop := (db.webUsers.map Account.key).Nodup

theorem Unique.getWebUser_eq (h : Unique db) {a : Account} (ha : a∈db.webUsers) :
    getWebUser db a.username=some a := by
  simp only [getWebUser,lookup]
  cases hfind : db.webUsers.find? fun x => x.key=lower a.username with
  | none =>
    have hnone := List.find?_eq_none.mp hfind a ha
    simp [Account.key] at hnone
  | some b =>
    have hkey : b.key=lower a.username := by simpa using List.find?_some hfind
    rw [List.inj_on_of_nodup_map h (List.mem_of_find?_eq_some hfind) ha hkey]

/-- The accounts after one is written: the others, and the one row of its name. -/
theorem writeAccount_mem {env : Env} {db' : UsersDb} {q : UserPost} {role : String} {mr : Bool}
    (h : writeAccount env db q role mr=.ok db') : SameRights db db' ∧
      ∃ row : Account,row.username=storedName db q.username ∧ row.role=role ∧
        row.key=lower q.username ∧
        ∀ x,x∈db'.webUsers ↔ x=row ∨ (x∈db.webUsers ∧ x.key≠lower q.username) := by
  have hwrite : ∀ u : Account,u.key=lower q.username → u.role=role →
      (getWebUser db q.username=none → u.username=q.username) →
      ∃ row : Account,row.username=storedName db q.username ∧ row.role=role ∧
        row.key=lower q.username ∧
        ∀ x,x∈(upsertWebUser db u).webUsers ↔ x=row ∨ (x∈db.webUsers ∧ x.key≠lower q.username) := by
    intro u hkey hrole hname
    have hsame : getWebUser db u.username=getWebUser db q.username := by
      simp only [getWebUser]
      rw [← hkey]
      rfl
    refine ⟨(getWebUser db q.username).elim u (onConflict · u),?_,?_,?_,?_⟩
    · cases hold : getWebUser db q.username with
      | none => simpa [storedName,hold] using hname hold
      | some old => simp [storedName,hold,onConflict]
    · cases getWebUser db q.username with
      | none => exact hrole
      | some old => exact hrole
    · cases hold : getWebUser db q.username with
      | none => exact hkey
      | some old => exact (lookup_key hold : old.key=_)
    · intro x
      simp only [upsertWebUser,hsame]
      rw [mem_upsert]
      cases hold : getWebUser db q.username with
      | none => simp [hkey]
      | some old =>
        have hkey' : (onConflict old u).key=lower q.username := (lookup_key hold : old.key=_)
        simp [hkey']
  simp only [writeAccount] at h
  split_ifs at h with hpw
  · obtain rfl := Except.ok.inj h
    exact ⟨⟨rfl,rfl⟩,hwrite _ rfl rfl fun _ => rfl⟩
  · obtain ⟨row,hrow,hdb⟩ := bind_eq_ok_iff.mp h
    obtain rfl := Except.ok.inj hdb
    have hrow := requireSome_eq_ok_iff.mp hrow
    have hkey : row.key=lower q.username := lookup_key hrow
    refine ⟨⟨rfl,rfl⟩,hwrite _ hkey rfl fun hnone => ?_⟩
    rw [hrow] at hnone
    cases hnone

/-- An accepted `POST /api/users` changes no account's name or role, or it writes one account. -/
theorem postUsers_cases {c : Requester} {q : UserPost} {out : Outcome} (hopen : env.openMode=false)
    (h : Users.postUsers env.toEnv db c q=.ok out) :
    (managesUsers env.toEnv db c=false ∧ ∃ mine email,getWebUser db q.username=some mine ∧
      out=.emailSet (setWebUserEmail db mine.username email)) ∨
    ∃ db' mr st,writeAccount env.toEnv db q (writtenRole env.toEnv db c q) mr=.ok db' ∧
      out=.written (q.email.elim db' (setWebUserEmail db' q.username)) st := by
  have hsave : ∀ role mr,saveUser env.toEnv db c q role mr=.ok out →
      ∃ db' st,writeAccount env.toEnv db q role mr=.ok db' ∧
        out=.written (q.email.elim db' (setWebUserEmail db' q.username)) st := by
    intro role mr hsave
    simp only [saveUser,bind_eq_ok_iff] at hsave
    obtain ⟨_,_,_,_,_,_,_,_,_,_,_,_,_,_,db',hdb',hout⟩ := hsave
    exact ⟨db',_,hdb',(Except.ok.inj hout).symm⟩
  simp only [Users.postUsers,bind_eq_ok_iff] at h
  obtain ⟨_,_,_,_,_,_,h⟩ := h
  by_cases hm : managesUsers env.toEnv db c=true
  · rw [if_pos hm] at h
    obtain ⟨db',st,hdb',hout⟩ := hsave _ _ h
    refine Or.inr ⟨db',flag q.mustReset,st,?_,hout⟩
    simpa [writtenRole,hm,hopen] using hdb'
  · rw [if_neg hm] at h
    obtain ⟨own,hown,h⟩ := bind_eq_ok_iff.mp h
    simp only [selfService,bind_eq_ok_iff] at hown
    obtain ⟨_,hself,mine,hmine,hown⟩ := hown
    have hself : q.username=c.user := by simpa using refuseIf_eq_ok_iff.mp hself
    have hmine : getWebUser db q.username=some mine := by
      rw [hself]
      exact requireSome_eq_ok_iff.mp hmine
    split_ifs at hown with hemail
    · have hown := Except.ok.inj hown
      rw [← hown] at h
      exact Or.inl ⟨by simpa using hm,mine,_,hmine,(Except.ok.inj h).symm⟩
    · simp only [bind_eq_ok_iff] at hown
      obtain ⟨_,_,_,_,hown⟩ := hown
      have hown := Except.ok.inj hown
      rw [← hown] at h
      obtain ⟨db',st,hdb',hout⟩ := hsave _ _ h
      refine Or.inr ⟨db',false,st,?_,hout⟩
      simpa [writtenRole,hm,hmine] using hdb'

/-- What an accepted `POST /api/users` leaves of the ways, and whom it makes an administrator. -/
theorem administrable_writeAccount {env : Env} {db' : UsersDb} {q : UserPost} {role : String} {mr : Bool}
    (hunique : Unique db) (h : writeAccount env db q role mr=.ok db') :
    Administrable db' ↔
      (∃ w,Has db w ∧ Manages db.rolePermissions w.role ∧
        ¬(w.bound=false ∧ lower w.username=lower q.username)) ∨
      Manages db.rolePermissions role ∨
      ∃ r,⟨"user",storedName db q.username,r⟩∈db.subjectRoles ∧ Manages db.rolePermissions r := by
  obtain ⟨⟨htable,hbindings⟩,row,hname,hrole,hkey,hmem⟩ := writeAccount_mem h
  have hrow : row∈db'.webUsers := (hmem row).mpr (Or.inl rfl)
  rw [administrable_iff,htable]
  constructor
  · intro h
    obtain ⟨w,⟨a,ha,haname,hahas⟩,hm⟩ := h
    rw [hbindings] at hahas
    obtain rfl|⟨ha,hne⟩ := (hmem a).mp ha
    · right
      split_ifs at hahas with hbound
      · rw [← haname,hname] at hahas
        exact Or.inr ⟨w.role,hahas,hm⟩
      · rw [← hrole,hahas]
        exact Or.inl hm
    · refine Or.inl ⟨w,⟨a,ha,haname,hahas⟩,hm,fun htouch => hne ?_⟩
      rw [Account.key,haname]
      exact htouch.2
  · intro h
    obtain ⟨w,⟨a,ha,haname,hahas⟩,hm,htouch⟩|hm|⟨r,hr,hm⟩ := h
    · by_cases hsame : a.key=lower q.username
      · -- the row that is written keeps the name, so what is bound to it stays
        have hbound : w.bound=true := by
          by_contra hfree
          refine htouch ⟨by simpa using hfree,?_⟩
          rw [← haname]
          exact hsame
        have hstored : storedName db q.username=a.username := by
          have hfound := hunique.getWebUser_eq ha
          have hfound' : getWebUser db q.username=some a := by
            rw [← hfound]
            simp only [getWebUser]
            rw [← hsame]
            rfl
          simp [storedName,hfound']
        refine ⟨w,⟨row,hrow,by rw [hname,hstored,haname],?_⟩,hm⟩
        rw [if_pos hbound,hbindings]
        rwa [if_pos hbound] at hahas
      · refine ⟨w,⟨a,(hmem a).mpr (Or.inr ⟨ha,hsame⟩),haname,?_⟩,hm⟩
        rwa [hbindings]
    · exact ⟨⟨row.username,role,false⟩,⟨row,hrow,rfl,hrole⟩,hm⟩
    · refine ⟨⟨row.username,r,true⟩,⟨row,hrow,rfl,?_⟩,hm⟩
      simpa [hname,hbindings] using hr

theorem unique_setWebUserEmail (h : Unique db) (username email : String) :
    Unique (setWebUserEmail db username email) := by
  have hkeys : (setWebUserEmail db username email).webUsers.map Account.key=db.webUsers.map Account.key := by
    simp only [setWebUserEmail,List.map_map]
    refine List.map_congr_left fun a _ => ?_
    simp only [Function.comp_apply]
    split_ifs
    · rfl
    · rfl
  rw [Unique,hkeys]
  exact h

theorem unique_writeAccount {env : Env} {db' : UsersDb} {q : UserPost} {role : String} {mr : Bool}
    (hunique : Unique db) (h : writeAccount env db q role mr=.ok db') : Unique db' := by
  simp only [writeAccount] at h
  split_ifs at h with hpw
  · obtain rfl := Except.ok.inj h
    exact nodup_upsert _ hunique
  · obtain ⟨row,_,hdb⟩ := bind_eq_ok_iff.mp h
    obtain rfl := Except.ok.inj hdb
    exact nodup_upsert _ hunique

/-- Reading a request that was accepted. -/
theorem handle_ok {r : Sent} {db' : UsersDb} (h : handle env db r=.ok db') :
    match r.route with
    | .postPermissions role grants => db'=setRoleGrants db role (wantedGrants role grants)
    | .deleteRole role => db'=deleteRole db role
    | .postUsers q => ∃ out,Users.postUsers env.toEnv db r.who q=.ok out ∧ db'=out.db
    | .deleteUsers username => db'={ db with
        webUsers := remove Account.key (lower (cStr username)) db.webUsers
        subjectRoles := db.subjectRoles.filter fun b =>
          ¬(b.selectorType="user" ∧ lower b.selectorValue=lower username) }
    | .postSubjectRoles b => db'=addSubjectRole db b
    | .deleteSubjectRoles b => db'=deleteSubjectRole db b := by
  obtain ⟨_,_,h⟩ := bind_eq_ok_iff.mp h
  obtain ⟨who,mustReset,route⟩ := r
  cases route with
  | postPermissions role grants =>
    simp only [Users.postPermissions,bind_eq_ok_iff] at h
    obtain ⟨_,_,_,_,_,_,_,_,h⟩ := h
    exact (Except.ok.inj h).symm
  | deleteRole role =>
    simp only [deleteRoleRoute,bind_eq_ok_iff] at h
    obtain ⟨_,_,_,_,_,_,_,_,h⟩ := h
    exact (Except.ok.inj h).symm
  | postUsers q =>
    obtain ⟨out,hout,heq⟩ := map_eq_ok_iff.mp h
    exact ⟨out,hout,heq.symm⟩
  | deleteUsers username =>
    simp only [Users.deleteUsers,bind_eq_ok_iff] at h
    obtain ⟨_,_,_,_,_,_,_,_,_,_,h⟩ := h
    exact (Except.ok.inj h).symm
  | postSubjectRoles b =>
    simp only [Users.postSubjectRoles,bind_eq_ok_iff] at h
    obtain ⟨_,_,_,_,_,_,_,_,_,_,_,_,h⟩ := h
    exact (Except.ok.inj h).symm
  | deleteSubjectRoles b =>
    simp only [Users.deleteSubjectRoles,bind_eq_ok_iff] at h
    obtain ⟨_,_,_,_,h⟩ := h
    exact (Except.ok.inj h).symm

theorem unique_step (hopen : env.openMode=false) (r : Sent) (h : Unique db) : Unique (step env db r) := by
  simp only [step]
  cases hres : handle env db r with
  | error e => exact h
  | ok db' =>
    have hok := handle_ok hres
    change Unique db'
    obtain ⟨who,mustReset,route⟩ := r
    cases route with
    | postPermissions role grants =>
      obtain rfl := hok
      exact h
    | deleteRole role =>
      obtain rfl := hok
      exact h
    | postUsers q =>
      obtain ⟨out,hout,rfl⟩ := hok
      obtain ⟨_,mine,email,_,rfl⟩|⟨db1,mr,st,hdb1,rfl⟩ := postUsers_cases hopen hout
      · exact unique_setWebUserEmail h _ _
      · have hdb1 := unique_writeAccount h hdb1
        cases hemail : q.email with
        | none => simpa [Outcome.db,hemail] using hdb1
        | some email => simpa [Outcome.db,hemail] using unique_setWebUserEmail hdb1 _ _
    | deleteUsers username =>
      obtain rfl := hok
      exact h.sublist (List.filter_sublist.map Account.key)
    | postSubjectRoles b =>
      obtain rfl := hok
      exact h
    | deleteSubjectRoles b =>
      obtain rfl := hok
      exact h

/-- The e-mail of an account has no part in it. -/
theorem administrable_setWebUserEmail (username email : String) :
    Administrable (setWebUserEmail db username email) ↔ Administrable db := by
  rw [administrable_iff,administrable_iff]
  refine exists_congr fun w => ?_
  rw [has_setWebUserEmail]
  rfl

theorem administrable_postUsers {r : Sent} {q : UserPost} {out : Outcome} (hopen : env.openMode=false)
    (hunique : Unique db) (hadmin : Administrable db) (hroute : r.route=.postUsers q)
    (h : Users.postUsers env.toEnv db r.who q=.ok out) :
    Administrable out.db ↔ (∃ w,Has db w ∧ Manages db.rolePermissions w.role ∧ ¬Touches r.route w) ∨
      Supplies env db r := by
  have hsupplies : Supplies env db r ↔ Manages db.rolePermissions (writtenRole env.toEnv db r.who q) ∨
      ∃ role,⟨"user",storedName db q.username,role⟩∈db.subjectRoles ∧
        Manages db.rolePermissions role := by
    simp only [Supplies,hroute]
  rw [hsupplies,hroute]
  obtain ⟨hm,mine,email,hmine,rfl⟩|⟨db1,mr,st,hdb1,rfl⟩ := postUsers_cases hopen h
  · refine iff_of_true ((administrable_setWebUserEmail _ _).mpr hadmin) ?_
    obtain ⟨w,⟨a,ha,hname,hhas⟩,hmanages⟩ := (administrable_iff db).mp hadmin
    by_cases htouch : Touches (.postUsers q) w
    · -- the account's own role is written back
      right
      left
      have hsame : getWebUser db q.username=some a := by
        rw [← hunique.getWebUser_eq ha]
        simp only [getWebUser]
        rw [← htouch.2,hname]
      have hrole : a.role=w.role := by simpa [htouch.1] using hhas
      simpa [writtenRole,hm,hsame,hrole] using hmanages
    · exact Or.inl ⟨w,⟨a,ha,hname,hhas⟩,hmanages,htouch⟩
  · have hwrite := administrable_writeAccount hunique hdb1
    cases hemail : q.email with
    | none => simpa [Outcome.db,hemail,Touches] using hwrite
    | some email =>
      have hsame : Administrable (setWebUserEmail db1 q.username email) ↔ Administrable db1 :=
        administrable_setWebUserEmail _ _
      simpa [Outcome.db,hemail,Touches] using hsame.trans hwrite

/-- One request from a console that can be administered. -/
theorem administrable_step_iff (hopen : env.openMode=false) (r : Sent) (hunique : Unique db)
    (hadmin : Administrable db) : Administrable (step env db r) ↔ Keeps env db r := by
  simp only [step,Keeps]
  cases hres : handle env db r with
  | error e => exact iff_of_true hadmin (Or.inl rfl)
  | ok db' =>
    have hok := handle_ok hres
    have hsome : ¬(Except.ok db' : Except Refusal UsersDb).toOption=none := by simp [Except.toOption]
    simp only [hsome,false_or]
    change Administrable db' ↔ _
    obtain ⟨who,mustReset,route⟩ := r
    cases route with
    | postPermissions role grants =>
      obtain rfl := hok
      exact administrable_setRoleGrants role grants
    | deleteRole role =>
      obtain rfl := hok
      simpa [Touches,Supplies] using administrable_deleteRole role
    | postUsers q =>
      obtain ⟨out,hout,rfl⟩ := hok
      exact administrable_postUsers hopen hunique hadmin rfl hout
    | deleteUsers username =>
      obtain rfl := hok
      rw [administrable_iff]
      simp only [has_deleteUsers,Touches,Supplies,or_false,not_or]
      refine exists_congr fun w => ?_
      rw [and_assoc,and_assoc,and_congr_right_iff]
      intro _
      exact ⟨fun h => ⟨h.2.2,h.1,h.2.1⟩,fun h => ⟨h.2.1,h.2.2,h.1⟩⟩
    | postSubjectRoles b =>
      obtain rfl := hok
      obtain ⟨w,hw,hm⟩ := (administrable_iff db).mp hadmin
      refine iff_of_true ?_ (Or.inl ⟨w,hw,hm,id⟩)
      exact (administrable_iff _).mpr ⟨w,has_addSubjectRole b hw,hm⟩
    | deleteSubjectRoles b =>
      obtain rfl := hok
      rw [administrable_iff]
      simp only [has_deleteSubjectRole,Touches,Supplies,or_false]
      refine exists_congr fun w => ?_
      have htable : (deleteSubjectRole db b).rolePermissions=db.rolePermissions := rfl
      rw [htable]
      tauto

end Step

/-- Two roles grant `role:manage`; the only account has one of them, and the other is nobody's. -/
def twoRoles : UsersDb where
  webUsers := [⟨"alice","admin","pbkdf2$a",false,0,"local",""⟩]
  roles := [⟨"admin",none,none,none⟩,⟨"ops",none,none,none⟩]
  rolePermissions := [⟨"admin","role:manage","*"⟩,⟨"admin","user:manage","*"⟩,⟨"ops","role:manage","*"⟩]
  subjectRoles := []

/-- An administrator through a binding alone. -/
def boundAdmin : UsersDb where
  webUsers := [⟨"alice","none","pbkdf2$a",false,0,"local",""⟩]
  roles := [⟨"admin",none,none,none⟩,⟨"none",none,none,none⟩]
  rolePermissions := [⟨"admin","*:*","*"⟩]
  subjectRoles := [⟨"user","alice","admin"⟩]

def consoleEnv : RoleEnv := { helpdeskEnv with builtin := ["admin","none"], certProfiles := [], templates := [] }

def alice (role : String) (route : Route) : Sent := ⟨⟨"alice",role,[]⟩,false,route⟩

instance (db : UsersDb) : Decidable (Administrable db) :=
  inferInstanceAs (Decidable (∃ a∈db.webUsers,∃ g∈grantsHeld db a,managePermission g.permission))

end FastPki.Rbac.Users
