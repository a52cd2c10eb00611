import FastPki.Framework.Except
import FastPki.Framework.Table
import FastPki.Rbac.Assign

namespace FastPki.Rbac.Users

/-- A row of `web_users`. -/
structure Account where
  username : String
  role : String
  hash : String
  mustReset : Bool
  created : Int
  authProvider : String
  email : String
  deriving DecidableEq

/-- `web_users` has a unique index on `lower(username)`. -/
def Account.key (a : Account) : String := lower a.username

structure UsersDb where
  webUsers : List Account
  roles : List RoleRow
  rolePermissions : List RoleGrant
  subjectRoles : List SubjectRole
  deriving DecidableEq

/-- The same tables as the authorization reads them. -/
def UsersDb.rbac (db : UsersDb) : RbacDb :=
  ⟨db.roles,db.rolePermissions,db.webUsers.map fun a => ⟨a.username,a.role⟩,db.subjectRoles⟩

def getWebUser (db : UsersDb) (username : String) : Option Account :=
  lookup Account.key (lower username) db.webUsers

/-- On a conflict the name, the creation time and the address of the stored row stay, and its
provider unless a new one is given. -/
def onConflict (old u : Account) : Account :=
  { old with
    role := u.role
    hash := u.hash
    mustReset := u.mustReset
    authProvider := if u.authProvider = "" then old.authProvider else u.authProvider }

def upsertWebUser (db : UsersDb) (u : Account) : UsersDb :=
  let row := (getWebUser db u.username).elim u (onConflict · u)
  { db with webUsers := upsert Account.key row db.webUsers }

def setWebUserEmail (db : UsersDb) (username email : String) : UsersDb :=
  { db with webUsers := db.webUsers.map fun a =>
      if a.key = lower username then { a with email := email } else a }

def roleExists (db : UsersDb) (name : String) : Bool := db.roles.any (·.name = name)

/-- Who sends the request: `user_of`, `role_of` (empty when there is none) and the groups of the
session. -/
structure Requester where
  user : String
  role : String
  groups : List String

/-- `roles_of`: the primary role, and the roles bound to the user or to one of the groups. -/
def rolesOf (db : UsersDb) (c : Requester) : List String :=
  (if c.role = "" then [] else [c.role]) ++ rolesForSubject db.rbac
    ((if c.user = "" ∨ c.user = "anonymous" then [] else [("user",c.user)]) ++
      c.groups.map (("group",·)))

/-- The configuration and the functions the handler is given. `openMode` is a console without a
token and without users. -/
structure Env where
  webAllowRevoke : Bool
  openMode : Bool
  hashPassword : String → String
  verifyPassword : String → String → Bool
  now : Int

/-- The parameters of `POST /api/users`; those that may be absent are options. -/
structure UserPost where
  username : String
  password : String
  role : Option String
  mustReset : String
  email : Option String
  create : String
  old : String

structure Refusal where
  status : Nat
  error : String
  deriving DecidableEq

inductive Outcome where
  | emailSet (db : UsersDb)
  | written (db : UsersDb) (status : Nat)
  deriving DecidableEq

def flag (value : String) : Bool := value = "true" ∨ value = "1"

def mailboxForbidden : List Char := ['<','>','(',')',',',';',':','"','[',']','\\']

def plausibleMailbox (a : String) : Bool :=
  3 ≤ a.utf8ByteSize ∧ a.utf8ByteSize ≤ 254 ∧
    (let loc := a.toList.takeWhile (· ≠ '@')
     let dom := (a.toList.dropWhile (· ≠ '@')).drop 1
     loc ≠ [] ∧ dom ≠ [] ∧ '@' ∈ a.toList ∧ '@' ∉ dom ∧
       (a.toList.all fun c => 0x20 < c.toNat ∧ c.toNat < 0x7f ∧ c ∉ mailboxForbidden) ∧
       dom.head? ≠ some '.' ∧ dom.getLast? ≠ some '.' ∧ ¬['.','.'] <:+: dom)

def validUser (s : String) : Bool :=
  s ≠ "" ∧ s.utf8ByteSize ≤ 64 ∧
    s.toList.all fun c => c.isAlphanum ∨ c ∈ ['-','_','.','@','$','/','\\']

def managesUsers (env : Env) (db : UsersDb) (c : Requester) : Bool :=
  env.openMode ∨ "user:manage" ∈ permissionsForRoles db.rolePermissions (rolesOf db c) ∨
    "*:*" ∈ permissionsForRoles db.rolePermissions (rolesOf db c)

/-- Without `user:manage`: the own address, or the own password against the current one. The role
written back is the stored one. -/
def selfService (env : Env) (db : UsersDb) (c : Requester) (q : UserPost) :
    Except Refusal (UsersDb ⊕ String) := do
  refuseIf (q.username ≠ c.user) ⟨403,"self:manage can only change your own account"⟩
  let mine ← requireSome (getWebUser db c.user) ⟨403,"self:manage needs a local user record"⟩
  if q.password = "" ∧ q.email ≠ none then
    return .inl (setWebUserEmail db mine.username (q.email.getD ""))
  refuseIf (q.password = "") ⟨400,"password required"⟩
  refuseIf (env.verifyPassword q.old mine.hash = false) ⟨401,"current password incorrect"⟩
  return .inr mine.role

/-- The own role stays, and nobody hands out more than they hold. -/
def ceiling (env : Env) (db : UsersDb) (c : Requester) (q : UserPost) (role : String) :
    Except Refusal Unit := do
  if env.openMode then return ()
  refuseIf (∃ mine∈getWebUser db c.user,∃ target∈getWebUser db q.username,
      mine.username = target.username ∧ mine.role ≠ role)
    ⟨403,"you cannot change your own role — ask another administrator"⟩
  refuseIf (mayAssignRole db.rolePermissions env.openMode (rolesOf db c) role = false)
    ⟨403,"role '"++role++"' grants permissions you do not hold"⟩

/-- A forced reset needs `self:manage` among the roles of the account. -/
def canReset (db : UsersDb) (username role : String) : Bool :=
  capsAllow (permissionsForRoles db.rolePermissions
    ((subjectRoles db.rbac username role []).known.map (·.name))) ["self:manage"]

/-- The account as it is written. -/
def writeAccount (env : Env) (db : UsersDb) (q : UserPost) (role : String) (mustReset : Bool) :
    Except Refusal UsersDb :=
  if q.password ≠ "" then
    .ok (upsertWebUser db ⟨q.username,role,env.hashPassword q.password,mustReset,env.now,"local",""⟩)
  else do
    let row ← requireSome (getWebUser db q.username) ⟨400,"password required for a new user"⟩
    return upsertWebUser db { row with role := role, mustReset := mustReset }

/-- The handler from the checks of the name on. -/
def saveUser (env : Env) (db : UsersDb) (c : Requester) (q : UserPost) (role : String)
    (mustReset : Bool) : Except Refusal Outcome := do
  refuseIf (validUser q.username = false) ⟨400,"invalid username"⟩
  refuseIf (roleExists db role = false) ⟨400,"no such role: "++role⟩
  ceiling env db c q role
  refuseIf (flag q.create ∧ ∃ a∈db.webUsers,a.key = lower q.username)
    ⟨409,"a user with that name already exists"⟩
  refuseIf (getWebUser db q.username = none ∧ q.password.utf8ByteSize < 8)
    ⟨400,"new user needs a password >= 8 chars"⟩
  refuseIf (getWebUser db q.username ≠ none ∧ q.password ≠ "" ∧ q.password.utf8ByteSize < 8)
    ⟨400,"a password must be >= 8 chars"⟩
  refuseIf (mustReset ∧ canReset db q.username role = false)
    ⟨400,"cannot force a password reset: this account's roles do not grant self:manage, so it "++
      "could not change its password and would be locked out"⟩
  let db' ← writeAccount env db q role mustReset
  return .written (q.email.elim db' (setWebUserEmail db' q.username))
    (if getWebUser db q.username = none then 201 else 200)

def postUsers (env : Env) (db : UsersDb) (c : Requester) (q : UserPost) :
    Except Refusal Outcome := do
  refuseIf (env.webAllowRevoke = false) ⟨403,"console writes disabled (set WEB_ALLOW_REVOKE=true)"⟩
  let prior := getWebUser db q.username
  refuseIf (q.role = none ∧ env.openMode = false ∧ prior = none)
    ⟨400,"role is required when creating a user"⟩
  refuseIf (∃ e∈q.email,e ≠ "" ∧ plausibleMailbox e = false)
    ⟨400,"email must be one address, like name@example.org"⟩
  if managesUsers env db c then
    saveUser env db c q (q.role.getD (if env.openMode then "admin" else (prior.elim "" (·.role))))
      (flag q.mustReset)
  else
    match ← selfService env db c q with
    | .inl db' => return .emailSet db'
    | .inr role => saveUser env db c q role false

/-- The name under which an account is or will be stored. -/
def storedName (db : UsersDb) (username : String) : String :=
  (getWebUser db username).elim username (·.username)

/-- Reading back what `upsert_web_user` wrote. -/
theorem getWebUser_upsertWebUser (db : UsersDb) (u : Account) :
    ∃ a,getWebUser (upsertWebUser db u) u.username=some a ∧
      a.username=storedName db u.username ∧ a.role=u.role := by
  simp only [upsertWebUser,storedName]
  cases hold : getWebUser db u.username with
  | none => exact ⟨u,lookup_upsert_self u db.webUsers,rfl,rfl⟩
  | some old =>
    have hold' : old.key=lower u.username := lookup_key hold
    have hkey : (onConflict old u).key=lower u.username := hold'
    refine ⟨onConflict old u,?_,rfl,rfl⟩
    simp only [getWebUser]
    rw [← hkey]
    exact lookup_upsert_self (onConflict old u) db.webUsers

theorem getWebUser_setWebUserEmail (db : UsersDb) (username email name : String) :
    getWebUser (setWebUserEmail db username email) name=(getWebUser db name).map fun a =>
      if a.key=lower username then { a with email := email } else a := by
  apply lookup_map
  intro a
  split_ifs <;> rfl

/-- The grants an account holds: of its primary role and of the roles bound to its name. -/
def grantsHeld (db : UsersDb) (a : Account) : List RoleGrant :=
  listRoleGrants db.rolePermissions a.role ++
    (rolesForSubject db.rbac [("user",a.username)]).flatMap (listRoleGrants db.rolePermissions)

/-- Some grant of the requester covers `g`. -/
def CoveredBy (db : UsersDb) (c : Requester) (g : RoleGrant) : Prop :=
  ∃ have_∈grantsOf db.rolePermissions (rolesOf db c),covers have_ g=true

/-- Every grant of every role bound to the account by its stored name is covered. -/
def BindingsCovered (db : UsersDb) (c : Requester) (username : String) : Prop :=
  ∀ r∈rolesForSubject db.rbac [("user",storedName db username)],
    ∀ g∈listRoleGrants db.rolePermissions r,CoveredBy db c g

/-- The rights tables are not the handler's to change. -/
def SameRights (db db' : UsersDb) : Prop :=
  db'.rolePermissions=db.rolePermissions ∧ db'.subjectRoles=db.subjectRoles

theorem writeAccount_ok {env : Env} {db db' : UsersDb} {q : UserPost} {role : String} {mr : Bool}
    (h : writeAccount env db q role mr=.ok db') : SameRights db db' ∧
      ∃ a,getWebUser db' q.username=some a ∧ a.username=storedName db q.username ∧
        a.role=role := by
  simp only [writeAccount] at h
  split_ifs at h with hpw
  · obtain rfl := Except.ok.inj h
    exact ⟨⟨rfl,rfl⟩,getWebUser_upsertWebUser db _⟩
  · obtain ⟨row,hrow,hdb⟩ := bind_eq_ok_iff.mp h
    obtain rfl := Except.ok.inj hdb
    have hrow := requireSome_eq_ok_iff.mp hrow
    have hkey : row.key=lower q.username := lookup_key hrow
    refine ⟨⟨rfl,rfl⟩,?_⟩
    obtain ⟨a,ha,hname,hrole⟩ :=
      getWebUser_upsertWebUser db { row with role := role, mustReset := mr }
    have hsame (d : UsersDb) : getWebUser d row.username=getWebUser d q.username := by
      simp only [getWebUser]
      rw [← hkey]
      rfl
    refine ⟨a,(hsame _).symm.trans ha,?_,hrole⟩
    rw [hname]
    simp only [storedName,hsame,hrow]
    rfl

theorem ceiling_ok {env : Env} {db : UsersDb} {c : Requester} {q : UserPost} {role : String}
    {u : Unit} (hopen : env.openMode=false) (h : ceiling env db c q role=.ok u) :
    mayAssignRole db.rolePermissions false (rolesOf db c) role=true := by
  simp only [ceiling,hopen,Bool.false_eq_true,if_false] at h
  obtain ⟨_,_,h⟩ := bind_eq_ok_iff.mp h
  simpa using refuseIf_eq_ok_iff.mp h

/-- What the last part of the handler has checked and written when it answers. -/
theorem saveUser_ok {env : Env} {db : UsersDb} {c : Requester} {q : UserPost} {role : String}
    {mr : Bool} {out : Outcome} (hopen : env.openMode=false)
    (h : saveUser env db c q role mr=.ok out) :
    mayAssignRole db.rolePermissions false (rolesOf db c) role=true ∧
      ∃ db' st,out=.written db' st ∧ SameRights db db' ∧
        ∃ a,getWebUser db' q.username=some a ∧ a.username=storedName db q.username ∧
          a.role=role := by
  obtain ⟨_,_,h⟩ := bind_eq_ok_iff.mp h
  obtain ⟨_,_,h⟩ := bind_eq_ok_iff.mp h
  obtain ⟨_,hceil,h⟩ := bind_eq_ok_iff.mp h
  refine ⟨ceiling_ok hopen hceil,?_⟩
  obtain ⟨_,_,h⟩ := bind_eq_ok_iff.mp h
  obtain ⟨_,_,h⟩ := bind_eq_ok_iff.mp h
  obtain ⟨_,_,h⟩ := bind_eq_ok_iff.mp h
  obtain ⟨_,_,h⟩ := bind_eq_ok_iff.mp h
  obtain ⟨db1,hwrite,h⟩ := bind_eq_ok_iff.mp h
  obtain ⟨hsame,a,ha,hname,hrole⟩ := writeAccount_ok hwrite
  refine ⟨_,_,(Except.ok.inj h).symm,?_⟩
  cases q.email with
  | none => exact ⟨hsame,a,ha,hname,hrole⟩
  | some email =>
    have hkey : a.key=lower q.username := lookup_key ha
    refine ⟨hsame,{ a with email := email },?_,hname,hrole⟩
    rw [Option.elim_some,getWebUser_setWebUserEmail,ha,Option.map_some,if_pos hkey]

theorem postUsers_ok {env : Env} {db db' : UsersDb} {c : Requester} {q : UserPost} {st : Nat}
    (h : postUsers env db c q=.ok (.written db' st)) :
    ∃ role mr,saveUser env db c q role mr=.ok (.written db' st) := by
  obtain ⟨_,_,h⟩ := bind_eq_ok_iff.mp h
  obtain ⟨_,_,h⟩ := bind_eq_ok_iff.mp h
  obtain ⟨_,_,h⟩ := bind_eq_ok_iff.mp h
  by_cases hmanages : managesUsers env db c=true
  · rw [if_pos hmanages] at h
    exact ⟨_,_,h⟩
  · rw [if_neg hmanages] at h
    obtain ⟨own,_,h⟩ := bind_eq_ok_iff.mp h
    obtain db1|role := own
    · cases h
    · exact ⟨role,false,h⟩

/-- After `POST /api/users` has set the password or the role of an account, the requester's own
grants cover every grant the account holds, exactly when they cover those of the roles bound to
the account by name. -/
theorem account_within_requester_iff (env : Env) (db db' : UsersDb) (c : Requester) (q : UserPost)
    (st : Nat) (hopen : env.openMode=false)
    (h : postUsers env db c q=.ok (.written db' st)) :
    ∃ a,getWebUser db' q.username=some a ∧
      ((∀ g∈grantsHeld db' a,CoveredBy db c g) ↔ BindingsCovered db c q.username) := by
  obtain ⟨role,mr,hsave⟩ := postUsers_ok h
  obtain ⟨hmay,db1,st1,hout,hsame,a,ha,hname,hrole⟩ := saveUser_ok hopen hsave
  obtain ⟨rfl,rfl⟩ := Outcome.written.inj hout
  refine ⟨a,ha,?_⟩
  have hheld : grantsHeld db' a=listRoleGrants db.rolePermissions role ++
      (rolesForSubject db.rbac [("user",storedName db q.username)]).flatMap
        (listRoleGrants db.rolePermissions) := by
    simp only [grantsHeld,rolesForSubject,UsersDb.rbac,hsame.1,hsame.2,hname,hrole]
  have hprimary : ∀ g∈listRoleGrants db.rolePermissions role,CoveredBy db c g := by
    intro g hg
    exact mayAssignRole_iff.mp hmay g (by simpa [listRoleGrants,grantsOf] using hg)
  rw [hheld,BindingsCovered]
  constructor
  · intro hall r hr g hg
    exact hall g (List.mem_append_right _ (List.mem_flatMap.mpr ⟨r,hr,hg⟩))
  · intro hbound g hg
    obtain hg|hg := List.mem_append.mp hg
    · exact hprimary g hg
    · obtain ⟨r,hr,hg⟩ := List.mem_flatMap.mp hg
      exact hbound r hr g hg

/-- On the own account the condition holds by itself: its bindings are the requester's roles. -/
theorem bindingsCovered_self {db : UsersDb} {c : Requester} {username : String}
    (hself : storedName db username=c.user) (hne : c.user≠"") (hanon : c.user≠"anonymous") :
    BindingsCovered db c username := by
  intro r hr g hg
  rw [hself] at hr
  have hmine : r∈rolesOf db c := by
    simp only [rolesOf,rolesForSubject,hne,hanon,or_self,if_false,List.mem_append,
      List.flatMap_append]
    exact Or.inr (Or.inl hr)
  have hg' := List.mem_filter.mp hg
  refine ⟨g,List.mem_filter.mpr ⟨hg'.1,?_⟩,covers_iff.mpr ⟨Or.inl rfl,Or.inr rfl⟩⟩
  rw [decide_eq_true_eq] at hg' ⊢
  rwa [hg'.2]

/-- A helpdesk account, and an account that is an administrator through a binding only. -/
def helpdeskDb : UsersDb where
  webUsers := [⟨"alice","helpdesk","pbkdf2$a",false,0,"local",""⟩,
    ⟨"bob","none","pbkdf2$b",false,0,"local",""⟩,⟨"carol","none","pbkdf2$c",false,0,"local",""⟩]
  roles := [⟨"admin",none,none,none⟩,⟨"helpdesk",none,none,none⟩,⟨"none",none,none,none⟩]
  rolePermissions := [⟨"admin","*:*","*"⟩,⟨"helpdesk","user:manage","*"⟩]
  subjectRoles := [⟨"user","bob","admin"⟩]

def helpdeskEnv : Env := ⟨true,false,("pbkdf2$"++·),fun pw hash => "pbkdf2$"++pw=hash,1000⟩

def helpdesk : Requester := ⟨"alice","helpdesk",[]⟩

/-- A password reset that names no role, so that the account keeps its own. -/
def resetOf (username : String) : UserPost := ⟨username,"longenough",none,"",none,"",""⟩

def afterReset (username : String) : UsersDb :=
  upsertWebUser helpdeskDb ⟨username,"none","pbkdf2$longenough",false,1000,"local",""⟩

theorem account_within_requester_carol :
    postUsers helpdeskEnv helpdeskDb helpdesk (resetOf "carol")=
      .ok (.written (afterReset "carol") 200) ∧
    ∃ a,getWebUser (afterReset "carol") "carol"=some a ∧
      ((∀ g∈grantsHeld (afterReset "carol") a,CoveredBy helpdeskDb helpdesk g) ↔
        BindingsCovered helpdeskDb helpdesk "carol") :=
  ⟨by decide,account_within_requester_iff helpdeskEnv helpdeskDb (afterReset "carol") helpdesk
    (resetOf "carol") 200 rfl (by decide)⟩

/-- The helpdesk resets the password of the bound administrator and may sign in as it. -/
theorem account_exceeds_requester :
    helpdeskEnv.openMode=false ∧
    postUsers helpdeskEnv helpdeskDb helpdesk (resetOf "bob")=
      .ok (.written (afterReset "bob") 200) ∧
    ∃ a,getWebUser (afterReset "bob") "bob"=some a ∧ a.hash=helpdeskEnv.hashPassword "longenough" ∧
      ⟨"admin","*:*","*"⟩∈grantsHeld (afterReset "bob") a ∧
      ¬CoveredBy helpdeskDb helpdesk ⟨"admin","*:*","*"⟩ := by
  refine ⟨rfl,by decide,⟨"bob","none","pbkdf2$longenough",false,0,"local",""⟩,by decide,by decide,
    by decide,?_⟩
  simp only [CoveredBy]
  decide

end FastPki.Rbac.Users
