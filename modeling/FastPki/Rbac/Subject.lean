import FastPki.Rbac.Grants
import Mathlib.Data.Finset.Basic

namespace FastPki.Rbac

/-- A row of `roles`; a limit is NULL when the role sets none. -/
structure RoleRow where
  name : String
  maxCerts : Option Int
  maxCn : Option Int
  maxSan : Option Int
  deriving DecidableEq

structure WebUserRow where
  username : String
  role : String
  deriving DecidableEq

structure SubjectRole where
  selectorType : String
  selectorValue : String
  role : String
  deriving DecidableEq

/-- The tables from which every authorization is read. `webUsers` is listed in the order of the
user names. -/
structure RbacDb where
  roles : List RoleRow
  rolePermissions : List RoleGrant
  webUsers : List WebUserRow
  subjectRoles : List SubjectRole

def lower (s : String) : String := String.ofList (s.toList.map Char.toLower)

/-- What libpq takes of a text ends at its first NUL. -/
def cStr (s : String) : String := String.ofList (s.toList.takeWhile (· ≠ '\x00'))

def getWebUser (db : RbacDb) (username : String) : Option WebUserRow :=
  db.webUsers.find? fun u => lower u.username = lower username

def rolesForSubject (db : RbacDb) (selectors : List (String × String)) : List String :=
  selectors.flatMap fun sel =>
    (db.subjectRoles.filter fun s => s.selectorType = sel.1 ∧ s.selectorValue = sel.2).map (·.role)

structure SubjectRoles where
  claimed : List String
  anyDefined : Bool
  known : List RoleRow

/-- The role an account arrives with, the role of its own row and the roles bound to it or to its
groups; only those with a row in `roles` can carry a grant. -/
def subjectRoles (db : RbacDb) (user primaryRole : String) (groups : List String) : SubjectRoles :=
  let claimed0 := if primaryRole = "" then [] else [primaryRole]
  if db.roles = [] then ⟨claimed0,false,[]⟩
  else
    let selectors := (if user = "" then [] else [("user",user)]) ++
      (groups.filter (· ≠ "")).map (("group",·))
    let own := if user = "" then none else (getWebUser db user).filter (·.role ≠ "")
    let claimed := claimed0 ++ own.toList.map (·.role) ++ rolesForSubject db selectors
    ⟨claimed,true,db.roles.filter (·.name ∈ claimed)⟩

/-- Every grant of the roles a subject really holds. -/
def subjectGrants (db : RbacDb) (sr : SubjectRoles) : List RoleGrant :=
  sr.known.flatMap fun r => listRoleGrants db.rolePermissions r.name

def grantInScope (grantScope want : String) : Bool := grantScope = "*" ∨ grantScope = want

def mayEnrol (db : RbacDb) (user primaryRole verb caId : String) (groups : List String) : Bool :=
  (subjectGrants db (subjectRoles db user primaryRole groups)).any fun g =>
    permissionImplies g.permission verb && grantInScope g.scope caId

structure RoleLimits where
  maxCerts : Option Int
  maxCn : Option Int
  maxSan : Option Int
  deriving DecidableEq

/-- NULL and 0 both say that the role sets no limit; the largest limit wins. -/
def widen (slot limit : Option Int) : Option Int :=
  match limit with
  | none => slot
  | some v => if v > 0 then some (slot.elim v (max · v)) else slot

def roleLimits (db : RbacDb) (user primaryRole : String) (groups : List String) : RoleLimits :=
  (subjectRoles db user primaryRole groups).known.foldl (fun out r =>
    ⟨widen out.maxCerts r.maxCerts,widen out.maxCn r.maxCn,widen out.maxSan r.maxSan⟩)
    ⟨none,none,none⟩

end FastPki.Rbac
