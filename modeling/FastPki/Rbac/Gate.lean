import FastPki.Framework.Except
import FastPki.Rbac.Subject
import Mathlib.Data.List.Sort

namespace FastPki.Rbac

/-- The reads the gates make; each of them may throw. -/
structure RoleReader where
  listRoles : Except String (List RoleRow)
  getWebUser : String → Except String (Option WebUserRow)
  rolesForSubject : List (String × String) → Except String (List String)
  listRoleGrants : String → Except String (List RoleGrant)

/-- A database that answers every read. -/
def RbacDb.reader (db : RbacDb) : RoleReader where
  listRoles := .ok db.roles
  getWebUser user := .ok (Rbac.getWebUser db user)
  rolesForSubject selectors := .ok (Rbac.rolesForSubject db selectors)
  listRoleGrants role := .ok (Rbac.listRoleGrants db.rolePermissions role)

namespace Gate

def selectorsOf (user : String) (groups : List String) : List (String × String) :=
  (if user = "" then [] else [("user",user)])++(groups.filter (· ≠ "")).map (("group",·))

def boundRoles (rd : RoleReader) (selectors : List (String × String)) :
    Except String (List String) :=
  if selectors = [] then .ok [] else rd.rolesForSubject selectors

/-- `subject_roles`. That the account's own row cannot be read is no error. -/
def subjectRoles (rd : RoleReader) (user primaryRole : String) (groups : List String) :
    Except String SubjectRoles := do
  let claimed0 := if primaryRole = "" then [] else [primaryRole]
  let all ← rd.listRoles
  if all = [] then return ⟨claimed0,false,[]⟩
  else
    let own := if user = "" then none else ((rd.getWebUser user).toOption.join).filter (·.role ≠ "")
    let extra ← boundRoles rd (selectorsOf user groups)
    let claimed := claimed0++own.toList.map (·.role)++extra
    return ⟨claimed,true,all.filter (·.name ∈ claimed)⟩

/-- The test of one grant, the same at both gates. -/
def allows (verb caId : String) (g : RoleGrant) : Bool :=
  permissionImplies g.permission verb && grantInScope g.scope caId

/-- `may_enrol` reads the grants of all roles, by name, before it looks at one. -/
def mayEnrol (rd : RoleReader) (user primaryRole verb caId : String) (groups : List String) : Bool :=
  match subjectRoles rd user primaryRole groups with
  | .error _ => false
  | .ok sr =>
    if !sr.anyDefined then false
    else
      let known := (sr.known.map (·.name)).dedup.insertionSort (· ≤ ·)
      if known = [] then false
      else match known.mapM rd.listRoleGrants with
        | .error _ => false
        | .ok grants => grants.flatten.any (allows verb caId)

/-- The loop of `subject_holds`: it stops at the first grant that will do, and at the first read
that fails. -/
def holdsLoop (rd : RoleReader) (verb caId : String) : List RoleRow → Bool
  | [] => false
  | r::rs => match rd.listRoleGrants r.name with
    | .error _ => false
    | .ok grants => if grants.any (allows verb caId) then true else holdsLoop rd verb caId rs

def subjectHolds (rd : RoleReader) (user primaryRole verb caId : String) (groups : List String) :
    Bool :=
  match subjectRoles rd user primaryRole groups with
  | .error _ => false
  | .ok sr => holdsLoop rd verb caId sr.known

end Gate

section Held

variable (db : RbacDb) (user primaryRole : String) (groups : List String)

/-- The three ways in which a subject comes to a role: it arrives with it, its own row names it, or
the role is bound to it or to one of its groups. -/
inductive Claims : String → Prop where
  | primary : primaryRole≠"" → Claims primaryRole
  | own {u} : user≠"" → getWebUser db user=some u → u.role≠"" → Claims u.role
  | bound {b} : b∈db.subjectRoles → b.selectorType="user" → b.selectorValue=user → user≠"" →
    Claims b.role
  | group {b} : b∈db.subjectRoles → b.selectorType="group" → b.selectorValue∈groups →
    b.selectorValue≠"" → Claims b.role

/-- A row of `roles` that the subject holds. -/
def Holds (r : RoleRow) : Prop := r∈db.roles ∧ Claims db user primaryRole groups r.name

/-- Some role the subject holds has a grant for the verb on this CA. -/
def Entitled (verb caId : String) : Prop :=
  ∃ r,Holds db user primaryRole groups r ∧ ∃ g∈db.rolePermissions,g.role=r.name ∧
    permissionImplies g.permission verb=true ∧ (g.scope="*" ∨ g.scope=caId)

end Held

section Gates

variable {db : RbacDb} {user primaryRole : String} {groups : List String}

theorem mem_rolesForSubject {role : String} :
    role∈rolesForSubject db (Gate.selectorsOf user groups) ↔
      ∃ b∈db.subjectRoles,b.role=role ∧
        ((b.selectorType="user" ∧ b.selectorValue=user ∧ user≠"") ∨
          (b.selectorType="group" ∧ b.selectorValue∈groups ∧ b.selectorValue≠"")) := by
  simp only [rolesForSubject,List.mem_flatMap,List.mem_map,List.mem_filter,decide_eq_true_eq,
    Gate.selectorsOf,List.mem_append]
  constructor
  · intro h
    obtain ⟨sel,hsel,b,⟨hb,htype,hvalue⟩,hrole⟩ := h
    refine ⟨b,hb,hrole,?_⟩
    obtain hsel|⟨g,⟨hg,hne⟩,rfl⟩ := hsel
    · split_ifs at hsel with hu
      · cases hsel
      · obtain rfl := List.mem_singleton.mp hsel
        exact Or.inl ⟨htype,hvalue,hu⟩
    · exact Or.inr ⟨htype,hvalue ▸ hg,hvalue ▸ hne⟩
  · intro h
    obtain ⟨b,hb,hrole,⟨htype,hvalue,hne⟩|⟨htype,hvalue,hne⟩⟩ := h
    · exact ⟨("user",user),Or.inl (by simp [hne]),b,⟨hb,htype,hvalue⟩,hrole⟩
    · exact ⟨("group",b.selectorValue),Or.inr ⟨b.selectorValue,⟨hvalue,hne⟩,rfl⟩,b,
        ⟨hb,htype,rfl⟩,hrole⟩

/-- On a database that answers, the gates resolve the roles as every other reader does. -/
theorem gate_subjectRoles_reader :
    Gate.subjectRoles db.reader user primaryRole groups=
      .ok (subjectRoles db user primaryRole groups) := by
  have hextra : Gate.boundRoles db.reader (Gate.selectorsOf user groups)=
      .ok (rolesForSubject db (Gate.selectorsOf user groups)) := by
    rw [Gate.boundRoles]
    split_ifs with hnone
    · rw [hnone]
      rfl
    · rfl
  by_cases hroles : db.roles=[]
  · have hread : db.reader.listRoles=.ok [] := congrArg Except.ok hroles
    simp only [Gate.subjectRoles,subjectRoles,hread,hroles]
    rfl
  · have hread : db.reader.listRoles=.ok db.roles := rfl
    simp only [Gate.subjectRoles,subjectRoles,hread,hextra]
    rw [if_neg hroles]
    exact if_neg hroles

theorem mem_claimed_iff (hroles : db.roles≠[]) {role : String} :
    role∈(subjectRoles db user primaryRole groups).claimed ↔
      Claims db user primaryRole groups role := by
  have hclaimed : (subjectRoles db user primaryRole groups).claimed=
      (if primaryRole="" then [] else [primaryRole])++
        (if user="" then none else (getWebUser db user).filter (·.role≠"")).toList.map (·.role)++
        rolesForSubject db (Gate.selectorsOf user groups) := by
    simp only [subjectRoles]
    rw [if_neg hroles]
    rfl
  rw [hclaimed,List.mem_append,List.mem_append,mem_rolesForSubject]
  constructor
  · intro h
    obtain (hprimary|hown)|⟨b,hb,rfl,⟨htype,hvalue,hne⟩|⟨htype,hvalue,hne⟩⟩ := h
    · split_ifs at hprimary with hempty
      · cases hprimary
      · obtain rfl := List.mem_singleton.mp hprimary
        exact .primary hempty
    · split_ifs at hown with hempty
      · cases hown
      · obtain ⟨u,hu,rfl⟩ := List.mem_map.mp hown
        obtain ⟨hget,hrole⟩ := Option.filter_eq_some_iff.mp (Option.mem_toList.mp hu)
        exact .own hempty hget (by simpa using hrole)
    · exact .bound hb htype hvalue hne
    · exact .group hb htype hvalue hne
  · intro h
    cases h with
    | primary hne => exact Or.inl (Or.inl (by simp [hne]))
    | @own u hne hget hrole =>
      refine Or.inl (Or.inr (List.mem_map.mpr ⟨u,?_,rfl⟩))
      rw [if_neg hne,Option.mem_toList,Option.filter_eq_some_iff]
      exact ⟨hget,by simpa using hrole⟩
    | @bound b hb htype hvalue hne => exact Or.inr ⟨b,hb,rfl,Or.inl ⟨htype,hvalue,hne⟩⟩
    | @group b hb htype hvalue hne => exact Or.inr ⟨b,hb,rfl,Or.inr ⟨htype,hvalue,hne⟩⟩

theorem mem_known_iff {r : RoleRow} :
    r∈(subjectRoles db user primaryRole groups).known ↔ Holds db user primaryRole groups r := by
  by_cases hroles : db.roles=[]
  · have hknown : (subjectRoles db user primaryRole groups).known=[] := by
      simp only [subjectRoles]
      rw [if_pos hroles]
    simp [hknown,Holds,hroles]
  · have hknown : (subjectRoles db user primaryRole groups).known=
        db.roles.filter (·.name∈(subjectRoles db user primaryRole groups).claimed) := by
      simp only [subjectRoles]
      rw [if_neg hroles]
    rw [hknown,List.mem_filter,decide_eq_true_eq,mem_claimed_iff hroles,Holds]

/-- Where nothing that is read before it fails, the loop finds the grant of any of its roles. -/
theorem holdsLoop_of_readable {rd : RoleReader} {verb caId : String} {rs : List RoleRow}
    (hread : ∀ r∈rs,∃ grants,rd.listRoleGrants r.name=.ok grants) {r : RoleRow} (hr : r∈rs)
    {grants : List RoleGrant} (hgrants : rd.listRoleGrants r.name=.ok grants)
    (hallow : grants.any (Gate.allows verb caId)=true) :
    Gate.holdsLoop rd verb caId rs=true := by
  induction rs with
  | nil => cases hr
  | cons r' rs ih =>
    obtain ⟨grants',hgrants'⟩ := hread r' List.mem_cons_self
    rw [Gate.holdsLoop,hgrants']
    dsimp only
    split_ifs with hany
    · rfl
    · obtain rfl|hlater := List.mem_cons.mp hr
      · rw [hgrants] at hgrants'
        exact absurd (Except.ok.inj hgrants' ▸ hallow) hany
      · exact ih (fun x hx => hread x (List.mem_cons_of_mem _ hx)) hlater

theorem exists_of_holdsLoop {rd : RoleReader} {verb caId : String} {rs : List RoleRow}
    (h : Gate.holdsLoop rd verb caId rs=true) :
    ∃ r∈rs,∃ grants,rd.listRoleGrants r.name=.ok grants ∧
      grants.any (Gate.allows verb caId)=true := by
  induction rs with
  | nil => cases h
  | cons r rs ih =>
    rw [Gate.holdsLoop] at h
    split at h
    · cases h
    · next grants hgrants =>
      split_ifs at h with hany
      · exact ⟨r,List.mem_cons_self,grants,hgrants,hany⟩
      · obtain ⟨r',hr',hex⟩ := ih h
        exact ⟨r',List.mem_cons_of_mem _ hr',hex⟩

/-- `may_enrol` answers yes only where `subject_holds` does, whatever cannot be read: it needs the
grants of every role. -/
theorem subjectHolds_of_mayEnrol {rd : RoleReader} {verb caId : String}
    (h : Gate.mayEnrol rd user primaryRole verb caId groups=true) :
    Gate.subjectHolds rd user primaryRole verb caId groups=true := by
  rw [Gate.mayEnrol] at h
  rw [Gate.subjectHolds]
  cases hsr : Gate.subjectRoles rd user primaryRole groups with
  | error e =>
    rw [hsr] at h
    cases h
  | ok sr =>
    simp only [hsr] at h
    split_ifs at h
    split at h
    · cases h
    · next grants hgrants =>
      obtain ⟨hall,hback⟩ := mapM_ok_mem hgrants
      have hname (n : String) : n∈(sr.known.map (·.name)).dedup.insertionSort (· ≤ ·) ↔
          ∃ r∈sr.known,r.name=n := by
        rw [List.mem_insertionSort,List.mem_dedup,List.mem_map]
      have hread : ∀ r∈sr.known,∃ grants,rd.listRoleGrants r.name=.ok grants := by
        intro r hr
        obtain ⟨gs,_,hgs⟩ := hall r.name ((hname _).mpr ⟨r,hr,rfl⟩)
        exact ⟨gs,hgs⟩
      obtain ⟨g,hg,hallow⟩ := List.any_eq_true.mp h
      obtain ⟨gs,hgs,hmem⟩ := List.mem_flatten.mp hg
      obtain ⟨n,hn,hread'⟩ := hback gs hgs
      obtain ⟨r,hr,rfl⟩ := (hname n).mp hn
      exact holdsLoop_of_readable hread hr hread' (List.any_eq_true.mpr ⟨g,hmem,hallow⟩)

theorem allows_iff {verb caId : String} {g : RoleGrant} :
    Gate.allows verb caId g=true ↔
      permissionImplies g.permission verb=true ∧ (g.scope="*" ∨ g.scope=caId) := by
  simp [Gate.allows,grantInScope]

/-- The rule both gates follow on a database that answers, read off the one of the two that asks for
less. -/
theorem subjectHolds_reader_iff {verb caId : String} :
    Gate.subjectHolds db.reader user primaryRole verb caId groups=true ↔
      Entitled db user primaryRole groups verb caId := by
  rw [Gate.subjectHolds,gate_subjectRoles_reader]
  dsimp only
  constructor
  · intro h
    obtain ⟨r,hr,grants,hgrants,hany⟩ := exists_of_holdsLoop h
    obtain ⟨g,hg,hallow⟩ := List.any_eq_true.mp hany
    obtain rfl : listRoleGrants db.rolePermissions r.name=grants := Except.ok.inj hgrants
    obtain ⟨htable,hrole⟩ : g∈db.rolePermissions ∧ g.role=r.name := by
      simpa [listRoleGrants] using hg
    exact ⟨r,mem_known_iff.mp hr,g,htable,hrole,allows_iff.mp hallow⟩
  · intro h
    obtain ⟨r,hr,g,htable,hrole,hallow⟩ := h
    have hread : ∀ r : RoleRow,db.reader.listRoleGrants r.name=
        .ok (listRoleGrants db.rolePermissions r.name) := fun _ => rfl
    refine holdsLoop_of_readable (fun x _ => ⟨_,hread x⟩) (mem_known_iff.mpr hr) (hread r) ?_
    exact List.any_eq_true.mpr ⟨g,by simp [listRoleGrants,htable,hrole],allows_iff.mpr hallow⟩

theorem mayEnrol_reader_of_entitled {verb caId : String}
    (h : Entitled db user primaryRole groups verb caId) :
    Gate.mayEnrol db.reader user primaryRole verb caId groups=true := by
  obtain ⟨r,hr,g,htable,hrole,hallow⟩ := h
  have hknown := mem_known_iff.mpr hr
  have hdefined : (subjectRoles db user primaryRole groups).anyDefined=true := by
    simp only [subjectRoles]
    rw [if_neg (List.ne_nil_of_mem hr.1)]
  rw [Gate.mayEnrol,gate_subjectRoles_reader]
  simp only [hdefined]
  rw [if_neg (by decide)]
  generalize hnames : ((subjectRoles db user primaryRole groups).known.map
    (·.name)).dedup.insertionSort (· ≤ ·)=names
  have hname : r.name∈names := by
    rw [← hnames,List.mem_insertionSort,List.mem_dedup]
    exact List.mem_map.mpr ⟨r,hknown,rfl⟩
  have hmap : names.mapM db.reader.listRoleGrants=
      .ok (names.map (listRoleGrants db.rolePermissions)) := by
    clear hname hnames
    induction names with
    | nil => rfl
    | cons n names ih =>
      rw [List.mapM_cons,ih]
      rfl
  rw [if_neg (List.ne_nil_of_mem hname),hmap]
  refine List.any_eq_true.mpr ⟨g,?_,allows_iff.mpr hallow⟩
  rw [List.mem_flatten]
  exact ⟨_,List.mem_map.mpr ⟨_,hname,rfl⟩,by simp [listRoleGrants,htable,hrole]⟩

/-- What the other modules take for the gate is the gate. -/
theorem gate_mayEnrol_reader {verb caId : String} :
    Gate.mayEnrol db.reader user primaryRole verb caId groups=
      mayEnrol db user primaryRole verb caId groups := by
  have hplain : mayEnrol db user primaryRole verb caId groups=true ↔
      Entitled db user primaryRole groups verb caId := by
    simp only [mayEnrol,subjectGrants,List.any_eq_true,List.mem_flatMap]
    constructor
    · intro h
      obtain ⟨g,⟨r,hr,hg⟩,hallow⟩ := h
      obtain ⟨htable,hrole⟩ : g∈db.rolePermissions ∧ g.role=r.name := by
        simpa [listRoleGrants] using hg
      exact ⟨r,mem_known_iff.mp hr,g,htable,hrole,allows_iff.mp hallow⟩
    · intro h
      obtain ⟨r,hr,g,htable,hrole,hallow⟩ := h
      exact ⟨g,⟨r,mem_known_iff.mpr hr,by simp [listRoleGrants,htable,hrole]⟩,
        allows_iff.mpr hallow⟩
  rw [Bool.eq_iff_iff,hplain]
  exact ⟨fun h => subjectHolds_reader_iff.mp (subjectHolds_of_mayEnrol h),
    mayEnrol_reader_of_entitled⟩

theorem Claims.mono {db db' : RbacDb} {groups groups' : List String}
    (husers : db'.webUsers=db.webUsers) (hbound : db.subjectRoles⊆db'.subjectRoles)
    (hgroups : groups⊆groups') {role : String} (h : Claims db user primaryRole groups role) :
    Claims db' user primaryRole groups' role := by
  cases h with
  | primary hne => exact .primary hne
  | own hne hget hrole =>
    refine .own hne ?_ hrole
    rw [getWebUser,husers]
    exact hget
  | bound hb htype hvalue hne => exact .bound (hbound hb) htype hvalue hne
  | group hb htype hvalue hne => exact .group (hbound hb) htype (hgroups hvalue) hne

end Gates

/-- What a role states as a limit; NULL and 0 state none. -/
def stated (limit : Option Int) : Option Int := limit.filter (0 < ·)

/-- A second limit is no tighter than the first one: it is absent, or there was one already and it
was no larger. -/
def NoTighter (before after : Option Int) : Prop := ∀ y,after=some y → ∃ x,before=some x ∧ x ≤ y

structure RoleLimits.NoTighter (before after : RoleLimits) : Prop where
  maxCerts : Rbac.NoTighter before.maxCerts after.maxCerts
  maxCn : Rbac.NoTighter before.maxCn after.maxCn
  maxSan : Rbac.NoTighter before.maxSan after.maxSan

/-- The limits that these roles state in one column. -/
def statedBy (limit : RoleRow → Option Int) (rs : List RoleRow) : List Int :=
  rs.filterMap fun r => stated (limit r)

theorem foldl_widen (limits : List (Option Int)) (slot : Option Int) :
    limits.foldl widen slot=(slot.toList++limits.filterMap stated).max? := by
  induction limits generalizing slot with
  | nil => cases slot <;> rfl
  | cons l limits ih =>
    rw [List.foldl_cons,ih]
    cases l with
    | none => rfl
    | some v =>
      by_cases hv : 0<v
      · have hstated : stated (some v)=some v := by simp [stated,hv]
        rw [List.filterMap_cons_some hstated,widen,if_pos hv]
        cases slot <;> rfl
      · have hstated : stated (some v)=none := by simpa [stated] using hv
        rw [List.filterMap_cons_none hstated,widen,if_neg hv]

/-- `role_limits` in each column: the widest limit stated, and none where no role states one. -/
theorem roleLimits_eq (db : RbacDb) (user primaryRole : String) (groups : List String) :
    roleLimits db user primaryRole groups=
      let known := (subjectRoles db user primaryRole groups).known
      ⟨(statedBy (·.maxCerts) known).max?,(statedBy (·.maxCn) known).max?,
        (statedBy (·.maxSan) known).max?⟩ := by
  have hsplit (rs : List RoleRow) (out : RoleLimits) :
      rs.foldl (fun out r => ⟨widen out.maxCerts r.maxCerts,widen out.maxCn r.maxCn,
          widen out.maxSan r.maxSan⟩) out=
        ⟨(rs.map (·.maxCerts)).foldl widen out.maxCerts,(rs.map (·.maxCn)).foldl widen out.maxCn,
          (rs.map (·.maxSan)).foldl widen out.maxSan⟩ := by
    induction rs generalizing out with
    | nil => rfl
    | cons r rs ih => exact ih _
  rw [roleLimits,hsplit,foldl_widen,foldl_widen,foldl_widen]
  simp only [Option.toList_none,List.nil_append,List.filterMap_map]
  rfl

theorem noTighter_max?_iff {a b : List Int} (hsub : a⊆b) :
    NoTighter a.max? b.max? ↔ a≠[] ∨ b=[] := by
  constructor
  · intro h
    by_contra hnot
    obtain ⟨ha,hb⟩ := not_or.mp hnot
    obtain ⟨y,hy⟩ := Option.ne_none_iff_exists'.mp fun hnone => hb (List.max?_eq_none_iff.mp hnone)
    obtain ⟨x,hx,_⟩ := h y hy
    rw [not_not.mp ha] at hx
    cases hx
  · intro h y hy
    obtain ⟨hmem,hmax⟩ := List.max?_eq_some_iff.mp hy
    have ha : a≠[] := h.resolve_right (List.ne_nil_of_mem hmem)
    obtain ⟨x,hx⟩ := Option.ne_none_iff_exists'.mp fun hnone => ha (List.max?_eq_none_iff.mp hnone)
    exact ⟨x,hx,hmax x (hsub (List.max?_eq_some_iff.mp hx).1)⟩

/-- Where one more role leaves every limit no tighter: in each column the roles held before state a
limit, or those held afterwards state none. -/
theorem more_roles_no_tighter_iff (db : RbacDb) (bindings : List SubjectRole)
    (user primaryRole : String) (groups groups' : List String)
    (hsub : (subjectRoles db user primaryRole groups).known⊆
      (subjectRoles { db with subjectRoles := bindings } user primaryRole groups').known) :
    (roleLimits db user primaryRole groups).NoTighter
        (roleLimits { db with subjectRoles := bindings } user primaryRole groups') ↔
      ∀ limit∈[RoleRow.maxCerts,RoleRow.maxCn,RoleRow.maxSan],
        (∃ r∈(subjectRoles db user primaryRole groups).known,∃ v>0,limit r=some v) ∨
          ∀ r∈(subjectRoles { db with subjectRoles := bindings } user primaryRole groups').known,
            ∀ v>0,limit r≠some v := by
  rw [roleLimits_eq,roleLimits_eq]
  generalize (subjectRoles db user primaryRole groups).known=a at hsub ⊢
  generalize (subjectRoles { db with subjectRoles := bindings } user primaryRole groups').known=b
    at hsub ⊢
  have hcolumn (limit : RoleRow → Option Int) :
      NoTighter (statedBy limit a).max? (statedBy limit b).max? ↔
        (∃ r∈a,∃ v>0,limit r=some v) ∨ ∀ r∈b,∀ v>0,limit r≠some v := by
    have hstates (rs : List RoleRow) : statedBy limit rs=[] ↔ ∀ r∈rs,∀ v>0,limit r≠some v := by
      simp only [statedBy,List.filterMap_eq_nil_iff,stated,Option.filter_eq_none_iff]
      refine forall₂_congr fun r hr => ?_
      constructor
      · intro h v hv heq
        simpa [hv] using h v heq
      · intro h v heq
        simpa using fun hv => h v hv heq
    have hstated : statedBy limit a⊆statedBy limit b := List.filterMap_subset _ hsub
    rw [noTighter_max?_iff hstated,ne_eq,hstates a,hstates b]
    simp
  simp only [List.forall_mem_cons,List.not_mem_nil,IsEmpty.forall_iff,implies_true,and_true,
    ← hcolumn]
  exact ⟨fun h => ⟨h.maxCerts,h.maxCn,h.maxSan⟩,fun h => ⟨h.1,h.2.1,h.2.2⟩⟩

/-- Operators without any limit, and contractors with at most five certificates. -/
def limitDb : RbacDb where
  roles := [⟨"contractor",some 5,none,none⟩,⟨"operator",none,some 0,none⟩]
  rolePermissions := []
  webUsers := [⟨"alice","operator"⟩,⟨"bob","contractor"⟩]
  subjectRoles := [⟨"group","ops","operator"⟩,⟨"group","temps","contractor"⟩]

theorem more_roles_no_tighter_bob :
    (subjectRoles limitDb "bob" "" []).known⊆(subjectRoles limitDb "bob" "" ["ops"]).known ∧
    (roleLimits limitDb "bob" "" []).NoTighter (roleLimits limitDb "bob" "" ["ops"]) := by
  have hsub : (subjectRoles limitDb "bob" "" []).known⊆
      (subjectRoles limitDb "bob" "" ["ops"]).known := by decide
  have hcontractor : ⟨"contractor",some 5,none,none⟩∈(subjectRoles limitDb "bob" "" []).known := by
    decide
  have hheld : (subjectRoles limitDb "bob" "" ["ops"]).known=limitDb.roles := by decide
  refine ⟨hsub,(more_roles_no_tighter_iff limitDb limitDb.subjectRoles "bob" "" [] ["ops"]
    hsub).mpr fun limit hlimit => ?_⟩
  have hheld' : (subjectRoles { limitDb with subjectRoles := limitDb.subjectRoles } "bob" ""
    ["ops"]).known=limitDb.roles := hheld
  rw [hheld']
  simp only [List.mem_cons,List.not_mem_nil,or_false] at hlimit
  obtain rfl|rfl|rfl := hlimit
  · exact Or.inl ⟨_,hcontractor,5,by decide,rfl⟩
  · right
    simp [limitDb]
    omega
  · right
    simp [limitDb]

/-- An operator who joins the contractors may hold five certificates from then on. -/
theorem more_roles_tighter_alice :
    (subjectRoles limitDb "alice" "" []).known⊆(subjectRoles limitDb "alice" "" ["temps"]).known ∧
    (roleLimits limitDb "alice" "" []).maxCerts=none ∧
    (roleLimits limitDb "alice" "" ["temps"]).maxCerts=some 5 := by
  decide

end FastPki.Rbac
