import FastPki.Backup.Config
import FastPki.Profile.Resolve

namespace FastPki.Ms

open Rbac Profile
open Backup (MsTemplate)

/-- What grants permit of a list of templates. Only `template:use` counts, a star stands for every
enabled template, and a name without an enabled row behind it is dropped. -/
def permitted (grants : List RoleGrant) (known : List MsTemplate) : List String :=
  let uses := grants.filter fun g =>
    scopeKind g.permission = .template ∧ g.permission = "template:use"
  let named := (uses.filter (·.scope ≠ "*")).map (·.scope)
  let all := if uses.any (·.scope = "*") then named++(known.filter (·.enabled)).map (·.name)
    else named
  (all.dedup.insertionSort (· ≤ ·)).filter fun n => known.any fun t => t.name = n ∧ t.enabled

/-- A lookup that throws permits nothing. -/
def templatesForIdentity (rd : RoleReader) (id : ProfileIdentity) (known : List MsTemplate) :
    List String :=
  if id.username = "" ∧ id.role = "" then []
  else match Gate.subjectRoles rd id.username id.role id.groups with
    | .error _ => []
    | .ok sr => match sr.known.mapM fun r => rd.listRoleGrants r.name with
      | .error _ => []
      | .ok grants => permitted grants.flatten known

/-- The lambda `row`: the first template of that name. -/
def templateRow (known : List MsTemplate) (n : String) : Except Error MsTemplate :=
  match known.find? (·.name = n) with
  | some t => .ok t
  | none => .error ⟨1,"policy: template '"++n++"' is permitted but has no row"⟩

def resolveMsTemplate (rd : RoleReader) (id : ProfileIdentity) (requested : String)
    (known : List MsTemplate) : Except Error MsTemplate :=
  match templatesForIdentity rd id known with
  | [] => .error ⟨1,"policy: this identity holds no template permission, so no MS "++
      "certificate template applies. Grant one of its roles template:use "++
      "or template:edit on the template it should enrol under."⟩
  | first::rest =>
    if requested ≠ "" then
      if requested ∈ first::rest then templateRow known requested
      else .error ⟨1,"policy: MS template '"++requested++"' is not permitted for this identity"⟩
    else if rest = [] then templateRow known first
    else .error ⟨1,"policy: this identity may enrol under several MS templates ("++
      ", ".intercalate (first::rest)++") and the request named none, so which one applies is "++
      "undefined. Have the client select a template, or narrow the grants."⟩

/-- The reads either throw or answer from these tables. An account that cannot be read counts as one
without a row. -/
structure Answers (rd : RoleReader) (db : RbacDb) : Prop where
  roles : ∀ l,rd.listRoles=.ok l → l=db.roles
  user : ∀ u,(rd.getWebUser u).toOption.join=getWebUser db u
  bound : ∀ sels l,rd.rolesForSubject sels=.ok l → l=rolesForSubject db sels
  grants : ∀ r l,rd.listRoleGrants r=.ok l → l=listRoleGrants db.rolePermissions r

/-- A role that the identity holds may use the template, by its name or by a star. -/
def TemplateGranted (db : RbacDb) (id : ProfileIdentity) (name : String) : Prop :=
  ∃ g∈db.rolePermissions,HoldsRole db id g.role ∧ g.permission="template:use" ∧
    (g.scope=name ∨ g.scope="*")

theorem answers_reader (db : RbacDb) : Answers db.reader db where
  roles := fun _ h => (Except.ok.inj h).symm
  user := fun _ => rfl
  bound := fun _ _ h => (Except.ok.inj h).symm
  grants := fun _ _ h => (Except.ok.inj h).symm

section

variable {rd : RoleReader} {db : RbacDb} {id : ProfileIdentity} {known : List MsTemplate}

/-- Roles that could be read are the roles of the tables. -/
theorem gate_subjectRoles_eq (hrd : Answers rd db) {user primaryRole : String}
    {groups : List String} {sr : SubjectRoles}
    (h : Gate.subjectRoles rd user primaryRole groups=.ok sr) :
    sr=subjectRoles db user primaryRole groups := by
  simp only [Gate.subjectRoles] at h
  obtain ⟨all,hall,h⟩ := bind_eq_ok_iff.mp h
  have hroles := hrd.roles all hall
  subst hroles
  by_cases hempty : db.roles=[]
  · rw [if_pos hempty] at h
    simp only [subjectRoles,if_pos hempty]
    exact (Except.ok.inj h).symm
  · rw [if_neg hempty] at h
    obtain ⟨extra,hextra,h⟩ := bind_eq_ok_iff.mp h
    have hbound : extra=rolesForSubject db (Gate.selectorsOf user groups) := by
      unfold Gate.boundRoles at hextra
      split_ifs at hextra with hnone
      · rw [hnone]
        exact (Except.ok.inj hextra).symm
      · exact hrd.bound _ _ hextra
    subst hbound
    rw [hrd.user] at h
    simp only [subjectRoles,if_neg hempty]
    exact (Except.ok.inj h).symm

theorem mem_flatten_of_mapM (hrd : Answers rd db) {rs : List RoleRow}
    {grants : List (List RoleGrant)}
    (h : rs.mapM (fun r => rd.listRoleGrants r.name)=.ok grants) {g : RoleGrant} :
    g∈grants.flatten ↔ ∃ r∈rs,g∈listRoleGrants db.rolePermissions r.name := by
  induction rs generalizing grants with
  | nil =>
    have hnil : []=grants := by simpa [pure,Except.pure] using h
    simp [← hnil]
  | cons r rs ih =>
    rw [List.mapM_cons] at h
    obtain ⟨l,hl,h⟩ := bind_eq_ok_iff.mp h
    obtain ⟨rest,hrest,h⟩ := bind_eq_ok_iff.mp h
    have hgrants : l::rest=grants := Except.ok.inj h
    have hread := hrd.grants r.name l hl
    rw [← hgrants,List.flatten_cons,List.mem_append,ih hrest,hread]
    simp only [List.exists_mem_cons_iff]

theorem mem_permitted {grants : List RoleGrant} {name : String} :
    name∈permitted grants known ↔
      (∃ g∈grants,g.permission="template:use" ∧ (g.scope=name ∨ g.scope="*")) ∧
        ∃ t∈known,t.name=name ∧ t.enabled=true := by
  have hkind : scopeKind "template:use"=.template := by decide
  have huse : ∀ g : RoleGrant,g∈grants.filter (fun g => scopeKind g.permission=.template ∧
      g.permission="template:use") ↔ g∈grants ∧ g.permission="template:use" := by
    intro g
    rw [List.mem_filter,decide_eq_true_eq]
    refine and_congr_right fun _ => ⟨And.right,fun h => ⟨?_,h⟩⟩
    rw [h,hkind]
  simp only [permitted,List.mem_filter,List.mem_insertionSort,List.mem_dedup,List.any_eq_true,
    decide_eq_true_eq]
  refine and_congr_left fun hrow => ?_
  obtain ⟨t,ht,hname,henabled⟩ := hrow
  split_ifs with hstar
  · obtain ⟨g,hg,hgstar⟩ := List.any_eq_true.mp hstar
    obtain ⟨hmem,hperm⟩ := (huse g).mp hg
    constructor
    · intro _
      exact ⟨g,hmem,hperm,Or.inr (of_decide_eq_true hgstar)⟩
    · intro _
      refine List.mem_append.mpr (Or.inr (List.mem_map.mpr ⟨t,?_,hname⟩))
      simp [ht,henabled]
  · rw [List.mem_map]
    constructor
    · intro h
      obtain ⟨g,hg,hscope⟩ := h
      obtain ⟨hmem,hperm⟩ := (huse g).mp (List.mem_filter.mp hg).1
      exact ⟨g,hmem,hperm,Or.inl hscope⟩
    · intro h
      obtain ⟨g,hmem,hperm,hscope⟩ := h
      have hg := (huse g).mpr ⟨hmem,hperm⟩
      have hnotstar : g.scope≠"*" := fun heq =>
        hstar (List.any_eq_true.mpr ⟨g,hg,decide_eq_true heq⟩)
      refine ⟨g,?_,hscope.resolve_right hnotstar⟩
      rw [List.mem_filter]
      exact ⟨hg,decide_eq_true hnotstar⟩

/-- An identity that is permitted anything could be read, with the grants of its roles. -/
theorem templatesForIdentity_eq (hrd : Answers rd db)
    (hsome : templatesForIdentity rd id known≠[]) :
    ∃ grants,templatesForIdentity rd id known=permitted grants known ∧
      ∀ g,g∈grants ↔ g∈db.rolePermissions ∧ HoldsRole db id g.role := by
  unfold templatesForIdentity at hsome ⊢
  split_ifs at hsome ⊢ with hnobody
  · exact absurd rfl hsome
  cases hsr : Gate.subjectRoles rd id.username id.role id.groups with
  | error e => simp [hsr] at hsome
  | ok sr =>
    have hroles := gate_subjectRoles_eq hrd hsr
    cases hgrants : sr.known.mapM fun r => rd.listRoleGrants r.name with
    | error e => simp [hsr,hgrants] at hsome
    | ok grants =>
      refine ⟨grants.flatten,by simp [hgrants],?_⟩
      intro g
      rw [mem_flatten_of_mapM hrd hgrants,← mem_subjectGrants_iff,subjectGrants,List.mem_flatMap,
        hroles]

/-- What is permitted is granted by a role of the identity and is the name of an enabled template;
whatever is both is permitted. -/
theorem mem_templatesForIdentity (hrd : Answers rd db)
    (hsome : templatesForIdentity rd id known≠[]) {name : String} :
    name∈templatesForIdentity rd id known ↔
      TemplateGranted db id name ∧ ∃ t∈known,t.name=name ∧ t.enabled=true := by
  obtain ⟨grants,heq,hgrants⟩ := templatesForIdentity_eq hrd hsome
  rw [heq,mem_permitted]
  refine and_congr_left fun _ => ?_
  simp only [TemplateGranted,hgrants,and_assoc]

theorem templateRow_eq_ok {n : String} {t : MsTemplate} (h : templateRow known n=.ok t) :
    t∈known ∧ t.name=n := by
  unfold templateRow at h
  cases hfind : known.find? (·.name = n) with
  | none => simp [hfind] at h
  | some u =>
    rw [hfind] at h
    have hut : u=t := Except.ok.inj h
    subst hut
    have hname := List.find?_some hfind
    exact ⟨List.mem_of_find?_eq_some hfind,by simpa using hname⟩

/-- The template is a row of a permitted name: the one that was asked for, or the only one. -/
theorem resolveMsTemplate_eq_ok {requested : String} {t : MsTemplate}
    (h : resolveMsTemplate rd id requested known=.ok t) :
    t∈known ∧ t.name∈templatesForIdentity rd id known ∧ (requested≠"" → t.name=requested) ∧
      (requested="" → templatesForIdentity rd id known=[t.name]) := by
  unfold resolveMsTemplate at h
  cases hall : templatesForIdentity rd id known with
  | nil => simp [hall] at h
  | cons first rest =>
    simp only [hall] at h
    by_cases hreq : requested=""
    · rw [if_neg (not_not.mpr hreq)] at h
      split_ifs at h with hrest
      obtain ⟨hmem,hname⟩ := templateRow_eq_ok h
      refine ⟨hmem,?_,fun hne => absurd hreq hne,fun _ => ?_⟩
      · rw [hname]
        exact List.mem_cons_self
      · rw [hname,hrest]
    · rw [if_pos hreq] at h
      split_ifs at h with hpermitted
      obtain ⟨hmem,hname⟩ := templateRow_eq_ok h
      refine ⟨hmem,?_,fun _ => hname,fun hempty => absurd hempty hreq⟩
      rw [hname]
      exact hpermitted

end

/-- The catalogue of a deployment with one template switched off. -/
def catalogue : List MsTemplate :=
  [{ name := "Computer",oid := "1.3.6.1.4.1.311.21.8.1" },
    { name := "User",oid := "1.3.6.1.4.1.311.21.8.2" },
    { name := "Legacy",oid := "1.3.6.1.4.1.311.21.8.3",enabled := false }]

/-- A role that may use one of them and edit all. -/
def clerkDb : RbacDb where
  roles := [⟨"clerk",none,none,none⟩]
  rolePermissions := [⟨"clerk","template:use","User"⟩,⟨"clerk","template:edit","*"⟩]
  webUsers := [⟨"alice","clerk"⟩]
  subjectRoles := []

end FastPki.Ms
