import FastPki.Framework.Except
import FastPki.Profile.CertProfile
import FastPki.Rbac.Gate

namespace FastPki.Profile

open FastPki.Rbac

/-- The role has a row, and the identity arrives with it, its account has it, or it is bound to the
name or to one of the groups. -/
def HoldsRole (db : RbacDb) (id : ProfileIdentity) (role : String) : Prop :=
  (∃ r∈db.roles,r.name=role) ∧
    ((id.role≠"" ∧ role=id.role) ∨
      (id.username≠"" ∧ ∃ u∈getWebUser db id.username,u.role≠"" ∧ role=u.role) ∨
      ∃ s∈db.subjectRoles,s.role=role ∧
        ((id.username≠"" ∧ s.selectorType="user" ∧ s.selectorValue=id.username) ∨
          (s.selectorType="group" ∧ s.selectorValue∈id.groups ∧ s.selectorValue≠"")))

/-- A role of the identity may use the profile. A star stands for every profile in the catalogue. -/
def Granted (db : RbacDb) (store : ProfileStore) (id : ProfileIdentity) (name : String) : Prop :=
  ∃ g∈db.rolePermissions,HoldsRole db id g.role ∧ g.permission="profile:use" ∧
    ((g.scope="*" ∧ name∈store.catalogue) ∨ (g.scope≠"*" ∧ g.scope=name))

section Identity

variable {db : RbacDb} {store : ProfileStore} {id : ProfileIdentity}

theorem holdsRole_iff {role : String} : HoldsRole db id role ↔
    (∃ r∈db.roles,r.name=role) ∧ Claims db id.username id.role id.groups role := by
  refine and_congr_right fun _ => ⟨fun h => ?_,fun h => ?_⟩
  · obtain ⟨hne,rfl⟩|⟨hne,u,hu,hrole,rfl⟩|⟨s,hs,rfl,⟨hne,htype,hvalue⟩|⟨htype,hvalue,hne⟩⟩ := h
    · exact .primary hne
    · exact .own hne hu hrole
    · exact .bound hs htype hvalue hne
    · exact .group hs htype hvalue hne
  · cases h with
    | primary hne => exact Or.inl ⟨hne,rfl⟩
    | own hne hu hrole => exact Or.inr (Or.inl ⟨hne,_,hu,hrole,rfl⟩)
    | bound hs htype hvalue hne => exact Or.inr (Or.inr ⟨_,hs,rfl,Or.inl ⟨hne,htype,hvalue⟩⟩)
    | group hs htype hvalue hne => exact Or.inr (Or.inr ⟨_,hs,rfl,Or.inr ⟨htype,hvalue,hne⟩⟩)

theorem mem_subjectGrants_iff {g : RoleGrant} :
    g∈subjectGrants db (subjectRoles db id.username id.role id.groups) ↔
      g∈db.rolePermissions ∧ HoldsRole db id g.role := by
  simp only [subjectGrants,List.mem_flatMap,listRoleGrants,List.mem_filter,decide_eq_true_eq,
    mem_known_iff,holdsRole_iff]
  constructor
  · intro h
    obtain ⟨r,⟨hr,hclaims⟩,hg,hrole⟩ := h
    exact ⟨hg,⟨r,hr,hrole.symm⟩,hrole ▸ hclaims⟩
  · intro h
    obtain ⟨hg,⟨r,hr,hname⟩,hclaims⟩ := h
    exact ⟨r,⟨hr,hname ▸ hclaims⟩,hg,hname.symm⟩

/-- The union of an identity is what its roles are granted. One that names nobody has none. -/
theorem mem_profilesForIdentity {name : String} :
    name∈profilesForIdentity db store id ↔
      (id.username≠"" ∨ id.role≠"") ∧ Granted db store id name := by
  by_cases hnobody : id.username="" ∧ id.role=""
  · simp [profilesForIdentity,hnobody]
  have hnamed : id.username≠"" ∨ id.role≠"" := not_and_or.mp hnobody
  have huse : ∀ g,g∈(subjectGrants db (subjectRoles db id.username id.role id.groups)).filter
      (·.permission = "profile:use") ↔
        g∈db.rolePermissions ∧ HoldsRole db id g.role ∧ g.permission="profile:use" := by
    intro g
    rw [List.mem_filter,mem_subjectGrants_iff,decide_eq_true_eq,and_assoc]
  have hscope : ∀ uses : List RoleGrant,name∈(uses.filter (·.scope ≠ "*")).map (·.scope) ↔
      ∃ g∈uses,g.scope≠"*" ∧ g.scope=name := by
    intro uses
    simp [and_assoc]
  simp only [profilesForIdentity,if_neg hnobody,List.mem_insertionSort,List.mem_dedup,hnamed,true_and,Granted]
  split_ifs with hstar
  · obtain ⟨g,hg,hgs⟩ := List.any_eq_true.mp hstar
    obtain ⟨hmem,hheld,hperm⟩ := (huse g).mp hg
    rw [List.mem_append,hscope]
    constructor
    · intro h
      obtain ⟨g',hg',hne,hname⟩|hcat := h
      · obtain ⟨hmem',hheld',hperm'⟩ := (huse g').mp hg'
        exact ⟨g',hmem',hheld',hperm',Or.inr ⟨hne,hname⟩⟩
      · exact ⟨g,hmem,hheld,hperm,Or.inl ⟨by simpa using hgs,hcat⟩⟩
    · intro h
      obtain ⟨g',hmem',hheld',hperm',⟨_,hcat⟩|⟨hne,hname⟩⟩ := h
      · exact Or.inr hcat
      · exact Or.inl ⟨g',(huse g').mpr ⟨hmem',hheld',hperm'⟩,hne,hname⟩
  · rw [hscope]
    constructor
    · intro h
      obtain ⟨g',hg',hne,hname⟩ := h
      obtain ⟨hmem',hheld',hperm'⟩ := (huse g').mp hg'
      exact ⟨g',hmem',hheld',hperm',Or.inr ⟨hne,hname⟩⟩
    · intro h
      obtain ⟨g',hmem',hheld',hperm',⟨hs,_⟩|⟨hne,hname⟩⟩ := h
      · have huses := (huse g').mpr ⟨hmem',hheld',hperm'⟩
        exact absurd (List.any_eq_true.mpr ⟨g',huses,by simpa using hs⟩) hstar
      · exact ⟨g',(huse g').mpr ⟨hmem',hheld',hperm'⟩,hne,hname⟩

theorem profilesForIdentity_nodup : (profilesForIdentity db store id).Nodup := by
  simp only [profilesForIdentity]
  split_ifs
  · exact List.nodup_nil
  · exact (List.perm_insertionSort _ _).nodup_iff.mpr (List.nodup_dedup _)
  · exact (List.perm_insertionSort _ _).nodup_iff.mpr (List.nodup_dedup _)

theorem definedProfile_eq_ok_iff {name : String} {p : CertProfile} :
    definedProfile store name=.ok p ↔ store.certProfiles.lookup name=some p := by
  simp only [definedProfile]
  cases store.certProfiles.lookup name with
  | none => simp
  | some q => simp

/-- The definitions of these profiles, in their order. -/
def Defined (store : ProfileStore) : List String → List CertProfile → Prop :=
  List.Forall₂ fun name p => store.certProfiles.lookup name=some p

theorem mapM_definedProfile {names : List String} {ps : List CertProfile}
    (h : names.mapM (definedProfile store)=.ok ps) : Defined store names ps := by
  induction names generalizing ps with
  | nil =>
    obtain rfl : []=ps := by simpa [pure,Except.pure] using h
    exact .nil
  | cons name names ih =>
    rw [List.mapM_cons] at h
    simp only [bind_eq_ok_iff] at h
    obtain ⟨p,hp,rest,hrest,hps⟩ := h
    obtain rfl := Except.ok.inj hps
    exact .cons (definedProfile_eq_ok_iff.mp hp) (ih hrest)

theorem mem_of_lookup_zip {names : List String} {ps : List CertProfile} {name : String} {p : CertProfile}
    (h : (names.zip ps).lookup name=some p) : p∈ps := by
  obtain ⟨before,after,hzip,_⟩ := List.lookup_eq_some_iff.mp h
  have hmem : (name,p)∈names.zip ps := by simp [hzip]
  exact (List.of_mem_zip hmem).2

/-- What a request is resolved to: one granted profile, alone, or all of them merged. -/
inductive Resolved (db : RbacDb) (store : ProfileStore) (id : ProfileIdentity) (requested : String)
    (e : EffectiveProfile) : Prop where
  | alone (granted : Granted db store id e.name)
    (defined : store.certProfiles.lookup e.name=some e.profile)
    (asked : requested=e.name ∨ (requested="" ∧ ∀ n,Granted db store id n → n=e.name))
  | merged (names : List String) (first : CertProfile) (rest : List CertProfile)
    (primary : Option CertProfile) (asked : requested="") (granted : ∀ n,n∈names ↔ Granted db store id n)
    (nodup : names.Nodup) (defined : Defined store names (first::rest))
    (member : ∀ p∈primary,p∈first::rest) (profile : e.profile=mergeProfiles first rest primary)
    (name : e.name=e.profile.name)

theorem resolveProfile_resolved {requested : String} {e : EffectiveProfile}
    (h : resolveProfile db store id requested=.ok e) : Resolved db store id requested e := by
  have hnodup := @profilesForIdentity_nodup db store id
  simp only [resolveProfile] at h
  cases hnames : profilesForIdentity db store id with
  | nil =>
    rw [hnames] at h
    cases h
  | cons first rest =>
    have hnamed := (mem_profilesForIdentity.mp (hnames ▸ List.mem_cons_self : first∈_)).1
    have hgranted : ∀ n,n∈first::rest ↔ Granted db store id n := by
      intro n
      rw [← hnames,mem_profilesForIdentity]
      simp only [hnamed,true_and]
    rw [hnames] at h hnodup
    dsimp only at h
    by_cases hasked : requested≠""
    · rw [if_pos hasked] at h
      split_ifs at h with hmem
      obtain ⟨p,hp,rfl⟩ := map_eq_ok_iff.mp h
      exact .alone ((hgranted requested).mp hmem) (definedProfile_eq_ok_iff.mp hp) (Or.inl rfl)
    rw [if_neg hasked] at h
    by_cases hone : rest=[]
    · rw [if_pos hone] at h
      obtain ⟨p,hp,rfl⟩ := map_eq_ok_iff.mp h
      subst hone
      refine .alone ((hgranted first).mp List.mem_cons_self) (definedProfile_eq_ok_iff.mp hp)
        (Or.inr ⟨not_not.mp hasked,fun n hn => ?_⟩)
      exact List.mem_singleton.mp ((hgranted n).mpr hn)
    · rw [if_neg hone] at h
      simp only [bind_eq_ok_iff] at h
      obtain ⟨p,hp,ps,hps,hret⟩ := h
      obtain rfl := Except.ok.inj hret
      refine .merged (first::rest) p ps _ (not_not.mp hasked) hgranted hnodup
        (.cons (definedProfile_eq_ok_iff.mp hp) (mapM_definedProfile hps)) (fun q hq => ?_) rfl rfl
      exact mem_of_lookup_zip hq

end Identity

/-- A group may use a profile. -/
def groupDb : RbacDb where
  roles := [⟨"web",none,none,none⟩]
  rolePermissions := [⟨"web","profile:use","web"⟩]
  webUsers := []
  subjectRoles := [⟨"group","ops","web"⟩]

def webStore : ProfileStore := ⟨[("web",CertProfile.init)],["web"]⟩

end FastPki.Profile
