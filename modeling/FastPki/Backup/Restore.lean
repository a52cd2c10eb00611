import FastPki.Backup.Config
import FastPki.Framework.Carry

namespace FastPki.Backup
open X509 Certs Ca Rbac Rbac.Users

/-- The constraints that the schema puts on the tables, and the columns that are restored as numbers
of a type that holds them. -/
structure Constrained (db : ConfigDb) : Prop where
  users : (db.webUsers.map Account.key).Nodup
  roles : (db.roles.map fun r => r.name).Nodup
  grants : ∀ g∈db.rolePermissions,∃ r∈db.roles,r.name=g.role
  bindings : (db.subjectRoles.map Binding.toSubjectRole).Nodup
  templates : (db.msTemplates.map MsTemplateRow.name).Nodup
  limits : ∀ r∈db.roles,∀ n,some n∈[r.maxCerts,r.maxCn,r.maxSan] → InInt 32 n
  created : ∀ b∈db.subjectRoles,InInt 64 b.created
  numbers : ∀ r∈db.msTemplates,(∀ n∈(readTemplate r).ints,InInt 32 n) ∧ InInt 64 r.overlapSeconds
  profiles : (db.certProfiles.map Prod.fst).Nodup

/-- The libraries read what they have written: the PEM text of a certificate, and each of the JSON
texts that a backup and its restore go through. -/
structure ReadsBack (lib : Library) (made : Int) (db : ConfigDb) : Prop where
  pem : ∀ r∈db.certs.rows,r.cert≠[] →
    lib.loadCaCertPem (caPem r.cert)=(lib.x509 r.cert).map fun _ => r.cert
  profiles : lib.parse (storedCertProfilesJson lib db)=.ok (storedCertProfiles lib db)
  profile : ∀ p∈(storedCertProfiles lib db).items,lib.dump (-1) (.obj [p])≠"" ∧
    lib.parse (lib.dump (-1) (.obj [p]))=.ok (.obj [p])
  backup : lib.parse (lib.dump 2 (document made db (storedCertProfiles lib db)))=
    .ok (document made db (storedCertProfiles lib db))

/-- A database to restore into. -/
structure Empty (db : ConfigDb) : Prop where
  users : db.webUsers=[]
  certs : db.certs.rows=[]
  roles : db.roles=[]
  grants : db.rolePermissions=[]
  bindings : db.subjectRoles=[]
  templates : db.msTemplates=[]
  profiles : db.certProfiles=[]

/-- What a restore of a backup of `db`, made at the time `made`, leaves. -/
def restored (lib : Library) (made : Int) (db target : ConfigDb) : ConfigDb :=
  match buildConfigBackup lib made db with
  | .error _ => target
  | .ok text => (restoreConfigBackup lib target text).1

section Read

theorem readUser_userJson (u : Account) : readUser (userJson u)=some { u with created := 0 } := by
  simp [readUser,userJson,Json.value_object,lookup_cons,Json.getStr,Json.getBool]

/-- The entry that a backup has for a CA. -/
def entryOf (db : ConfigDb) (ci : String × Row) : CaEntry where
  serial := ci.2.serial
  id := ci.1
  name := (db.labels ci.2.serial).name
  status := if ci.2.caEnabled.getD true then "active" else "disabled"
  signingCaPem := caPem ci.2.cert
  signingCaKey := ci.2.privateKey
  created := narrow 64 (ci.2.notBefore.getD 0)
  msEnrollPermission := (db.labels ci.2.serial).msEnrollPermission

theorem readCaEntry_caJson (now : Int) (db : ConfigDb) (ci : String × Row) :
    readCaEntry (caJson now db ci)=some (entryOf db ci) := by
  simp [readCaEntry,caJson,readCa,entryOf,Json.value_object,lookup_cons,Json.getStr,Json.getBool,Json.getInt64]

theorem readBinding_bindingJson {b : Binding} (h : InInt 64 b.created) :
    readBinding (bindingJson b)=some b := by
  simp [readBinding,bindingJson,Json.value_object,lookup_cons,Json.getStr,Json.getInt64_int h]

theorem readGrant_grantJson {role : String} {g : RoleGrant} (h : g.role=role) :
    readGrant role (grantJson g)=some g := by
  subst h
  simp [readGrant,grantJson,Json.value_object,lookup_cons,Json.getStr]

theorem mapM_readGrant {role : String} {l : List RoleGrant} (h : ∀ g∈l,g.role=role) :
    (l.map grantJson).mapM (readGrant role)=some l := by
  induction l with
  | nil => rfl
  | cons g l ih =>
    have hfirst := readGrant_grantJson (h g List.mem_cons_self)
    have hrest := ih fun x hx => h x (List.mem_cons_of_mem g hx)
    simp [List.mapM_cons,hfirst,hrest]

theorem mem_listRoleGrants {db : ConfigDb} {role : String} {g : RoleGrant} :
    g∈listRoleGrants db role ↔ g∈db.rolePermissions ∧ g.role=role := by
  simp [listRoleGrants,Rbac.listRoleGrants]

/-- The members of a role, whichever limits it sets. -/
theorem roleJson_nodup (r : RoleEntry) (grants : Json) :
    (([("name",.str r.name),("description",.str r.description),("builtin",.bool r.builtin),
      ("grants",grants)]++limitJson "max_certs" r.maxCerts++limitJson "max_cn" r.maxCn++
      limitJson "max_san" r.maxSan : List (String × Json)).map Prod.fst).Nodup := by
  cases r.maxCerts <;> cases r.maxCn <;> cases r.maxSan <;> simp [limitJson]

theorem roleJson_name (db : ConfigDb) (r : RoleEntry) :
    (roleJson db r).value Json.getStr "name" ""=some r.name := by
  rw [roleJson,Json.value_object (roleJson_nodup r _)]
  simp [lookup_cons,Json.getStr]

theorem readRole_roleJson (db : ConfigDb) {r : RoleEntry}
    (h : ∀ n,some n∈[r.maxCerts,r.maxCn,r.maxSan] → InInt 32 n) :
    readRole r.name (roleJson db r)=some r := by
  have hvalue {α : Type} (get : Json → Option α) (name : String) (default : α) :
      (roleJson db r).value get name default=_ :=
    Json.value_object (roleJson_nodup r _) name default
  have hfind (name : String) : (roleJson db r).find name=_ :=
    Json.find_object (roleJson_nodup r _) name
  simp only [readRole,readLimit,Json.contains,hvalue,hfind]
  obtain ⟨⟨name,maxCerts,maxCn,maxSan⟩,description,builtin⟩ := r
  have hread : ∀ n,some n∈[maxCerts,maxCn,maxSan] → (Json.int n).getInt=some n :=
    fun n hn => Json.getInt_int (h n hn)
  clear h
  cases maxCerts <;> cases maxCn <;> cases maxSan <;> simp at hread <;>
    simp [limitJson,lookup,Json.getStr,Json.getBool,hread]

theorem readGrants_roleJson (db : ConfigDb) (r : RoleEntry) :
    readGrants r.name (roleJson db r)=some (listRoleGrants db r.name) := by
  have hgrants : (roleJson db r).value some "grants" (.arr [])=
      some (.arr ((listRoleGrants db r.name).map grantJson)) := by
    rw [roleJson,Json.value_object (roleJson_nodup r _)]
    simp [lookup_cons]
  have hread : ((listRoleGrants db r.name).map grantJson).mapM (readGrant r.name)=
      some (listRoleGrants db r.name) := mapM_readGrant fun g hg => (mem_listRoleGrants.mp hg).2
  simp [readGrants,hgrants,Json.elements,hread]

theorem readTemplateJson_templateJson {t : MsTemplate} (hints : ∀ n∈t.ints,InInt 32 n)
    (hoverlap : InInt 64 t.overlapSeconds) (husage : t.keyUsage<2^32) :
    readTemplateJson (templateJson t)=some t := by
  have hread : ∀ n∈t.ints,(Json.int n).getInt=some n := fun n hn => Json.getInt_int (hints n hn)
  simp only [MsTemplate.ints,List.forall_mem_cons] at hread
  have hunsigned : (Json.int t.keyUsage).getUnsigned=some t.keyUsage := by
    have hcast : narrow 32 (narrow 64 t.keyUsage)%2^32=t.keyUsage := by
      rw [narrow_of_inInt (w := 64) (by decide) ⟨by omega,by omega⟩]
      exact Int.bmod_emod.trans (by omega)
    simp only [Json.getUnsigned,Json.getInt,Json.getInt64,Option.map_some,hcast,Int.toNat_natCast]
  -- the names are compared with one another once, not for each member that is read
  have hvalue {α : Type} (get : Json → Option α) (name : String) (default : α) :
      (templateJson t).value get name default=_ := Json.value_object (by simp) name default
  simp only [readTemplateJson,hvalue]
  simp [lookup_cons,Json.getStr,Json.getBool,Json.getInt64_int hoverlap,Json.getStrings_map,hunsigned,
    hread]

end Read

section Tables

/-! How a row of each table comes over. -/

def carryAccount (u : Account) : Option Account :=
  if u.username = "" then none else some { u with created := 0 }

def carryRole (r : RoleEntry) : Option RoleEntry :=
  if r.name = "" then none else some { r with builtin := false }

def carryBinding (b : Binding) : Option Binding :=
  if b.selectorValue = "" ∨ b.role = "" then none else some b

def carryTemplate (t : MsTemplate) : Option MsTemplateRow :=
  if t.name = "" then none else some (writeTemplate t)

/-! A row that comes over keeps its key. -/

theorem carryAccount_key {u r : Account} (h : carryAccount u=some r) : r.key=u.key :=
  key_of_kept (r := { u with created := 0 }) Account.key h

theorem carryRole_name {r x : RoleEntry} (h : carryRole r=some x) : x.name=r.name :=
  key_of_kept (r := { r with builtin := false }) (fun y : RoleEntry => y.name) h

theorem carryBinding_selects {b x : Binding} (h : carryBinding b=some x) :
    x.toSubjectRole=b.toSubjectRole := key_of_kept Binding.toSubjectRole h

theorem carryTemplate_name {t : MsTemplate} {r : MsTemplateRow} (h : carryTemplate t=some r) :
    r.name=t.name := key_of_kept MsTemplateRow.name h

/-- A section whose entries are read and then written one by one into a table that is empty: `embed` is
the state with this table, and this number of entries counted. -/
theorem table_restored {α β ρ κ : Type} {l : List α} {enc : α → Json} {read : Json → Option β}
    {f : α → β} {step : β → Restoring → Restoring} {key : ρ → κ} {name : α → κ} {row : α → Option ρ}
    {put : α → List ρ → List ρ} {embed : List ρ → Nat → Restoring} {st : Restoring} {n : Nat}
    (hread : ∀ x∈l,read (enc x)=some (f x))
    (hstep : ∀ x t n,∃ m,step (f x) (embed t n)=embed (put x t) m)
    (hrow : ∀ x r,row x=some r → key r=name x)
    (hput : ∀ x t,(∀ y∈t,key y≠name x) → put x t=t++(row x).toList) (hl : (l.map name).Nodup)
    (hst : st=embed [] n) :
    ∃ m,Routine.each ((l.map enc).map fun j => reading (read j) step) st=
      (true,embed (l.filterMap row) m) := by
  subst hst
  have heach : Routine.each ((l.map enc).map fun j => reading (read j) step) (embed [] n)=
      (true,l.foldl (fun s x => step (f x) s) (embed [] n)) := by
    rw [List.map_map]
    apply Routine.each_returns
    intro x hx s
    simp [reading,hread x hx]
  have htable : l.foldl (fun t x => put x t) []=l.filterMap row := by
    simpa using foldl_fresh hrow hput l [] hl (by simp)
  have hrelated : ∃ m,l.foldl (fun s x => step (f x) s) (embed [] n)=
      embed (l.foldl (fun t x => put x t) []) m := by
    refine foldl_related (R := fun t s => ∃ m,s=embed t m) (fun x _ t s h => ?_) ⟨n,rfl⟩
    obtain ⟨m,rfl⟩ := h
    exact hstep x t m
  obtain ⟨m,hm⟩ := hrelated
  exact ⟨m,by rw [heach,hm,htable]⟩

variable {db : ConfigDb} (st : Restoring)

theorem upsertWebUser_of_fresh {u : Account} {t : List Account} (h : ∀ y∈t,y.key≠u.key) :
    setWebUserEmail u (upsertWebUser u t)=t++[u] := by
  have hup : upsertWebUser u t=t++[u] := by
    rw [upsertWebUser,lookup_of_fresh h]
    exact upsert_of_fresh h
  have hsame : ∀ a∈t++[u],(if a.key=u.key then { a with email := u.email } else a)=id a := by
    intro a ha
    obtain ha|ha := List.mem_append.mp ha
    · exact if_neg (h a ha)
    · obtain rfl := List.mem_singleton.mp ha
      exact if_pos rfl
  rw [setWebUserEmail,hup,List.map_congr_left hsame,List.map_id]

theorem users_restored (hdb : Constrained db) (hst : st.db.webUsers=[]) :
    ∃ s,Routine.each (((listWebUsers db).map userJson).map fun u => reading (readUser u) restoreUser) st=(true,s) ∧
      s.db={ st.db with webUsers := (listWebUsers db).filterMap carryAccount } := by
  let put (u : Account) (t : List Account) : List Account :=
    if u.username="" then t
    else setWebUserEmail { u with created := 0 } (upsertWebUser { u with created := 0 } t)
  let embed (t : List Account) (n : Nat) : Restoring := { st with db := { st.db with webUsers := t }, nUsr := n }
  have hstep : ∀ (u : Account) t n,∃ m,restoreUser { u with created := 0 } (embed t n)=embed (put u t) m := by
    intro u t n
    by_cases hname : u.username=""
    · exact ⟨n,by simp [restoreUser,put,hname]⟩
    · exact ⟨n+1,by simp [restoreUser,put,embed,hname]⟩
  have hput : ∀ u t,(∀ y∈t,y.key≠u.key) → put u t=t++(carryAccount u).toList := by
    intro u t hfresh
    by_cases hname : u.username=""
    · simp [put,carryAccount,hname]
    · have hwrite := upsertWebUser_of_fresh (u := { u with created := 0 }) hfresh
      simp [put,carryAccount,hname,hwrite]
  have hstart : st=embed [] st.nUsr := by simp [embed,← hst]
  have hkeys : ((listWebUsers db).map Account.key).Nodup := nodup_orderBy hdb.users
  obtain ⟨n,hn⟩ := table_restored (fun u _ => readUser_userJson u) hstep (fun _ _ => carryAccount_key) hput hkeys hstart
  exact ⟨_,hn,rfl⟩

theorem bindings_restored (hdb : Constrained db) (hst : st.db.subjectRoles=[]) :
    ∃ s,Routine.each (((listSubjectRoles db).map bindingJson).map
        fun s => reading (readBinding s) restoreBinding) st=(true,s) ∧
      s.db={ st.db with subjectRoles := (listSubjectRoles db).filterMap carryBinding } := by
  let put (b : Binding) (t : List Binding) : List Binding :=
    if b.selectorValue="" ∨ b.role="" then t else addSubjectRole b t
  let embed (t : List Binding) (n : Nat) : Restoring :=
    { st with db := { st.db with subjectRoles := t }, nSr := n }
  have hstep : ∀ b t n,∃ m,restoreBinding b (embed t n)=embed (put b t) m := by
    intro b t n
    by_cases hname : b.selectorValue="" ∨ b.role=""
    · exact ⟨n,by simp only [restoreBinding,put,if_pos hname]⟩
    · exact ⟨n+1,by simp only [restoreBinding,put,if_neg hname,embed]⟩
  have hput : ∀ b t,(∀ y∈t,y.toSubjectRole≠b.toSubjectRole) → put b t=t++(carryBinding b).toList := by
    intro b t hfresh
    by_cases hname : b.selectorValue="" ∨ b.role=""
    · simp only [put,carryBinding,if_pos hname,Option.toList_none,List.append_nil]
    · simp only [put,carryBinding,if_neg hname,addSubjectRole,insertNew_of_fresh hfresh,
        Option.toList_some]
  have hstart : st=embed [] st.nSr := by simp [embed,← hst]
  have hkeys : ((listSubjectRoles db).map Binding.toSubjectRole).Nodup := nodup_orderBy hdb.bindings
  have hread : ∀ b∈listSubjectRoles db,readBinding (bindingJson b)=some b := fun b hb =>
    readBinding_bindingJson (hdb.created b (mem_orderBy.mp hb))
  obtain ⟨n,hn⟩ := table_restored hread hstep
    (fun _ _ => carryBinding_selects) hput hkeys hstart
  exact ⟨_,hn,rfl⟩

theorem mem_listMsTemplates {t : MsTemplate} :
    t∈listMsTemplates db ↔ ∃ r∈db.msTemplates,readTemplate r=t := by
  simp [listMsTemplates]

theorem listMsTemplates_nodup (hdb : Constrained db) :
    ((listMsTemplates db).map MsTemplate.name).Nodup := by
  have hnames : (listMsTemplates db).map MsTemplate.name=
      (orderBy MsTemplateRow.name db.msTemplates).map MsTemplateRow.name := by
    rw [listMsTemplates,List.map_map]
    rfl
  rw [hnames]
  exact nodup_orderBy hdb.templates

theorem readTemplate_keyUsage (r : MsTemplateRow) : (readTemplate r).keyUsage<2^32 := by
  simp only [readTemplate]
  omega

theorem templates_restored (hdb : Constrained db) (hst : st.db.msTemplates=[]) :
    ∃ s,Routine.each (((listMsTemplates db).map templateJson).map
        fun m => reading (readTemplateJson m) restoreTemplate) st=(true,s) ∧
      s.db={ st.db with msTemplates := (listMsTemplates db).filterMap carryTemplate } := by
  let put (m : MsTemplate) (t : List MsTemplateRow) : List MsTemplateRow :=
    if m.name="" then t else upsertMsTemplate m t
  let embed (t : List MsTemplateRow) (n : Nat) : Restoring :=
    { st with db := { st.db with msTemplates := t }, nMt := n }
  have hread : ∀ m∈listMsTemplates db,readTemplateJson (templateJson m)=some m := by
    intro m hm
    obtain ⟨r,hr,rfl⟩ := mem_listMsTemplates.mp hm
    obtain ⟨hints,hoverlap⟩ := hdb.numbers r hr
    exact readTemplateJson_templateJson hints hoverlap (readTemplate_keyUsage r)
  have hstep : ∀ m t n,∃ k,restoreTemplate m (embed t n)=embed (put m t) k := by
    intro m t n
    by_cases hname : m.name=""
    · exact ⟨n,by simp only [restoreTemplate,put,if_pos hname]⟩
    · exact ⟨n+1,by simp only [restoreTemplate,put,if_neg hname,embed]⟩
  have hput : ∀ m t,(∀ y∈t,y.name≠m.name) → put m t=t++(carryTemplate m).toList := by
    intro m t hfresh
    by_cases hname : m.name=""
    · simp [put,carryTemplate,hname]
    · have hwrite : upsertMsTemplate m t=t++[writeTemplate m] := upsert_of_fresh hfresh
      simp [put,carryTemplate,hname,hwrite]
  have hstart : st=embed [] st.nMt := by simp [embed,← hst]
  obtain ⟨n,hn⟩ := table_restored hread hstep (fun _ _ => carryTemplate_name) hput
    (listMsTemplates_nodup hdb) hstart
  exact ⟨_,hn,rfl⟩

/-- A role that is read back is written with its grants. -/
def putRole (r : RoleEntry) (t : List RoleEntry) : List RoleEntry := if r.name = "" then t else upsertRole r t

def putGrants (db : ConfigDb) (r : RoleEntry) (t : List RoleGrant) : List RoleGrant :=
  if r.name = "" then t else Rbac.setRoleGrants r.name (listRoleGrants db r.name) t

theorem restoreRole_roleJson (db : ConfigDb) {r : RoleEntry}
    (h : ∀ n,some n∈[r.maxCerts,r.maxCn,r.maxSan] → InInt 32 n) (s : Restoring) :
    restoreRole (roleJson db r) s=(true,if r.name="" then s
      else restoreGrants r.name (listRoleGrants db r.name) (restoreRoleRow r s)) := by
  rw [restoreRole,roleJson_name]
  by_cases hname : r.name=""
  · simp [hname]
  · have hrow : reading (readRole r.name (roleJson db r)) restoreRoleRow s=(true,restoreRoleRow r s) := by
      rw [readRole_roleJson db h]
      rfl
    simp only [if_neg hname]
    rw [Routine.andThen_returns hrow,readGrants_roleJson]
    rfl

theorem putRole_of_fresh {r : RoleEntry} {t : List RoleEntry} (h : ∀ y∈t,y.name≠r.name) :
    putRole r t=t++(carryRole r).toList := by
  by_cases hname : r.name=""
  · simp [putRole,carryRole,hname]
  · have hwrite : upsertRole r t=t++[{ r with builtin := false }] := by
      rw [upsertRole,lookup_of_fresh h]
      exact upsert_of_fresh h
    simp [putRole,carryRole,hname,hwrite]

theorem roles_restored (hdb : Constrained db) (hroles : st.db.roles=[]) (hgrants : st.db.rolePermissions=[]) :
    ∃ s,Routine.each (((listRoles db).map (roleJson db)).map restoreRole) st=(true,s) ∧
      s.db={ st.db with roles := (listRoles db).filterMap carryRole
                        rolePermissions := (listRoles db).foldl (fun t r => putGrants db r t) [] } := by
  let embed (t : List RoleEntry × List RoleGrant) (n : Nat) : Restoring :=
    { st with db := { st.db with roles := t.1, rolePermissions := t.2 }, nRl := n }
  let both (t : List RoleEntry × List RoleGrant) (r : RoleEntry) : List RoleEntry × List RoleGrant :=
    (putRole r t.1,putGrants db r t.2)
  have heach : Routine.each (((listRoles db).map (roleJson db)).map restoreRole) st=(true,(listRoles db).foldl
      (fun s r => if r.name="" then s
        else restoreGrants r.name (listRoleGrants db r.name) (restoreRoleRow r s)) st) := by
    rw [List.map_map]
    exact Routine.each_returns (fun r hr s =>
      restoreRole_roleJson db (hdb.limits r (mem_orderBy.mp hr)) s) st
  have hrelated : ∃ n,(listRoles db).foldl (fun s r => if r.name="" then s
      else restoreGrants r.name (listRoleGrants db r.name) (restoreRoleRow r s)) st=
      embed ((listRoles db).foldl both ([],[])) n := by
    refine foldl_related (R := fun t s => ∃ n,s=embed t n) (fun r _ t s h => ?_)
      ⟨st.nRl,by simp [embed,← hroles,← hgrants]⟩
    obtain ⟨n,rfl⟩ := h
    by_cases hname : r.name=""
    · exact ⟨n,by simp [both,putRole,putGrants,hname]⟩
    · exact ⟨n+1,by simp [both,putRole,putGrants,hname,embed,restoreGrants,restoreRoleRow]⟩
  have hfirst : ((listRoles db).foldl both ([],[])).1=(listRoles db).foldl (fun t r => putRole r t) [] :=
    foldl_related (R := fun (t : List RoleEntry) (p : List RoleEntry × List RoleGrant) => p.1=t)
      (fun r _ t p h => by rw [← h]) rfl
  have hsecond : ((listRoles db).foldl both ([],[])).2=(listRoles db).foldl (fun t r => putGrants db r t) [] :=
    foldl_related (R := fun (t : List RoleGrant) (p : List RoleEntry × List RoleGrant) => p.2=t)
      (fun r _ t p h => by rw [← h]) rfl
  have hkeys : ((listRoles db).map fun r => r.name).Nodup := nodup_orderBy hdb.roles
  have htable : (listRoles db).foldl (fun t r => putRole r t) []=(listRoles db).filterMap carryRole := by
    have hput : ∀ (r : RoleEntry) t,(∀ y∈t,y.name≠r.name) → putRole r t=t++(carryRole r).toList :=
      fun r t => putRole_of_fresh
    simpa using foldl_fresh (fun _ _ => carryRole_name) hput (listRoles db) [] hkeys (by simp)
  obtain ⟨n,hn⟩ := hrelated
  refine ⟨_,heach,?_⟩
  rw [hn,← htable,← hfirst,← hsecond]

/-- The grants that come over: those of the named roles, each with its scope filled in. -/
theorem mem_restoredGrants {l : List RoleEntry} (hl : (l.map fun r => r.name).Nodup) {x : RoleGrant} :
    x∈l.foldl (fun t r => putGrants db r t) [] ↔
      ∃ r∈l,r.name≠"" ∧ ∃ g∈db.rolePermissions,g.role=r.name ∧ starred g=x := by
  -- from the last role on: its own grants replace nothing of the roles before it
  induction l using List.reverseRecOn with
  | nil => simp
  | append_singleton l r ih =>
    rw [List.map_append,List.nodup_append] at hl
    have hother : ∀ r'∈l,r'.name≠r.name := by
      intro r' hr'
      exact hl.2.2 _ (List.mem_map_of_mem hr') _ (by simp)
    rw [List.foldl_append,List.foldl_cons,List.foldl_nil]
    have hlast : x∈putGrants db r (l.foldl (fun t r => putGrants db r t) []) ↔
        (x∈l.foldl (fun t r => putGrants db r t) []) ∨
          (r.name≠"" ∧ ∃ g∈db.rolePermissions,g.role=r.name ∧ starred g=x) := by
      by_cases hname : r.name=""
      · simp [putGrants,hname]
      · have hrole : x∈l.foldl (fun t r => putGrants db r t) [] → x.role≠r.name := by
          intro hx hsame
          obtain ⟨r',hr',_,g,_,hg,rfl⟩ := (ih hl.1).mp hx
          exact hother r' hr' (hg.symm.trans hsame)
        rw [putGrants,if_neg hname,mem_setRoleGrants]
        simp only [mem_listRoleGrants,and_assoc]
        constructor
        · intro h
          obtain ⟨hx,_⟩|h := h
          · exact Or.inl hx
          · exact Or.inr ⟨hname,h⟩
        · intro h
          obtain hx|⟨_,h⟩ := h
          · exact Or.inl ⟨hx,hrole hx⟩
          · exact Or.inr h
    rw [hlast,ih hl.1]
    simp [or_and_right,exists_or]

end Tables

section Cas

variable {lib : Library} {db : ConfigDb} {ci : String × Row} {x : ParsedCert}

/-- The row that stands for a CA after the restore. -/
structure Recreated (lib : Library) (ci : String × Row) (x : ParsedCert) (row : Row) : Prop where
  read : lib.x509 ci.2.cert=some x
  named : ci.1≠""
  numbered : ci.2.serial≠""
  stored : ci.2.cert≠[]
  serial : row.serial=ci.2.serial
  id : row.id=some ci.1
  status : row.status=some 0
  notAfter : row.notAfter=some x.notAfter
  cert : row.cert=ci.2.cert
  key : row.privateKey=ci.2.privateKey
  isCa : row.isCa=x.checkCa
  enabled : row.isCa=true → row.caEnabled=some (ci.2.caEnabled.getD true)

/-- A CA whose row can be made again. -/
structure Restorable (lib : Library) (ci : String × Row) (x : ParsedCert) : Prop where
  named : ci.1≠""
  numbered : ci.2.serial≠""
  stored : ci.2.cert≠[]
  read : lib.x509 ci.2.cert=some x
  isCa : x.checkCa=true

theorem update_rows_of_none {certs : Inventory} {cond : Row → Bool} {set : Row → Row}
    {hset : ∀ r,(set r).serial=r.serial} (h : ∀ r∈certs.rows,cond r=false) :
    (certs.update cond set hset).rows=certs.rows := by
  have hsame : ∀ r∈certs.rows,(if cond r then set r else r)=id r := by
    intro r hr
    rw [h r hr]
    rfl
  exact (List.map_congr_left hsame).trans (List.map_id _)

theorem caPem_eq_empty_iff {cert : Octets} : caPem cert="" ↔ cert=[] := by
  rw [caPem]
  by_cases h : cert=[]
  · simp [h]
  · rw [if_neg h]
    constructor
    · intro hempty
      have hlist : pem cert=[] := by simpa using congrArg String.toList hempty
      have hdash := dash_mem_pem cert
      rw [hlist] at hdash
      cases hdash
    · intro hnil
      exact absurd hnil h

/-- The row comes back as the certificate says, or there is none that could. -/
theorem recreate_cases (db : ConfigDb) {st : ConfigDb}
    (hpem : ci.2.cert≠[] → lib.loadCaCertPem (caPem ci.2.cert)=(lib.x509 ci.2.cert).map fun _ => ci.2.cert)
    (hserial : ∀ r∈st.certs.rows,r.serial≠ci.2.serial) :
    (recreate lib (entryOf db ci) st=st ∧ ∀ x,¬Restorable lib ci x) ∨
    ∃ x certs seq,lib.x509 ci.2.cert=some x ∧ ci.2.serial≠"" ∧ ci.2.cert≠[] ∧
      recreate lib (entryOf db ci) st={ st with certs := certs, insSeq := seq } ∧
      certs.rows=st.certs.rows++[recreatedRow (entryOf db ci) ci.2.cert x st.insSeq] := by
  have hfree : st.certs.getCert ci.2.serial=none := lookup_of_fresh hserial
  by_cases hskip : ci.2.serial="" ∨ ci.2.cert=[]
  · left
    constructor
    · rw [recreate,if_pos]
      obtain h|h := hskip
      · exact Or.inl h
      · exact Or.inr (Or.inl (caPem_eq_empty_iff.mpr h))
    · intro x hx
      obtain h|h := hskip
      · exact hx.numbered h
      · exact hx.stored h
  · rw [not_or] at hskip
    have hgo : ¬((entryOf db ci).serial="" ∨ (entryOf db ci).signingCaPem="" ∨
        (st.certs.getCert (entryOf db ci).serial).isSome=true) := by
      simp [entryOf,hskip.1,hskip.2,caPem_eq_empty_iff,hfree]
    have hload : lib.loadCaCertPem (entryOf db ci).signingCaPem=
        (lib.x509 ci.2.cert).map fun _ => ci.2.cert := hpem hskip.2
    cases hread : lib.x509 ci.2.cert with
    | none =>
      left
      constructor
      · simp [recreate,hload,hread]
      · intro x hx
        rw [hx.read] at hread
        cases hread
    | some x =>
      right
      have hins : ∃ certs,st.certs.insertCert (recreatedRow (entryOf db ci) ci.2.cert x st.insSeq)=some certs := by
        rw [Inventory.insertCert,Keyed.insert]
        exact ⟨_,dif_pos hserial⟩
      obtain ⟨certs,hcerts⟩ := hins
      refine ⟨x,certs,st.insSeq+1,rfl,hskip.1,hskip.2,?_,(Keyed.insert_eq_some hcerts).2⟩
      simp [recreate,if_neg hgo,hload,hread,hcerts]

theorem entryOf_enabled (db : ConfigDb) (ci : String × Row) :
    decide ((entryOf db ci).instance.status≠"disabled")=ci.2.caEnabled.getD true := by
  cases h : ci.2.caEnabled.getD true <;> simp [entryOf,CaEntry.instance,h]

theorem addCaInstance_none {certs : Inventory} {ca : CaInstance}
    (h : ∀ r∈certs.rows,r.serial=ca.serial → r.isCa=false) : addCaInstance certs ca=none := by
  have hmiss : ca.serial="" ∨ (!certs.rows.any fun r => decide (r.serial=ca.serial ∧ r.isCa=true))=true := by
    right
    simpa using h
  simp only [addCaInstance]
  exact if_pos hmiss

/-- The row with the columns that `add_ca_instance` sets. -/
def stamp (ca : CaInstance) (row : Row) : Row :=
  { row with id := some ca.id
             caInstanceId := some ca.id
             caEnabled := some (ca.status ≠ "disabled")
             privateKey := ca.signingCaKey }

/-- The row of this serial is stamped, and no other. -/
theorem addCaInstance_new {certs : Inventory} {old : List Row} {row : Row} {ca : CaInstance}
    (hrows : certs.rows=old++[row]) (hold : ∀ r∈old,r.serial≠ca.serial) (hserial : row.serial=ca.serial)
    (hnum : ca.serial≠"") (hca : row.isCa=true) :
    ∃ stamped,addCaInstance certs ca=some stamped ∧ stamped.rows=old++[stamp ca row] := by
  have hhit : ¬(ca.serial="" ∨ (!certs.rows.any fun r => decide (r.serial=ca.serial ∧ r.isCa=true))=true) := by
    simp [hnum,hrows,hserial,hca]
  have hkept : ∀ r∈old,(if decide (r.serial=ca.serial ∧ r.isCa=true)=true then stamp ca r else r)=id r := by
    intro r hr
    simp [hold r hr]
  simp only [addCaInstance]
  refine ⟨_,if_neg hhit,?_⟩
  change certs.rows.map (fun r => if decide (r.serial=ca.serial ∧ r.isCa=true)=true then stamp ca r else r)=_
  rw [hrows,List.map_append,List.map_congr_left hkept,List.map_id]
  simp [hserial,hca]

/-- The switch of a CA without a row changes nothing. -/
theorem setCaInstanceStatus_rows {certs : Inventory} {id : String} (status : String)
    (h : ∀ r∈certs.rows,r.isCa=true → r.id≠some id) :
    (setCaInstanceStatus certs id status).rows=certs.rows := by
  apply update_rows_of_none
  intro r hr
  simpa using h r hr

/-- One entry adds at most its own row, and adds it where the row can be made. -/
theorem restoreCa_rows (db : ConfigDb) {st : Restoring}
    (hpem : ci.2.cert≠[] → lib.loadCaCertPem (caPem ci.2.cert)=(lib.x509 ci.2.cert).map fun _ => ci.2.cert)
    (hserial : ∀ r∈st.db.certs.rows,r.serial≠ci.2.serial)
    (hid : ∀ r∈st.db.certs.rows,r.id≠some ci.1) :
    ∃ new,(restoreCa lib (entryOf db ci) st).db.certs.rows=st.db.certs.rows++new ∧
      (∀ row∈new,∃ x,Recreated lib ci x row) ∧ ∀ x,Restorable lib ci x → new≠[] := by
  by_cases hname : ci.1=""
  · refine ⟨[],?_,by simp,fun x hx => absurd hname hx.named⟩
    simp [restoreCa,entryOf,hname]
  have hgo : ¬(entryOf db ci).id="" := hname
  obtain ⟨hsame,hnever⟩|⟨x,certs,seq,hread,hnum,hstored,hmade,hrows⟩ := recreate_cases db hpem hserial
  · -- nothing was made, so there is nothing to stamp and no row of the id to switch
    have hadd : addCaInstance st.db.certs (entryOf db ci).instance=none :=
      addCaInstance_none fun r hr hsame => absurd hsame (hserial r hr)
    refine ⟨[],?_,by simp,fun x hx => absurd hx (hnever x)⟩
    have hswitch : (setCaInstanceStatus st.db.certs (entryOf db ci).id (entryOf db ci).status).rows=
        st.db.certs.rows := setCaInstanceStatus_rows _ fun r hr _ => hid r hr
    simpa [restoreCa,if_neg hgo,hsame,hadd] using hswitch
  by_cases hca : x.checkCa=true
  · let row := stamp (entryOf db ci).instance (recreatedRow (entryOf db ci) ci.2.cert x st.db.insSeq)
    have hstamp : ∃ stamped,addCaInstance certs (entryOf db ci).instance=some stamped ∧
        stamped.rows=st.db.certs.rows++[row] := addCaInstance_new hrows hserial rfl hnum hca
    obtain ⟨stamped,hadd,hstamped⟩ := hstamp
    refine ⟨[row],?_,?_,fun _ _ => List.cons_ne_nil _ _⟩
    · simpa [restoreCa,if_neg hgo,hmade,hadd] using hstamped
    · intro row hrow
      obtain rfl := List.mem_singleton.mp hrow
      have henabled := entryOf_enabled db ci
      exact ⟨x,hread,hname,hnum,hstored,rfl,rfl,rfl,rfl,rfl,rfl,rfl,fun _ => congrArg some henabled⟩
  · -- the certificate of an end entity is stored, but it is the row of no CA
    have hleaf : x.checkCa=false := by simpa using hca
    have hadd : addCaInstance certs (entryOf db ci).instance=none := by
      apply addCaInstance_none
      intro r hr hsame
      rw [hrows,List.mem_append,List.mem_singleton] at hr
      obtain hr|rfl := hr
      · exact absurd hsame (hserial r hr)
      · exact hleaf
    have hnone : ∀ r∈certs.rows,r.isCa=true → r.id≠some ci.1 := by
      intro r hr hisCa
      rw [hrows,List.mem_append,List.mem_singleton] at hr
      obtain hr|rfl := hr
      · exact hid r hr
      · exact absurd (hleaf.symm.trans hisCa) (by simp)
    have hswitch : (setCaInstanceStatus certs (entryOf db ci).id (entryOf db ci).status).rows=certs.rows :=
      setCaInstanceStatus_rows _ hnone
    refine ⟨[recreatedRow (entryOf db ci) ci.2.cert x st.db.insSeq],?_,?_,fun _ _ => List.cons_ne_nil _ _⟩
    · simpa [restoreCa,if_neg hgo,hmade,hadd,← hrows] using hswitch
    · intro row hrow
      obtain rfl := List.mem_singleton.mp hrow
      exact ⟨x,hread,hname,hnum,hstored,rfl,rfl,rfl,rfl,rfl,rfl,rfl,fun h => absurd (hleaf.symm.trans h) (by simp)⟩

theorem restoreCa_frame (lib : Library) (ca : CaEntry) (st : Restoring) : ∃ certs labels seq n,
    restoreCa lib ca st={ st with db := { st.db with certs := certs, labels := labels, insSeq := seq }
                                  nCa := n } := by
  have hmade : ∃ certs seq,recreate lib ca st.db={ st.db with certs := certs, insSeq := seq } := by
    rw [recreate]
    split_ifs
    · exact ⟨_,_,rfl⟩
    · split
      · exact ⟨_,_,rfl⟩
      · split
        · exact ⟨_,_,rfl⟩
        · exact ⟨_,_,rfl⟩
  obtain ⟨certs,seq,hmade⟩ := hmade
  rw [restoreCa]
  split_ifs
  · exact ⟨_,_,_,_,rfl⟩
  · simp only [hmade]
    split
    · exact ⟨_,_,_,_,rfl⟩
    · exact ⟨_,_,_,_,rfl⟩

/-- The rows are those of the entries, one for each that can have one. -/
structure Rebuilt (lib : Library) (l : List (String × Row)) (certs : Inventory) : Prop where
  sound : ∀ row∈certs.rows,∃ ci∈l,∃ x,Recreated lib ci x row
  complete : ∀ ci∈l,∀ x,Restorable lib ci x → ∃ row∈certs.rows,∃ y,Recreated lib ci y row

theorem Rebuilt.snoc {l : List (String × Row)} {st : Restoring} (h : Rebuilt lib l st.db.certs)
    (hother : ∀ c∈l,c.1≠ci.1 ∧ c.2.serial≠ci.2.serial)
    (hpem : ci.2.cert≠[] → lib.loadCaCertPem (caPem ci.2.cert)=(lib.x509 ci.2.cert).map fun _ => ci.2.cert) :
    Rebuilt lib (l++[ci]) (restoreCa lib (entryOf db ci) st).db.certs := by
  have hserial : ∀ r∈st.db.certs.rows,r.serial≠ci.2.serial := by
    intro r hr
    obtain ⟨c,hc,x,hx⟩ := h.sound r hr
    exact hx.serial ▸ (hother c hc).2
  have hid : ∀ r∈st.db.certs.rows,r.id≠some ci.1 := by
    intro r hr hsame
    obtain ⟨c,hc,x,hx⟩ := h.sound r hr
    exact (hother c hc).1 (Option.some.inj (hx.id.symm.trans hsame))
  obtain ⟨new,hrows,hnew,hthere⟩ := restoreCa_rows db hpem hserial hid
  constructor
  · intro row hrow
    rw [hrows,List.mem_append] at hrow
    obtain hrow|hrow := hrow
    · obtain ⟨c,hc,x,hx⟩ := h.sound row hrow
      exact ⟨c,List.mem_append_left _ hc,x,hx⟩
    · obtain ⟨x,hx⟩ := hnew row hrow
      exact ⟨ci,by simp,x,hx⟩
  · intro c hc x hx
    rw [hrows]
    obtain hc|hc := List.mem_append.mp hc
    · obtain ⟨row,hrow,y,hy⟩ := h.complete c hc x hx
      exact ⟨row,List.mem_append_left _ hrow,y,hy⟩
    · obtain rfl := List.mem_singleton.mp hc
      obtain ⟨row,hrow⟩ := List.exists_mem_of_ne_nil new (hthere x hx)
      obtain ⟨y,hy⟩ := hnew row hrow
      exact ⟨row,List.mem_append_right _ hrow,y,hy⟩

/-- Each CA is listed once, and no two with one row. -/
theorem listCaInstances_pairwise (certs : Inventory) :
    (listCaInstances certs).Pairwise fun a b => a.1≠b.1 ∧ a.2.serial≠b.2.serial := by
  have hids : (listCaInstances certs).Pairwise fun a b => a.1≠b.1 := by
    have hnodup : (caIds certs).Nodup := (List.perm_insertionSort _ _).nodup_iff.mpr (List.nodup_dedup _)
    rw [listCaInstances]
    refine List.Pairwise.filterMap _ ?_ hnodup
    intro id id' hne a ha b hb hsame
    obtain ⟨r,_,rfl⟩ := Option.map_eq_some_iff.mp ha
    obtain ⟨r',_,rfl⟩ := Option.map_eq_some_iff.mp hb
    exact hne hsame
  refine hids.imp_of_mem fun {a b} ha hb hne => ⟨hne,fun hsame => ?_⟩
  have hrowa := mem_generations.mp (mem_listCaInstances ha)
  have hrowb := mem_generations.mp (mem_listCaInstances hb)
  have hrow : a.2=b.2 := certs.eq_of_key hrowa.1 hrowb.1 hsame
  rw [hrow] at hrowa
  exact hne (Option.some.inj (hrowa.2.2.symm.trans hrowb.2.2))

/-- The section of the CAs, over an inventory that has no row. -/
theorem cas_restored (made : Int) {st : Restoring}
    (hpem : ∀ r∈db.certs.rows,r.cert≠[] →
      lib.loadCaCertPem (caPem r.cert)=(lib.x509 r.cert).map fun _ => r.cert)
    (hst : st.db.certs.rows=[]) : ∃ s certs labels seq,
    Routine.each (((listCaInstances db.certs).map (caJson made db)).map
        fun c => reading (readCaEntry c) (restoreCa lib)) st=(true,s) ∧
    s.db={ st.db with certs := certs, labels := labels, insSeq := seq } ∧
    Rebuilt lib (listCaInstances db.certs) certs := by
  have heach : Routine.each (((listCaInstances db.certs).map (caJson made db)).map
      fun c => reading (readCaEntry c) (restoreCa lib)) st=
      (true,(listCaInstances db.certs).foldl (fun s ci => restoreCa lib (entryOf db ci) s) st) := by
    rw [List.map_map]
    apply Routine.each_returns
    intro ci _ s
    simp [reading,readCaEntry_caJson]
  have hrebuilt : ∀ l : List (String × Row),(∀ ci∈l,ci∈listCaInstances db.certs) →
      (l.Pairwise fun a b => a.1≠b.1 ∧ a.2.serial≠b.2.serial) →
      Rebuilt lib l (l.foldl (fun s ci => restoreCa lib (entryOf db ci) s) st).db.certs := by
    intro l
    induction l using List.reverseRecOn with
    | nil =>
      intro _ _
      exact ⟨by simp [hst],by simp⟩
    | append_singleton l ci ih =>
      intro hmem hpair
      rw [List.foldl_append,List.foldl_cons,List.foldl_nil]
      rw [List.pairwise_append] at hpair
      have hbefore := ih (fun c hc => hmem c (List.mem_append_left _ hc)) hpair.1
      have hrow := mem_generations.mp (mem_listCaInstances (hmem ci (by simp)))
      exact hbefore.snoc (fun c hc => hpair.2.2 c hc ci (by simp)) (hpem ci.2 hrow.1)
  have hframe : ∃ certs labels seq n,(listCaInstances db.certs).foldl
      (fun s ci => restoreCa lib (entryOf db ci) s) st=
      { st with db := { st.db with certs := certs, labels := labels, insSeq := seq }, nCa := n } := by
    refine foldl_related (R := fun (_ : Unit) s => ∃ certs labels seq n,
      s={ st with db := { st.db with certs := certs, labels := labels, insSeq := seq }, nCa := n })
      (f := fun u _ => u) (t := ()) (fun ci _ _ s h => ?_)
      ⟨st.db.certs,st.db.labels,st.db.insSeq,st.nCa,rfl⟩
    obtain ⟨certs,labels,seq,n,rfl⟩ := h
    exact restoreCa_frame lib (entryOf db ci) _
  obtain ⟨certs,labels,seq,n,hn⟩ := hframe
  have hfinal := hrebuilt _ (fun _ h => h) (listCaInstances_pairwise db.certs)
  rw [hn] at hfinal
  exact ⟨_,certs,labels,seq,heach,by rw [hn],hfinal⟩

end Cas

end FastPki.Backup
