import FastPki.Backup.Restore

namespace FastPki.Backup
open X509 Certs Ca Rbac Rbac.Users

section Sections

variable {lib : Library} {made : Int} {db : ConfigDb}

/-- Every setting is a text, so none of them throws. -/
theorem config_restored (db : ConfigDb) (st : Restoring) : ∃ s config,
    Routine.each ((configJson db).items.map fun c => reading (c.2.getStr.map (c.1,·)) setConfig) st=(true,s) ∧
      s.db={ st.db with config := config } := by
  have hread : ∀ c∈(configJson db).items,c.2.getStr.map (c.1,·)=some (c.1,c.2.getStr.getD "") := by
    intro c hc
    rw [configJson,Json.mem_items_object] at hc
    obtain ⟨x,_,rfl⟩ := List.mem_map.mp hc
    rfl
  have heach : Routine.each ((configJson db).items.map fun c => reading (c.2.getStr.map (c.1,·)) setConfig) st=
      (true,(configJson db).items.foldl (fun s c => setConfig (c.1,c.2.getStr.getD "") s) st) := by
    apply Routine.each_returns
    intro c hc s
    simp [reading,hread c hc]
  have hframe : ∃ t n,(configJson db).items.foldl (fun s c => setConfig (c.1,c.2.getStr.getD "") s) st=
      { st with db := { st.db with config := t }, nCfg := n } := by
    refine foldl_related (R := fun (_ : Unit) s => ∃ t n,s={ st with db := { st.db with config := t }, nCfg := n })
      (f := fun u _ => u) (t := ()) (fun c _ _ s h => ?_) ⟨st.db.config,st.nCfg,rfl⟩
    obtain ⟨t,n,rfl⟩ := h
    exact ⟨_,_,rfl⟩
  obtain ⟨t,n,hn⟩ := hframe
  exact ⟨_,t,heach,by rw [hn]⟩

/-- The profiles of a backup, with their names and what their definitions parse to. -/
theorem mem_profiles {p : String × Json} : p∈(storedCertProfiles lib db).items ↔
    ∃ text,(p.1,text)∈db.certProfiles ∧ lib.parse text=.ok p.2 := by
  rw [storedCertProfiles,Json.mem_items_object,List.mem_filterMap]
  simp only [listCertProfiles,mem_orderBy]
  constructor
  · intro h
    obtain ⟨⟨name,text⟩,hmem,hp⟩ := h
    obtain ⟨j,hj,rfl⟩ := Option.map_eq_some_iff.mp hp
    refine ⟨text,hmem,?_⟩
    cases hparse : lib.parse text with
    | error e => simp [hparse,Except.toOption] at hj
    | ok j' =>
      rw [hparse] at hj
      exact congrArg Except.ok (Option.some.inj hj)
  · intro h
    obtain ⟨text,hmem,hparse⟩ := h
    exact ⟨_,hmem,by simp [hparse,Except.toOption]⟩

theorem profiles_nodup (hdb : Constrained db) : ((storedCertProfiles lib db).items.map Prod.fst).Nodup := by
  have hnames : ((listCertProfiles db).map Prod.fst).Nodup := nodup_orderBy hdb.profiles
  rw [storedCertProfiles,Json.object,Json.items]
  apply nodup_orderBy
  rw [List.Nodup,List.pairwise_map] at hnames ⊢
  refine List.Pairwise.filterMap _ ?_ hnames
  intro p q hne a ha b hb
  obtain ⟨j,_,rfl⟩ := Option.map_eq_some_iff.mp ha
  obtain ⟨j',_,rfl⟩ := Option.map_eq_some_iff.mp hb
  exact hne

theorem restoreProfile_eq (hback : ReadsBack lib made db) {p : String × Json}
    (hp : p∈(storedCertProfiles lib db).items) (s : Restoring) : restoreProfile lib p s=
    if definitionLoads p.2 then (true,storeProfile lib p s) else (false,s) := by
  obtain ⟨hne,hparse⟩ := hback.profile p hp
  have hload : installCertProfilesJson lib (lib.dump (-1) (.obj [p]))=definitionLoads p.2 := by
    simp [installCertProfilesJson,hne,hparse,Except.toOption,Json.isObject,Json.items]
  rw [restoreProfile,hload]

/-- A profile that is stored again is one that loads; where all of them load, all are stored. -/
theorem profiles_restored (hdb : Constrained db) (hback : ReadsBack lib made db) {st : Restoring}
    (hst : st.db.certProfiles=[]) : ∃ r t,
    Routine.each ((storedCertProfiles lib db).items.map (restoreProfile lib)) st=r ∧
    r.2.db={ st.db with certProfiles := t } ∧
    (∀ q∈t,∃ p∈(storedCertProfiles lib db).items,definitionLoads p.2=true ∧ q=(p.1,lib.dump (-1) p.2)) ∧
    ((∀ p∈(storedCertProfiles lib db).items,definitionLoads p.2=true) →
      ∀ p∈(storedCertProfiles lib db).items,(p.1,lib.dump (-1) p.2)∈t) := by
  let l := (storedCertProfiles lib db).items
  let P (s : Restoring) : Prop := ∃ t n,s={ st with db := { st.db with certProfiles := t }, nPf := n } ∧
    ∀ q∈t,∃ p∈l,definitionLoads p.2=true ∧ q=(p.1,lib.dump (-1) p.2)
  have hsound : Routine.Meets P (Routine.each (l.map (restoreProfile lib))) P P := by
    apply Routine.Meets.each
    intro c hc s hs
    obtain ⟨p,hp,rfl⟩ := List.mem_map.mp hc
    rw [restoreProfile_eq hback hp]
    by_cases hload : definitionLoads p.2=true
    · obtain ⟨t,n,rfl,hq⟩ := hs
      simp only [if_pos hload,if_true]
      refine ⟨_,_,rfl,fun q hmem => ?_⟩
      obtain rfl|⟨hmem,_⟩ := mem_upsert.mp hmem
      · exact ⟨p,hp,hload,rfl⟩
      · exact hq q hmem
    · simpa [hload] using hs
  have hend := hsound st ⟨[],st.nPf,by rw [← hst],by simp⟩
  rw [ite_self] at hend
  obtain ⟨t,n,hstate,hrows⟩ := hend
  refine ⟨_,t,rfl,by rw [hstate],hrows,fun hall p hp => ?_⟩
  -- nothing throws, so the rows come one after the other
  have heach : Routine.each (l.map (restoreProfile lib)) st=(true,l.foldl (fun s p => storeProfile lib p s) st) := by
    apply Routine.each_returns
    intro q hq s
    rw [restoreProfile_eq hback hq,if_pos (hall q hq)]
  have htable : (l.foldl (fun s p => storeProfile lib p s) st).db.certProfiles=
      l.foldl (fun t p => upsert Prod.fst (p.1,lib.dump (-1) p.2) t) [] := by
    refine foldl_related (R := fun t (s : Restoring) => s.db.certProfiles=t) (fun q _ t s h => ?_) hst
    rw [← h]
    rfl
  have hfresh : l.foldl (fun t p => upsert Prod.fst (p.1,lib.dump (-1) p.2) t) []=
      l.filterMap fun p => some (p.1,lib.dump (-1) p.2) := by
    have hrow : ∀ (p : String × Json) (r : String × String),some (p.1,lib.dump (-1) p.2)=some r → r.1=p.1 := by
      intro p r hr
      exact Option.some.inj hr ▸ rfl
    have hput : ∀ (p : String × Json) (t : List (String × String)),(∀ y∈t,y.1≠p.1) →
        upsert Prod.fst (p.1,lib.dump (-1) p.2) t=t++(some (p.1,lib.dump (-1) p.2)).toList :=
      fun p t h => upsert_of_fresh h
    simpa using foldl_fresh hrow hput l [] (profiles_nodup hdb) (by simp)
  rw [heach] at hstate
  have ht : t=l.filterMap fun p => some (p.1,lib.dump (-1) p.2) := by
    rw [← hfresh,← htable]
    exact (congrArg (fun s : Restoring => s.db.certProfiles) hstate).symm
  rw [ht]
  exact List.mem_filterMap.mpr ⟨p,hp,rfl⟩

theorem notify_frame (l : List (String × Json)) (st : Restoring) : ∃ t,
    (Routine.each (l.map fun p => reading (readNotify p) upsertNotifyTemplate) st).2.db=
      { st.db with notifyTemplates := t } := by
  let P (s : Restoring) : Prop := ∃ t,s={ st with db := { st.db with notifyTemplates := t } }
  have hframe : Routine.Meets P (Routine.each (l.map fun p => reading (readNotify p) upsertNotifyTemplate)) P P := by
    apply Routine.Meets.each
    intro c hc s hs
    obtain ⟨p,_,rfl⟩ := List.mem_map.mp hc
    obtain ⟨t,rfl⟩ := hs
    cases hread : readNotify p with
    | none => exact ⟨t,by simp [reading]⟩
    | some x => exact ⟨_,rfl⟩
  have hend := hframe st ⟨st.db.notifyTemplates,rfl⟩
  rw [ite_self] at hend
  obtain ⟨t,ht⟩ := hend
  exact ⟨t,by rw [ht]⟩

/-- What the target holds after the restore. -/
structure Outcome (lib : Library) (db db' : ConfigDb) : Prop where
  users : db'.webUsers=(listWebUsers db).filterMap carryAccount
  cas : Rebuilt lib (listCaInstances db.certs) db'.certs
  roles : db'.roles=(listRoles db).filterMap carryRole
  grants : db'.rolePermissions=(listRoles db).foldl (fun t r => putGrants db r t) []
  bindings : db'.subjectRoles=(listSubjectRoles db).filterMap carryBinding
  templates : db'.msTemplates=(listMsTemplates db).filterMap carryTemplate
  stored : ∀ q∈db'.certProfiles,∃ p∈(storedCertProfiles lib db).items,
    definitionLoads p.2=true ∧ q=(p.1,lib.dump (-1) p.2)
  all : (∀ p∈(storedCertProfiles lib db).items,definitionLoads p.2=true) →
    ∀ p∈(storedCertProfiles lib db).items,(p.1,lib.dump (-1) p.2)∈db'.certProfiles

section Document

variable (lib) (made : Int) (db : ConfigDb) (profiles : Json)

omit lib in
theorem document_find (name : String) : (document made db profiles).find name=
    (lookup Prod.fst name ([("fastpki_backup",.int 1),("created",.int made),("config",configJson db),
      ("web_users",.arr ((listWebUsers db).map userJson)),
      ("ca_instances",.arr ((listCaInstances db.certs).map (caJson made db))),
      ("roles",.arr ((listRoles db).map (roleJson db))),
      ("subject_roles",.arr ((listSubjectRoles db).map bindingJson)),
      ("ms_templates",.arr ((listMsTemplates db).map templateJson)),
      ("cert_profiles",profiles)]++notifyJson db)).map Prod.snd := by
  rw [document]
  apply Json.find_object
  cases h : lookup NotifyTemplate.name expiryTemplateName db.notifyTemplates <;> simp [notifyJson,h]

theorem restoreSections_document (st : Restoring) :
    ∃ notify : List (String × Json),restoreSections lib (document made db profiles) st=Routine.each [
      .each ((configJson db).items.map fun c => reading (c.2.getStr.map (c.1,·)) setConfig),
      .each (((listWebUsers db).map userJson).map fun u => reading (readUser u) restoreUser),
      .each (((listCaInstances db.certs).map (caJson made db)).map
        fun c => reading (readCaEntry c) (restoreCa lib)),
      .each (((listRoles db).map (roleJson db)).map restoreRole),
      .each (((listSubjectRoles db).map bindingJson).map fun s => reading (readBinding s) restoreBinding),
      .each (((listMsTemplates db).map templateJson).map fun m => reading (readTemplateJson m) restoreTemplate),
      .each ((objectItems profiles).map (restoreProfile lib)),
      .each (notify.map fun p => reading (readNotify p) upsertNotifyTemplate)] st := by
  have hpart : ∀ name,part (document made db profiles) name=
      ((document made db profiles).find name).getD .null := fun _ => rfl
  refine ⟨(objectItems (part (document made db profiles) "notify_templates")).filter fun p => p.2.isObject,?_⟩
  simp [restoreSections,hpart,document_find,lookup_cons,Json.elements]

end Document

/-- The text that is built is read back, and is one of a backup. -/
theorem restored_eq (hback : ReadsBack lib made db) (target : ConfigDb) : restored lib made db target=
    (restoreSections lib (document made db (storedCertProfiles lib db)) { db := target }).2.db := by
  have hbuild : buildConfigBackup lib made db=
      .ok (lib.dump 2 (document made db (storedCertProfiles lib db))) := by
    rw [buildConfigBackup,hback.profiles]
    rfl
  have hcontains : (document made db (storedCertProfiles lib db)).contains "fastpki_backup"=true := by
    simp [Json.contains,document_find,lookup_cons]
  rw [restored,hbuild]
  simp [restoreConfigBackup,hback.backup,hcontains]

theorem restored_outcome {target : ConfigDb} (hdb : Constrained db) (hback : ReadsBack lib made db)
    (htarget : Empty target) : Outcome lib db (restored lib made db target) := by
  let profiles := storedCertProfiles lib db
  obtain ⟨notify,hsections⟩ := restoreSections_document lib made db profiles { db := target }
  have hitems : objectItems profiles=profiles.items := rfl
  rw [hitems] at hsections
  -- the sections in their order, each from the state that the ones before it leave
  obtain ⟨s1,config,hrun1,hs1⟩ := config_restored db { db := target }
  obtain ⟨s2,hrun2,hs2⟩ := users_restored s1 hdb (by rw [hs1]; exact htarget.users)
  have hempty : s2.db.certs.rows=[] := by
    rw [hs2,hs1]
    exact htarget.certs
  obtain ⟨s3,certs,labels,seq,hrun3,hs3,hrebuilt⟩ := cas_restored made hback.pem hempty
  obtain ⟨s4,hrun4,hs4⟩ := roles_restored s3 hdb (by rw [hs3,hs2,hs1]; exact htarget.roles)
    (by rw [hs3,hs2,hs1]; exact htarget.grants)
  obtain ⟨s5,hrun5,hs5⟩ := bindings_restored s4 hdb (by rw [hs4,hs3,hs2,hs1]; exact htarget.bindings)
  obtain ⟨s6,hrun6,hs6⟩ := templates_restored s5 hdb (by rw [hs5,hs4,hs3,hs2,hs1]; exact htarget.templates)
  have hnone : s6.db.certProfiles=[] := by
    rw [hs6,hs5,hs4,hs3,hs2,hs1]
    exact htarget.profiles
  obtain ⟨r,t,hrun7,hs7,hstored,hall⟩ := profiles_restored hdb hback hnone
  rw [Routine.each_cons,Routine.andThen_returns hrun1,Routine.each_cons,Routine.andThen_returns hrun2,
    Routine.each_cons,Routine.andThen_returns hrun3,Routine.each_cons,Routine.andThen_returns hrun4,
    Routine.each_cons,Routine.andThen_returns hrun5,Routine.each_cons,Routine.andThen_returns hrun6] at hsections
  have hlast : ∃ notifyTemplates,(restoreSections lib (document made db profiles) { db := target }).2.db=
      { r.2.db with notifyTemplates := notifyTemplates } := by
    obtain ⟨notifyTemplates,hnotify⟩ := notify_frame notify r.2
    have hprofiles : Routine.each (profiles.items.map (restoreProfile lib)) s6=r := hrun7
    rw [hsections,Routine.each_cons,Routine.each_cons]
    simp only [Routine.andThen,hprofiles]
    by_cases hr : r.1=true
    · refine ⟨notifyTemplates,?_⟩
      rw [if_pos hr,← hnotify]
      split_ifs <;> rfl
    · exact ⟨r.2.db.notifyTemplates,by rw [if_neg hr]⟩
  obtain ⟨notifyTemplates,hlast⟩ := hlast
  have hresult : restored lib made db target={ r.2.db with notifyTemplates := notifyTemplates } := by
    rw [restored_eq hback,← hlast]
  have hsound : ∀ q∈r.2.db.certProfiles,∃ p∈profiles.items,definitionLoads p.2=true ∧
      q=(p.1,lib.dump (-1) p.2) := by
    rw [hs7]
    exact hstored
  rw [hresult]
  refine ⟨?_,?_,?_,?_,?_,?_,hsound,?_⟩
  · rw [hs7,hs6,hs5,hs4,hs3,hs2]
  · rw [hs7,hs6,hs5,hs4,hs3]
    exact hrebuilt
  · rw [hs7,hs6,hs5,hs4]
  · rw [hs7,hs6,hs5,hs4]
  · rw [hs7,hs6,hs5]
  · rw [hs7,hs6]
  · rw [hs7]
    exact hall

end Sections

section Active

variable {d2i : Octets → Option X509Cert} {now : Int} {certs : Inventory} {id : String}

/-- When a CA is reported active, by the row that is read for it. -/
theorem active_iff : (resolveCaInstance d2i now certs id).active=true ↔
    ∃ row,(generations certs id).argmax rank=some row ∧ row.caEnabled.getD true=true ∧
      row.status≠some (-1) ∧ ¬(0 < row.notAfter.getD 0 ∧ row.notAfter.getD 0≤now) ∧
      ((resolveCaInstance d2i now certs id).found=true → row.privateKey≠"") := by
  cases hmax : (generations certs id).argmax rank with
  | none => simp [resolveCaInstance,getCaInstance,hmax]
  | some row =>
    have hci : getCaInstance now certs id=some (readCa now id row) := by rw [getCaInstance,hmax]; rfl
    have hactive : (resolveCaInstance d2i now certs id).active=decide
        ((readCa now id row).status="active" ∧ ¬(readCa now id row).revoked=true ∧
          ¬(readCa now id row).expired=true ∧ ((resolveCaInstance d2i now certs id).found=true →
            decide (row.privateKey≠"")=true)) := by
      simp only [resolveCaInstance,hci]
      rfl
    have hstatus : (readCa now id row).status="active" ↔ row.caEnabled.getD true=true := by
      cases henabled : row.caEnabled.getD true <;> simp [readCa,henabled]
    rw [hactive]
    simp only [decide_eq_true_eq,hstatus,Option.some.injEq,exists_eq_left']
    simp [readCa]

/-- A newest row whose certificate can be read is one to serve. -/
theorem found_of_newest {row : Row} (hmax : (generations certs id).argmax rank=some row)
    (hcert : row.cert≠[]) (hread : (d2i row.cert).isSome=true) :
    (resolveCaInstance d2i now certs id).found=true := by
  have hci : getCaInstance now certs id=some (readCa now id row) := by rw [getCaInstance,hmax]; rfl
  cases hnew : (getCaCertDer now certs id).filter fun r =>
      decide (r.cert≠[] ∧ (d2i r.cert).any X509Cert.checkCa=true) with
  | none =>
    simp only [resolveCaInstance,hci,hnew]
    simp [readCa,hread,hcert]
  | some r =>
    have hr : r.cert≠[] := by
      have h := (Option.filter_eq_some_iff.mp hnew).2
      simp only [decide_eq_true_eq] at h
      exact h.1
    simp only [resolveCaInstance,hci,hnew]
    simp [hr]

end Active

section Main

variable {lib : Library} {made now : Int} {db db' : ConfigDb}

/-- What a restore is to leave: no CA is active that was not, and the tables hold what they held. -/
structure Faithful (lib : Library) (now : Int) (db db' : ConfigDb) : Prop where
  cas : ∀ id,(resolveCaInstance lib.d2i now db'.certs id).active=true →
    (resolveCaInstance lib.d2i now db.certs id).active=true
  users : ∀ u,u∈listWebUsers db' ↔ u∈listWebUsers db
  roles : ∀ r,r∈listRoles db' ↔ r∈listRoles db
  grants : ∀ role g,g∈listRoleGrants db' role ↔ g∈listRoleGrants db role
  bindings : ∀ b,b∈listSubjectRoles db' ↔ b∈listSubjectRoles db
  templates : ∀ t,t∈listMsTemplates db' ↔ t∈listMsTemplates db
  profiles : ∀ p,p∈listCertProfiles db' ↔ p∈listCertProfiles db

/-- A listed CA with a number, a name and a key that is switched on, and whose certificate is readable,
of a CA and not past its own end. -/
def ComesBack (lib : Library) (now : Int) (ci : String × Row) : Prop :=
  ci.2.caEnabled.getD true=true ∧ ci.2.privateKey≠"" ∧
    ∃ x,Restorable lib ci x ∧ ¬(0<x.notAfter ∧ x.notAfter≤now)

/-- The row that is read for the CA is switched on, not revoked, not past its end, and names a key
unless there is no certificate to serve. -/
def InUse (lib : Library) (now : Int) (certs : Inventory) (id : String) : Prop :=
  ∃ row,(generations certs id).argmax rank=some row ∧ row.caEnabled.getD true=true ∧
    row.status≠some (-1) ∧ ¬(0 < row.notAfter.getD 0 ∧ row.notAfter.getD 0≤now) ∧
    (row.privateKey="" → (resolveCaInstance lib.d2i now certs id).found=false)

/-- What the tables have to be like for a restore to be faithful. -/
structure Carried (lib : Library) (now : Int) (db : ConfigDb) : Prop where
  cas : ∀ ci∈listCaInstances db.certs,ComesBack lib now ci → InUse lib now db.certs ci.1
  users : ∀ u∈db.webUsers,u.username≠"" ∧ u.created=0
  roles : ∀ r∈db.roles,r.name≠"" ∧ r.builtin=false
  scopes : ∀ g∈db.rolePermissions,g.scope≠""
  bindings : ∀ b∈db.subjectRoles,b.selectorValue≠"" ∧ b.role≠""
  templates : ∀ t∈db.msTemplates,t.name≠""
  profiles : ∀ p∈db.certProfiles,∃ j,lib.parse p.2=.ok j ∧ definitionLoads j=true ∧ lib.dump (-1) j=p.2

theorem inUse_iff {certs : Inventory} {id : String} :
    (resolveCaInstance lib.d2i now certs id).active=true ↔ InUse lib now certs id := by
  rw [active_iff,InUse]
  refine exists_congr fun row => and_congr_right' (and_congr_right' (and_congr_right' (and_congr_right' ?_)))
  rw [← Bool.not_eq_true]
  exact imp_not_comm

/-- Two entries for one id are the same entry. -/
theorem entry_unique {certs : Inventory} {a b : String × Row} (ha : a∈listCaInstances certs)
    (hb : b∈listCaInstances certs) (h : a.1=b.1) : a=b := by
  simp only [listCaInstances,List.mem_filterMap] at ha hb
  obtain ⟨id,_,ha⟩ := ha
  obtain ⟨row,hmax,rfl⟩ := Option.map_eq_some_iff.mp ha
  obtain ⟨id',_,hb⟩ := hb
  obtain ⟨row',hmax',rfl⟩ := Option.map_eq_some_iff.mp hb
  obtain rfl : id=id' := h
  rw [hmax] at hmax'
  rw [Option.some.inj hmax']

theorem active_restored {certs : Inventory} (h : Rebuilt lib (listCaInstances db.certs) certs) {id : String} :
    (resolveCaInstance lib.d2i now certs id).active=true ↔
      ∃ ci∈listCaInstances db.certs,ci.1=id ∧ ComesBack lib now ci := by
  have hrow : ∀ row,(generations certs id).argmax rank=some row →
      ∃ ci∈listCaInstances db.certs,∃ x,ci.1=id ∧ Restorable lib ci x ∧ Recreated lib ci x row := by
    intro row hmax
    obtain ⟨hmem,hca,hid⟩ := mem_generations.mp (List.argmax_mem hmax)
    obtain ⟨ci,hci,x,hx⟩ := h.sound row hmem
    have hname : ci.1=id := Option.some.inj (hx.id.symm.trans hid)
    exact ⟨ci,hci,x,hname,⟨hx.named,hx.numbered,hx.stored,hx.read,hx.isCa.symm.trans hca⟩,hx⟩
  have hfields : ∀ ci x row,Restorable lib ci x → Recreated lib ci x row →
      row.caEnabled.getD true=ci.2.caEnabled.getD true := by
    intro ci x row hr hx
    rw [hx.enabled (hx.isCa.trans hr.isCa)]
    rfl
  rw [active_iff]
  constructor
  · intro hactive
    obtain ⟨row,hmax,henabled,_,hvalid,hkey⟩ := hactive
    obtain ⟨ci,hci,x,hname,hr,hx⟩ := hrow row hmax
    have hfound : (resolveCaInstance lib.d2i now certs id).found=true := by
      apply found_of_newest hmax
      · rw [hx.cert]
        exact hx.stored
      · simp [Library.d2i,hx.cert,hx.read]
    refine ⟨ci,hci,hname,?_,?_,x,hr,?_⟩
    · rw [← hfields ci x row hr hx]
      exact henabled
    · rw [← hx.key]
      exact hkey hfound
    · simpa [hx.notAfter] using hvalid
  · intro hback
    obtain ⟨ci,hci,hname,henabled,hkey,x,hr,hvalid⟩ := hback
    obtain ⟨made,hmade,y,hy⟩ := h.complete ci hci x hr
    have hgen : made∈generations certs id := by
      have hsame : x=y := Option.some.inj (hr.read.symm.trans hy.read)
      rw [mem_generations,hy.isCa,← hsame,hy.id,hname]
      exact ⟨hmade,hr.isCa,rfl⟩
    cases hmax : (generations certs id).argmax rank with
    | none =>
      rw [List.argmax_eq_none] at hmax
      rw [hmax] at hgen
      cases hgen
    | some row =>
      obtain ⟨ci',hci',x',hname',hr',hx'⟩ := hrow row hmax
      obtain rfl := entry_unique hci' hci (hname'.trans hname.symm)
      obtain rfl : x'=x := Option.some.inj (hr'.read.symm.trans hr.read)
      refine ⟨row,rfl,?_,?_,?_,?_⟩
      · rw [hfields ci' x' row hr' hx']
        exact henabled
      · rw [hx'.status]
        decide
      · simpa [hx'.notAfter] using hvalid
      · intro _
        rw [hx'.key]
        exact hkey

theorem cas_iff (h : Outcome lib db db') : (∀ id,(resolveCaInstance lib.d2i now db'.certs id).active=true →
    (resolveCaInstance lib.d2i now db.certs id).active=true) ↔
    ∀ ci∈listCaInstances db.certs,ComesBack lib now ci → InUse lib now db.certs ci.1 := by
  constructor
  · intro hall ci hci hback
    exact inUse_iff.mp (hall ci.1 ((active_restored h.cas).mpr ⟨ci,hci,rfl,hback⟩))
  · intro hall id hactive
    obtain ⟨ci,hci,rfl,hback⟩ := (active_restored h.cas).mp hactive
    exact inUse_iff.mpr (hall ci hci hback)

theorem users_iff (hdb : Constrained db) (h : Outcome lib db db') :
    (∀ u,u∈listWebUsers db' ↔ u∈listWebUsers db) ↔ ∀ u∈db.webUsers,u.username≠"" ∧ u.created=0 := by
  have hkeys : ((listWebUsers db).map Account.key).Nodup := nodup_orderBy hdb.users
  have hsame : ∀ u,carryAccount u=some u ↔ u.username≠"" ∧ u.created=0 := by
    intro u
    simp only [carryAccount,Option.ite_none_left_eq_some,Option.some.injEq]
    refine and_congr_right fun _ => ⟨fun hu => by rw [← hu],fun hu => ?_⟩
    rw [← hu]
  have hmem : ∀ u,u∈listWebUsers db' ↔ u∈(listWebUsers db).filterMap carryAccount := by
    intro u
    rw [listWebUsers,mem_orderBy,h.users]
  simp only [hmem,carried_iff hkeys fun _ _ => carryAccount_key,hsame]
  simp [listWebUsers]

theorem roles_iff (hdb : Constrained db) (h : Outcome lib db db') :
    (∀ r,r∈listRoles db' ↔ r∈listRoles db) ↔ ∀ r∈db.roles,r.name≠"" ∧ r.builtin=false := by
  have hkeys : ((listRoles db).map fun r => r.name).Nodup := nodup_orderBy hdb.roles
  have hsame : ∀ r,carryRole r=some r ↔ r.name≠"" ∧ r.builtin=false := by
    intro r
    simp only [carryRole,Option.ite_none_left_eq_some,Option.some.injEq]
    refine and_congr_right fun _ => ⟨fun hr => by rw [← hr],fun hr => ?_⟩
    rw [← hr]
  have hmem : ∀ r,r∈listRoles db' ↔ r∈(listRoles db).filterMap carryRole := by
    intro r
    rw [listRoles,mem_orderBy,h.roles]
  simp only [hmem,carried_iff hkeys fun _ _ => carryRole_name,hsame]
  simp [listRoles]

theorem bindings_iff (hdb : Constrained db) (h : Outcome lib db db') :
    (∀ b,b∈listSubjectRoles db' ↔ b∈listSubjectRoles db) ↔
      ∀ b∈db.subjectRoles,b.selectorValue≠"" ∧ b.role≠"" := by
  have hkeys : ((listSubjectRoles db).map Binding.toSubjectRole).Nodup := nodup_orderBy hdb.bindings
  have hsame : ∀ b,carryBinding b=some b ↔ b.selectorValue≠"" ∧ b.role≠"" := by
    intro b
    simp [carryBinding]
  have hmem : ∀ b,b∈listSubjectRoles db' ↔ b∈(listSubjectRoles db).filterMap carryBinding := by
    intro b
    rw [listSubjectRoles,mem_orderBy,h.bindings]
  simp only [hmem,carried_iff hkeys fun _ _ => carryBinding_selects,hsame]
  simp [listSubjectRoles]

theorem not_mem_of_mem_splitOn {sep : Char} {text part : List Char} (h : part∈text.splitOn sep) : sep∉part := by
  induction text generalizing part with
  | nil =>
    rw [List.splitOn_nil,List.mem_singleton] at h
    simp [h]
  | cons c text ih =>
    rw [List.splitOn_cons_eq_if_modifyHead] at h
    cases hparts : text.splitOn sep with
    | nil => exact absurd hparts (List.splitOn_ne_nil sep text)
    | cons first rest =>
      rw [hparts] at h ih
      by_cases hc : (c==sep)=true
      · rw [if_pos hc] at h
        obtain rfl|h := List.mem_cons.mp h
        · simp
        · exact ih h
      · rw [if_neg hc,List.modifyHead_cons] at h
        obtain rfl|h := List.mem_cons.mp h
        · have hne : sep≠c := fun hsame => hc (by simp [hsame])
          simp [hne,ih List.mem_cons_self]
        · exact ih (List.mem_cons_of_mem first h)

/-- A list that was read from a column reads the same once it is written again. -/
theorem splitPipe_joinPipe (s : String) : splitPipe (joinPipe (splitPipe s))=splitPipe s := by
  let parts := (s.toList.splitOn '|').filter (· ≠ [])
  have hparts : splitPipe s=parts.map String.ofList := rfl
  have hplain : ∀ part∈parts,'|'∉part := by
    intro part hpart
    exact not_mem_of_mem_splitOn (List.mem_filter.mp hpart).1
  have hjoin : (joinPipe (splitPipe s)).toList=['|'].intercalate parts := by
    rw [joinPipe,String.toList_intercalate,hparts,List.map_map]
    congr 1
    exact List.map_id'' (fun part => String.toList_ofList) parts
  rw [splitPipe,hjoin]
  by_cases hnil : parts=[]
  · rw [hparts,hnil]
    rfl
  · rw [List.splitOn_intercalate '|' hplain hnil,hparts]
    have hfilter : parts.filter (fun part => decide (part≠[]))=parts := by
      apply List.filter_eq_self.mpr
      intro part hpart
      exact (List.mem_filter.mp hpart).2
    rw [hfilter]

theorem readTemplate_writeTemplate (r : MsTemplateRow) :
    readTemplate (writeTemplate (readTemplate r))=readTemplate r := by
  have husage : (((readTemplate r).keyUsage : Int)%2^32).toNat=(readTemplate r).keyUsage := by
    have hlt := readTemplate_keyUsage r
    omega
  have hflag : ∀ n : Int,(((decide (n≠0)).toNat : Int)=0)=(n=0) := by
    intro n
    by_cases h : n=0 <;> simp [h]
  have hdefault : ∀ (column : Option String) (default : String),default≠"" →
      orDefault (some (orDefault column default)) default=orDefault column default := by
    intro column default hne
    by_cases h : column.getD ""=""
    · simp [orDefault,h]
    · simp [orDefault,h]
  have hpk := hdefault r.pkOid "1.2.840.113549.1.1.1" (by decide)
  have hname := hdefault r.pkName "RSA" (by decide)
  have hhash := hdefault r.hashOid "2.16.840.1.101.3.4.2.1" (by decide)
  have hhashName := hdefault r.hashName "sha256" (by decide)
  simp only [readTemplate] at husage
  simp only [readTemplate,writeTemplate,husage,hpk,hname,hhash,hhashName,Option.getD_some,splitPipe_joinPipe,
    ne_eq,hflag]

theorem templates_iff (hdb : Constrained db) (h : Outcome lib db db') :
    (∀ t,t∈listMsTemplates db' ↔ t∈listMsTemplates db) ↔ ∀ t∈db.msTemplates,t.name≠"" := by
  let carry (t : MsTemplate) : Option MsTemplate := if t.name="" then none else some t
  have hkeep : ∀ t x : MsTemplate,carry t=some x → x.name=t.name :=
    fun t x => key_of_kept MsTemplate.name
  have hsame : ∀ t : MsTemplate,carry t=some t ↔ t.name≠"" := by
    intro t
    simp [carry]
  have hmem : ∀ t,t∈listMsTemplates db' ↔ t∈(listMsTemplates db).filterMap carry := by
    intro t
    rw [mem_listMsTemplates,h.templates,List.mem_filterMap]
    constructor
    · intro ht
      obtain ⟨row,hrow,rfl⟩ := ht
      obtain ⟨m,hm,hmrow⟩ := List.mem_filterMap.mp hrow
      obtain ⟨r,hr,rfl⟩ := mem_listMsTemplates.mp hm
      simp only [carryTemplate,Option.ite_none_left_eq_some,Option.some.injEq] at hmrow
      refine ⟨readTemplate r,hm,?_⟩
      rw [← hmrow.2,readTemplate_writeTemplate]
      exact if_neg hmrow.1
    · intro ht
      obtain ⟨m,hm,hmt⟩ := ht
      simp only [carry,Option.ite_none_left_eq_some,Option.some.injEq] at hmt
      obtain ⟨hname,rfl⟩ := hmt
      obtain ⟨r,hr,rfl⟩ := mem_listMsTemplates.mp hm
      exact ⟨writeTemplate (readTemplate r),List.mem_filterMap.mpr ⟨readTemplate r,hm,if_neg hname⟩,
        readTemplate_writeTemplate r⟩
  have hnames : (∀ t∈listMsTemplates db,t.name≠"") ↔ ∀ r∈db.msTemplates,r.name≠"" := by
    constructor
    · intro hall r hr
      exact hall (readTemplate r) (mem_listMsTemplates.mpr ⟨r,hr,rfl⟩)
    · intro hall t ht
      obtain ⟨r,hr,rfl⟩ := mem_listMsTemplates.mp ht
      exact hall r hr
  simp only [hmem,carried_iff (listMsTemplates_nodup hdb) hkeep,hsame]
  exact hnames

theorem profiles_iff (hdb : Constrained db) (h : Outcome lib db db') :
    (∀ p,p∈listCertProfiles db' ↔ p∈listCertProfiles db) ↔
      ∀ p∈db.certProfiles,∃ j,lib.parse p.2=.ok j ∧ definitionLoads j=true ∧ lib.dump (-1) j=p.2 := by
  simp only [listCertProfiles,mem_orderBy]
  constructor
  · intro hall p hp
    obtain ⟨q,hq,hload,rfl⟩ := h.stored p ((hall p).mpr hp)
    obtain ⟨text,htext,hparse⟩ := mem_profiles.mp hq
    have hsame : (q.1,text)=(q.1,lib.dump (-1) q.2) := List.inj_on_of_nodup_map hdb.profiles htext hp rfl
    have hdump : text=lib.dump (-1) q.2 := congrArg Prod.snd hsame
    rw [hdump] at hparse
    exact ⟨q.2,hparse,hload,rfl⟩
  · intro hall
    have hloads : ∀ q∈(storedCertProfiles lib db).items,definitionLoads q.2=true ∧
        (q.1,lib.dump (-1) q.2)∈db.certProfiles := by
      intro q hq
      obtain ⟨text,htext,hparse⟩ := mem_profiles.mp hq
      obtain ⟨j,hj,hload,hdump⟩ := hall _ htext
      obtain rfl : j=q.2 := Except.ok.inj (hj.symm.trans hparse)
      exact ⟨hload,by rw [hdump]; exact htext⟩
    intro p
    constructor
    · intro hp
      obtain ⟨q,hq,_,rfl⟩ := h.stored p hp
      exact (hloads q hq).2
    · intro hp
      obtain ⟨j,hparse,_,hdump⟩ := hall p hp
      have hq : (p.1,j)∈(storedCertProfiles lib db).items := mem_profiles.mpr ⟨p.2,hp,hparse⟩
      have hstored := h.all (fun q hq => (hloads q hq).1) (p.1,j) hq
      rwa [hdump] at hstored

theorem grants_scoped (h : Outcome lib db db') (hdb : Constrained db) {g : RoleGrant}
    (hg : g∈db'.rolePermissions) : g.scope≠"" := by
  have hkeys : ((listRoles db).map fun r => r.name).Nodup := nodup_orderBy hdb.roles
  rw [h.grants,mem_restoredGrants hkeys] at hg
  obtain ⟨_,_,_,g',_,_,rfl⟩ := hg
  by_cases hscope : g'.scope="" <;> simp [starred,hscope]

theorem grants_same (h : Outcome lib db db') (hdb : Constrained db) (hroles : ∀ r∈db.roles,r.name≠"")
    (hscopes : ∀ g∈db.rolePermissions,g.scope≠"") (g : RoleGrant) :
    g∈db'.rolePermissions ↔ g∈db.rolePermissions := by
  have hkeys : ((listRoles db).map fun r => r.name).Nodup := nodup_orderBy hdb.roles
  have hplain : ∀ g∈db.rolePermissions,starred g=g := by
    intro g hg
    simp [starred,hscopes g hg]
  rw [h.grants,mem_restoredGrants hkeys]
  constructor
  · intro hx
    obtain ⟨_,_,_,g',hg',_,rfl⟩ := hx
    rwa [hplain g' hg']
  · intro hg
    obtain ⟨r,hr,hname⟩ := hdb.grants g hg
    exact ⟨r,mem_orderBy.mpr hr,hroles r hr,g,hg,hname.symm,hplain g hg⟩

/-- A restore is faithful exactly when no revoked or expired CA has a certificate and a key to come
back with, and the tables hold nothing that is dropped or written otherwise on the way. -/
theorem restore_revives_nothing_iff (lib : Library) (made now : Int) (db target : ConfigDb)
    (hdb : Constrained db) (hback : ReadsBack lib made db) (htarget : Empty target) :
    Faithful lib now db (restored lib made db target) ↔ Carried lib now db := by
  have h := restored_outcome hdb hback htarget
  constructor
  · intro hf
    have hscopes : ∀ g∈db.rolePermissions,g.scope≠"" := by
      intro g hg
      have hmem := (hf.grants g.role g).mpr (mem_listRoleGrants.mpr ⟨hg,rfl⟩)
      exact grants_scoped h hdb (mem_listRoleGrants.mp hmem).1
    exact ⟨(cas_iff h).mp hf.cas,(users_iff hdb h).mp hf.users,(roles_iff hdb h).mp hf.roles,hscopes,
      (bindings_iff hdb h).mp hf.bindings,(templates_iff hdb h).mp hf.templates,
      (profiles_iff hdb h).mp hf.profiles⟩
  · intro hc
    have hgrants : ∀ role g,g∈listRoleGrants (restored lib made db target) role ↔ g∈listRoleGrants db role := by
      intro role g
      rw [mem_listRoleGrants,mem_listRoleGrants,grants_same h hdb (fun r hr => (hc.roles r hr).1) hc.scopes]
    exact ⟨(cas_iff h).mpr hc.cas,(users_iff hdb h).mpr hc.users,(roles_iff hdb h).mpr hc.roles,hgrants,
      (bindings_iff hdb h).mpr hc.bindings,(templates_iff hdb h).mpr hc.templates,
      (profiles_iff hdb h).mpr hc.profiles⟩

end Main

def sampleRoot (status : Int) : Row :=
  { generationRow 1 "root" [1,1,1,1] with status := some status, privateKey := "pkcs11:object=root" }

/-- A root of this status, with an account, a role and its bindings. -/
def sampleDb (status : Int) : ConfigDb where
  config := []
  webUsers := [⟨"alice","operator","pbkdf2$1",false,0,"local",""⟩]
  certs := ⟨[sampleRoot status],by simp⟩
  labels := fun _ => ⟨"Root",true⟩
  insSeq := 2
  roles := [⟨⟨"operator",some 5,none,none⟩,"",false⟩]
  rolePermissions := [⟨"operator","cert:revoke","root"⟩]
  subjectRoles := [⟨⟨"group","ops","operator"⟩,7⟩]
  msTemplates := []
  certProfiles := []
  notifyTemplates := []

def emptyDb : ConfigDb where
  config := []
  webUsers := []
  certs := ⟨[],List.nodup_nil⟩
  labels := fun _ => ⟨"",true⟩
  insSeq := 1
  roles := []
  rolePermissions := []
  subjectRoles := []
  msTemplates := []
  certProfiles := []
  notifyTemplates := []

def sampleDocument : Json := document 1000 (sampleDb 0) (.obj [])

/-- The text of this document. -/
def sampleText : String :=
  "\x7b\n  \"ca_instances\": [\n    \x7b\n      \"created\": 1,\n      \"id\": \"root\",\n"++
  "      \"ms_enroll_permission\": true,\n      \"name\": \"Root\",\n"++
  "      \"parent_id\": \"\",\n      \"serial\": \"root1\",\n"++
  "      \"signing_ca_key\": \"pkcs11:object=root\",\n"++
  "      \"signing_ca_pem\": \"-----BEGIN CERTIFICATE-----\\nAQEBAQ==\\n-----END CERTIFICATE-----\\n\",\n"++
  "      \"status\": \"active\"\n    \x7d\n  ],\n  \"cert_profiles\": \x7b\x7d,\n"++
  "  \"config\": \x7b\x7d,\n  \"created\": 1000,\n  \"fastpki_backup\": 1,\n"++
  "  \"ms_templates\": [],\n  \"roles\": [\n    \x7b\n      \"builtin\": false,\n"++
  "      \"description\": \"\",\n      \"grants\": [\n        \x7b\n"++
  "          \"permission\": \"cert:revoke\",\n          \"scope\": \"root\"\n        \x7d\n"++
  "      ],\n      \"max_certs\": 5,\n      \"name\": \"operator\"\n    \x7d\n  ],\n"++
  "  \"subject_roles\": [\n    \x7b\n      \"created\": 7,\n      \"role\": \"operator\",\n"++
  "      \"selector_type\": \"group\",\n      \"selector_value\": \"ops\"\n    \x7d\n  ],\n"++
  "  \"web_users\": [\n    \x7b\n      \"auth_provider\": \"local\",\n      \"email\": \"\",\n"++
  "      \"hash\": \"pbkdf2$1\",\n      \"must_reset\": false,\n      \"role\": \"operator\",\n"++
  "      \"username\": \"alice\"\n    \x7d\n  ]\n\x7d"

def noText : String := "\x7b\x7d"

/-- The libraries as they are on the sample. -/
def sampleLib : Library where
  x509 := fun der => (readCert der).map fun c => ⟨c,1,5000,[1],[1]⟩
  loadCaCertPem := fun text => [[1,1,1,1]].find? fun der => caPem der = text
  parse := fun text =>
    if text = sampleText then .ok sampleDocument
    else if text = noText then .ok (.obj [])
    else .error "parse error"
  dump := fun indent _ => if indent = 2 then sampleText else noText

section Sample

variable (status : Int)

theorem sample_generations : generations (sampleDb status).certs "root"=[sampleRoot status] := by
  simp [generations,sampleDb,sampleRoot,generationRow]

theorem sample_listed : listCaInstances (sampleDb status).certs=[("root",sampleRoot status)] := by
  have hids : caIds (sampleDb status).certs=["root"] := by
    simp [caIds,sampleDb,sampleRoot,generationRow]
  rw [listCaInstances,hids]
  simp [sample_generations,List.argmax_singleton]

/-- The document says nothing of the status. -/
theorem sample_document : document 1000 (sampleDb status) (.obj [])=sampleDocument := by
  have hcas : (listCaInstances (sampleDb status).certs).map (caJson 1000 (sampleDb status))=
      (listCaInstances (sampleDb 0).certs).map (caJson 1000 (sampleDb 0)) := by
    have hparent : ∀ status,parentId (sampleDb status).certs "root"="" := by
      intro status
      simp [parentId,sampleDb,sampleRoot,generationRow]
    simp only [sample_listed,List.map_cons,List.map_nil,caJson,readCa,hparent]
    rfl
  rw [sampleDocument,document,document,hcas]
  rfl

theorem sample_profiles : storedCertProfiles sampleLib (sampleDb status)=.obj [] := rfl

theorem sample_constrained : Constrained (sampleDb status) := by
  constructor <;> simp [sampleDb,InInt]

theorem sample_readsBack : ReadsBack sampleLib 1000 (sampleDb status) := by
  have hempty : sampleLib.parse noText=.ok (.obj []) := by
    have hother : noText≠sampleText := by decide
    simp [sampleLib,hother]
  constructor
  · intro r hr _
    obtain rfl : r=sampleRoot status := List.mem_singleton.mp hr
    simp [sampleLib,sampleRoot,generationRow,readCert]
  · exact hempty
  · intro p hp
    cases hp
  · rw [sample_profiles,sample_document]
    simp [sampleLib]

theorem empty_emptyDb : Empty emptyDb := ⟨rfl,rfl,rfl,rfl,rfl,rfl,rfl⟩

theorem sample_comesBack : ComesBack sampleLib 1000 ("root",sampleRoot status) := by
  refine ⟨rfl,by simp [sampleRoot],⟨certFor 1 1 1 1,1,5000,[1],[1]⟩,?_,by simp⟩
  constructor
  · simp
  · have hserial : (sampleRoot 0).serial≠"" := by decide
    exact hserial
  · simp [sampleRoot,generationRow]
  · rfl
  · rfl

theorem sample_inUse_iff : InUse sampleLib 1000 (sampleDb status).certs "root" ↔ status≠-1 := by
  rw [InUse,sample_generations,List.argmax_singleton]
  simp [sampleRoot,generationRow]

end Sample

theorem restore_faithful_sample : Constrained (sampleDb 0) ∧ ReadsBack sampleLib 1000 (sampleDb 0) ∧
    Empty emptyDb ∧ Faithful sampleLib 1000 (sampleDb 0) (restored sampleLib 1000 (sampleDb 0) emptyDb) := by
  have hcarried : Carried sampleLib 1000 (sampleDb 0) := by
    constructor
    · intro ci hci _
      rw [sample_listed,List.mem_singleton] at hci
      rw [hci]
      exact (sample_inUse_iff 0).mpr (by decide)
    · simp [sampleDb]
    · simp [sampleDb]
    · simp [sampleDb]
    · simp [sampleDb]
    · simp [sampleDb]
    · simp [sampleDb]
  exact ⟨sample_constrained 0,sample_readsBack 0,empty_emptyDb,
    (restore_revives_nothing_iff sampleLib 1000 1000 (sampleDb 0) emptyDb (sample_constrained 0)
      (sample_readsBack 0) empty_emptyDb).mpr hcarried⟩

/-- The root was revoked; it is active once it has been restored. -/
theorem restore_revives_revoked_root :
    Constrained (sampleDb (-1)) ∧ ReadsBack sampleLib 1000 (sampleDb (-1)) ∧ Empty emptyDb ∧
    (resolveCaInstance sampleLib.d2i 1000 (sampleDb (-1)).certs "root").active=false ∧
    (resolveCaInstance sampleLib.d2i 1000
      (restored sampleLib 1000 (sampleDb (-1)) emptyDb).certs "root").active=true ∧
    ¬Faithful sampleLib 1000 (sampleDb (-1)) (restored sampleLib 1000 (sampleDb (-1)) emptyDb) := by
  have hrevoked : ¬(resolveCaInstance sampleLib.d2i 1000 (sampleDb (-1)).certs "root").active=true := by
    rw [inUse_iff,sample_inUse_iff]
    decide
  have houtcome := restored_outcome (sample_constrained (-1)) (sample_readsBack (-1)) empty_emptyDb
  have hrevived : (resolveCaInstance sampleLib.d2i 1000
      (restored sampleLib 1000 (sampleDb (-1)) emptyDb).certs "root").active=true := by
    rw [active_restored houtcome.cas,sample_listed]
    exact ⟨_,List.mem_singleton_self _,rfl,sample_comesBack (-1)⟩
  exact ⟨sample_constrained (-1),sample_readsBack (-1),empty_emptyDb,by simpa using hrevoked,hrevived,
    fun hf => hrevoked (hf.cas "root" hrevived)⟩

end FastPki.Backup
