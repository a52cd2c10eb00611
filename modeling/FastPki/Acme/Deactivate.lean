import FastPki.Acme.Routes

namespace FastPki.Acme

open FastPki.X509 FastPki.Policy FastPki.Certs

def accountDeactivated (tb : Tables) (id : String) : Bool :=
  (tb.getAccountById id).any (·.status = 1)

def authzDeactivated (tb : Tables) (id : String) : Bool :=
  (getAuthz tb.db id).any (·.status = -2)

/-- No deactivated account and no deactivated authorization has got another status. -/
structure StaysDeactivated (tb tb' : Tables) : Prop where
  account : ∀ id,accountDeactivated tb id=true → accountDeactivated tb' id=true
  authz : ∀ id,authzDeactivated tb id=true → authzDeactivated tb' id=true

theorem StaysDeactivated.refl (tb : Tables) : StaysDeactivated tb tb :=
  ⟨fun _ h => h,fun _ h => h⟩

theorem StaysDeactivated.trans {tb tb' tb'' : Tables} (h : StaysDeactivated tb tb')
    (h' : StaysDeactivated tb' tb'') : StaysDeactivated tb tb'' :=
  ⟨fun id hid => h'.account id (h.account id hid),fun id hid => h'.authz id (h.authz id hid)⟩

/-- A statement that writes neither accounts nor authorizations. -/
theorem StaysDeactivated.of_eq {tb tb' : Tables} (haccounts : tb'.accounts=tb.accounts)
    (hauthzs : tb'.authzs=tb.authzs) : StaysDeactivated tb tb' := by
  constructor
  · intro id hid
    rwa [accountDeactivated,Tables.getAccountById,haccounts]
  · intro id hid
    rw [authzDeactivated,getAuthz] at hid ⊢
    change (lookup AcmeAuthz.id id tb'.authzs).any _=true
    rw [hauthzs]
    exact hid

/-- A saved account loses its deactivation exactly when the copy had not seen it. -/
theorem staysDeactivated_saveAccount_iff (tb : Tables) (acc : AccountRow) :
    StaysDeactivated tb (tb.saveAccount acc) ↔
      (accountDeactivated tb acc.id=true → acc.status=1) := by
  have hself : (tb.saveAccount acc).getAccountById acc.id=some acc :=
    lookup_upsert_self acc tb.accounts
  constructor
  · intro h hdead
    have hafter : accountDeactivated (tb.saveAccount acc) acc.id=true := h.account acc.id hdead
    rw [accountDeactivated,hself] at hafter
    simpa using hafter
  · intro h
    refine ⟨fun id hid => ?_,fun id hid => hid⟩
    by_cases heq : acc.id=id
    · subst heq
      rw [accountDeactivated,hself]
      simpa using h hid
    · have hother : (tb.saveAccount acc).getAccountById id=tb.getAccountById id :=
        lookup_upsert_of_ne tb.accounts heq
      rwa [accountDeactivated,hother]

theorem staysDeactivated_saveAuthz_iff (tb : Tables) (a : AcmeAuthz) :
    StaysDeactivated tb (tb.put (saveAuthz tb.db a)) ↔
      (authzDeactivated tb a.id=true → a.status=-2) := by
  have hself : getAuthz (tb.put (saveAuthz tb.db a)).db a.id=some a :=
    lookup_upsert_self a tb.authzs
  constructor
  · intro h hdead
    have hafter : authzDeactivated (tb.put (saveAuthz tb.db a)) a.id=true := h.authz a.id hdead
    rw [authzDeactivated,hself] at hafter
    simpa using hafter
  · intro h
    refine ⟨fun id hid => hid,fun id hid => ?_⟩
    by_cases heq : a.id=id
    · subst heq
      rw [authzDeactivated,hself]
      simpa using h hid
    · have hother : getAuthz (tb.put (saveAuthz tb.db a)).db id=getAuthz tb.db id :=
        lookup_upsert_of_ne tb.authzs heq
      rwa [authzDeactivated,hother]

/-- The id under which the next statement saves an authorization, as pending or valid: the verifier
the one it read, new-order one it has drawn. -/
def Thread.savesAuthz (inp : Input) : Thread → Option String
  | .newOrder (.reuse _ _) _ _ _ => some inp.newId
  | .newOrder (.make _) _ _ _ => some inp.newId
  | .verify .authz _ a _ => some a.id
  | _ => none

theorem newOrderStep_savesAuthz (inp : Input) (db : Db) (stage : NewOrderStage) (o : AcmeOrder)
    (todo : List Identifier) (allValid : Bool) :
    ((Thread.newOrder stage o todo allValid).savesAuthz inp=none ∧
      (newOrderStep inp db stage o todo allValid).db.authzs=db.authzs) ∨
    ∃ a,(Thread.newOrder stage o todo allValid).savesAuthz inp=some a.id ∧ a.status≠-2 ∧
      (newOrderStep inp db stage o todo allValid).db=saveAuthz db a := by
  fun_cases newOrderStep inp db stage o todo allValid with
  | case6 ident a => exact Or.inr ⟨_,rfl,by simp,rfl⟩
  | case7 ident => exact Or.inr ⟨_,rfl,by simp,rfl⟩
  | _ => exact Or.inl ⟨rfl,rfl⟩

theorem verifyStep_savesAuthz (inp : Input) (db : Db) (stage : VerifyStage) (c : AcmeChallenge)
    (a : AcmeAuthz) (o : Option AcmeOrder) :
    ((Thread.verify stage c a o).savesAuthz inp=none ∧
      (verifyStep inp db stage c a o).db.authzs=db.authzs) ∨
    ∃ b,(Thread.verify stage c a o).savesAuthz inp=some b.id ∧ b.status≠-2 ∧
      (verifyStep inp db stage c a o).db=saveAuthz db b := by
  fun_cases verifyStep inp db stage c a o with
  | case11 => exact Or.inr ⟨{ a with status := 1 },rfl,by simp,rfl⟩
  | _ => exact Or.inl ⟨rfl,rfl⟩

/-- What a statement of new-order, of a challenge or of finalize does to the authorizations. -/
theorem advance_savesAuthz (inp : Input) (db : Db) (t : Thread) :
    (t.savesAuthz inp=none ∧ (advance inp db t).db.authzs=db.authzs) ∨
    ∃ a,t.savesAuthz inp=some a.id ∧ a.status≠-2 ∧ (advance inp db t).db=saveAuthz db a := by
  cases t with
  | newOrder stage o todo allValid => exact newOrderStep_savesAuthz inp db stage o todo allValid
  | verify stage c a o => exact verifyStep_savesAuthz inp db stage c a o
  | finalizeInsert o ca f =>
    obtain hstep|⟨certs,hstep⟩ := finalizeInsertStep_cases db o ca f
    · exact Or.inl ⟨rfl,by rw [advance,hstep]⟩
    · exact Or.inl ⟨rfl,by rw [advance,hstep]⟩
  | finalizeGet account id ca payload =>
    obtain hstep|⟨o,f,hstep⟩ := finalizeGetStep_cases inp db account id ca payload
    · exact Or.inl ⟨rfl,by rw [advance,hstep]⟩
    · exact Or.inl ⟨rfl,by rw [advance,hstep]⟩
  | _ => exact Or.inl ⟨rfl,rfl⟩

theorem staysDeactivated_advance_iff (inp : Input) (tb : Tables) (t : Thread) :
    StaysDeactivated tb (tb.put (advance inp tb.db t).db) ↔
      ∀ id,t.savesAuthz inp=some id → authzDeactivated tb id=false := by
  obtain ⟨hnone,hauthzs⟩|⟨a,hsome,hstatus,hdb⟩ := advance_savesAuthz inp tb.db t
  · have hstays : StaysDeactivated tb (tb.put (advance inp tb.db t).db) := .of_eq rfl hauthzs
    simp [hstays,hnone]
  · rw [hdb,staysDeactivated_saveAuthz_iff,hsome]
    simp [hstatus]

/-- The copies of this step have not outlived a deactivation: a key change saves an account that is
still active, and the verifier and the device attestation save an authorization that is not
deactivated. A new row does not get the id of a deactivated one. -/
def Undisturbed (st : System) : Event → Prop
  | .newAccount _ | .post _ _ _ => True
  | .run inp i =>
    match st.workers[i]? with
    | some (.keyChangeSave acc) => accountDeactivated st.tables acc.id=true → acc.status=1
    | some (.newAccountSave _ _ _ _) => accountDeactivated st.tables inp.newId=false
    | some (.preAuthz _ _) => authzDeactivated st.tables inp.newId=false
    | some (.acme t) => ∀ id,t.savesAuthz inp=some id → authzDeactivated st.tables id=false
    | _ => True

/-- What each handler writes with its next statement. -/
theorem advance_tables (site : Site) (inp : Input) (tb : Tables) (w : Worker) :
    match w with
    | .newAccountSave n hash kid eab => (w.advance site inp tb).tables=
        tb.saveAccount ⟨⟨inp.newId,kid,n.jwk⟩,0,if n.termsAgreed then 1 else 0,hash,n.contact,eab⟩
    | .accountSave acc => (w.advance site inp tb).tables=tb.saveAccount { acc with status := 1 }
    | .keyChangeSave acc => (w.advance site inp tb).tables=tb.saveAccount acc
    | .authzSave a =>
      (w.advance site inp tb).tables=tb.put (saveAuthz tb.db { a with status := -2 })
    | .preAuthz account ident => (w.advance site inp tb).tables=tb.put (saveAuthz tb.db
        ⟨inp.newId,baseIdent ident,0,inp.orderExpires,isWildcard ident,"",account.id⟩)
    | .acme t => (w.advance site inp tb).tables=tb.put (advance inp tb.db t).db
    | _ => (w.advance site inp tb).tables.accounts=tb.accounts ∧
        (w.advance site inp tb).tables.authzs=tb.authzs := by
  fun_cases Worker.advance site inp tb w with
  | case31 o ident tb' hclaim =>
    obtain ⟨tickets,rfl⟩ := Tables.claimDeviceTicket_eq_some hclaim
    exact ⟨rfl,rfl⟩
  | _ => first | rfl | exact ⟨rfl,rfl⟩

theorem staysDeactivated_step_iff (site : Site) (st : System) (e : Event) :
    StaysDeactivated st.tables (st.step site e).tables ↔ Undisturbed st e := by
  cases e with
  | newAccount n => exact iff_of_true (.refl _) trivial
  | post kid signedBy p => exact iff_of_true (.refl _) trivial
  | run inp i =>
    simp only [System.step,Undisturbed]
    cases st.workers[i]? with
    | none => exact iff_of_true (.refl _) trivial
    | some w =>
      have htables := advance_tables site inp st.tables w
      cases w with
      | newAccountSave n hash kid eab =>
        simp only [htables,staysDeactivated_saveAccount_iff]
        simp
      | accountSave acc =>
        simp only [htables,staysDeactivated_saveAccount_iff]
        simp
      | keyChangeSave acc => simp only [htables,staysDeactivated_saveAccount_iff]
      | authzSave a =>
        simp only [htables,staysDeactivated_saveAuthz_iff]
        simp
      | preAuthz account ident =>
        simp only [htables,staysDeactivated_saveAuthz_iff]
        simp
      | acme t => exact staysDeactivated_advance_iff inp st.tables t
      | _ => exact iff_of_true (.of_eq htables.1 htables.2) trivial

/-- Whatever the order of the statements, deactivation is final exactly when every step of the run
is undisturbed. -/
theorem deactivation_final_iff (site : Site) (st : System) (es : List Event) :
    (∀ n m,n ≤ m → StaysDeactivated (run (System.step site) st (es.take n)).tables
      (run (System.step site) st (es.take m)).tables) ↔
    Along (System.step site) Undisturbed st es := by
  let R (s t : System) : Prop := StaysDeactivated s.tables t.tables
  have refl : ∀ s,R s s := fun s => .refl s.tables
  have trans : ∀ s t u,R s t → R t u → R s u := fun _ _ _ h h' => StaysDeactivated.trans h h'
  exact (forall_le_iff_along refl trans es).trans (along_congr (staysDeactivated_step_iff site) es)

/-- An account with one order, whose authorization has a challenge that is pending. -/
def pendingOrder : System :=
  ⟨⟨[aliceRow],[⟨"7",0,5000,[⟨"dns",octets "a.de",""⟩],"","1","ca1"⟩],
    [⟨"21",⟨"dns",octets "a.de",""⟩,0,5000,false,"7","1"⟩],[⟨"31","http-01",0,"t","",0,"21"⟩],[],[],[]⟩,[]⟩

def rollOver : InnerJws := ⟨"acme/key-change","k2","k2","acme/account/1",some "k1"⟩

/-- The account is deactivated between the read and the save of a key change, which saves it as
active again and under the new key. -/
def rollOverRace : List Event :=
  [.post "1" "k1" (.keyChange (some rollOver)),.post "1" "k1" (.account "1" true),.run (draw "") 0,
    .run (draw "") 0,.run (draw "") 1,.run (draw "") 1,.run (draw "") 1,.run (draw "") 0]

/-- The authorization is deactivated first; its pending challenge is answered all the same. -/
def answerAfterDeactivation : List Event :=
  [.post "1" "k1" (.authz "21" true),.run (draw "") 0,.run (draw "") 0,.run (draw "") 0,
    .post "1" "k1" (.chall "31" ""),.run (draw "") 1,.run (draw "") 1,.run (draw "") 1,
    .run (draw "") 1,.run (draw "") 1,.run (draw "") 2,.run (draw "") 2,.run (draw "") 2,
    .run (draw "") 2,.run (draw "") 2,.run (draw "") 2,.run (draw "") 2,.run (draw "") 2]

theorem deactivation_undone :
    (¬∀ n m,n ≤ m →
      StaysDeactivated (run (System.step plainSite) pendingOrder (rollOverRace.take n)).tables
        (run (System.step plainSite) pendingOrder (rollOverRace.take m)).tables) ∧
    ¬∀ n m,n ≤ m → StaysDeactivated
      (run (System.step plainSite) pendingOrder (answerAfterDeactivation.take n)).tables
      (run (System.step plainSite) pendingOrder (answerAfterDeactivation.take m)).tables := by
  constructor
  · intro h
    have hafter := (h 7 8 (by omega)).account "1" (by decide)
    exact absurd hafter (by decide)
  · intro h
    have hafter := (h 4 18 (by omega)).authz "21" (by decide)
    exact absurd hafter (by decide)

end FastPki.Acme
