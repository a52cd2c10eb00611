import FastPki.Acme.Threads

namespace FastPki.Acme

open FastPki.X509 FastPki.Policy

/-- The order has a valid authorization for the base name of this identifier. -/
def AuthorizedBy (db : Db) (orderId : String) (ident : Identifier) : Prop :=
  ∃ a∈db.authzs,a.orderId=orderId ∧ a.identifier=baseIdent ident ∧ a.status=1

def Authorized (db : Db) (o : AcmeOrder) : Prop := ∀ ident∈o.identifiers,AuthorizedBy db o.id ident

/-- Every ready order is authorized for all its identifiers. -/
def ReadySound (db : Db) : Prop := ∀ o∈db.orders,o.status=1 → Authorized db o

/-- The copies of authorization rows that a verifier holds and will write back. -/
def copies : Thread → List AcmeAuthz
  | .verifyOrder _ a => [a]
  | .verify _ _ a _ => [a]
  | _ => []

def Held (st : State) (a : AcmeAuthz) : Prop := a∈st.db.authzs ∨ ∃ t∈st.threads,a∈copies t

/-- What never changes about an authorization: its order and its identifier, which is no
wildcard. -/
def Signed (sig : String → String × Identifier) (a : AcmeAuthz) : Prop :=
  (a.orderId,a.identifier)=sig a.id ∧ isWildcard a.identifier=false

def ValidNames (idents : List Identifier) : Prop := ∀ ident∈idents,dnsNameOk ident.value=true

/-- What new-order has done so far; with no authorization left to validate, each identifier is
either authorized already or still to come. -/
def StageSound (db : Db) (o : AcmeOrder) (todo : List Identifier) (allValid : Bool) :
    NewOrderStage → Prop
  | .next => allValid=true → ∀ i∈o.identifiers,i∈todo ∨ AuthorizedBy db o.id i
  | .reuse ident a => a.identifier=ident ∧ isWildcard ident=false ∧
      (allValid=true → ∀ i∈o.identifiers,i=ident ∨ i∈todo ∨ AuthorizedBy db o.id i)
  | .make ident => dnsNameOk ident.value=true ∧ allValid=false
  | .challenges _ _ => allValid=false

def ThreadSound (db : Db) : Thread → Prop
  | .newOrderSave _ _ idents => ValidNames idents
  | .newOrder stage o todo allValid => ValidNames todo ∧ StageSound db o todo allValid stage
  | .verify .order _ _ (some o) => Authorized db o
  | _ => True

structure Sound (st : State) : Prop where
  ready : ReadySound st.db
  signed : ∃ sig,∀ a,Held st a → Signed sig a
  threads : ∀ t∈st.threads,ThreadSound st.db t

/-- No authorization gets lost. -/
def Grows (db db' : Db) : Prop := ∀ orderId ident,AuthorizedBy db orderId ident →
  AuthorizedBy db' orderId ident

theorem grows_of_authzs {db db' : Db} (h : db'.authzs=db.authzs) : Grows db db' := by
  intro orderId ident hauth
  obtain ⟨a,ha,hrest⟩ := hauth
  exact ⟨a,h ▸ ha,hrest⟩

theorem Authorized.grows {db db' : Db} {o : AcmeOrder} (h : Authorized db o)
    (hg : Grows db db') : Authorized db' o := fun ident hi => hg _ _ (h ident hi)

/-- A saved row either replaces one of the same order and identifier and is valid, or is new. -/
theorem grows_saveAuthz {db : Db} {sig : String → String × Identifier} {r : AcmeAuthz}
    (hsig : ∀ a∈db.authzs,Signed sig a)
    (hr : (r.status=1 ∧ Signed sig r) ∨ ∀ a∈db.authzs,a.id≠r.id) : Grows db (saveAuthz db r) := by
  intro orderId ident hauth
  obtain ⟨a,ha,horder,hident,hstatus⟩ := hauth
  by_cases hid : a.id=r.id
  · obtain ⟨hr1,hrs⟩|hnew := hr
    · have hsame : (a.orderId,a.identifier)=(r.orderId,r.identifier) := by
        rw [(hsig a ha).1,hrs.1,hid]
      obtain ⟨ho,hi⟩ := Prod.mk.inj hsame
      exact ⟨r,mem_upsert.mpr (Or.inl rfl),ho ▸ horder,hi ▸ hident,hr1⟩
    · exact absurd hid (hnew a ha)
  · exact ⟨a,mem_upsert.mpr (Or.inr ⟨ha,hid⟩),horder,hident,hstatus⟩

theorem StageSound.grows {db db' : Db} {o : AcmeOrder} {todo : List Identifier} {allValid : Bool}
    {stage : NewOrderStage} (h : StageSound db o todo allValid stage) (hg : Grows db db') :
    StageSound db' o todo allValid stage := by
  cases stage with
  | next =>
    intro hv i hi
    obtain ht|ha := h hv i hi
    · exact Or.inl ht
    · exact Or.inr (hg _ _ ha)
  | reuse ident a =>
    refine ⟨h.1,h.2.1,fun hv i hi => ?_⟩
    obtain he|ht|ha := h.2.2 hv i hi
    · exact Or.inl he
    · exact Or.inr (Or.inl ht)
    · exact Or.inr (Or.inr (hg _ _ ha))
  | make ident => exact h
  | challenges authzId types => exact h

theorem ThreadSound.grows {db db' : Db} {t : Thread} (h : ThreadSound db t) (hg : Grows db db') :
    ThreadSound db' t := by
  cases t with
  | newOrder stage o todo allValid => exact ⟨h.1,h.2.grows hg⟩
  | verify stage c a o =>
    cases stage with
    | order =>
      cases o with
      | none => trivial
      | some o => exact Authorized.grows h hg
    | _ => trivial
  | newOrderSave account ca idents => exact h
  | _ => trivial

theorem mem_threads_set {threads spawned : List Thread} {i : Nat} {x t : Thread}
    (h : t∈threads.set i x++spawned) : t∈threads ∨ t=x ∨ t∈spawned := by
  obtain h|h := List.mem_append.mp h
  · obtain h|h := List.mem_or_eq_of_mem_set h
    · exact Or.inl h
    · exact Or.inr (Or.inl h)
  · exact Or.inr (Or.inr h)

/-- What one statement has to establish for the invariant to survive it. -/
structure Keeps (st : State) (e : Effect) (sig : String → String × Identifier) : Prop where
  grows : Grows st.db e.db
  orders : ∀ o∈e.db.orders,o.status=1 → o∈st.db.orders ∨ Authorized e.db o
  held : ∀ a,Held st a → Signed sig a
  authzs : ∀ a∈e.db.authzs,a∈st.db.authzs ∨ Signed sig a
  copies : ∀ a∈copies e.thread,Held st a ∨ Signed sig a
  thread : ThreadSound e.db e.thread
  spawned : ∀ t∈e.spawned,Acme.copies t=[] ∧ ThreadSound e.db t

theorem Sound.keeps {st : State} {e : Effect} {sig : String → String × Identifier}
    (h : Sound st) (k : Keeps st e sig) (i : Nat) (issued : List (String × String)) :
    Sound ⟨e.db,st.threads.set i e.thread++e.spawned,issued⟩ := by
  constructor
  · intro o ho hst
    obtain hold|hnew := k.orders o ho hst
    · exact (h.ready o hold hst).grows k.grows
    · exact hnew
  · refine ⟨sig,fun a ha => ?_⟩
    obtain ha|⟨t,ht,ha⟩ := ha
    · obtain hold|hnew := k.authzs a ha
      · exact k.held a (Or.inl hold)
      · exact hnew
    · obtain ht|rfl|ht := mem_threads_set ht
      · exact k.held a (Or.inr ⟨t,ht,ha⟩)
      · obtain hold|hnew := k.copies a ha
        · exact k.held a hold
        · exact hnew
      · rw [(k.spawned t ht).1] at ha
        cases ha
  · intro t ht
    obtain ht|rfl|ht := mem_threads_set ht
    · exact (h.threads t ht).grows k.grows
    · exact k.thread
    · exact (k.spawned t ht).2

/-- A statement that leaves the authorizations alone and starts no thread with copies. -/
theorem Sound.quiet {st : State} {e : Effect} (h : Sound st) (i : Nat)
    (issued : List (String × String)) (hauthzs : e.db.authzs=st.db.authzs)
    (horders : ∀ o∈e.db.orders,o.status=1 → o∈st.db.orders ∨ Authorized e.db o)
    (hcopies : ∀ a∈copies e.thread,Held st a) (hthread : ThreadSound e.db e.thread)
    (hspawned : ∀ t∈e.spawned,copies t=[] ∧ ThreadSound e.db t) :
    Sound ⟨e.db,st.threads.set i e.thread++e.spawned,issued⟩ := by
  obtain ⟨sig,hsig⟩ := h.signed
  refine h.keeps ⟨grows_of_authzs hauthzs,horders,hsig,fun a ha => Or.inl (hauthzs ▸ ha),
    fun a ha => Or.inl (hcopies a ha),hthread,hspawned⟩ i issued

/-- A statement that only reads, or writes challenges or certificates. -/
theorem Sound.read {st : State} {e : Effect} (h : Sound st) (i : Nat)
    (issued : List (String × String)) (hauthzs : e.db.authzs=st.db.authzs)
    (horders : e.db.orders=st.db.orders) (hcopies : ∀ a∈copies e.thread,Held st a)
    (hthread : ThreadSound e.db e.thread) (hspawned : e.spawned=[]) :
    Sound ⟨e.db,st.threads.set i e.thread++e.spawned,issued⟩ := by
  refine h.quiet i issued hauthzs (fun o ho _ => Or.inl (horders ▸ ho)) hcopies hthread ?_
  intro t ht
  rw [hspawned] at ht
  cases ht

theorem light_sound {t : Thread} (h : t.light=true) (db : Db) :
    copies t=[] ∧ ThreadSound db t := by
  cases t with
  | newOrderSave account ca idents => cases h
  | newOrder stage o todo allValid => cases h
  | verifyOrder c a => cases h
  | verify stage c a o => cases h
  | _ => exact ⟨rfl,trivial⟩

/-- A statement after which the thread holds nothing that it would write back. -/
theorem Sound.light {st : State} (h : Sound st) (i : Nat) (issued : List (String × String))
    {t : Thread} (ht : t.light=true) : Sound ⟨st.db,st.threads.set i t++[],issued⟩ := by
  obtain ⟨hcopies,hthread⟩ := light_sound ht st.db
  exact Sound.read (e := ⟨st.db,t,[]⟩) h i issued rfl rfl (by simp [hcopies]) hthread rfl

/-- The verifier looks at an order's authorizations when each identifier has one already, and a
new authorization gets an id that no other has. -/
def Settled (st : State) : Action → Prop
  | .request _ _ _ => True
  | .run inp i =>
    match st.threads[i]? with
    | some (.verify .others _ _ (some o)) =>
      ∀ ident∈o.identifiers,∃ a∈st.db.authzs,a.orderId=o.id ∧ a.identifier=baseIdent ident
    | some (.newOrder (.reuse _ _) _ _ _) => ∀ a,Held st a → a.id≠inp.newId
    | some (.newOrder (.make _) _ _ _) => ∀ a,Held st a → a.id≠inp.newId
    | _ => True

theorem isWildcard_baseIdent {ident : Identifier} (h : dnsNameOk ident.value=true) :
    isWildcard (baseIdent ident)=false := by
  simp only [baseIdent]
  split
  · next hw =>
    obtain ⟨rest,hrest⟩ := List.isPrefixOf_iff_prefix.mp hw
    simp only [dnsNameOk] at h
    rw [← hrest] at h
    split_ifs at h with hlen hpre
    · -- the labels behind the star hold no star of their own
      by_contra hbad
      have hw2 : [asterisk,dot].isPrefixOf rest=true := by
        have : ident.value.drop 2=rest := by rw [← hrest]; rfl
        simpa [isWildcard,this] using hbad
      obtain ⟨rest2,hrest2⟩ := List.isPrefixOf_iff_prefix.mp hw2
      have hlabels : labelsOk rest 0 dot=true := h
      rw [← hrest2] at hlabels
      change labelsOk (asterisk::dot::rest2) 0 dot=true at hlabels
      rw [labelsOk,if_neg (by decide),if_pos (by decide)] at hlabels
      cases hlabels
    · exact absurd (List.isPrefixOf_iff_prefix.mpr ⟨rest,rfl⟩) hpre
  · next hw => simpa using hw

theorem mem_orders_saveOrder {db : Db} {o r : AcmeOrder} (h : o∈(saveOrder db r).orders) :
    o=r ∨ o∈db.orders := by
  obtain h|h := mem_upsert.mp h
  · exact Or.inl h
  · exact Or.inr h.1

theorem mem_authzs_saveAuthz {db : Db} {a r : AcmeAuthz} (h : a∈(saveAuthz db r).authzs) :
    a=r ∨ a∈db.authzs := by
  obtain h|h := mem_upsert.mp h
  · exact Or.inl h
  · exact Or.inr h.1

/-- An order is saved: one that is not ready, or whose names are all authorized. -/
theorem Sound.saveOrder {st : State} (h : Sound st) (i : Nat) (issued : List (String × String))
    {r : AcmeOrder} {t : Thread} (hr : r.status=1 → Authorized st.db r) (hcopies : copies t=[])
    (hthread : ThreadSound (saveOrder st.db r) t) :
    Sound ⟨saveOrder st.db r,st.threads.set i t++[],issued⟩ := by
  refine Sound.quiet (e := ⟨Acme.saveOrder st.db r,t,[]⟩) h i issued rfl ?_ (by simp [hcopies])
    hthread (by simp)
  intro o ho hst
  obtain rfl|ho := mem_orders_saveOrder ho
  · exact Or.inr (hr hst)
  · exact Or.inl ho

/-- A new authorization, under an id of its own. -/
theorem Sound.saveNew {st : State} (h : Sound st) (i : Nat) (issued : List (String × String))
    {r : AcmeAuthz} {t : Thread} (hfresh : ∀ a,Held st a → a.id≠r.id)
    (hwild : isWildcard r.identifier=false) (hcopies : copies t=[])
    (hthread : Grows st.db (saveAuthz st.db r) → ThreadSound (saveAuthz st.db r) t) :
    Sound ⟨saveAuthz st.db r,st.threads.set i t++[],issued⟩ := by
  obtain ⟨sig,hsig⟩ := h.signed
  have hgrow : Grows st.db (saveAuthz st.db r) :=
    grows_saveAuthz (fun a ha => hsig a (Or.inl ha)) (Or.inr fun a ha => hfresh a (Or.inl ha))
  suffices hk : Keeps st ⟨saveAuthz st.db r,t,[]⟩
      (Function.update sig r.id (r.orderId,r.identifier)) from h.keeps hk i issued
  refine ⟨hgrow,?_,?_,?_,?_,?_,?_⟩
  · intro o ho _
    exact Or.inl ho
  · intro a ha
    have hne := hfresh a ha
    obtain ⟨hs,hw⟩ := hsig a ha
    exact ⟨by rw [Function.update_of_ne hne]; exact hs,hw⟩
  · intro a ha
    obtain rfl|ha := mem_authzs_saveAuthz ha
    · exact Or.inr ⟨by rw [Function.update_self],hwild⟩
    · exact Or.inl ha
  · intro a ha
    change a∈copies t at ha
    rw [hcopies] at ha
    cases ha
  · exact hthread hgrow
  · intro t ht
    cases ht

/-- A held copy written back as valid. -/
theorem Sound.saveBack {st : State} (h : Sound st) (i : Nat) (issued : List (String × String))
    {a : AcmeAuthz} {t : Thread} (ha : Held st a)
    (hcopies : ∀ b∈copies t,b={ a with status := 1 })
    (hthread : ThreadSound (saveAuthz st.db { a with status := 1 }) t) :
    Sound ⟨saveAuthz st.db { a with status := 1 },st.threads.set i t++[],issued⟩ := by
  obtain ⟨sig,hsig⟩ := h.signed
  have hr : Signed sig { a with status := 1 } := hsig a ha
  refine Sound.keeps h (e := ⟨saveAuthz st.db { a with status := 1 },t,[]⟩)
    ⟨grows_saveAuthz (fun a ha => hsig a (Or.inl ha)) (Or.inl ⟨rfl,hr⟩),?_,hsig,?_,?_,hthread,?_⟩
    i issued
  · intro o ho _
    exact Or.inl ho
  · intro b hb
    obtain rfl|hb := mem_authzs_saveAuthz hb
    · exact Or.inr hr
    · exact Or.inl hb
  · intro b hb
    rw [hcopies b hb]
    exact Or.inr hr
  · intro t ht
    cases ht

theorem findValidAuthz_some {db : Db} {pick : Nat} {accountId : String} {ident : Identifier}
    {now : Int} {a : AcmeAuthz} (h : findValidAuthz db pick accountId ident now=some a) :
    a∈db.authzs ∧ a.identifier=ident := by
  have hmem := List.mem_of_getElem? h
  rw [List.mem_filter] at hmem
  obtain ⟨ha,hp⟩ := hmem
  simp only [decide_eq_true_eq] at hp
  exact ⟨ha,hp.2.1⟩

/-- The loop takes up its next name: a valid authorization is reused, or a new one is made; behind
the last name the order is saved. -/
theorem Sound.nextName {st : State} (h : Sound st) (inp : Input) (i : Nat)
    (issued : List (String × String)) {o : AcmeOrder} {todo : List Identifier} {allValid : Bool}
    (ht : ThreadSound st.db (.newOrder .next o todo allValid)) :
    let e := newOrderStep inp st.db .next o todo allValid
    Sound ⟨e.db,st.threads.set i e.thread++e.spawned,issued⟩ := by
  obtain ⟨hnames,hstage⟩ := ht
  cases todo with
  | nil =>
    simp only [newOrderStep]
    split
    · next hall =>
      have hauth : Authorized st.db o := by
        intro ident hi
        obtain hn|ha := hstage hall ident hi
        · cases hn
        · exact ha
      exact h.saveOrder i issued (fun _ => hauth) rfl trivial
    · exact h.light i issued rfl
  | cons ident todo =>
    have hident : dnsNameOk ident.value=true := hnames ident List.mem_cons_self
    have hrest : ValidNames todo := fun j hj => hnames j (List.mem_cons_of_mem _ hj)
    have hmake : Sound ⟨st.db,st.threads.set i (.newOrder (.make ident) o todo false)++[],
        issued⟩ :=
      Sound.read (e := ⟨st.db,.newOrder (.make ident) o todo false,[]⟩) h i issued rfl rfl
        (by simp [copies]) ⟨hrest,hident,rfl⟩ rfl
    simp only [newOrderStep]
    split
    · cases hfind : findValidAuthz st.db inp.pick o.accountId ident inp.now with
      | none => exact hmake
      | some a =>
        obtain ⟨ha,hai⟩ := findValidAuthz_some hfind
        obtain ⟨sig,hsig⟩ := h.signed
        have hwild := (hsig a (Or.inl ha)).2
        refine Sound.read (e := ⟨st.db,.newOrder (.reuse ident a) o todo allValid,[]⟩) h i issued
          rfl rfl (by simp [copies]) ⟨hrest,hai,hai ▸ hwild,fun hv j hj => ?_⟩ rfl
        obtain hj|hj := hstage hv j hj
        · obtain rfl|hj := List.mem_cons.mp hj
          · exact Or.inl rfl
          · exact Or.inr (Or.inl hj)
        · exact Or.inr (Or.inr hj)
    · exact hmake

theorem Sound.newOrder {st : State} (h : Sound st) (inp : Input) (i : Nat)
    (issued : List (String × String)) {stage : NewOrderStage} {o : AcmeOrder}
    {todo : List Identifier} {allValid : Bool}
    (ht : ThreadSound st.db (.newOrder stage o todo allValid))
    (hfresh : (∃ ident,stage=.make ident) ∨ (∃ ident a,stage=.reuse ident a) →
      ∀ b,Held st b → b.id≠inp.newId) :
    let e := newOrderStep inp st.db stage o todo allValid
    Sound ⟨e.db,st.threads.set i e.thread++e.spawned,issued⟩ := by
  obtain ⟨hnames,hstage⟩ := ht
  cases stage with
  | next => exact h.nextName inp i issued ⟨hnames,hstage⟩
  | reuse ident a =>
    obtain ⟨hai,hwild,hleft⟩ := hstage
    refine h.saveNew i issued (hfresh (Or.inr ⟨ident,a,rfl⟩)) ?_ rfl fun hg => ⟨hnames,fun hv j hj => ?_⟩
    · rw [← hai] at hwild
      exact hwild
    · obtain rfl|hj|hj := hleft hv j hj
      · refine Or.inr ⟨_,mem_upsert.mpr (Or.inl rfl),rfl,?_,rfl⟩
        rw [baseIdent,if_neg (by simpa using hwild)]
        exact hai
      · exact Or.inl hj
      · exact Or.inr (hg _ _ hj)
  | make ident =>
    obtain ⟨hident,hfalse⟩ := hstage
    exact h.saveNew i issued (hfresh (Or.inl ⟨ident,rfl⟩)) (isWildcard_baseIdent hident)
      rfl fun _ => ⟨hnames,hfalse⟩
  | challenges authzId types =>
    cases types with
    | nil =>
      refine Sound.read (e := ⟨st.db,.newOrder .next o todo allValid,[]⟩) h i issued rfl rfl
        (by simp [copies]) ⟨hnames,fun hv => ?_⟩ rfl
      rw [show allValid=false from hstage] at hv
      cases hv
    | cons type types =>
      exact Sound.read (e := newOrderStep inp st.db (.challenges authzId (type::types)) o todo
        allValid) h i issued rfl rfl (by simp [newOrderStep,copies]) ⟨hnames,hstage⟩ rfl

theorem Sound.verify {st : State} (h : Sound st) (inp : Input) (i : Nat)
    (issued : List (String × String)) {stage : VerifyStage} {c : AcmeChallenge} {a : AcmeAuthz}
    {o : Option AcmeOrder} (ha : Held st a) (ht : ThreadSound st.db (.verify stage c a o))
    (hsettled : ∀ order,stage=.others → o=some order → ∀ ident∈order.identifiers,
      ∃ b∈st.db.authzs,b.orderId=order.id ∧ b.identifier=baseIdent ident) :
    let e := verifyStep inp st.db stage c a o
    Sound ⟨e.db,st.threads.set i e.thread++e.spawned,issued⟩ := by
  have hcopy : ∀ b∈[a],Held st b := by
    intro b hb
    rw [List.mem_singleton.mp hb]
    exact ha
  have hdone : Sound ⟨st.db,st.threads.set i .done++[],issued⟩ := h.light i issued rfl
  cases stage with
  | account =>
    have hnext : ∀ next : VerifyStage,next≠.order →
        Sound ⟨st.db,st.threads.set i (.verify next c a o)++[],issued⟩ := by
      intro next hne
      refine Sound.read (e := ⟨st.db,.verify next c a o,[]⟩) h i issued rfl rfl hcopy ?_ rfl
      cases next with
      | order => exact absurd rfl hne
      | _ => trivial
    simp only [verifyStep]
    split
    · exact hdone
    · split
      · exact hnext _ (by simp)
      · split
        · split
          · exact hnext _ (by simp)
          · exact hnext _ (by simp)
        · exact hnext _ (by simp)
  | invalid why =>
    exact Sound.read (e := verifyStep inp st.db (.invalid why) c a o) h i issued rfl rfl
      (by simp [verifyStep,copies]) trivial rfl
  | valid =>
    exact Sound.read (e := verifyStep inp st.db .valid c a o) h i issued rfl rfl hcopy trivial rfl
  | siblings =>
    exact Sound.read (e := verifyStep inp st.db .siblings c a o) h i issued rfl rfl hcopy trivial
      rfl
  | delete ids =>
    cases ids with
    | nil =>
      exact Sound.read (e := verifyStep inp st.db (.delete []) c a o) h i issued rfl rfl hcopy
        trivial rfl
    | cons id ids =>
      exact Sound.read (e := verifyStep inp st.db (.delete (id::ids)) c a o) h i issued rfl rfl
        hcopy trivial rfl
  | authz =>
    cases o with
    | none => exact h.saveBack i issued ha (by simp [verifyStep,copies]) trivial
    | some order => exact h.saveBack i issued ha (by simp [verifyStep,copies]) trivial
  | others =>
    cases o with
    | none => exact hdone
    | some order =>
      simp only [verifyStep]
      split
      · next hall =>
        refine Sound.read (e := ⟨st.db,.verify .order c a (some order),[]⟩) h i issued rfl rfl hcopy
          (fun ident hi => ?_) rfl
        obtain ⟨b,hb,hbo,hbi⟩ := hsettled order rfl rfl ident hi
        have hvalid := List.all_eq_true.mp hall b (List.mem_filter.mpr ⟨hb,by simpa using hbo⟩)
        exact ⟨b,hb,hbo,hbi,by simpa using hvalid⟩
      · exact hdone
  | order =>
    cases o with
    | none => exact hdone
    | some order => exact h.saveOrder i issued (fun _ => ht) rfl trivial

theorem checkNewOrder_names {s : Server} {certs : List Certs.StoredCert} {account : AcmeAccount}
    {ca : String} {idents : List Identifier} {u : Unit}
    (h : checkNewOrder s certs account ca idents=.ok u) : ValidNames idents := by
  simp only [checkNewOrder,bind_eq_ok_iff] at h
  obtain ⟨_,_,_,_,_,_,_,_,_,hnames,_⟩ := h
  intro ident hi
  have hone := forM_eq_ok_iff.mp hnames ident hi
  rw [bind_eq_ok_iff] at hone
  obtain ⟨_,_,hok⟩ := hone
  simpa using refuseIf_eq_ok_iff.mp hok

theorem Sound.request {st : State} (h : Sound st) (inp : Input) (account : AcmeAccount)
    (r : Request) : Sound (step st (.request inp account r)) := by
  have hnew : copies (accept inp st.db account r)=[] ∧
      ThreadSound st.db (accept inp st.db account r) := by
    cases r with
    | newOrder ca idents =>
      simp only [accept]
      split
      · exact ⟨rfl,trivial⟩
      · split
        · next hok => exact ⟨rfl,checkNewOrder_names hok⟩
        · exact ⟨rfl,trivial⟩
    | _ => exact ⟨rfl,trivial⟩
  obtain ⟨sig,hsig⟩ := h.signed
  refine ⟨h.ready,⟨sig,fun a ha => ?_⟩,fun t ht => ?_⟩
  · obtain ha|⟨t,ht,ha⟩ := ha
    · exact hsig a (Or.inl ha)
    · obtain ht|ht := List.mem_append.mp ht
      · exact hsig a (Or.inr ⟨t,ht,ha⟩)
      · rw [List.mem_singleton.mp ht,hnew.1] at ha
        cases ha
  · obtain ht|ht := List.mem_append.mp ht
    · exact h.threads t ht
    · rw [List.mem_singleton.mp ht]
      exact hnew.2

theorem held_of_getAuthz {st : State} {id : String} {a : AcmeAuthz} (h : getAuthz st.db id=some a) :
    Held st a := Or.inl (lookup_mem h)

theorem Sound.run {st : State} (h : Sound st) (inp : Input) (i : Nat)
    (hsettled : Settled st (.run inp i)) : Sound (step st (.run inp i)) := by
  simp only [step]
  cases ht : st.threads[i]? with
  | none => exact h
  | some t =>
    have hmem : t∈st.threads := List.mem_of_getElem? ht
    have hts : ThreadSound st.db t := h.threads t hmem
    have hcopy : ∀ a∈copies t,Held st a := fun a ha => Or.inr ⟨t,hmem,ha⟩
    simp only [Settled,ht] at hsettled
    by_cases hr : t.reads=true
    · obtain ⟨later,hlight,hstep⟩ := advance_of_reads inp st.db hr
      simp only [hstep]
      exact h.light i _ hlight
    cases t with
    | newOrderSave account ca idents =>
      refine h.saveOrder i _ (fun hst => ?_) rfl ⟨hts,fun _ j hj => Or.inl hj⟩
      cases hst
    | newOrder stage o todo allValid =>
      refine h.newOrder inp i _ hts fun hstage => ?_
      obtain ⟨ident,rfl⟩|⟨ident,a,rfl⟩ := hstage
      · exact hsettled
      · exact hsettled
    | challSave c =>
      refine Sound.quiet (e := advance inp st.db (.challSave c)) h i _ rfl
        (fun o ho _ => Or.inl ho) (by simp [advance,copies]) trivial ?_
      intro x hx
      rw [List.mem_singleton.mp hx]
      exact ⟨rfl,trivial⟩
    | verifyAuthz c =>
      simp only [advance]
      cases ha : getAuthz st.db c.authzId with
      | none => exact h.light i _ rfl
      | some a =>
        refine Sound.read (e := ⟨st.db,.verifyOrder c a,[]⟩) h i _ rfl rfl ?_ trivial rfl
        intro b hb
        rw [List.mem_singleton.mp hb]
        exact held_of_getAuthz ha
    | verifyOrder c a =>
      exact Sound.read (e := advance inp st.db (.verifyOrder c a)) h i _ rfl rfl hcopy trivial rfl
    | verify stage c a o =>
      refine h.verify inp i _ (hcopy a List.mem_cons_self) hts fun order hstage ho => ?_
      subst hstage ho
      exact hsettled
    | finalizeInsert o ca f =>
      obtain hstep|⟨certs,hstep⟩ := finalizeInsertStep_cases st.db o ca f
      · simp only [advance,hstep]
        exact h.light i _ rfl
      · simp only [advance,hstep]
        exact Sound.read (e := ⟨{ st.db with certs := certs },.finalizeSave o f.cert.serial,[]⟩) h i
          _ rfl rfl (by simp [copies]) trivial rfl
    | finalizeSave o serial =>
      refine h.saveOrder i _ (fun hst => ?_) rfl trivial
      exact absurd (show (3 : Int)=1 from hst) (by decide)
    | _ => exact absurd rfl hr

theorem Sound.step {st : State} (h : Sound st) (a : Action) (hsettled : Settled st a) :
    Sound (step st a) := by
  cases a with
  | request inp account r => exact h.request inp account r
  | run inp i => exact h.run inp i hsettled

/-- No request is in flight, ready orders are authorized, and the authorizations are told apart by
their ids. -/
structure Quiet (st : State) : Prop where
  threads : st.threads=[]
  ready : ReadySound st.db
  ids : ∀ a∈st.db.authzs,∀ b∈st.db.authzs,a.id=b.id → a.orderId=b.orderId ∧ a.identifier=b.identifier
  base : ∀ a∈st.db.authzs,isWildcard a.identifier=false

theorem Quiet.sound {st : State} (h : Quiet st) : Sound st := by
  refine ⟨h.ready,⟨fun id => ((getAuthz st.db id).map fun a => (a.orderId,a.identifier)).getD
    ("",⟨"",[],""⟩),fun a ha => ?_⟩,fun t ht => ?_⟩
  · obtain ha|⟨t,ht,_⟩ := ha
    · refine ⟨?_,h.base a ha⟩
      cases hb : getAuthz st.db a.id with
      | none =>
        have hnone : ∀ x∈st.db.authzs,x.id≠a.id := by simpa [getAuthz,lookup] using hb
        exact absurd rfl (hnone a ha)
      | some b =>
        obtain ⟨ho,hi⟩ := h.ids a ha b (lookup_mem hb) (lookup_key hb).symm
        rw [ho,hi]
        dsimp only
        rw [hb]
        rfl
    · rw [h.threads] at ht
      cases ht
  · rw [h.threads] at ht
    cases ht

def aliceOnly : State := ⟨⟨[alice],[],[],[],[]⟩,[],[]⟩

theorem aliceOnly_quiet : Quiet aliceOnly := by
  refine ⟨rfl,?_,?_,?_⟩
  · intro o ho
    cases ho
  · intro a ha
    cases ha
  · intro a ha
    cases ha

def dnsIdent (name : String) : Identifier := ⟨"dns",octets name,""⟩

/-- new-order up to the first challenge of the first identifier. -/
def orderUpTo (idents : List Identifier) : List Action :=
  [.request (draw "") alice (.newOrder "ca1" idents),.run (draw "7") 0,.run (draw "") 0,
    .run (draw "21") 0,.run (draw "31") 0]

/-- The challenge is answered: the request in its own thread, then the verifier in the next. -/
def challengeAnswered : List Action :=
  [.request (draw "") alice (.challPost "31"),.run (draw "") 1,.run (draw "") 1,.run (draw "") 1,
    .run (draw "") 1,.run (draw "") 2,.run (draw "") 2,.run (draw "") 2,.run (draw "") 2,
    .run (draw "") 2,.run (draw "") 2,.run (draw "") 2,.run (draw "") 2,.run (draw "") 2,
    .run (draw "") 2]

end FastPki.Acme
