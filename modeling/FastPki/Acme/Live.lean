import FastPki.Acme.Ready
import FastPki.Acme.Routes

namespace FastPki.Acme

open FastPki.X509 FastPki.Policy FastPki.Certs

/-- The authorizations of a deleted order are deleted with it, and so are their challenges. -/
def deleteExpiredOrders (tb : Tables) (now : Int) : Tables :=
  let gone := (tb.orders.filter (·.expires < now)).map (·.id)
  let orphaned (a : AcmeAuthz) : Bool := a.orderId ≠ "" ∧ a.orderId ∈ gone
  { tb with
    orders := tb.orders.filter (¬·.expires < now)
    authzs := tb.authzs.filter (!orphaned ·)
    challenges := tb.challenges.filter fun c =>
      c.authzId ∉ (tb.authzs.filter orphaned).map (·.id) }

/-- One handler at a time. A verifier that was started waits until its turn comes. -/
structure Desk where
  tables : Tables
  current : Worker
  waiting : List Worker

/-- A handler, a verifier or the sweeper begins, or the current one makes its next statement. -/
inductive Turn where
  | newAccount (n : NewAccount)
  | post (kid signedBy : String) (p : Post)
  | verifier (i : Nat)
  | sweep (now : Int)
  | run (inp : Input)

def Worker.idle : Worker → Bool
  | .acme .done => true
  | _ => false

def Desk.begin (d : Desk) (w : Worker) : Desk := if d.current.idle then { d with current := w } else d

def Desk.step (site : Site) (d : Desk) : Turn → Desk
  | .newAccount n => d.begin (acceptNew site n)
  | .post kid signedBy p => d.begin (.parse kid signedBy p)
  | .verifier i =>
    match d.waiting[i]? with
    | none => d
    | some w => if d.current.idle then ⟨d.tables,w,d.waiting.eraseIdx i⟩ else d
  | .sweep now =>
    if d.current.idle then { d with tables := deleteExpiredOrders d.tables now } else d
  | .run inp =>
    let e := d.current.advance site inp d.tables
    ⟨e.tables,e.worker,d.waiting++e.spawned⟩

/-- The order that the next statement inserts a certificate for. -/
def insertsFor (d : Desk) : Option AcmeOrder :=
  match d.current with
  | .acme (.finalizeInsert o ca f) =>
    match insertUnderCap d.tables.certs (issuedRow f.cert f.owner ca) f.maxCerts with
    | .ok (some _) => some o
    | _ => none
  | _ => none

/-- Some authorization of the order for the base name of this identifier, with such a status. -/
def HasAuthz (authzs : List AcmeAuthz) (orderId : String) (ident : Identifier) (ok : Int → Prop) :
    Prop :=
  ∃ a∈authzs,a.orderId=orderId ∧ a.identifier=baseIdent ident ∧ ok a.status

/-- The order and, for each of its identifiers, an authorization of it are valid at this time. -/
def LiveAt (tb : Tables) (now : Int) (o : AcmeOrder) : Prop :=
  now≤o.expires ∧ ∀ ident∈o.identifiers,∃ a∈tb.authzs,
    a.orderId=o.id ∧ a.identifier=baseIdent ident ∧ a.status=1 ∧ now<a.expires

instance (tb : Tables) (now : Int) (o : AcmeOrder) : Decidable (LiveAt tb now o) :=
  inferInstanceAs (Decidable (_ ∧ _))

/-- A certificate for DNS names is inserted for a live order alone. -/
def IssuesLive (d : Desk) : Turn → Prop
  | .run inp => ∀ o∈insertsFor d,isDeviceOrder o.identifiers=false → LiveAt d.tables inp.now o
  | _ => True

instance (d : Desk) : (t : Turn) → Decidable (IssuesLive d t)
  | .run inp => inferInstanceAs (Decidable (∀ o∈insertsFor d,isDeviceOrder o.identifiers=false →
      LiveAt d.tables inp.now o))
  | .newAccount _ => inferInstanceAs (Decidable True)
  | .post _ _ _ => inferInstanceAs (Decidable True)
  | .verifier _ => inferInstanceAs (Decidable True)
  | .sweep _ => inferInstanceAs (Decidable True)

/-- The order of a finalize that is about to insert. -/
def finalizing : Worker → Option AcmeOrder
  | .acme (.finalizeInsert o _ _) => some o
  | _ => none

/-- The next statement saves a new authorization. -/
def savesNewAuthz : Worker → Bool
  | .acme (.newOrder (.reuse _ _) _ _ _) => true
  | .acme (.newOrder (.make _) _ _ _) => true
  | .preAuthz _ _ => true
  | _ => false

def preAuthorizes : Worker → Option Identifier
  | .preAuthz _ ident => some ident
  | _ => none

/-- When finalize inserts, the order has not expired, and no authorization of it has been deactivated
or has expired. A new authorization has an id of its own, and a pre-authorization is not for a
wildcard of a wildcard. -/
def Unaltered (d : Desk) : Turn → Prop
  | .run inp =>
    (∀ o∈finalizing d.current,isDeviceOrder o.identifiers=false → inp.now≤o.expires ∧
      ∀ a∈authzForOrder d.tables.db o.id,a.status≠-2 ∧ inp.now<a.expires) ∧
    (savesNewAuthz d.current=true → ∀ a∈d.tables.authzs,a.id≠inp.newId) ∧
    ∀ ident∈preAuthorizes d.current,isWildcard (baseIdent ident)=false
  | _ => True

instance (d : Desk) : (t : Turn) → Decidable (Unaltered d t)
  | .run _ => inferInstanceAs (Decidable (_ ∧ _ ∧ _))
  | .newAccount _ => inferInstanceAs (Decidable True)
  | .post _ _ _ => inferInstanceAs (Decidable True)
  | .verifier _ => inferInstanceAs (Decidable True)
  | .sweep _ => inferInstanceAs (Decidable True)

/-- An authorization that was valid once: since then it can only have been deactivated. -/
def Decided (status : Int) : Prop := status=1 ∨ status=-2

/-- What holds of the orders and authorizations while a handler may be building one order. -/
structure Rows (building : Option String) (orders : List AcmeOrder) (authzs : List AcmeAuthz) :
    Prop where
  ready : ∀ o∈orders,o.status=1 → ∀ ident∈o.identifiers,HasAuthz authzs o.id ident Decided
  complete : ∀ o∈orders,some o.id≠building →
    ∀ ident∈o.identifiers,HasAuthz authzs o.id ident fun _ => True
  base : ∀ a∈authzs,a.identifier.type="dns" → isWildcard a.identifier=false
  orderIds : (orders.map (·.id)).Nodup
  authzIds : (authzs.map (·.id)).Nodup

theorem HasAuthz.upsert {authzs : List AcmeAuthz} {orderId : String} {ident : Identifier}
    {ok : Int → Prop} {r : AcmeAuthz} (h : HasAuthz authzs orderId ident ok)
    (hkeep : ∀ a∈authzs,a.id=r.id → r.orderId=a.orderId ∧ r.identifier=a.identifier ∧ ok r.status) :
    HasAuthz (upsert AcmeAuthz.id r authzs) orderId ident ok := by
  obtain ⟨a,ha,horder,hident,hok⟩ := h
  by_cases hid : a.id=r.id
  · obtain ⟨hro,hri,hrs⟩ := hkeep a ha hid
    exact ⟨r,mem_upsert.mpr (Or.inl rfl),hro.trans horder,hri.trans hident,hrs⟩
  · exact ⟨a,mem_upsert.mpr (Or.inr ⟨ha,hid⟩),horder,hident,hok⟩

/-- A saved authorization is new, or takes the place of one of the same order and identifier. -/
theorem Rows.saveAuthz {b : Option String} {orders : List AcmeOrder} {authzs : List AcmeAuthz}
    (h : Rows b orders authzs) {r : AcmeAuthz}
    (hbase : r.identifier.type="dns" → isWildcard r.identifier=false)
    (hkeep : ∀ a∈authzs,a.id=r.id →
      r.orderId=a.orderId ∧ r.identifier=a.identifier ∧ Decided r.status) :
    Rows b orders (upsert AcmeAuthz.id r authzs) := by
  refine ⟨fun o ho hst ident hi => ?_,fun o ho hb ident hi => ?_,fun a ha => ?_,h.orderIds,
    nodup_upsert r h.authzIds⟩
  · exact (h.ready o ho hst ident hi).upsert hkeep
  · exact (h.complete o ho hb ident hi).upsert fun a ha hid =>
      ⟨(hkeep a ha hid).1,(hkeep a ha hid).2.1,trivial⟩
  · obtain rfl|⟨ha,_⟩ := mem_upsert.mp ha
    · exact hbase
    · exact h.base a ha

/-- A saved order is the one being built, or has its authorizations already. -/
theorem Rows.saveOrder {b b' : Option String} {orders : List AcmeOrder} {authzs : List AcmeAuthz}
    (h : Rows b orders authzs) {r : AcmeOrder} (hb : b=none ∨ b=some r.id)
    (hready : r.status=1 → ∀ ident∈r.identifiers,HasAuthz authzs r.id ident Decided)
    (hcomplete : some r.id≠b' → ∀ ident∈r.identifiers,HasAuthz authzs r.id ident fun _ => True) :
    Rows b' (upsert AcmeOrder.id r orders) authzs := by
  refine ⟨fun o ho hst => ?_,fun o ho hne => ?_,h.base,nodup_upsert r h.orderIds,h.authzIds⟩
  · obtain rfl|⟨ho,_⟩ := mem_upsert.mp ho
    · exact hready hst
    · exact h.ready o ho hst
  · obtain rfl|⟨ho,hid⟩ := mem_upsert.mp ho
    · exact hcomplete hne
    · refine h.complete o ho fun heq => ?_
      obtain rfl|rfl := hb
      · cases heq
      · exact hid (Option.some.inj heq)

/-- An identifier that new-order accepts: its base name is no wildcard. -/
def Plain (ident : Identifier) : Prop := ident.type="dns" ∧ isWildcard (baseIdent ident)=false

/-- The names behind new-order have an authorization of the order, a valid one as long as all are. -/
def Found (authzs : List AcmeAuthz) (o : AcmeOrder) (allValid : Bool) (ident : Identifier) : Prop :=
  HasAuthz authzs o.id ident fun status => allValid=true → status=1

def StageOk (authzs : List AcmeAuthz) (o : AcmeOrder) (todo : List Identifier) (allValid : Bool) :
    NewOrderStage → Prop
  | .next | .challenges _ _ => ∀ i∈o.identifiers,i∈todo ∨ Found authzs o allValid i
  | .reuse ident a => a.identifier=baseIdent ident ∧ isWildcard a.identifier=false ∧
      ∀ i∈o.identifiers,i=ident ∨ i∈todo ∨ Found authzs o allValid i
  | .make ident => (ident.type="dns" → isWildcard (baseIdent ident)=false) ∧ allValid=false ∧
      ∀ i∈o.identifiers,i=ident ∨ i∈todo ∨ Found authzs o allValid i

/-- The copies of a verifier are the stored rows; before its last statement the authorizations of
its order are all valid. -/
structure VerifyOk (orders : List AcmeOrder) (authzs : List AcmeAuthz) (stage : VerifyStage)
    (a : AcmeAuthz) (o : Option AcmeOrder) : Prop where
  authz : a∈authzs
  order : ∀ order,o=some order → order∈orders
  valid : stage=.order → ∀ order,o=some order → ∀ b∈authzs,b.orderId=order.id → b.status=1

/-- The order being built is the stored one. -/
structure BuildOk (orders : List AcmeOrder) (authzs : List AcmeAuthz) (stage : NewOrderStage)
    (o : AcmeOrder) (todo : List Identifier) (allValid : Bool) : Prop where
  pending : o.status=0
  stored : ∀ r∈orders,r.id=o.id → r=o
  plain : ∀ i∈todo,Plain i
  progress : StageOk authzs o todo allValid stage

/-- An order for one device, about to be saved. -/
structure DeviceOk (o : AcmeOrder) (ident : Identifier) : Prop where
  pending : o.status=0
  identifiers : o.identifiers=[ident]
  type : ident.type="permanent-identifier"

/-- With one handler at a time, what it has read is what is stored. -/
def WorkerOk (orders : List AcmeOrder) (authzs : List AcmeAuthz) : Worker → Prop
  | .authzSave a => a∈authzs
  | .attestOrder _ a _ => a∈authzs
  | .attestTicket _ a o _ | .attestRecord _ a o _ _ | .attestValid _ a o => a∈authzs ∧ o∈orders
  | .deviceTicket _ _ ident | .deviceSerial _ _ ident => ident.type="permanent-identifier"
  | .deviceClaim o ident | .deviceCreate o ident _ | .deviceSave o ident => DeviceOk o ident
  | .acme (.newOrderSave _ _ idents) => ∀ i∈idents,Plain i
  | .acme (.newOrder stage o todo allValid) => BuildOk orders authzs stage o todo allValid
  | .acme (.verifyOrder _ a) => a∈authzs
  | .acme (.verify stage _ a o) => VerifyOk orders authzs stage a o
  | .acme (.finalizeInsert o _ _) => o∈orders ∧ o.status=1
  | .acme (.finalizeSave o _) => o∈orders
  | _ => True

def building : Worker → Option String
  | .acme (.newOrder _ o _ _) => some o.id
  | _ => none

structure Kept (orders : List AcmeOrder) (authzs : List AcmeAuthz) (w : Worker) : Prop where
  rows : Rows (building w) orders authzs
  worker : WorkerOk orders authzs w

/-- A statement that writes no order and no authorization, of a handler that builds none. -/
theorem Kept.read {orders : List AcmeOrder} {authzs : List AcmeAuthz} {w w' : Worker}
    (h : Kept orders authzs w) (hb : building w=none) (hb' : building w'=none)
    (hw : WorkerOk orders authzs w') : Kept orders authzs w' := by
  refine ⟨?_,hw⟩
  rw [hb',← hb]
  exact h.rows

theorem Kept.finished {orders : List AcmeOrder} {authzs : List AcmeAuthz} {w : Worker}
    (h : Kept orders authzs w) (hb : building w=none) : Kept orders authzs finished :=
  h.read hb rfl trivial

theorem eq_of_id_eq {authzs : List AcmeAuthz} (h : (authzs.map (·.id)).Nodup) {a b : AcmeAuthz}
    (ha : a∈authzs) (hb : b∈authzs) (hid : a.id=b.id) : a=b :=
  List.inj_on_of_nodup_map h ha hb hid

/-- A stored authorization is saved as valid or as deactivated. -/
theorem Rows.saveBack {b : Option String} {orders : List AcmeOrder} {authzs : List AcmeAuthz}
    (h : Rows b orders authzs) {a : AcmeAuthz} (ha : a∈authzs) {status : Int}
    (hst : Decided status) :
    Rows b orders (upsert AcmeAuthz.id { a with status := status } authzs) := by
  refine h.saveAuthz (h.base a ha) fun c hc hid => ?_
  obtain rfl : c=a := eq_of_id_eq h.authzIds hc ha hid
  exact ⟨rfl,rfl,hst⟩

theorem HasAuthz.imp {authzs : List AcmeAuthz} {orderId : String} {ident : Identifier}
    {ok ok' : Int → Prop} (h : HasAuthz authzs orderId ident ok) (himp : ∀ status,ok status → ok' status) :
    HasAuthz authzs orderId ident ok' := by
  obtain ⟨a,ha,horder,hident,hok⟩ := h
  exact ⟨a,ha,horder,hident,himp _ hok⟩

/-- The order that was being built has all its authorizations. -/
theorem Rows.built {id : String} {orders : List AcmeOrder} {authzs : List AcmeAuthz}
    (h : Rows (some id) orders authzs)
    (hall : ∀ r∈orders,r.id=id → ∀ ident∈r.identifiers,HasAuthz authzs r.id ident fun _ => True) :
    Rows none orders authzs := by
  refine ⟨h.ready,fun o ho _ => ?_,h.base,h.orderIds,h.authzIds⟩
  by_cases hid : o.id=id
  · exact hall o ho hid
  · exact h.complete o ho fun heq => hid (Option.some.inj heq)

theorem baseIdent_eq_self {ident : Identifier} (h : isWildcard ident=false) : baseIdent ident=ident := by
  simp [baseIdent,h]

theorem baseIdent_type (ident : Identifier) : (baseIdent ident).type=ident.type := by
  simp only [baseIdent]
  split <;> rfl

/-- new-order looks for its next name, or is through. -/
theorem Kept.nextName {db : Db} {o : AcmeOrder} {todo : List Identifier} {allValid : Bool}
    (h : Kept db.orders db.authzs (.acme (.newOrder .next o todo allValid))) (inp : Input) :
    let e := newOrderStep inp db .next o todo allValid
    Kept e.db.orders e.db.authzs (.acme e.thread) := by
  obtain ⟨hrows,hpending,hstored,hplain,hprogress⟩ := h
  cases todo with
  | nil =>
    have hfound : ∀ i∈o.identifiers,Found db.authzs o allValid i := by
      intro i hi
      obtain hnil|hf := hprogress i hi
      · cases hnil
      · exact hf
    simp only [newOrderStep]
    split
    · next hall =>
      refine ⟨hrows.saveOrder (r := { o with status := 1 }) (Or.inr rfl) ?_ ?_,trivial⟩
      · intro _ ident hi
        exact (hfound ident hi).imp fun _ hst => Or.inl (hst hall)
      · intro _ ident hi
        exact (hfound ident hi).imp fun _ _ => trivial
    · refine ⟨hrows.built fun r hr hid ident hi => ?_,trivial⟩
      obtain rfl := hstored r hr hid
      exact (hfound ident hi).imp fun _ _ => trivial
  | cons ident todo =>
    have hident : Plain ident := hplain ident (by simp)
    have hrest : ∀ i∈todo,Plain i := fun i hi => hplain i (by simp [hi])
    have hmake : ∀ i∈o.identifiers,i=ident ∨ i∈todo ∨ Found db.authzs o false i := by
      intro i hi
      obtain hmem|hf := hprogress i hi
      · obtain rfl|hmem := List.mem_cons.mp hmem
        · exact Or.inl rfl
        · exact Or.inr (Or.inl hmem)
      · exact Or.inr (Or.inr (hf.imp fun _ _ hfalse => by cases hfalse))
    have hmade : Kept db.orders db.authzs (.acme (.newOrder (.make ident) o todo false)) :=
      ⟨hrows,hpending,hstored,hrest,fun _ => hident.2,rfl,hmake⟩
    simp only [newOrderStep]
    split
    · cases hfind : findValidAuthz db inp.pick o.accountId ident inp.now with
      | none => exact hmade
      | some a =>
        obtain ⟨ha,rfl⟩ := findValidAuthz_some hfind
        have hwild : isWildcard a.identifier=false := hrows.base a ha hident.1
        refine ⟨hrows,hpending,hstored,hrest,(baseIdent_eq_self hwild).symm,hwild,fun i hi => ?_⟩
        obtain hmem|hf := hprogress i hi
        · obtain rfl|hmem := List.mem_cons.mp hmem
          · exact Or.inl rfl
          · exact Or.inr (Or.inl hmem)
        · exact Or.inr (Or.inr hf)
    · exact hmade

/-- A new authorization is saved for the name at hand. -/
theorem Kept.saveNew {db : Db} {stage later : NewOrderStage} {o : AcmeOrder} {ident : Identifier}
    {todo : List Identifier} {allValid : Bool} {r : AcmeAuthz}
    (h : Kept db.orders db.authzs (.acme (.newOrder stage o todo allValid)))
    (hfresh : ∀ a∈db.authzs,a.id≠r.id) (horder : r.orderId=o.id)
    (hident : r.identifier=baseIdent ident)
    (hbase : r.identifier.type="dns" → isWildcard r.identifier=false)
    (hvalid : allValid=true → r.status=1)
    (hsofar : ∀ i∈o.identifiers,i=ident ∨ i∈todo ∨ Found db.authzs o allValid i)
    (hlater : StageOk (upsert AcmeAuthz.id r db.authzs) o todo allValid later ↔
      ∀ i∈o.identifiers,i∈todo ∨ Found (upsert AcmeAuthz.id r db.authzs) o allValid i) :
    Kept db.orders (upsert AcmeAuthz.id r db.authzs) (.acme (.newOrder later o todo allValid)) := by
  obtain ⟨hrows,hpending,hstored,hplain,_⟩ := h
  refine ⟨hrows.saveAuthz hbase fun a ha hid => absurd hid (hfresh a ha),hpending,hstored,hplain,
    hlater.mpr fun i hi => ?_⟩
  obtain rfl|hmem|hf := hsofar i hi
  · exact Or.inr ⟨r,mem_upsert.mpr (Or.inl rfl),horder,hident,hvalid⟩
  · exact Or.inl hmem
  · exact Or.inr (HasAuthz.upsert hf fun a ha hid => absurd hid (hfresh a ha))

theorem Kept.newOrder {db : Db} {stage : NewOrderStage} {o : AcmeOrder} {todo : List Identifier}
    {allValid : Bool} (h : Kept db.orders db.authzs (.acme (.newOrder stage o todo allValid)))
    (inp : Input)
    (hfresh : (∃ ident,stage=.make ident) ∨ (∃ ident a,stage=.reuse ident a) →
      ∀ b∈db.authzs,b.id≠inp.newId) :
    let e := newOrderStep inp db stage o todo allValid
    Kept e.db.orders e.db.authzs (.acme e.thread) := by
  cases stage with
  | next => exact h.nextName inp
  | reuse ident a =>
    obtain ⟨hident,hwild,hsofar⟩ := h.worker.progress
    exact h.saveNew (r := { a with id := inp.newId, orderId := o.id, accountId := o.accountId, status := 1 })
      (hfresh (Or.inr ⟨ident,a,rfl⟩)) rfl hident (fun _ => hwild) (fun _ => rfl) hsofar Iff.rfl
  | make ident =>
    obtain ⟨hwild,hinvalid,hsofar⟩ := h.worker.progress
    exact h.saveNew (hfresh (Or.inl ⟨ident,rfl⟩)) rfl rfl
      (fun htype => hwild ((baseIdent_type ident).symm.trans htype))
      (fun hall => by rw [hinvalid] at hall; cases hall) hsofar Iff.rfl
  | challenges authzId types =>
    obtain ⟨hrows,hpending,hstored,hplain,hprogress⟩ := h
    cases types with
    | nil => exact ⟨hrows,hpending,hstored,hplain,hprogress⟩
    | cons type types => exact ⟨hrows,hpending,hstored,hplain,hprogress⟩

/-- The statements of the verifier, from its four reads on. -/
theorem Kept.verify {db : Db} {stage : VerifyStage} {c : AcmeChallenge} {a : AcmeAuthz}
    {o : Option AcmeOrder} (h : Kept db.orders db.authzs (.acme (.verify stage c a o)))
    (inp : Input) :
    let e := verifyStep inp db stage c a o
    Kept e.db.orders e.db.authzs (.acme e.thread) := by
  have hok : VerifyOk db.orders db.authzs stage a o := h.worker
  -- a statement that leaves the rows goes on with the same copies
  have hsame : ∀ later,later≠.order → Kept db.orders db.authzs (.acme (.verify later c a o)) :=
    fun later hne => h.read rfl rfl ⟨hok.authz,hok.order,fun heq => absurd heq hne⟩
  have hdone : Kept db.orders db.authzs Acme.finished := h.finished rfl
  cases stage with
  | account =>
    simp only [verifyStep]
    split
    · exact hdone
    · split
      · exact hsame _ (by simp)
      · split
        · split
          · exact hsame _ (by simp)
          · exact hsame _ (by simp)
        · exact hsame _ (by simp)
  | invalid why => exact hdone
  | valid => exact hsame _ (by simp)
  | siblings => exact hsame _ (by simp)
  | delete ids =>
    cases ids with
    | nil => exact hsame _ (by simp)
    | cons id ids => exact hsame _ (by simp)
  | authz =>
    have hrows : Rows none db.orders (upsert AcmeAuthz.id { a with status := 1 } db.authzs) :=
      h.rows.saveBack hok.authz (Or.inl rfl)
    cases o with
    | none => exact ⟨hrows,trivial⟩
    | some order => exact ⟨hrows,mem_upsert.mpr (Or.inl rfl),hok.order,by simp⟩
  | others =>
    cases o with
    | none => exact hdone
    | some order =>
      simp only [verifyStep]
      split
      · next hall =>
        refine h.read rfl rfl ⟨hok.authz,hok.order,fun _ order' heq b hb hbo => ?_⟩
        obtain rfl := Option.some.inj heq
        rw [List.all_eq_true] at hall
        have hvalid := hall b (List.mem_filter.mpr ⟨hb,by simpa using hbo⟩)
        simpa using hvalid
      · exact hdone
  | order =>
    cases o with
    | none => exact hdone
    | some order =>
      have horder : order∈db.orders := hok.order order rfl
      have hcover := h.rows.complete order horder (by simp [building])
      refine ⟨h.rows.saveOrder (r := { order with status := 1 }) (Or.inl rfl) ?_ ?_,trivial⟩
      · intro _ ident hi
        obtain ⟨b,hb,hbo,hbi,_⟩ := hcover ident hi
        exact ⟨b,hb,hbo,hbi,Or.inl (hok.valid rfl order rfl b hb hbo)⟩
      · intro _ ident hi
        exact hcover ident hi

theorem Kept.newOrderSave {db : Db} {account : AcmeAccount} {ca : String} {idents : List Identifier}
    (h : Kept db.orders db.authzs (.acme (.newOrderSave account ca idents))) (inp : Input) :
    let e := advance inp db (.newOrderSave account ca idents)
    Kept e.db.orders e.db.authzs (.acme e.thread) := by
  have hplain : ∀ i∈idents,Plain i := h.worker
  refine ⟨h.rows.saveOrder (Or.inl rfl) nofun fun hne => absurd rfl hne,rfl,fun r hr hid => ?_,
    hplain,fun i hi => Or.inl hi⟩
  obtain rfl|⟨_,hne⟩ := mem_upsert.mp hr
  · rfl
  · exact absurd hid hne

theorem finalizeCert_ready {s : Server} {env : Issue.Env} {account : AcmeAccount} {o : AcmeOrder}
    {stored : Option AcmeDeviceTicket} {ca : String} {payload : FinalizePayload} {f : Finalized}
    (h : finalizeCert s env account o stored ca payload=.ok f) : o.status=1 := by
  simp only [finalizeCert,bind_eq_ok_iff,refuseIf_eq_ok_iff] at h
  obtain ⟨_,_,_,_,_,_,_,_,_,hready,_⟩ := h
  exact not_not.mp hready

theorem Kept.finalizeGet {db : Db} {account : AcmeAccount} {id ca : String}
    {payload : FinalizePayload}
    (h : Kept db.orders db.authzs (.acme (.finalizeGet account id ca payload))) (inp : Input) :
    let e := finalizeGetStep inp db account id ca payload
    Kept e.db.orders e.db.authzs (.acme e.thread) := by
  simp only [finalizeGetStep]
  cases hget : getOrder db id with
  | none => exact h.finished rfl
  | some o =>
    simp only
    split
    · exact h.finished rfl
    · next f hf => exact h.read rfl rfl ⟨lookup_mem hget,finalizeCert_ready hf⟩

/-- One statement of new-order, of a challenge or of finalize. -/
theorem Kept.thread {db : Db} {t : Thread} (h : Kept db.orders db.authzs (.acme t)) (inp : Input)
    (hfresh : ∀ stage o todo allValid,t=.newOrder stage o todo allValid →
      (∃ ident,stage=.make ident) ∨ (∃ ident a,stage=.reuse ident a) →
      ∀ b∈db.authzs,b.id≠inp.newId) :
    Kept (advance inp db t).db.orders (advance inp db t).db.authzs (.acme (advance inp db t).thread) := by
  cases t with
  | newOrderSave account ca idents => exact h.newOrderSave inp
  | newOrder stage o todo allValid => exact h.newOrder inp (hfresh stage o todo allValid rfl)
  | challGet account id =>
    rw [advance]
    cases getChallenge db id with
    | none => exact h.finished rfl
    | some c => exact h.read rfl rfl trivial
  | challAuthz account c =>
    rw [advance]
    cases getAuthz db c.authzId with
    | none => exact h.finished rfl
    | some a => exact h.read rfl rfl trivial
  | challOrder account c a =>
    rw [advance]
    simp only
    split_ifs
    · exact h.finished rfl
    · exact h.read rfl rfl trivial
    · exact h.read rfl rfl trivial
  | challSave c => exact h.read rfl rfl trivial
  | verifyGet id =>
    rw [advance]
    cases getChallenge db id with
    | none => exact h.finished rfl
    | some c => exact h.read rfl rfl trivial
  | verifyAuthz c =>
    rw [advance]
    cases hget : getAuthz db c.authzId with
    | none => exact h.finished rfl
    | some a => exact h.read rfl rfl (lookup_mem hget)
  | verifyOrder c a =>
    refine h.read rfl rfl ⟨h.worker,fun order horder => ?_,by simp⟩
    by_cases hpre : a.orderId=""
    · simp [hpre] at horder
    · rw [if_neg hpre] at horder
      exact lookup_mem horder
  | verify stage c a o => exact h.verify inp
  | finalizeGet account id ca payload => exact h.finalizeGet inp
  | finalizeInsert o ca f =>
    obtain hstep|⟨certs,hstep⟩ := finalizeInsertStep_cases db o ca f
    · rw [advance,hstep]
      exact h.finished rfl
    · rw [advance,hstep]
      exact h.read rfl rfl h.worker.1
  | finalizeSave o serial =>
    have ho : o∈db.orders := h.worker
    have hcover := h.rows.complete o ho (by simp [building])
    exact ⟨h.rows.saveOrder (r := { o with status := 3, certSerial := serial }) (Or.inl rfl)
      (fun hst => by cases hst) fun _ => hcover,trivial⟩
  | challAnswer c => exact h.finished rfl
  | orderGet account id => exact h.finished rfl
  | accountOrders account => exact h.finished rfl
  | done => exact h.finished rfl

theorem checkNewOrder_plain {s : Server} {certs : List StoredCert} {account : AcmeAccount}
    {ca : String} {idents : List Identifier} {u : Unit}
    (h : checkNewOrder s certs account ca idents=.ok u) : ∀ i∈idents,Plain i := by
  have hnames := checkNewOrder_names h
  simp only [checkNewOrder,bind_eq_ok_iff] at h
  obtain ⟨_,_,_,_,_,_,_,_,_,hchecked,_⟩ := h
  intro i hi
  have hone := forM_eq_ok_iff.mp hchecked i hi
  simp only [bind_eq_ok_iff,refuseIf_eq_ok_iff] at hone
  obtain ⟨_,htype,_⟩ := hone
  exact ⟨not_not.mp htype,isWildcard_baseIdent (hnames i hi)⟩

/-- A request of an account that `parse_acme_post` has accepted. -/
theorem workerOk_dispatch (site : Site) (inp : Input) (tb : Tables) (account : AccountRow) (p : Post) :
    building (dispatch site inp tb account p)=none ∧
      WorkerOk tb.orders tb.authzs (dispatch site inp tb account p) := by
  cases p with
  | account id deactivate =>
    simp only [dispatch]
    split <;> exact ⟨rfl,trivial⟩
  | keyChange inner =>
    simp only [dispatch]
    cases inner.bind (newKey site account) with
    | none => exact ⟨rfl,trivial⟩
    | some key => exact ⟨rfl,trivial⟩
  | authz id deactivate => exact ⟨rfl,trivial⟩
  | chall id attObj => exact ⟨rfl,trivial⟩
  | newAuthz ident =>
    simp only [dispatch]
    split <;> exact ⟨rfl,trivial⟩
  | other r =>
    cases r with
    | newOrder ca idents =>
      simp only [dispatch]
      split
      · -- a device order names exactly one device
        fun_cases deviceOrder account ca idents with
        | case1 ident htype => exact ⟨rfl,htype⟩
        | _ => exact ⟨rfl,trivial⟩
      · next hdns =>
        simp only [accept,if_neg hdns]
        cases hcheck : checkNewOrder inp.server tb.db.certs account.toAcmeAccount ca idents with
        | ok u => exact ⟨rfl,checkNewOrder_plain hcheck⟩
        | error e => exact ⟨rfl,trivial⟩
    | challPost id => exact ⟨rfl,trivial⟩
    | orderGet id => exact ⟨rfl,trivial⟩
    | accountOrders => exact ⟨rfl,trivial⟩
    | finalize id ca payload => exact ⟨rfl,trivial⟩

theorem Kept.attestOrder {tb : Tables} {c : AcmeChallenge} {a : AcmeAuthz} {attObj : String}
    (h : Kept tb.orders tb.authzs (.attestOrder c a attObj)) :
    Kept tb.orders tb.authzs (attestOrderStep tb c a attObj) := by
  fun_cases attestOrderStep tb c a attObj with
  | case4 _ o hget hattested =>
    refine h.read rfl rfl ⟨h.worker,?_⟩
    by_cases hpre : a.orderId=""
    · simp [hpre] at hget
    · rw [if_neg hpre] at hget
      exact lookup_mem hget
  | _ => exact h.finished rfl

theorem Kept.attestTicket {tb : Tables} {c : AcmeChallenge} {a : AcmeAuthz} {o : AcmeOrder}
    {attObj : String} (h : Kept tb.orders tb.authzs (.attestTicket c a o attObj)) (site : Site) :
    Kept tb.orders tb.authzs (attestTicketStep site tb c a o attObj) := by
  obtain ⟨ha,ho⟩ := h.worker
  fun_cases attestTicketStep site tb c a o attObj with
  | case1 => exact h.finished rfl
  | case2 t _ dev _ => exact h.read rfl rfl ⟨ha,ho⟩
  | case3 t _ why _ =>
    exact h.read rfl rfl ⟨ha,fun order heq => Option.some.inj heq ▸ ho,nofun⟩

theorem Kept.deviceTicket {tb : Tables} {account : AccountRow} {ca : String} {ident : Identifier}
    (h : Kept tb.orders tb.authzs (.deviceTicket account ca ident)) (inp : Input) :
    Kept tb.orders tb.authzs (deviceTicketStep inp tb account ca ident) := by
  have htype : ident.type="permanent-identifier" := h.worker
  fun_cases deviceTicketStep inp tb account ca ident with
  | case1 => exact h.read rfl rfl htype
  | case2 t => exact h.read rfl rfl ⟨rfl,rfl,htype⟩
  | case3 t => exact h.finished rfl
  | case4 t => exact h.read rfl rfl htype

theorem Kept.deviceSerial {tb : Tables} {account : AccountRow} {ca : String} {ident : Identifier}
    (h : Kept tb.orders tb.authzs (.deviceSerial account ca ident)) (inp : Input) :
    Kept tb.orders tb.authzs (deviceSerialStep inp tb account ca ident) := by
  have htype : ident.type="permanent-identifier" := h.worker
  fun_cases deviceSerialStep inp tb account ca ident with
  | case1 => exact h.finished rfl
  | case2 d => exact h.read rfl rfl ⟨rfl,rfl,htype⟩
  | case3 d => exact h.finished rfl

/-- The order of a device is saved, and its one authorization is made next. -/
theorem Kept.deviceSave {tb : Tables} {o : AcmeOrder} {ident : Identifier}
    (h : Kept tb.orders tb.authzs (.deviceSave o ident)) :
    Kept (upsert AcmeOrder.id o tb.orders) tb.authzs (.acme (.newOrder (.make ident) o [] false)) := by
  obtain ⟨hpending,hidents,htype⟩ := h.worker
  have hnotDns : ident.type≠"dns" := by
    rw [htype]
    decide
  refine ⟨h.rows.saveOrder (Or.inl rfl) (fun hst => ?_) fun hne => absurd rfl hne,hpending,
    fun r hr hid => ?_,nofun,fun hdns => absurd hdns hnotDns,rfl,fun i hi => ?_⟩
  · rw [hpending] at hst
    cases hst
  · obtain rfl|⟨_,hne⟩ := mem_upsert.mp hr
    · rfl
    · exact absurd hid hne
  · rw [hidents] at hi
    exact Or.inl (List.mem_singleton.mp hi)

/-- The rows between two statements, when the statement leaves them. -/
theorem Kept.goOn {tb tb' : Tables} {w w' : Worker} (h : Kept tb.orders tb.authzs w)
    (hb : building w=none) (horders : tb'.orders=tb.orders) (hauthzs : tb'.authzs=tb.authzs)
    (hb' : building w'=none) (hw : WorkerOk tb.orders tb.authzs w') :
    Kept tb'.orders tb'.authzs w' := by
  rw [horders,hauthzs]
  exact h.read hb hb' hw

/-- One statement of whatever handler is at work. -/
theorem Kept.advance {tb : Tables} {w : Worker} (h : Kept tb.orders tb.authzs w) (site : Site)
    (inp : Input) (waiting : List Worker) (hturn : Unaltered ⟨tb,w,waiting⟩ (.run inp)) :
    Kept (w.advance site inp tb).tables.orders (w.advance site inp tb).tables.authzs
      (w.advance site inp tb).worker := by
  cases w with
  | parse kid signedBy post =>
    simp only [Worker.advance]
    split
    · exact h.finished rfl
    · next account hget =>
      split
      · exact h.finished rfl
      · obtain ⟨hb,hw⟩ := workerOk_dispatch site inp tb account post
        exact h.read rfl hb hw
  | accountGet id deactivate =>
    simp only [Worker.advance]
    split
    · exact h.finished rfl
    · cases deactivate with
      | false => exact h.finished rfl
      | true => exact h.read rfl rfl trivial
  | keyChangeOther acc jwk hash =>
    simp only [Worker.advance]
    split
    · exact h.finished rfl
    · exact h.read rfl rfl trivial
  | authzGet account id deactivate =>
    simp only [Worker.advance]
    split
    · exact h.finished rfl
    · next a hget =>
      split
      · exact h.finished rfl
      · cases deactivate with
        | false => exact h.finished rfl
        | true => exact h.read rfl rfl (lookup_mem hget)
  | authzSave a => exact ⟨h.rows.saveBack h.worker (Or.inr rfl),trivial⟩
  | challGet account id attObj =>
    simp only [Worker.advance]
    cases getChallenge tb.db id with
    | none => exact h.finished rfl
    | some c => exact h.read rfl rfl trivial
  | challAuthz account c attObj =>
    simp only [Worker.advance]
    cases getAuthz tb.db c.authzId with
    | none => exact h.finished rfl
    | some a => exact h.read rfl rfl trivial
  | challOwner account c a attObj =>
    simp only [Worker.advance]
    split_ifs
    · exact h.finished rfl
    · exact h.read rfl rfl trivial
    · exact h.read rfl rfl trivial
    · exact h.read rfl rfl trivial
  | attestAuthz c attObj =>
    simp only [Worker.advance]
    cases hget : getAuthz tb.db c.authzId with
    | none => exact h.finished rfl
    | some a => exact h.read rfl rfl (lookup_mem hget)
  | attestOrder c a attObj => exact h.attestOrder
  | attestTicket c a o attObj => exact h.attestTicket site
  | attestRecord c a o t dev => exact h.goOn rfl rfl rfl rfl h.worker
  | attestValid c a o =>
    obtain ⟨ha,ho⟩ := h.worker
    refine h.goOn rfl rfl rfl rfl ⟨ha,fun order heq => Option.some.inj heq ▸ ho,?_⟩
    intro hlast
    cases hlast
  | newAccountGet n hash =>
    simp only [Worker.advance]
    fun_cases newAccountStep tb n hash <;> exact h.goOn rfl rfl rfl rfl trivial
  | newAccountTickets n hash =>
    simp only [Worker.advance]
    split <;> exact h.goOn rfl rfl rfl rfl trivial
  | preAuthz account ident =>
    obtain ⟨_,hfresh,hwild⟩ := hturn
    exact ⟨h.rows.saveAuthz (fun _ => hwild ident rfl) fun a ha hid => absurd hid (hfresh rfl a ha),
      trivial⟩
  | preChallenges authzId types =>
    cases types with
    | nil => exact h.finished rfl
    | cons type types => exact h.goOn rfl rfl rfl rfl trivial
  | deviceTicket account ca ident => exact h.deviceTicket inp
  | deviceSerial account ca ident => exact h.deviceSerial inp
  | deviceClaim o ident =>
    simp only [Worker.advance]
    split
    · exact h.finished rfl
    · next tb' hclaim =>
      obtain ⟨tickets,rfl⟩ := Tables.claimDeviceTicket_eq_some hclaim
      exact h.goOn rfl rfl rfl rfl h.worker
  | deviceCreate o ident t => exact h.goOn rfl rfl rfl rfl h.worker
  | deviceSave o ident => exact h.deviceSave
  | acme t =>
    have hdb : Kept tb.db.orders tb.db.authzs (.acme t) := h
    refine hdb.thread inp fun stage o todo allValid heq hnew => ?_
    subst heq
    obtain ⟨ident,rfl⟩|⟨ident,a,rfl⟩ := hnew
    · exact hturn.2.1 rfl
    · exact hturn.2.1 rfl
  | accountSave acc => exact h.goOn rfl rfl rfl rfl trivial
  | keyChangeSave acc => exact h.goOn rfl rfl rfl rfl trivial
  | newAccountSave n hash kid eab => exact h.goOn rfl rfl rfl rfl trivial

/-- An order that stays keeps its authorizations. -/
theorem HasAuthz.sweep {tb : Tables} {now : Int} {o : AcmeOrder} {ident : Identifier}
    {ok : Int → Prop} (hids : (tb.orders.map (·.id)).Nodup) (ho : o∈tb.orders)
    (hstays : ¬o.expires<now) (h : HasAuthz tb.authzs o.id ident ok) :
    HasAuthz (deleteExpiredOrders tb now).authzs o.id ident ok := by
  obtain ⟨a,ha,horder,hrest⟩ := h
  refine ⟨a,List.mem_filter.mpr ⟨ha,?_⟩,horder,hrest⟩
  have hnot : a.orderId∉(tb.orders.filter (·.expires < now)).map (·.id) := by
    intro hgone
    obtain ⟨r,hr,hid⟩ := List.mem_map.mp hgone
    obtain ⟨hr,hexpired⟩ := List.mem_filter.mp hr
    obtain rfl : r=o := List.inj_on_of_nodup_map hids hr ho (hid.trans horder)
    exact hstays (by simpa using hexpired)
  simp [hnot]

theorem Kept.sweep {tb : Tables} {w : Worker} (h : Kept tb.orders tb.authzs w) (now : Int)
    (hidle : w.idle=true) :
    Kept (deleteExpiredOrders tb now).orders (deleteExpiredOrders tb now).authzs w := by
  obtain rfl : w=.acme .done := by
    revert hidle
    fun_cases Worker.idle w <;> simp
  have hmem : ∀ o∈(deleteExpiredOrders tb now).orders,o∈tb.orders ∧ ¬o.expires<now := by
    intro o ho
    obtain ⟨ho,hst⟩ := List.mem_filter.mp ho
    exact ⟨ho,by simpa using hst⟩
  refine ⟨⟨fun o ho hst ident hi => ?_,fun o ho hb ident hi => ?_,fun a ha => ?_,?_,?_⟩,trivial⟩
  · obtain ⟨ho,hstays⟩ := hmem o ho
    exact (h.rows.ready o ho hst ident hi).sweep h.rows.orderIds ho hstays
  · obtain ⟨ho,hstays⟩ := hmem o ho
    exact (h.rows.complete o ho hb ident hi).sweep h.rows.orderIds ho hstays
  · exact h.rows.base a (List.mem_filter.mp ha).1
  · exact h.rows.orderIds.sublist (List.filter_sublist.map _)
  · exact h.rows.authzIds.sublist (List.filter_sublist.map _)

/-- What every sequential run keeps. -/
structure DeskOk (d : Desk) : Prop where
  kept : Kept d.tables.orders d.tables.authzs d.current
  waiting : ∀ w∈d.waiting,∃ id,w=.acme (.verifyGet id)

theorem building_of_idle {w : Worker} (h : w.idle=true) : building w=none := by
  revert h
  fun_cases Worker.idle w <;> simp [building]

theorem DeskOk.begin {d : Desk} (h : DeskOk d) {w : Worker} (hb : building w=none)
    (hw : WorkerOk d.tables.orders d.tables.authzs w) : DeskOk (d.begin w) := by
  simp only [Desk.begin]
  split
  · next hidle => exact ⟨h.kept.read (building_of_idle hidle) hb hw,h.waiting⟩
  · exact h

theorem spawned_advance (site : Site) (inp : Input) (tb : Tables) (w : Worker) :
    ∀ x∈(w.advance site inp tb).spawned,∃ id,x=.acme (.verifyGet id) := by
  fun_cases Worker.advance site inp tb w with
  | case34 t =>
    intro x hx
    obtain ⟨t',ht,rfl⟩ := List.mem_map.mp hx
    obtain ⟨id,rfl⟩ := mem_spawned ht
    exact ⟨id,rfl⟩
  | _ =>
    intro x hx
    cases hx

theorem DeskOk.step {d : Desk} (h : DeskOk d) (site : Site) (t : Turn) (hturn : Unaltered d t) :
    DeskOk (d.step site t) := by
  cases t with
  | newAccount n =>
    simp only [Desk.step,acceptNew]
    cases site.thumbprint n.jwk with
    | none => exact h.begin rfl trivial
    | some hash => exact h.begin rfl trivial
  | post kid signedBy p => exact h.begin rfl trivial
  | verifier i =>
    simp only [Desk.step]
    split
    · exact h
    · next w hw =>
      split
      · next hidle =>
        obtain ⟨id,rfl⟩ := h.waiting w (List.mem_of_getElem? hw)
        exact ⟨h.kept.read (building_of_idle hidle) rfl trivial,
          fun x hx => h.waiting x (List.mem_of_mem_eraseIdx hx)⟩
      · exact h
  | sweep now =>
    simp only [Desk.step]
    split
    · next hidle => exact ⟨h.kept.sweep now hidle,h.waiting⟩
    · exact h
  | run inp =>
    refine ⟨h.kept.advance site inp d.waiting hturn,fun x hx => ?_⟩
    obtain hx|hx := List.mem_append.mp hx
    · exact h.waiting x hx
    · exact spawned_advance site inp d.tables d.current x hx

theorem insertsFor_eq_some {d : Desk} {o : AcmeOrder} (h : insertsFor d=some o) :
    ∃ ca f,d.current=.acme (.finalizeInsert o ca f) := by
  simp only [insertsFor] at h
  split at h
  · next order ca f hcurrent =>
    split at h
    · obtain rfl := Option.some.inj h
      exact ⟨ca,f,hcurrent⟩
    · cases h
  · cases h

theorem DeskOk.issuesLive {d : Desk} (h : DeskOk d) (t : Turn) (hturn : Unaltered d t) :
    IssuesLive d t := by
  cases t with
  | run inp =>
    intro o hins hdns
    obtain ⟨ca,f,hcurrent⟩ := insertsFor_eq_some hins
    have hstored : WorkerOk d.tables.orders d.tables.authzs d.current := h.kept.worker
    rw [hcurrent] at hstored
    obtain ⟨ho,hready⟩ := hstored
    have hfin : finalizing d.current=some o := by rw [hcurrent]; rfl
    obtain ⟨htime,hlive⟩ := hturn.1 o hfin hdns
    refine ⟨htime,fun ident hi => ?_⟩
    obtain ⟨a,ha,horder,hident,hdecided⟩ := h.kept.rows.ready o ho hready ident hi
    obtain ⟨hactive,hfresh⟩ := hlive a (List.mem_filter.mpr ⟨ha,by simpa using horder⟩)
    exact ⟨a,ha,horder,hident,hdecided.resolve_right hactive,hfresh⟩
  | newAccount n => trivial
  | post kid signedBy p => trivial
  | verifier i => trivial
  | sweep now => trivial

/-- A server that has taken no order yet. -/
def opened (accounts : List AccountRow) (certs : List StoredCert) (tickets : List TicketRow)
    (serials : List SerialRow) : Desk :=
  ⟨⟨accounts,[],[],[],certs,tickets,serials⟩,finished,[]⟩

theorem opened_ok (accounts : List AccountRow) (certs : List StoredCert) (tickets : List TicketRow)
    (serials : List SerialRow) : DeskOk (opened accounts certs tickets serials) := by
  have hrows : Rows none [] [] := by
    refine ⟨?_,?_,?_,List.nodup_nil,List.nodup_nil⟩
    · intro o ho
      cases ho
    · intro o ho
      cases ho
    · intro a ha
      cases ha
  refine ⟨⟨hrows,trivial⟩,?_⟩
  intro w hw
  cases hw

/-- In every sequential run whose steps are unaltered, finalize issues on live orders and
authorizations alone. -/
theorem finalize_issues_live (site : Site) (accounts : List AccountRow) (certs : List StoredCert)
    (tickets : List TicketRow) (serials : List SerialRow) (ts : List Turn)
    (h : Along (Desk.step site) Unaltered (opened accounts certs tickets serials) ts) :
    Along (Desk.step site) IssuesLive (opened accounts certs tickets serials) ts :=
  h.imp (fun _ t hd hq => DeskOk.step hd site t hq) (fun _ t hd hq => DeskOk.issuesLive hd t hq)
    (opened_ok accounts certs tickets serials)

def desk : Desk := opened [aliceRow] [] [] []

/-- The handler at work makes its statements, each with the id it may draw. -/
def runs (ids : List String) : List Turn := ids.map fun id => .run (draw id)

/-- An order for one host, its first challenge answered and verified, and finalize up to its
insert. -/
def hostReady : List Turn :=
  (.post "1" "k1" (.other (.newOrder "ca1" [dnsIdent "a.de"]))::
    runs ["","7","","21","31","32","33","",""])++
  (.post "1" "k1" (.chall "31" "")::runs ["","","","","",""])++
  (.verifier 0::runs ["","","","","","","","","","","",""])

def hostFinalize : List Turn :=
  .post "1" "k1" (.other (.finalize "7" "ca1" (.csr (.ok (hostCsr [Issue.cnEntry "a.de"])))))::
    runs ["","1f"]

def deactivateHost : List Turn := .post "1" "k1" (.authz "21" true)::runs ["","",""]

theorem finalize_issues_live_host :
    (insertsFor (run (Desk.step plainSite) desk (hostReady++hostFinalize))).isSome=true ∧
    Along (Desk.step plainSite) IssuesLive desk (hostReady++hostFinalize++runs [""]) :=
  ⟨by decide +kernel,finalize_issues_live plainSite [aliceRow] [] [] [] _ (by decide +kernel)⟩

/-- The authorization is deactivated when the order is ready, or the order has expired by the time
of the insert: the certificate is inserted all the same. -/
theorem finalize_issues_dead :
    ¬Along (Desk.step plainSite) IssuesLive desk
      (hostReady++deactivateHost++hostFinalize++runs [""]) ∧
    ¬Along (Desk.step plainSite) IssuesLive desk
      (hostReady++hostFinalize++[.run { draw "" with now := 200 }]) := by
  decide +kernel

end FastPki.Acme
