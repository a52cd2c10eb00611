import FastPki.Acme.Finalize
import FastPki.Certs.Store
import FastPki.Framework.Run
import FastPki.Framework.Table

namespace FastPki.Acme

open FastPki.X509 FastPki.Profile FastPki.Policy FastPki.Rbac FastPki.Issue FastPki.Certs

/-- A row of `authorizations`; `orderId` is empty for a pre-authorization. -/
structure AcmeAuthz where
  id : String
  identifier : Identifier
  status : Int
  expires : Int
  wildcard : Bool
  orderId : String
  accountId : String
  deriving DecidableEq

/-- A row of `challenges`. `status` is 0 pending, 1 processing, 2 valid, -1 invalid. -/
structure AcmeChallenge where
  id : String
  type : String
  status : Int
  token : String
  error : String
  validated : Int
  authzId : String
  deriving DecidableEq

structure Db where
  accounts : List AcmeAccount
  orders : List AcmeOrder
  authzs : List AcmeAuthz
  challenges : List AcmeChallenge
  certs : List StoredCert

def getOrder (db : Db) (id : String) : Option AcmeOrder := lookup AcmeOrder.id id db.orders

def saveOrder (db : Db) (o : AcmeOrder) : Db := { db with orders := upsert AcmeOrder.id o db.orders }

def getAuthz (db : Db) (id : String) : Option AcmeAuthz := lookup AcmeAuthz.id id db.authzs

def saveAuthz (db : Db) (a : AcmeAuthz) : Db := { db with authzs := upsert AcmeAuthz.id a db.authzs }

def authzForOrder (db : Db) (orderId : String) : List AcmeAuthz :=
  db.authzs.filter (·.orderId = orderId)

/-- `LIMIT 1` without an ORDER BY: any one of the rows, where there is one. -/
def findValidAuthz (db : Db) (pick : Nat) (accountId : String) (ident : Identifier) (now : Int) :
    Option AcmeAuthz :=
  let rows := db.authzs.filter fun a =>
    a.accountId = accountId ∧ a.identifier = ident ∧ a.status = 1 ∧ a.expires > now
  rows[pick%rows.length]?

def getChallenge (db : Db) (id : String) : Option AcmeChallenge :=
  lookup AcmeChallenge.id id db.challenges

def saveChallenge (db : Db) (c : AcmeChallenge) : Db :=
  { db with challenges := upsert AcmeChallenge.id c db.challenges }

def deleteChallenge (db : Db) (id : String) : Db :=
  { db with challenges := remove AcmeChallenge.id id db.challenges }

def challengesForAuthz (db : Db) (authzId : String) : List AcmeChallenge :=
  db.challenges.filter (·.authzId = authzId)

def getAccountById (db : Db) (id : String) : Option AcmeAccount :=
  lookup AcmeAccount.id id db.accounts

def isWildcard (ident : Identifier) : Bool := [asterisk,dot].isPrefixOf ident.value

/-- What is to be proven for an identifier: a wildcard stands for its domain. -/
def baseIdent (ident : Identifier) : Identifier :=
  if isWildcard ident then { ident with value := ident.value.drop 2 } else ident

def challengeTypes (ident : Identifier) : List String :=
  if ident.type = "permanent-identifier" then ["device-attest-01"]
  else if isWildcard ident then ["dns-01"] else ["http-01","tls-alpn-01","dns-01"]

/-- The checks of `handle_new_order` before its first write. -/
def checkNewOrder (s : Server) (certs : List StoredCert) (account : AcmeAccount) (ca : String)
    (idents : List Identifier) : Except Problem Unit := do
  let user := account.kid
  let groups := s.directoryGroups user
  let lim := roleLimits s.rbac user "" groups
  refuseIf (user = "") ⟨403,"unauthorized",
    "this account carries no external account binding and cannot enrol"⟩
  refuseIf (!mayEnrol s.rbac user "" "acme:enrol" ca groups) ⟨403,"unauthorized",
    "this account may not enrol over ACME against CA '"++ca++"'"⟩
  (roleLimitRefusal certs lim user [] (-1)).elim (.ok ()) fun why =>
    .error ⟨429,"rateLimited",why⟩
  refuseIf (idents = []) ⟨400,"malformed","identifiers[] required"⟩
  idents.forM fun ident => do
    refuseIf (ident.type ≠ "dns") ⟨400,"malformed","only dns identifiers supported"⟩
    refuseIf (!dnsNameOk ident.value) ⟨400,"rejectedIdentifier",
      "identifier is not a valid DNS name"⟩
  idents.forM fun ident =>
    (roleLimitRefusal certs { lim with maxCerts := none } "" ident.value idents.length).elim
      (.ok ()) fun why => .error ⟨429,"rateLimited",why⟩

/-- Where `handle_new_order` stands in its loop over the identifiers. -/
inductive NewOrderStage where
  | next
  | reuse (ident : Identifier) (a : AcmeAuthz)
  | make (ident : Identifier)
  | challenges (authzId : String) (types : List String)

/-- Where `verifier::run` stands once it has read its three rows. -/
inductive VerifyStage where
  | account
  | invalid (why : String)
  | valid
  | siblings
  | delete (ids : List String)
  | authz
  | others
  | order

/-- A handler or a verifier between two database statements, with the copies it holds. -/
inductive Thread where
  | newOrderSave (account : AcmeAccount) (ca : String) (idents : List Identifier)
  | newOrder (stage : NewOrderStage) (o : AcmeOrder) (todo : List Identifier) (allValid : Bool)
  | challGet (account : AcmeAccount) (id : String)
  | challAuthz (account : AcmeAccount) (c : AcmeChallenge)
  | challOrder (account : AcmeAccount) (c : AcmeChallenge) (a : AcmeAuthz)
  | challSave (c : AcmeChallenge)
  | challAnswer (c : AcmeChallenge)
  | verifyGet (id : String)
  | verifyAuthz (c : AcmeChallenge)
  | verifyOrder (c : AcmeChallenge) (a : AcmeAuthz)
  | verify (stage : VerifyStage) (c : AcmeChallenge) (a : AcmeAuthz) (o : Option AcmeOrder)
  | finalizeGet (account : AcmeAccount) (id ca : String) (payload : FinalizePayload)
  | finalizeInsert (o : AcmeOrder) (ca : String) (f : Finalized)
  | finalizeSave (o : AcmeOrder) (serial : String)
  | orderGet (account : AcmeAccount) (id : String)
  | accountOrders (account : AcmeAccount)
  | done

/-- What a step may take from outside: the clock, random values, the configuration and the other
database, and what the challenge's answer on the network was. -/
structure Input where
  now : Int
  orderExpires : Int
  newId : String
  token : String
  pick : Nat
  acmeNewAuthz : Bool
  probe : Except String Unit
  server : Server
  env : Env
  ticket : Option AcmeDeviceTicket

/-- The tables after the statement, where the thread goes on, and the verifier it starts. -/
structure Effect where
  db : Db
  thread : Thread
  spawned : List Thread

def newOrderStep (inp : Input) (db : Db) (stage : NewOrderStage) (o : AcmeOrder)
    (todo : List Identifier) (allValid : Bool) : Effect :=
  match stage with
  | .next =>
    match todo with
    | [] =>
      -- the last statement, made only when nothing is left to validate
      if allValid then ⟨saveOrder db { o with status := 1 },.done,[]⟩ else ⟨db,.done,[]⟩
    | ident::todo =>
      if inp.acmeNewAuthz then
        match findValidAuthz db inp.pick o.accountId ident inp.now with
        | some a => ⟨db,.newOrder (.reuse ident a) o todo allValid,[]⟩
        | none => ⟨db,.newOrder (.make ident) o todo false,[]⟩
      else ⟨db,.newOrder (.make ident) o todo false,[]⟩
  | .reuse _ a =>
    ⟨saveAuthz db { a with id := inp.newId, orderId := o.id, accountId := o.accountId, status := 1 },
      .newOrder .next o todo allValid,[]⟩
  | .make ident =>
    ⟨saveAuthz db ⟨inp.newId,baseIdent ident,0,o.expires,isWildcard ident,o.id,o.accountId⟩,
      .newOrder (.challenges inp.newId (challengeTypes ident)) o todo allValid,[]⟩
  | .challenges _ [] => ⟨db,.newOrder .next o todo allValid,[]⟩
  | .challenges authzId (type::types) =>
    ⟨saveChallenge db ⟨inp.newId,type,0,inp.token,"",0,authzId⟩,
      .newOrder (.challenges authzId types) o todo allValid,[]⟩

/-- The error a failed validation leaves in its challenge. -/
def validationError (type why : String) : String :=
  if type = "http-01" then "http-01 validation failed: "++
    (if why = "" then "challenge response missing or mismatched" else why)
  else if type = "dns-01" then "dns-01 TXT record missing or mismatched"
  else if type = "tls-alpn-01" then "tls-alpn-01 validation failed: "++
    (if why = "" then "validation certificate missing or mismatched" else why)
  else "unsupported challenge type: "++type

def supported (type : String) : Bool := type ∈ ["http-01","dns-01","tls-alpn-01"]

def verifyStep (inp : Input) (db : Db) (stage : VerifyStage) (c : AcmeChallenge) (a : AcmeAuthz)
    (o : Option AcmeOrder) : Effect :=
  match stage with
  | .account =>
    if (getAccountById db (o.elim a.accountId (·.accountId))).isNone then ⟨db,.done,[]⟩
    else if a.wildcard ∧ c.type ≠ "dns-01" then
      ⟨db,.verify (.invalid "a wildcard authorization can only be validated by dns-01") c a o,[]⟩
    else match inp.probe with
      | .ok _ =>
        if supported c.type then ⟨db,.verify .valid c a o,[]⟩
        else ⟨db,.verify (.invalid (validationError c.type "")) c a o,[]⟩
      | .error why => ⟨db,.verify (.invalid (validationError c.type why)) c a o,[]⟩
  | .invalid why => ⟨saveChallenge db { c with status := -1, error := why },.done,[]⟩
  | .valid =>
    ⟨saveChallenge db { c with status := 2, validated := inp.now, error := "" },
      .verify .siblings c a o,[]⟩
  | .siblings =>
    ⟨db,.verify (.delete (((challengesForAuthz db a.id).filter (·.id ≠ c.id)).map (·.id))) c a o,[]⟩
  | .delete [] => ⟨db,.verify .authz c a o,[]⟩
  | .delete (id::ids) => ⟨deleteChallenge db id,.verify (.delete ids) c a o,[]⟩
  | .authz =>
    ⟨saveAuthz db { a with status := 1 },
      o.elim .done fun _ => .verify .others c { a with status := 1 } o,[]⟩
  | .others =>
    match o with
    | none => ⟨db,.done,[]⟩
    | some order =>
      if (authzForOrder db order.id).all (·.status = 1) then ⟨db,.verify .order c a o,[]⟩
      else ⟨db,.done,[]⟩
  | .order =>
    match o with
    | none => ⟨db,.done,[]⟩
    | some order => ⟨saveOrder db { order with status := 1 },.done,[]⟩

/-- The account that may answer the challenges of this authorization. -/
def challengeOwner (db : Db) (a : AcmeAuthz) : String :=
  if a.orderId ≠ "" then ((getOrder db a.orderId).map (·.accountId)).getD "" else a.accountId

def finalizeGetStep (inp : Input) (db : Db) (account : AcmeAccount) (id ca : String)
    (payload : FinalizePayload) : Effect :=
  match getOrder db id with
  | none => ⟨db,.done,[]⟩
  | some o =>
    match finalizeCert inp.server inp.env account o inp.ticket ca payload with
    | .error _ => ⟨db,.done,[]⟩
    | .ok f => ⟨db,.finalizeInsert o ca f,[]⟩

def finalizeInsertStep (db : Db) (o : AcmeOrder) (ca : String) (f : Finalized) : Effect :=
  match insertUnderCap db.certs (issuedRow f.cert f.owner ca) f.maxCerts with
  | .ok (some certs) => ⟨{ db with certs := certs },.finalizeSave o f.cert.serial,[]⟩
  | _ => ⟨db,.done,[]⟩

/-- One database statement of one thread, with what it computes up to the next one. -/
def advance (inp : Input) (db : Db) : Thread → Effect
  | .newOrderSave account ca idents =>
    let o : AcmeOrder := ⟨inp.newId,0,inp.orderExpires,idents,"",account.id,ca⟩
    ⟨saveOrder db o,.newOrder .next o idents true,[]⟩
  | .newOrder stage o todo allValid => newOrderStep inp db stage o todo allValid
  | .challGet account id => ⟨db,(getChallenge db id).elim .done (.challAuthz account),[]⟩
  | .challAuthz account c => ⟨db,(getAuthz db c.authzId).elim .done (.challOrder account c),[]⟩
  | .challOrder account c a =>
    let owner := challengeOwner db a
    ⟨db,if owner = "" ∨ owner ≠ account.id ∨ c.type = "device-attest-01" then .done
      else if c.status = 0 then .challSave c else .challAnswer c,[]⟩
  | .challSave c =>
    ⟨saveChallenge db { c with status := 1 },.challAnswer { c with status := 1 },[.verifyGet c.id]⟩
  | .challAnswer _ => ⟨db,.done,[]⟩
  | .verifyGet id => ⟨db,(getChallenge db id).elim .done .verifyAuthz,[]⟩
  | .verifyAuthz c => ⟨db,(getAuthz db c.authzId).elim .done (.verifyOrder c),[]⟩
  | .verifyOrder c a =>
    ⟨db,.verify .account c a (if a.orderId = "" then none else getOrder db a.orderId),[]⟩
  | .verify stage c a o => verifyStep inp db stage c a o
  | .finalizeGet account id ca payload => finalizeGetStep inp db account id ca payload
  | .finalizeInsert o ca f => finalizeInsertStep db o ca f
  | .finalizeSave o serial =>
    ⟨saveOrder db { o with status := 3, certSerial := serial },.done,[]⟩
  | .orderGet _ _ => ⟨db,.done,[]⟩
  | .accountOrders _ => ⟨db,.done,[]⟩
  | .done => ⟨db,.done,[]⟩

/-- A verifier goes on with its own challenge and order, or is done. -/
theorem verifyStep_thread (inp : Input) (db : Db) (stage : VerifyStage) (c : AcmeChallenge)
    (a : AcmeAuthz) (o : Option AcmeOrder) :
    (verifyStep inp db stage c a o).thread=.done ∨
      ∃ later b,(verifyStep inp db stage c a o).thread=.verify later c b o := by
  fun_cases verifyStep inp db stage c a o with
  | case11 =>
    -- the authorization is saved: the verifier goes on only for an order
    cases o with
    | none => exact Or.inl rfl
    | some order => exact Or.inr ⟨_,_,rfl⟩
  | _ => first | exact Or.inl rfl | exact Or.inr ⟨_,_,rfl⟩

/-- Only its last statement writes an order. -/
theorem verifyStep_orders (inp : Input) (db : Db) {stage : VerifyStage} (c : AcmeChallenge)
    (a : AcmeAuthz) (o : Option AcmeOrder) (h : stage≠.order) :
    (verifyStep inp db stage c a o).db.orders=db.orders := by
  fun_cases verifyStep inp db stage c a o <;> first | rfl | exact absurd rfl h

theorem verifyStep_spawned (inp : Input) (db : Db) (stage : VerifyStage) (c : AcmeChallenge)
    (a : AcmeAuthz) (o : Option AcmeOrder) : (verifyStep inp db stage c a o).spawned=[] := by
  fun_cases verifyStep inp db stage c a o <;> rfl

/-- new-order goes on with its own order, or is done. -/
theorem newOrderStep_thread (inp : Input) (db : Db) (stage : NewOrderStage) (o : AcmeOrder)
    (todo : List Identifier) (allValid : Bool) :
    (newOrderStep inp db stage o todo allValid).thread=.done ∨
      ∃ later left valid,(newOrderStep inp db stage o todo allValid).thread=
        .newOrder later o left valid := by
  fun_cases newOrderStep inp db stage o todo allValid <;>
    first | exact Or.inl rfl | exact Or.inr ⟨_,_,_,rfl⟩

theorem newOrderStep_spawned (inp : Input) (db : Db) (stage : NewOrderStage) (o : AcmeOrder)
    (todo : List Identifier) (allValid : Bool) :
    (newOrderStep inp db stage o todo allValid).spawned=[] := by
  fun_cases newOrderStep inp db stage o todo allValid <;> rfl

/-- new-order writes no order but its own, at its end. -/
theorem newOrderStep_getOrder (inp : Input) (db : Db) {stage : NewOrderStage} {o : AcmeOrder}
    {todo : List Identifier} {allValid : Bool} {id : String}
    (h : stage=.next → todo=[] → allValid=true → o.id≠id) :
    getOrder (newOrderStep inp db stage o todo allValid).db id=getOrder db id := by
  fun_cases newOrderStep inp db stage o todo allValid with
  | case1 hall => exact lookup_upsert_of_ne db.orders (h rfl rfl hall)
  | _ => rfl

theorem finalizeGetStep_cases (inp : Input) (db : Db) (account : AcmeAccount) (id ca : String)
    (payload : FinalizePayload) : finalizeGetStep inp db account id ca payload=⟨db,.done,[]⟩ ∨
      ∃ o f,finalizeGetStep inp db account id ca payload=⟨db,.finalizeInsert o ca f,[]⟩ := by
  simp only [finalizeGetStep]
  split
  · exact Or.inl rfl
  · split
    · exact Or.inl rfl
    · exact Or.inr ⟨_,_,rfl⟩

theorem finalizeInsertStep_cases (db : Db) (o : AcmeOrder) (ca : String) (f : Finalized) :
    finalizeInsertStep db o ca f=⟨db,.done,[]⟩ ∨ ∃ certs,finalizeInsertStep db o ca f=
      ⟨{ db with certs := certs },.finalizeSave o f.cert.serial,[]⟩ := by
  simp only [finalizeInsertStep]
  split
  · exact Or.inr ⟨_,rfl⟩
  · exact Or.inl rfl

/-- The next statement of the thread is a read, or there is none. -/
def Thread.reads : Thread → Bool
  | .challGet _ _ | .challAuthz _ _ | .challOrder _ _ _ | .challAnswer _ | .verifyGet _ => true
  | .finalizeGet _ _ _ _ | .orderGet _ _ | .accountOrders _ | .done => true
  | _ => false

/-- The thread holds no order and no authorization that it would write back as it read it. -/
def Thread.light : Thread → Bool
  | .newOrderSave _ _ _ | .newOrder _ _ _ _ | .verifyOrder _ _ | .verify _ _ _ _ => false
  | .finalizeSave _ _ => false
  | _ => true

theorem advance_of_reads (inp : Input) (db : Db) {t : Thread} (h : t.reads=true) :
    ∃ later,later.light=true ∧ advance inp db t=⟨db,later,[]⟩ := by
  cases t with
  | challGet account id =>
    rw [advance]
    cases getChallenge db id with
    | none => exact ⟨_,rfl,rfl⟩
    | some c => exact ⟨_,rfl,rfl⟩
  | challAuthz account c =>
    rw [advance]
    cases getAuthz db c.authzId with
    | none => exact ⟨_,rfl,rfl⟩
    | some a => exact ⟨_,rfl,rfl⟩
  | challOrder account c a =>
    rw [advance]
    refine ⟨_,?_,rfl⟩
    split_ifs
    · rfl
    · rfl
    · rfl
  | verifyGet id =>
    rw [advance]
    cases getChallenge db id with
    | none => exact ⟨_,rfl,rfl⟩
    | some c => exact ⟨_,rfl,rfl⟩
  | finalizeGet account id ca payload =>
    obtain hstep|⟨o,f,hstep⟩ := finalizeGetStep_cases inp db account id ca payload
    · exact ⟨_,rfl,hstep⟩
    · exact ⟨_,rfl,hstep⟩
  | challAnswer c => exact ⟨_,rfl,rfl⟩
  | orderGet account id => exact ⟨_,rfl,rfl⟩
  | accountOrders account => exact ⟨_,rfl,rfl⟩
  | done => exact ⟨_,rfl,rfl⟩
  | _ => cases h

/-- The only thread that is ever started is a verifier. -/
theorem mem_spawned {inp : Input} {db : Db} {t x : Thread} (h : x∈(advance inp db t).spawned) :
    ∃ id,x=.verifyGet id := by
  by_cases hr : t.reads=true
  · obtain ⟨later,_,hstep⟩ := advance_of_reads inp db hr
    rw [hstep] at h
    cases h
  · cases t with
    | challSave c => exact ⟨c.id,List.mem_singleton.mp h⟩
    | newOrder stage o todo allValid =>
      rw [advance,newOrderStep_spawned] at h
      cases h
    | verify stage c a o =>
      rw [advance,verifyStep_spawned] at h
      cases h
    | finalizeInsert o ca f =>
      obtain hstep|⟨certs,hstep⟩ := finalizeInsertStep_cases db o ca f
      · rw [advance,hstep] at h
        cases h
      · rw [advance,hstep] at h
        cases h
    | verifyAuthz c => cases h
    | verifyOrder c a => cases h
    | newOrderSave account ca idents => cases h
    | finalizeSave o serial => cases h
    | _ => exact absurd rfl hr

/-- A request whose JWS was accepted for this account. -/
inductive Request where
  | newOrder (ca : String) (idents : List Identifier)
  | challPost (id : String)
  | orderGet (id : String)
  | accountOrders
  | finalize (id ca : String) (payload : FinalizePayload)

def accept (inp : Input) (db : Db) (account : AcmeAccount) : Request → Thread
  | .newOrder ca idents =>
    if isDeviceOrder idents then .done
    else match checkNewOrder inp.server db.certs account ca idents with
      | .ok _ => .newOrderSave account ca idents
      | .error _ => .done
  | .challPost id => .challGet account id
  | .orderGet id => .orderGet account id
  | .accountOrders => .accountOrders account
  | .finalize id ca payload => .finalizeGet account id ca payload

/-- A request arrives, or one of the threads takes its next step. -/
inductive Action where
  | request (inp : Input) (account : AcmeAccount) (r : Request)
  | run (inp : Input) (i : Nat)

/-- `issued` is history: for each certificate inserted, the order it was inserted for. -/
structure State where
  db : Db
  threads : List Thread
  issued : List (String × String)

/-- An insert went through when the thread goes on to save its order. -/
def insertedFor : Thread → Thread → List (String × String)
  | .finalizeInsert o _ f,.finalizeSave _ _ => [(o.id,f.cert.serial)]
  | _,_ => []

def step (st : State) : Action → State
  | .request inp account r => { st with threads := st.threads++[accept inp st.db account r] }
  | .run inp i =>
    match st.threads[i]? with
    | none => st
    | some t =>
      let e := advance inp st.db t
      ⟨e.db,st.threads.set i e.thread++e.spawned,st.issued++insertedFor t e.thread⟩

/-- An input that supplies an id and a serial, with every probe answered. -/
def draw (id : String) : Input :=
  ⟨0,100,id,"",0,false,.ok (),tlsServer,⟨1000,id,.ok ()⟩,none⟩

end FastPki.Acme
