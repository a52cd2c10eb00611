import FastPki.Acme.Threads
import FastPki.Attest.Apple

namespace FastPki.Acme

open FastPki.X509 FastPki.Policy FastPki.Certs

/-- A row of `accounts`. `status` is 0 valid, 1 deactivated, 2 revoked. -/
structure AccountRow extends AcmeAccount where
  status : Int
  termsAgreed : Int
  jwkHash : String
  contacts : String
  eab : String
  deriving DecidableEq

/-- A row of `acme_device_tickets`; `orderId` is empty until an order has claimed the ticket. -/
structure TicketRow extends AcmeDeviceTicket where
  ticket : Octets
  caInstanceId : String
  expires : Int
  orderId : String
  expectedSerial : Octets
  deviceUdid : Octets
  deriving DecidableEq

/-- A row of `acme_device_serials`. -/
structure SerialRow where
  serial : Octets
  caInstanceId : String
  owner : String
  profile : String
  deriving DecidableEq

structure Tables where
  accounts : List AccountRow
  orders : List AcmeOrder
  authzs : List AcmeAuthz
  challenges : List AcmeChallenge
  certs : List StoredCert
  tickets : List TicketRow
  serials : List SerialRow

namespace Tables

/-- What the statements see that never look at the status of an account. -/
def db (tb : Tables) : Db :=
  ⟨tb.accounts.map (·.toAcmeAccount),tb.orders,tb.authzs,tb.challenges,tb.certs⟩

/-- None of those statements writes an account. -/
def put (tb : Tables) (db : Db) : Tables :=
  { tb with orders := db.orders, authzs := db.authzs, challenges := db.challenges, certs := db.certs }

def getAccountById (tb : Tables) (id : String) : Option AccountRow :=
  lookup (fun acc => acc.id) id tb.accounts

def getAccountByJwkHash (tb : Tables) (hash : String) : Option AccountRow :=
  tb.accounts.find? (·.jwkHash = hash)

def saveAccount (tb : Tables) (acc : AccountRow) : Tables :=
  { tb with accounts := upsert (fun acc => acc.id) acc tb.accounts }

def getDeviceTicket (tb : Tables) (ticket : Octets) : Option TicketRow :=
  tb.tickets.find? (·.ticket = ticket)

def getDeviceTicketByOrder (tb : Tables) (orderId : String) : Option TicketRow :=
  tb.tickets.find? (·.orderId = orderId)

def getDeviceSerial (tb : Tables) (serial : Octets) (ca : String) : Option SerialRow :=
  tb.serials.find? fun s => s.serial = serial ∧ s.caInstanceId = ca

def deviceTicketsOutstanding (tb : Tables) (now : Int) : Bool :=
  tb.tickets.any fun t => t.orderId = "" ∧ t.expires > now

/-- A ticket that the order may claim. -/
def claimable (t : TicketRow) (ticket : Octets) (ca : String) (now : Int) : Bool :=
  t.ticket = ticket ∧ t.caInstanceId = ca ∧ t.orderId = "" ∧ t.expires > now

def claimDeviceTicket (tb : Tables) (ticket : Octets) (ca orderId : String) (now : Int) :
    Option Tables :=
  let claim (t : TicketRow) := if claimable t ticket ca now then { t with orderId := orderId } else t
  if tb.tickets.any fun t => claimable t ticket ca now then
    some { tb with tickets := tb.tickets.map claim }
  else none

/-- A claim changes tickets only. -/
theorem claimDeviceTicket_eq_some {tb tb' : Tables} {ticket : Octets} {ca orderId : String} {now : Int}
    (h : tb.claimDeviceTicket ticket ca orderId now=some tb') :
    ∃ tickets,tb'={ tb with tickets := tickets } := by
  simp only [claimDeviceTicket] at h
  split at h
  · exact ⟨_,(Option.some.inj h).symm⟩
  · cases h

def recordDeviceAttestation (tb : Tables) (ticket : Octets) (serial udid : Octets)
    (spki : PublicKey) : Tables :=
  { tb with tickets := tb.tickets.map fun t => if t.ticket = ticket then
      { t with deviceSerial := serial, deviceUdid := udid, attestedSpki := some spki } else t }

end Tables

/-- What a verified attestation says about the device, with the key that its DER reads as. -/
structure AppleDevice extends Attest.AppleDevice where
  leafSpki : PublicKey
  deriving DecidableEq

/-- The configuration, and what is computed by code that reads no table: the RFC 7638 thumbprint
of a key, and the check of an attestation object against the token of its challenge. -/
structure Site where
  base : String
  posture : Attest.Posture
  thumbprint : String → Option String
  verifyApple : String → String → Except String AppleDevice

def urlFor (site : Site) (path : String) : String := site.base++path

/-- The attestation is for this challenge, the device is the one the order names, and its posture
is good enough. -/
def attestedDevice (site : Site) (attObj : String) (c : AcmeChallenge) (t : TicketRow) :
    Except String AppleDevice := do
  let dev ← site.verifyApple attObj c.token
  (Attest.checkDevice site.posture t.expectedSerial dev.toAppleDevice).mapError (·.message)
  return dev

/-- The inner JWS of a key change: the new key, the key that its signature verifies under, and its
payload. -/
structure InnerJws where
  url : String
  jwk : String
  signedBy : String
  account : String
  oldKey : Option String

/-- The new key with its thumbprint, where the inner JWS is accepted for this account. -/
def newKey (site : Site) (acc : AccountRow) (inner : InnerJws) : Option (String × String) :=
  if inner.url ≠ urlFor site "/key-change" ∨ inner.signedBy ≠ inner.jwk ∨
    inner.account ≠ urlFor site ("/account/"++acc.id) ∨ inner.oldKey ≠ some acc.jwk then none
  else (site.thumbprint inner.jwk).map (inner.jwk,·)

/-- The payload of new-account. `binding` is the kid and the text of an external account binding that
was verified, an error where it was refused, and none where there is none. -/
structure NewAccount where
  jwk : String
  onlyReturnExisting : Bool
  termsAgreed : Bool
  contact : String
  binding : Option (Except String (String × String))

/-- A POST by its route. `deactivate` is that the payload asks for the status "deactivated"; an
inner JWS that does not parse is none, and a missing attestation object is empty. -/
inductive Post where
  | account (id : String) (deactivate : Bool)
  | keyChange (inner : Option InnerJws)
  | authz (id : String) (deactivate : Bool)
  | chall (id : String) (attObj : String)
  | newAuthz (ident : Identifier)
  | other (r : Request)

/-- A handler between two database statements, with the copies it holds. -/
inductive Worker where
  | newAccountGet (n : NewAccount) (hash : String)
  | newAccountTickets (n : NewAccount) (hash : String)
  | newAccountSave (n : NewAccount) (hash kid eab : String)
  | parse (kid signedBy : String) (post : Post)
  | accountGet (id : String) (deactivate : Bool)
  | accountSave (acc : AccountRow)
  | keyChangeOther (acc : AccountRow) (jwk hash : String)
  | keyChangeSave (acc : AccountRow)
  | authzGet (account : AccountRow) (id : String) (deactivate : Bool)
  | authzSave (a : AcmeAuthz)
  | challGet (account : AccountRow) (id attObj : String)
  | challAuthz (account : AccountRow) (c : AcmeChallenge) (attObj : String)
  | challOwner (account : AccountRow) (c : AcmeChallenge) (a : AcmeAuthz) (attObj : String)
  | attestAuthz (c : AcmeChallenge) (attObj : String)
  | attestOrder (c : AcmeChallenge) (a : AcmeAuthz) (attObj : String)
  | attestTicket (c : AcmeChallenge) (a : AcmeAuthz) (o : AcmeOrder) (attObj : String)
  | attestRecord (c : AcmeChallenge) (a : AcmeAuthz) (o : AcmeOrder) (t : TicketRow)
    (dev : AppleDevice)
  | attestValid (c : AcmeChallenge) (a : AcmeAuthz) (o : AcmeOrder)
  | preAuthz (account : AccountRow) (ident : Identifier)
  | preChallenges (authzId : String) (types : List String)
  | deviceTicket (account : AccountRow) (ca : String) (ident : Identifier)
  | deviceSerial (account : AccountRow) (ca : String) (ident : Identifier)
  | deviceClaim (o : AcmeOrder) (ident : Identifier)
  | deviceCreate (o : AcmeOrder) (ident : Identifier) (t : TicketRow)
  | deviceSave (o : AcmeOrder) (ident : Identifier)
  | acme (t : Thread)

/-- The tables after the statement, where the handler goes on, and the verifier it starts. -/
structure Outcome where
  tables : Tables
  worker : Worker
  spawned : List Worker

def finished : Worker := .acme .done

def goOn (tb : Tables) (w : Worker) : Outcome := ⟨tb,w,[]⟩

/-- A device order names one device and nothing else. -/
def deviceOrder (account : AccountRow) (ca : String) : List Identifier → Worker
  | [ident] =>
    if ident.type = "permanent-identifier" then .deviceTicket account ca ident else finished
  | _ => finished

/-- The owner of the device is asked for, as the user of a bound account would be. -/
def ownerMayEnrol (inp : Input) (owner ca : String) : Bool :=
  Rbac.mayEnrol inp.server.rbac owner "" "acme:enrol" ca (inp.server.directoryGroups owner)

/-- The ticket itself, or a device of this serial: that is looked up next. -/
def deviceTicketStep (inp : Input) (tb : Tables) (account : AccountRow) (ca : String)
    (ident : Identifier) : Worker :=
  match tb.getDeviceTicket ident.value with
  | none => .deviceSerial account ca ident
  | some t =>
    if Tables.claimable t ident.value ca inp.now then
      if ownerMayEnrol inp t.owner ca then
        .deviceClaim ⟨inp.newId,0,min inp.orderExpires t.expires,[ident],"",account.id,ca⟩ ident
      else finished
    else .deviceSerial account ca ident

def deviceSerialStep (inp : Input) (tb : Tables) (account : AccountRow) (ca : String)
    (ident : Identifier) : Worker :=
  match tb.getDeviceSerial ident.value ca with
  | none => finished
  | some d =>
    if ownerMayEnrol inp d.owner ca then
      .deviceCreate ⟨inp.newId,0,inp.orderExpires,[ident],"",account.id,ca⟩ ident
        ⟨⟨d.owner,d.profile,[],none⟩,octets "serial:"++octets inp.token,ca,inp.orderExpires,
          inp.newId,d.serial,[]⟩
    else finished

/-- An account that does not exist yet needs a binding, or a device that could be proven. -/
def newAccountStep (tb : Tables) (n : NewAccount) (hash : String) : Worker :=
  if (tb.getAccountByJwkHash hash).isSome ∨ n.onlyReturnExisting then finished
  else match n.binding with
    | some (.ok (kid,eab)) => .newAccountSave n hash kid eab
    | some (.error _) => finished
    | none => .newAccountTickets n hash

/-- `parse_acme_post` has accepted the signature of this account. -/
def dispatch (site : Site) (inp : Input) (tb : Tables) (account : AccountRow) : Post → Worker
  | .account id deactivate => if account.id ≠ id then finished else .accountGet id deactivate
  | .keyChange inner =>
    ((inner.bind (newKey site account)).elim finished fun key =>
      .keyChangeOther account key.1 key.2)
  | .authz id deactivate => .authzGet account id deactivate
  | .chall id attObj => .challGet account id attObj
  | .newAuthz ident =>
    if inp.acmeNewAuthz ∧ ident.type = "dns" ∧ ident.value ≠ [] then .preAuthz account ident
    else finished
  | .other (.newOrder ca idents) =>
    if isDeviceOrder idents then deviceOrder account ca idents
    else .acme (accept inp tb.db account.toAcmeAccount (.newOrder ca idents))
  | .other r => .acme (accept inp tb.db account.toAcmeAccount r)

/-- A device attestation after its two reads. One that was decided before is not verified again. -/
def attestOrderStep (tb : Tables) (c : AcmeChallenge) (a : AcmeAuthz) (attObj : String) : Worker :=
  if c.status ≠ 0 then finished
  else match (if a.orderId = "" then none else getOrder tb.db a.orderId) with
    | none => finished
    | some o => if attObj = "" then finished else .attestTicket c a o attObj

def attestTicketStep (site : Site) (tb : Tables) (c : AcmeChallenge) (a : AcmeAuthz) (o : AcmeOrder)
    (attObj : String) : Worker :=
  match tb.getDeviceTicketByOrder o.id with
  | none => finished
  | some t =>
    match attestedDevice site attObj c t with
    | .ok dev => .attestRecord c a o t dev
    | .error why => .acme (.verify (.invalid ("badAttestationStatement: "++why)) c a (some o))

/-- One database statement of one handler, with what it computes up to the next one. -/
def Worker.advance (site : Site) (inp : Input) (tb : Tables) : Worker → Outcome
  | .parse kid signedBy post =>
    match tb.getAccountById kid with
    | none => goOn tb finished
    | some account =>
      -- the signature is checked under the stored key, and the account must be active
      if account.jwk ≠ signedBy ∨ account.status = 1 then goOn tb finished
      else goOn tb (dispatch site inp tb account post)
  | .accountGet id deactivate =>
    match tb.getAccountById id with
    | none => goOn tb finished
    | some acc => goOn tb (if deactivate then .accountSave acc else finished)
  | .accountSave acc => goOn (tb.saveAccount { acc with status := 1 }) finished
  | .keyChangeOther acc jwk hash =>
    if (tb.getAccountByJwkHash hash).any (·.id ≠ acc.id) then goOn tb finished
    else goOn tb (.keyChangeSave { acc with jwk := jwk, jwkHash := hash })
  | .keyChangeSave acc => goOn (tb.saveAccount acc) finished
  | .authzGet account id deactivate =>
    match getAuthz tb.db id with
    | none => goOn tb finished
    | some a =>
      if a.accountId ≠ account.id then goOn tb finished
      else goOn tb (if deactivate then .authzSave a else finished)
  | .authzSave a => goOn (tb.put (saveAuthz tb.db { a with status := -2 })) finished
  | .challGet account id attObj =>
    goOn tb ((getChallenge tb.db id).elim finished (.challAuthz account · attObj))
  | .challAuthz account c attObj =>
    goOn tb ((getAuthz tb.db c.authzId).elim finished (.challOwner account c · attObj))
  | .challOwner account c a attObj =>
    let owner := challengeOwner tb.db a
    goOn tb (if owner = "" ∨ owner ≠ account.id then finished
      else if c.type = "device-attest-01" then .attestAuthz c attObj
      else if c.status = 0 then .acme (.challSave c) else .acme (.challAnswer c))
  | .attestAuthz c attObj =>
    goOn tb ((getAuthz tb.db c.authzId).elim finished (.attestOrder c · attObj))
  | .attestOrder c a attObj => goOn tb (attestOrderStep tb c a attObj)
  | .attestTicket c a o attObj => goOn tb (attestTicketStep site tb c a o attObj)
  | .attestRecord c a o t dev =>
    goOn (tb.recordDeviceAttestation t.ticket dev.serial dev.udid dev.leafSpki) (.attestValid c a o)
  | .attestValid c a o =>
    -- from here on the statements are those of the verifier
    goOn (tb.put (saveChallenge tb.db { c with status := 2, validated := inp.now, error := "" }))
      (.acme (.verify .authz c a (some o)))
  | .newAccountGet n hash => goOn tb (newAccountStep tb n hash)
  | .newAccountTickets n hash =>
    goOn tb (if tb.deviceTicketsOutstanding inp.now ∨ tb.serials ≠ [] then
      .newAccountSave n hash "" "" else finished)
  | .newAccountSave n hash kid eab =>
    goOn (tb.saveAccount ⟨⟨inp.newId,kid,n.jwk⟩,0,if n.termsAgreed then 1 else 0,hash,n.contact,eab⟩)
      finished
  | .preAuthz account ident =>
    goOn (tb.put (saveAuthz tb.db
      ⟨inp.newId,baseIdent ident,0,inp.orderExpires,isWildcard ident,"",account.id⟩))
      (.preChallenges inp.newId (challengeTypes ident))
  | .preChallenges _ [] => goOn tb finished
  | .preChallenges authzId (type::types) =>
    goOn (tb.put (saveChallenge tb.db ⟨inp.newId,type,0,inp.token,"",0,authzId⟩))
      (.preChallenges authzId types)
  | .deviceTicket account ca ident => goOn tb (deviceTicketStep inp tb account ca ident)
  | .deviceSerial account ca ident => goOn tb (deviceSerialStep inp tb account ca ident)
  | .deviceClaim o ident =>
    -- another order may have claimed the ticket since it was read
    match tb.claimDeviceTicket ident.value o.caInstanceId o.id inp.now with
    | none => goOn tb finished
    | some tb' => goOn tb' (.deviceSave o ident)
  | .deviceCreate o ident t => goOn { tb with tickets := tb.tickets++[t] } (.deviceSave o ident)
  | .deviceSave o ident =>
    goOn (tb.put (saveOrder tb.db o)) (.acme (.newOrder (.make ident) o [] false))
  | .acme t =>
    let e := Acme.advance inp tb.db t
    ⟨tb.put e.db,.acme e.thread,e.spawned.map .acme⟩

section Challenge

/-- The thread that the handler of a challenge is where nothing is attested. One that goes on to the
attestation is done as a thread. -/
def Worker.thread : Worker → Option Thread
  | .challGet account id _ => some (.challGet account.toAcmeAccount id)
  | .challAuthz account c _ => some (.challAuthz account.toAcmeAccount c)
  | .challOwner account c a _ => some (.challOrder account.toAcmeAccount c a)
  | .attestAuthz _ _ => some .done
  | .acme t => some t
  | _ => none

theorem thread_dispatch_chall (site : Site) (inp : Input) (tb : Tables) (account : AccountRow)
    (id attObj : String) : (dispatch site inp tb account (.chall id attObj)).thread=
      some (accept inp tb.db account.toAcmeAccount (.challPost id)) := rfl

/-- The handler takes the steps of its thread, with the same writes and the same verifiers, up to the
attestation. -/
theorem advance_thread (site : Site) (inp : Input) (tb : Tables) {w : Worker} {t : Thread}
    (h : w.thread=some t) (hplain : ∀ c attObj,w≠.attestAuthz c attObj) :
    (w.advance site inp tb).tables=tb.put (Acme.advance inp tb.db t).db ∧
      (w.advance site inp tb).worker.thread=some (Acme.advance inp tb.db t).thread ∧
      (w.advance site inp tb).spawned=(Acme.advance inp tb.db t).spawned.map .acme := by
  cases w with
  | challGet account id attObj =>
    obtain rfl := Option.some.inj h
    refine ⟨rfl,?_,rfl⟩
    show ((getChallenge tb.db id).elim _ _ : Worker).thread=some ((getChallenge tb.db id).elim _ _)
    cases getChallenge tb.db id with
    | none => rfl
    | some c => rfl
  | challAuthz account c attObj =>
    obtain rfl := Option.some.inj h
    refine ⟨rfl,?_,rfl⟩
    show ((getAuthz tb.db c.authzId).elim _ _ : Worker).thread=
      some ((getAuthz tb.db c.authzId).elim _ _)
    cases getAuthz tb.db c.authzId with
    | none => rfl
    | some a => rfl
  | challOwner account c a attObj =>
    obtain rfl := Option.some.inj h
    refine ⟨rfl,?_,rfl⟩
    simp only [Worker.advance,Acme.advance,goOn]
    by_cases howner : challengeOwner tb.db a="" ∨ challengeOwner tb.db a≠account.id
    · have hdone : challengeOwner tb.db a="" ∨ challengeOwner tb.db a≠account.id ∨
          c.type="device-attest-01" := by tauto
      rw [if_pos howner,if_pos hdone]
      rfl
    · -- the owner answers: only a device goes another way
      by_cases hdevice : c.type="device-attest-01"
      · rw [if_neg howner,if_pos hdevice,if_pos (Or.inr (Or.inr hdevice))]
        rfl
      · have hgoes : ¬(challengeOwner tb.db a="" ∨ challengeOwner tb.db a≠account.id ∨
            c.type="device-attest-01") := by tauto
        rw [if_neg howner,if_neg hdevice,if_neg hgoes]
        split_ifs
        · rfl
        · rfl
  | acme t' =>
    obtain rfl := Option.some.inj h
    exact ⟨rfl,rfl,rfl⟩
  | attestAuthz c attObj => exact absurd rfl (hplain c attObj)
  | _ => cases h

end Challenge

structure System where
  tables : Tables
  workers : List Worker

/-- A POST arrives, one that creates an account or one of an account, or one of the handlers and
verifiers takes its next step. -/
inductive Event where
  | newAccount (n : NewAccount)
  | post (kid signedBy : String) (p : Post)
  | run (inp : Input) (i : Nat)

/-- The JWS of new-account carries its key, which its thumbprint is taken of. -/
def acceptNew (site : Site) (n : NewAccount) : Worker :=
  (site.thumbprint n.jwk).elim finished (.newAccountGet n)

def System.step (site : Site) (st : System) : Event → System
  | .newAccount n => { st with workers := st.workers++[acceptNew site n] }
  | .post kid signedBy p => { st with workers := st.workers++[.parse kid signedBy p] }
  | .run inp i =>
    match st.workers[i]? with
    | none => st
    | some w =>
      let e := w.advance site inp st.tables
      ⟨e.tables,st.workers.set i e.worker++e.spawned⟩

/-- A site without attestation, where every key has itself as thumbprint. -/
def plainSite : Site := ⟨"acme",⟨[],false⟩,fun jwk => some jwk,fun _ _ => .error "no attestation"⟩

def aliceRow : AccountRow := ⟨⟨"1","alice","k1"⟩,0,1,"k1","",""⟩

end FastPki.Acme
