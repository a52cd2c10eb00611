import FastPki.Auth.Login
import FastPki.Certs.Inventory
import FastPki.Cmp.Identity
import FastPki.Crl.Generate
import FastPki.Framework.Decimal
import FastPki.Framework.Except
import FastPki.Framework.Hex
import FastPki.Framework.History
import FastPki.Framework.Rows
import FastPki.Framework.Utf8
import FastPki.Rbac.Gate

namespace FastPki.Cmp

open X509
open Certs (Inventory Row)
open Auth (lowerText)

/-- What `parse_cmp_request` reads for the callbacks. -/
structure RequestInfo extends CmpRequestInfo where
  revReason : Option Int
  implicitConfirm : Bool
  recipientCn : Octets

/-- A PKIMessage; its fields are `none` where `parse_cmp_request` does not get through it. -/
structure Message where
  transactionId : Option Octets
  info : Option RequestInfo

def kMaxTxidOctets : Nat := 64

/-- A transactionID that is missing, and one that is too long, is the empty one. -/
def cmpTxidHex (m : Message) : Octets :=
  match m.transactionId with
  | none => []
  | some d => if d.length > kMaxTxidOctets then [] else Hex.encode d

def slash : UInt8 := 0x2f

def confirmKey (txid : Octets) (certReqId : Int) : Octets := txid++slash::Decimal.text certReqId

/-- An open transaction: what its own OpenSSL context has been given, and when it was last met. -/
structure Txn where
  given : List Message
  touched : Int

/-- In nanoseconds of the steady clock. -/
def kTxnIdle : Int := 10*60*1000000000

def kMaxTxns : Nat := 512

abbrev Txns := List (Octets × Txn)

def reapTxns (txns : Txns) (now : Int) : Txns := txns.filter fun x => now-x.2.touched ≤ kTxnIdle

/-- A new transaction is refused where there are too many; no other one goes for it. -/
def openTxn (txns : Txns) (txid : Octets) (now : Int) : Option Txns :=
  match lookup Prod.fst txid txns with
  | some x => some (upsert Prod.fst (txid,{ x.2 with touched := now }) txns)
  | none =>
    if txns.length ≥ kMaxTxns then none else some (upsert Prod.fst (txid,⟨[],now⟩) txns)

def giveTxn (txns : Txns) (txid : Octets) (m : Message) : Txns :=
  match lookup Prod.fst txid txns with
  | some x => upsert Prod.fst (txid,{ x.2 with given := x.2.given++[m] }) txns
  | none => txns

/-- The certificate under the `cert_id` of the RA for a CA, where it is there with status 0 and
parses. -/
structure RaCert where
  cn : Octets
  notBefore : Int
  notAfter : Int
  certifiesRaKey : Bool

/-- `now` is in seconds; a certificate that ends this very second has expired. -/
def bindRaCert (caId : String) (stored : Option RaCert) (now : Int) : Option RaCert :=
  if caId = "" then none
  else match stored with
    | none => none
    | some ra =>
      if ra.notAfter ≤ now then none
      else if ra.notBefore > now then none
      else if !ra.certifiesRaKey then none
      else some ra

structure LoadedCa where
  id : String
  cn : Octets

/-- Empty for a recipient that may be asked here. -/
def recipientRefusal (ra : RaCert) (ca : LoadedCa) (got : Octets) : Octets :=
  if got = [] then
    octets "the request names no recipient (NULL-DN); this CMP endpoint serves '"++
      (if ra.cn = [] then ca.cn else ra.cn)++octets "' — set `recipient` in fastpki-cmp.cnf"
  else if got ≠ ra.cn ∧ got ≠ ca.cn then
    octets "recipient '"++got++octets "' is neither this RA ('"++ra.cn++
      octets "') nor its issuing CA ('"++ca.cn++octets "')"
  else []

/-- What the callbacks read of the request: all is reset for each, and stays so for one whose
fields could not be read. -/
structure Pending where
  txid : Octets
  revReason : Int
  implicitConfirm : Bool
  sender : CmpRequestInfo
  recipientRefusal : Octets
  activeInstanceId : String

def Pending.of (m : Message) (ra : RaCert) (ca : LoadedCa) : Pending :=
  match m.info with
  | none => ⟨cmpTxidHex m,0,false,⟨[],false,false,"",[]⟩,[],ca.id⟩
  | some i => ⟨cmpTxidHex m,i.revReason.getD 0,i.implicitConfirm,i.toCmpRequestInfo,
      Cmp.recipientRefusal ra ca i.recipientCn,ca.id⟩

/-- An enrolment that was authorized and signed. `reported` is whether the answer of the INSERT came
back. -/
structure Enrolment where
  row : Row
  reported : Bool

/-- What decides the rights of a caller: the tables of roles, and the groups of a name in the
directories. -/
structure Rights where
  reader : Rbac.RoleReader
  directoryGroups : Octets → List String

/-- `subject_holds` for `cert:revoke` at a CA. A statement with a name that is no UTF-8 throws, so
that such a name holds nothing. -/
def Rights.holdsRevoke (rights : Rights) (caller : Octets) (caId : String) : Bool :=
  (textOf (cString caller)).any fun user =>
    Rbac.Gate.subjectHolds rights.reader user "" "cert:revoke" caId (rights.directoryGroups caller)

/-- The callback that OpenSSL makes of a request, with what it meets. -/
inductive Call where
  /-- `enrolment` is `none` where a gate, the profile, the signature or the quota throws. -/
  | certRequest (certReqId : Int) (enrolment : Option Enrolment)
  | rr (serial : Option String) (rights : Rights) (fate : Fate)
  | certConf (certReqId : Int) (rejected : Bool) (fate : Fate)
  /-- A `genm`, and every message that OpenSSL refuses on its own. -/
  | other

/-- A certificate and what it was issued under. -/
structure Issued where
  txid : Octets
  certReqId : Int
  serial : String
  deriving DecidableEq

def Issued.key (i : Issued) : Octets := confirmKey i.txid i.certReqId

/-- The database, the open transactions, and the map from the key of a certificate that awaits its
confirmation to the serial; with the record of all that were enrolled and of all that were settled,
the newest first. -/
structure Server where
  certs : Inventory
  txns : Txns
  pendingConfirm : List Issued
  enrolled : List Issued
  settled : List Issued

/-- Status 2 awaits the client's confirmation; none will come where an implicit one was asked for. -/
def persistIssued (certs : Inventory) (p : Pending) (row : Row) : Option Inventory :=
  certs.insertCert
    { row with
      status := some (if p.implicitConfirm then 0 else 2)
      caInstanceId := some p.activeInstanceId }

def certRequestCb (s : Server) (p : Pending) (certReqId : Int) (enrolment : Option Enrolment) :
    Server :=
  if p.recipientRefusal ≠ [] then s
  else match enrolment with
    | none => s
    | some e =>
      match persistIssued s.certs p e.row with
      | none => s
      | some certs =>
        if !e.reported then { s with certs }
        else
          let issued := ⟨p.txid,certReqId,e.row.serial⟩
          { s with
            certs
            pendingConfirm := upsert Issued.key issued s.pendingConfirm
            enrolled := issued::s.enrolled }

/-- A statement that throws may have been carried out. -/
def settle (fate : Fate) (before after : Inventory) : Inventory :=
  match fate with
  | .ok => after
  | .throws applied => if applied then after else before

/-- The row as `cmp_identity` reads it. -/
def certRow (r : Row) : CertRow := ⟨r.cert,r.status.getD 0,octets r.owner⟩

/-- The row that may be revoked for this request. -/
def revocableRow (certs : Inventory) (p : Pending) (serial : Option String) (rights : Rights) :
    Option Row :=
  match serial with
  | none => none
  | some s =>
    let caller := cmpIdentity (fun t => .ok ((certs.getCert t).map certRow)) p.sender
    if p.sender.protectionPbm ∨ caller = [] then none
    else match certs.getCert (canonicalSerial s) with
      | none => none
      | some target =>
        if target.caInstanceId.getD "" ≠ p.activeInstanceId then none
        else if !rights.holdsRevoke caller p.activeInstanceId ∧ octets target.owner ≠ caller then none
        else if Crl.revocationReasonRefusal p.revReason ≠ "" then none
        else some target

def rrCb (s : Server) (p : Pending) (serial : Option String) (rights : Rights) (fate : Fate)
    (nowUnix : Int) : Server :=
  if p.recipientRefusal ≠ [] then s
  else match revocableRow s.certs p serial rights with
    | none => s
    | some r =>
      { s with certs := settle fate s.certs (s.certs.revokeCert r.serial p.revReason nowUnix).1 }

/-- The entry goes also where the database throws. -/
def certconfCb (s : Server) (p : Pending) (certReqId : Int) (rejected : Bool) (fate : Fate)
    (nowUnix : Int) : Server :=
  match lookup Issued.key (confirmKey p.txid certReqId) s.pendingConfirm with
  | none => s
  | some i =>
    let after :=
      if rejected then (s.certs.revokeCert i.serial 0 nowUnix).1
      else (s.certs.setCertStatus i.serial 0).1
    { s with
      certs := settle fate s.certs after
      pendingConfirm := remove Issued.key (confirmKey p.txid certReqId) s.pendingConfirm
      settled := ⟨p.txid,certReqId,i.serial⟩::s.settled }

def dispatch (s : Server) (p : Pending) (nowUnix : Int) : Call → Server
  | .certRequest certReqId enrolment => certRequestCb s p certReqId enrolment
  | .rr serial rights fate => rrCb s p serial rights fate nowUnix
  | .certConf certReqId rejected fate => certconfCb s p certReqId rejected fate nowUnix
  | .other => s

/-- The media type without its parameters, in any letter case. -/
def isPkixcmp (ct : Octets) : Bool :=
  let blank (c : UInt8) : Bool := c = 0x20 ∨ c = 0x09
  let bare := (ct.takeWhile (· ≠ 0x3b)).dropWhile blank
  lowerText ((bare.reverse.dropWhile blank).reverse) = octets "application/pkixcmp"

/-- A request and what the server finds for it: whether it holds an RA key, the CA of the route or
the status of the refusal, and the certificate of the RA. -/
structure Request where
  contentType : Octets
  body : Option Message
  instanceId : String
  raMode : Bool
  ca : Except Nat LoadedCa
  raCert : Option RaCert

/-- What stands before the lock, and the status of a refusal. -/
def readRequest (r : Request) : Except Nat Message :=
  if !isPkixcmp r.contentType then .error 415
  else if !r.raMode then .error 503
  else r.body.elim (.error 400) .ok

/-- The CA and the RA certificate that a request runs under. -/
def bindCa (r : Request) (nowUnix : Int) : Except Nat (LoadedCa × RaCert) := do
  refuseIf (r.instanceId = "") 404
  let ca ← r.ca
  (bindRaCert ca.id r.raCert nowUnix).elim (.error 503) fun ra => .ok (ca,ra)

/-- The status, and the server after the request. `now` is the steady clock. -/
def handleCmp (s : Server) (r : Request) (call : Call) (now nowUnix : Int) : Nat × Server :=
  match readRequest r with
  | .error code => (code,s)
  | .ok m =>
    let live := reapTxns s.txns now
    match openTxn live (cmpTxidHex m) now with
    | none => (503,{ s with txns := live })
    | some txns =>
      match bindCa r nowUnix with
      | .error code => (code,{ s with txns })
      | .ok (ca,ra) =>
        let s := { s with txns := giveTxn txns (cmpTxidHex m) m }
        (200,dispatch s (Pending.of m ra ca) nowUnix call)

inductive Act where
  | message (r : Request) (call : Call)
  /-- The other doors: each is one statement on the table. -/
  | insertCert (row : Row)
  | revokeCert (serial : String) (reason : Int)
  | releaseHold (serial : String)
  | markExpiredNow
  | supersede (serial : String)

structure Timed where
  act : Act
  now : Int
  nowUnix : Int

def step (s : Server) (a : Timed) : Server :=
  match a.act with
  | .message r call => (handleCmp s r call a.now a.nowUnix).2
  | .insertCert row => { s with certs := (s.certs.insertCert row).getD s.certs }
  | .revokeCert serial reason =>
    { s with certs := (s.certs.revokeCert serial reason a.nowUnix).1 }
  | .releaseHold serial => { s with certs := (s.certs.releaseHold serial a.nowUnix).1 }
  | .markExpiredNow => { s with certs := s.certs.markExpiredNow a.nowUnix }
  | .supersede serial => { s with certs := (s.certs.setCertStatus serial 3).1 }

def Server.start (certs : Inventory) : Server := ⟨certs,[],[],[],[]⟩

end FastPki.Cmp
