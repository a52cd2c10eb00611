import FastPki.Ca.Instance
import FastPki.Framework.Except

namespace FastPki.Ca
open X509 Certs

structure CaRenewRequest where
  caId : String
  sameKey : Bool
  newKeyRef : String
  keyAlgo : String
  curve : String
  replicable : Bool
  md : String

structure CaRenewError where
  status : Nat
  what : String
  csrRoute : Bool
  parent : String
  deriving DecidableEq

/-- How a renewal is refused, or what else is thrown. -/
inductive Failure where
  | refused (e : CaRenewError)
  | exception
  deriving DecidableEq

structure CaRenewResult where
  serial : String
  bridgeSerial : String
  crossSerial : String
  keyRef : String
  notAfter : Int
  signer : String
  sameKey : Bool
  deriving DecidableEq

/-- A certificate that has been signed, and the number that the sequence gives to its row. -/
structure Signed where
  serial : String
  notBefore : Int
  notAfter : Int
  der : Octets
  sHash : Octets
  iHash : Octets
  insSeq : Int

/-- What a renewal meets outside the database: the tokens with their objects `κ`, OpenSSL, the clock
and how each call ends. `answers` tells the objects that a key reference names. -/
structure World (κ : Type*) where
  now : Int
  d2i : Octets → Option X509Cert
  answers : String → κ → Bool
  /-- Why the key of this reference cannot sign with this certificate. -/
  keyError : String → Octets → Option String
  keygenRefusal : String → String → String
  replicableRefusal : String → String → String
  weakDigest : String → Bool
  allowWeakSignatureDigest : Bool
  /-- Whether a database call throws before the guard is armed. -/
  readThrows : Bool
  /-- Whether the look for a key at the new handle throws. -/
  lookThrows : Bool
  minted : κ
  renewed : Signed
  bridge : Signed
  cross : Signed
  /-- The generation of the key, all the signing, then each statement that stores. -/
  calls : Nat → Fate
  destroyThrows : Bool

/-- The database and the objects in the tokens. -/
structure Site (κ : Type*) where
  db : Inventory
  keys : List κ

/-- What a renewal leaves, with the token objects it has destroyed. -/
structure Renewal (κ : Type*) extends Site κ where
  destroyed : List κ
  result : Except Failure CaRenewResult

def caUnavailableReason (rc : ResolvedCa) : String :=
  if rc.onHold then "CA certificate is on hold"
  else if rc.revoked then "CA certificate is revoked"
  else if rc.expired then "CA certificate has expired"
  else if !rc.hasLocalKey then "no signing key for this CA on this node"
  else "CA instance disabled"

/-- The `parent_id` of `kCaSelect`: the newest row of another CA whose subject is the issuer of some
generation of this one. -/
def parentId (db : Inventory) (id : String) : String :=
  (((db.rows.filter fun p => p.isCa ∧ p.id.isSome ∧ p.id ≠ some id ∧
    p.sHash.any fun h => (generations db id).any fun g => g.iHash = some h).argmax rank).bind
      Row.id).getD ""

def hasScheme (ref : String) : Bool := "pkcs11:".toList.isPrefixOf ref.toList

section Renew

variable {κ : Type*} (w : World κ)

/-- `CaMaterialCache::get`: why the CA cannot sign, with its status. -/
def materialError (db : Inventory) (id : String) : Option (Nat × String) :=
  let rc := resolveCaInstance w.d2i w.now db id
  if !rc.found then some (404,"unknown CA instance")
  else if !rc.active then some (503,caUnavailableReason rc)
  else (w.keyError rc.key rc.certDer).map fun e => (500,"CA material unavailable: "++e)

def checkMaterial (db : Inventory) (id : String) : Except CaRenewError Unit :=
  match materialError w db id with
  | some (code,e) => .error ⟨code,e,false,""⟩
  | none => .ok ()

/-- A sub CA's renewal is signed by its parent, so the parent has to be usable here. -/
def checkParent (db : Inventory) (parent : String) : Except CaRenewError Unit :=
  let prc := resolveCaInstance w.d2i w.now db parent
  if parent = "" then .ok ()
  else if !prc.found ∨ !prc.hasLocalKey then .error ⟨409,"this CA's parent '"++parent++
    "' has no signing key on this node, so the renewal has to be signed where it is: create a CSR " ++
    "for this CA here (fastpki-ca csr, or CAs -> Create CSR), sign it on the node holding the " ++
    "parent's key (fastpki-ca sign-csr, or Request from a CSR), and import the certificate here " ++
    "under this CA's id (fastpki-ca add, or Import an existing CA) — it becomes this CA's next " ++
    "certificate.",true,parent⟩
  else if !prc.active then .error ⟨409,"the parent CA '"++parent++"' cannot sign: "++
    caUnavailableReason prc++". A renewal is signed by the parent, so enable it for the renewal " ++
    "(fastpki-ca enable "++parent++") and disable it again afterwards.",false,parent⟩
  else match materialError w db parent with
    | some (code,e) => .error ⟨code,"could not load the parent CA '"++parent++"': "++e,false,""⟩
    | none => .ok ()

/-- Whether a key is found at the handle. What the look throws is swallowed. -/
def taken (keys : List κ) (ref : String) : Bool := !w.lookThrows && keys.any (w.answers ref)

def checkNewKey (keys : List κ) (req : CaRenewRequest) : Except CaRenewError Unit :=
  let keyAlgo := if req.keyAlgo = "" then "rsa" else req.keyAlgo
  let why := w.keygenRefusal req.newKeyRef keyAlgo
  let rwhy := w.replicableRefusal keyAlgo req.curve
  if req.sameKey then .ok ()
  else if why ≠ "" then .error ⟨400,why,false,""⟩
  else if req.replicable ∧ rwhy ≠ "" then .error ⟨400,rwhy,false,""⟩
  else if taken w keys req.newKeyRef then .error ⟨409,"a key already exists at that handle. A rekey " ++
    "generates a new key and never replaces one — choose a key name nothing uses.",false,""⟩
  else .ok ()

/-- Every refusal, before anything is made: the CA and its parent. -/
def preflight (site : Site κ) (req : CaRenewRequest) : Except CaRenewError (CaInstance × String) := do
  refuseIf (req.caId = "") ⟨400,"renew: no CA id",false,""⟩
  let ci ← requireSome (getCaInstance w.now site.db req.caId)
    ⟨404,"no such CA instance: "++req.caId,false,""⟩
  refuseIf (!req.sameKey ∧ !hasScheme req.newKeyRef) ⟨400,"a new key needs a pkcs11: handle naming " ++
    "where it goes — a CA private key lives in a token (or renew with the current key)",false,""⟩
  refuseIf (!req.sameKey ∧ req.newKeyRef = ci.signingCaKey) ⟨400,"that is the CA's current key. A " ++
    "new key must be a different object — to renew with the current one, name no new key " ++
    "(samekey=true over the API)",false,""⟩
  checkMaterial w site.db req.caId
  let parent := parentId site.db req.caId
  checkParent w site.db parent
  checkNewKey w site.keys req
  let md := if req.md = "" then "sha256" else req.md
  refuseIf (!w.allowWeakSignatureDigest ∧ w.weakDigest md) ⟨400,"signature digest '"++md++
    "' is below the signature floor and is refused",false,""⟩
  .ok (ci,parent)

/-- The row of a new certificate. Only an id row carries the key it certifies. -/
def newRow (id rowKey : String) (c : Signed) (asCaRow : Bool) : Row where
  status := some 0
  revocationReason := some 0
  revocationDate := some 0
  notAfter := some c.notAfter
  serial := c.serial
  notBefore := some c.notBefore
  owner := ""
  cert := c.der
  caInstanceId := some id
  sHash := some c.sHash
  iHash := some c.iHash
  isCa := (w.d2i c.der).any X509Cert.checkCa
  id := if asCaRow then some id else none
  caEnabled := none
  privateKey := if asCaRow then rowKey else ""
  certId := none
  insSeq := some c.insSeq

end Renew

/-- `add_ca_instance`, which throws where there is no such CA certificate. -/
def addCaInstance (db : Inventory) (ca : CaInstance) : Option Inventory :=
  let hit (r : Row) : Bool := r.serial = ca.serial ∧ r.isCa
  if ca.serial = "" ∨ !db.rows.any hit then none
  else some (db.update hit (fun r => { r with id := some ca.id
                                              caInstanceId := some ca.id
                                              caEnabled := some (ca.status ≠ "disabled")
                                              privateKey := ca.signingCaKey }) fun _ => rfl)

/-- Each row is inserted, and stamped where it is an id row, from the call `i` on; whether none of
the calls threw. -/
def storeAll (ci : CaInstance) (calls : Nat → Fate) (i : Nat) (db : Inventory) :
    List Row → Inventory × Bool
  | [] => (db,true)
  | r::rs =>
    match db.insertCert r,calls i with
    | none,_ => (db,false)
    | some stored,.throws applied => (if applied then stored else db,false)
    | some stored,.ok =>
      if r.id = none then storeAll ci calls (i+1) stored rs
      else match addCaInstance stored { ci with serial := r.serial },calls (i+1) with
        | none,_ => (stored,false)
        | some stamped,.throws applied => (if applied then stamped else stored,false)
        | some stamped,.ok => storeAll ci calls (i+2) stamped rs

section Renew

variable {κ : Type*} [DecidableEq κ] (w : World κ)

/-- The new rows in the order they are stored, the renewed certificate last. -/
def newRows (req : CaRenewRequest) (rowKey parent : String) : List Row :=
  (if parent = "" ∧ !req.sameKey then
    [newRow w req.caId rowKey w.cross false,newRow w req.caId rowKey w.bridge true] else [])++
  [newRow w req.caId rowKey w.renewed true]

/-- Whether the new key, where there is one, and every signature are made. -/
def prepared (req : CaRenewRequest) : Bool := (req.sameKey ∨ w.calls 0 = .ok) ∧ w.calls 1 = .ok

def mintedKeys (req : CaRenewRequest) (keys : List κ) : List κ :=
  if req.sameKey ∨ w.calls 0 = .throws false then keys else keys++[w.minted]

/-- What `~MintedKey` destroys: whatever answers at the handle. -/
def guardDestroys (req : CaRenewRequest) (keys : List κ) : List κ :=
  if req.sameKey ∨ req.newKeyRef = "" ∨ w.destroyThrows then [] else keys.filter (w.answers req.newKeyRef)

def rowKeyOf (req : CaRenewRequest) (ci : CaInstance) : String :=
  if req.sameKey then ci.signingCaKey else req.newKeyRef

/-- Everything that is stored, up to the first call that throws; whether none did. -/
def stores (db : Inventory) (req : CaRenewRequest) (ci : CaInstance) (parent : String) :
    Inventory × Bool :=
  if prepared w req then
    storeAll { ci with signingCaKey := rowKeyOf req ci } w.calls 2 db
      (newRows w req (rowKeyOf req ci) parent)
  else (db,false)

def renewCa (site : Site κ) (req : CaRenewRequest) : Renewal κ :=
  if req.caId ≠ "" ∧ w.readThrows then ⟨site,[],.error .exception⟩
  else match preflight w site req with
    | .error e => ⟨site,[],.error (.refused e)⟩
    | .ok (ci,parent) =>
      let keys := mintedKeys w req site.keys
      let (db,done) := stores w site.db req ci parent
      let rekeyedRoot : Bool := parent = "" ∧ !req.sameKey
      if done then ⟨⟨db,keys⟩,[],.ok { serial := w.renewed.serial
                                       bridgeSerial := if rekeyedRoot then w.bridge.serial else ""
                                       crossSerial := if rekeyedRoot then w.cross.serial else ""
                                       keyRef := rowKeyOf req ci
                                       notAfter := w.renewed.notAfter
                                       signer := if parent = "" then req.caId else parent
                                       sameKey := req.sameKey }⟩
      else
        let gone := guardDestroys w req keys
        ⟨⟨db,keys.filter fun k => !gone.any (· = k)⟩,gone,.error .exception⟩

end Renew

/-- The certificate and the key reference that the CA signs with at this time. -/
def selected (d2i : Octets → Option X509Cert) (now : Int) (db : Inventory) (id : String) :
    Octets × String :=
  ((resolveCaInstance d2i now db id).certDer,(resolveCaInstance d2i now db id).key)

/-- The new rows whose INSERT takes effect before the first call that throws. -/
def written (calls : Nat → Fate) (i : Nat) (serials : List String) : List Row → List Row
  | [] => []
  | r::rs =>
    if serials.any (· = r.serial) then []
    else match calls i with
      | .throws applied => if applied then [r] else []
      | .ok =>
        if r.id = none then r::written calls (i+1) (serials++[r.serial]) rs
        else match calls (i+1) with
          | .throws _ => [r]
          | .ok => r::written calls (i+2) (serials++[r.serial]) rs

/-- A valid generation of the CA sorts before this row and lasts as long. -/
def Covered (db : Inventory) (id : String) (row : Row) : Prop :=
  ∃ g∈generations db id,g.status=some 0 ∧ rank row < rank g ∧
    ∃ n,g.notAfter=some n ∧ ∀ m,row.notAfter=some m → m≤n

theorem argmax_append_of_lt {α β : Type*} [LinearOrder β] {f : α → β} {l m : List α}
    (h : ∀ x∈m,∃ y∈l,f x<f y) : (l++m).argmax f=l.argmax f := by
  induction m using List.reverseRecOn with
  | nil => rw [List.append_nil]
  | append_singleton m x ih =>
    obtain ⟨y,hy,hxy⟩ := h x (by simp)
    rw [← List.append_assoc,List.argmax_concat,ih fun x hx => h x (by simp [hx])]
    cases hmax : l.argmax f with
    | none =>
      rw [List.argmax_eq_none.mp hmax] at hy
      cases hy
    | some c =>
      have hyc := List.le_of_mem_argmax hy hmax
      exact if_neg (hxy.trans_le hyc).not_gt

theorem selected_congr {d2i : Octets → Option X509Cert} {now : Int} {db db' : Inventory} {id : String}
    (hci : getCaInstance now db' id=getCaInstance now db id)
    (hder : getCaCertDer now db' id=getCaCertDer now db id) :
    selected d2i now db' id=selected d2i now db id := by
  simp only [selected,resolveCaInstance,hci,hder]
  cases getCaInstance now db id <;> rfl

theorem certDer_of_newest {d2i : Octets → Option X509Cert} {now : Int} {db : Inventory} {id : String}
    {row : Row} (h : getCaCertDer now db id=some row) (hcert : row.cert≠[])
    (hparse : (d2i row.cert).any X509Cert.checkCa=true) :
    (resolveCaInstance d2i now db id).certDer=row.cert := by
  have hmem := (List.mem_filter.mp (List.argmax_mem h)).1
  cases hci : getCaInstance now db id with
  | none =>
    rw [getCaInstance,Option.map_eq_none_iff,List.argmax_eq_none] at hci
    rw [hci] at hmem
    cases hmem
  | some ci => simp [resolveCaInstance,hci,h,Option.filter,hcert,hparse]

/-- A valid certificate that the table does not hold yet. -/
structure Added (d2i : Octets → Option X509Cert) (db : Inventory) (row : Row) : Prop where
  isCa : row.isCa=true
  valid : row.status=some 0
  ends : ∃ n,row.notAfter=some n
  cert : row.cert≠[]
  parses : (d2i row.cert).any X509Cert.checkCa=true
  fresh : ∀ r∈db.rows,r.cert≠row.cert

section Append

variable {d2i : Octets → Option X509Cert} {db db' : Inventory} {id : String} {extra : List Row}
variable (hrows : db'.rows=db.rows++extra)
include hrows

theorem generations_append :
    generations db' id=generations db id++extra.filter fun r => r.isCa ∧ r.id=some id := by
  rw [generations,hrows,List.filter_append,generations]

/-- In the last second of its life an added row is chosen, or an older generation that covers it. -/
theorem covered_of_selected (hadd : ∀ r∈extra,r.id=some id → Added d2i db r)
    (h : ∀ now,selected d2i now db' id=selected d2i now db id) {r : Row} (hr : r∈extra)
    (hid : r.id=some id) : Covered db id r := by
  have hr' := hadd r hr hid
  obtain ⟨n,hn⟩ := hr'.ends
  have hlive : live (n-1) r=true := by
    simp only [live,hr'.valid,hn,Option.any_some,decide_eq_true_eq,true_and]
    omega
  have hown : r∈generations db' id := mem_generations.mpr ⟨by simp [hrows,hr],hr'.isCa,hid⟩
  have hserved : r∈(generations db' id).filter (live (n-1)) := List.mem_filter.mpr ⟨hown,hlive⟩
  obtain ⟨top,htop⟩ : ∃ top,getCaCertDer (n-1) db' id=some top := by
    cases hmax : getCaCertDer (n-1) db' id with
    | none =>
      rw [getCaCertDer,List.argmax_eq_none] at hmax
      rw [hmax] at hserved
      cases hserved
    | some top => exact ⟨top,rfl⟩
  have hle : rank r ≤ rank top := List.le_of_mem_argmax hserved htop
  obtain ⟨hgen,htoplive⟩ := List.mem_filter.mp (List.argmax_mem htop)
  rw [generations_append hrows] at hgen
  obtain hold|hnew := List.mem_append.mp hgen
  · have hmem := (mem_generations.mp hold).1
    have hne : rank r≠rank top := by
      intro hsame
      have hboth : r=top := db'.eq_of_key (by simp [hrows,hr]) (by simp [hrows,hmem]) (rankOf_serial hsame)
      exact hr'.fresh top hmem (by rw [hboth])
    simp only [live,decide_eq_true_eq,Option.any_eq_true] at htoplive
    obtain ⟨hvalid,m,hm,hlast⟩ := htoplive
    refine ⟨top,hold,hvalid,lt_of_le_of_ne hle hne,m,hm,fun k hk => ?_⟩
    rw [hn] at hk
    have hkn := Option.some.inj hk
    omega
  · -- the certificate that is chosen now was not there before
    simp only [List.mem_filter,decide_eq_true_eq] at hnew
    have htop' := hadd top hnew.1 hnew.2.2
    have hcert := congrArg Prod.fst (h (n-1))
    simp only [selected] at hcert
    rw [certDer_of_newest htop htop'.cert htop'.parses] at hcert
    obtain hnil|⟨g,hg,hgcert⟩ := resolveCaInstance_row (Or.inl hcert)
    · exact absurd hnil htop'.cert
    · exact absurd hgcert (htop'.fresh g (mem_generations.mp hg).1)

theorem selected_of_covered (h : ∀ r∈extra,r.id=some id → Covered db id r) (now : Int) :
    selected d2i now db' id=selected d2i now db id := by
  have hcov : ∀ x∈extra.filter (fun r => r.isCa ∧ r.id=some id),Covered db id x := by
    intro x hx
    simp only [List.mem_filter,decide_eq_true_eq] at hx
    exact h x hx.1 hx.2.2
  apply selected_congr
  · rw [getCaInstance,generations_append hrows,argmax_append_of_lt,getCaInstance]
    intro x hx
    obtain ⟨g,hg,_,hlt,_⟩ := hcov x hx
    exact ⟨g,hg,hlt⟩
  · rw [getCaCertDer,generations_append hrows,List.filter_append,argmax_append_of_lt,getCaCertDer]
    intro x hx
    obtain ⟨hx,hxlive⟩ := List.mem_filter.mp hx
    obtain ⟨g,hg,hvalid,hlt,n,hn,hlast⟩ := hcov x hx
    simp only [live,decide_eq_true_eq,Option.any_eq_true] at hxlive
    obtain ⟨_,m,hm,hnow⟩ := hxlive
    have hmn := hlast m hm
    refine ⟨g,List.mem_filter.mpr ⟨hg,?_⟩,hlt⟩
    simp only [live,hvalid,hn,Option.any_some,decide_eq_true_eq,true_and]
    omega

/-- Certificates added under the id of the CA leave its choice as it is, at every time, exactly when
each is covered by a generation that was there. -/
theorem selected_append_iff (hadd : ∀ r∈extra,r.id=some id → Added d2i db r) :
    (∀ now,selected d2i now db' id=selected d2i now db id) ↔
      ∀ r∈extra,r.id=some id → Covered db id r := by
  constructor
  · intro h r hr hid
    exact covered_of_selected hrows hadd h hr hid
  · intro h
    exact selected_of_covered hrows h

end Append

/-- The row as it was before the stamp. -/
def unstamped (r : Row) : Row := { r with caEnabled := none }

/-- A new row that the stamp finds, and on which it changes nothing but `ca_enabled`. -/
structure Storable (ci : CaInstance) (r : Row) : Prop where
  isCa : r.isCa=true
  serial : r.serial≠""
  plain : unstamped r=r
  own : r.id≠none → r.id=some ci.id ∧ r.caInstanceId=some ci.id ∧ r.privateKey=ci.signingCaKey

theorem addCaInstance_last {ci : CaInstance} {db stored : Inventory} {r : Row}
    (hr : Storable ci r) (hid : r.id≠none) (hins : db.insertCert r=some stored) :
    ∃ stamped,addCaInstance stored { ci with serial := r.serial }=some stamped ∧
      ∃ r',unstamped r'=r ∧ stamped.rows=db.rows++[r'] := by
  obtain ⟨hfree,hrows⟩ := Keyed.insert_eq_some hins
  obtain ⟨hrid,hinst,hkey⟩ := hr.own hid
  have hhit : stored.rows.any (fun x => decide (x.serial=r.serial ∧ x.isCa=true))=true := by
    rw [List.any_eq_true]
    exact ⟨r,by simp [hrows],by simp [hr.isCa]⟩
  let e : Option Bool := some (decide (ci.status≠"disabled"))
  refine ⟨_,by simp only [addCaInstance,hr.serial,hhit]; rfl,{ r with caEnabled := e },hr.plain,?_⟩
  simp only [Keyed.update,hrows,List.map_append,List.map_cons,List.map_nil]
  congr 1
  · conv_rhs => rw [← List.map_id db.rows]
    apply List.map_congr_left
    intro x hx
    simp [hfree x hx]
  · simp only [hr.isCa,and_self,decide_true,if_true,e,← hrid,← hkey]
    rw [hrid.trans hinst.symm]

/-- Wherever the stores stop, the table has gained the rows written so far. -/
theorem storeAll_rows (ci : CaInstance) (calls : Nat → Fate) (i : Nat) (db : Inventory) (rs : List Row)
    (hrs : ∀ r∈rs,Storable ci r) :
    ∃ extra,(storeAll ci calls i db rs).1.rows=db.rows++extra ∧
      extra.map unstamped=written calls i (db.rows.map Row.serial) rs := by
  induction rs generalizing i db with
  | nil => exact ⟨[],by simp [storeAll],by simp [written]⟩
  | cons r rs ih =>
    have hr := hrs r List.mem_cons_self
    have hrest : ∀ x∈rs,Storable ci x := fun x hx => hrs x (List.mem_cons_of_mem _ hx)
    cases hins : db.insertCert r with
    | none =>
      have htaken : (db.rows.map Row.serial).any (fun x => decide (x=r.serial))=true := by
        simp only [Inventory.insertCert,Keyed.insert] at hins
        split_ifs at hins with hfree
        push Not at hfree
        obtain ⟨x,hx,hxs⟩ := hfree
        rw [List.any_map,List.any_eq_true]
        exact ⟨x,hx,by simp [hxs]⟩
      exact ⟨[],by simp [storeAll,hins],by simp only [written,htaken,if_true,List.map_nil]⟩
    | some stored =>
      obtain ⟨hfree,hrows⟩ := Keyed.insert_eq_some hins
      have htaken : (db.rows.map Row.serial).any (fun x => decide (x=r.serial))=false := by
        rw [List.any_map,List.any_eq_false]
        intro x hx
        simpa using hfree x hx
      simp only [storeAll,hins,written,htaken,Bool.false_eq_true,if_false]
      cases hcall : calls i with
      | throws applied =>
        cases applied with
        | false => exact ⟨[],by simp,rfl⟩
        | true => exact ⟨[r],by simp [hrows],by simp [hr.plain]⟩
      | ok =>
        by_cases hid : r.id=none
        · obtain ⟨extra,hex,hall⟩ := ih (i+1) stored hrest
          simp only [if_pos hid]
          refine ⟨r::extra,by rw [hex,hrows]; simp,?_⟩
          rw [List.map_cons,hr.plain,hall,hrows]
          simp
        · obtain ⟨stamped,hst,r',hr',hstrows⟩ := addCaInstance_last hr hid hins
          simp only [if_neg hid,hst]
          cases hcall' : calls (i+1) with
          | throws applied =>
            cases applied with
            | false => exact ⟨[r],by simp [hrows],by simp [hr.plain]⟩
            | true => exact ⟨[r'],by simp [hstrows],by simp [hr']⟩
          | ok =>
            obtain ⟨extra,hex,hall⟩ := ih (i+2) stamped hrest
            refine ⟨r'::extra,by rw [hex,hstrows]; simp,?_⟩
            have hserial : r'.serial=r.serial := by
              rw [← hr']
              rfl
            rw [List.map_cons,hr',hall,hstrows]
            simp [hserial]

section Failure

variable {κ : Type*} {w : World κ} {site : Site κ} {req : CaRenewRequest}
variable {ci : CaInstance} {parent : String}

/-- What a signature returns: a CA certificate that no row holds. -/
structure Signs (w : World κ) (db : Inventory) (c : Signed) : Prop where
  serial : c.serial≠""
  der : c.der≠[]
  parses : (w.d2i c.der).any X509Cert.checkCa=true
  fresh : ∀ r∈db.rows,r.cert≠c.der

/-- The rows that the renewal stores before it fails. -/
def writes (w : World κ) (db : Inventory) (req : CaRenewRequest) (ci : CaInstance) (parent : String) :
    List Row :=
  if prepared w req then
    written w.calls 2 (db.rows.map Row.serial) (newRows w req (rowKeyOf req ci) parent)
  else []

/-- Where the guard is armed: each id row that was stored is covered by an older generation; and if
the guard destroys what answers at the handle, no id row was stored and no CA row names a key there. -/
def Harmless (w : World κ) (site : Site κ) (req : CaRenewRequest) : Prop :=
  w.readThrows=false → ∀ ci parent,preflight w site req=.ok (ci,parent) →
    (∀ r∈writes w site.db req ci parent,r.id=some req.caId → Covered site.db req.caId r) ∧
    ∀ k∈guardDestroys w req (mintedKeys w req site.keys),
      (∀ r∈writes w site.db req ci parent,r.id=none) ∧
      ∀ row∈site.db.rows,row.isCa=true → w.answers row.privateKey k=false

theorem preflight_ci (h : preflight w site req=.ok (ci,parent)) : req.caId≠"" ∧ ci.id=req.caId := by
  simp only [preflight,bind_eq_ok_iff,refuseIf_eq_ok_iff,requireSome_eq_ok_iff] at h
  obtain ⟨_,hnamed,ci',hci,_,_,_,_,_,_,_,_,_,_,_,_,hlast⟩ := h
  obtain ⟨rfl,rfl⟩ := Prod.mk.inj (Except.ok.inj hlast)
  obtain ⟨row,_,rfl⟩ := Option.map_eq_some_iff.mp hci
  exact ⟨hnamed,rfl⟩

theorem mem_newRows {rowKey : String} {r : Row} (h : r∈newRows w req rowKey parent) :
    ∃ c∈[w.renewed,w.bridge,w.cross],∃ asCaRow,r=newRow w req.caId rowKey c asCaRow := by
  simp only [newRows] at h
  split_ifs at h
  · simp only [List.cons_append,List.nil_append,List.mem_cons,List.not_mem_nil,or_false] at h
    obtain h|h|h := h
    · exact ⟨w.cross,by simp,false,h⟩
    · exact ⟨w.bridge,by simp,true,h⟩
    · exact ⟨w.renewed,by simp,true,h⟩
  · simp only [List.nil_append,List.mem_singleton] at h
    exact ⟨w.renewed,by simp,true,h⟩

theorem mem_of_mem_written {calls : Nat → Fate} {i : Nat} {serials : List String} {rs : List Row} {r : Row}
    (h : r∈written calls i serials rs) : r∈rs := by
  induction rs generalizing i serials with
  | nil => simp [written] at h
  | cons x rs ih =>
    have hkeep : ∀ {j : Nat},r∈x::written calls j (serials++[x.serial]) rs → r∈x::rs := by
      intro j hj
      obtain rfl|hj := List.mem_cons.mp hj
      · exact List.mem_cons_self
      · exact List.mem_cons_of_mem _ (ih hj)
    have hone : r∈[x] → r∈x::rs := fun h => List.mem_cons.mpr (Or.inl (List.mem_singleton.mp h))
    simp only [written] at h
    by_cases htaken : serials.any (fun s => decide (s=x.serial))=true
    · rw [if_pos htaken] at h
      cases h
    · rw [if_neg htaken] at h
      cases hcall : calls i with
      | throws applied =>
        cases applied with
        | false => simp [hcall] at h
        | true => exact hone (by simpa [hcall] using h)
      | ok =>
        simp only [hcall] at h
        by_cases hid : x.id=none
        · exact hkeep (by simpa [hid] using h)
        · rw [if_neg hid] at h
          cases hcall' : calls (i+1) with
          | throws applied => exact hone (by simpa [hcall'] using h)
          | ok => exact hkeep (by simpa [hcall'] using h)

theorem storable_newRow {c : Signed} (hc : Signs w site.db c) (hid : ci.id=req.caId) (asCaRow : Bool) :
    Storable { ci with signingCaKey := rowKeyOf req ci } (newRow w req.caId (rowKeyOf req ci) c asCaRow) where
  isCa := hc.parses
  serial := hc.serial
  plain := rfl
  own := by
    cases asCaRow with
    | false => simp [newRow]
    | true => simp [newRow,hid]

variable (parent) in
theorem stores_rows (hsigns : ∀ c∈[w.renewed,w.bridge,w.cross],Signs w site.db c)
    (hid : ci.id=req.caId) :
    ∃ extra,(stores w site.db req ci parent).1.rows=site.db.rows++extra ∧
      extra.map unstamped=writes w site.db req ci parent := by
  simp only [stores,writes]
  split_ifs
  · apply storeAll_rows
    intro r hr
    obtain ⟨c,hc,asCaRow,rfl⟩ := mem_newRows hr
    exact storable_newRow (hsigns c hc) hid asCaRow
  · exact ⟨[],by simp,rfl⟩

/-- A row that was written is a new row, and the key was made before it. -/
theorem mem_writes {r : Row} (h : r∈writes w site.db req ci parent) : prepared w req=true ∧
    ∃ c∈[w.renewed,w.bridge,w.cross],∃ asCaRow,r=newRow w req.caId (rowKeyOf req ci) c asCaRow := by
  simp only [writes] at h
  split_ifs at h with hprep
  · exact ⟨hprep,mem_newRows (mem_of_mem_written h)⟩
  · cases h

theorem selected_stores_iff (hsigns : ∀ c∈[w.renewed,w.bridge,w.cross],Signs w site.db c)
    (hid : ci.id=req.caId) :
    (∀ now,selected w.d2i now (stores w site.db req ci parent).1 req.caId=
      selected w.d2i now site.db req.caId) ↔
    ∀ r∈writes w site.db req ci parent,r.id=some req.caId → Covered site.db req.caId r := by
  obtain ⟨extra,hrows,hextra⟩ := stores_rows parent hsigns hid
  have hnew : ∀ r∈extra,Added w.d2i site.db r := by
    intro r hr
    have hw : unstamped r∈writes w site.db req ci parent := hextra ▸ List.mem_map_of_mem hr
    obtain ⟨_,c,hc,asCaRow,hrow⟩ := mem_writes hw
    have hsign := hsigns c hc
    have hcert : r.cert=c.der := congrArg Row.cert hrow
    refine ⟨?_,?_,⟨c.notAfter,?_⟩,?_,?_,?_⟩
    · exact (congrArg Row.isCa hrow).trans hsign.parses
    · exact congrArg (fun r => r.status) hrow
    · exact congrArg (fun r => r.notAfter) hrow
    · rw [hcert]
      exact hsign.der
    · rw [hcert]
      exact hsign.parses
    · rw [hcert]
      exact hsign.fresh
  rw [selected_append_iff hrows fun r hr _ => hnew r hr,← hextra]
  constructor
  · intro h r hr hrid
    obtain ⟨r',hr',rfl⟩ := List.mem_map.mp hr
    exact h r' hr' hrid
  · intro h r hr hrid
    exact h (unstamped r) (List.mem_map_of_mem hr) hrid

theorem keys_stores_iff (hsigns : ∀ c∈[w.renewed,w.bridge,w.cross],Signs w site.db c)
    (hnone : ∀ k,w.answers "" k=false) (hid : ci.id=req.caId) :
    (∀ row∈(stores w site.db req ci parent).1.rows,row.isCa=true →
      ∀ k∈guardDestroys w req (mintedKeys w req site.keys),w.answers row.privateKey k=false) ↔
    ∀ k∈guardDestroys w req (mintedKeys w req site.keys),
      (∀ r∈writes w site.db req ci parent,r.id=none) ∧
      ∀ row∈site.db.rows,row.isCa=true → w.answers row.privateKey k=false := by
  obtain ⟨extra,hrows,hextra⟩ := stores_rows parent hsigns hid
  constructor
  · intro h k hk
    refine ⟨?_,fun row hrow hca => h row (by simp [hrows,hrow]) hca k hk⟩
    intro r hr
    obtain ⟨_,c,hc,asCaRow,rfl⟩ := mem_writes hr
    obtain ⟨r',hr',hplain⟩ := List.mem_map.mp (hextra ▸ hr)
    cases asCaRow with
    | false => rfl
    | true =>
      -- the stored row names the very key that the guard has destroyed
      have hca : r'.isCa=true := (congrArg Row.isCa hplain).trans (hsigns c hc).parses
      have hdead := h r' (by simp [hrows,hr']) hca k hk
      have hkey : r'.privateKey=rowKeyOf req ci := congrArg Row.privateKey hplain
      simp only [guardDestroys] at hk
      split_ifs at hk with hoff
      · cases hk
      · have hlive := (List.mem_filter.mp hk).2
        have hnew : req.sameKey=false := by simpa using fun hsame => hoff (Or.inl hsame)
        rw [hkey,rowKeyOf,hnew] at hdead
        simp [hlive] at hdead
  · intro h row hrow hca k hk
    rw [hrows] at hrow
    obtain hold|hnew := List.mem_append.mp hrow
    · exact (h k hk).2 row hold hca
    · have hw : unstamped row∈writes w site.db req ci parent := hextra ▸ List.mem_map_of_mem hnew
      obtain ⟨_,c,hc,asCaRow,heq⟩ := mem_writes hw
      have hrid := (h k hk).1 _ hw
      cases asCaRow with
      | true =>
        rw [heq] at hrid
        cases hrid
      | false =>
        have hkey : row.privateKey="" := congrArg Row.privateKey heq
        rw [hkey]
        exact hnone k

end Failure

/-- A renewal that throws leaves the CA with the certificate and the key it had, and destroys no key
that a CA row names, exactly when its failure is harmless. -/
theorem failed_renewal_keeps_signer_iff {κ : Type*} [DecidableEq κ] (w : World κ) (site : Site κ)
    (req : CaRenewRequest) (hsigns : ∀ c∈[w.renewed,w.bridge,w.cross],Signs w site.db c)
    (hnone : ∀ k,w.answers "" k=false) (hthrew : ∃ e,(renewCa w site req).result=.error e) :
    ((∀ now,selected w.d2i now (renewCa w site req).db req.caId=selected w.d2i now site.db req.caId) ∧
      ∀ row∈(renewCa w site req).db.rows,row.isCa=true →
        ∀ k∈(renewCa w site req).destroyed,w.answers row.privateKey k=false) ↔
    Harmless w site req := by
  obtain ⟨e,he⟩ := hthrew
  simp only [renewCa] at he ⊢
  by_cases hread : req.caId≠"" ∧ w.readThrows=true
  · simp [hread,Harmless]
  · simp only [if_neg hread] at he ⊢
    cases hpre : preflight w site req with
    | error e => simp [hpre,Harmless]
    | ok p =>
      obtain ⟨ci,parent⟩ := p
      obtain ⟨hnamed,hid⟩ := preflight_ci hpre
      have hreads : w.readThrows=false := by simpa [hnamed] using hread
      simp only [hpre] at he ⊢
      cases hdone : (stores w site.db req ci parent).2 with
      | true => simp [hdone] at he
      | false =>
        simp only [Bool.false_eq_true,if_false]
        rw [selected_stores_iff hsigns hid,keys_stores_iff hsigns hnone hid]
        constructor
        · intro h _ ci' parent' hpre'
          obtain ⟨rfl,rfl⟩ := Prod.mk.inj (Except.ok.inj (hpre.symm.trans hpre'))
          exact h
        · intro h
          exact h hreads ci parent hpre

/-- A root whose key is in the token. -/
def rootRow : Row where
  status := some 0
  revocationReason := some 0
  revocationDate := some 0
  notAfter := some 5000
  serial := "1"
  notBefore := some 100
  owner := ""
  cert := [1]
  caInstanceId := some "root"
  sHash := some [7]
  iHash := some [7]
  isCa := true
  id := some "root"
  caEnabled := some true
  privateKey := "pkcs11:object=old"
  certId := none
  insSeq := some 1

theorem rootRow_distinct : ([rootRow].map Row.serial).Nodup := by decide

def rootSite : Site String := ⟨⟨[rootRow],rootRow_distinct⟩,["pkcs11:object=old"]⟩

def signedRoot (serial : String) (der : Octets) (n : Int) : Signed :=
  ⟨serial,2000,6000,der,[7],[7],n⟩

/-- A world in which every octet string is a certificate of the root and only this call throws. -/
def worldBut (i : Nat) (applied : Bool) : World String where
  now := 1500
  d2i := fun _ => some ⟨[],[],1,[],none,none,true,true⟩
  answers := fun ref k => ref = k ∧ ref ≠ ""
  keyError := fun _ _ => none
  keygenRefusal := fun _ _ => ""
  replicableRefusal := fun _ _ => ""
  weakDigest := fun _ => false
  allowWeakSignatureDigest := false
  readThrows := false
  lookThrows := false
  minted := "pkcs11:object=new"
  renewed := signedRoot "4" [4] 4
  bridge := signedRoot "3" [3] 3
  cross := signedRoot "2" [2] 2
  calls := fun j => if j = i then .throws applied else .ok
  destroyThrows := false

def rekeyRoot : CaRenewRequest := ⟨"root",false,"pkcs11:object=new","rsa","",false,"sha256"⟩

theorem worldBut_signs (i : Nat) (applied : Bool) :
    ∀ c∈[(worldBut i applied).renewed,(worldBut i applied).bridge,(worldBut i applied).cross],
      Signs (worldBut i applied) rootSite.db c := by
  have hder : ∀ c∈[signedRoot "4" [4] 4,signedRoot "3" [3] 3,signedRoot "2" [2] 2],
      c.serial≠"" ∧ c.der≠[] ∧ ∀ r∈rootSite.db.rows,r.cert≠c.der := by decide
  intro c hc
  obtain ⟨hserial,hne,hfresh⟩ := hder c hc
  exact ⟨hserial,hne,rfl,hfresh⟩

theorem worldBut_answers (i : Nat) (applied : Bool) (k : String) :
    (worldBut i applied).answers "" k=false := by simp [worldBut]

/-- The store of the cross-certificate throws and has been carried out; the CA goes on as it was. -/
theorem failed_renewal_keeps_signer_cross :
    (renewCa (worldBut 2 true) rootSite rekeyRoot).result=.error .exception ∧
    (∀ now,selected (worldBut 2 true).d2i now (renewCa (worldBut 2 true) rootSite rekeyRoot).db "root"=
      selected (worldBut 2 true).d2i now rootSite.db "root") ∧
    ∀ row∈(renewCa (worldBut 2 true) rootSite rekeyRoot).db.rows,row.isCa=true →
      ∀ k∈(renewCa (worldBut 2 true) rootSite rekeyRoot).destroyed,
        (worldBut 2 true).answers row.privateKey k=false := by
  have hthrew : (renewCa (worldBut 2 true) rootSite rekeyRoot).result=.error .exception := by decide
  refine ⟨hthrew,(failed_renewal_keeps_signer_iff (worldBut 2 true) rootSite rekeyRoot
    (worldBut_signs 2 true) (worldBut_answers 2 true) ⟨_,hthrew⟩).mpr ?_⟩
  intro _ ci parent hpre
  have hchecked : preflight (worldBut 2 true) rootSite rekeyRoot=.ok (readCa 1500 "root" rootRow,"") := rfl
  obtain ⟨rfl,rfl⟩ := Prod.mk.inj (Except.ok.inj (hchecked.symm.trans hpre))
  have hplain : ∀ r∈writes (worldBut 2 true) rootSite.db rekeyRoot (readCa 1500 "root" rootRow) "",
      r.id=none := by decide
  refine ⟨fun r hr hid => ?_,fun k hk => ⟨hplain,?_⟩⟩
  · rw [hplain r hr] at hid
    cases hid
  · have hkeys : ∀ k∈guardDestroys (worldBut 2 true) rekeyRoot
        (mintedKeys (worldBut 2 true) rekeyRoot rootSite.keys),∀ row∈rootSite.db.rows,
          (worldBut 2 true).answers row.privateKey k=false := by decide
    exact fun row hrow _ => hkeys k hk row hrow

/-- The bridge is stored and its stamp throws: the guard destroys the new key, which the newest row of
the CA names. -/
theorem failed_renewal_takes_signing_key :
    (renewCa (worldBut 4 false) rootSite rekeyRoot).result=.error .exception ∧
    selected (worldBut 4 false).d2i 3000 rootSite.db "root"=([1],"pkcs11:object=old") ∧
    selected (worldBut 4 false).d2i 3000 (renewCa (worldBut 4 false) rootSite rekeyRoot).db "root"=
      ([3],"pkcs11:object=new") ∧
    ¬∀ row∈(renewCa (worldBut 4 false) rootSite rekeyRoot).db.rows,row.isCa=true →
      ∀ k∈(renewCa (worldBut 4 false) rootSite rekeyRoot).destroyed,
        (worldBut 4 false).answers row.privateKey k=false := by
  refine ⟨by decide,by decide,by decide,by decide⟩

end FastPki.Ca
