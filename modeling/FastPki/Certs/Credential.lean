import FastPki.Ca.Instance
import FastPki.Crl.Serial
import FastPki.Framework.Run

namespace FastPki.Certs
open X509 Ca Crl

/-- `publish_service_cert`, and the end of the job that issues the certificate of PostgreSQL. -/
inductive Publisher where
  | service
  | pgTls
  deriving DecidableEq

def kPgCertId : String := "postgres"

/-- The row that is inserted. The pg-tls job fills these columns itself. -/
def published : Publisher → Row → Row
  | .service,row => row
  | .pgTls,row => { row with status := some 0
                             certId := some kPgCertId
                             privateKey := "" }

/-- The tag of the certificate to retire, none where none is looked for. -/
def retiredId : Publisher → Row → Option String
  | .service,row => row.certId.filter (· ≠ "")
  | .pgTls,_ => some kPgCertId

def holds (certId : String) (row : Row) : Bool := row.certId = some certId ∧ row.status = some 0

/-- `ORDER BY "notAfter" DESC, serial DESC LIMIT 1`, where a NULL comes first. -/
def getCertByCertId (db : Inventory) (certId : String) : Option Row :=
  (db.rows.filter (holds certId)).argmax fun r => rankOf r.notAfter none r.serial

/-- The statement that a call runs next. -/
inductive Phase where
  | retire (oldSerial : String)
  | insert
  deriving DecidableEq

/-- A call under way, with the table it found. -/
structure Publishing where
  publisher : Publisher
  row : Row
  phase : Phase
  before : Inventory

/-- A call that is over. -/
structure Published where
  failed : Bool
  before : Inventory

structure Publishers where
  db : Inventory
  calls : Nat → Option Publishing

/-- A call begins with its lookup and then takes one statement at a time. -/
inductive PublishAct where
  | start (i : Nat) (publisher : Publisher) (row : Row) (fate : Fate)
  | next (i : Nat) (fate : Fate)

/-- What follows the lookup: a certificate that cannot be parsed is left, and so is one of the same
serial number. -/
def afterLookup (d2i : Octets → Option X509Cert) (row : Row) (found : Option Row) : Phase :=
  match found.bind fun r => d2i r.cert with
  | none => .insert
  | some old => if serialHex old.serial = row.serial then .insert else .retire (serialHex old.serial)

namespace Publishers

def enter (s : Publishers) (i : Nat) (c : Publishing) : Publishers :=
  ⟨s.db,Function.update s.calls i (some c)⟩

def goOn (s : Publishers) (i : Nat) (c : Publishing) (db : Inventory) :
    Publishers × Option Published :=
  (⟨db,Function.update s.calls i (some { c with phase := .insert })⟩,none)

def finish (s : Publishers) (i : Nat) (c : Publishing) (db : Inventory) (failed : Bool) :
    Publishers × Option Published :=
  (⟨db,Function.update s.calls i none⟩,some ⟨failed,c.before⟩)

/-- The first statement of a call. The pg-tls job goes on where the lookup throws. -/
def start (d2i : Octets → Option X509Cert) (s : Publishers) (i : Nat) (publisher : Publisher)
    (row : Row) (fate : Fate) : Publishers × Option Published :=
  let row := published publisher row
  let enter (phase : Phase) := (s.enter i ⟨publisher,row,phase,s.db⟩,none)
  match retiredId publisher row,fate,publisher with
  | none,_,_ => enter .insert
  | some certId,.ok,_ => enter (afterLookup d2i row (getCertByCertId s.db certId))
  | some _,.throws _,.service => (s,some ⟨true,s.db⟩)
  | some _,.throws _,.pgTls => enter .insert

/-- The pg-tls job also goes on where the old certificate could not be retired. -/
def retire (s : Publishers) (i : Nat) (c : Publishing) (oldSerial : String) (fate : Fate) :
    Publishers × Option Published :=
  let (db,changed) := s.db.setCertStatus oldSerial 3
  match fate,c.publisher with
  | .ok,.service => if changed then s.goOn i c db else s.finish i c db true
  | .ok,.pgTls => s.goOn i c db
  | .throws applied,.service => s.finish i c (if applied then db else s.db) true
  | .throws applied,.pgTls => s.goOn i c (if applied then db else s.db)

def insert (s : Publishers) (i : Nat) (c : Publishing) (fate : Fate) : Publishers × Option Published :=
  match s.db.insertCert c.row,fate with
  | none,_ => s.finish i c s.db true
  | some db,.ok => s.finish i c db false
  | some db,.throws applied => s.finish i c (if applied then db else s.db) true

def step (d2i : Octets → Option X509Cert) (s : Publishers) : PublishAct → Publishers × Option Published
  | .start i publisher row fate =>
    match s.calls i with
    | some _ => (s,none)
    | none => s.start d2i i publisher row fate
  | .next i fate =>
    match s.calls i with
    | none => (s,none)
    | some c =>
      match c.phase with
      | .retire oldSerial => s.retire i c oldSerial fate
      | .insert => s.insert i c fate

def advance (d2i : Octets → Option X509Cert) (s : Publishers) (act : PublishAct) : Publishers :=
  (s.step d2i act).1

end Publishers

def AtMostOne (certId : String) (db : Inventory) : Prop :=
  ∀ r∈db.rows,∀ r'∈db.rows,holds certId r=true → holds certId r'=true → r=r'

/-- At most one certificate is active, and a call that failed has left the one it found. -/
def Kept (certId : String) (call : Published) (db : Inventory) : Prop :=
  AtMostOne certId db ∧
    (call.failed=true → ∀ r∈call.before.rows,holds certId r=true → r∈db.rows)

/-- The stored certificate parses to the serial of its row; or the service publisher will find no row
of the serial it parses to. -/
def Retirable (d2i : Octets → Option X509Cert) (db : Inventory) (publisher : Publisher)
    (row old : Row) : Prop :=
  ∃ x,d2i old.cert=some x ∧ (serialHex x.serial=old.serial ∨
    (publisher=.service ∧ serialHex x.serial≠row.serial ∧ ∀ r∈db.rows,r.serial≠serialHex x.serial))

/-- Calls for the tag take turns; the active certificate can be retired; a service call whose retiring
throws has not retired, and a pg-tls call has looked and has retired; and the insert after a retired
certificate goes through. -/
def InTurn (d2i : Octets → Option X509Cert) (certId : String) (s : Publishers) : PublishAct → Prop
  | .start _ publisher row fate => (published publisher row).certId=some certId ∧
      (∀ j,s.calls j=none) ∧ ∀ r∈s.db.rows,holds certId r=true →
        (publisher=.pgTls → fate=.ok) ∧ Retirable d2i s.db publisher (published publisher row) r
  | .next i fate => ∀ c,s.calls i=some c →
    match c.phase with
    | .retire _ => (c.publisher=.service → fate≠.throws true) ∧ (c.publisher=.pgTls → fate≠.throws false)
    | .insert => (∃ r∈c.before.rows,holds certId r=true) → (∀ r∈s.db.rows,holds certId r=false) →
        fate=.ok ∧ ∀ r∈s.db.rows,r.serial≠c.row.serial

section Retire

variable {certId : String} {db : Inventory} {serial : String}

theorem mem_setCertStatus {x : Row} : x∈(db.setCertStatus serial 3).1.rows ↔
    ∃ r∈db.rows,(if r.serial=serial then { r with status := some 3 } else r)=x := by
  simp [Inventory.setCertStatus,Inventory.modifySerial,Inventory.mem_modify]

/-- Where at most one row is active, none is once that row is retired. -/
theorem retired_all (hone : AtMostOne certId db) {r : Row} (hr : r∈db.rows) (hact : holds certId r=true) :
    ∀ x∈(db.setCertStatus r.serial 3).1.rows,holds certId x=false := by
  intro x hx
  obtain ⟨r',hr',rfl⟩ := mem_setCertStatus.mp hx
  split_ifs with hserial
  · simp [holds]
  · by_contra hactive
    rw [Bool.not_eq_false] at hactive
    exact hserial (by rw [hone r' hr' r hr hactive hact])

theorem retired_changed {r : Row} (hr : r∈db.rows) : (db.setCertStatus r.serial 3).2=true := by
  simp only [Inventory.setCertStatus,Inventory.modifySerial,List.any_eq_true]
  exact ⟨r,hr,by simp⟩

/-- A serial that no row carries retires nothing. -/
theorem setCertStatus_none (hnone : ∀ r∈db.rows,r.serial≠serial) :
    (∀ x,x∈(db.setCertStatus serial 3).1.rows ↔ x∈db.rows) ∧ (db.setCertStatus serial 3).2=false := by
  constructor
  · intro x
    rw [mem_setCertStatus]
    constructor
    · intro h
      obtain ⟨r,hr,rfl⟩ := h
      rw [if_neg (hnone r hr)]
      exact hr
    · intro h
      exact ⟨x,h,if_neg (hnone x h)⟩
  · simp only [Inventory.setCertStatus,Inventory.modifySerial,List.any_eq_false]
    intro r hr
    simp [hnone r hr]

end Retire

/-- What a call under way has left so far. -/
def Midway (certId : String) (db : Inventory) (c : Publishing) : Prop :=
  match c.phase with
  | .retire oldSerial => db=c.before ∧ ∃ r∈db.rows,holds certId r=true ∧ (oldSerial=r.serial ∨
      (c.publisher=.service ∧ ∀ x∈db.rows,x.serial≠oldSerial))
  | .insert => (∀ r∈db.rows,holds certId r=false) ∨
      (db=c.before ∧ ∃ r∈db.rows,r.serial=c.row.serial)

/-- One call at a time, which began with at most one active certificate. -/
structure Orderly (certId : String) (s : Publishers) : Prop where
  alone : ∀ i j c c',s.calls i=some c → s.calls j=some c' → i=j
  idle : (∀ i,s.calls i=none) → AtMostOne certId s.db
  busy : ∀ i c,s.calls i=some c → AtMostOne certId c.before ∧ Midway certId s.db c

/-- What a step leaves, and what the call that it ended has done. -/
def Keeps (certId : String) (out : Publishers × Option Published) : Prop :=
  Orderly certId out.1 ∧ ∀ f,out.2=some f → Kept certId f out.1.db

theorem atMostOne_of_none {certId : String} {db : Inventory} (h : ∀ r∈db.rows,holds certId r=false) :
    AtMostOne certId db := by
  intro r hr _ _ hact
  rw [h r hr] at hact
  cases hact

/-- The new row is the only one that can be active. -/
theorem atMostOne_insert {certId : String} {db db' : Inventory} {row : Row}
    (h : ∀ r∈db.rows,holds certId r=false) (hins : db.insertCert row=some db') :
    AtMostOne certId db' := by
  obtain ⟨_,hrows⟩ := Keyed.insert_eq_some hins
  have hnew : ∀ r∈db'.rows,holds certId r=true → r=row := by
    intro r hr hact
    rw [hrows] at hr
    obtain hold|hnew := List.mem_append.mp hr
    · rw [h r hold] at hact
      cases hact
    · exact List.mem_singleton.mp hnew
  intro r hr r' hr' hact hact'
  rw [hnew r hr hact,hnew r' hr' hact']

section Step

variable {d2i : Octets → Option X509Cert} {certId : String} {s : Publishers} {i : Nat} {c : Publishing}

/-- A call that goes on is still the only one. -/
theorem Orderly.goOn (h : Orderly certId s) (hc : s.calls i=some c) {c' : Publishing} {db : Inventory}
    (hbefore : c'.before=c.before) (hmid : Midway certId db c') :
    Orderly certId ⟨db,Function.update s.calls i (some c')⟩ where
  alone := by
    intro j k a b hj hk
    have hown : ∀ j a,Function.update s.calls i (some c') j=some a → j=i := by
      intro j a hj
      by_contra hne
      rw [Function.update_of_ne hne] at hj
      exact hne (h.alone j i a c hj hc)
    rw [hown j a hj,hown k b hk]
  idle := by
    intro hidle
    have := hidle i
    simp at this
  busy := by
    intro j a hj
    by_cases hji : j=i
    · subst hji
      simp only [Function.update_self] at hj
      obtain rfl := Option.some.inj hj
      rw [hbefore]
      exact ⟨(h.busy j c hc).1,hmid⟩
    · simp only [Function.update_of_ne hji] at hj
      exact absurd (h.alone j i a c hj hc) hji

/-- Once it is over, nothing is under way. -/
theorem Orderly.finish (h : Orderly certId s) (hc : s.calls i=some c) {db : Inventory}
    (hone : AtMostOne certId db) : Orderly certId ⟨db,Function.update s.calls i none⟩ := by
  have hnone : ∀ j,Function.update s.calls i none j=none := by
    intro j
    by_cases hji : j=i
    · rw [hji,Function.update_self]
    · rw [Function.update_of_ne hji]
      cases hj : s.calls j with
      | none => rfl
      | some a => exact absurd (h.alone j i a c hj hc) hji
  refine ⟨?_,fun _ => hone,?_⟩
  · intro j k a b hj
    simp only [hnone j] at hj
    cases hj
  · intro j a hj
    simp only [hnone j] at hj
    cases hj

theorem Orderly.enter (h : Orderly certId s) (hidle : ∀ j,s.calls j=none) (hbefore : c.before=s.db)
    (hmid : Midway certId s.db c) : Orderly certId (s.enter i c) := by
  have hown : ∀ j a,(s.enter i c).calls j=some a → j=i ∧ a=c := by
    intro j a hj
    by_cases hji : j=i
    · subst hji
      simp only [Publishers.enter,Function.update_self] at hj
      exact ⟨rfl,(Option.some.inj hj).symm⟩
    · simp only [Publishers.enter,Function.update_of_ne hji] at hj
      rw [hidle j] at hj
      cases hj
  refine ⟨?_,?_,?_⟩
  · intro j k a b hj hk
    rw [(hown j a hj).1,(hown k b hk).1]
  · intro hnone
    have := hnone i
    simp [Publishers.enter] at this
  · intro j a hj
    rw [(hown j a hj).2,hbefore]
    exact ⟨h.idle hidle,hmid⟩

/-- The lookup finds the active row, which the call then retires or shares its serial with. -/
theorem midway_lookup (publisher : Publisher) (row : Row) (db : Inventory)
    (hret : ∀ r∈db.rows,holds certId r=true → Retirable d2i db publisher row r) :
    Midway certId db ⟨publisher,row,afterLookup d2i row (getCertByCertId db certId),db⟩ := by
  cases hfound : getCertByCertId db certId with
  | none =>
    rw [getCertByCertId,List.argmax_eq_none,List.filter_eq_nil_iff] at hfound
    exact Or.inl fun r hr => by simpa using hfound r hr
  | some r =>
    obtain ⟨hr,hact⟩ := List.mem_filter.mp (List.argmax_mem hfound)
    obtain ⟨x,hx,hserial⟩ := hret r hr hact
    simp only [afterLookup,Option.bind_some,hx]
    split_ifs with hsame
    · obtain hown|⟨_,hne,_⟩ := hserial
      · exact Or.inr ⟨rfl,r,hr,hown.symm.trans hsame⟩
      · exact absurd hsame hne
    · refine ⟨rfl,r,hr,hact,?_⟩
      obtain hown|⟨hsvc,_,hnone⟩ := hserial
      · exact Or.inl hown
      · exact Or.inr ⟨hsvc,hnone⟩

theorem retiredId_published (hid : certId≠"") {publisher : Publisher} {row : Row}
    (h : (published publisher row).certId=some certId) :
    retiredId publisher (published publisher row)=some certId := by
  cases publisher with
  | service =>
    simp only [published] at h
    simp [retiredId,published,h,hid]
  | pgTls => exact h

theorem start_keeps (hid : certId≠"") (h : Orderly certId s) {publisher : Publisher} {row : Row} {fate : Fate}
    (hturn : InTurn d2i certId s (.start i publisher row fate)) :
    Keeps certId (s.start d2i i publisher row fate) := by
  obtain ⟨htag,hidle,hact⟩ := hturn
  simp only [Publishers.start,retiredId_published hid htag]
  cases fate with
  | ok =>
    refine ⟨h.enter hidle rfl (midway_lookup publisher _ s.db fun r hr ha => (hact r hr ha).2),?_⟩
    intro f hf
    cases hf
  | throws applied =>
    cases publisher with
    | service =>
      refine ⟨h,?_⟩
      intro f hf
      obtain rfl := Option.some.inj hf
      exact ⟨h.idle hidle,fun _ r hr _ => hr⟩
    | pgTls =>
      -- the swallowed lookup does no harm where nothing is active
      have hnone : ∀ r∈s.db.rows,holds certId r=false := by
        intro r hr
        by_contra ha
        cases (hact r hr (by simpa using ha)).1 rfl
      refine ⟨h.enter hidle rfl (Or.inl hnone),?_⟩
      intro f hf
      cases hf

theorem goOn_keeps (h : Orderly certId s) (hc : s.calls i=some c) {db : Inventory}
    (hnone : ∀ r∈db.rows,holds certId r=false) : Keeps certId (s.goOn i c db) := by
  refine ⟨h.goOn hc rfl (Or.inl hnone),?_⟩
  intro f hf
  cases hf

theorem finish_keeps (h : Orderly certId s) (hc : s.calls i=some c) {db : Inventory} {failed : Bool}
    (hone : AtMostOne certId db)
    (hkept : failed=true → ∀ r∈c.before.rows,holds certId r=true → r∈db.rows) :
    Keeps certId (s.finish i c db failed) := by
  refine ⟨h.finish hc hone,?_⟩
  intro f hf
  obtain rfl := Option.some.inj hf
  exact ⟨hone,hkept⟩

theorem retire_keeps (h : Orderly certId s) (hc : s.calls i=some c) {oldSerial : String} {fate : Fate}
    (hphase : c.phase=.retire oldSerial) (hturn : InTurn d2i certId s (.next i fate)) :
    Keeps certId (s.retire i c oldSerial fate) := by
  have hfate := hturn c hc
  obtain ⟨hone,hmid⟩ := h.busy i c hc
  simp only [hphase] at hfate
  simp only [Midway,hphase] at hmid
  obtain ⟨hdb,r,hr,hact,hserial⟩ := hmid
  rw [← hdb] at hone
  -- a failure that has changed nothing
  have hfail : ∀ db,(∀ x,x∈db.rows ↔ x∈s.db.rows) → Keeps certId (s.finish i c db true) := by
    intro db hsame
    apply finish_keeps h hc
    · intro a ha b hb
      exact hone a ((hsame a).mp ha) b ((hsame b).mp hb)
    · intro _ x hx _
      rw [hsame,hdb]
      exact hx
  have hgo : oldSerial=r.serial → Keeps certId (s.goOn i c (s.db.setCertStatus oldSerial 3).1) := by
    intro hown
    apply goOn_keeps h hc
    rw [hown]
    exact retired_all hone hr hact
  simp only [Publishers.retire]
  cases hpub : c.publisher with
  | service =>
    cases fate with
    | ok =>
      obtain hown|⟨_,hnone⟩ := hserial
      · have hchanged : (s.db.setCertStatus oldSerial 3).2=true := hown ▸ retired_changed hr
        simp only [hchanged,if_true]
        exact hgo hown
      · obtain ⟨hsame,hchanged⟩ := setCertStatus_none hnone
        simp only [hchanged,Bool.false_eq_true,if_false]
        exact hfail _ hsame
    | throws applied =>
      cases applied with
      | true => exact absurd rfl (hfate.1 hpub)
      | false => exact hfail s.db fun x => Iff.rfl
  | pgTls =>
    have hown : oldSerial=r.serial := by
      obtain hown|⟨hsvc,_⟩ := hserial
      · exact hown
      · rw [hpub] at hsvc
        cases hsvc
    cases fate with
    | ok => exact hgo hown
    | throws applied =>
      cases applied with
      | true => exact hgo hown
      | false => exact absurd rfl (hfate.2 hpub)

theorem insert_keeps (h : Orderly certId s) (hc : s.calls i=some c) {fate : Fate}
    (hphase : c.phase=.insert) (hturn : InTurn d2i certId s (.next i fate)) :
    Keeps certId (s.insert i c fate) := by
  have hfate := hturn c hc
  obtain ⟨hone,hmid⟩ := h.busy i c hc
  simp only [hphase] at hfate
  simp only [Midway,hphase] at hmid
  simp only [Publishers.insert]
  obtain hnone|⟨hdb,r,hr,hserial⟩ := hmid
  · cases hins : s.db.insertCert c.row with
    | none =>
      refine finish_keeps h hc (atMostOne_of_none hnone) fun _ r hr hact => ?_
      have hfree := (hfate ⟨r,hr,hact⟩ hnone).2
      simp only [Inventory.insertCert,Keyed.insert,dif_pos hfree] at hins
      cases hins
    | some db =>
      cases fate with
      | ok => exact finish_keeps h hc (atMostOne_insert hnone hins) fun hf => by cases hf
      | throws applied =>
        refine finish_keeps h hc ?_ fun _ r hr hact => ?_
        · cases applied with
          | true => exact atMostOne_insert hnone hins
          | false => exact atMostOne_of_none hnone
        · cases (hfate ⟨r,hr,hact⟩ hnone).1
  · -- the old certificate has the serial of the new one, so the insert fails
    have htaken : s.db.insertCert c.row=none := by
      simp only [Inventory.insertCert,Keyed.insert]
      exact dif_neg fun hfree => hfree r hr hserial
    simp only [htaken]
    refine finish_keeps h hc (hdb ▸ hone) fun _ x hx _ => ?_
    rw [hdb]
    exact hx

theorem step_keeps (hid : certId≠"") (h : Orderly certId s) {act : PublishAct}
    (hturn : InTurn d2i certId s act) :
    Keeps certId (s.step d2i act) := by
  have hidle : Keeps certId (s,none) := ⟨h,fun f hf => by cases hf⟩
  cases act with
  | start i publisher row fate =>
    simp only [Publishers.step]
    cases hc : s.calls i with
    | some c => exact hidle
    | none => exact start_keeps hid h hturn
  | next i fate =>
    simp only [Publishers.step]
    cases hc : s.calls i with
    | none => exact hidle
    | some c =>
      cases hphase : c.phase with
      | retire oldSerial =>
        simp only [hphase]
        exact retire_keeps h hc hphase hturn
      | insert =>
        simp only [hphase]
        exact insert_keeps h hc hphase hturn

end Step

/-- In a run of publishers that take turns, each call ends with at most one active certificate, and one
that fails leaves the certificate it found. -/
theorem credential_replaced (d2i : Octets → Option X509Cert) (certId : String) (hid : certId≠"")
    (db : Inventory) (hone : AtMostOne certId db) (acts : List PublishAct) (act : PublishAct)
    (hturn : Along (Publishers.advance d2i) (InTurn d2i certId) ⟨db,fun _ => none⟩ (acts++[act])) :
    let s := run (Publishers.advance d2i) ⟨db,fun _ => none⟩ acts
    ∀ f,(s.step d2i act).2=some f → Kept certId f (s.step d2i act).1.db := by
  intro s
  obtain ⟨hfirst,hlast,_⟩ := along_append.mp hturn
  have hstart : Orderly certId ⟨db,fun _ => none⟩ := by
    refine ⟨?_,fun _ => hone,?_⟩
    · intro i j c c' hi
      cases hi
    · intro i c hi
      cases hi
  have hkeep : ∀ s act,Orderly certId s → InTurn d2i certId s act →
      Orderly certId (s.advance d2i act) := fun s act hs hact => (step_keeps hid hs hact).1
  have horderly : Orderly certId s := hfirst.invariant hkeep hstart
  exact (step_keeps hid horderly hlast).2

/-- A certificate of this serial number for PostgreSQL; its octets stand for the number. -/
def pgRow (n : UInt8) : Row where
  status := some 0
  revocationReason := some 0
  revocationDate := some 0
  notAfter := some 5000
  serial := serialHex n.toNat
  notBefore := some 100
  owner := "fastpki-ca"
  cert := [n]
  caInstanceId := some "issuing"
  sHash := none
  iHash := none
  isCa := false
  id := none
  caEnabled := none
  privateKey := ""
  certId := some kPgCertId
  insSeq := some 1

def readSerial (der : Octets) : Option X509Cert :=
  der.head?.map fun n => ⟨[],[],n.toNat,[],none,none,false,false⟩

theorem pgRow_distinct : ([pgRow 5].map Row.serial).Nodup := by decide

/-- One certificate is active, and no publisher is at work. -/
def pgSite : Publishers := ⟨⟨[pgRow 5],pgRow_distinct⟩,fun _ => none⟩

def pgRun (acts : List PublishAct) : Publishers := run (Publishers.advance readSerial) pgSite acts

theorem credential_replaced_service :
    AtMostOne "postgres" pgSite.db ∧
    ((pgRun [.start 0 .service (pgRow 6) .ok,.next 0 .ok]).step readSerial (.next 0 .ok)).2=
      some ⟨false,pgSite.db⟩ ∧
    Kept "postgres" ⟨false,pgSite.db⟩
      ((pgRun [.start 0 .service (pgRow 6) .ok,.next 0 .ok]).step readSerial (.next 0 .ok)).1.db := by
  have hone : AtMostOne "postgres" pgSite.db := by
    intro r hr r' hr' _ _
    rw [List.mem_singleton.mp hr,List.mem_singleton.mp hr']
  have hend : ((pgRun [.start 0 .service (pgRow 6) .ok,.next 0 .ok]).step readSerial (.next 0 .ok)).2=
      some ⟨false,pgSite.db⟩ := rfl
  refine ⟨hone,hend,credential_replaced readSerial "postgres" (by decide) pgSite.db hone
    [.start 0 .service (pgRow 6) .ok,.next 0 .ok] (.next 0 .ok) ?_ _ hend⟩
  refine ⟨⟨rfl,fun _ => rfl,?_⟩,?_,?_,trivial⟩
  · intro r hr _
    rw [List.mem_singleton.mp hr]
    exact ⟨(fun h => by cases h),⟨[],[],5,[],none,none,false,false⟩,rfl,Or.inl rfl⟩
  · intro c hc
    obtain rfl := Option.some.inj hc
    exact ⟨by decide,fun h => by cases h⟩
  · intro c hc
    obtain rfl := Option.some.inj hc
    intro _ _
    exact ⟨rfl,by decide⟩

/-- The insert throws after the old certificate is retired: none is left. The pg-tls job takes no notice
that it could not retire the old certificate: two are active. Two calls that overlap leave two active
as well. -/
theorem credential_lost_or_doubled :
    (∃ f,((pgRun [.start 0 .service (pgRow 6) .ok,.next 0 .ok]).step readSerial
        (.next 0 (.throws false))).2=some f ∧ f.failed=true ∧ pgRow 5∈f.before.rows ∧
      ((pgRun [.start 0 .service (pgRow 6) .ok,.next 0 .ok]).step readSerial
        (.next 0 (.throws false))).1.db.rows.filter (holds "postgres")=[]) ∧
    (pgRun [.start 0 .pgTls (pgRow 6) .ok,.next 0 (.throws false),.next 0 .ok]).db.rows.filter
      (holds "postgres")=[pgRow 5,pgRow 6] ∧
    (pgRun [.start 0 .service (pgRow 6) .ok,.start 1 .service (pgRow 7) .ok,.next 0 .ok,.next 0 .ok,
      .next 1 .ok,.next 1 .ok]).db.rows.filter (holds "postgres")=[pgRow 6,pgRow 7] := by
  refine ⟨⟨⟨true,pgSite.db⟩,rfl,rfl,by decide,by decide⟩,by decide,by decide⟩

end FastPki.Certs
