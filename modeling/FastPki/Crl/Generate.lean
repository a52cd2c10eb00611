import FastPki.Certs.Inventory
import FastPki.Crl.Serial
import Mathlib.Data.List.Sort

namespace FastPki.Crl
open X509 Certs

/-- The subject hashes of the CA of this id, over all its generations. -/
def caSubjects (db : Inventory) (x : String) : List Octets :=
  (db.rows.filter fun p => p.isCa ∧ p.id = some x).filterMap Row.sHash

/-- Some generation of the CA was issued by a CA registered under another id. -/
def hasParent (db : Inventory) (x : String) : Bool :=
  db.rows.any fun pp => pp.isCa && pp.id.any (· ≠ x) && pp.sHash.any fun h =>
    db.rows.any fun g => g.id = some x ∧ g.isCa ∧ g.iHash = some h

/-- The membership rule of `crl_rows`: the leaves of the CA and the CA rows it signed. -/
def covered (db : Inventory) (x : String) (c : Row) : Bool :=
  (c.caInstanceId = some x ∧ ¬c.isCa) ∨
    (c.isCa && c.iHash.any (fun h => (caSubjects db x).any (· = h)) &&
      (c.id = none ∨ c.id ≠ some x ∨ hasParent db x))

structure RevokedCert where
  serialHex : String
  date : Int
  reason : Int
  deriving DecidableEq

def crlRows (db : Inventory) (x : String) (statePred : CertRow → Bool) : List RevokedCert :=
  (db.rows.filter fun c => statePred c.toCertRow && covered db x c).map fun c =>
    ⟨c.serial,c.revocationDate.getD 0,c.revocationReason.getD 0⟩

def revoked (c : CertRow) : Bool := c.status = some (-1)

/-- A release leaves the certificate valid, expired or superseded, with reason removeFromCRL. -/
def releasedSince (since : Int) (c : CertRow) : Bool :=
  (c.status = some 0 ∨ c.status = some 1 ∨ c.status = some 3) ∧ c.revocationReason = some 8 ∧
    c.revocationDate.any (· ≥ since)

def getRevokedCerts (db : Inventory) (x : String) : List RevokedCert := crlRows db x revoked

def getReleasedHolds (db : Inventory) (x : String) (since : Int) : List RevokedCert :=
  crlRows db x (releasedSince since)

/-- An entry of a CRL. A reason of 0 is written as no CRLReason extension and reads as 0. -/
structure Entry where
  serial : Int
  reason : Int
  date : Int
  deriving DecidableEq

structure CrlDoc where
  number : Int
  /-- The Delta CRL Indicator. -/
  base : Option Int
  thisUpdate : Int
  nextUpdate : Int
  entries : List Entry
  deriving DecidableEq

def removeFromCrl : Int := 8

def clockSkewBackdateSec : Int := 300

/-- A serial that is no number is left out. -/
def RevokedCert.entry (rc : RevokedCert) : Option Entry :=
  (bnHex2bn rc.serialHex).map fun n => ⟨n,rc.reason,rc.date⟩

/-- The order of `X509_CRL_sort`: by the octets of the number, then by its sign. -/
def Entry.le (a b : Entry) : Prop :=
  a.serial.natAbs < b.serial.natAbs ∨ (a.serial.natAbs = b.serial.natAbs ∧ a.serial ≥ b.serial)

instance (a b : Entry) : Decidable (a.le b) := inferInstanceAs (Decidable (_ ∨ _))

/-- `entries` of `generate_crl` for this base number, 0 for a full CRL. -/
def crlEntries (db : Inventory) (x : String) (base : Int) : List Entry :=
  let isDelta := base > 0
  let released := if isDelta then (getReleasedHolds db x base).map ({ · with reason := removeFromCrl })
    else []
  (((getRevokedCerts db x++released).filter fun rc => ¬(isDelta ∧ rc.date < base)).filterMap
    RevokedCert.entry).insertionSort Entry.le

/-- `generate_crl` at this time; `days` is the configured time to the next update. -/
def generateCrl (days : Int) (db : Inventory) (x : String) (now base : Int) : CrlDoc where
  number := now
  base := if base > 0 then some base else none
  thisUpdate := now-clockSkewBackdateSec
  nextUpdate := now+60*60*24*days
  entries := crlEntries db x base

/-- Empty where the reason may be used. -/
def revocationReasonRefusal (reason : Int) : String :=
  if reason < 0 ∨ reason > 10 ∨ reason = 7 then
    "invalid revocation reason "++toString reason++": RFC 5280 defines 0-6 and 8-10"
  else if reason = removeFromCrl then
    "revocation reason removeFromCRL (8) is refused: a delta CRL uses it to announce a "++
      "released hold. To release a certificate on hold, use release"
  else if reason = 10 then
    "revocation reason aACompromise (10) is refused: it applies to attribute certificates, "++
      "which this CA does not issue"
  else ""

theorem ne_removeFromCrl_of_accepted {reason : Int} (h : revocationReasonRefusal reason="") :
    reason≠removeFromCrl := by
  intro hr
  subst hr
  revert h
  decide

/-- Every serial of the table is spelled the way `x509_serial_hex` spells it. -/
def Spelled (db : Inventory) : Prop := ∀ row∈db.rows,∃ n,row.serial=serialHex n

/-- What a CRL says of a row that it covers. -/
def revocation (c : CertRow) : Option (Int × Int) :=
  if revoked c then some (c.revocationReason.getD 0,c.revocationDate.getD 0) else none

theorem mem_crlRows {db : Inventory} {x : String} {state : CertRow → Bool} {rc : RevokedCert} :
    rc∈crlRows db x state ↔ ∃ row∈db.rows,state row.toCertRow=true ∧ covered db x row=true ∧
      rc=⟨row.serial,row.revocationDate.getD 0,row.revocationReason.getD 0⟩ := by
  simp only [crlRows,List.mem_map,List.mem_filter,Bool.and_eq_true]
  constructor
  · intro h
    obtain ⟨row,⟨hrow,hstate,hcov⟩,rfl⟩ := h
    exact ⟨row,hrow,hstate,hcov,rfl⟩
  · intro h
    obtain ⟨row,hrow,hstate,hcov,rfl⟩ := h
    exact ⟨row,⟨hrow,hstate,hcov⟩,rfl⟩

theorem mem_caSubjects {db : Inventory} {x : String} {h : Octets} : h∈caSubjects db x ↔
    ∃ p∈db.rows,p.isCa=true ∧ p.id=some x ∧ p.sHash=some h := by
  simp only [caSubjects,List.mem_filterMap,List.mem_filter,decide_eq_true_eq]
  constructor
  · intro hmem
    obtain ⟨p,⟨hp,hca,hid⟩,hhash⟩ := hmem
    exact ⟨p,hp,hca,hid,hhash⟩
  · intro hmem
    obtain ⟨p,hp,hca,hid,hhash⟩ := hmem
    exact ⟨p,⟨hp,hca,hid⟩,hhash⟩

theorem hasParent_iff {db : Inventory} {x : String} : hasParent db x=true ↔
    ∃ y h,y≠x ∧ h∈caSubjects db y ∧ ∃ g∈db.rows,g.id=some x ∧ g.isCa=true ∧ g.iHash=some h := by
  simp only [hasParent,List.any_eq_true,Bool.and_eq_true,Option.any_eq_true,decide_eq_true_eq]
  constructor
  · intro hp
    obtain ⟨p,hp,⟨hca,y,hid,hne⟩,h,hhash,hg⟩ := hp
    exact ⟨y,h,hne,mem_caSubjects.mpr ⟨p,hp,hca,hid,hhash⟩,hg⟩
  · intro hp
    obtain ⟨y,h,hne,hmem,hg⟩ := hp
    obtain ⟨p,hp,hca,hid,hhash⟩ := mem_caSubjects.mp hmem
    exact ⟨p,hp,⟨hca,y,hid,hne⟩,h,hhash,hg⟩

theorem covered_iff {db : Inventory} {x : String} {c : Row} : covered db x c=true ↔
    (c.isCa=false ∧ c.caInstanceId=some x) ∨
      (c.isCa=true ∧ (∃ h∈caSubjects db x,c.iHash=some h) ∧
        (c.id≠some x ∨ hasParent db x=true)) := by
  cases hca : c.isCa <;> cases hid : c.id <;> cases hhash : c.iHash <;> simp [covered,hca,hid,hhash]

/-- A new row takes none off a CRL. -/
theorem covered_insert {db u : Inventory} {row : Row} (h : db.insertCert row=some u) {x : String}
    {c : Row} (hc : covered db x c=true) : covered u x c=true := by
  have hrows := (Keyed.insert_eq_some h).2
  have hmem : ∀ r∈db.rows,r∈u.rows := by
    intro r hr
    rw [hrows]
    exact List.mem_append_left _ hr
  have hsub : ∀ y,∀ hash∈caSubjects db y,hash∈caSubjects u y := by
    intro y hash hhash
    obtain ⟨p,hp,hrest⟩ := mem_caSubjects.mp hhash
    exact mem_caSubjects.mpr ⟨p,hmem p hp,hrest⟩
  have hparent : hasParent db x=true → hasParent u x=true := by
    intro hp
    obtain ⟨y,hash,hne,hhash,g,hg,hrest⟩ := hasParent_iff.mp hp
    exact hasParent_iff.mpr ⟨y,hash,hne,hsub y hash hhash,g,hmem g hg,hrest⟩
  obtain hleaf|⟨hca,⟨hash,hhash,hi⟩,hid⟩ := covered_iff.mp hc
  · exact covered_iff.mpr (Or.inl hleaf)
  · exact covered_iff.mpr (Or.inr ⟨hca,⟨hash,hsub x hash hhash,hi⟩,hid.imp_right hparent⟩)

section Spelled

variable {db : Inventory} (hspelled : Spelled db) {x : String}
include hspelled

/-- A row of the table gives an entry of its serial number. -/
theorem entry_of_row {row : Row} (hrow : row∈db.rows) {date reason : Int} {e : Entry} :
    RevokedCert.entry ⟨row.serial,date,reason⟩=some e ↔
      db.find (serialHex e.serial)=some row ∧ e.reason=reason ∧ e.date=date := by
  obtain ⟨n,hn⟩ := hspelled row hrow
  simp only [RevokedCert.entry,hn,bnHex2bn_serialHex,Option.map_some,Option.some.injEq]
  constructor
  · intro h
    subst h
    exact ⟨Keyed.find_eq_some.mpr ⟨hrow,hn⟩,rfl,rfl⟩
  · intro h
    obtain ⟨hfind,hreason,hdate⟩ := h
    have hserial := (Keyed.find_eq_some.mp hfind).2
    rw [hn] at hserial
    rw [serialHex_injective hserial,← hreason,← hdate]

theorem mem_filterMap_crlRows {state : CertRow → Bool} {e : Entry} :
    e∈(crlRows db x state).filterMap RevokedCert.entry ↔
      ∃ row,db.find (serialHex e.serial)=some row ∧ state row.toCertRow=true ∧
        covered db x row=true ∧ e.reason=row.revocationReason.getD 0 ∧
        e.date=row.revocationDate.getD 0 := by
  rw [List.mem_filterMap]
  constructor
  · intro h
    obtain ⟨rc,hrc,he⟩ := h
    obtain ⟨row,hrow,hstate,hcov,rfl⟩ := mem_crlRows.mp hrc
    obtain ⟨hfind,hreason,hdate⟩ := (entry_of_row hspelled hrow).mp he
    exact ⟨row,hfind,hstate,hcov,hreason,hdate⟩
  · intro h
    obtain ⟨row,hfind,hstate,hcov,hreason,hdate⟩ := h
    have hrow := (Keyed.find_eq_some.mp hfind).1
    exact ⟨_,mem_crlRows.mpr ⟨row,hrow,hstate,hcov,rfl⟩,
      (entry_of_row hspelled hrow).mpr ⟨hfind,hreason,hdate⟩⟩

end Spelled

section Modify

variable (db : Inventory) (cond : Row → Bool) (set : CertRow → CertRow) (x : String)

theorem caSubjects_modify : caSubjects (db.modify cond set) x=caSubjects db x := by
  simp only [caSubjects,Inventory.modify,Keyed.update,List.filter_map,List.filterMap_map]
  congr 1
  · funext r
    simp only [Function.comp_apply]
    split_ifs <;> rfl
  · apply List.filter_congr
    intro r _
    simp only [Function.comp_apply]
    split_ifs <;> rfl

theorem hasParent_modify : hasParent (db.modify cond set) x=hasParent db x := by
  simp only [hasParent,Inventory.modify,Keyed.update,List.any_map]
  congr 1
  funext p
  simp only [Function.comp_apply]
  have hany : ∀ h : Octets,
      db.rows.any ((fun g => decide (g.id=some x ∧ g.isCa=true ∧ g.iHash=some h)) ∘
        fun r => if cond r=true then { r with toCertRow := set r.toCertRow } else r)=
      db.rows.any fun g => decide (g.id=some x ∧ g.isCa=true ∧ g.iHash=some h) := by
    intro h
    congr 1
    funext g
    simp only [Function.comp_apply]
    split_ifs <;> rfl
  simp only [hany]
  split_ifs <;> rfl

/-- Who covers a row is decided by columns that a revocation leaves alone. -/
theorem covered_modify (row : Row) : covered (db.modify cond set) x row=covered db x row := by
  simp only [covered,caSubjects_modify,hasParent_modify]

theorem Spelled.modify {db : Inventory} (h : Spelled db) : Spelled (db.modify cond set) := by
  intro row hrow
  obtain ⟨r,hr,rfl⟩ := Inventory.mem_modify.mp hrow
  obtain ⟨n,hn⟩ := h r hr
  split_ifs
  · exact ⟨n,hn⟩
  · exact ⟨n,hn⟩

end Modify

end FastPki.Crl
