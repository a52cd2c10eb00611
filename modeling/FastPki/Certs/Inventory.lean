import FastPki.Certs.Revocation
import FastPki.Framework.Keyed
import FastPki.X509.Name

namespace FastPki.Certs
open X509

/-- A row of `certs`. Text columns that are read through `coalesce` or `row_from` are empty for
NULL; the others keep it. -/
structure Row extends CertRow where
  serial : String
  notBefore : Option Int
  owner : String
  cert : Octets
  caInstanceId : Option String
  sHash : Option Octets
  iHash : Option Octets
  isCa : Bool
  id : Option String
  caEnabled : Option Bool
  privateKey : String
  certId : Option String
  insSeq : Option Int
  deriving DecidableEq

abbrev Inventory := Keyed Row.serial

namespace Inventory

/-- `UPDATE certs SET .. WHERE cond`, of the columns that record a revocation. -/
def modify (db : Inventory) (cond : Row → Bool) (set : CertRow → CertRow) : Inventory :=
  db.update cond (fun r => { r with toCertRow := set r.toCertRow }) fun _ => rfl

/-- The same with `serial=$1` in the WHERE clause, and whether a row changed. -/
def modifySerial (db : Inventory) (serial : String) (cond : CertRow → Bool)
    (set : CertRow → CertRow) : Inventory × Bool :=
  let hit (r : Row) : Bool := r.serial = serial ∧ cond r.toCertRow
  (db.modify hit set,db.rows.any hit)

def revokeCert (db : Inventory) (serial : String) (reason whenUnix : Int) : Inventory × Bool :=
  db.modifySerial serial (revocable reason) fun row =>
    { row with status := some (-1)
               revocationReason := some reason
               revocationDate := some whenUnix }

def releaseHold (db : Inventory) (serial : String) (whenUnix : Int) : Inventory × Bool :=
  db.modifySerial serial onHold fun row =>
    { row with status := some (if row.notAfter.getD 0>0 ∧ row.notAfter.getD 0≤whenUnix then 1 else 0)
               revocationReason := some 8
               revocationDate := some whenUnix }

def setCertStatus (db : Inventory) (serial : String) (status : Int) : Inventory × Bool :=
  db.modifySerial serial (fun _ => true) fun row => { row with status := some status }

def markExpiredNow (db : Inventory) (now : Int) : Inventory :=
  db.modify (fun r => expiredBy now r.toCertRow) fun row => { row with status := some 1 }

/-- The row as `insert_cert` writes it; a taken serial throws. -/
def insertCert (db : Inventory) (row : Row) : Option Inventory := db.insert row

def getCert (db : Inventory) (serial : String) : Option Row := db.find serial

/-- The revocation columns alone, under the serials. -/
def table (db : Inventory) : CertTable := fun s => (db.find s).map Row.toCertRow

theorem mem_modify {db : Inventory} {cond : Row → Bool} {set : CertRow → CertRow} {x : Row} :
    x∈(db.modify cond set).rows ↔
      ∃ r∈db.rows,(if cond r then { r with toCertRow := set r.toCertRow } else r)=x :=
  Keyed.mem_update

theorem find_modify (db : Inventory) (cond : Row → Bool) (set : CertRow → CertRow) (s : String) :
    (db.modify cond set).find s=(db.find s).map fun r =>
      if cond r then { r with toCertRow := set r.toCertRow } else r :=
  Keyed.find_update s

theorem find_modifySerial (db : Inventory) (serial s : String) (cond : CertRow → Bool)
    (set : CertRow → CertRow) : (db.modifySerial serial cond set).1.find s=(db.find s).map fun r =>
      if s = serial ∧ cond r.toCertRow then { r with toCertRow := set r.toCertRow } else r := by
  simp only [modifySerial,find_modify]
  cases hs : db.find s with
  | none => rfl
  | some r =>
    have hkey : r.serial=s := (Keyed.find_eq_some.mp hs).2
    simp [hkey]

theorem table_modifySerial (db : Inventory) (serial : String) (cond : CertRow → Bool)
    (set : CertRow → CertRow) (s : String) : (db.modifySerial serial cond set).1.table s=
      (db.table s).map fun r => if s=serial ∧ cond r then set r else r := by
  simp only [table,modifySerial,find_modify,Option.map_map]
  cases hs : db.find s with
  | none => rfl
  | some r =>
    have hkey : r.serial=s := (Keyed.find_eq_some.mp hs).2
    simp only [Option.map_some,Function.comp_apply,hkey,decide_eq_true_eq]
    split_ifs <;> rfl

theorem modifySerial_changed (db : Inventory) (serial : String) (cond : CertRow → Bool)
    (set : CertRow → CertRow) :
    (db.modifySerial serial cond set).2=(db.table serial).any cond := by
  simp only [table,modifySerial]
  cases hs : db.find serial with
  | none =>
    have hnone : ∀ x∈db.rows,x.serial≠serial := by simpa [Keyed.find,lookup] using hs
    simp only [Option.map_none,Option.any_none,List.any_eq_false]
    intro x hx
    simp [hnone x hx]
  | some r =>
    obtain ⟨hmem,hkey⟩ := Keyed.find_eq_some.mp hs
    simp only [Option.map_some,Option.any_some]
    by_cases hc : cond r.toCertRow=true
    · rw [hc,List.any_eq_true]
      exact ⟨r,hmem,by simp [hkey,hc]⟩
    · rw [Bool.not_eq_true] at hc
      rw [hc,List.any_eq_false]
      intro x hx
      by_cases hxs : x.serial=serial
      · rw [db.eq_of_key hx hmem (hxs.trans hkey.symm)]
        simp [hc]
      · simp [hxs]

/-- On the revocation columns a guarded UPDATE is the one of the table of those columns. -/
theorem modifySerial_refines (db : Inventory) (serial : String) (cond : CertRow → Bool)
    (set : CertRow → CertRow) :
    ((db.modifySerial serial cond set).1.table,(db.modifySerial serial cond set).2)=
      updateRow db.table serial cond set := by
  have hrow := table_modifySerial db serial cond set
  rw [modifySerial_changed]
  simp only [updateRow]
  cases hs : db.table serial with
  | none =>
    refine Prod.ext (funext fun s => (hrow s).trans ?_) rfl
    by_cases hss : s=serial
    · simp [hss,hs]
    · simp [hss]
  | some row =>
    simp only [Option.any_some]
    split_ifs with hc
    · refine Prod.ext (funext fun s => (hrow s).trans ?_) hc
      by_cases hss : s=serial
      · rw [hss,hs]
        simp [hc]
      · simp [hss]
    · refine Prod.ext (funext fun s => (hrow s).trans ?_) (by simpa using hc)
      by_cases hss : s=serial
      · simp [hss,hs,hc]
      · simp [hss]

end Inventory

end FastPki.Certs
