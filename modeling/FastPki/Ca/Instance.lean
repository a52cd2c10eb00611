import FastPki.Certs.Inventory
import Mathlib.Data.List.MinMax
import Mathlib.Data.List.Sort
import Mathlib.Data.Prod.Lex
import Mathlib.Data.String.Basic
import Mathlib.Order.WithBot

namespace FastPki.Ca
open X509 Certs

/-- A certificate as OpenSSL parses it. `selfSigned` says that its signature verifies with its own
key, `checkCa` that it may sign certificates. -/
structure X509Cert where
  subject : Name
  issuer : Name
  serial : Int
  publicKey : Octets
  skid : Option Octets
  akid : Option Octets
  checkCa : Bool
  selfSigned : Bool
  deriving DecidableEq

/-- The key of an `ORDER BY .. DESC` over a time, the insertion number and the serial; the greatest comes
first. A NULL sorts as the greatest where nothing is said, and as the least with `NULLS LAST`. -/
def Rank := (WithTop Int) ×ₗ (WithBot Int) ×ₗ String

instance : LinearOrder Rank := inferInstanceAs (LinearOrder ((WithTop Int) ×ₗ (WithBot Int) ×ₗ String))

def rankOf (time insSeq : Option Int) (serial : String) : Rank := toLex (time,toLex (insSeq,serial))

theorem rankOf_serial {t u m n : Option Int} {a b : String} (h : rankOf t m a=rankOf u n b) : a=b :=
  congrArg (fun x : (WithTop Int) ×ₗ (WithBot Int) ×ₗ String => (ofLex (ofLex x).2).2) h

/-- `ORDER BY "notBefore" DESC, ins_seq DESC NULLS LAST, serial DESC`. -/
def rank (row : Row) : Rank := rankOf row.notBefore row.insSeq row.serial

/-- The rows that carry the id of the CA. -/
def generations (db : Inventory) (id : String) : List Row :=
  db.rows.filter fun r => r.isCa ∧ r.id = some id

/-- A generation that signs: neither revoked nor held nor past its `notAfter`. -/
def live (now : Int) (row : Row) : Bool := row.status = some 0 ∧ row.notAfter.any (· > now)

def newestFirst (rows : List Row) : List Row := rows.insertionSort fun a b => rank b ≤ rank a

structure CaInstance where
  serial : String
  id : String
  status : String
  cert : Octets
  signingCaKey : String
  revoked : Bool
  expired : Bool
  onHold : Bool

/-- One row of `kCaSelect`; its PEM column is the stored certificate. -/
def readCa (now : Int) (id : String) (row : Row) : CaInstance where
  serial := row.serial
  id := id
  status := if row.caEnabled.getD true then "active" else "disabled"
  cert := row.cert
  signingCaKey := row.privateKey
  revoked := row.status = some (-1)
  expired := row.notAfter.getD 0 > 0 ∧ row.notAfter.getD 0 ≤ now
  onHold := onHold row.toCertRow

def getCaInstance (now : Int) (db : Inventory) (id : String) : Option CaInstance :=
  ((generations db id).argmax rank).map (readCa now id)

def getCaCertDer (now : Int) (db : Inventory) (id : String) : Option Row :=
  ((generations db id).filter (live now)).argmax rank

def getCaChainDers (now : Int) (db : Inventory) (id : String) : List Row :=
  (newestFirst ((generations db id).filter (live now))).filter (·.cert ≠ [])

structure ResolvedCa where
  id : String
  found : Bool
  active : Bool
  revoked : Bool
  onHold : Bool
  expired : Bool
  hasLocalKey : Bool
  certDer : Octets
  certSerial : String
  chainDers : List Octets
  chainRef : String
  key : String
  deriving DecidableEq

/-- `resolve_ca_instance` at this time; `d2i` is `d2i_X509` of a stored certificate. -/
def resolveCaInstance (d2i : Octets → Option X509Cert) (now : Int) (db : Inventory) (id : String) :
    ResolvedCa :=
  match getCaInstance now db id with
  | none => ⟨id,false,false,false,false,false,true,[],"",[],"",""⟩
  | some ci =>
    let chain := getCaChainDers now db id
    let newest := (getCaCertDer now db id).filter fun r =>
      r.cert ≠ [] ∧ (d2i r.cert).any X509Cert.checkCa
    -- the fallback reads the certificate of the newest row, whatever its status
    let certDer := (newest.map Row.cert).getD (if (d2i ci.cert).isSome then ci.cert else [])
    let pinsKey : Bool := ci.signingCaKey ≠ ""
    let found : Bool := certDer ≠ []
    { id := id
      found := found
      active := ci.status = "active" ∧ ¬ci.revoked ∧ ¬ci.expired ∧ (found → pinsKey)
      revoked := ci.revoked
      onHold := ci.onHold
      expired := ci.expired
      hasLocalKey := if found then pinsKey else true
      certDer := certDer
      certSerial := (newest.map Row.serial).getD ""
      chainDers := chain.map Row.cert
      chainRef := ",".intercalate (chain.map Row.serial)
      key := if found then ci.signingCaKey else "" }

theorem mem_generations {db : Inventory} {id : String} {row : Row} : row∈generations db id ↔
    row∈db.rows ∧ row.isCa=true ∧ row.id=some id := by
  simp [generations]

theorem mem_getCaChainDers {now : Int} {db : Inventory} {id : String} {row : Row} :
    row∈getCaChainDers now db id ↔ row∈generations db id ∧ live now row=true ∧ row.cert≠[] := by
  simp [getCaChainDers,newestFirst,List.mem_insertionSort,and_assoc]

/-- What a resolved CA serves is the certificate of one of its rows. -/
theorem resolveCaInstance_row {d2i : Octets → Option X509Cert} {now : Int} {db : Inventory}
    {id : String} {der : Octets}
    (h : der=(resolveCaInstance d2i now db id).certDer ∨
      der∈(resolveCaInstance d2i now db id).chainDers) :
    der=[] ∨ ∃ row∈generations db id,row.cert=der := by
  simp only [resolveCaInstance] at h
  cases hci : getCaInstance now db id with
  | none =>
    left
    simpa [hci] using h
  | some ci =>
    simp only [hci] at h
    obtain ⟨top,htop,rfl⟩ := Option.map_eq_some_iff.mp hci
    obtain hcert|hchain := h
    · cases hnew : (getCaCertDer now db id).filter fun r =>
          decide (r.cert≠[] ∧ (d2i r.cert).any X509Cert.checkCa=true) with
      | none =>
        rw [hnew] at hcert
        simp only [Option.map_none,Option.getD_none] at hcert
        split_ifs at hcert
        · exact Or.inr ⟨top,List.argmax_mem htop,hcert.symm⟩
        · exact Or.inl hcert
      | some r =>
        rw [hnew] at hcert
        have hr : getCaCertDer now db id=some r := (Option.filter_eq_some_iff.mp hnew).1
        have hmem := List.argmax_mem hr
        exact Or.inr ⟨r,(List.mem_filter.mp hmem).1,hcert.symm⟩
    · obtain ⟨r,hr,rfl⟩ := List.mem_map.mp hchain
      exact Or.inr ⟨r,(mem_getCaChainDers.mp hr).1,rfl⟩

end FastPki.Ca
