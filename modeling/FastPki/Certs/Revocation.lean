import FastPki.Framework.Run
import Mathlib.Logic.Function.Basic

namespace FastPki.Certs

/-- The columns of `certs` that decide and record a revocation; each of them is nullable. -/
structure CertRow where
  status : Option Int
  revocationReason : Option Int
  revocationDate : Option Int
  notAfter : Option Int
  deriving DecidableEq

/-- `serial` is the primary key, so an UPDATE by serial reaches at most one row. -/
abbrev CertTable := String → Option CertRow

/-- `UPDATE certs SET .. WHERE serial=$1 AND cond`; the result says whether a row changed. -/
def updateRow (t : CertTable) (serial : String) (cond : CertRow → Bool)
    (set : CertRow → CertRow) : CertTable × Bool :=
  match t serial with
  | none => (t,false)
  | some row =>
    if cond row then (Function.update t serial (some (set row)),true) else (t,false)

/-- A row on hold (reason 6) may still be revoked for good, a row revoked for good not again. -/
def revocable (reason : Int) (row : CertRow) : Bool :=
  row.status≠some (-1) ∨ (row.revocationReason.getD 0=6 ∧ reason≠6)

def revokeCert (t : CertTable) (serial : String) (reason whenUnix : Int) : CertTable × Bool :=
  updateRow t serial (revocable reason) fun row =>
    { row with status := some (-1)
               revocationReason := some reason
               revocationDate := some whenUnix }

def onHold (row : CertRow) : Bool :=
  row.status=some (-1) ∧ row.revocationReason.getD 0=6

def releaseHold (t : CertTable) (serial : String) (whenUnix : Int) : CertTable × Bool :=
  updateRow t serial onHold fun row =>
    { row with status := some (if row.notAfter.getD 0>0 ∧ row.notAfter.getD 0≤whenUnix then 1 else 0)
               revocationReason := some 8
               revocationDate := some whenUnix }

/-- The only writer of `status` whose WHERE clause does not look at the row. -/
def setCertStatus (t : CertTable) (serial : String) (status : Int) : CertTable × Bool :=
  updateRow t serial (fun _ => true) fun row => { row with status := some status }

/-- A NULL `notAfter` compares as unknown, so such a row is never swept. -/
def expiredBy (now : Int) (row : CertRow) : Bool :=
  row.status=some 0 ∧ ∃ n∈row.notAfter,n<now

def markExpiredNow (t : CertTable) (now : Int) : CertTable := fun serial =>
  (t serial).map fun row => if expiredBy now row then { row with status := some 1 } else row

/-- `certs` together with the CMP server's in-memory map from transaction and certReqId to the
serial whose confirmation it awaits. -/
structure State where
  certs : CertTable
  pendingConfirm : String → Option String

def confirmKey (pendingTxid : String) (certReqId : Int) : String :=
  pendingTxid++"/"++toString certReqId

/-- `dbUp` is false when the database call throws: the handler logs it and still erases the
entry. -/
def certconfCb (st : State) (key : String) (rejected dbUp : Bool) (now : Int) : State :=
  match st.pendingConfirm key with
  | none => st
  | some serial =>
    let certs' :=
      if dbUp then
        if rejected then (revokeCert st.certs serial 0 now).1
        else (setCertStatus st.certs serial 0).1
      else st.certs
    ⟨certs',Function.update st.pendingConfirm key none⟩

inductive Op where
  | revokeCert (serial : String) (reason whenUnix : Int)
  | releaseHold (serial : String) (whenUnix : Int)
  | markExpiredNow (now : Int)
  | certconf (pendingTxid : String) (certReqId : Int) (rejected dbUp : Bool) (now : Int)
  | supersede (serial : String)

def step (st : State) : Op → State
  | .revokeCert serial reason whenUnix =>
    { st with certs := (revokeCert st.certs serial reason whenUnix).1 }
  | .releaseHold serial whenUnix => { st with certs := (releaseHold st.certs serial whenUnix).1 }
  | .markExpiredNow now => { st with certs := markExpiredNow st.certs now }
  | .certconf txid certReqId rejected dbUp now =>
    certconfCb st (confirmKey txid certReqId) rejected dbUp now
  | .supersede serial => { st with certs := (setCertStatus st.certs serial 3).1 }

/-- The row of `s` is revoked, with this reason and this date. -/
def RevokedWith (s : String) (r d : Int) (t : CertTable) : Prop :=
  ∃ row,t s=some row ∧ row.status=some (-1) ∧
    row.revocationReason=some r ∧ row.revocationDate=some d

theorem updateRow_other (t : CertTable) (serial s : String) (cond : CertRow → Bool)
    (set : CertRow → CertRow) (hne : s≠serial) :
    (updateRow t serial cond set).1 s=t s := by
  simp only [updateRow]
  split
  · rfl
  · split_ifs
    · exact Function.update_of_ne hne _ _
    · rfl

theorem updateRow_refused (t : CertTable) (serial : String) (cond : CertRow → Bool)
    (set : CertRow → CertRow) (hc : ∀ row,t serial=some row → cond row=false) :
    updateRow t serial cond set=(t,false) := by
  simp only [updateRow]
  split
  · rfl
  · next row hrow => rw [hc row hrow]; rfl

theorem updateRow_changed (t : CertTable) (serial : String) (cond : CertRow → Bool)
    (set : CertRow → CertRow) (h : (updateRow t serial cond set).2=true) :
    ∃ row,t serial=some row ∧ (updateRow t serial cond set).1 serial=some (set row) := by
  simp only [updateRow] at h ⊢
  split at h
  · cases h
  · next row hrow =>
    split_ifs at h with hcond
    exact ⟨row,hrow,by simp [hcond]⟩

/-- A revocation with a reason other than hold, once made, closes both guarded writers. -/
theorem RevokedWith.closed {s : String} {r d : Int} {t : CertTable} (h : RevokedWith s r d t)
    (hr : r≠6) (row : CertRow) (hrow : t s=some row) :
    (∀ reason,revocable reason row=false) ∧ onHold row=false := by
  obtain ⟨row',hrow',hst,hre,_⟩ := h
  obtain rfl : row'=row := Option.some.inj (hrow'.symm.trans hrow)
  simp [revocable,onHold,hst,hre,hr]

theorem RevokedWith.congr {s : String} {r d : Int} {t u : CertTable}
    (h : RevokedWith s r d t) (hs : u s=t s) : RevokedWith s r d u := by
  obtain ⟨row,hrow,hrest⟩ := h
  exact ⟨row,hs.trans hrow,hrest⟩

theorem revokeCert_revokes (t : CertTable) (s : String) (r d : Int)
    (h : (revokeCert t s r d).2=true) : RevokedWith s r d (revokeCert t s r d).1 := by
  obtain ⟨row,_,hset⟩ := updateRow_changed t s _ _ h
  exact ⟨_,hset,rfl,rfl,rfl⟩

theorem RevokedWith.revokeCert {s : String} {r d : Int} {t : CertTable}
    (h : RevokedWith s r d t) (hr : r≠6) (serial : String) (reason whenUnix : Int) :
    RevokedWith s r d (revokeCert t serial reason whenUnix).1 := by
  apply h.congr
  by_cases hs : s=serial
  · subst hs
    simp only [Certs.revokeCert]
    rw [updateRow_refused _ _ _ _ (fun row hrow => (h.closed hr row hrow).1 reason)]
  · exact updateRow_other _ _ _ _ _ hs

theorem RevokedWith.releaseHold {s : String} {r d : Int} {t : CertTable}
    (h : RevokedWith s r d t) (hr : r≠6) (serial : String) (whenUnix : Int) :
    RevokedWith s r d (releaseHold t serial whenUnix).1 := by
  apply h.congr
  by_cases hs : s=serial
  · subst hs
    simp only [Certs.releaseHold]
    rw [updateRow_refused _ _ _ _ (fun row hrow => (h.closed hr row hrow).2)]
  · exact updateRow_other _ _ _ _ _ hs

theorem RevokedWith.markExpiredNow {s : String} {r d : Int} {t : CertTable}
    (h : RevokedWith s r d t) (now : Int) : RevokedWith s r d (markExpiredNow t now) := by
  obtain ⟨row,hrow,hst,hre,hda⟩ := h
  refine ⟨row,?_,hst,hre,hda⟩
  simp [Certs.markExpiredNow,hrow,expiredBy,hst]

/-- The unguarded writer is the one that undoes a revocation, whatever the row says. -/
theorem RevokedWith.setCertStatus_iff {s : String} {r d : Int} {t : CertTable}
    (h : RevokedWith s r d t) (serial : String) (status : Int) (hst : status≠-1) :
    RevokedWith s r d (setCertStatus t serial status).1 ↔ serial≠s := by
  constructor
  · intro hkeep hsame
    subst hsame
    obtain ⟨row,hrow,hrev,_⟩ := hkeep
    obtain ⟨row0,hrow0,_⟩ := h
    simp only [setCertStatus,updateRow,hrow0,if_true,Function.update_self,
      Option.some.injEq] at hrow
    subst hrow
    exact hst (Option.some.inj hrev)
  · intro hne
    exact h.congr (updateRow_other _ _ _ _ _ hne.symm)

/-- The operations that would set the status of `s` without looking at it: an accepting certConf
whose pending entry is `s`, and superseding `s`. -/
def Leaves (s : String) (st : State) : Op → Prop
  | .certconf txid certReqId rejected dbUp _ =>
    rejected=false → dbUp=true → st.pendingConfirm (confirmKey txid certReqId)≠some s
  | .supersede serial => serial≠s
  | _ => True

theorem certconfCb_revokedWith_iff {s : String} {r d : Int} {st : State} (hr : r≠6)
    (h : RevokedWith s r d st.certs) (key : String) (rejected dbUp : Bool) (now : Int) :
    RevokedWith s r d (certconfCb st key rejected dbUp now).certs ↔
      (rejected=false → dbUp=true → st.pendingConfirm key≠some s) := by
  simp only [certconfCb]
  cases hp : st.pendingConfirm key with
  | none => simpa using h
  | some serial =>
    cases dbUp with
    | false => simpa using h
    | true =>
      cases rejected with
      | true => simpa using h.revokeCert hr serial 0 now
      | false => simpa using h.setCertStatus_iff serial 0 (by decide)

theorem step_revokedWith_iff {s : String} {r d : Int} (hr : r≠6) (st : State) (op : Op)
    (h : RevokedWith s r d st.certs) : RevokedWith s r d (step st op).certs ↔ Leaves s st op := by
  cases op with
  | revokeCert serial reason whenUnix =>
    exact iff_of_true (h.revokeCert hr serial reason whenUnix) trivial
  | releaseHold serial whenUnix => exact iff_of_true (h.releaseHold hr serial whenUnix) trivial
  | markExpiredNow now => exact iff_of_true (h.markExpiredNow now) trivial
  | certconf txid certReqId rejected dbUp now =>
    exact certconfCb_revokedWith_iff hr h (confirmKey txid certReqId) rejected dbUp now
  | supersede serial => exact h.setCertStatus_iff serial 3 (by decide)

/-- A revocation other than a hold stays as it was made, in every state of every later run,
exactly when no step of the run confirms or supersedes that serial. -/
theorem revocation_final_iff (st : State) (s : String) (r d : Int) (hr : r≠6)
    (hrev : (revokeCert st.certs s r d).2=true) (ops : List Op) :
    let st1 := step st (.revokeCert s r d)
    (∀ n,RevokedWith s r d (run step st1 (ops.take n)).certs) ↔ Along step (Leaves s) st1 ops :=
  forall_take_iff_along (P := fun st => RevokedWith s r d st.certs)
    (fun st op h => step_revokedWith_iff hr st op h) ops (revokeCert_revokes st.certs s r d hrev)

/-- A certificate issued on hold over CMP and awaiting its certConf. -/
def issuedOnHold : State where
  certs := Function.update (fun _ => none) "1f" (some ⟨some 2,none,none,some 2000⟩)
  pendingConfirm := Function.update (fun _ => none) "tx/0" (some "1f")

theorem revocation_final_run :
    (revokeCert issuedOnHold.certs "1f" 1 1000).2=true ∧
    ∀ n,RevokedWith "1f" 1 1000 (run step (step issuedOnHold (.revokeCert "1f" 1 1000))
      ([.certconf "tx" 0 true true 1001,.releaseHold "1f" 1002,.markExpiredNow 3000].take n)).certs :=
  ⟨by decide,(revocation_final_iff issuedOnHold "1f" 1 1000 (by decide) (by decide) _).mpr
    ⟨by simp [Leaves],trivial,trivial,trivial⟩⟩

/-- An administrator revokes the certificate, then its certConf arrives: it is valid again. -/
theorem revocation_undone_by_certconf :
    (revokeCert issuedOnHold.certs "1f" 1 1000).2=true ∧
    ¬RevokedWith "1f" 1 1000 (run step (step issuedOnHold (.revokeCert "1f" 1 1000))
      [.certconf "tx" 0 false true 1001]).certs := by
  refine ⟨by decide,?_⟩
  intro hrevoked
  obtain ⟨row,hrow,hst,_⟩ := hrevoked
  have valid : (run step (step issuedOnHold (.revokeCert "1f" 1 1000))
      [.certconf "tx" 0 false true 1001]).certs "1f"=some ⟨some 0,some 1,some 1000,some 2000⟩ := by
    decide
  obtain rfl := Option.some.inj (hrow.symm.trans valid)
  exact absurd hst (by decide)

end FastPki.Certs
