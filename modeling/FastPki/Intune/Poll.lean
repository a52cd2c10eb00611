import FastPki.Certs.Inventory
import FastPki.Cmp.Identity
import Mathlib.Data.List.Forall2

namespace FastPki.Intune
open Certs
open Cmp (canonicalSerial)

structure Connection where
  id : String
  caInstanceId : String

structure RevocationRequest where
  requestContext : String
  serial : String

structure RevocationResult where
  requestContext : String
  succeeded : Bool
  errorCode : String
  errorMessage : String
  deriving DecidableEq

/-- How the calls for one request end, with the text of what `revoke_cert` throws, and its time. -/
structure Calls where
  getThrows : Bool
  revoke : Fate
  what : String
  now : Int

structure PollResult where
  requested : Nat
  revoked : Nat
  refused : Nat

section Code

def subjectFor (connectionId : String) : String := "intune\\"++connectionId

def cessationOfOperation : Int := 5

/-- The certificate belongs to the connection: its CA issued it for the connection's subject. -/
def issuedThrough (conn : Connection) (row : Row) : Bool :=
  row.caInstanceId.getD "" = conn.caInstanceId ∧ row.owner = subjectFor conn.id

/-- What a call of `revoke_cert` leaves. -/
def revoked (db : Inventory) (serial : String) (calls : Calls) : Inventory :=
  match calls.revoke with
  | .throws false => db
  | _ => (db.revokeCert serial cessationOfOperation calls.now).1

/-- The branch for a certificate of the connection. A certificate that is revoked already is left as
it is. -/
def revokeRow (db : Inventory) (serial : String) (row : Row) (calls : Calls) (context : String) :
    Inventory × RevocationResult :=
  if row.status = some (-1) then (db,⟨context,true,"None",""⟩)
  else match calls.revoke with
    | .ok => (revoked db serial calls,⟨context,true,"None",""⟩)
    | .throws _ => (revoked db serial calls,⟨context,false,"RetryableServiceException",calls.what⟩)

/-- One round of the loop. A `get_cert` that throws reads as no row. -/
def pollOne (conn : Connection) (db : Inventory) (r : RevocationRequest) (calls : Calls) :
    Inventory × RevocationResult :=
  let serial := canonicalSerial r.serial
  match (if calls.getThrows then none else db.getCert serial) with
  | none => (db,⟨r.requestContext,false,"CertificateNotFoundError",
      "no certificate with serial "++serial⟩)
  | some row =>
    if !issuedThrough conn row then (db,⟨r.requestContext,false,"NotSupportedError",
      "serial "++serial++" was not issued through this Intune connection"⟩)
    else revokeRow db serial row calls r.requestContext

def pollLoop (conn : Connection) :
    Inventory → List (RevocationRequest × Calls) → Inventory × List RevocationResult
  | db,[] => (db,[])
  | db,(r,calls)::batch =>
    let (db',res) := pollOne conn db r calls
    let (db'',results) := pollLoop conn db' batch
    (db'',res::results)

/-- `poll_revocations` of the requests that were downloaded, with the results it uploads. -/
def pollRevocations (conn : Connection) (db : Inventory) (batch : List (RevocationRequest × Calls)) :
    Inventory × List RevocationResult × PollResult :=
  let (db',results) := pollLoop conn db batch
  (db',results,⟨batch.length,results.countP (·.succeeded),results.countP (!·.succeeded)⟩)

end Code

section Kept

/-- Revoked, and not on hold. -/
def ForGood (row : CertRow) : Prop := row.status=some (-1) ∧ row.revocationReason.getD 0≠6

/-- Some holds are released, each with its time. -/
def releases (db : Inventory) (later : List (String × Int)) : Inventory :=
  later.foldl (fun db p => (db.releaseHold p.1 p.2).1) db

/-- The certificate is revoked for good, whatever is released later. -/
def StaysRevoked (db : Inventory) (serial : String) : Prop :=
  ∀ later,∃ row,(releases db later).find serial=some row ∧ ForGood row.toCertRow

theorem ForGood.not_onHold {row : CertRow} (h : ForGood row) : onHold row=false := by
  simp [onHold,h.2]

theorem staysRevoked_of_forGood {db : Inventory} {serial : String} {row : Row}
    (hfind : db.find serial=some row) (hgood : ForGood row.toCertRow) : StaysRevoked db serial := by
  intro later
  induction later generalizing db with
  | nil => exact ⟨row,hfind,hgood⟩
  | cons p later ih =>
    have hnext : (db.releaseHold p.1 p.2).1.find serial=some row := by
      rw [Inventory.releaseHold,Inventory.find_modifySerial,hfind]
      simp [hgood.not_onHold]
    exact ih hnext

/-- A row that a poll leaves: as it was, or revoked for good where it was not revoked. -/
def Kept (row row' : Row) : Prop :=
  row'=row ∨ (row.status≠some (-1) ∧ ForGood row'.toCertRow ∧
    row'.caInstanceId=row.caInstanceId ∧ row'.owner=row.owner)

/-- What a poll can do to a table. -/
def Polled (db db' : Inventory) : Prop :=
  ∀ s,(db.find s=none → db'.find s=none) ∧
    ∀ row,db.find s=some row → ∃ row',db'.find s=some row' ∧ Kept row row'

theorem Polled.refl (db : Inventory) : Polled db db :=
  fun _ => ⟨id,fun row h => ⟨row,h,Or.inl rfl⟩⟩

theorem Kept.trans {a b c : Row} (hab : Kept a b) (hbc : Kept b c) : Kept a c := by
  rcases hab with rfl|⟨hstatus,hgood,hca,howner⟩
  · exact hbc
  · rcases hbc with rfl|⟨hb,_⟩
    · exact Or.inr ⟨hstatus,hgood,hca,howner⟩
    · exact absurd hgood.1 hb

theorem Polled.trans {a b c : Inventory} (hab : Polled a b) (hbc : Polled b c) : Polled a c := by
  intro s
  refine ⟨fun h => (hbc s).1 ((hab s).1 h),fun row h => ?_⟩
  obtain ⟨row',h',hkept⟩ := (hab s).2 row h
  obtain ⟨row'',h'',hkept'⟩ := (hbc s).2 row' h'
  exact ⟨row'',h'',hkept.trans hkept'⟩

/-- Where the row is not revoked, the call revokes it for good. -/
theorem polled_revokeCert {db : Inventory} {serial : String} {row : Row} (now : Int)
    (hfind : db.find serial=some row) (hstatus : row.status≠some (-1)) :
    Polled db (db.revokeCert serial cessationOfOperation now).1 := by
  intro s
  rw [Inventory.revokeCert,Inventory.find_modifySerial]
  refine ⟨fun h => (by rw [h]; rfl),fun r hr => ?_⟩
  rw [hr,Option.map_some]
  refine ⟨_,rfl,?_⟩
  split_ifs with hhit
  · obtain ⟨rfl,_⟩ := hhit
    obtain rfl := Option.some.inj (hr.symm.trans hfind)
    exact Or.inr ⟨hstatus,⟨rfl,by simp [cessationOfOperation]⟩,rfl,rfl⟩
  · exact Or.inl rfl

theorem polled_revoked {db : Inventory} {serial : String} {row : Row} (calls : Calls)
    (hfind : db.find serial=some row) (hstatus : row.status≠some (-1)) :
    Polled db (revoked db serial calls) := by
  rw [revoked]
  split
  · exact Polled.refl db
  · exact polled_revokeCert calls.now hfind hstatus

variable {conn : Connection}

/-- What one round did and reported. -/
theorem pollOne_cases (conn : Connection) (db : Inventory) (r : RevocationRequest) (calls : Calls) :
    (pollOne conn db r calls).2.requestContext=r.requestContext ∧
    Polled db (pollOne conn db r calls).1 ∧
    ((pollOne conn db r calls).2.errorCode="CertificateNotFoundError" ↔
      calls.getThrows=true ∨ db.find (canonicalSerial r.serial)=none) ∧
    ((pollOne conn db r calls).2.succeeded=true ↔ calls.getThrows=false ∧
      ∃ row,db.find (canonicalSerial r.serial)=some row ∧ issuedThrough conn row=true ∧
        (row.status=some (-1) ∨ calls.revoke=.ok)) := by
  simp only [pollOne,Inventory.getCert]
  cases hget : calls.getThrows with
  | true => simp [Polled.refl]
  | false =>
    simp only [Bool.false_eq_true,if_false]
    cases hfind : db.find (canonicalSerial r.serial) with
    | none => simp [Polled.refl]
    | some row =>
      cases hthrough : issuedThrough conn row with
      | false => simp [Polled.refl,hthrough]
      | true =>
        simp only [revokeRow]
        by_cases hstatus : row.status=some (-1)
        · simp [hstatus,Polled.refl,hthrough]
        · have hpolled := polled_revoked calls hfind hstatus
          rw [if_neg hstatus]
          cases hrevoke : calls.revoke with
          | ok => simp [hpolled,hthrough]
          | throws applied => simp [hpolled,hthrough,hstatus]

end Kept

section Truth

variable {conn : Connection}

/-- The result is true of the table before and after the poll. -/
def TrueOf (before after : Inventory) (r : RevocationRequest) (res : RevocationResult) : Prop :=
  res.requestContext=r.requestContext ∧
  (res.succeeded=true → StaysRevoked after (canonicalSerial r.serial)) ∧
  (res.errorCode="CertificateNotFoundError" → before.find (canonicalSerial r.serial)=none)

/-- One result for each request, in order, and each of them is true. -/
def Truthful (conn : Connection) (db : Inventory) (batch : List (RevocationRequest × Calls)) :
    Prop :=
  let (after,results,_) := pollRevocations conn db batch
  List.Forall₂ (fun p res => TrueOf db after p.1 res) batch results

/-- The row, if there is one, is read; and it is not on hold, if it is the connection's. -/
def Plain (conn : Connection) (db : Inventory) (p : RevocationRequest × Calls) : Prop :=
  ∀ row,db.find (canonicalSerial p.1.serial)=some row →
    p.2.getThrows=false ∧ (issuedThrough conn row=true → onHold row.toCertRow=false)

theorem pollLoop_cons (db : Inventory) (r : RevocationRequest) (calls : Calls)
    (batch : List (RevocationRequest × Calls)) :
    pollLoop conn db ((r,calls)::batch)=
      ((pollLoop conn (pollOne conn db r calls).1 batch).1,
        (pollOne conn db r calls).2::(pollLoop conn (pollOne conn db r calls).1 batch).2) := rfl

theorem polled_pollLoop (db : Inventory) (batch : List (RevocationRequest × Calls)) :
    Polled db (pollLoop conn db batch).1 := by
  induction batch generalizing db with
  | nil => exact Polled.refl db
  | cons p batch ih => exact (pollOne_cases _ db p.1 p.2).2.1.trans (ih _)

/-- A row on hold is on hold after the poll. -/
theorem Polled.onHold {db db' : Inventory} (h : Polled db db') {s : String} {row : Row}
    (hfind : db.find s=some row) (hhold : onHold row.toCertRow=true) : db'.find s=some row := by
  have hstatus : row.status=some (-1) := by
    simp only [Certs.onHold,decide_eq_true_eq] at hhold
    exact hhold.1
  obtain ⟨row',hfind',rfl|⟨hne,_⟩⟩ := (h s).2 row hfind
  · exact hfind'
  · exact absurd hstatus hne

theorem Kept.issuedThrough {row row' : Row} (h : Kept row row') :
    issuedThrough conn row'=issuedThrough conn row := by
  rcases h with rfl|⟨_,_,hca,howner⟩
  · rfl
  · simp only [Intune.issuedThrough,hca,howner]

/-- A request that meets a plain row has a true result, whatever else the poll does. -/
theorem trueOf_of_plain {before db after : Inventory} (hbefore : Polled before db)
    {r : RevocationRequest} {calls : Calls} (hafter : Polled (pollOne conn db r calls).1 after)
    (hplain : Plain conn before (r,calls)) :
    TrueOf before after r (pollOne conn db r calls).2 := by
  obtain ⟨hcontext,hpolled,hmissing,hsuccess⟩ := pollOne_cases conn db r calls
  refine ⟨hcontext,fun hok => ?_,fun herr => ?_⟩
  · obtain ⟨_,row,hfind,hthrough,hcase⟩ := hsuccess.mp hok
    have hgood : ∃ row',(pollOne conn db r calls).1.find (canonicalSerial r.serial)=some row' ∧
        ForGood row'.toCertRow := by
      by_cases hstatus : row.status=some (-1)
      · -- it was revoked before the round, and it was not on hold before the poll
        obtain ⟨row',hfind',hkept⟩ := (hpolled _).2 row hfind
        obtain rfl : row'=row := hkept.resolve_right fun h => h.1 hstatus
        refine ⟨row',hfind',hstatus,fun hreason => ?_⟩
        cases hfirst : before.find (canonicalSerial r.serial) with
        | none =>
          have hnone := (hbefore _).1 hfirst
          rw [hfind] at hnone
          cases hnone
        | some first =>
          obtain ⟨row'',hfind'',hkept'⟩ := (hbefore _).2 first hfirst
          obtain rfl := Option.some.inj (hfind''.symm.trans hfind)
          have hhold := (hplain first hfirst).2 (hkept'.issuedThrough ▸ hthrough)
          rcases hkept' with rfl|⟨_,hgood,_⟩
          · simp [onHold,hstatus,hreason] at hhold
          · exact hgood.2 hreason
      · -- the round has revoked it
        have hrevoke := hcase.resolve_left hstatus
        have hget := (hsuccess.mp hok).1
        refine ⟨{ row with status := some (-1),revocationReason := some cessationOfOperation,
                           revocationDate := some calls.now },?_,rfl,by simp [cessationOfOperation]⟩
        simp only [pollOne,Inventory.getCert,hget,Bool.false_eq_true,if_false,hfind,hthrough,
          Bool.not_true,revokeRow,if_neg hstatus,hrevoke,revoked,Inventory.revokeCert,
          Inventory.find_modifySerial]
        simp [revocable,hstatus]
    obtain ⟨row',hfind',hgood⟩ := hgood
    obtain ⟨row'',hfind'',hkept⟩ := (hafter _).2 row' hfind'
    obtain rfl : row''=row' := hkept.resolve_right fun h => h.1 hgood.1
    exact staysRevoked_of_forGood hfind'' hgood
  · cases hfirst : before.find (canonicalSerial r.serial) with
    | none => rfl
    | some row =>
      obtain ⟨row',hfind',_⟩ := (hbefore _).2 row hfirst
      rcases hmissing.mp herr with hget|hnone
      · have hread := (hplain row hfirst).1
        rw [hget] at hread
        cases hread
      · rw [hfind'] at hnone
        cases hnone

/-- A true result comes of a plain row. -/
theorem plain_of_trueOf {before db after : Inventory} (hbefore : Polled before db)
    {r : RevocationRequest} {calls : Calls} (hafter : Polled (pollOne conn db r calls).1 after)
    (htrue : TrueOf before after r (pollOne conn db r calls).2) : Plain conn before (r,calls) := by
  obtain ⟨_,hpolled,hmissing,hsuccess⟩ := pollOne_cases conn db r calls
  intro row hfirst
  have hread : calls.getThrows=false := by
    by_contra hget
    have hnone := htrue.2.2 (hmissing.mpr (Or.inl (by simpa using hget)))
    rw [hfirst] at hnone
    cases hnone
  refine ⟨hread,fun hthrough => Bool.eq_false_iff.mpr fun hhold => ?_⟩
  have hnow := hbefore.onHold hfirst hhold
  have hstatus : row.status=some (-1) := by
    simp only [Certs.onHold,decide_eq_true_eq] at hhold
    exact hhold.1
  have hok := hsuccess.mpr ⟨hread,row,hnow,hthrough,Or.inl hstatus⟩
  obtain ⟨row',hfind',hgood⟩ := htrue.2.1 hok []
  have hend := ((hpolled.trans hafter).onHold hnow hhold)
  obtain rfl := Option.some.inj (hfind'.symm.trans hend)
  rw [hgood.not_onHold] at hhold
  cases hhold

theorem forall₂_pollLoop_iff {before db after : Inventory} (hbefore : Polled before db)
    (batch : List (RevocationRequest × Calls)) (hafter : after=(pollLoop conn db batch).1) :
    List.Forall₂ (fun p res => TrueOf before after p.1 res) batch (pollLoop conn db batch).2 ↔
      ∀ p∈batch,Plain conn before p := by
  induction batch generalizing db with
  | nil => simp [pollLoop]
  | cons p batch ih =>
    obtain ⟨r,calls⟩ := p
    rw [pollLoop_cons] at hafter ⊢
    have hnext : Polled before (pollOne conn db r calls).1 :=
      hbefore.trans (pollOne_cases _ db r calls).2.1
    have hrest : Polled (pollOne conn db r calls).1 after := hafter ▸ polled_pollLoop _ batch
    rw [List.forall₂_cons,ih hnext hafter,List.forall_mem_cons]
    refine and_congr_left fun _ => ?_
    constructor
    · exact plain_of_trueOf hbefore hrest
    · exact trueOf_of_plain hbefore hrest

/-- Intune is told the truth exactly where every row that a request names is read, and none of the
connection's is on hold. -/
theorem poll_truthful_iff (conn : Connection) (db : Inventory)
    (batch : List (RevocationRequest × Calls)) :
    Truthful conn db batch ↔ ∀ p∈batch,Plain conn db p :=
  forall₂_pollLoop_iff (Polled.refl db) batch rfl

end Truth

def contoso : Connection := ⟨"contoso","sub"⟩

/-- A device certificate of the connection, on hold since 2000. -/
def heldRow : Row where
  status := some (-1)
  revocationReason := some 6
  revocationDate := some 2000
  notAfter := some 9000
  serial := "1f"
  notBefore := some 100
  owner := "intune\\contoso"
  cert := []
  caInstanceId := some "sub"
  sHash := none
  iHash := none
  isCa := false
  id := none
  caEnabled := none
  privateKey := ""
  certId := none
  insSeq := none

def held : Inventory := ⟨[heldRow],by decide⟩

def heldBatch : List (RevocationRequest × Calls) := [(⟨"ctx-1","1F"⟩,⟨false,.ok,"",3000⟩)]

/-- The certificate on hold is reported as revoked, and a release makes it valid. -/
theorem held_reported_revoked : ¬Truthful contoso held heldBatch := by
  intro h
  have hres : (pollLoop contoso held heldBatch).2=[⟨"ctx-1",true,"None",""⟩] := by decide
  have hlist : List.Forall₂ (fun p res => TrueOf held (pollLoop contoso held heldBatch).1 p.1 res)
      heldBatch [⟨"ctx-1",true,"None",""⟩] := hres ▸ h
  obtain ⟨_,hstays,_⟩ := (List.forall₂_cons.mp hlist).1
  obtain ⟨row,hfind,hgood⟩ := hstays rfl [("1f",4000)]
  have hvalid : ((releases (pollLoop contoso held heldBatch).1 [("1f",4000)]).find "1f").map
      (·.status)=some (some 0) := by decide
  have hserial : canonicalSerial "1F"="1f" := by decide
  rw [hserial] at hfind
  rw [hfind] at hvalid
  have hstatus : row.status=some 0 := Option.some.inj hvalid
  rw [hgood.1] at hstatus
  cases hstatus

end FastPki.Intune
