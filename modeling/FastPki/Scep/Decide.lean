import FastPki.Framework.Keyed
import FastPki.Framework.Run
import FastPki.Scep.Approval

namespace FastPki.Scep.Decide

open FastPki.Certs FastPki.Issue FastPki.X509

/-- Where a run of `--approve` or `--reject` stands, each with the next statement before it: the
certificate is still to be inserted, the approval to be recorded, the rejection to be written. -/
inductive Run where
  | approving (ca : String) (csr : Csr)
  | recording (serial : String)
  | rejecting
  deriving DecidableEq

/-- The tables and the runs under way. `issued` and `orphan` are history: the certificates issued for
the request, and whether a run has ended between issuing one and recording it. -/
structure Site where
  tables : Tables
  runs : Nat → Option Run
  issued : List String
  orphan : Bool

/-- A run starts with reading the row; `die` ends its process. -/
inductive Act where
  | approve (p : Nat) (ca : String)
  | reject (p : Nat)
  | next (p : Nat) (srv : Server) (env : Env) (fate : Fate)
  | die (p : Nat)
  | revoke (serial : String)

def Fate.applied : Fate → Bool
  | .ok => true
  | .throws applied => applied

def revokeRow (serial : String) (row : StoredCert) : StoredCert :=
  if row.cert.serial = serial then { row with status := -1 } else row

def Site.put (s : Site) (p : Nat) (r : Option Run) : Site :=
  { s with runs := Function.update s.runs p r }

section Step

variable (caCache : String → Except (Nat × String) CaCert) (txid : String)

/-- What `--approve` issues, behind the check of its CA. -/
def issues (srv : Server) (env : Env) (t : Tables) (ca : String) (csr : Csr) :
    Option (List StoredCert × StoredCert) :=
  if ca = "" then none
  else (caCache ca).toOption.bind fun caCert =>
    (issueFromCsr srv env t.certs caCert ca csr "" "" none).toOption

/-- The INSERT of the new certificate. -/
def insertStep (s : Site) (p : Nat) (fate : Fate) (certs : List StoredCert) (row : StoredCert) :
    Site :=
  if Fate.applied fate then
    { tables := { s.tables with certs := certs }
      runs := Function.update s.runs p (if fate = .ok then some (.recording row.cert.serial) else none)
      issued := s.issued++[row.cert.serial]
      orphan := s.orphan ∨ fate ≠ .ok }
  else s.put p none

/-- The UPDATE of the row, with which a run ends. -/
def decideStep (s : Site) (p : Nat) (fate : Fate) (status : Int) (serial : String) : Site :=
  if Fate.applied fate then
    { s.put p none with tables := setScepPendingStatus s.tables txid status serial }
  else s.put p none

def nextStep (s : Site) (p : Nat) (srv : Server) (env : Env) (fate : Fate) : Site :=
  match s.runs p with
  | none => s
  | some (.approving ca csr) => (issues caCache srv env s.tables ca csr).elim (s.put p none)
      fun out => insertStep s p fate out.1 out.2
  | some (.recording serial) =>
    { decideStep txid s p fate 1 serial with orphan := s.orphan ∨ ¬Fate.applied fate }
  | some .rejecting => decideStep txid s p fate 2 ""

def step (s : Site) : Act → Site
  | .approve p ca =>
    match s.runs p,s.tables.pending txid with
    | none,some row => if row.status = 0 then s.put p (some (.approving ca row.csr)) else s
    | _,_ => s
  | .reject p =>
    match s.runs p,s.tables.pending txid with
    | none,some _ => s.put p (some .rejecting)
    | _,_ => s
  | .next p srv env fate => nextStep caCache txid s p srv env fate
  | .die p =>
    match s.runs p with
    | some (.recording _) => { s.put p none with orphan := true }
    | _ => s.put p none
  | .revoke serial =>
    { s with tables := { s.tables with certs := s.tables.certs.map (revokeRow serial) } }

end Step

def start (t : Tables) : Site := ⟨t,fun _ => none,[],false⟩

/-- A run that is left to itself does what `approve` does at once. -/
theorem approve_in_steps {caCache : String → Except (Nat × String) CaCert} {txid ca : String}
    {srv : Server} {env : Env} {s : Site} {p : Nat} {out : Tables} {row : StoredCert}
    (hidle : s.runs p=none) (h : approve srv env caCache s.tables txid ca=.ok (out,row)) :
    (run (step caCache txid) s
      [.approve p ca,.next p srv env .ok,.next p srv env .ok]).tables=out := by
  obtain ⟨pend,caCert,certs,hpend,hstatus,hca,hcache,hissue,rfl⟩ := approve_eq_ok_iff.mp h
  have hread : step caCache txid s (.approve p ca)=s.put p (some (.approving ca pend.csr)) := by
    simp [step,hidle,hpend,hstatus]
  have hissues : issues caCache srv env s.tables ca pend.csr=some (certs,row) := by
    simp [issues,hca,hcache,hissue,Except.toOption]
  have hinsert : step caCache txid (s.put p (some (.approving ca pend.csr))) (.next p srv env .ok)=
      insertStep (s.put p (some (.approving ca pend.csr))) p .ok certs row := by
    simp only [step,nextStep,Site.put,Function.update_self,hissues,Option.elim_some]
  rw [run_cons,hread,run_cons,hinsert,run_cons,run_nil]
  simp [step,nextStep,insertStep,Fate.applied,Site.put,decideStep]

theorem reject_in_steps {caCache : String → Except (Nat × String) CaCert} {txid : String}
    {srv : Server} {env : Env} {s : Site} {p : Nat} (hidle : s.runs p=none) :
    (run (step caCache txid) s [.reject p,.next p srv env .ok]).tables=reject s.tables txid := by
  cases hpend : s.tables.pending txid with
  | none => simp [step,nextStep,hidle,hpend,reject]
  | some row => simp [step,nextStep,hidle,hpend,reject,Site.put,decideStep,Fate.applied]

/-- No run stands between its certificate and the record of it. -/
def Quiet (s : Site) : Prop := ∀ p serial,s.runs p≠some (.recording serial)

def Revoked (certs : List StoredCert) (serial : String) : Prop :=
  ∃ row,getCert certs serial=some row ∧ row.status=-1

/-- A run that is about to issue finds the row still pending, and one that is about to reject finds it
not approved, or its certificate revoked; no other run stands between its certificate and the record
of it, and none has ended there. -/
def Guarded (txid : String) (s : Site) : Act → Prop
  | .next p _ _ _ =>
    match s.runs p with
    | some (.approving _ _) => Quiet s ∧ s.orphan=false ∧
        ∀ row∈s.tables.pending txid,row.status=0
    | some .rejecting => Quiet s ∧ s.orphan=false ∧
        ∀ row∈s.tables.pending txid,row.status=1 → Revoked s.tables.certs row.serial
    | _ => True
  | _ => True

/-- At most one certificate was issued for the request, and none that is not revoked where the
request stands as rejected. -/
def DecidedOnce (txid : String) (s : Site) : Prop :=
  s.issued.length≤1 ∧ ∀ row∈s.tables.pending txid,row.status=2 →
    ∀ serial∈s.issued,Revoked s.tables.certs serial

/-- What a row of the request stands for. -/
inductive Phase (s : Site) (row : ScepPending) : Prop
  | undecided (hissued : s.issued=[]) (hstatus : row.status=0 ∨ row.status=2) (hquiet : Quiet s)
  | recording (p : Nat) (x : String) (hissued : s.issued=[x]) (hstatus : row.status=0)
      (hrun : s.runs p=some (.recording x)) (hothers : ∀ q≠p,∀ y,s.runs q≠some (.recording y))
  | orphaned (x : String) (hissued : s.issued=[x]) (hstatus : row.status=0) (horphan : s.orphan=true)
      (hquiet : Quiet s)
  | approved (hissued : s.issued=[row.serial]) (hstatus : row.status=1) (hquiet : Quiet s)
  | rejected (x : String) (hissued : s.issued=[x]) (hstatus : row.status=2)
      (hrevoked : Revoked s.tables.certs x) (hquiet : Quiet s)

def Inv (txid : String) (s : Site) : Prop := ∃ row,s.tables.pending txid=some row ∧ Phase s row

section Phase

variable {s t : Site} {row : ScepPending} {p : Nat}

/-- Steps that record and issue nothing leave the phase. -/
theorem Phase.keep (h : Phase s row) (hissued : t.issued=s.issued) (horphan : t.orphan=s.orphan)
    (hruns : ∀ q y,t.runs q=some (.recording y) ↔ s.runs q=some (.recording y))
    (hrevoked : ∀ x,Revoked s.tables.certs x → Revoked t.tables.certs x) : Phase t row := by
  have hquiet : Quiet s → Quiet t := fun hq q y hy => hq q y ((hruns q y).mp hy)
  cases h with
  | undecided hi hst hq => exact .undecided (hissued.trans hi) hst (hquiet hq)
  | recording q x hi hst hrun hothers =>
    exact .recording q x (hissued.trans hi) hst ((hruns q x).mpr hrun)
      fun r hr y hy => hothers r hr y ((hruns r y).mp hy)
  | orphaned x hi hst ho hq =>
    exact .orphaned x (hissued.trans hi) hst (horphan.trans ho) (hquiet hq)
  | approved hi hst hq => exact .approved (hissued.trans hi) hst (hquiet hq)
  | rejected x hi hst hx hq =>
    exact .rejected x (hissued.trans hi) hst (hrevoked x hx) (hquiet hq)

theorem Phase.decidedOnce {txid : String} (h : Phase s row) (hrow : s.tables.pending txid=some row) :
    DecidedOnce txid s := by
  have hstatus : ∀ r∈s.tables.pending txid,r=row := by
    intro r hr
    rw [hrow] at hr
    exact (Option.some.inj hr).symm
  cases h with
  | undecided hi _ _ => simp [DecidedOnce,hi]
  | recording q x hi hst _ _ =>
    refine ⟨by simp [hi],fun r hr htwo => ?_⟩
    rw [hstatus r hr,hst] at htwo
    omega
  | orphaned x hi hst _ _ =>
    refine ⟨by simp [hi],fun r hr htwo => ?_⟩
    rw [hstatus r hr,hst] at htwo
    omega
  | approved hi hst _ =>
    refine ⟨by simp [hi],fun r hr htwo => ?_⟩
    rw [hstatus r hr,hst] at htwo
    omega
  | rejected x hi _ hx _ =>
    refine ⟨by simp [hi],fun r _ _ serial hs => ?_⟩
    rw [hi,List.mem_singleton] at hs
    rwa [hs]

/-- A run that is no recorder comes or goes. -/
theorem put_recorders {r : Option Run} (hold : ∀ y,s.runs p≠some (.recording y))
    (hnew : ∀ y,r≠some (.recording y)) (q : Nat) (y : String) :
    (s.put p r).runs q=some (.recording y) ↔ s.runs q=some (.recording y) := by
  by_cases hq : q=p
  · subst hq
    simp only [Site.put,Function.update_self]
    exact iff_of_false (hnew y) (hold y)
  · simp only [Site.put,Function.update_of_ne hq]

theorem Phase.put (h : Phase s row) {r : Option Run} (hold : ∀ y,s.runs p≠some (.recording y))
    (hnew : ∀ y,r≠some (.recording y)) : Phase (s.put p r) row :=
  h.keep rfl rfl (put_recorders hold hnew) fun _ hx => hx

/-- The one recorder is gone. -/
theorem quiet_put_none (hothers : ∀ q≠p,∀ y,s.runs q≠some (.recording y)) :
    Quiet (s.put p none) := by
  intro q y
  by_cases hq : q=p
  · subst hq
    simp [Site.put]
  · simp only [Site.put,Function.update_of_ne hq]
    exact hothers q hq y

/-- A recorder is the one that has issued. -/
theorem Phase.of_recorder {x : String} (h : Phase s row) (hrun : s.runs p=some (.recording x)) :
    s.issued=[x] ∧ row.status=0 ∧ ∀ q≠p,∀ y,s.runs q≠some (.recording y) := by
  cases h with
  | undecided _ _ hq => exact absurd hrun (hq p x)
  | recording q y hi hst hq hothers =>
    by_cases hpq : p=q
    · subst hpq
      rw [hrun] at hq
      obtain rfl := Run.recording.inj (Option.some.inj hq)
      exact ⟨hi,hst,hothers⟩
    · exact absurd hrun (hothers p hpq x)
  | orphaned _ _ _ _ hq => exact absurd hrun (hq p x)
  | approved _ _ hq => exact absurd hrun (hq p x)
  | rejected _ _ _ _ hq => exact absurd hrun (hq p x)

end Phase

theorem revoked_revokeRow {certs : List StoredCert} {x serial : String} (h : Revoked certs x) :
    Revoked (certs.map (revokeRow serial)) x := by
  obtain ⟨row,hrow,hstatus⟩ := h
  have hserial : ∀ r,(revokeRow serial r).cert.serial=r.cert.serial := by
    intro r
    rw [revokeRow]
    split_ifs
    · rfl
    · rfl
  refine ⟨revokeRow serial row,?_,?_⟩
  · simp only [getCert] at hrow ⊢
    rw [List.find?_map]
    have hsame : ((fun r : StoredCert => decide (r.cert.serial=x)) ∘ revokeRow serial)=
        fun r => decide (r.cert.serial=x) := by
      funext r
      simp only [Function.comp_apply,hserial]
    rw [hsame,hrow]
    rfl
  · rw [revokeRow]
    split_ifs
    · rfl
    · exact hstatus

section Inv

variable {caCache : String → Except (Nat × String) CaCert} {txid : String} {s : Site}

/-- The certificate of a request that is pending and for which nobody else has issued. -/
theorem inv_insertStep {p : Nat} {ca : String} {csr : Csr} {fate : Fate} {certs : List StoredCert}
    {new : StoredCert} (h : Inv txid s) (hrun : s.runs p=some (.approving ca csr))
    (hquiet : Quiet s) (horphan : s.orphan=false)
    (hpending : ∀ row∈s.tables.pending txid,row.status=0) :
    Inv txid (insertStep s p fate certs new) := by
  obtain ⟨row,hrow,hphase⟩ := h
  have hst : row.status=0 := hpending row hrow
  have hissued : s.issued=[] := by
    cases hphase with
    | undecided hi _ _ => exact hi
    | recording q x _ _ hq _ => exact absurd hq (hquiet q x)
    | orphaned x _ _ ho _ =>
      rw [horphan] at ho
      cases ho
    | approved _ hone _ => omega
    | rejected x _ htwo _ _ => omega
  simp only [insertStep]
  split_ifs with happlied hok
  · refine ⟨row,hrow,.recording p new.cert.serial (by simp [hissued]) hst (by simp) ?_⟩
    intro q hq y
    simp only [Function.update_of_ne hq]
    exact hquiet q y
  · refine ⟨row,hrow,.orphaned new.cert.serial (by simp [hissued]) hst (by simp [hok]) ?_⟩
    have hgone : Quiet (s.put p none) := quiet_put_none fun q _ y => hquiet q y
    exact hgone
  · exact ⟨row,hrow,hphase.put (fun y => by simp [hrun]) (by simp)⟩

/-- The record of the certificate that this run has issued. -/
theorem inv_record {p : Nat} {x : String} {fate : Fate} (h : Inv txid s)
    (hrun : s.runs p=some (.recording x)) :
    Inv txid { decideStep txid s p fate 1 x with orphan := s.orphan ∨ ¬Fate.applied fate } := by
  obtain ⟨row,hrow,hphase⟩ := h
  obtain ⟨hissued,hst,hothers⟩ := hphase.of_recorder hrun
  have hquiet : Quiet (s.put p none) := quiet_put_none hothers
  simp only [decideStep]
  split_ifs with happlied
  · refine ⟨{ row with status := 1, serial := x },?_,.approved hissued rfl hquiet⟩
    rw [pending_setScepPendingStatus_self,hrow]
    rfl
  · exact ⟨row,hrow,.orphaned x hissued hst (by simp [happlied]) hquiet⟩

theorem inv_reject {p : Nat} {fate : Fate} (h : Inv txid s) (hrun : s.runs p=some .rejecting)
    (hquiet : Quiet s) (horphan : s.orphan=false)
    (hrevoked : ∀ row∈s.tables.pending txid,row.status=1 → Revoked s.tables.certs row.serial) :
    Inv txid (decideStep txid s p fate 2 "") := by
  obtain ⟨row,hrow,hphase⟩ := h
  have hquiet' : Quiet (s.put p none) := quiet_put_none fun q _ y => hquiet q y
  simp only [decideStep]
  split_ifs with happlied
  · refine ⟨{ row with status := 2, serial := "" },?_,?_⟩
    · rw [pending_setScepPendingStatus_self,hrow]
      rfl
    · cases hphase with
      | undecided hi _ _ => exact .undecided hi (Or.inr rfl) hquiet'
      | recording q x _ _ hq _ => exact absurd hq (hquiet q x)
      | orphaned x _ _ ho _ =>
        rw [horphan] at ho
        cases ho
      | approved hi hone _ => exact .rejected row.serial hi rfl (hrevoked row hrow hone) hquiet'
      | rejected x hi _ hx _ => exact .rejected x hi rfl hx hquiet'
  · exact ⟨row,hrow,hphase.put (fun y => by simp [hrun]) (by simp)⟩

theorem inv_step {a : Act} (h : Inv txid s) (hguard : Guarded txid s a) :
    Inv txid (step caCache txid s a) := by
  obtain ⟨row,hrow,hphase⟩ := h
  cases a with
  | approve p ca =>
    simp only [step,hrow]
    cases hrun : s.runs p with
    | some r => exact ⟨row,hrow,hphase⟩
    | none =>
      dsimp only
      split_ifs
      · exact ⟨row,hrow,hphase.put (fun y => by simp [hrun]) (by simp)⟩
      · exact ⟨row,hrow,hphase⟩
  | reject p =>
    simp only [step,hrow]
    cases hrun : s.runs p with
    | some r => exact ⟨row,hrow,hphase⟩
    | none => exact ⟨row,hrow,hphase.put (fun y => by simp [hrun]) (by simp)⟩
  | next p srv env fate =>
    simp only [step,nextStep]
    cases hrun : s.runs p with
    | none => exact ⟨row,hrow,hphase⟩
    | some r =>
      cases r with
      | approving ca csr =>
        simp only [Guarded,hrun] at hguard
        obtain ⟨hquiet,horphan,hpending⟩ := hguard
        dsimp only
        cases issues caCache srv env s.tables ca csr with
        | none => exact ⟨row,hrow,hphase.put (fun y => by simp [hrun]) (by simp)⟩
        | some out => exact inv_insertStep ⟨row,hrow,hphase⟩ hrun hquiet horphan hpending
      | recording x => exact inv_record ⟨row,hrow,hphase⟩ hrun
      | rejecting =>
        simp only [Guarded,hrun] at hguard
        obtain ⟨hquiet,horphan,hrevoked⟩ := hguard
        exact inv_reject ⟨row,hrow,hphase⟩ hrun hquiet horphan hrevoked
  | die p =>
    simp only [step]
    split
    · next x hrun =>
      obtain ⟨hissued,hst,hothers⟩ := hphase.of_recorder hrun
      exact ⟨row,hrow,.orphaned x hissued hst rfl (quiet_put_none hothers)⟩
    · next hrun => exact ⟨row,hrow,hphase.put (fun y hy => hrun y hy) (by simp)⟩
  | revoke serial =>
    exact ⟨row,hrow,hphase.keep rfl rfl (fun _ _ => Iff.rfl) fun _ hx => revoked_revokeRow hx⟩

end Inv

/-- Where every run that issues or rejects is guarded, the request is decided once in every state
that is reached. -/
theorem parked_request_decided_once (caCache : String → Except (Nat × String) CaCert) (txid : String)
    (t : Tables) (row : ScepPending) (hparked : t.pending txid=some row) (hpending : row.status=0)
    (as : List Act) (hguard : Along (step caCache txid) (Guarded txid) (start t) as) (n : Nat) :
    DecidedOnce txid (run (step caCache txid) (start t) (as.take n)) := by
  have hstart : Inv txid (start t) := ⟨row,hparked,.undecided rfl (Or.inl hpending) (by simp [Quiet,start])⟩
  have hinv : Inv txid (run (step caCache txid) (start t) (as.take n)) :=
    (hguard.take n).invariant (fun s a h hg => inv_step h hg) hstart
  obtain ⟨row',hrow',hphase⟩ := hinv
  exact hphase.decidedOnce hrow'

/-- A request under the transactionID `tx` that waits for its decision. -/
def parkedTables : Tables :=
  { noRequests with pending := fun tx => if tx = "tx" then some (parkedRow firstCsr) else none }

def later : Env := { anEnv with serial := "20" }

/-- One approval, and a second one that comes too late. -/
def approvedOnce : List Act :=
  [.approve 0 "ca1",.next 0 manualServer anEnv .ok,.next 0 manualServer anEnv .ok,.approve 1 "ca1"]

theorem parked_request_decided_once_approved :
    Along (step twoCas "tx") (Guarded "tx") (start parkedTables) approvedOnce ∧
      DecidedOnce "tx" (run (step twoCas "tx") (start parkedTables) (approvedOnce.take 4)) := by
  have hguard : Along (step twoCas "tx") (Guarded "tx") (start parkedTables) approvedOnce := by
    refine ⟨trivial,⟨?_,rfl,?_⟩,trivial,trivial,trivial⟩
    · intro q y
      by_cases hq : q=0
      · subst hq
        simp [step,start,parkedTables,Site.put,parkedRow]
      · simp [step,start,parkedTables,Site.put,parkedRow,hq]
    · intro row hrow
      obtain rfl := Option.some.inj hrow
      rfl
  exact ⟨hguard,parked_request_decided_once twoCas "tx" parkedTables _ rfl rfl _ hguard 4⟩

/-- Two approvals that both read the row before one of them records. -/
def approvedTwice : List Act :=
  [.approve 0 "ca1",.approve 1 "ca1",.next 0 manualServer anEnv .ok,.next 1 manualServer later .ok,
    .next 0 manualServer anEnv .ok,.next 1 manualServer later .ok]

def approvedThenRejected : List Act :=
  [.approve 0 "ca1",.next 0 manualServer anEnv .ok,.next 0 manualServer anEnv .ok,.reject 1,
    .next 1 manualServer anEnv .ok]

/-- Two certificates are issued for one request, and a request ends as rejected with a live one. -/
theorem parked_request_decided_twice :
    (run (step twoCas "tx") (start parkedTables) approvedTwice).issued=["1f","20"] ∧
      ¬DecidedOnce "tx" (run (step twoCas "tx") (start parkedTables) approvedTwice) ∧
      ¬DecidedOnce "tx" (run (step twoCas "tx") (start parkedTables) approvedThenRejected) := by
  have htwice : (run (step twoCas "tx") (start parkedTables) approvedTwice).issued=["1f","20"] := by
    rfl
  refine ⟨htwice,fun h => ?_,fun h => ?_⟩
  · have hlen := h.1
    rw [htwice] at hlen
    simp at hlen
  · obtain ⟨row,hrow,hstatus⟩ := h.2 _ rfl rfl "1f" (List.mem_singleton_self _)
    have hlive : getCert (run (step twoCas "tx") (start parkedTables)
        approvedThenRejected).tables.certs "1f"=
          some (issuedRow (scepCert "scep" 7777000) "scep" "ca1") := by rfl
    rw [hlive] at hrow
    obtain rfl := Option.some.inj hrow
    cases hstatus

end FastPki.Scep.Decide
