import FastPki.Cmp.Transactions

namespace FastPki.Cmp

open X509
open Certs (Inventory Row onHold)

section Rows

theorem mem_modifySerial {c : Inventory} {serial : String} {cond : Certs.CertRow → Bool}
    {set : Certs.CertRow → Certs.CertRow} {row : Row}
    (h : row∈(c.modifySerial serial cond set).1.rows) : row∈c.rows ∨
      ∃ r∈c.rows,r.serial=serial ∧ cond r.toCertRow=true ∧
        row={ r with toCertRow := set r.toCertRow } := by
  obtain ⟨r,hr,rfl⟩ := Inventory.mem_modify.mp h
  split_ifs with hcond
  · rw [decide_eq_true_eq] at hcond
    exact Or.inr ⟨r,hr,hcond.1,hcond.2,rfl⟩
  · exact Or.inl hr

theorem mem_settle {c d : Inventory} {fate : Fate} {row : Row} (h : row∈(settle fate c d).rows) :
    row∈c.rows ∨ row∈d.rows := by
  cases fate with
  | ok => exact Or.inr h
  | throws applied =>
    rw [settle] at h
    split_ifs at h
    · exact Or.inr h
    · exact Or.inl h

/-- A revocation leaves no row valid that was not. -/
theorem valid_revokeCert {c : Inventory} {serial : String} {reason now : Int} {row : Row}
    (h : row∈(c.revokeCert serial reason now).1.rows) (hvalid : row.status=some 0) : row∈c.rows := by
  obtain hrow|⟨r,_,_,_,rfl⟩ := mem_modifySerial h
  · exact hrow
  · cases hvalid

theorem valid_markExpiredNow {c : Inventory} {now : Int} {row : Row}
    (h : row∈(c.markExpiredNow now).rows) (hvalid : row.status=some 0) : row∈c.rows := by
  obtain ⟨r,hr,rfl⟩ := Inventory.mem_modify.mp h
  split_ifs at hvalid ⊢
  · cases hvalid
  · exact hr

theorem revoked_setCertStatus {c : Inventory} {serial : String} {status : Int} {row : Row}
    (h : row∈(c.setCertStatus serial status).1.rows) (hstatus : status≠-1)
    (hrevoked : row.status=some (-1)) : row∈c.rows := by
  obtain hrow|⟨r,_,_,_,rfl⟩ := mem_modifySerial h
  · exact hrow
  · exact absurd (Option.some.inj hrevoked) hstatus

theorem valid_setCertStatus {c : Inventory} {serial : String} {status : Int} {row : Row}
    (h : row∈(c.setCertStatus serial status).1.rows) (hvalid : row.status=some 0) :
    row∈c.rows ∨ (row.serial=serial ∧ status=0) := by
  obtain hrow|⟨r,_,hserial,_,rfl⟩ := mem_modifySerial h
  · exact Or.inl hrow
  · exact Or.inr ⟨hserial,Option.some.inj hvalid⟩

/-- An enrolment that is valid at once asked to be. -/
theorem valid_persistIssued {c d : Inventory} {m : Message} {ra : RaCert} {ca : LoadedCa} {r row : Row}
    (h : persistIssued c (Pending.of m ra ca) r=some d) (hrow : row∈d.rows)
    (hvalid : row.status=some 0) : row∈c.rows ∨
      (row.serial=r.serial ∧ ∃ i,m.info=some i ∧ i.implicitConfirm=true) := by
  obtain hrow|rfl := (mem_insertCert h).mp hrow
  · exact Or.inl hrow
  · refine Or.inr ⟨rfl,?_⟩
    have himplicit : (Pending.of m ra ca).implicitConfirm=true := by
      by_contra hnot
      simp [hnot] at hvalid
    rw [Pending.of] at himplicit
    split at himplicit
    · cases himplicit
    · rename_i i hi
      exact ⟨i,hi,himplicit⟩

theorem revoked_persistIssued {c d : Inventory} {p : Pending} {r row : Row}
    (h : persistIssued c p r=some d) (hrow : row∈d.rows) (hrevoked : row.status=some (-1)) :
    row∈c.rows := by
  obtain hrow|rfl := (mem_insertCert h).mp hrow
  · exact hrow
  · have hstatus : (if p.implicitConfirm then 0 else 2 : Int)≠-1 := by split_ifs <;> decide
    exact absurd (Option.some.inj hrevoked) hstatus

theorem body_of_readRequest {r : Request} {m : Message} (h : readRequest r=.ok m) : r.body=some m := by
  rw [readRequest] at h
  split_ifs at h
  cases hbody : r.body with
  | none =>
    rw [hbody] at h
    cases h
  | some m' =>
    rw [hbody] at h
    injection h with h
    rw [h]

end Rows

section Valid

/-- How a certificate becomes valid. -/
inductive Validates (s : Server) (a : Timed) (serial : String) : Prop
  /-- It is enrolled by a message that asks for implicit confirmation. -/
  | implicit {r : Request} {id : Int} {e : Enrolment} {m : Message} {i : RequestInfo}
      (ha : a.act=.message r (.certRequest id (some e))) (hserial : e.row.serial=serial)
      (hm : r.body=some m) (hi : m.info=some i) (himplicit : i.implicitConfirm=true)
  /-- It is accepted by the transaction and the request that it was issued under. -/
  | confirmed {r : Request} {id : Int} {fate : Fate} {m : Message}
      (ha : a.act=.message r (.certConf id false fate)) (hm : r.body=some m)
      (henrolled : ⟨cmpTxidHex m,id,serial⟩∈s.enrolled)
  /-- It comes valid through another door. -/
  | inserted {row : Row} (ha : a.act=.insertCert row) (hserial : row.serial=serial)
      (hvalid : row.status=some 0)
  /-- It was put on hold and is released. -/
  | released {r : Row} (ha : a.act=.releaseHold serial) (hr : r∈s.certs.rows)
      (hserial : r.serial=serial) (hhold : onHold r.toCertRow=true)

theorem valid_step {s : Server} (hs : Sound s) (a : Timed) : ∀ row∈(step s a).certs.rows,
    row.status=some 0 → row∈s.certs.rows ∨ Validates s a row.serial := by
  intro row hrow hvalid
  have hstep := step_does s a
  generalize step s a=t at hstep hrow
  cases hstep with
  | idle txns => exact Or.inl hrow
  | @lost txns r id e m ra ca certs ha hm hinsert =>
    obtain hrow|⟨hserial,i,hi,himplicit⟩ := valid_persistIssued hinsert hrow hvalid
    · exact Or.inl hrow
    · exact Or.inr (Validates.implicit ha hserial.symm (body_of_readRequest hm) hi himplicit)
  | @enrolled txns r id e m ra ca certs ha hm hinsert =>
    obtain hrow|⟨hserial,i,hi,himplicit⟩ := valid_persistIssued hinsert hrow hvalid
    · exact Or.inl hrow
    · exact Or.inr (Validates.implicit ha hserial.symm (body_of_readRequest hm) hi himplicit)
  | @settled txns r id rejected fate m i ha hm hi =>
    obtain hrow|hrow := mem_settle hrow
    · exact Or.inl hrow
    · cases rejected with
      | true => exact Or.inl (valid_revokeCert hrow hvalid)
      | false =>
        obtain hrow|⟨hserial,_⟩ := valid_setCertStatus hrow hvalid
        · exact Or.inl hrow
        · obtain ⟨hown,hmem⟩ := hs.found hi
          refine Or.inr (Validates.confirmed ha (body_of_readRequest hm) ?_)
          rw [hserial,← hown]
          exact hmem
  | asked txns ha hm hca hrev =>
    obtain hrow|hrow := mem_settle hrow
    · exact Or.inl hrow
    · exact Or.inl (valid_revokeCert hrow hvalid)
  | inserted ha hinsert =>
    obtain hrow|rfl := (mem_insertCert hinsert).mp hrow
    · exact Or.inl hrow
    · exact Or.inr (Validates.inserted ha rfl hvalid)
  | revoked ha => exact Or.inl (valid_revokeCert hrow hvalid)
  | @released serial ha =>
    obtain hrow|⟨r,hr,rfl,hhold,rfl⟩ := mem_modifySerial hrow
    · exact Or.inl hrow
    · exact Or.inr (Validates.released ha hr rfl hhold)
  | expired => exact Or.inl (valid_markExpiredNow hrow hvalid)
  | superseded serial =>
    obtain hrow|⟨_,hstatus⟩ := valid_setCertStatus hrow hvalid
    · exact Or.inl hrow
    · cases hstatus

/-- A certificate is valid because it was before, or because it asked for implicit confirmation, or
because its own transaction has confirmed it. Otherwise it came through another door, or a hold on
it was released. -/
theorem cmp_valid_confirmed (certs : Inventory) (acts : List Timed) :
    ∀ row∈(after certs acts).certs.rows,row.status=some 0 → row∈certs.rows ∨
      Happened (fun pre a => Validates (after certs pre) a row.serial) acts := by
  refine run_history (I := fun acts (s : Server) => ∀ row∈s.certs.rows,row.status=some 0 →
    row∈certs.rows ∨ Happened (fun pre a => Validates (after certs pre) a row.serial) acts)
    (fun row hrow _ => Or.inl hrow) ?_ acts
  intro acts a ih row hrow hvalid
  obtain hrow|hnow := valid_step (sound_after certs acts) a row hrow hvalid
  · obtain hold|hthen := ih row hrow hvalid
    · exact Or.inl hold
    · exact Or.inr (hthen.append [a])
  · exact Or.inr (Happened.last hnow)

/-- A request of one transaction, with what it asks for. -/
def exchanged (call : Call) : Timed where
  act := .message ⟨octets "application/pkixcmp",
    some ⟨some [1],some ⟨⟨octets "device",false,true,"0a",[]⟩,none,false,octets "CMP RA"⟩⟩,"issuing",true,
    .ok ⟨"issuing",octets "Issuing CA"⟩,some ⟨octets "CMP RA",0,1000,true⟩⟩ call
  now := 0
  nowUnix := 10

/-- An enrolment that awaits its confirmation, and the answer to it. -/
def enrolConfirmed (rejected : Bool) : List Timed :=
  [exchanged (.certRequest 0 (some ⟨⟨⟨none,none,none,some 900⟩,"1f",some 5,"device",[],none,none,none,
    false,none,none,"",none,none⟩,true⟩)),exchanged (.certConf 0 rejected .ok)]

theorem cmp_valid_confirmed_own : ∃ row∈(after ⟨[],List.nodup_nil⟩ (enrolConfirmed false)).certs.rows,
    row.status=some 0 ∧ Happened (fun pre a => Validates (after ⟨[],List.nodup_nil⟩ pre) a row.serial)
      (enrolConfirmed false) := by
  have hconfirmed : ∃ row∈(after ⟨[],List.nodup_nil⟩ (enrolConfirmed false)).certs.rows,
      row.status=some 0 := by
    decide +kernel
  obtain ⟨row,hrow,hvalid⟩ := hconfirmed
  obtain hold|hnow := cmp_valid_confirmed ⟨[],List.nodup_nil⟩ (enrolConfirmed false) row hrow hvalid
  · cases hold
  · exact ⟨row,hrow,hvalid,hnow⟩

end Valid

section Revoked

/-- How a certificate is revoked. -/
inductive Revokes (s : Server) (a : Timed) (serial : String) : Prop
  /-- A signed request for it at the endpoint of its CA, by its owner or by one who holds
  `cert:revoke` there. -/
  | asked {r : Request} {t : Option String} {rights : Rights} {fate : Fate} {m : Message}
      {i : RequestInfo} {ca : LoadedCa} {row : Row} {caller : Octets}
      (ha : a.act=.message r (.rr t rights fate))
      (hm : r.body=some m) (hi : m.info=some i) (hca : r.ca=.ok ca) (hrow : row∈s.certs.rows)
      (hserial : row.serial=serial) (hsigned : i.protectionPbm=false)
      (hbound : i.senderInExtracerts=true) (hsame : row.caInstanceId.getD ""=ca.id)
      (hcaller : caller=cmpIdentity (fun t => .ok ((s.certs.getCert t).map certRow))
        i.toCmpRequestInfo)
      (hright : rights.holdsRevoke caller ca.id=true ∨ octets row.owner=caller)
      (hreason : Crl.revocationReasonRefusal (i.revReason.getD 0)="")
  /-- Its own transaction does not accept it. -/
  | rejected {r : Request} {id : Int} {fate : Fate} {m : Message}
      (ha : a.act=.message r (.certConf id true fate)) (hm : r.body=some m)
      (henrolled : ⟨cmpTxidHex m,id,serial⟩∈s.enrolled)
  /-- Another door revokes it, or it comes revoked. -/
  | revoked {reason : Int} (ha : a.act=.revokeCert serial reason)
  | inserted {row : Row} (ha : a.act=.insertCert row) (hserial : row.serial=serial)
      (hrevoked : row.status=some (-1))

theorem ca_of_bindCa {r : Request} {nowUnix : Int} {ca : LoadedCa} {ra : RaCert}
    (h : bindCa r nowUnix=.ok (ca,ra)) : r.ca=.ok ca := by
  rw [bindCa] at h
  obtain ⟨_,_,h⟩ := bind_eq_ok_iff.mp h
  obtain ⟨ca',hca,h⟩ := bind_eq_ok_iff.mp h
  cases hra : bindRaCert ca'.id r.raCert nowUnix with
  | none =>
    rw [hra] at h
    cases h
  | some ra' =>
    rw [hra] at h
    injection h with h
    injection h with hsame
    rw [hca,hsame]

theorem revocableRow_eq_some {c : Inventory} {p : Pending} {serial : Option String}
    {rights : Rights} {row : Row} (h : revocableRow c p serial rights=some row) :
    row∈c.rows ∧ p.sender.protectionPbm=false ∧
    cmpIdentity (fun t => .ok ((c.getCert t).map certRow)) p.sender≠[] ∧
    row.caInstanceId.getD ""=p.activeInstanceId ∧
    (rights.holdsRevoke (cmpIdentity (fun t => .ok ((c.getCert t).map certRow)) p.sender)
        p.activeInstanceId=true ∨
      octets row.owner=cmpIdentity (fun t => .ok ((c.getCert t).map certRow)) p.sender) ∧
    Crl.revocationReasonRefusal p.revReason="" := by
  cases serial with
  | none => cases h
  | some s =>
    simp only [revocableRow] at h
    by_cases hcaller : p.sender.protectionPbm=true ∨
        cmpIdentity (fun t => .ok ((c.getCert t).map certRow)) p.sender=[]
    · rw [if_pos hcaller] at h
      cases h
    rw [if_neg hcaller] at h
    obtain ⟨hsigned,hnamed⟩ := not_or.mp hcaller
    split at h
    · cases h
    · rename_i target htarget
      split_ifs at h with hca hright hreason
      obtain rfl := Option.some.inj h
      refine ⟨(Keyed.find_eq_some.mp htarget).1,by simpa using hsigned,hnamed,not_not.mp hca,?_,
        not_not.mp hreason⟩
      rw [Bool.not_eq_true'] at hright
      by_contra hneither
      obtain ⟨hholds,hne⟩ := not_or.mp hneither
      exact hright ⟨by simpa using hholds,hne⟩

/-- Only a request whose sender is bound to a certificate of it has an identity without a shared
secret. -/
theorem bound_of_identity {getCert : String → Except String (Option CertRow)} {i : CmpRequestInfo}
    (hpbm : i.protectionPbm=false) (h : cmpIdentity getCert i≠[]) : i.senderInExtracerts=true := by
  by_contra hnot
  simp [cmpIdentity,hpbm,hnot] at h

theorem revoked_step {s : Server} (hs : Sound s) (a : Timed) : ∀ row∈(step s a).certs.rows,
    row.status=some (-1) → row∈s.certs.rows ∨ Revokes s a row.serial := by
  intro row hrow hrevoked
  have hstep := step_does s a
  generalize step s a=t at hstep hrow
  cases hstep with
  | idle txns => exact Or.inl hrow
  | @lost txns r id e m ra ca certs ha hm hinsert =>
    exact Or.inl (revoked_persistIssued hinsert hrow hrevoked)
  | @enrolled txns r id e m ra ca certs ha hm hinsert =>
    exact Or.inl (revoked_persistIssued hinsert hrow hrevoked)
  | @settled txns r id rejected fate m i ha hm hi =>
    obtain hrow|hrow := mem_settle hrow
    · exact Or.inl hrow
    · cases rejected with
      | true =>
        obtain hrow|⟨r',_,hserial,_,rfl⟩ := mem_modifySerial hrow
        · exact Or.inl hrow
        · obtain ⟨hown,hmem⟩ := hs.found hi
          refine Or.inr (Revokes.rejected ha (body_of_readRequest hm) ?_)
          change ⟨cmpTxidHex m,id,r'.serial⟩∈s.enrolled
          rw [hserial,← hown]
          exact hmem
      | false => exact Or.inl (revoked_setCertStatus hrow (by decide) hrevoked)
  | @asked txns r serial rights fate m ra ca target ha hm hca htarget =>
    obtain hrow|hrow := mem_settle hrow
    · exact Or.inl hrow
    · obtain hrow|⟨r',_,hserial,_,rfl⟩ := mem_modifySerial hrow
      · exact Or.inl hrow
      · obtain ⟨hmem,hsigned,hnamed,hsame,hright,hreason⟩ := revocableRow_eq_some htarget
        cases hi : m.info with
        | none =>
          simp [Pending.of,hi,cmpIdentity] at hnamed
        | some i =>
          simp only [Pending.of,hi] at hsigned hnamed hsame hright hreason
          exact Or.inr (Revokes.asked ha (body_of_readRequest hm) hi (ca_of_bindCa hca) hmem
            hserial.symm hsigned (bound_of_identity hsigned hnamed) hsame rfl hright hreason)
  | inserted ha hinsert =>
    obtain hrow|rfl := (mem_insertCert hinsert).mp hrow
    · exact Or.inl hrow
    · exact Or.inr (Revokes.inserted ha rfl hrevoked)
  | revoked ha =>
    obtain hrow|⟨r',_,rfl,_,rfl⟩ := mem_modifySerial hrow
    · exact Or.inl hrow
    · exact Or.inr (Revokes.revoked ha)
  | @released serial ha =>
    obtain hrow|⟨r,_,_,_,rfl⟩ := mem_modifySerial hrow
    · exact Or.inl hrow
    · exact absurd hrevoked (by simp only; split_ifs <;> decide)
  | expired =>
    obtain ⟨r,hr,rfl⟩ := Inventory.mem_modify.mp hrow
    split_ifs at hrevoked ⊢
    · cases hrevoked
    · exact Or.inl hr
  | superseded serial => exact Or.inl (revoked_setCertStatus hrow (by decide) hrevoked)

end Revoked

end FastPki.Cmp
