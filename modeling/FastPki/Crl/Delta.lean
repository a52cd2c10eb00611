import FastPki.Crl.Generate

namespace FastPki.Crl
open Certs

/-- The certificate table and the clock. -/
structure State where
  db : Inventory
  clock : Int

inductive Act where
  | tick (seconds : Nat)
  | insertCert (row : Row)
  | revokeCert (serial : String) (reason : Int)
  | releaseHold (serial : String)
  | markExpiredNow

def step (s : State) : Act → State
  | .tick seconds => { s with clock := s.clock+seconds }
  | .insertCert row => { s with db := (s.db.insertCert row).getD s.db }
  | .revokeCert serial reason => { s with db := (s.db.revokeCert serial reason s.clock).1 }
  | .releaseHold serial => { s with db := (s.db.releaseHold serial s.clock).1 }
  | .markExpiredNow => { s with db := s.db.markExpiredNow s.clock }

/-- Rows are inserted unrevoked, under the serial of their certificate, and every caller of
`revoke_cert` has its reason checked. -/
def Admitted : Act → Prop
  | .insertCert row => revoked row.toCertRow=false ∧ ∃ n,row.serial=serialHex n
  | .revokeCert _ reason => revocationReasonRefusal reason=""
  | _ => True

/-- Serials are spelled by `x509_serial_hex`, and no revocation has the reason of a release. -/
structure Proper (db : Inventory) : Prop where
  spelled : Spelled db
  reason : ∀ row∈db.rows,revoked row.toCertRow=true → row.revocationReason.getD 0≠removeFromCrl

/-- A client's update of its base CRL: the serials of the delta are dropped, then its entries
are added, except where they say removeFromCRL. -/
def applyDelta (full delta : List Entry) : List Entry :=
  full.filter (fun e => ¬delta.any fun d => d.serial = e.serial)++
    delta.filter fun d => d.reason ≠ removeFromCrl

section Entries

variable {db : Inventory} (hspelled : Spelled db) {x : String} {e : Entry}
include hspelled

theorem mem_full : e∈crlEntries db x 0 ↔
    ∃ row,db.find (serialHex e.serial)=some row ∧ covered db x row=true ∧
      revocation row.toCertRow=some (e.reason,e.date) := by
  have hsort : e∈crlEntries db x 0 ↔ e∈(crlRows db x revoked).filterMap RevokedCert.entry := by
    simp [crlEntries,getRevokedCerts,List.mem_insertionSort]
  rw [hsort,mem_filterMap_crlRows hspelled]
  constructor
  · intro h
    obtain ⟨row,hfind,hrev,hcov,hreason,hdate⟩ := h
    exact ⟨row,hfind,hcov,by rw [revocation,if_pos hrev,hreason,hdate]⟩
  · intro h
    obtain ⟨row,hfind,hcov,hrev⟩ := h
    simp only [revocation] at hrev
    split_ifs at hrev with hstatus
    obtain ⟨hreason,hdate⟩ := Prod.mk.inj (Option.some.inj hrev)
    exact ⟨row,hfind,hstatus,hcov,hreason.symm,hdate.symm⟩

/-- The entry of a row in a delta: its revocation since the base, or its release. -/
theorem mem_delta {base : Int} (hbase : 0<base) : e∈crlEntries db x base ↔
    ∃ row,db.find (serialHex e.serial)=some row ∧ covered db x row=true ∧ base≤e.date ∧
      (revocation row.toCertRow=some (e.reason,e.date) ∨
        (releasedSince base row.toCertRow=true ∧ e.reason=removeFromCrl ∧
          e.date=row.revocationDate.getD 0)) := by
  have hsort : e∈crlEntries db x base ↔
      ∃ rc,(rc∈getRevokedCerts db x ∨
          ∃ rel∈getReleasedHolds db x base,{ rel with reason := removeFromCrl }=rc) ∧
        base ≤ rc.date ∧ rc.entry=some e := by
    simp only [crlEntries,gt_iff_lt,hbase,true_and,List.mem_insertionSort,
      List.mem_filterMap,List.mem_filter,List.mem_append,decide_eq_true_eq,not_lt]
    grind
  rw [hsort]
  constructor
  · intro h
    obtain ⟨rc,hrc|⟨rel,hrel,rfl⟩,hdate,hentry⟩ := h
    · obtain ⟨row,hrow,hrev,hcov,rfl⟩ := mem_crlRows.mp hrc
      obtain ⟨hfind,hr,hd⟩ := (entry_of_row hspelled hrow).mp hentry
      refine ⟨row,hfind,hcov,hd ▸ hdate,Or.inl ?_⟩
      rw [revocation,if_pos hrev,hr,hd]
    · obtain ⟨row,hrow,hstate,hcov,rfl⟩ := mem_crlRows.mp hrel
      obtain ⟨hfind,hr,hd⟩ := (entry_of_row hspelled hrow).mp hentry
      exact ⟨row,hfind,hcov,hd ▸ hdate,Or.inr ⟨hstate,hr,hd⟩⟩
  · intro h
    obtain ⟨row,hfind,hcov,hdate,hrev|⟨hrel,hr,hd⟩⟩ := h
    · have hrow := (Keyed.find_eq_some.mp hfind).1
      simp only [revocation] at hrev
      split_ifs at hrev with hstatus
      obtain ⟨hr,hd⟩ := Prod.mk.inj (Option.some.inj hrev)
      exact ⟨_,Or.inl (mem_crlRows.mpr ⟨row,hrow,hstatus,hcov,rfl⟩),hd ▸ hdate,
        (entry_of_row hspelled hrow).mpr ⟨hfind,hr.symm,hd.symm⟩⟩
    · have hrow := (Keyed.find_eq_some.mp hfind).1
      exact ⟨_,Or.inr ⟨_,mem_crlRows.mpr ⟨row,hrow,hrel,hcov,rfl⟩,rfl⟩,hd ▸ hdate,
        (entry_of_row hspelled hrow).mpr ⟨hfind,hr,hd⟩⟩

end Entries

/-- What a row can say at a later time, where its revocation was `old` at time `since`. -/
def Traced (since : Int) (old : Option (Int × Int)) (row : CertRow) : Prop :=
  revocation row=old ∨ (revoked row=true ∧ since ≤ row.revocationDate.getD 0) ∨
    releasedSince since row=true

section Traced

variable {since now : Int} {old : Option (Int × Int)} {row : CertRow}

theorem Traced.revoke (hnow : since≤now) (reason : Int) :
    Traced since old { row with status := some (-1)
                                revocationReason := some reason
                                revocationDate := some now } :=
  Or.inr (Or.inl ⟨rfl,hnow⟩)

theorem Traced.release (hnow : since≤now) {status : Int} (hstatus : status=0 ∨ status=1) :
    Traced since old { row with status := some status
                                revocationReason := some 8
                                revocationDate := some now } := by
  refine Or.inr (Or.inr ?_)
  obtain rfl|rfl := hstatus <;> simpa [releasedSince] using hnow

theorem Traced.expire (h : Traced since old row) (hvalid : row.status=some 0) :
    Traced since old { row with status := some 1 } := by
  obtain hold|⟨hrev,_⟩|hrel := h
  · refine Or.inl ?_
    rw [← hold]
    simp [revocation,revoked,hvalid]
  · rw [revoked,hvalid] at hrev
    cases hrev
  · refine Or.inr (Or.inr ?_)
    simp only [releasedSince,hvalid] at hrel ⊢
    simpa using hrel

end Traced

/-- What a run makes of the table of its start. -/
structure Since (start s : State) : Prop where
  clock : start.clock ≤ s.clock
  kept : ∀ k row,start.db.find k=some row → ∃ c,s.db.find k=some { row with toCertRow := c }
  traced : ∀ k row,s.db.find k=some row →
    Traced start.clock ((start.db.find k).bind fun r => revocation r.toCertRow) row.toCertRow

theorem Since.refl (s : State) : Since s s where
  clock := le_rfl
  kept k row h := ⟨row.toCertRow,h⟩
  traced k row h := Or.inl (by rw [h]; rfl)

section Since

variable {start s : State}

theorem Since.modify (h : Since start s) {cond : Row → Bool} {set : CertRow → CertRow}
    (hset : ∀ old row,cond row=true → Traced start.clock old row.toCertRow →
      Traced start.clock old (set row.toCertRow)) :
    Since start { s with db := s.db.modify cond set } where
  clock := h.clock
  kept k row hrow := by
    obtain ⟨c,hc⟩ := h.kept k row hrow
    rw [Inventory.find_modify,hc]
    simp only [Option.map_some]
    split_ifs
    · exact ⟨set c,rfl⟩
    · exact ⟨c,rfl⟩
  traced k row hrow := by
    rw [Inventory.find_modify] at hrow
    obtain ⟨row0,hrow0,rfl⟩ := Option.map_eq_some_iff.mp hrow
    have htraced := h.traced k row0 hrow0
    split_ifs with hcond
    · exact hset _ row0 hcond htraced
    · exact htraced

theorem Since.insert (h : Since start s) {row : Row} (hrow : revoked row.toCertRow=false) :
    Since start { s with db := (s.db.insertCert row).getD s.db } := by
  cases hins : s.db.insertCert row with
  | none => exact h
  | some u =>
    have hfind := Keyed.find_insert hins
    have hfree : s.db.find row.serial=none := by
      have hnone := (Keyed.insert_eq_some hins).1
      simpa [Keyed.find,lookup] using hnone
    refine ⟨h.clock,fun k r hr => ?_,fun k r hr => ?_⟩
    · obtain ⟨c,hc⟩ := h.kept k r hr
      have hne : row.serial≠k := by
        intro hk
        rw [← hk,hfree] at hc
        cases hc
      exact ⟨c,by simpa [hfind k,hne] using hc⟩
    · simp only [Option.getD_some] at hr
      rw [hfind k] at hr
      split_ifs at hr with hk
      · obtain rfl := Option.some.inj hr
        -- no row of the start had this serial, and the new row is not revoked
        have hstart : start.db.find k=none := by
          cases hold : start.db.find k with
          | none => rfl
          | some old =>
            obtain ⟨c,hc⟩ := h.kept k old hold
            rw [← hk,hfree] at hc
            cases hc
        rw [hstart]
        exact Or.inl (by simp [revocation,hrow])
      · exact h.traced k r hr

theorem Since.step (h : Since start s) {a : Act} (ha : Admitted a) : Since start (step s a) := by
  cases a with
  | tick seconds =>
    have hclock := h.clock
    exact ⟨by simp only [Crl.step]; omega,h.kept,h.traced⟩
  | insertCert row => exact h.insert ha.1
  | revokeCert serial reason =>
    simp only [Crl.step,Inventory.revokeCert,Inventory.modifySerial]
    refine h.modify ?_
    intro old row _ _
    exact Traced.revoke h.clock reason
  | releaseHold serial =>
    simp only [Crl.step,Inventory.releaseHold,Inventory.modifySerial]
    refine h.modify ?_
    intro old row _ _
    apply Traced.release h.clock
    split_ifs
    · exact Or.inr rfl
    · exact Or.inl rfl
  | markExpiredNow =>
    simp only [Crl.step,Inventory.markExpiredNow]
    refine h.modify ?_
    intro old row hcond htraced
    apply htraced.expire
    simp only [expiredBy,decide_eq_true_eq] at hcond
    exact hcond.1

end Since

section Proper

variable {db : Inventory}

theorem Proper.modify (h : Proper db) {cond : Row → Bool} {set : CertRow → CertRow}
    (hset : ∀ row,cond row=true → revoked (set row.toCertRow)=true →
      (set row.toCertRow).revocationReason.getD 0≠removeFromCrl) : Proper (db.modify cond set) where
  spelled := h.spelled.modify cond set
  reason row hrow := by
    obtain ⟨r,hr,rfl⟩ := Inventory.mem_modify.mp hrow
    split_ifs with hcond
    · exact hset r hcond
    · exact h.reason r hr

theorem Proper.step {s : State} (h : Proper s.db) {a : Act} (ha : Admitted a) :
    Proper (step s a).db := by
  cases a with
  | tick seconds => exact h
  | insertCert row =>
    simp only [Crl.step]
    cases hins : s.db.insertCert row with
    | none => exact h
    | some u =>
      have hrows := (Keyed.insert_eq_some hins).2
      simp only [Option.getD_some]
      refine ⟨fun r hr => ?_,fun r hr hrev => ?_⟩
      · obtain hr|hr := List.mem_append.mp (hrows ▸ hr)
        · exact h.spelled r hr
        · rw [List.mem_singleton.mp hr]
          exact ha.2
      · obtain hr|hr := List.mem_append.mp (hrows ▸ hr)
        · exact h.reason r hr hrev
        · rw [List.mem_singleton.mp hr,ha.1] at hrev
          cases hrev
  | revokeCert serial reason =>
    simp only [Crl.step,Inventory.revokeCert,Inventory.modifySerial]
    refine h.modify ?_
    intro row _ _
    exact ne_removeFromCrl_of_accepted ha
  | releaseHold serial =>
    simp only [Crl.step,Inventory.releaseHold,Inventory.modifySerial]
    refine h.modify ?_
    intro row _ hrev
    simp only [revoked] at hrev
    split_ifs at hrev <;> cases hrev
  | markExpiredNow =>
    simp only [Crl.step,Inventory.markExpiredNow]
    refine h.modify ?_
    intro row _ hrev
    cases hrev

end Proper

theorem mem_applyDelta {full delta : List Entry} {e : Entry} : e∈applyDelta full delta ↔
    (e∈full ∧ ∀ d∈delta,d.serial≠e.serial) ∨ (e∈delta ∧ e.reason≠removeFromCrl) := by
  simp [applyDelta]

theorem revoked_of_revocation {row : CertRow} {r d : Int} (h : revocation row=some (r,d)) :
    revoked row=true ∧ row.revocationReason.getD 0=r ∧ row.revocationDate.getD 0=d := by
  simp only [revocation] at h
  split_ifs at h with hrev
  obtain ⟨hreason,hdate⟩ := Prod.mk.inj (Option.some.inj h)
  exact ⟨hrev,hreason,hdate⟩

theorem not_revoked_of_released {since : Int} {row : CertRow} (h : releasedSince since row=true) :
    revoked row=false ∧ since ≤ row.revocationDate.getD 0 := by
  simp only [releasedSince,decide_eq_true_eq] at h
  obtain ⟨hstatus,_,hdate⟩ := h
  constructor
  · obtain hst|hst|hst := hstatus <;> simp [revoked,hst]
  · obtain ⟨d,hd,hge⟩ := (Option.any_eq_true _ _).mp hdate
    simpa [hd] using hge

section Complete

variable {n t : State} (hn : Proper n.db) (ht : Proper t.db) (hsince : Since n t)
  (hclock : 0<n.clock) {x : String}
include hn ht hsince hclock

/-- A row that the base CRL lists is listed alike at the later time, or named by the delta. -/
theorem base_kept_or_named (hmember : ∀ row∈n.db.rows,covered t.db x row=covered n.db x row)
    {e : Entry} (he : e∈crlEntries n.db x 0) :
    e∈crlEntries t.db x 0 ∨ ∃ d∈crlEntries t.db x n.clock,d.serial=e.serial := by
  obtain ⟨row,hfind,hcov,hrev⟩ := (mem_full hn.spelled).mp he
  obtain ⟨c,hc⟩ := hsince.kept _ row hfind
  have hcovt : covered t.db x { row with toCertRow := c }=true :=
    (hmember row (Keyed.find_eq_some.mp hfind).1).trans hcov
  have htraced := hsince.traced _ _ hc
  rw [hfind,Option.bind_some,hrev] at htraced
  obtain hsame|⟨hrevoked,hdate⟩|hrel := htraced
  · exact Or.inl ((mem_full ht.spelled).mpr ⟨_,hc,hcovt,hsame⟩)
  · refine Or.inr ⟨⟨e.serial,c.revocationReason.getD 0,c.revocationDate.getD 0⟩,?_,rfl⟩
    exact (mem_delta ht.spelled hclock).mpr ⟨_,hc,hcovt,hdate,Or.inl (if_pos hrevoked)⟩
  · refine Or.inr ⟨⟨e.serial,removeFromCrl,c.revocationDate.getD 0⟩,?_,rfl⟩
    exact (mem_delta ht.spelled hclock).mpr
      ⟨_,hc,hcovt,(not_revoked_of_released hrel).2,Or.inr ⟨hrel,rfl,rfl⟩⟩

/-- An entry of the later CRL older than the base is an entry of the base that no delta names. -/
theorem old_entry_in_base (hmember : ∀ row∈n.db.rows,covered t.db x row=covered n.db x row)
    {e : Entry} (he : e∈crlEntries t.db x 0) (hold : e.date<n.clock) :
    e∈crlEntries n.db x 0 ∧ ∀ d∈crlEntries t.db x n.clock,d.serial≠e.serial := by
  obtain ⟨row,hfind,hcov,hrev⟩ := (mem_full ht.spelled).mp he
  obtain ⟨hrevoked,_,hdate⟩ := revoked_of_revocation hrev
  constructor
  · obtain hsame|⟨_,hnew⟩|hrel := hsince.traced _ _ hfind
    · rw [hrev] at hsame
      obtain ⟨row0,hfind0,hrev0⟩ := Option.bind_eq_some_iff.mp hsame.symm
      obtain ⟨c,hc⟩ := hsince.kept _ row0 hfind0
      obtain rfl := Option.some.inj (hfind.symm.trans hc)
      have hcov0 := (hmember row0 (Keyed.find_eq_some.mp hfind0).1).symm.trans hcov
      exact (mem_full hn.spelled).mpr ⟨row0,hfind0,hcov0,hrev0⟩
    · rw [hdate] at hnew
      exact absurd hnew (not_le.mpr hold)
    · rw [(not_revoked_of_released hrel).1] at hrevoked
      cases hrevoked
  · intro d hd hserial
    obtain ⟨row',hfind',_,hge,hcase⟩ := (mem_delta ht.spelled hclock).mp hd
    rw [hserial] at hfind'
    obtain rfl := Option.some.inj (hfind.symm.trans hfind')
    obtain hrev'|⟨hrel,_⟩ := hcase
    · have hdd := (revoked_of_revocation hrev').2.2
      rw [hdate] at hdd
      omega
    · rw [(not_revoked_of_released hrel).1] at hrevoked
      cases hrevoked

theorem mem_applyDelta_iff (hmember : ∀ row∈n.db.rows,covered t.db x row=covered n.db x row)
    (e : Entry) : e∈applyDelta (crlEntries n.db x 0) (crlEntries t.db x n.clock) ↔
      e∈crlEntries t.db x 0 := by
  rw [mem_applyDelta]
  constructor
  · intro h
    obtain ⟨hfull,hfree⟩|⟨hdelta,hreason⟩ := h
    · obtain hkept|⟨d,hd,hserial⟩ := base_kept_or_named hn ht hsince hclock hmember hfull
      · exact hkept
      · exact absurd hserial (hfree d hd)
    · obtain ⟨row,hfind,hcov,_,hrev|⟨_,hremove,_⟩⟩ := (mem_delta ht.spelled hclock).mp hdelta
      · exact (mem_full ht.spelled).mpr ⟨row,hfind,hcov,hrev⟩
      · exact absurd hremove hreason
  · intro h
    obtain hold|hnew := lt_or_ge e.date n.clock
    · exact Or.inl (old_entry_in_base hn ht hsince hclock hmember h hold)
    · obtain ⟨row,hfind,hcov,hrev⟩ := (mem_full ht.spelled).mp h
      obtain ⟨hrevoked,hreason,_⟩ := revoked_of_revocation hrev
      refine Or.inr ⟨(mem_delta ht.spelled hclock).mpr ⟨row,hfind,hcov,hnew,Or.inl hrev⟩,?_⟩
      rw [← hreason]
      exact ht.reason row (Keyed.find_eq_some.mp hfind).1 hrevoked

end Complete

/-- The base CRL of time N, updated by the delta asked for base N, has the entries of the full
CRL of that later time. -/
theorem delta_completes_base (days : Int) (s : State) (hs : Proper s.db) (pre post : List Act)
    (hadm : Along step (fun _ => Admitted) s (pre++post)) (x : String) :
    let n := run step s pre
    let t := run step s (pre++post)
    let full := generateCrl days n.db x n.clock 0
    0<n.clock → (∀ row∈n.db.rows,covered t.db x row=covered n.db x row) →
    ∀ e,e∈applyDelta full.entries (generateCrl days t.db x t.clock full.number).entries ↔
      e∈(generateCrl days t.db x t.clock 0).entries := by
  intro n t full hclock hmember e
  obtain ⟨hpre,hpost⟩ := along_append.mp hadm
  have hn : Proper n.db := hpre.invariant (I := fun s => Proper s.db) (fun _ _ h ha => h.step ha) hs
  have ht : Proper t.db := hadm.invariant (I := fun s => Proper s.db) (fun _ _ h ha => h.step ha) hs
  have hsince : Since n t := by
    simp only [t]
    rw [run_append]
    exact hpost.invariant (I := Since n) (fun _ _ h ha => h.step ha) (Since.refl n)
  exact mem_applyDelta_iff hn ht hsince hclock hmember e

/-- A leaf of the CA "sub" as it is issued, under this serial number. -/
def leafRow (n : Int) : Row where
  status := some 0
  revocationReason := some 0
  revocationDate := some 0
  notAfter := some 9000
  serial := serialHex n
  notBefore := some 100
  owner := "alice"
  cert := []
  caInstanceId := some "sub"
  sHash := none
  iHash := none
  isCa := false
  id := none
  caEnabled := none
  privateKey := ""
  certId := none
  insSeq := some n

def oneHeldRows : List Row :=
  [leafRow 31,{ leafRow 32 with
    toCertRow := ⟨some (-1),some 6,some 500,some 9000⟩ }]

theorem oneHeldRows_distinct : (oneHeldRows.map Row.serial).Nodup := by decide

/-- One valid leaf, and one on hold since time 500. -/
def oneHeld : State := ⟨⟨oneHeldRows,oneHeldRows_distinct⟩,999⟩

theorem oneHeld_proper : Proper oneHeld.db := by
  constructor
  · intro row hrow
    obtain rfl|hrow := List.mem_cons.mp hrow
    · exact ⟨31,rfl⟩
    · rw [List.mem_singleton.mp hrow]
      exact ⟨32,rfl⟩
  · decide

/-- After the base: a revocation and a release. -/
def revokeAndRelease : List Act := [.revokeCert (serialHex 31) 1,.releaseHold (serialHex 32),.tick 5]

theorem delta_completes_base_release : Proper oneHeld.db ∧
    ∀ e,e∈applyDelta (generateCrl 7 (run step oneHeld [.tick 1]).db "sub" 1000 0).entries
        (generateCrl 7 (run step oneHeld (.tick 1::revokeAndRelease)).db "sub" 1005 1000).entries ↔
      e∈(generateCrl 7 (run step oneHeld (.tick 1::revokeAndRelease)).db "sub" 1005 0).entries := by
  have hreason : revocationReasonRefusal 1="" := by decide
  exact ⟨oneHeld_proper,delta_completes_base 7 oneHeld oneHeld_proper [.tick 1] revokeAndRelease
    ⟨trivial,hreason,trivial,trivial,trivial⟩ "sub" (by decide) (by decide)⟩

end FastPki.Crl
