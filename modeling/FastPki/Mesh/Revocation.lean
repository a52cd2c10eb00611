import FastPki.Framework.Replica
import FastPki.Mesh.Merge

namespace FastPki.Mesh
open Certs

/-- The writers of `status` in the database layer, on the row of one serial. -/
inductive Write where
  | revokeCert (reason whenUnix : Int)
  | releaseHold (whenUnix : Int)
  | markExpiredNow (now : Int)
  | setCertStatus (status : Int)
  deriving DecidableEq

/-- The row after the UPDATE, or nothing when its WHERE clause leaves the row out. -/
def writeRow : Write → CertRow → Option CertRow
  | .revokeCert reason whenUnix,row =>
    if revocable reason row then
      some { row with status := some (-1)
                      revocationReason := some reason
                      revocationDate := some whenUnix }
    else none
  | .releaseHold whenUnix,row =>
    if Certs.onHold row then
      some { row with
        status := some (if row.notAfter.getD 0>0 ∧ row.notAfter.getD 0≤whenUnix then 1 else 0)
        revocationReason := some 8
        revocationDate := some whenUnix }
    else none
  | .markExpiredNow now,row =>
    if expiredBy now row then some { row with status := some 1 } else none
  | .setCertStatus status,row => some { row with status := some status }

/-- The same writers on the whole table. -/
def writeTable (t : CertTable) (serial : String) : Write → CertTable
  | .revokeCert reason whenUnix => (Certs.revokeCert t serial reason whenUnix).1
  | .releaseHold whenUnix => (Certs.releaseHold t serial whenUnix).1
  | .markExpiredNow now => Certs.markExpiredNow t now
  | .setCertStatus status => (Certs.setCertStatus t serial status).1

theorem updateRow_self (t : CertTable) (serial : String) (cond : CertRow → Bool)
    (set : CertRow → CertRow) : (updateRow t serial cond set).1 serial=
      (t serial).map fun row => (if cond row then some (set row) else none).getD row := by
  simp only [updateRow]
  cases hrow : t serial with
  | none => exact hrow
  | some row =>
    dsimp only
    split_ifs with hc
    · simp [hc]
    · simp [hrow,hc]

/-- One row under the writers is one row of the table under them. -/
theorem writeTable_self (t : CertTable) (serial : String) (op : Write) :
    writeTable t serial op serial=(t serial).map fun row => (writeRow op row).getD row := by
  cases op with
  | revokeCert reason whenUnix => exact updateRow_self t serial _ _
  | releaseHold whenUnix => exact updateRow_self t serial _ _
  | markExpiredNow now =>
    simp only [writeTable,Certs.markExpiredNow,writeRow]
    congr 1
    funext row
    split_ifs <;> rfl
  | setCertStatus status =>
    simp only [writeTable,Certs.setCertStatus,updateRow_self]
    rfl

/-- What logical replication carries: the whole published row. -/
inductive Change where
  | insert (new : Copy)
  | update (new : Copy)
  deriving DecidableEq

def writeCopy (op : Write) (cur : Copy) : Option (Copy × Change) :=
  (writeRow op cur.toCertRow).map fun row =>
    ({ cur with toCertRow := row },.update { cur with toCertRow := row })

/-- An INSERT goes through the trigger; an UPDATE has no trigger and overwrites the row. -/
def applyChange : Change → Copy → Copy
  | .insert new,cur => certsSkipDup cur new
  | .update new,_ => new

variable {N : Type*} [DecidableEq N]

abbrev CertMesh (N : Type*) := Replicas N Copy Change

def step (s : CertMesh N) (a : Act N Write) : CertMesh N := Replicas.step writeCopy applyChange s a

def RevokedForGood (c : Copy) : Prop := classOf c=.revokedForGood

instance (c : Copy) : Decidable (RevokedForGood c) := inferInstanceAs (Decidable (_=_))

theorem revokedForGood_iff_mark {c : Copy} : RevokedForGood c ↔ mark c=.final := by
  rw [RevokedForGood,classOf_eq]
  cases mark c <;> simp [Mark.toClass]

theorem revokedForGood_iff {c : Copy} :
    RevokedForGood c ↔ c.status=some (-1) ∧ reason c≠6 := by
  simp only [RevokedForGood,classOf]
  split_ifs with hs h6
  · simp [h6]
  · simp [hs,h6]
  · simp [hs]

theorem RevokedForGood.certsSkipDup {cur : Copy} (h : RevokedForGood cur) (new : Copy) :
    RevokedForGood (certsSkipDup cur new) := by
  rw [revokedForGood_iff_mark] at h ⊢
  rw [mark_certsSkipDup,h]
  rfl

/-- Every writer but the unguarded one leaves out a row that is revoked for good. -/
theorem RevokedForGood.refuses {c : Copy} (h : RevokedForGood c) {op : Write}
    (hop : ∀ status,op≠.setCertStatus status) : writeCopy op c=none := by
  obtain ⟨hs,h6⟩ := revokedForGood_iff.mp h
  have h6' : c.revocationReason.getD 0≠6 := h6
  cases op with
  | revokeCert reason whenUnix => simp [writeCopy,writeRow,revocable,hs,h6']
  | releaseHold whenUnix => simp [writeCopy,writeRow,Certs.onHold,hs,h6']
  | markExpiredNow now => simp [writeCopy,writeRow,expiredBy,hs]
  | setCertStatus status => exact absurd rfl (hop status)

theorem revokedForGood_revokeCert {c c' : Copy} {m : Change} {r d : Int} (hr : r≠6)
    (h : writeCopy (.revokeCert r d) c=some (c',m)) : m=.update c' ∧ RevokedForGood c' := by
  obtain ⟨row,hrow,hc⟩ := Option.map_eq_some_iff.mp h
  obtain ⟨rfl,rfl⟩ := Prod.mk.inj hc
  simp only [writeRow] at hrow
  split_ifs at hrow
  obtain rfl := Option.some.inj hrow
  exact ⟨rfl,revokedForGood_iff.mpr ⟨rfl,hr⟩⟩

/-- A replicated UPDATE that brings a row not revoked for good does not meet one that is. -/
def KeepsRevocation (s : CertMesh N) : Act N Write → Prop
  | .commit _ _ => True
  | .deliver i j => ∀ new,(s.flight i j).head?=some (.update new) →
    RevokedForGood (s.row j) → RevokedForGood new

theorem applyChange_keeps_iff {cur : Copy} (h : RevokedForGood cur) (m : Change) :
    RevokedForGood (applyChange m cur) ↔ ∀ new,m=.update new → RevokedForGood new := by
  cases m with
  | insert new => exact iff_of_true (h.certsSkipDup new) (by simp)
  | update new => simp [applyChange]

/-- One step takes a revocation for good from no node exactly when it keeps the rule. -/
theorem step_keeps_iff {s : CertMesh N} {a : Act N Write}
    (hset : ∀ i status,a≠.commit i (.setCertStatus status)) :
    (∀ j,RevokedForGood (s.row j) → RevokedForGood ((step s a).row j)) ↔ KeepsRevocation s a := by
  cases a with
  | commit i op =>
    refine iff_of_true (fun j hj => ?_) trivial
    cases hw : writeCopy op (s.row i) with
    | none => rwa [step,Replicas.step_refused hw]
    | some out =>
      obtain ⟨r,m⟩ := out
      rw [step,Replicas.step_commit hw]
      have hij : j≠i := by
        intro h
        subst h
        rw [hj.refuses (fun status hop => hset j status (by rw [hop]))] at hw
        cases hw
      simpa [Function.update_of_ne hij] using hj
  | deliver i j =>
    simp only [KeepsRevocation]
    cases hf : s.flight i j with
    | nil =>
      rw [step,Replicas.step_idle hf]
      simp
    | cons m ms =>
      rw [step,Replicas.step_deliver hf]
      simp only [List.head?_cons,Option.some.injEq]
      constructor
      · intro h new hm hj
        have hrow := h j hj
        rw [Function.update_self,hm] at hrow
        exact hrow
      · intro h k hk
        by_cases hkj : k=j
        · subst hkj
          rw [Function.update_self]
          exact (applyChange_keeps_iff hk m).mpr fun new hm => h new hm hk
        · rwa [Function.update_of_ne hkj]

/-- The node that revoked for good, and what it has sent to each of the others. -/
def Spreads (i : N) (s : CertMesh N) : Prop :=
  RevokedForGood (s.row i) ∧
    ∀ j,RevokedForGood (s.row j) ∨ ∃ c,.update c∈s.flight i j ∧ RevokedForGood c

theorem Spreads.of_revoke {i : N} {s : CertMesh N} {r d : Int} (hr : r≠6)
    (h : writeCopy (.revokeCert r d) (s.row i)≠none) :
    Spreads i (step s (.commit i (.revokeCert r d))) := by
  obtain ⟨⟨c,m⟩,hw⟩ := Option.ne_none_iff_exists'.mp h
  obtain ⟨rfl,hc⟩ := revokedForGood_revokeCert hr hw
  rw [step,Replicas.step_commit hw]
  refine ⟨by simpa using hc,fun j => ?_⟩
  by_cases hj : j=i
  · subst hj
    left
    simpa using hc
  · exact Or.inr ⟨c,Replicas.mem_send.mpr (Or.inr ⟨rfl,hj,rfl⟩),hc⟩

theorem Spreads.step {i : N} {s : CertMesh N} {a : Act N Write} (h : Spreads i s)
    (hset : ∀ k status,a≠.commit k (.setCertStatus status)) (hkeep : KeepsRevocation s a) :
    Spreads i (step s a) := by
  have keeps := (step_keeps_iff hset).mpr hkeep
  refine ⟨keeps i h.1,fun j => ?_⟩
  obtain hj|⟨c,hc,hgood⟩ := h.2 j
  · exact Or.inl (keeps j hj)
  refine Replicas.step_keeps (C := fun t : CertMesh N => RevokedForGood (t.row j) ∨
    ∃ c,.update c∈t.flight i j ∧ RevokedForGood c) (Or.inr ⟨c,hc,hgood⟩) ?_ ?_
  · intro k op out m _ _
    exact Or.inr ⟨c,Replicas.mem_send.mpr (Or.inl hc),hgood⟩
  · intro k l m ms _ hf
    obtain hstay|⟨rfl,rfl,rfl⟩ := Replicas.mem_receive_or hf hc
    · exact Or.inr ⟨c,hstay,hgood⟩
    · left
      simpa [applyChange] using hgood

/-- In every run from every state: once a node has revoked for good and everything has been
delivered, every node has the certificate revoked for good, as long as no replicated UPDATE of a
row not revoked for good met a row that was. -/
theorem mesh_revocation_kept (s : CertMesh N) (before after : List (Act N Write)) (i : N) (r d : Int)
    (hr : r≠6) (hrev : writeCopy (.revokeCert r d) ((run step s before).row i)≠none)
    (hset : ∀ k status,.commit k (.setCertStatus status)∉after)
    (hkeep : Along step KeepsRevocation
      (run step s (before++[.commit i (.revokeCert r d)])) after)
    (hquiet : (run step s (before++.commit i (.revokeCert r d)::after)).Quiet) (j : N) :
    RevokedForGood ((run step s (before++.commit i (.revokeCert r d)::after)).row j) := by
  have hspread : Spreads i (run step s (before++.commit i (.revokeCert r d)::after)) := by
    rw [List.append_cons,run_append]
    refine Along.invariant (fun s a h hq => h.step hq.1 hq.2) (hkeep.and_mem ?_) ?_
    · intro a ha k status hop
      exact hset k status (hop ▸ ha)
    · rw [run_append]
      exact Spreads.of_revoke hr hrev
  obtain hj|⟨c,hc,_⟩ := hspread.2 j
  · exact hj
  · rw [hquiet i j] at hc
    cases hc

/-- Two nodes hold the same valid certificate, which has run out. -/
def bothValid : CertMesh (Fin 2) := ⟨fun _ => validCopy,fun _ _ => []⟩

theorem mesh_revocation_kept_over_hold :
    RevokedForGood ((run step bothValid ([.commit 1 (.revokeCert 6 900),.deliver 1 0]++
      .commit 0 (.revokeCert 1 1000)::[.deliver 0 1])).row 1) := by
  refine mesh_revocation_kept bothValid [.commit 1 (.revokeCert 6 900),.deliver 1 0]
    [.deliver 0 1] 0 1 1000 (by decide) (by decide) (by simp) ⟨?_,trivial⟩ ?_ 1
  · intro new _ hrow
    exact absurd hrow (by decide)
  · simp only [Replicas.Quiet]
    decide

/-- The node that revokes and a node that sweeps the expired rows exchange their UPDATEs: the
sweep undoes the revocation where it was made. -/
theorem mesh_revocation_lost_to_expiry_sweep :
    writeCopy (.revokeCert 1 6000) (bothValid.row 0)≠none ∧
    (run step bothValid [.commit 0 (.revokeCert 1 6000),.commit 1 (.markExpiredNow 6000),
      .deliver 0 1,.deliver 1 0]).Quiet ∧
    ¬RevokedForGood ((run step bothValid [.commit 0 (.revokeCert 1 6000),
      .commit 1 (.markExpiredNow 6000),.deliver 0 1,.deliver 1 0]).row 0) := by
  refine ⟨by decide,?_,by decide⟩
  simp only [Replicas.Quiet]
  decide

end FastPki.Mesh
