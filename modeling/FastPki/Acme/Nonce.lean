import FastPki.Framework.Keyed
import FastPki.Framework.Run
import FastPki.X509.Name
import Mathlib.Data.List.Induction

namespace FastPki.Acme.Nonce

open X509

structure NonceRow where
  nonce : Octets
  ip : Octets
  expires : Int
  deriving DecidableEq

abbrev Nonces := Keyed NonceRow.nonce

/-- `INSERT … ON CONFLICT (nonce) DO NOTHING`. -/
def saveNonce (t : Nonces) (nonce ip : Octets) (expires : Int) : Nonces :=
  (t.insert ⟨cString nonce,cString ip,expires⟩).getD t

/-- `DELETE FROM nonces WHERE nonce = $1`; whether a row went. -/
def consumeNonce (t : Nonces) (nonce : Octets) : Bool × Nonces :=
  (t.rows.any (·.nonce = cString nonce),t.delete (·.nonce = cString nonce))

def deleteExpiredNonces (t : Nonces) (now : Int) : Nonces := t.delete (·.expires < now)

/-- A call of any request or of the sweeper. A nonce is consumed at a time, which the statement does
not look at. -/
inductive NonceCall where
  | save (nonce ip : Octets) (expires : Int)
  | consume (nonce : Octets) (time : Int)
  | sweep (now : Int)
  deriving DecidableEq

def step (t : Nonces) : NonceCall → Nonces
  | .save nonce ip expires => saveNonce t nonce ip expires
  | .consume nonce _ => (consumeNonce t nonce).2
  | .sweep now => deleteExpiredNonces t now

/-- The table after these calls, in the order in which the database took them. -/
def after (calls : List NonceCall) : Nonces := run step ⟨[],List.nodup_nil⟩ calls

def accepted (before : List NonceCall) (nonce : Octets) : Prop :=
  (consumeNonce (after before) nonce).1=true

/-- A nonce accepted twice was saved again in between. -/
def SingleUse (calls : List NonceCall) : Prop :=
  ∀ pre mid post n m t u,calls=pre++.consume n t::(mid++.consume m u::post) →
    cString n=cString m → accepted pre n → accepted (pre++.consume n t::mid) m →
    ∃ s ip e,.save s ip e∈mid ∧ cString s=cString n

/-- No nonce is accepted later than it expires. -/
def ExpiryKept (calls : List NonceCall) : Prop :=
  ∀ pre post n t r,calls=pre++.consume n t::post → (after pre).find (cString n)=some r →
    accepted pre n → t≤r.expires

def Removes (r : NonceRow) : NonceCall → Prop
  | .save _ _ _ => False
  | .consume n _ => cString n=r.nonce
  | .sweep now => r.expires<now

/-- A nonce that comes after it has expired has been removed since it was stored, by the sweeper or
by an earlier use. -/
def SweptInTime (calls : List NonceCall) : Prop :=
  ∀ pre mid post s ip e n t,calls=pre++.save s ip e::(mid++.consume n t::post) →
    cString n=cString s → (after pre).find (cString s)=none → e<t →
    ∃ c∈mid,Removes ⟨cString s,cString ip,e⟩ c

section Steps

variable {t : Nonces} {c : NonceCall} {r : NonceRow}

theorem mem_saveNonce {s ip : Octets} {e : Int} : r∈(saveNonce t s ip e).rows ↔
    r∈t.rows ∨ (t.find (cString s)=none ∧ r=⟨cString s,cString ip,e⟩) := by
  rw [saveNonce]
  cases h : t.insert ⟨cString s,cString ip,e⟩ with
  | none =>
    have htaken : ¬t.find (cString s)=none := by
      intro hnone
      rw [Keyed.insert,dif_pos (Keyed.find_eq_none.mp hnone)] at h
      cases h
    simp [htaken]
  | some u =>
    obtain ⟨hfree,hrows⟩ := Keyed.insert_eq_some h
    have hnone : t.find (cString s)=none := Keyed.find_eq_none.mpr hfree
    rw [Option.getD_some,hrows,List.mem_append,List.mem_singleton,hnone]
    simp

/-- What the table holds after a call. -/
theorem mem_step : r∈(step t c).rows ↔ (r∈t.rows ∧ ¬Removes r c) ∨
    ∃ s ip,c=.save s ip r.expires ∧ r.nonce=cString s ∧ r.ip=cString ip ∧ t.find r.nonce=none := by
  cases c with
  | save s ip e =>
    rw [step,mem_saveNonce]
    simp only [Removes,not_false_eq_true,and_true,NonceCall.save.injEq]
    constructor
    · rintro (hr|⟨hnone,rfl⟩)
      · exact Or.inl hr
      · exact Or.inr ⟨s,ip,⟨rfl,rfl,rfl⟩,rfl,rfl,hnone⟩
    · rintro (hr|⟨_,_,⟨rfl,rfl,rfl⟩,hnonce,hip,hnone⟩)
      · exact Or.inl hr
      · refine Or.inr ⟨hnonce ▸ hnone,?_⟩
        rw [← hnonce,← hip]
  | consume n u =>
    rw [step,consumeNonce,Keyed.mem_delete]
    simp [Removes,eq_comm]
  | sweep now =>
    rw [step,deleteExpiredNonces,Keyed.mem_delete]
    simp [Removes]

theorem accepted_iff {before : List NonceCall} {n : Octets} :
    accepted before n ↔ ∃ r,(after before).find (cString n)=some r := by
  rw [accepted,consumeNonce,List.any_eq_true]
  constructor
  · rintro ⟨r,hr,hn⟩
    exact ⟨r,Keyed.find_eq_some.mpr ⟨hr,of_decide_eq_true hn⟩⟩
  · rintro ⟨r,hr⟩
    obtain ⟨hmem,hn⟩ := Keyed.find_eq_some.mp hr
    exact ⟨r,hmem,decide_eq_true hn⟩

end Steps

section Runs

variable {t : Nonces} {calls pre mid : List NonceCall} {r : NonceRow}

/-- A row stays through calls none of which removes it. -/
theorem mem_run_of_mem (hr : r∈t.rows) (hstay : ∀ c∈mid,¬Removes r c) :
    r∈(run step t mid).rows := by
  induction mid generalizing t with
  | nil => exact hr
  | cons c mid ih =>
    rw [run_cons]
    apply ih
    · exact mem_step.mpr (Or.inl ⟨hr,hstay c List.mem_cons_self⟩)
    · exact fun d hd => hstay d (List.mem_cons_of_mem _ hd)

/-- A row was stored by a save, and no call since has removed it. -/
theorem exists_save_of_mem (hr : r∈(after calls).rows) :
    ∃ pre mid s ip,calls=pre++.save s ip r.expires::mid ∧ r.nonce=cString s ∧ r.ip=cString ip ∧
      (after pre).find r.nonce=none ∧ ∀ c∈mid,¬Removes r c := by
  induction calls using List.reverseRecOn with
  | nil => cases hr
  | append_singleton calls c ih =>
    rw [after,run_append,run_cons,run_nil,mem_step] at hr
    rcases hr with ⟨hr,hstay⟩|⟨s,ip,rfl,hnonce,hip,hnone⟩
    · obtain ⟨pre,mid,s,ip,rfl,hnonce,hip,hnone,hmid⟩ := ih hr
      refine ⟨pre,mid++[c],s,ip,by simp,hnonce,hip,hnone,fun d hd => ?_⟩
      rcases List.mem_append.mp hd with hd|hd
      · exact hmid d hd
      · rw [List.mem_singleton.mp hd]
        exact hstay
    · refine ⟨calls,[],s,ip,rfl,hnonce,hip,hnone,fun d hd => ?_⟩
      cases hd

/-- Without a save of it a nonce that is gone stays gone. -/
theorem find_run_eq_none {k : Octets} (hgone : t.find k=none)
    (hsave : ∀ s ip e,.save s ip e∈mid → cString s≠k) : (run step t mid).find k=none := by
  induction mid generalizing t with
  | nil => exact hgone
  | cons c mid ih =>
    rw [run_cons]
    refine ih (Keyed.find_eq_none.mpr fun r hr => ?_) fun s ip e h =>
      hsave s ip e (List.mem_cons_of_mem _ h)
    rcases mem_step.mp hr with ⟨hr,-⟩|⟨s,ip,rfl,hnonce,-,-⟩
    · exact Keyed.find_eq_none.mp hgone r hr
    · rw [hnonce]
      exact hsave s ip _ List.mem_cons_self

theorem singleUse (calls : List NonceCall) : SingleUse calls := by
  intro pre mid post n m t u _ hsame _ hagain
  by_contra hno
  obtain ⟨r,hr⟩ := accepted_iff.mp hagain
  have hgone : (step (after pre) (.consume n t)).find (cString n)=none := by
    rw [Keyed.find_eq_none]
    intro x hx
    rcases mem_step.mp hx with ⟨-,hstay⟩|⟨s,ip,hc,-⟩
    · exact fun h => hstay h.symm
    · cases hc
  have hstill : (run step (step (after pre) (.consume n t)) mid).find (cString n)=none :=
    find_run_eq_none hgone fun s ip e hs h => hno ⟨s,ip,e,hs,h⟩
  rw [after,run_append,run_cons,← hsame] at hr
  rw [after] at hstill
  rw [hstill] at hr
  cases hr

end Runs

/-- A nonce is used once whatever the order of the calls, but that it expires is the sweeper's doing
alone. -/
theorem nonces_kept_iff_swept (calls : List NonceCall) :
    (SingleUse calls ∧ ExpiryKept calls) ↔ SweptInTime calls := by
  rw [and_iff_right (singleUse calls)]
  constructor
  · intro hkept pre mid post s ip e n t hcalls hn hnone hlate
    by_contra hno
    have hstored : ⟨cString s,cString ip,e⟩∈(step (after pre) (.save s ip e)).rows :=
      mem_step.mpr (Or.inr ⟨s,ip,rfl,rfl,rfl,hnone⟩)
    have hrow : ⟨cString s,cString ip,e⟩∈(after (pre++.save s ip e::mid)).rows := by
      rw [after,run_append,run_cons]
      exact mem_run_of_mem hstored fun c hc hrem => hno ⟨c,hc,hrem⟩
    have hfind : (after (pre++.save s ip e::mid)).find (cString n)=
        some ⟨cString s,cString ip,e⟩ := Keyed.find_eq_some.mpr ⟨hrow,hn.symm⟩
    have hle := hkept (pre++.save s ip e::mid) post n t _ (by rw [hcalls]; simp) hfind
      (accepted_iff.mpr ⟨_,hfind⟩)
    exact absurd hle (Int.not_le.mpr hlate)
  · intro hswept pre post n t r hcalls hfind _
    by_contra hlate
    obtain ⟨hmem,hkey⟩ := Keyed.find_eq_some.mp hfind
    obtain ⟨pre',mid,s,ip,rfl,hnonce,hip,hnone,hstay⟩ := exists_save_of_mem hmem
    obtain ⟨c,hc,hrem⟩ := hswept pre' mid post s ip r.expires n t (by rw [hcalls]; simp)
      (hkey.symm.trans hnonce) (hnonce ▸ hnone) (Int.not_le.mp hlate)
    rw [← hnonce,← hip] at hrem
    exact hstay c hc hrem

/-- A nonce that is good until 300, used at 301 before the sweeper has come. -/
def lateUse : List NonceCall :=
  [.save (octets "n") (octets "192.0.2.7") 300,.consume (octets "n") 301]

theorem expired_nonce_accepted :
    accepted (lateUse.take 1) (octets "n") ∧ ¬(SingleUse lateUse ∧ ExpiryKept lateUse) := by
  have hfind : (after (lateUse.take 1)).find (cString (octets "n"))=
      some ⟨octets "n",octets "192.0.2.7",300⟩ := by decide
  have hacc : accepted (lateUse.take 1) (octets "n") := accepted_iff.mpr ⟨_,hfind⟩
  refine ⟨hacc,fun h => ?_⟩
  have hle := h.2 (lateUse.take 1) [] (octets "n") 301 _ rfl hfind hacc
  exact absurd hle (by decide)

end FastPki.Acme.Nonce
