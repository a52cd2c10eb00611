import FastPki.Cmp.Server

namespace FastPki.Cmp

open X509
open Certs (Inventory Row)

section Live

/-- The message of an action that gets as far as the lock, and whether it is given to OpenSSL. -/
def arrives (a : Timed) : Option (Message × Bool) :=
  match a.act with
  | .message r _ => (readRequest r).toOption.map fun m => (m,(bindCa r a.nowUnix).isOk)
  | _ => none

/-- The message that the context of a transaction is given. -/
def reaches (txid : Octets) (a : Timed) : Option Message :=
  (arrives a).bind fun x => if x.2 ∧ cmpTxidHex x.1 = txid then some x.1 else none

theorem dispatch_txns (s : Server) (p : Pending) (nowUnix : Int) (call : Call) :
    (dispatch s p nowUnix call).txns=s.txns := by
  cases call with
  | certRequest certReqId enrolment =>
    simp only [dispatch,certRequestCb]
    split_ifs
    · rfl
    · split
      · rfl
      · split
        · rfl
        · split_ifs <;> rfl
  | rr serial rights fate =>
    simp only [dispatch,rrCb]
    split_ifs
    · rfl
    · split <;> rfl
  | certConf certReqId rejected fate =>
    simp only [dispatch,certconfCb]
    split <;> rfl
  | other => rfl

/-- What a message makes of the table. -/
def txnsAfter (txns : Txns) (now : Int) (m : Message) (given : Bool) : Txns :=
  let live := reapTxns txns now
  match openTxn live (cmpTxidHex m) now with
  | none => live
  | some txns => if given then giveTxn txns (cmpTxidHex m) m else txns

theorem step_txns (s : Server) (a : Timed) : (step s a).txns=
    (arrives a).elim s.txns fun x => txnsAfter s.txns a.now x.1 x.2 := by
  obtain ⟨act,now,nowUnix⟩ := a
  cases act with
  | message r call =>
    simp only [step,arrives,handleCmp]
    cases readRequest r with
    | error code => rfl
    | ok m =>
      simp only [Except.toOption,Option.map_some,Option.elim_some,txnsAfter]
      cases openTxn (reapTxns s.txns now) (cmpTxidHex m) now with
      | none => rfl
      | some txns =>
        cases bindCa r nowUnix with
        | error code => rfl
        | ok x => exact dispatch_txns _ _ _ _
  | insertCert row => rfl
  | revokeCert serial reason => rfl
  | releaseHold serial => rfl
  | markExpiredNow => rfl
  | supersede serial => rfl

theorem openTxn_eq_some {txns t : Txns} {txid : Octets} {now : Int}
    (h : openTxn txns txid now=some t) :
    (∃ x,lookup Prod.fst txid txns=some x ∧
      t=upsert Prod.fst (txid,{ x.2 with touched := now }) txns) ∨
    (txns.length < kMaxTxns ∧ t=upsert Prod.fst (txid,⟨[],now⟩) txns) := by
  rw [openTxn] at h
  split at h
  · rename_i x hx
    exact Or.inl ⟨x,hx,(Option.some.inj h).symm⟩
  · split_ifs at h with hroom
    exact Or.inr ⟨not_le.mp hroom,(Option.some.inj h).symm⟩

theorem length_txnsAfter {txns : Txns} (h : txns.length ≤ kMaxTxns) (now : Int) (m : Message)
    (given : Bool) : (txnsAfter txns now m given).length ≤ kMaxTxns := by
  have hlive : (reapTxns txns now).length ≤ kMaxTxns := (List.length_filter_le _ _).trans h
  have hopen : ∀ t,openTxn (reapTxns txns now) (cmpTxidHex m) now=some t → t.length ≤ kMaxTxns := by
    intro t ht
    obtain ⟨x,hx,rfl⟩|⟨hroom,rfl⟩ := openTxn_eq_some ht
    · rw [length_upsert_of_lookup (x := x) hx]
      exact hlive
    · exact (length_upsert_le _ _).trans hroom
  have hgive : ∀ t : Txns,(giveTxn t (cmpTxidHex m) m).length=t.length := by
    intro t
    rw [giveTxn]
    split
    · rename_i x hx
      exact length_upsert_of_lookup (x := x) hx
    · rfl
  simp only [txnsAfter]
  split
  · exact hlive
  · rename_i t ht
    split_ifs
    · rw [hgive]
      exact hopen t ht
    · exact hopen t ht

/-- A transaction that is not idle keeps its context, and that is given its own messages only. -/
theorem lookup_txnsAfter {txns : Txns} {txid : Octets} {t : Txn}
    (h : lookup Prod.fst txid txns=some (txid,t)) {now : Int} (hidle : now-t.touched ≤ kTxnIdle)
    (m : Message) (given : Bool) : ∃ t',
      lookup Prod.fst txid (txnsAfter txns now m given)=some (txid,t') ∧
      t'.given=t.given++(if given ∧ cmpTxidHex m=txid then some m else none).toList ∧
      (t'.touched=t.touched ∨ t'.touched=now) := by
  have hlive : lookup Prod.fst txid (reapTxns txns now)=some (txid,t) :=
    lookup_filter h (decide_eq_true hidle)
  simp only [txnsAfter]
  by_cases hown : cmpTxidHex m=txid
  · have hopen : openTxn (reapTxns txns now) (cmpTxidHex m) now=
        some (upsert Prod.fst (txid,{ t with touched := now }) (reapTxns txns now)) := by
      rw [openTxn,hown,hlive]
    have hself : lookup Prod.fst txid
        (upsert Prod.fst (txid,{ t with touched := now }) (reapTxns txns now))=
          some (txid,{ t with touched := now }) := lookup_upsert_self (txid,_) _
    rw [hopen]
    cases given with
    | false => exact ⟨_,hself,by simp,Or.inr rfl⟩
    | true =>
      refine ⟨⟨t.given++[m],now⟩,?_,by simp [hown],Or.inr rfl⟩
      change lookup Prod.fst txid (giveTxn _ (cmpTxidHex m) m)=_
      rw [giveTxn,hown,hself]
      exact lookup_upsert_self (txid,_) _
  · have hother : ∀ (u : Txn) (l : Txns),
        lookup Prod.fst txid (upsert Prod.fst (cmpTxidHex m,u) l)=lookup Prod.fst txid l :=
      fun u l => lookup_upsert_of_ne l hown
    have hopen : ∀ l,openTxn (reapTxns txns now) (cmpTxidHex m) now=some l →
        lookup Prod.fst txid l=some (txid,t) := by
      intro l hl
      obtain ⟨x,_,rfl⟩|⟨_,rfl⟩ := openTxn_eq_some hl
      · exact (hother _ _).trans hlive
      · exact (hother _ _).trans hlive
    have hnone : (if given=true ∧ cmpTxidHex m=txid then some m else none)=none :=
      if_neg fun hboth => hown hboth.2
    rw [hnone]
    refine ⟨t,?_,by simp,Or.inl rfl⟩
    split
    · exact hlive
    · rename_i l hl
      split_ifs
      · rw [giveTxn]
        split
        · exact (hother _ _).trans (hopen l hl)
        · exact hopen l hl
      · exact hopen l hl

/-- Each context was given messages of its own key only. -/
def ByKey (txns : Txns) : Prop := ∀ x∈txns,∀ m∈x.2.given,cmpTxidHex m=x.1

theorem ByKey.upsert {txns : Txns} (h : ByKey txns) {x : Octets × Txn}
    (hx : ∀ m∈x.2.given,cmpTxidHex m=x.1) : ByKey (upsert Prod.fst x txns) := by
  intro y hy
  obtain rfl|⟨hy,_⟩ := mem_upsert.mp hy
  · exact hx
  · exact h y hy

theorem ByKey.txnsAfter {txns : Txns} (h : ByKey txns) (now : Int) (m : Message) (given : Bool) :
    ByKey (txnsAfter txns now m given) := by
  have hlive : ByKey (reapTxns txns now) := fun x hx => h x (List.mem_of_mem_filter hx)
  have hopen : ∀ t,openTxn (reapTxns txns now) (cmpTxidHex m) now=some t → ByKey t := by
    intro t ht
    obtain ⟨x,hx,rfl⟩|⟨_,rfl⟩ := openTxn_eq_some ht
    · refine hlive.upsert fun y hy => ?_
      rw [hlive x (lookup_mem hx) y hy]
      exact lookup_key hx
    · exact hlive.upsert fun y hy => by cases hy
  simp only [Cmp.txnsAfter]
  split
  · exact hlive
  · rename_i t ht
    have ht := hopen t ht
    split_ifs
    · rw [giveTxn]
      split
      · rename_i x hx
        refine ht.upsert fun y hy => ?_
        obtain hy|hy := List.mem_append.mp hy
        · rw [ht x (lookup_mem hx) y hy]
          exact lookup_key hx
        · rw [List.mem_singleton.mp hy]
      · exact ht
    · exact ht

/-- A context that was given a message of a transaction, by an id of 1 to 64 octets, was given no
message of another one. -/
def Apart (txns : Txns) : Prop :=
  ∀ x∈txns,∀ m∈x.2.given,∀ id,m.transactionId=some id → 0 < id.length →
    id.length ≤ kMaxTxidOctets → ∀ m'∈x.2.given,m'.transactionId=some id

/-- The key of such a transaction tells its id. -/
theorem transactionId_of_key {m : Message} {id : Octets} (hpos : 0 < id.length)
    (h : cmpTxidHex m=Hex.encode id) : m.transactionId=some id := by
  have hne : Hex.encode id≠[] := by
    intro hnil
    have hlen := congrArg List.length hnil
    rw [Hex.length_encode,List.length_nil] at hlen
    omega
  rw [cmpTxidHex] at h
  split at h
  · exact absurd h.symm hne
  · next d hd =>
    split_ifs at h
    · exact absurd h.symm hne
    · have hdecode := congrArg Hex.decode h
      rw [Hex.decode_encode,Hex.decode_encode] at hdecode
      rw [hd,Option.some.inj hdecode]

theorem ByKey.apart {txns : Txns} (h : ByKey txns) : Apart txns := by
  intro x hx m hm id hid hpos hlen m' hm'
  apply transactionId_of_key hpos
  have hkey : cmpTxidHex m=Hex.encode id := by
    rw [cmpTxidHex,hid]
    exact if_neg (not_lt.mpr hlen)
  rw [h x hx m' hm',← h x hx m hm,hkey]

/-- The server after these actions. -/
def after (certs : Inventory) (acts : List Timed) : Server := run step (Server.start certs) acts

theorem lookup_step {s : Server} {txid : Octets} {t : Txn}
    (h : lookup Prod.fst txid s.txns=some (txid,t)) {a : Timed}
    (hidle : a.now-t.touched ≤ kTxnIdle) : ∃ t',
      lookup Prod.fst txid (step s a).txns=some (txid,t') ∧
      t'.given=t.given++(reaches txid a).toList ∧
      (t'.touched=t.touched ∨ t'.touched=a.now) := by
  rw [step_txns,reaches]
  cases arrives a with
  | none => exact ⟨t,h,by simp,Or.inl rfl⟩
  | some x => exact lookup_txnsAfter h hidle x.1 x.2

theorem lookup_run {more : List Timed} {s : Server} {txid : Octets} {t : Txn} {since : Int}
    (h : lookup Prod.fst txid s.txns=some (txid,t)) (hsince : since ≤ t.touched)
    (hmore : ∀ a∈more,since ≤ a.now ∧ a.now ≤ since+kTxnIdle) : ∃ t',
      lookup Prod.fst txid (run step s more).txns=some (txid,t') ∧
      t'.given=t.given++more.filterMap (reaches txid) := by
  induction more generalizing s t with
  | nil => exact ⟨t,h,by simp⟩
  | cons a more ih =>
    obtain ⟨hlow,hhigh⟩ := hmore a List.mem_cons_self
    obtain ⟨u,hu,hgiven,htouched⟩ := lookup_step h (a := a) (by omega)
    have hu' : since ≤ u.touched := by
      obtain htouched|htouched := htouched
      · rw [htouched]
        exact hsince
      · rw [htouched]
        exact hlow
    obtain ⟨t',ht',hgiven'⟩ := ih hu hu' fun b hb => hmore b (List.mem_cons_of_mem a hb)
    refine ⟨t',ht',?_⟩
    rw [hgiven',hgiven,List.append_assoc]
    cases hreach : reaches txid a with
    | none => simp [hreach]
    | some m => simp [hreach]

/-- At most 512 transactions are open, and a context that was given a message of one (by an id of 1
to 64 octets) was given messages of that one only. One that was heard of in the last ten minutes stays, with all that its context was given, whatever
arrives meanwhile. -/
theorem cmp_transactions_kept (certs : Inventory) (acts more : List Timed) :
    (after certs acts).txns.length ≤ kMaxTxns ∧ Apart (after certs acts).txns ∧
    ∀ txid t,lookup Prod.fst txid (after certs acts).txns=some (txid,t) →
      (∀ a∈more,t.touched ≤ a.now ∧ a.now ≤ t.touched+kTxnIdle) → ∃ t',
        lookup Prod.fst txid (after certs (acts++more)).txns=some (txid,t') ∧
        t'.given=t.given++more.filterMap (reaches txid) := by
  refine ⟨?_,?_,?_⟩
  · refine run_invariant (I := fun s : Server => s.txns.length ≤ kMaxTxns) ?_ (Nat.zero_le _) acts
    intro s a hs
    rw [step_txns]
    cases arrives a with
    | none => exact hs
    | some x => exact length_txnsAfter hs a.now x.1 x.2
  · refine ByKey.apart (run_invariant (I := fun s : Server => ByKey s.txns) ?_
      (fun x hx => by cases hx) acts)
    intro s a hs
    rw [step_txns]
    cases arrives a with
    | none => exact hs
    | some x => exact hs.txnsAfter a.now x.1 x.2
  · intro txid t ht hmore
    rw [after,run_append]
    exact lookup_run ht (le_refl _) hmore

def enquiry (txid : Octets) : Message := ⟨some txid,none⟩

def enquire (txid : Octets) (now : Int) : Timed where
  act := .message ⟨octets "Application/PKIXCMP; charset=utf-8",some (enquiry txid),"issuing",true,
    .ok ⟨"issuing",octets "Issuing CA"⟩,some ⟨octets "CMP RA",0,1000,true⟩⟩ .other
  now := now
  nowUnix := 10

/-- Another transaction opens, and the first goes on just within its ten minutes. -/
theorem cmp_transactions_kept_first : ∃ t',
    lookup Prod.fst (Hex.encode [1])
      (after ⟨[],List.nodup_nil⟩ ([enquire [1] 0]++[enquire [2] 5,enquire [1] kTxnIdle])).txns=
        some (Hex.encode [1],t') ∧ t'.given=[enquiry [1],enquiry [1]] :=
  (cmp_transactions_kept ⟨[],List.nodup_nil⟩ [enquire [1] 0]
    [enquire [2] 5,enquire [1] kTxnIdle]).2.2 (Hex.encode [1]) ⟨[enquiry [1]],0⟩ rfl
      (List.forall_mem_cons.mpr ⟨by decide,List.forall_mem_singleton.mpr (by decide)⟩)

end Live

section Does

/-- All that an action can do to the certificates and to their confirmation. -/
inductive Does (s : Server) (a : Timed) : Server → Prop
  | idle (txns : Txns) : Does s a { s with txns }
  /-- The row was stored, and the callback does not know. -/
  | lost (txns : Txns) {r : Request} {id : Int} {e : Enrolment} {m : Message} {ra : RaCert}
      {ca : LoadedCa} {certs : Inventory} (ha : a.act=.message r (.certRequest id (some e)))
      (hm : readRequest r=.ok m) (hrow : persistIssued s.certs (Pending.of m ra ca) e.row=some certs) :
      Does s a { s with txns,certs }
  | enrolled (txns : Txns) {r : Request} {id : Int} {e : Enrolment} {m : Message} {ra : RaCert}
      {ca : LoadedCa} {certs : Inventory} (ha : a.act=.message r (.certRequest id (some e)))
      (hm : readRequest r=.ok m) (hrow : persistIssued s.certs (Pending.of m ra ca) e.row=some certs) :
      Does s a
        { s with
          txns
          certs
          pendingConfirm := upsert Issued.key ⟨cmpTxidHex m,id,e.row.serial⟩ s.pendingConfirm
          enrolled := ⟨cmpTxidHex m,id,e.row.serial⟩::s.enrolled }
  | settled (txns : Txns) {r : Request} {id : Int} {rejected : Bool} {fate : Fate} {m : Message}
      {i : Issued} (ha : a.act=.message r (.certConf id rejected fate)) (hm : readRequest r=.ok m)
      (hi : lookup Issued.key (confirmKey (cmpTxidHex m) id) s.pendingConfirm=some i) :
      Does s a
        { s with
          txns
          certs := settle fate s.certs (if rejected then (s.certs.revokeCert i.serial 0 a.nowUnix).1
            else (s.certs.setCertStatus i.serial 0).1)
          pendingConfirm := remove Issued.key (confirmKey (cmpTxidHex m) id) s.pendingConfirm
          settled := ⟨cmpTxidHex m,id,i.serial⟩::s.settled }
  | asked (txns : Txns) {r : Request} {serial : Option String} {rights : Rights} {fate : Fate}
      {m : Message} {ra : RaCert} {ca : LoadedCa} {row : Row}
      (ha : a.act=.message r (.rr serial rights fate)) (hm : readRequest r=.ok m)
      (hca : bindCa r a.nowUnix=.ok (ca,ra))
      (hrow : revocableRow s.certs (Pending.of m ra ca) serial rights=some row) :
      Does s a
        { s with
          txns
          certs := settle fate s.certs
            (s.certs.revokeCert row.serial (Pending.of m ra ca).revReason a.nowUnix).1 }
  | inserted {row : Row} {certs : Inventory} (ha : a.act=.insertCert row)
      (hrow : s.certs.insertCert row=some certs) : Does s a { s with certs }
  | revoked {serial : String} {reason : Int} (ha : a.act=.revokeCert serial reason) :
      Does s a { s with certs := (s.certs.revokeCert serial reason a.nowUnix).1 }
  | released {serial : String} (ha : a.act=.releaseHold serial) :
      Does s a { s with certs := (s.certs.releaseHold serial a.nowUnix).1 }
  | expired : Does s a { s with certs := s.certs.markExpiredNow a.nowUnix }
  | superseded (serial : String) : Does s a { s with certs := (s.certs.setCertStatus serial 3).1 }

@[simp]
theorem pending_txid (m : Message) (ra : RaCert) (ca : LoadedCa) :
    (Pending.of m ra ca).txid=cmpTxidHex m := by
  rw [Pending.of]
  split <;> rfl

theorem dispatch_does {s : Server} {txns : Txns} {a : Timed} {r : Request} {call : Call} {m : Message}
    {ca : LoadedCa} {ra : RaCert} (ha : a.act=.message r call) (hm : readRequest r=.ok m)
    (hca : bindCa r a.nowUnix=.ok (ca,ra)) :
    Does s a (dispatch { s with txns } (Pending.of m ra ca) a.nowUnix call) := by
  cases call with
  | certRequest id enrolment =>
    simp only [dispatch,certRequestCb]
    split_ifs
    · exact Does.idle txns
    · split
      · exact Does.idle txns
      · split
        · exact Does.idle txns
        · rename_i certs hrow
          split_ifs
          · exact Does.lost txns ha hm hrow
          · rw [pending_txid]
            exact Does.enrolled txns ha hm hrow
  | rr serial rights fate =>
    simp only [dispatch,rrCb]
    split_ifs
    · exact Does.idle txns
    · split
      · exact Does.idle txns
      · rename_i row hrow
        exact Does.asked txns ha hm hca hrow
  | certConf id rejected fate =>
    simp only [dispatch,certconfCb,pending_txid]
    split
    · exact Does.idle txns
    · rename_i i hi
      exact Does.settled txns ha hm hi
  | other => exact Does.idle txns

theorem step_does (s : Server) (a : Timed) : Does s a (step s a) := by
  rw [step]
  split
  · rename_i r call ha
    simp only [handleCmp]
    cases hm : readRequest r with
    | error code => exact Does.idle s.txns
    | ok m =>
      simp only
      cases openTxn (reapTxns s.txns a.now) (cmpTxidHex m) a.now with
      | none => exact Does.idle _
      | some txns =>
        simp only
        cases hca : bindCa r a.nowUnix with
        | error code => exact Does.idle txns
        | ok x => exact dispatch_does ha hm hca
  · rename_i row ha
    cases hrow : s.certs.insertCert row with
    | none => exact Does.idle s.txns
    | some certs => exact Does.inserted ha hrow
  · rename_i serial reason ha
    exact Does.revoked ha
  · rename_i serial ha
    exact Does.released ha
  · exact Does.expired
  · rename_i serial ha
    exact Does.superseded serial

end Does

section Confirm

theorem slash_notMem_cmpTxidHex (m : Message) : slash∉cmpTxidHex m := by
  rw [cmpTxidHex]
  split
  · exact List.not_mem_nil
  · split_ifs
    · exact List.not_mem_nil
    · intro h
      have hdigit := Hex.value_of_mem_encode h
      cases hdigit

/-- A key tells the transaction and the request it was written from. -/
theorem confirmKey_inj {a b : Octets} {i j : Int} (ha : slash∉a) (hb : slash∉b)
    (h : confirmKey a i=confirmKey b j) : a=b ∧ i=j := by
  rw [confirmKey,confirmKey] at h
  have hfirst := congrArg (Auth.beforeFirst slash) h
  have hrest := congrArg (Auth.afterFirst slash) h
  rw [Auth.beforeFirst_append ha,Auth.beforeFirst_append hb] at hfirst
  rw [Auth.afterFirst_append ha,Auth.afterFirst_append hb] at hrest
  have hid := congrArg Decimal.atoll hrest
  rw [Decimal.atoll_text,Decimal.atoll_text] at hid
  exact ⟨hfirst,hid⟩

def Server.ledger (s : Server) : Ledger Issued := ⟨s.enrolled,s.pendingConfirm,s.settled⟩

/-- What every run keeps. -/
structure Sound (s : Server) : Prop where
  pending : (s.pendingConfirm.map Issued.key).Nodup
  awaited : ∀ i∈s.pendingConfirm,i∈s.enrolled
  named : ∀ i∈s.enrolled,slash∉i.txid
  ledger : s.ledger.Sound
  serials : (s.enrolled.map Issued.serial).Nodup
  stored : ∀ i∈s.enrolled,∃ r∈s.certs.rows,r.serial=i.serial

/-- No row goes. -/
def Keeps (c d : Inventory) : Prop := ∀ r∈c.rows,∃ r'∈d.rows,r'.serial=r.serial

theorem keeps_modify (c : Inventory) (cond : Row → Bool) (set : Certs.CertRow → Certs.CertRow) :
    Keeps c (c.modify cond set) := by
  intro r hr
  refine ⟨_,Inventory.mem_modify.mpr ⟨r,hr,rfl⟩,?_⟩
  split_ifs <;> rfl

theorem keeps_modifySerial (c : Inventory) (serial : String) (cond : Certs.CertRow → Bool)
    (set : Certs.CertRow → Certs.CertRow) : Keeps c (c.modifySerial serial cond set).1 :=
  keeps_modify c _ set

theorem keeps_settle {c d : Inventory} (h : Keeps c d) (fate : Fate) : Keeps c (settle fate c d) := by
  cases fate with
  | ok => exact h
  | throws applied =>
    rw [settle]
    split_ifs
    · exact h
    · exact fun r hr => ⟨r,hr,rfl⟩

theorem mem_insertCert {c d : Inventory} {row r : Row} (h : c.insertCert row=some d) :
    r∈d.rows ↔ r∈c.rows ∨ r=row := by
  rw [(Keyed.insert_eq_some h).2,List.mem_append,List.mem_singleton]

theorem keeps_insertCert {c d : Inventory} {row : Row} (h : c.insertCert row=some d) : Keeps c d :=
  fun r hr => ⟨r,(mem_insertCert h).mpr (Or.inl hr),rfl⟩

/-- The entry that a confirmation finds is the one of its own transaction and request. -/
theorem Sound.found {s : Server} (hs : Sound s) {m : Message} {id : Int} {i : Issued}
    (hi : lookup Issued.key (confirmKey (cmpTxidHex m) id) s.pendingConfirm=some i) :
    i=⟨cmpTxidHex m,id,i.serial⟩ ∧ i∈s.enrolled := by
  have hmem := hs.awaited i (lookup_mem hi)
  have hkey : i.key=confirmKey (cmpTxidHex m) id := lookup_key hi
  obtain ⟨htxid,hid⟩ := confirmKey_inj (hs.named i hmem) (slash_notMem_cmpTxidHex m) hkey
  refine ⟨?_,hmem⟩
  obtain ⟨txid,certReqId,serial⟩ := i
  obtain rfl : txid=_ := htxid
  obtain rfl : certReqId=_ := hid
  rfl

theorem Sound.certs {s : Server} (hs : Sound s) {certs : Inventory} (h : Keeps s.certs certs)
    (txns : Txns) : Sound { s with txns,certs } where
  pending := hs.pending
  awaited := hs.awaited
  named := hs.named
  ledger := hs.ledger
  serials := hs.serials
  stored i hi := by
    obtain ⟨r,hr,hserial⟩ := hs.stored i hi
    obtain ⟨r',hr',hsame⟩ := h r hr
    exact ⟨r',hr',hsame.trans hserial⟩

/-- An enrolment takes a serial that was free, and its entry stands in for an older one of its
key. -/
theorem Sound.enrol {s : Server} (hs : Sound s) {row : Row} {certs : Inventory}
    (hrow : s.certs.insertCert row=some certs) (m : Message) (id : Int) (txns : Txns) :
    Sound
      { s with
        txns
        certs
        pendingConfirm := upsert Issued.key ⟨cmpTxidHex m,id,row.serial⟩ s.pendingConfirm
        enrolled := ⟨cmpTxidHex m,id,row.serial⟩::s.enrolled } := by
  have hfree := (Keyed.insert_eq_some hrow).1
  have hnodup := nodup_upsert (⟨cmpTxidHex m,id,row.serial⟩ : Issued) hs.pending
  refine ⟨hnodup,?_,?_,?_,?_,?_⟩
  · intro i hi
    obtain rfl|⟨hi,_⟩ := mem_upsert.mp hi
    · exact List.mem_cons_self
    · exact List.mem_cons_of_mem _ (hs.awaited i hi)
  · intro i hi
    obtain rfl|hi := List.mem_cons.mp hi
    · exact slash_notMem_cmpTxidHex m
    · exact hs.named i hi
  · refine hs.ledger.step (Ledger.Step.issue ?_)
    refine List.subperm_of_subset hnodup.of_map fun i hi => ?_
    obtain rfl|⟨hi,_⟩ := mem_upsert.mp hi
    · exact List.mem_cons_self
    · exact List.mem_cons_of_mem _ hi
  · rw [List.map_cons,List.nodup_cons]
    refine ⟨fun hmem => ?_,hs.serials⟩
    obtain ⟨i,hi,hserial⟩ := List.mem_map.mp hmem
    obtain ⟨r,hr,hsame⟩ := hs.stored i hi
    exact hfree r hr (hsame.trans hserial)
  · intro i hi
    obtain rfl|hi := List.mem_cons.mp hi
    · exact ⟨row,(mem_insertCert hrow).mpr (Or.inr rfl),rfl⟩
    · obtain ⟨r,hr,hserial⟩ := hs.stored i hi
      exact ⟨r,(mem_insertCert hrow).mpr (Or.inl hr),hserial⟩

/-- A confirmation takes its entry away. -/
theorem Sound.settle {s : Server} (hs : Sound s) {certs : Inventory} (h : Keeps s.certs certs)
    {m : Message} {id : Int} {i : Issued}
    (hi : lookup Issued.key (confirmKey (cmpTxidHex m) id) s.pendingConfirm=some i) (txns : Txns) :
    Sound
      { s with
        txns
        certs
        pendingConfirm := remove Issued.key (confirmKey (cmpTxidHex m) id) s.pendingConfirm
        settled := ⟨cmpTxidHex m,id,i.serial⟩::s.settled } := by
  have hsub : (remove Issued.key (confirmKey (cmpTxidHex m) id) s.pendingConfirm).Sublist
      s.pendingConfirm := List.filter_sublist
  have hown := (hs.found hi).1
  have hcerts := hs.certs h txns
  refine ⟨(hsub.map _).nodup hs.pending,?_,hs.named,?_,hs.serials,hcerts.stored⟩
  · exact fun j hj => hs.awaited j (hsub.subset hj)
  · rw [← hown]
    exact hs.ledger.step (Ledger.Step.spend (cons_remove_subperm hi) (List.Perm.refl _))

theorem Sound.step {s : Server} (hs : Sound s) (a : Timed) : Sound (step s a) := by
  have hstep := step_does s a
  generalize Cmp.step s a=t at hstep
  cases hstep with
  | idle txns => exact hs.certs (fun r hr => ⟨r,hr,rfl⟩) txns
  | lost txns ha hm hrow => exact hs.certs (keeps_insertCert hrow) txns
  | enrolled txns ha hm hrow => exact hs.enrol hrow _ _ txns
  | settled txns ha hm hi =>
    refine hs.settle (keeps_settle ?_ _) hi txns
    split_ifs
    · exact keeps_modifySerial _ _ _ _
    · exact keeps_modifySerial _ _ _ _
  | asked txns ha hm hca hrow => exact hs.certs (keeps_settle (keeps_modifySerial _ _ _ _) _) txns
  | inserted ha hrow => exact hs.certs (keeps_insertCert hrow) s.txns
  | revoked ha => exact hs.certs (keeps_modifySerial _ _ _ _) s.txns
  | released ha => exact hs.certs (keeps_modifySerial _ _ _ _) s.txns
  | expired => exact hs.certs (keeps_modify _ _ _) s.txns
  | superseded serial => exact hs.certs (keeps_modifySerial _ _ _ _) s.txns

theorem sound_start (certs : Inventory) : Sound (Server.start certs) where
  pending := List.nodup_nil
  awaited i hi := by cases hi
  named i hi := by cases hi
  ledger := List.Subperm.refl []
  serials := List.nodup_nil
  stored i hi := by cases hi

theorem sound_after (certs : Inventory) (acts : List Timed) : Sound (after certs acts) :=
  run_invariant (I := Sound) (fun _ a hs => hs.step a) (sound_start certs) acts

/-- A certificate that was enrolled over CMP is confirmed or rejected at most once, and by the
transaction and the request that it was issued under. -/
theorem cmp_confirmed_once (certs : Inventory) (acts : List Timed) :
    (after certs acts).settled.Subperm (after certs acts).enrolled ∧
    ((after certs acts).settled.map Issued.serial).Nodup := by
  have hs := sound_after certs acts
  have hspent := hs.ledger.spent_subperm
  refine ⟨hspent,?_⟩
  obtain ⟨l,hperm,hsub⟩ := hspent
  exact (hperm.map Issued.serial).nodup_iff.mp ((hsub.map Issued.serial).nodup hs.serials)

end Confirm

end FastPki.Cmp
