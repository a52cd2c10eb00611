import FastPki.Framework.Run
import FastPki.Scep.Enrol

namespace FastPki.Scep

open FastPki.X509 FastPki.Profile FastPki.Policy FastPki.Rbac FastPki.Issue FastPki.Certs

/-- The tables, and for each transactionID the request that was parked under it with the CA of
its route. The second is history: no handler reads it, and `scep_pending` has no such column. -/
structure State where
  tables : Tables
  parked : String → Option (Csr × String)

/-- One request or one command, with the configuration and the clock it runs under. -/
inductive Op where
  | pkcsreq (srv : Server) (env : Env) (m : PkcsReq)
  | getcertinitial (ca txid : String)
  | approve (srv : Server) (env : Env) (txid ca : String)
  | reject (txid : String)

section

variable (caCache : String → Except (Nat × String) CaCert)

/-- `route_instance` before the handler: an unknown CA is a bare HTTP status. -/
def pkcsreqOn (srv : Server) (env : Env) (t : Tables) (m : PkcsReq) : Tables × Answer :=
  match caCache m.ca with
  | .error e => (t,.http e.1 e.2)
  | .ok caCert => handlePkcsreq srv env caCert t m

def getcertinitialOn (t : Tables) (ca txid : String) : Answer :=
  match caCache ca with
  | .error e => .http e.1 e.2
  | .ok _ => handleGetcertinitial t txid

/-- A request is parked when it makes the row of its transactionID. -/
def noteParked (before after : Tables) (parked : String → Option (Csr × String)) (m : PkcsReq) :
    String → Option (Csr × String) :=
  match before.pending m.txid,after.pending m.txid with
  | none,some row => Function.update parked m.txid (some (row.csr,m.ca))
  | _,_ => parked

def step (st : State) : Op → State
  | .pkcsreq srv env m =>
    let after := (pkcsreqOn caCache srv env st.tables m).1
    ⟨after,noteParked st.tables after st.parked m⟩
  | .getcertinitial _ _ => st
  | .approve srv env txid ca =>
    match approve srv env caCache st.tables txid ca with
    | .ok (t,_) => { st with tables := t }
    | .error _ => st
  | .reject txid => { st with tables := reject st.tables txid }

/-- The CertRep for a request; a command answers no client. -/
def answer (t : Tables) : Op → Option Answer
  | .pkcsreq srv env m => some (pkcsreqOn caCache srv env t m).2
  | .getcertinitial ca txid => some (getcertinitialOn caCache t ca txid)
  | _ => none

def start (t : Tables) : State := ⟨t,fun _ => none⟩

variable {caCache}

theorem noteParked_of_pending_eq {before after : Tables} {parked : String → Option (Csr × String)}
    {m : PkcsReq} (h : after.pending=before.pending) :
    noteParked before after parked m=parked := by
  simp only [noteParked]
  rw [h]
  split
  · next hnone hsome =>
    rw [hnone] at hsome
    cases hsome
  · rfl

theorem noteParked_of_new {before after : Tables} {parked : String → Option (Csr × String)}
    {m : PkcsReq} {row : ScepPending} (hold : before.pending m.txid=none)
    (hnew : after.pending m.txid=some row) :
    noteParked before after parked m=Function.update parked m.txid (some (row.csr,m.ca)) := by
  simp [noteParked,hold,hnew]

/-- What a PKCSReq does to the state: certificates may be added, or it is parked. -/
inductive PkcsreqStep (caCache : String → Except (Nat × String) CaCert) (st : State) (srv : Server)
    (env : Env) (m : PkcsReq) (st' : State) : Prop where
  | kept (more : List StoredCert) (certs : st'.tables.certs=st.tables.certs++more)
    (pending : st'.tables.pending=st.tables.pending) (history : st'.parked=st.parked)
  | parked (csr : Csr) (cred : Credential) (caCert : CaCert) (ca : caCache m.ca=.ok caCert)
    (read : m.csr=some (.ok csr))
    (auth : (authenticate srv st.tables caCert env.now m csr).2=some cred)
    (manual : srv.scepManualApproval=true) (new : st.tables.pending m.txid=none)
    (certs : st'.tables.certs=st.tables.certs)
    (pending : st'.tables.pending=Function.update st.tables.pending m.txid (some (parkedRow csr)))
    (history : st'.parked=Function.update st.parked m.txid (some (csr,m.ca)))
    (answer : answer caCache st.tables (.pkcsreq srv env m)=some .pending)

theorem issueFromCsr_row {srv : Server} {env : Env} {certs out : List StoredCert}
    {caCert : CaCert} {ca : String} {csr : Csr} {requestedProfile username : String}
    {maxCerts : Option Int} {row : StoredCert}
    (h : issueFromCsr srv env certs caCert ca csr requestedProfile username maxCerts=
      .ok (out,row)) :
    out=certs++[row] ∧ getCert out row.cert.serial=some row ∧ CertFor caCert csr row.cert := by
  obtain ⟨p,_,hcert,_,hins⟩ := issueFromCsr_eq_ok_iff.mp h
  obtain ⟨hnew,rfl⟩ := insertUnderCap_ok hins
  exact ⟨rfl,getCert_append_self hnew,certFor_of_issueCert hcert⟩

theorem step_pkcsreq (st : State) (srv : Server) (env : Env) (m : PkcsReq) :
    PkcsreqStep caCache st srv env m (step caCache st (.pkcsreq srv env m)) := by
  cases hca : caCache m.ca with
  | error e =>
    have hstep : step caCache st (.pkcsreq srv env m)=st := by
      simp only [step,pkcsreqOn,hca]
      rw [noteParked_of_pending_eq rfl]
    rw [hstep]
    exact .kept [] (List.append_nil _).symm rfl rfl
  | ok caCert =>
    have hstep : step caCache st (.pkcsreq srv env m)=
        ⟨(handlePkcsreq srv env caCert st.tables m).1,
          noteParked st.tables (handlePkcsreq srv env caCert st.tables m).1 st.parked m⟩ := by
      simp only [step,pkcsreqOn,hca]
    rw [hstep]
    cases handlePkcsreq_does srv env caCert st.tables m with
    | kept certs pending _ =>
      exact .kept [] (certs.trans (List.append_nil _).symm) pending
        (noteParked_of_pending_eq pending)
    | issued csr cred cap row _ _ issue pending _ =>
      exact .kept [row] (issueFromCsr_row issue).1 pending (noteParked_of_pending_eq pending)
    | parked csr cred read auth manual new certs pending ans =>
      have hself : (handlePkcsreq srv env caCert st.tables m).1.pending m.txid=
          some (parkedRow csr) := by rw [pending,Function.update_self]
      refine .parked csr cred caCert hca read auth manual new certs pending
        (noteParked_of_new new hself) ?_
      simp only [answer,pkcsreqOn,hca,ans]

/-- The operator names the CA of the route on which the request was parked. -/
def RouteNamed (st : State) : Op → Prop
  | .approve _ _ txid ca => ∀ csr route,st.parked txid=some (csr,route) → ca=route
  | _ => True

/-- This certificate is for the key of this request, from the CA of this route. -/
def CertOn (caCache : String → Except (Nat × String) CaCert) (route : String) (csr : Csr)
    (c : Cert) : Prop :=
  ∃ caCert,caCache route=.ok caCert ∧ CertFor caCert csr c

/-- A parked request is undecided, rejected, or its serial is that of a certificate for it. -/
structure RowSound (caCache : String → Except (Nat × String) CaCert) (certs : List StoredCert)
    (route : String) (row : ScepPending) : Prop where
  status : row.status=0 ∨ row.status=1 ∨ row.status=2
  issued : row.status=1 → ∃ r,getCert certs row.serial=some r ∧ CertOn caCache route row.csr r.cert

def Sound (caCache : String → Except (Nat × String) CaCert) (st : State) : Prop :=
  ∀ txid row,st.tables.pending txid=some row →
    ∃ route,st.parked txid=some (row.csr,route) ∧ RowSound caCache st.tables.certs route row

theorem RowSound.append {certs : List StoredCert} {route : String} {row : ScepPending}
    (h : RowSound caCache certs route row) (more : List StoredCert) :
    RowSound caCache (certs++more) route row := by
  refine ⟨h.status,fun h1 => ?_⟩
  obtain ⟨r',hr',hfor⟩ := h.issued h1
  exact ⟨r',getCert_append_of_some hr' more,hfor⟩

theorem Sound.pkcsreq {st : State} (h : Sound caCache st) (srv : Server) (env : Env)
    (m : PkcsReq) : Sound caCache (step caCache st (.pkcsreq srv env m)) := by
  intro txid row hrow
  cases step_pkcsreq st srv env m with
  | kept more certs pending history =>
    rw [pending] at hrow
    rw [certs,history]
    obtain ⟨route,hparked,hsound⟩ := h txid row hrow
    exact ⟨route,hparked,hsound.append more⟩
  | parked csr cred caCert ca read auth manual new certs pending history ans =>
    rw [pending] at hrow
    rw [certs,history]
    by_cases htx : txid=m.txid
    · subst htx
      rw [Function.update_self] at hrow
      obtain rfl := Option.some.inj hrow
      refine ⟨m.ca,Function.update_self ..,Or.inl rfl,fun h1 => ?_⟩
      cases h1
    · rw [Function.update_of_ne htx] at hrow
      rw [Function.update_of_ne htx]
      exact h txid row hrow

theorem Sound.approve {st : State} (h : Sound caCache st) (srv : Server) (env : Env)
    (txid ca : String) (hroute : RouteNamed st (.approve srv env txid ca)) :
    Sound caCache (step caCache st (.approve srv env txid ca)) := by
  simp only [step]
  cases happ : Scep.approve srv env caCache st.tables txid ca with
  | error e => exact h
  | ok issued =>
    obtain ⟨t,row⟩ := issued
    obtain ⟨pend,caCert,certs,hpend,_,_,hca,hissue,rfl⟩ := approve_eq_ok_iff.mp happ
    obtain ⟨rfl,hget,hfor⟩ := issueFromCsr_row hissue
    obtain ⟨route,hparked,_⟩ := h txid pend hpend
    obtain rfl : ca=route := hroute pend.csr route hparked
    intro txid' row' hrow'
    by_cases htx : txid'=txid
    · subst htx
      rw [pending_setScepPendingStatus_self,hpend] at hrow'
      obtain rfl := Option.some.inj hrow'
      exact ⟨ca,hparked,Or.inr (Or.inl rfl),fun _ => ⟨row,hget,caCert,hca,hfor⟩⟩
    · rw [pending_setScepPendingStatus_of_ne htx] at hrow'
      obtain ⟨route',hparked',hsound⟩ := h txid' row' hrow'
      exact ⟨route',hparked',hsound.append [row]⟩

theorem Sound.reject {st : State} (h : Sound caCache st) (txid : String) :
    Sound caCache (step caCache st (.reject txid)) := by
  simp only [step]
  simp only [Scep.reject]
  split
  · intro txid' row hrow
    by_cases htx : txid'=txid
    · subst htx
      rw [pending_setScepPendingStatus_self] at hrow
      obtain ⟨pend,hpend,rfl⟩ := Option.map_eq_some_iff.mp hrow
      obtain ⟨route,hparked,_⟩ := h txid' pend hpend
      refine ⟨route,hparked,Or.inr (Or.inr rfl),fun h1 => ?_⟩
      exact absurd (show (2 : Int)=1 from h1) (by decide)
    · rw [pending_setScepPendingStatus_of_ne htx] at hrow
      exact h txid' row hrow
  · exact h

theorem Sound.step {st : State} (op : Op) (h : Sound caCache st) (hroute : RouteNamed st op) :
    Sound caCache (step caCache st op) := by
  cases op with
  | pkcsreq srv env m => exact h.pkcsreq srv env m
  | getcertinitial ca txid => exact h
  | approve srv env txid ca => exact h.approve srv env txid ca hroute
  | reject txid => exact h.reject txid

theorem start_sound {t : Tables} (h : ∀ txid,t.pending txid=none) : Sound caCache (start t) := by
  intro txid row hrow
  rw [show (start t).tables.pending txid=none from h txid] at hrow
  cases hrow

/-- What the certificate of a SUCCESS for a parked request goes back to: the one PKCSReq that
made the row of this transactionID, with its key and its route. -/
structure ParkedBy (caCache : String → Except (Nat × String) CaCert) (s0 : State) (ops : List Op)
    (txid : String) (csr : Csr) (route : String) where
  before : List Op
  srv : Server
  env : Env
  m : PkcsReq
  after : List Op
  caCert : CaCert
  cred : Credential
  split : ops=before++.pkcsreq srv env m::after
  txid_eq : m.txid=txid
  route_eq : m.ca=route
  read : m.csr=some (.ok csr)
  manual : srv.scepManualApproval=true
  ca : caCache route=.ok caCert
  authenticated : (authenticate srv (run (step caCache) s0 before).tables caCert env.now m csr).2=
    some cred
  first : (run (step caCache) s0 before).tables.pending txid=none
  answered : answer caCache (run (step caCache) s0 before).tables (.pkcsreq srv env m)=some .pending

def ParkedBy.extend {s0 : State} {ops : List Op} {txid : String} {csr : Csr} {route : String}
    (p : ParkedBy caCache s0 ops txid csr route) (more : List Op) :
    ParkedBy caCache s0 (ops++more) txid csr route :=
  { p with
    after := p.after++more
    split := by simpa using congrArg (·++more) p.split }

/-- The history only grows where a PKCSReq is parked. -/
theorem parked_step {st : State} {op : Op} {txid : String} {csr : Csr} {route : String}
    (h : (step caCache st op).parked txid=some (csr,route)) :
    st.parked txid=some (csr,route) ∨ ∃ srv env m caCert cred,op=.pkcsreq srv env m ∧
      m.txid=txid ∧ m.ca=route ∧ m.csr=some (.ok csr) ∧ srv.scepManualApproval=true ∧
      caCache route=.ok caCert ∧ (authenticate srv st.tables caCert env.now m csr).2=some cred ∧
      st.tables.pending txid=none ∧ answer caCache st.tables op=some .pending := by
  cases op with
  | getcertinitial ca txid' => exact Or.inl h
  | reject txid' => exact Or.inl h
  | approve srv env txid' ca =>
    simp only [step] at h
    split at h
    · exact Or.inl h
    · exact Or.inl h
  | pkcsreq srv env m =>
    cases step_pkcsreq st srv env m with
    | kept more certs pending history =>
      rw [history] at h
      exact Or.inl h
    | parked csr' cred caCert ca read auth manual new certs pending history ans =>
      rw [history] at h
      by_cases htx : txid=m.txid
      · subst htx
        rw [Function.update_self] at h
        obtain ⟨rfl,rfl⟩ := Prod.mk.inj (Option.some.inj h)
        exact Or.inr ⟨srv,env,m,caCert,cred,rfl,rfl,rfl,read,manual,ca,auth,new,ans⟩
      · rw [Function.update_of_ne htx] at h
        exact Or.inl h

/-- Whatever the history holds was parked at some point of the run. -/
theorem parkedBy_of_parked (t : Tables) (ops : List Op) {txid : String} {csr : Csr}
    {route : String} (h : (run (step caCache) (start t) ops).parked txid=some (csr,route)) :
    Nonempty (ParkedBy caCache (start t) ops txid csr route) := by
  induction ops using List.reverseRecOn with
  | nil => cases h
  | append_singleton ops op ih =>
    rw [run_append] at h
    obtain hold|⟨srv,env,m,caCert,cred,rfl,htx,hroute,hcsr,hman,hca,hauth,hnew,hans⟩ :=
      parked_step h
    · obtain ⟨p⟩ := ih hold
      exact ⟨p.extend [op]⟩
    · exact ⟨⟨ops,srv,env,m,[],caCert,cred,rfl,htx,hroute,hcsr,hman,hca,hauth,hnew,hans⟩⟩

theorem success_of_certrepForSerial {t : Tables} {serial : String} {c : Cert}
    (h : certrepForSerial t serial=.success c) : ∃ r,getCert t.certs serial=some r ∧ c=r.cert := by
  simp only [certrepForSerial] at h
  cases hr : getCert t.certs serial with
  | none =>
    rw [hr] at h
    cases h
  | some r =>
    rw [hr] at h
    exact ⟨r,rfl,(Answer.success.inj h).symm⟩

theorem success_of_handleGetcertinitial {t : Tables} {txid : String} {c : Cert}
    (h : handleGetcertinitial t txid=.success c) :
    ∃ row,t.pending txid=some row ∧ row.status≠2 ∧ row.status≠0 ∧
      certrepForSerial t row.serial=.success c := by
  simp only [handleGetcertinitial] at h
  cases hrow : t.pending txid with
  | none =>
    rw [hrow] at h
    cases h
  | some row =>
    rw [hrow] at h
    dsimp only at h
    split_ifs at h with h2 h0
    exact ⟨row,rfl,h2,h0,h⟩

/-- A certificate found under the serial of a parked request is that request's own. -/
theorem Sound.certOn {st : State} (h : Sound caCache st) {txid serial : String}
    {row : ScepPending} {c : Cert} (hrow : st.tables.pending txid=some row) (h1 : row.status=1)
    (hserial : row.serial=serial) (hc : certrepForSerial st.tables serial=.success c) :
    ∃ route,st.parked txid=some (row.csr,route) ∧ CertOn caCache route row.csr c := by
  subst hserial
  obtain ⟨route,hparked,hsound⟩ := h txid row hrow
  obtain ⟨r,hr,hfor⟩ := hsound.issued h1
  obtain ⟨r',hr',rfl⟩ := success_of_certrepForSerial hc
  obtain rfl := Option.some.inj (hr.symm.trans hr')
  exact ⟨route,hparked,hfor⟩

/-- The transactionID of a request. -/
def Op.txid : Op → String
  | .pkcsreq _ _ m => m.txid
  | .getcertinitial _ txid => txid
  | .approve _ _ txid _ => txid
  | .reject txid => txid

/-- This request was issued at once, for its own key and by the CA it addressed. -/
def IssuedInline (caCache : String → Except (Nat × String) CaCert) (op : Op) (c : Cert) : Prop :=
  ∃ srv env m csr,op=.pkcsreq srv env m ∧ srv.scepManualApproval=false ∧ m.csr=some (.ok csr) ∧
    CertOn caCache m.ca csr c

theorem Sound.success {st : State} (h : Sound caCache st) {op : Op} {c : Cert}
    (hans : answer caCache st.tables op=some (.success c)) :
    IssuedInline caCache op c ∨
      ∃ csr route,st.parked op.txid=some (csr,route) ∧ CertOn caCache route csr c := by
  cases op with
  | approve srv env txid ca => cases hans
  | reject txid => cases hans
  | getcertinitial ca txid =>
    right
    have hans' := Option.some.inj hans
    simp only [getcertinitialOn] at hans'
    split at hans'
    · cases hans'
    · obtain ⟨row,hrow,h2,h0,hrep⟩ := success_of_handleGetcertinitial hans'
      obtain ⟨_,_,hsound⟩ := h txid row hrow
      have h1 : row.status=1 := by
        obtain h|h|h := hsound.status
        · exact absurd h h0
        · exact h
        · exact absurd h h2
      obtain ⟨route,hparked,hfor⟩ := h.certOn hrow h1 rfl hrep
      exact ⟨row.csr,route,hparked,hfor⟩
  | pkcsreq srv env m =>
    have hans' := Option.some.inj hans
    simp only [pkcsreqOn] at hans'
    split at hans'
    · cases hans'
    · next caCert hca =>
      cases handlePkcsreq_does srv env caCert st.tables m with
      | kept _ _ answer =>
        right
        obtain ⟨_,row,hrow,h1,hrep⟩ := answer c hans'
        obtain ⟨route,hparked,hfor⟩ := h.certOn hrow h1 rfl hrep
        exact ⟨row.csr,route,hparked,hfor⟩
      | parked csr cred _ _ _ _ _ _ ans =>
        rw [ans] at hans'
        cases hans'
      | issued csr cred cap row read inline issue _ ans =>
        left
        rw [ans] at hans'
        obtain rfl := Answer.success.inj hans'
        exact ⟨srv,env,m,csr,rfl,inline,read,caCert,hca,(issueFromCsr_row issue).2.2⟩

/-- A row of `scep_pending` keeps its CSR, and it is the one the history has. -/
theorem pending_step {st : State} {op : Op} {txid : String} {row : ScepPending}
    (h : (step caCache st op).tables.pending txid=some row) :
    (∃ old,st.tables.pending txid=some old ∧ old.csr=row.csr ∧
      (step caCache st op).parked txid=st.parked txid) ∨
    ∃ route,(step caCache st op).parked txid=some (row.csr,route) := by
  cases op with
  | getcertinitial ca txid' => exact Or.inl ⟨row,h,rfl,rfl⟩
  | reject txid' =>
    left
    simp only [step,reject] at h
    split at h
    · obtain ⟨old,hold,hcsr⟩ := csr_of_setScepPendingStatus h
      exact ⟨old,hold,hcsr,rfl⟩
    · exact ⟨row,h,rfl,rfl⟩
  | approve srv env txid' ca =>
    left
    simp only [step] at h ⊢
    cases happ : approve srv env caCache st.tables txid' ca with
    | error e =>
      rw [happ] at h
      exact ⟨row,h,rfl,rfl⟩
    | ok issued =>
      obtain ⟨t,r⟩ := issued
      rw [happ] at h
      obtain ⟨_,_,_,_,_,_,_,_,rfl⟩ := approve_eq_ok_iff.mp happ
      obtain ⟨old,hold,hcsr⟩ := csr_of_setScepPendingStatus h
      exact ⟨old,hold,hcsr,rfl⟩
  | pkcsreq srv env m =>
    cases step_pkcsreq st srv env m with
    | kept more certs pending history =>
      rw [pending] at h
      exact Or.inl ⟨row,h,rfl,by rw [history]⟩
    | parked csr cred caCert ca read auth manual new certs pending history ans =>
      rw [pending] at h
      rw [history]
      by_cases htx : txid=m.txid
      · subst htx
        rw [Function.update_self] at h
        obtain rfl := Option.some.inj h
        exact Or.inr ⟨m.ca,Function.update_self ..⟩
      · rw [Function.update_of_ne htx] at h
        exact Or.inl ⟨row,h,rfl,Function.update_of_ne htx ..⟩

theorem parked_of_pending (t : Tables) (ht : ∀ txid,t.pending txid=none) (ops : List Op)
    {txid : String} {row : ScepPending}
    (h : (run (step caCache) (start t) ops).tables.pending txid=some row) :
    ∃ route,(run (step caCache) (start t) ops).parked txid=some (row.csr,route) := by
  induction ops using List.reverseRecOn generalizing row with
  | nil =>
    rw [show (run (step caCache) (start t) []).tables.pending txid=none from ht txid] at h
    cases h
  | append_singleton ops op ih =>
    rw [run_append] at h ⊢
    obtain ⟨old,hold,hcsr,hsame⟩|hnew := pending_step h
    · obtain ⟨route,hroute⟩ := ih hold
      refine ⟨route,?_⟩
      rw [← hcsr,← hroute]
      exact hsame
    · exact hnew

/-- `--approve` issues for the subject `scep`: its profile, with none requested, its name as the
owner, and no cap. -/
structure ApprovedAsScep (srv : Server) (env : Env)
    (caCache : String → Except (Nat × String) CaCert) (t : Tables) (csr : Csr) (ca : String)
    (row : StoredCert) : Prop where
  named : ca≠""
  issued : ∃ caCert p,caCache ca=.ok caCert ∧
    resolveProfile srv.rbac srv.profiles ⟨"scep","",srv.directoryGroups "scep"⟩ ""=.ok p ∧
    issueCert srv.ssl srv.cfg caCert env csr (issueArgs srv ca "scep" p)=.ok row.cert
  stored : row=issuedRow row.cert "scep" ca
  fresh : getCert t.certs row.cert.serial=none

theorem insertUnderCap_none_iff {certs out : List StoredCert} {row : StoredCert} :
    insertUnderCap certs row none=.ok (some out) ↔
      getCert certs row.cert.serial=none ∧ out=certs++[row] := by
  constructor
  · exact insertUnderCap_ok
  · intro h
    simp [insertUnderCap,insertCert,h.1,h.2,Except.map]

/-- Whoever a parked request came from, its approval knows only the CSR. -/
theorem approved_as_scep (t : Tables) (ht : ∀ txid,t.pending txid=none) (ops : List Op)
    (txid : String) (pend : ScepPending)
    (hpend : (run (step caCache) (start t) ops).tables.pending txid=some pend) :
    (∃ route,Nonempty (ParkedBy caCache (start t) ops txid pend.csr route)) ∧
    ∀ srv env ca out row,
      approve srv env caCache (run (step caCache) (start t) ops).tables txid ca=.ok (out,row) ↔
        pend.status=0 ∧
        ApprovedAsScep srv env caCache (run (step caCache) (start t) ops).tables pend.csr ca row ∧
        out=setScepPendingStatus { (run (step caCache) (start t) ops).tables with
          certs := (run (step caCache) (start t) ops).tables.certs++[row] } txid 1
          row.cert.serial := by
  obtain ⟨route,hroute⟩ := parked_of_pending t ht ops hpend
  refine ⟨⟨route,parkedBy_of_parked t ops hroute⟩,fun srv env ca out row => ?_⟩
  rw [approve_eq_ok_iff]
  constructor
  · intro h
    obtain ⟨pend',caCert,certs,hpend',hst,hca,hcache,hissue,rfl⟩ := h
    obtain rfl := Option.some.inj (hpend.symm.trans hpend')
    obtain ⟨p,hp,hcert,hrow,hins⟩ := issueFromCsr_eq_ok_iff.mp hissue
    obtain ⟨hfresh,rfl⟩ := insertUnderCap_none_iff.mp hins
    exact ⟨hst,⟨hca,⟨caCert,p,hcache,hp,hcert⟩,hrow,hfresh⟩,rfl⟩
  · intro h
    obtain ⟨hst,⟨hca,⟨caCert,p,hcache,hp,hcert⟩,hrow,hfresh⟩,rfl⟩ := h
    refine ⟨pend,caCert,_,hpend,hst,hca,hcache,?_,rfl⟩
    exact issueFromCsr_eq_ok_iff.mpr ⟨p,hp,hcert,hrow,insertUnderCap_none_iff.mpr ⟨hfresh,rfl⟩⟩

end

/-- Two CAs, a user with a challenge of her own and the subject `scep`, each with a profile. -/
def twoCas (ca : String) : Except (Nat × String) CaCert :=
  if ca = "ca1" then .ok issuingCa
  else if ca = "ca2" then .ok { issuingCa with subject := [cnEntry "CA2"] }
  else .error (404,"no such CA")

def manualServer : Server where
  ssl := tlsObjects
  nameCmp a b := a = b
  cfg := leafConfig
  rbac := ⟨[⟨"staff",none,none,none⟩,⟨"devices",none,none,none⟩],
    [⟨"staff","scep:enrol","*"⟩,⟨"staff","profile:use","web"⟩,⟨"devices","profile:use","dev"⟩],[],
    [⟨"user","alice","staff"⟩,⟨"user","scep","devices"⟩]⟩
  profiles := ⟨[("web",{ clientProfile with validityDays := 30 }),("dev",clientProfile)],
    ["dev","web"]⟩
  directoryGroups _ := []
  caUrlsForInstance _ := ⟨[],[],[]⟩
  scepManualApproval := true
  scepDynamicChallenge := false
  scepRenewal := false

def noRequests : Tables := ⟨[],fun kid => if kid = "alice" then some "s3" else none,
  fun _ => none,fun _ => none⟩

def firstCsr : Csr := ⟨deviceName,ecKey,[]⟩

def secondCsr : Csr := ⟨deviceName,{ ecKey with key := [4,7,7] },[]⟩

def firstRequest : PkcsReq := ⟨"tx","ca1",some (.ok firstCsr),"alice:s3",none⟩

def secondRequest : PkcsReq := ⟨"tx","ca2",some (.ok secondCsr),"alice:s3",none⟩

def anEnv : Env := ⟨1000,"1f",.ok ()⟩

def parkedThenApproved : List Op :=
  [.pkcsreq manualServer anEnv firstRequest,.approve manualServer anEnv "tx" "ca1"]

def scepCert (owner : String) (notAfter : Int) : Cert :=
  { namedCert deviceName with
    notAfter := notAfter
    extensions := (namedCert deviceName).extensions++
      [⟨oidSubjectDirectoryAttributes,false,.text owner⟩] }

theorem parkedThenApproved_routes :
    Along (step twoCas) RouteNamed (start noRequests) parkedThenApproved := by
  have hparked : (step twoCas (start noRequests)
      (.pkcsreq manualServer anEnv firstRequest)).parked "tx"=some (firstCsr,"ca1") := by rfl
  refine ⟨trivial,fun csr route h => ?_,trivial⟩
  rw [hparked] at h
  exact (Prod.mk.inj (Option.some.inj h)).2

theorem approved_as_scep_alice :
    ApprovedAsScep manualServer anEnv twoCas
      (run (step twoCas) (start noRequests)
        [.pkcsreq manualServer anEnv firstRequest]).tables firstCsr "ca1"
      (issuedRow (scepCert "scep" 7777000) "scep" "ca1") := by
  have hpend : (run (step twoCas) (start noRequests)
      [.pkcsreq manualServer anEnv firstRequest]).tables.pending "tx"=some (parkedRow firstCsr) := by
    rfl
  have hall := (approved_as_scep noRequests (fun _ => rfl) _ "tx" _ hpend).2
  exact ((hall manualServer anEnv "ca1" _ _).mp rfl).2.1

/-- The request of a user, issued at once and issued after approval: another owner and another
profile. -/
theorem approval_forgets_requester :
    let inline := issuedRow (scepCert "alice" 2593000) "alice" "ca1"
    let approved := issuedRow (scepCert "scep" 7777000) "scep" "ca1"
    (pkcsreqOn twoCas { manualServer with scepManualApproval := false } anEnv noRequests
      firstRequest).1.certs=[inline] ∧
    (run (step twoCas) (start noRequests) parkedThenApproved).tables.certs=[approved] ∧
    approved.owner≠inline.owner ∧
    ∃ p q,resolveProfile manualServer.rbac manualServer.profiles ⟨inline.owner,"",[]⟩ ""=.ok p ∧
      resolveProfile manualServer.rbac manualServer.profiles ⟨approved.owner,"",[]⟩ ""=.ok q ∧
      p.name≠q.name := by
  refine ⟨rfl,rfl,by decide,⟨"web",{ clientProfile with validityDays := 30 }⟩,⟨"dev",clientProfile⟩,
    rfl,rfl,by decide⟩

end FastPki.Scep
