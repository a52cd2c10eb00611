import FastPki.Framework.Routine
import FastPki.Framework.Run

namespace FastPki.Db

/-- What the server knows of a connection: in a transaction or not, and whether that has failed. -/
inductive Tx where
  | idle
  | open
  | failed
  deriving DecidableEq

/-- `conn_`: no handle, a handle whose connection is gone, or a live one. -/
inductive Conn where
  | null
  | bad
  | ok (tx : Tx)
  deriving DecidableEq

inductive Command where
  | begin
  | commit
  | rollback
  | other
  deriving DecidableEq

/-- How the server answers: the statement is valid, it is an SQL error, or the connection drops. A
reconnection succeeds on `ok`. -/
inductive Answer where
  | ok
  | sqlError
  | drop
  deriving DecidableEq

/-- The handle and the answers to come; where they end, the rest is `ok`. -/
structure Session where
  conn : Conn
  script : List Answer
  deriving DecidableEq

def nextAnswer (script : List Answer) : Answer := script.headD .ok

/-- One statement at the server. COMMIT and ROLLBACK end the transaction whatever they answer, and
in a failed one nothing else is carried out. -/
def serve (k : Command) (tx : Tx) (valid : Bool) : Bool × Tx :=
  match k,tx with
  | .rollback,_ => (true,.idle)
  | .commit,.failed => (true,.idle)
  | .commit,_ => (valid,.idle)
  | _,.failed => (false,.failed)
  | .begin,.idle => if valid then (true,.open) else (false,.idle)
  | .other,.idle => (valid,.idle)
  | _,.open => if valid then (true,.open) else (false,.failed)

/-- `PQexec` and `check`. -/
def exec (k : Command) : Routine Session := fun s =>
  match s.conn with
  | .ok tx =>
    match nextAnswer s.script with
    | .drop => (false,⟨.bad,s.script.tail⟩)
    | a => let r := serve k tx (a = .ok); (r.1,⟨.ok r.2,s.script.tail⟩)
  | _ => (false,s)

/-- `PQstatus(NULL)` is bad and `PQreset(NULL)` does nothing. -/
def ensureConn : Routine Session := fun s =>
  match s.conn with
  | .ok _ => (true,s)
  | .null => (false,s)
  | .bad => if nextAnswer s.script = .ok then (true,⟨.ok .idle,s.script.tail⟩)
      else (false,⟨.bad,s.script.tail⟩)

def execAll (ks : List Command) : Routine Session := .each (ks.map exec)

/-- BEGIN, the statements under a ROLLBACK, and COMMIT behind it. -/
def transaction (n : Nat) : Routine Session :=
  (exec .begin).andThen
    (((execAll (List.replicate n .other)).rescue (exec .rollback)).andThen (exec .commit))

/-- The whole transaction of `set_ca_xcep_uris` stands under the ROLLBACK. -/
def guardedTransaction (n : Nat) : Routine Session :=
  (execAll (.begin::List.replicate n .other++[.commit])).rescue (exec .rollback)

def auditAttempt : Routine Session :=
  (ensureConn.andThen (execAll [.begin,.other,.other,.other,.commit])).rescue (exec .rollback)

/-- `PQstatus` is not `CONNECTION_OK`. -/
def Conn.gone (c : Conn) : Bool := c = .null || c = .bad

def auditLoop : Nat → Routine Session := auditAttempt.retry (·.conn.gone) id

/-- `full` is the branch in which the owner holds the maximum; a new certificate is one row, and one
more for each of its URIs. -/
def quotaAttempt (full : Bool) (uris : Nat) : Routine Session :=
  ensureConn.andThen
    (if full then (execAll [.begin,.other,.other]).andThen (exec .rollback).ignored
    else execAll (.begin::List.replicate (uris+3) .other++[.commit]))

/-- Where the connection is gone, the handle is thrown away before the next attempt. -/
def quotaLoop (full : Bool) (uris : Nat) : Nat → Routine Session :=
  (quotaAttempt full uris).retry (·.conn.gone) fun s => { s with conn := .null }

/-- The shapes of the methods: single statements, checked or not; the three kinds of transaction; the
quota. -/
inductive Method where
  | plain (stmts : List Bool)
  | transaction (n : Nat)
  | setCaXcepUris (n : Nat)
  | appendAudit
  | insertCertWithinQuota (full : Bool) (uris : Nat)
  deriving DecidableEq

def plainStmt (checked : Bool) : Routine Session :=
  if checked then exec .other else (exec .other).ignored

/-- Every method starts with `ConnGuard`. -/
def Method.run : Method → Routine Session
  | .plain stmts => ensureConn.andThen (.each (stmts.map plainStmt))
  | .transaction n => ensureConn.andThen (Db.transaction n)
  | .setCaXcepUris n => ensureConn.andThen (guardedTransaction (n+1))
  | .appendAudit => ensureConn.andThen (auditLoop 3)
  | .insertCertWithinQuota full uris => ensureConn.andThen (quotaLoop full uris 3)

/-- A call, with the answers it meets. -/
structure PgCall where
  method : Method
  script : List Answer
  deriving DecidableEq

def PgCall.run (c : Conn) (call : PgCall) : Bool × Session := call.method.run ⟨c,call.script⟩

def step (c : Conn) (call : PgCall) : Conn := (call.run c).2.conn

/-- There is a handle, and no transaction on a live connection. -/
def Sound (c : Conn) : Prop := c≠.null ∧ ∀ tx,c=.ok tx → tx=.idle

instance (c : Conn) : Decidable (Sound c) :=
  match c with
  | .null => isFalse fun h => h.1 rfl
  | .bad => isTrue ⟨by simp,by simp⟩
  | .ok .idle => isTrue ⟨by simp,by simp⟩
  | .ok .open => isFalse fun h => by simpa using h.2 .open rfl
  | .ok .failed => isFalse fun h => by simpa using h.2 .failed rfl

/-- Of these statements the first that does not succeed, if any, is a BEGIN or a COMMIT with an SQL
error. -/
def settled : List Command → List Answer → Bool
  | [],_ | _,[] => true
  | _::ks,.ok::as => settled ks as
  | k::_,.sqlError::_ => k = .begin || k = .commit
  | _,.drop::_ => false

def quotaCommands (full : Bool) (uris : Nat) : List Command :=
  if full then [.begin,.other,.other] else .begin::List.replicate (uris+3) .other++[.commit]

/-- A call of the quota meets no dropped connection and no SQL error between BEGIN and COMMIT; where
the connection is gone before it, the reconnection may fail. -/
def Spared (c : Conn) (call : PgCall) : Prop :=
  match call.method with
  | .insertCertWithinQuota full uris =>
    if c = .bad then nextAnswer call.script≠.ok ∨ settled (quotaCommands full uris) call.script.tail=true
    else settled (quotaCommands full uris) call.script=true
  | _ => True

section Specs

open Routine

/-- The handle is not on a transaction, it is on this side of one, or it is there at all. -/
def AtRest (s : Session) : Prop := Sound s.conn
def At (tx : Tx) (s : Session) : Prop := s.conn=.ok tx
def Held (s : Session) : Prop := s.conn≠.null

theorem At.atRest {s : Session} (h : At .idle s) : AtRest s := by
  rw [AtRest,h]
  decide

theorem AtRest.cases {s : Session} (h : AtRest s) : s.conn=.bad ∨ s.conn=.ok .idle := by
  cases hc : s.conn with
  | null => exact absurd hc h.1
  | bad => exact Or.inl rfl
  | ok tx => rw [h.2 tx hc]; exact Or.inr rfl

theorem meets_ensureConn : Meets AtRest ensureConn (At .idle) AtRest := by
  intro s hs
  obtain hbad|hidle := hs.cases
  · by_cases hreach : nextAnswer s.script=.ok
    · simp [ensureConn,hbad,hreach,At]
    · simp [ensureConn,hbad,hreach,AtRest,Sound]
  · simp [ensureConn,hidle,At]

/-- A statement on a live connection: what the server makes of it, or a dead connection. -/
theorem meets_exec {k : Command} {tx : Tx} {Q E : Session → Prop}
    (hok : ∀ as,if (serve k tx true).1 then Q ⟨.ok (serve k tx true).2,as⟩
      else E ⟨.ok (serve k tx true).2,as⟩)
    (herr : ∀ as,if (serve k tx false).1 then Q ⟨.ok (serve k tx false).2,as⟩
      else E ⟨.ok (serve k tx false).2,as⟩)
    (hdrop : ∀ as,E ⟨.bad,as⟩) : Meets (At tx) (exec k) Q E := by
  intro s hs
  rw [At] at hs
  cases ha : nextAnswer s.script with
  | ok => simpa [exec,hs,ha] using hok s.script.tail
  | sqlError => simpa [exec,hs,ha] using herr s.script.tail
  | drop => simpa [exec,hs,ha] using hdrop s.script.tail

theorem meets_begin : Meets (At .idle) (exec .begin) (At .open) AtRest :=
  meets_exec (fun _ => rfl) (fun _ => (by decide : Sound (.ok .idle))) fun _ => (by decide : Sound .bad)

theorem meets_other : Meets (At .open) (exec .other) (At .open) Held :=
  meets_exec (fun _ => rfl) (fun _ => by simp [serve,Held]) fun _ => by simp [Held]

theorem meets_commit : Meets (At .open) (exec .commit) (At .idle) AtRest :=
  meets_exec (fun _ => rfl) (fun _ => (by decide : Sound (.ok .idle))) fun _ => (by decide : Sound .bad)

theorem meets_rollback : Meets Held (exec .rollback) AtRest AtRest := by
  intro s hs
  cases hc : s.conn with
  | null => exact absurd hc hs
  | bad => simp [exec,hc,AtRest,Sound]
  | ok tx =>
    have hend : Meets (At tx) (exec .rollback) AtRest AtRest :=
      meets_exec (fun _ => (by decide : Sound (.ok .idle))) (fun _ => (by decide : Sound (.ok .idle)))
        fun _ => (by decide : Sound .bad)
    exact hend s hc

theorem AtRest.held (s : Session) (h : AtRest s) : Held s := h.1

theorem meets_plainStmt (checked : Bool) : Meets AtRest (plainStmt checked) AtRest AtRest := by
  have hother : Meets AtRest (exec .other) AtRest AtRest := by
    intro s hs
    obtain hbad|hidle := hs.cases
    · simp [exec,hbad,AtRest,Sound]
    · have hend : Meets (At .idle) (exec .other) AtRest AtRest :=
        meets_exec (fun _ => (by decide : Sound (.ok .idle))) (fun _ => (by decide : Sound (.ok .idle)))
          fun _ => (by decide : Sound .bad)
      exact hend s hidle
  cases checked with
  | true => exact hother
  | false => exact hother.ignored

theorem meets_others (n : Nat) :
    Meets (At .open) (execAll (List.replicate n .other)) (At .open) Held := by
  refine Meets.each fun c hc => ?_
  obtain ⟨k,hk,rfl⟩ := List.mem_map.mp hc
  rw [List.eq_of_mem_replicate hk]
  exact meets_other

theorem meets_transaction (n : Nat) : Meets (At .idle) (transaction n) (At .idle) AtRest :=
  meets_begin.andThen (((meets_others n).rescue meets_rollback).andThen meets_commit)

/-- A whole transaction returns outside of it, and leaves a handle where it throws. -/
theorem meets_execAll (n : Nat) :
    Meets (At .idle) (execAll (Command.begin::List.replicate n Command.other++[Command.commit]))
      (At .idle) Held := by
  have hcommit : Meets (At .open) (Routine.each [exec .commit]) (At .idle) Held := by
    refine (meets_commit.weaken AtRest.held).andThen fun s hs => hs
  have hrest : Meets (At .open) (execAll (List.replicate n Command.other++[Command.commit]))
      (At .idle) Held := by
    rw [execAll,List.map_append]
    exact (meets_others n).each_append hcommit
  exact (meets_begin.weaken AtRest.held).andThen hrest

theorem meets_guardedTransaction (n : Nat) :
    Meets (At .idle) (guardedTransaction n) (At .idle) AtRest :=
  (meets_execAll n).rescue meets_rollback

theorem meets_auditAttempt : Meets AtRest auditAttempt (At .idle) AtRest :=
  ((meets_ensureConn.weaken AtRest.held).andThen (meets_execAll 3)).rescue meets_rollback

theorem meets_auditLoop (left : Nat) : Meets AtRest (auditLoop left) AtRest AtRest := by
  have hattempt : Meets AtRest auditAttempt AtRest AtRest :=
    meets_auditAttempt.strengthen fun s hs => hs.atRest
  exact hattempt.retry (fun s hs => hs) (fun s hs => hs) left

/-- Every method but the quota's gives the connection back as it found it. -/
theorem meets_run (m : Method) (hm : ∀ full uris,m≠.insertCertWithinQuota full uris) :
    Meets AtRest m.run AtRest AtRest := by
  have hrest : ∀ s,At .idle s → AtRest s := fun s hs => hs.atRest
  cases m with
  | plain stmts =>
    have hstmts : Meets AtRest (Routine.each (stmts.map plainStmt)) AtRest AtRest := by
      refine Meets.each fun c hc => ?_
      obtain ⟨checked,_,rfl⟩ := List.mem_map.mp hc
      exact meets_plainStmt checked
    exact meets_ensureConn.andThen fun s hs => hstmts s hs.atRest
  | transaction n => exact (meets_ensureConn.andThen (meets_transaction n)).strengthen hrest
  | setCaXcepUris n =>
    exact (meets_ensureConn.andThen (meets_guardedTransaction (n+1))).strengthen hrest
  | appendAudit => exact meets_ensureConn.andThen fun s hs => meets_auditLoop 3 s hs.atRest
  | insertCertWithinQuota full uris => exact absurd rfl (hm full uris)

end Specs

section Quota

theorem settled_nil (ks : List Command) : settled ks []=true := by
  cases ks with
  | nil => rfl
  | cons k ks => rfl

/-- From `tx` the statements return at `fin`, throw outside a transaction, or are not settled and
leave a failed one or a dead connection. -/
def Resolves (ks : List Command) (tx fin : Tx) : Prop := ∀ as,
  let r := execAll ks ⟨.ok tx,as⟩
  if settled ks as then (r.1=true ∧ r.2.conn=.ok fin) ∨ (r.1=false ∧ r.2.conn=.ok .idle)
  else r.1=false ∧ (r.2.conn=.ok .failed ∨ r.2.conn=.bad)

theorem resolves_nil (tx : Tx) : Resolves [] tx tx := by
  intro as
  simp only [settled,if_true]
  exact Or.inl ⟨rfl,rfl⟩

theorem execAll_cons (k : Command) (ks : List Command) :
    execAll (k::ks)=(exec k).andThen (execAll ks) := rfl

theorem Resolves.cons {k : Command} {ks : List Command} {tx mid fin : Tx} (h : Resolves ks mid fin)
    (hok : serve k tx true=(true,mid))
    (herr : serve k tx false=(false,if k=.begin ∨ k=.commit then .idle else .failed)) :
    Resolves (k::ks) tx fin := by
  intro as
  rw [execAll_cons]
  cases as with
  | nil =>
    have hrest := h []
    rw [settled_nil] at hrest ⊢
    simpa [Routine.andThen,exec,nextAnswer,hok] using hrest
  | cons a as =>
    cases a with
    | ok => simpa [Routine.andThen,exec,nextAnswer,hok,settled] using h as
    | sqlError =>
      by_cases hk : k=.begin ∨ k=.commit
      · simp [Routine.andThen,exec,nextAnswer,herr,settled,hk]
      · simp [Routine.andThen,exec,nextAnswer,herr,settled,hk]
    | drop => simp [Routine.andThen,exec,nextAnswer,settled]

theorem Resolves.others {ks : List Command} {fin : Tx} (h : Resolves ks .open fin) (n : Nat) :
    Resolves (List.replicate n Command.other++ks) .open fin := by
  induction n with
  | zero => exact h
  | succ n ih => exact ih.cons rfl rfl

theorem resolves_quota (uris : Nat) :
    Resolves (Command.begin::List.replicate (uris+3) Command.other++[Command.commit]) .idle .idle :=
  (((resolves_nil .idle).cons rfl rfl).others (uris+3)).cons rfl rfl

theorem resolves_full : Resolves [.begin,.other,.other] .idle .open :=
  ((((resolves_nil .open).cons rfl rfl).cons rfl rfl).cons rfl rfl)

/-- An attempt with its two branches behind the count. -/
theorem quotaAttempt_eq (full : Bool) (uris : Nat) : quotaAttempt full uris=
    ensureConn.andThen ((exec .begin).andThen ((exec .other).andThen ((exec .other).andThen
      (if full then (exec .rollback).ignored
      else (execAll (List.replicate (uris+1) .other)).andThen (exec .commit))))) := by
  rw [quotaAttempt]
  cases full with
  | true =>
    rw [if_pos rfl,if_pos rfl,execAll_cons,execAll_cons,execAll_cons,Routine.andThen_assoc,
      Routine.andThen_assoc,Routine.andThen_assoc]
    rfl
  | false =>
    have hcommit : execAll (List.replicate (uris+1) .other++[.commit])=
        (execAll (List.replicate (uris+1) .other)).andThen (exec .commit) := by
      rw [execAll,List.map_append,Routine.each_append,List.map_singleton,Routine.each_singleton]
      rfl
    rw [if_neg Bool.false_ne_true,if_neg Bool.false_ne_true,← hcommit]
    rfl

theorem quotaLoop_null (full : Bool) (uris left : Nat) (as : List Answer) :
    quotaLoop full uris left ⟨.null,as⟩=(false,⟨.null,as⟩) := by
  induction left with
  | zero => rfl
  | succ left ih =>
    have hattempt : quotaAttempt full uris ⟨.null,as⟩=(false,⟨.null,as⟩) := rfl
    rw [quotaLoop] at ih
    simp [quotaLoop,Routine.retry,hattempt,ih]

/-- So only the first attempt does anything. -/
theorem quotaLoop_succ (full : Bool) (uris left : Nat) (s : Session) :
    quotaLoop full uris (left+1) s=
      let r := quotaAttempt full uris s
      if r.1 then r
      else (false,⟨if r.2.conn.gone ∧ left≠0 then .null else r.2.conn,r.2.script⟩) := by
  have hnull := quotaLoop_null full uris left (quotaAttempt full uris s).2.script
  rw [quotaLoop] at hnull ⊢
  simp only [Routine.retry,hnull]
  by_cases hr : (quotaAttempt full uris s).1=true
  · rw [if_pos hr,if_pos hr]
  · rw [if_neg hr,if_neg hr]
    split_ifs
    · rfl
    · rfl

/-- An attempt that is settled returns or throws outside a transaction; any other throws in a failed
one or on a dead connection. -/
theorem quotaAttempt_resolves (full : Bool) (uris : Nat) (as : List Answer) :
    let r := quotaAttempt full uris ⟨.ok .idle,as⟩
    if settled (quotaCommands full uris) as then Sound r.2.conn ∧ (r.1=true ∨ r.2.conn=.ok .idle)
    else r.1=false ∧ (r.2.conn=.ok .failed ∨ r.2.conn=.bad) := by
  have hconn : ∀ d : Routine Session,
      (ensureConn.andThen d) ⟨.ok .idle,as⟩=d ⟨.ok .idle,as⟩ := fun d => rfl
  cases full with
  | false =>
    have hres := resolves_quota uris as
    simp only [quotaAttempt,quotaCommands,hconn,Bool.false_eq_true,if_false]
    split_ifs at hres ⊢ with hset
    · obtain ⟨hr,hc⟩|⟨hr,hc⟩ := hres
      · exact ⟨by rw [hc]; decide,Or.inl hr⟩
      · exact ⟨by rw [hc]; decide,Or.inr hc⟩
    · exact hres
  | true =>
    have hres := resolves_full as
    simp only [quotaAttempt,quotaCommands,hconn,if_true]
    split_ifs at hres ⊢ with hset
    · obtain ⟨hr,hc⟩|⟨hr,hc⟩ := hres
      · have hend : Sound (exec .rollback (execAll [.begin,.other,.other] ⟨.ok .idle,as⟩).2).2.conn := by
          have hmeets := meets_rollback (execAll [.begin,.other,.other] ⟨.ok .idle,as⟩).2
            (by rw [Held,hc]; simp)
          simpa [AtRest] using hmeets
        simpa [Routine.andThen,hr,Routine.ignored] using hend
      · simp [Routine.andThen,hr,hc]
        decide
    · simpa [Routine.andThen,hres.1] using hres.2

theorem quotaLoop_sound_iff (full : Bool) (uris : Nat) (as : List Answer) :
    Sound (quotaLoop full uris 3 ⟨.ok .idle,as⟩).2.conn ↔
      settled (quotaCommands full uris) as=true := by
  have hres := quotaAttempt_resolves full uris as
  rw [quotaLoop_succ]
  simp only at hres ⊢
  split_ifs at hres with hset
  · obtain ⟨hsound,hr|hidle⟩ := hres
    · simpa [hr,hset] using hsound
    · by_cases hr : (quotaAttempt full uris ⟨.ok .idle,as⟩).1=true
      · simpa [hr,hset] using hsound
      · simpa [hr,hset,hidle,Conn.gone] using hsound
  · obtain ⟨hr,hfailed|hbad⟩ := hres
    · simp [hr,hset,hfailed,Conn.gone,Sound]
    · simp [hr,hset,hbad,Conn.gone,Sound]

end Quota

/-- One call from a connection at rest. -/
theorem step_sound_iff (c : Conn) (call : PgCall) (hc : Sound c) :
    Sound (step c call) ↔ Spared c call := by
  obtain ⟨m,as⟩ := call
  have hother : (∀ full uris,m≠.insertCertWithinQuota full uris) → Sound (step c ⟨m,as⟩) := by
    intro hm
    have hend := meets_run m hm ⟨c,as⟩ hc
    simpa [AtRest,step,PgCall.run] using hend
  cases m with
  | plain stmts => exact iff_of_true (hother (by simp)) trivial
  | transaction n => exact iff_of_true (hother (by simp)) trivial
  | setCaXcepUris n => exact iff_of_true (hother (by simp)) trivial
  | appendAudit => exact iff_of_true (hother (by simp)) trivial
  | insertCertWithinQuota full uris =>
    obtain rfl|rfl := AtRest.cases (show AtRest ⟨c,as⟩ from hc)
    · by_cases hreach : nextAnswer as=.ok
      · have hstep : step .bad ⟨.insertCertWithinQuota full uris,as⟩=
            (quotaLoop full uris 3 ⟨.ok .idle,as.tail⟩).2.conn := by
          simp [step,PgCall.run,Method.run,Routine.andThen,ensureConn,hreach]
        rw [hstep,quotaLoop_sound_iff]
        simp [Spared,hreach]
      · have hstep : step .bad ⟨.insertCertWithinQuota full uris,as⟩=.bad := by
          simp [step,PgCall.run,Method.run,Routine.andThen,ensureConn,hreach]
        rw [hstep]
        exact iff_of_true (by decide) (by simp [Spared,hreach])
    · have hstep : step (.ok .idle) ⟨.insertCertWithinQuota full uris,as⟩=
          (quotaLoop full uris 3 ⟨.ok .idle,as⟩).2.conn := rfl
      rw [hstep,quotaLoop_sound_iff]
      simp [Spared]

section Reachable

open Routine

/-- A live connection with nothing but valid statements and a reachable server ahead. -/
def Fresh (tx : Tx) (s : Session) : Prop := s=⟨.ok tx,[]⟩

def Never (_ : Session) : Prop := False

theorem fresh_exec {k : Command} {tx fin : Tx} (h : serve k tx true=(true,fin)) :
    Meets (Fresh tx) (exec k) (Fresh fin) Never := by
  intro s hs
  rw [hs]
  simp [exec,nextAnswer,h,Fresh]

theorem fresh_others (n : Nat) :
    Meets (Fresh .open) (execAll (List.replicate n .other)) (Fresh .open) Never := by
  refine Meets.each fun c hc => ?_
  obtain ⟨k,hk,rfl⟩ := List.mem_map.mp hc
  rw [List.eq_of_mem_replicate hk]
  exact fresh_exec rfl

theorem fresh_execAll (n : Nat) :
    Meets (Fresh .idle) (execAll (Command.begin::List.replicate n Command.other++[Command.commit]))
      (Fresh .idle) Never := by
  have hcommit : Meets (Fresh .open) (Routine.each [exec .commit]) (Fresh .idle) Never :=
    (fresh_exec rfl).andThen fun s hs => hs
  have hrest : Meets (Fresh .open) (execAll (List.replicate n Command.other++[Command.commit]))
      (Fresh .idle) Never := by
    rw [execAll,List.map_append]
    exact (fresh_others n).each_append hcommit
  exact (fresh_exec rfl).andThen hrest

theorem fresh_ensureConn : Meets (Fresh .idle) ensureConn (Fresh .idle) Never := by
  intro s hs
  rw [hs]
  rfl

theorem fresh_rescue {c d : Routine Session} (h : Meets (Fresh .idle) c (Fresh .idle) Never) :
    Meets (Fresh .idle) (c.rescue d) (Fresh .idle) Never := h.rescue fun _ hs => hs.elim

/-- On a connection at rest every method returns, once its statements are valid and the server is
reachable. -/
theorem run_returns (c : Conn) (hc : Sound c) (m : Method) : (PgCall.run c ⟨m,[]⟩).1=true := by
  have hreturns : ∀ d : Routine Session,Meets (Fresh .idle) d (Fresh .idle) Never →
      (ensureConn.andThen d ⟨c,[]⟩).1=true := by
    intro d hd
    have hstart : ensureConn ⟨c,[]⟩=(true,⟨.ok .idle,[]⟩) := by
      obtain rfl|rfl := AtRest.cases (show AtRest ⟨c,[]⟩ from hc)
      · rfl
      · rfl
    have hend := hd ⟨.ok .idle,[]⟩ rfl
    by_contra hr
    simp only [Routine.andThen,hstart,if_true] at hr
    rw [if_neg hr] at hend
    exact hend
  have hloop : ∀ a loop : Routine Session,Meets (Fresh .idle) a (Fresh .idle) Never →
      (∀ s,(a s).1=true → loop s=a s) → Meets (Fresh .idle) loop (Fresh .idle) Never := by
    intro a loop ha hfirst s hs
    have hend := ha s hs
    by_cases hr : (a s).1=true
    · rwa [hfirst s hr]
    · rw [if_neg hr] at hend
      exact hend.elim
  cases m with
  | plain stmts =>
    refine hreturns _ (Meets.each fun d hd => ?_)
    obtain ⟨checked,_,rfl⟩ := List.mem_map.mp hd
    intro s hs
    rw [hs]
    cases checked with
    | true => rfl
    | false => rfl
  | transaction n =>
    have hbody := (fresh_others n).rescue (d := exec .rollback) (T := Never) fun _ hs => hs.elim
    exact hreturns _ ((fresh_exec rfl).andThen (hbody.andThen (fresh_exec rfl)))
  | setCaXcepUris n => exact hreturns _ (fresh_rescue (fresh_execAll (n+1)))
  | appendAudit =>
    have hattempt := fresh_rescue (d := exec .rollback) (fresh_ensureConn.andThen (fresh_execAll 3))
    exact hreturns _ (hloop auditAttempt _ hattempt fun s hs => Routine.retry_returns hs 2)
  | insertCertWithinQuota full uris =>
    have hattempt : Meets (Fresh .idle) (quotaAttempt full uris) (Fresh .idle) Never := by
      refine fresh_ensureConn.andThen ?_
      cases full with
      | true =>
        intro s hs
        rw [hs]
        rfl
      | false => exact fresh_execAll (uris+3)
    exact hreturns _ (hloop _ _ hattempt fun s hs => Routine.retry_returns hs 2)

end Reachable

/-- In every sequence of calls the handle stays and no transaction is left on it, after each call,
exactly when no call of the quota meets a dropped connection or an SQL error inside its transaction;
and from such a state the next call returns. -/
theorem connection_survives_iff (calls : List PgCall) :
    ((∀ n,Sound (run step (.ok .idle) (calls.take n))) ↔ Along step Spared (.ok .idle) calls) ∧
    ∀ n,Sound (run step (.ok .idle) (calls.take n)) →
      ∀ m,(PgCall.run (run step (.ok .idle) (calls.take n)) ⟨m,[]⟩).1=true := by
  constructor
  · exact forall_take_iff_along (fun c call hc => step_sound_iff c call hc) calls (by decide)
  · intro n hn m
    exact run_returns _ hn m

/-- The INSERT of a certificate is an SQL error: the next statement finds a failed transaction. -/
def duplicateSerial : PgCall := ⟨.insertCertWithinQuota false 0,[.ok,.ok,.ok,.sqlError]⟩

/-- The connection drops at the lock: no later call ever succeeds. -/
def droppedAtLock : PgCall := ⟨.insertCertWithinQuota false 0,[.ok,.drop]⟩

theorem quota_leaves_transaction :
    step (.ok .idle) duplicateSerial=.ok .failed ∧
    (PgCall.run (.ok .failed) ⟨.plain [true],[]⟩).1=false ∧
    step (.ok .idle) droppedAtLock=.null ∧ (PgCall.run .null ⟨.plain [true],[]⟩).1=false := by
  decide

end FastPki.Db
