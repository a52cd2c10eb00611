import FastPki.Certs.Quota
import Mathlib.Data.Finset.Insert

namespace FastPki.Certs.Insert

open Db (Tx Conn Command serve)
open Quota (Outcome)

section Server

variable {τ : Type*}

/-- A session over the tables `τ`: its connection, the committed tables, those of its open
transaction, and how its next statements end; where the list ends, the rest succeed. -/
structure Session (τ : Type*) where
  conn : Conn
  committed : τ
  work : τ
  script : List Outcome

def nextOutcome (script : List Outcome) : Outcome := script.headD .ok

/-- The tables that a statement reads. -/
def Session.tables (s : Session τ) (tx : Tx) : τ := if tx = .open then s.work else s.committed

/-- What the server keeps of a statement that it carries out. Outside a transaction it is committed
with the statement. -/
def Session.carry (s : Session τ) (k : Command) (tx : Tx) (f : τ → Option τ) : Session τ :=
  match k,tx with
  | .begin,.idle => { s with work := s.committed }
  | .commit,.open => { s with committed := s.work }
  | .other,.idle => { s with committed := (f s.committed).getD s.committed }
  | .other,.open => { s with work := (f s.work).getD s.work }
  | _,_ => s

/-- What the connection sees of the end of a statement, which the server takes to be valid or not. -/
def answer (valid : Bool) : Outcome → Db.Answer
  | .ok => if valid then .ok else .sqlError
  | .sqlError => .sqlError
  | .drop _ => .drop

/-- What the tables see of it. -/
def Session.keep (s : Session τ) (k : Command) (tx : Tx) (f : τ → Option τ) : Outcome → Session τ
  | .ok | .drop true => s.carry k tx f
  | _ => s

/-- `PQexec` and `check`, of a statement that the server refuses where `f` has no value. -/
def exec (k : Command) (f : τ → Option τ) : Routine (Session τ) := fun s =>
  match s.conn with
  | .ok tx =>
    let o := nextOutcome s.script
    let r := Db.exec k ⟨s.conn,[answer (f (s.tables tx)).isSome o]⟩
    (r.1,{ s.keep k tx f o with conn := r.2.conn,script := s.script.tail })
  | _ => (false,s)

/-- Only a new connection takes an outcome. -/
def ensureConn : Routine (Session τ) := fun s =>
  let r := Db.ensureConn ⟨s.conn,[answer true (nextOutcome s.script)]⟩
  (r.1,{ s with conn := r.2.conn,script := if s.conn = .bad then s.script.tail else s.script })

/-- How many of `n` statements are carried out, of which each waits for the one before it. -/
def carriedOut : List Outcome → Nat → Nat
  | _,0 => 0
  | [],n+1 => n+1
  | .ok::as,n+1 => carriedOut as n+1
  | .sqlError::_,_+1 => 0
  | .drop applied::_,_+1 => if applied then 1 else 0

/-- The outcomes that are left for the statements of a call, where it comes to them outside a
transaction. -/
def Session.ready (s : Session τ) : Option (List Outcome) :=
  match s.conn with
  | .ok .idle => some s.script
  | .bad => if nextOutcome s.script = .ok then some s.script.tail else none
  | _ => none

end Server

/-- `certs`, and `cert_uris` with its pairs of serial and URI. -/
structure Tables where
  certs : Inventory
  uris : Finset (String × String)

def storeRow (row : Row) (t : Tables) : Option Tables :=
  (t.certs.insertCert row).map fun db => { t with certs := db }

/-- ON CONFLICT DO NOTHING. -/
def indexUri (serial uri : String) (t : Tables) : Tables :=
  { t with uris := insert (serial,uri) t.uris }

section Calls

variable (san : X509.Octets → List String)

/-- `san` is `x509_san_uris` of the certificate, and empty where that is none; `row` is what the
INSERT writes. -/
def insertCertUnlocked (row : Row) : Routine (Session Tables) :=
  (exec .other (storeRow row)).andThen
    (.each ((san row.cert).map fun u => exec .other fun t => some (indexUri row.serial u t)))

def insertCert (row : Row) : Routine (Session Tables) :=
  ensureConn.andThen (insertCertUnlocked san row)

variable (owner : String) (maxCerts : Int)

/-- `held >= max_certs`, by the count of this transaction. -/
def full (t : Tables) : Bool := (t.certs.countActiveForOwner owner : Int) ≥ maxCerts

def insertOrRefuse (row : Row) : Routine (Session Tables) := fun s =>
  if full owner maxCerts s.work then (exec .rollback some).ignored s
  else (insertCertUnlocked san row).andThen (exec .commit some) s

/-- BEGIN, the lock, the count, and what follows from it. -/
def quotaAttempt (row : Row) : Routine (Session Tables) :=
  ensureConn.andThen ((exec .begin some).andThen ((exec .other some).andThen
    ((exec .other some).andThen (insertOrRefuse san owner maxCerts row))))

/-- The attempts that are left. A live connection and the last attempt rethrow, else the handle is
thrown away. -/
def quotaLoop (row : Row) : Nat → Routine (Session Tables) :=
  (quotaAttempt san owner maxCerts row).retry (·.conn.gone) fun s => { s with conn := .null }

/-- Returns where it answers, `true` or `false`. -/
def insertCertWithinQuota (row : Row) : Routine (Session Tables) :=
  ensureConn.andThen (quotaLoop san owner maxCerts row 3)

end Calls

section Run

variable {τ : Type*}

/-- A statement on a live connection, by how it ends. -/
theorem exec_live (k : Command) (f : τ → Option τ) {s : Session τ} {tx : Tx} (hs : s.conn=.ok tx) :
    exec k f s=match nextOutcome s.script with
      | .drop applied =>
        (false,{ (if applied then s.carry k tx f else s) with conn := .bad,script := s.script.tail })
      | .sqlError =>
        ((serve k tx false).1,{ s with conn := .ok (serve k tx false).2,script := s.script.tail })
      | .ok =>
        ((serve k tx (f (s.tables tx)).isSome).1,
          { s.carry k tx f with
            conn := .ok (serve k tx (f (s.tables tx)).isSome).2
            script := s.script.tail }) := by
  simp only [exec,hs]
  cases nextOutcome s.script with
  | ok =>
    cases (f (s.tables tx)).isSome with
    | true => rfl
    | false => rfl
  | sqlError => rfl
  | drop applied =>
    cases applied with
    | true => rfl
    | false => rfl

theorem ensureConn_apply (s : Session τ) : ensureConn s=match s.conn with
    | .ok _ => (true,s)
    | .null => (false,s)
    | .bad => if nextOutcome s.script = .ok then
        (true,{ s with conn := .ok .idle,script := s.script.tail })
      else (false,{ s with script := s.script.tail }) := by
  obtain ⟨conn,c,w,as⟩ := s
  cases conn with
  | null => rfl
  | bad =>
    simp only [ensureConn]
    cases nextOutcome as with
    | ok => rfl
    | sqlError => rfl
    | drop applied => rfl
  | ok tx => rfl

/-- The next outcome decides whether the statements behind it are reached. -/
theorem carriedOut_succ (as : List Outcome) (n : Nat) : carriedOut as (n+1)=
    match nextOutcome as with
    | .ok => carriedOut as.tail n+1
    | .sqlError => 0
    | .drop applied => if applied then 1 else 0 := by
  cases as with
  | nil =>
    have hall : carriedOut [] n=n := by
      cases n with
      | zero => rfl
      | succ n => rfl
    simp [carriedOut,nextOutcome,hall]
  | cons a as =>
    cases a with
    | ok => rfl
    | sqlError => rfl
    | drop applied => rfl

/-- Without a transaction, what is committed is what the statements that are carried out have done. -/
theorem committed_each_idle {α : Type*} (l : List α) (g : α → τ → τ) (c w : τ) (as : List Outcome) :
    (Routine.each (l.map fun x => exec .other fun t => some (g x t)) ⟨.ok .idle,c,w,as⟩).2.committed=
      (l.take (carriedOut as l.length)).foldl (fun t x => g x t) c := by
  induction l generalizing c as with
  | nil =>
    rw [List.length_nil,carriedOut]
    rfl
  | cons x l ih =>
    rw [List.map_cons,Routine.each_cons,List.length_cons,carriedOut_succ]
    cases hnext : nextOutcome as with
    | ok =>
      have hrest := ih (g x c) as.tail
      simpa [Routine.andThen,exec_live,hnext,serve,Session.carry,Session.tables] using hrest
    | sqlError => simp [Routine.andThen,exec_live,hnext,serve]
    | drop applied =>
      cases applied with
      | true => simp [Routine.andThen,exec_live,hnext,Session.carry]
      | false => simp [Routine.andThen,exec_live,hnext]

/-- The rest of a transaction: `n` statements and the COMMIT, which commits what `h` makes of the
work so far if all of them are carried out and none is refused. -/
def Commits (k : Routine (Session τ)) (n : Nat) (h : τ → Option τ) : Prop := ∀ c w as,
  (k ⟨.ok .open,c,w,as⟩).2.committed=if carriedOut as (n+1)=n+1 then (h w).getD c else c

theorem commits_commit : Commits (exec .commit (some : τ → Option τ)) 0 some := by
  intro c w as
  rw [carriedOut_succ]
  cases hnext : nextOutcome as with
  | ok => simp [exec_live,hnext,serve,Session.carry,carriedOut]
  | sqlError => simp [exec_live,hnext,serve]
  | drop applied =>
    cases applied with
    | true => simp [exec_live,hnext,Session.carry]
    | false => simp [exec_live,hnext]

theorem Commits.step {k : Routine (Session τ)} {n : Nat} {h : τ → Option τ} (hk : Commits k n h)
    (f : τ → Option τ) : Commits ((exec .other f).andThen k) (n+1) fun w => (f w).bind h := by
  intro c w as
  rw [carriedOut_succ]
  cases hnext : nextOutcome as with
  | ok =>
    cases hf : f w with
    | none => simp [Routine.andThen,exec_live,hnext,serve,Session.carry,Session.tables,hf]
    | some w' =>
      have hrest := hk c w' as.tail
      simpa [Routine.andThen,exec_live,hnext,serve,Session.carry,Session.tables,hf] using hrest
  | sqlError => simp [Routine.andThen,exec_live,hnext,serve]
  | drop applied =>
    -- the work is lost with the connection, applied or not
    cases applied with
    | true => simp [Routine.andThen,exec_live,hnext,Session.carry]
    | false => simp [Routine.andThen,exec_live,hnext]

theorem Commits.each {α : Type*} {k : Routine (Session τ)} {n : Nat} {h : τ → Option τ}
    (hk : Commits k n h) (l : List α) (g : α → τ → τ) :
    Commits ((Routine.each (l.map fun x => exec .other fun t => some (g x t))).andThen k)
      (l.length+n) fun w => h (l.foldl (fun t x => g x t) w) := by
  induction l with
  | nil =>
    rw [List.length_nil,Nat.zero_add]
    exact hk
  | cons x l ih =>
    rw [List.map_cons,Routine.each_cons,Routine.andThen_assoc,List.length_cons,Nat.succ_add]
    exact ih.step _

/-- A whole transaction commits all of its work or nothing. -/
theorem committed_begin {k : Routine (Session τ)} {n : Nat} {h : τ → Option τ} (hk : Commits k n h)
    (c w : τ) (as : List Outcome) :
    ((exec .begin some).andThen k ⟨.ok .idle,c,w,as⟩).2.committed=
      if carriedOut as (n+2)=n+2 then (h c).getD c else c := by
  rw [carriedOut_succ]
  cases hnext : nextOutcome as with
  | ok =>
    have hrest := hk c c as.tail
    simpa [Routine.andThen,exec_live,hnext,serve,Session.carry] using hrest
  | sqlError => simp [Routine.andThen,exec_live,hnext,serve]
  | drop applied =>
    cases applied with
    | true => simp [Routine.andThen,exec_live,hnext,Session.carry]
    | false => simp [Routine.andThen,exec_live,hnext]

/-- A call starts outside a transaction, or throws without a statement, or is at the mercy of a
failed one. -/
theorem ensureConn_cases (s : Session τ) (hopen : s.conn≠.ok .open) :
    (∃ as,s.ready=some as ∧ ensureConn s=(true,{ s with conn := .ok .idle,script := as })) ∨
    (s.ready=none ∧ s.conn=.ok .failed ∧ ensureConn s=(true,s)) ∨
    (s.ready=none ∧ (ensureConn s).1=false ∧ (ensureConn s).2.committed=s.committed) := by
  obtain ⟨conn,c,w,as⟩ := s
  cases conn with
  | null => exact Or.inr (Or.inr ⟨rfl,rfl,rfl⟩)
  | bad =>
    by_cases hnext : nextOutcome as=.ok
    · exact Or.inl ⟨as.tail,by simp [Session.ready,hnext],by simp [ensureConn_apply,hnext]⟩
    · exact Or.inr (Or.inr ⟨by simp [Session.ready,hnext],by simp [ensureConn_apply,hnext],
        by simp [ensureConn_apply,hnext]⟩)
  | ok tx =>
    cases tx with
    | idle => exact Or.inl ⟨as,rfl,rfl⟩
    | «open» => exact absurd rfl hopen
    | failed => exact Or.inr (Or.inl ⟨rfl,rfl,rfl⟩)

/-- In a failed transaction nothing is carried out. -/
theorem committed_exec_failed {k : Command} {f : τ → Option τ} (d : Routine (Session τ))
    (hk : k=.begin ∨ k=.other) {s : Session τ} (hs : s.conn=.ok .failed) :
    ((exec k f).andThen d s).2.committed=s.committed := by
  have hrefused : ∀ valid,serve k .failed valid=(false,.failed) := by
    intro valid
    obtain rfl|rfl := hk
    · rfl
    · rfl
  have hkeep : s.carry k .failed f=s := by
    obtain rfl|rfl := hk
    · rfl
    · rfl
  cases hnext : nextOutcome s.script with
  | ok => simp [Routine.andThen,exec_live _ _ hs,hnext,hrefused,hkeep]
  | sqlError => simp [Routine.andThen,exec_live _ _ hs,hnext,hrefused]
  | drop applied => simp [Routine.andThen,exec_live _ _ hs,hnext,hkeep]

end Run

def indexAll (serial : String) (l : List String) (t : Tables) : Tables :=
  l.foldl (fun t u => indexUri serial u t) t

theorem indexAll_certs (serial : String) (l : List String) (t : Tables) :
    (indexAll serial l t).certs=t.certs := by
  induction l generalizing t with
  | nil => rfl
  | cons u l ih => exact ih _

theorem mem_indexAll {serial u : String} {l : List String} {t : Tables} :
    (serial,u)∈(indexAll serial l t).uris ↔ (serial,u)∈t.uris ∨ u∈l := by
  induction l generalizing t with
  | nil => simp [indexAll]
  | cons v l ih =>
    have hrest := ih (t := indexUri serial v t)
    rw [indexAll,List.foldl_cons,← indexAll,hrest]
    simp only [indexUri,Finset.mem_insert,Prod.mk.injEq,true_and,List.mem_cons]
    tauto

theorem storeRow_taken {row : Row} {t : Tables} (h : t.certs.getCert row.serial≠none) :
    storeRow row t=none := by
  have hnone : t.certs.insertCert row=none := Keyed.insert_eq_none.mpr h
  rw [storeRow,hnone,Option.map_none]

theorem storeRow_free {row : Row} {t : Tables} (h : t.certs.getCert row.serial=none) :
    ∃ u,storeRow row t=some u ∧ u.certs.getCert row.serial=some row ∧ u.uris=t.uris := by
  cases hins : t.certs.insertCert row with
  | none => exact absurd h (Keyed.insert_eq_none.mp hins)
  | some db =>
    refine ⟨{ t with certs := db },by rw [storeRow,hins,Option.map_some],?_,rfl⟩
    have hfind := Keyed.find_insert hins row.serial
    rwa [if_pos rfl] at hfind

section Whole

variable (san : X509.Octets → List String)

/-- The row of this serial is there with all its URIs, or neither table has one of it. -/
def Stored (t : Tables) (serial : String) : Prop :=
  (∃ r,t.certs.getCert serial=some r ∧ ∀ u∈san r.cert,(serial,u)∈t.uris) ∨
  (t.certs.getCert serial=none ∧ ∀ e∈t.uris,e.1≠serial)

/-- How many of the INSERTs of `insert_cert` are carried out: none where the call does not come to
them or the serial is taken. -/
def written (row : Row) (s : Session Tables) : Nat :=
  match s.ready with
  | none => 0
  | some as => if (s.committed.certs.getCert row.serial).isSome then 0
      else carriedOut as ((san row.cert).length+1)

/-- `insert_cert_within_quota` does not refuse, and every statement is carried out, BEGIN and COMMIT
with them. -/
def commits (owner : String) (maxCerts : Int) (row : Row) (s : Session Tables) : Bool :=
  match s.ready with
  | none => false
  | some as => !full owner maxCerts s.committed && (s.committed.certs.getCert row.serial).isNone &&
      carriedOut as ((san row.cert).length+5) = (san row.cert).length+5

theorem committed_unlocked_idle (row : Row) (c w : Tables) (as : List Outcome) :
    (insertCertUnlocked san row ⟨.ok .idle,c,w,as⟩).2.committed=
      match written san row ⟨.ok .idle,c,w,as⟩ with
      | 0 => c
      | k+1 => indexAll row.serial ((san row.cert).take k) ((storeRow row c).getD c) := by
  cases hfree : c.certs.getCert row.serial with
  | some r =>
    have htaken : storeRow row c=none := storeRow_taken (by rw [hfree]; simp)
    have hzero : written san row ⟨.ok .idle,c,w,as⟩=0 := by simp [written,Session.ready,hfree]
    rw [hzero]
    cases hnext : nextOutcome as with
    | ok => simp [insertCertUnlocked,Routine.andThen,exec_live,hnext,serve,Session.carry,Session.tables,htaken]
    | sqlError => simp [insertCertUnlocked,Routine.andThen,exec_live,hnext,serve]
    | drop applied =>
      simp [insertCertUnlocked,Routine.andThen,exec_live,hnext,Session.carry,htaken]
  | none =>
    obtain ⟨u,hstore,-,-⟩ := storeRow_free hfree
    have hcount : written san row ⟨.ok .idle,c,w,as⟩=carriedOut as ((san row.cert).length+1) := by
      simp [written,Session.ready,hfree]
    rw [hcount,hstore,carriedOut_succ]
    cases hnext : nextOutcome as with
    | ok =>
      have hrest := committed_each_idle (san row.cert) (indexUri row.serial) u w as.tail
      simpa [insertCertUnlocked,Routine.andThen,exec_live,hnext,serve,Session.carry,Session.tables,hstore,
        indexAll] using hrest
    | sqlError => simp [insertCertUnlocked,Routine.andThen,exec_live,hnext,serve]
    | drop applied =>
      cases applied with
      | true =>
        simp [insertCertUnlocked,Routine.andThen,exec_live,hnext,Session.carry,hstore,indexAll]
      | false => simp [insertCertUnlocked,Routine.andThen,exec_live,hnext]

/-- The INSERTs and the COMMIT behind them. -/
theorem commits_unlocked (row : Row) :
    Commits ((insertCertUnlocked san row).andThen (exec .commit some)) ((san row.cert).length+1)
      fun w => (storeRow row w).map (indexAll row.serial (san row.cert)) := by
  have huris := (commits_commit (τ := Tables)).each (san row.cert) (indexUri row.serial)
  have hall := huris.step (storeRow row)
  rw [insertCertUnlocked,Routine.andThen_assoc]
  intro c w as
  rw [hall c w as]
  cases hstore : storeRow row w with
  | none => simp [hstore]
  | some u => simp [hstore,indexAll]

theorem commits_insertOrRefuse (owner : String) (maxCerts : Int) (row : Row) :
    Commits (insertOrRefuse san owner maxCerts row) ((san row.cert).length+1) fun w =>
      if full owner maxCerts w then none
      else (storeRow row w).map (indexAll row.serial (san row.cert)) := by
  intro c w as
  by_cases hfull : full owner maxCerts w=true
  · -- whatever becomes of the ROLLBACK, nothing was committed
    simp only [insertOrRefuse,hfull,if_true,Option.getD_none,ite_self,Routine.ignored]
    cases hnext : nextOutcome as with
    | ok => simp [exec_live,hnext,Session.carry]
    | sqlError => simp [exec_live,hnext]
    | drop applied => simp [exec_live,hnext,Session.carry]
  · have hrest := commits_unlocked san row c w as
    simpa [insertOrRefuse,hfull] using hrest

/-- A new handle is not made: once it is thrown away, the attempts that are left throw. -/
theorem quotaLoop_null (owner : String) (maxCerts : Int) (row : Row) (left : Nat)
    {s : Session Tables} (hs : s.conn=.null) :
    quotaLoop san owner maxCerts row left s=(false,s) := by
  induction left with
  | zero => rfl
  | succ left ih =>
    have hattempt : quotaAttempt san owner maxCerts row s=(false,s) := by
      simp [quotaAttempt,Routine.andThen,ensureConn_apply,hs]
    have hready : { s with conn := .null }=s := by rw [← hs]
    rw [quotaLoop] at ih ⊢
    simp only [Routine.retry,hattempt,Bool.false_eq_true,hready,ih,ite_self]

/-- So the first attempt is the one that counts. -/
theorem committed_quotaLoop (owner : String) (maxCerts : Int) (row : Row) (left : Nat)
    (s : Session Tables) : (quotaLoop san owner maxCerts row (left+1) s).2.committed=
      (quotaAttempt san owner maxCerts row s).2.committed := by
  simp only [quotaLoop,Routine.retry]
  split_ifs
  · rfl
  · have hnull := quotaLoop_null san owner maxCerts row left
      (s := { (quotaAttempt san owner maxCerts row s).2 with conn := .null }) rfl
    rw [quotaLoop] at hnull
    rw [hnull]
  · rfl

variable {san}

/-- Both calls, by what they come to. -/
theorem insertCert_committed (row : Row) {s : Session Tables} (hopen : s.conn≠.ok .open) :
    (insertCert san row s).2.committed=match written san row s with
      | 0 => s.committed
      | k+1 => indexAll row.serial ((san row.cert).take k)
          ((storeRow row s.committed).getD s.committed) := by
  obtain ⟨as,hready,hconn⟩|⟨hready,hfailed,hconn⟩|⟨hready,hthrow,hsame⟩ := ensureConn_cases s hopen
  · have hrun := committed_unlocked_idle san row s.committed s.work as
    have hcount : written san row s=written san row ⟨.ok .idle,s.committed,s.work,as⟩ := by
      rw [written,hready]
      rfl
    rw [hcount,← hrun,insertCert,Routine.andThen_returns hconn]
  · rw [written,hready,insertCert,Routine.andThen_returns hconn]
    exact committed_exec_failed _ (Or.inr rfl) hfailed
  · rw [written,hready]
    simpa [insertCert,Routine.andThen,hthrow] using hsame

theorem withinQuota_committed (owner : String) (maxCerts : Int) (row : Row) {s : Session Tables}
    (hopen : s.conn≠.ok .open) :
    (insertCertWithinQuota san owner maxCerts row s).2.committed=
      if commits san owner maxCerts row s then indexAll row.serial (san row.cert)
        ((storeRow row s.committed).getD s.committed)
      else s.committed := by
  obtain ⟨as,hready,hconn⟩|⟨hready,hfailed,hconn⟩|⟨hready,hthrow,hsame⟩ := ensureConn_cases s hopen
  · have hrest := ((commits_insertOrRefuse san owner maxCerts row).step some).step some
    have hrun := committed_begin hrest s.committed s.work as
    have hagain : ensureConn (τ := Tables) { s with conn := .ok .idle,script := as }=
        (true,{ s with conn := .ok .idle,script := as }) := rfl
    rw [insertCertWithinQuota,Routine.andThen_returns hconn,committed_quotaLoop,quotaAttempt,
      Routine.andThen_returns hagain,hrun]
    simp only [commits,hready,Option.bind_some]
    cases hfull : full owner maxCerts s.committed with
    | true => simp
    | false =>
      cases hfree : s.committed.certs.getCert row.serial with
      | some r =>
        have htaken : storeRow row s.committed=none := storeRow_taken (by rw [hfree]; simp)
        simp [htaken]
      | none =>
        obtain ⟨u,hstore,-,-⟩ := storeRow_free hfree
        simp [hstore]
  · have hagain : ensureConn s=(true,s) := hconn
    rw [insertCertWithinQuota,Routine.andThen_returns hconn,committed_quotaLoop,quotaAttempt,
      Routine.andThen_returns hagain,commits,hready]
    exact committed_exec_failed _ (Or.inl rfl) hfailed
  · rw [commits,hready]
    simpa [insertCertWithinQuota,Routine.andThen,hthrow] using hsame

/-- A row that was stored with the first of its URIs is whole if no other is missing. -/
theorem stored_indexAll {row : Row} {t : Tables} (hfree : t.certs.getCert row.serial=none)
    (l : List String) :
    Stored san (indexAll row.serial l ((storeRow row t).getD t)) row.serial ↔
      ∀ u∈san row.cert,(row.serial,u)∈t.uris ∨ u∈l := by
  obtain ⟨v,hstore,hrow,huris⟩ := storeRow_free hfree
  rw [hstore,Option.getD_some,Stored,indexAll_certs,hrow]
  simp only [mem_indexAll,huris,Option.some.injEq,exists_eq_left',reduceCtorEq,false_and,or_false]

/-- What `insert_cert` can do without a transaction: nothing is carried out and the serial was whole
or absent before, or the row is written and no URI is missing from those written by then. -/
def KeptWhole (san : X509.Octets → List String) (row : Row) (s : Session Tables) : Prop :=
  match written san row s with
  | 0 => Stored san s.committed row.serial
  | k+1 => ∀ u∈san row.cert,(row.serial,u)∈s.committed.uris ∨ u∈(san row.cert).take k

theorem free_of_written {row : Row} {s : Session Tables} {k : Nat} (h : written san row s=k+1) :
    s.committed.certs.getCert row.serial=none := by
  cases hfree : s.committed.certs.getCert row.serial with
  | none => rfl
  | some r =>
    have hzero : written san row s=0 := by
      rw [written]
      cases s.ready with
      | none => rfl
      | some as => simp [hfree]
    omega

theorem free_of_commits {owner : String} {maxCerts : Int} {row : Row} {s : Session Tables}
    (h : commits san owner maxCerts row s=true) : s.committed.certs.getCert row.serial=none := by
  rw [commits] at h
  cases hready : s.ready with
  | none => simp [hready] at h
  | some as =>
    simp only [hready,Bool.and_eq_true,Option.isNone_iff_eq_none] at h
    exact h.1.2

/-- For every row, every connection that is not within a transaction and every way its statements can
end: `insert_cert` leaves the serial whole or absent just when no URI is left out, whereas the
transaction of `insert_cert_within_quota` never breaks it. -/
theorem certificate_stored_whole_iff (san : X509.Octets → List String) (owner : String)
    (maxCerts : Int) (row : Row) (s : Session Tables) (hopen : s.conn≠.ok .open) :
    (Stored san (insertCert san row s).2.committed row.serial ↔ KeptWhole san row s) ∧
    (Stored san (insertCertWithinQuota san owner maxCerts row s).2.committed row.serial ↔
      Stored san s.committed row.serial ∨ commits san owner maxCerts row s=true) := by
  constructor
  · rw [insertCert_committed row hopen,KeptWhole]
    cases hwritten : written san row s with
    | zero => rfl
    | succ k => exact stored_indexAll (free_of_written hwritten) _
  · rw [withinQuota_committed owner maxCerts row hopen]
    by_cases hcommits : commits san owner maxCerts row s=true
    · rw [if_pos hcommits]
      refine iff_of_true ?_ (Or.inr hcommits)
      rw [stored_indexAll (free_of_commits hcommits)]
      exact fun u hu => Or.inr hu
    · rw [if_neg hcommits]
      simp [hcommits]

end Whole

/-- A new row, for a certificate that carries one URI. -/
def deviceRow : Row where
  status := some 0
  revocationReason := some 0
  revocationDate := some 0
  notAfter := some 1893456000
  serial := "01A4"
  notBefore := some 1735689600
  owner := "alice"
  cert := [48]
  caInstanceId := some "issuing"
  sHash := none
  iHash := none
  isCa := false
  id := none
  caEnabled := none
  privateKey := ""
  certId := none
  insSeq := some 1

def deviceUris (_ : X509.Octets) : List String := ["urn:device:7"]

/-- A live connection over empty tables. -/
def freshSession (script : List Outcome) : Session Tables where
  conn := .ok .idle
  committed := ⟨⟨[],List.nodup_nil⟩,∅⟩
  work := ⟨⟨[],List.nodup_nil⟩,∅⟩
  script := script

/-- With no failure both calls store the row and its URI. -/
theorem certificate_stored_whole_iff_unbroken :
    Stored deviceUris (insertCert deviceUris deviceRow (freshSession [])).2.committed "01A4" ∧
    Stored deviceUris
      (insertCertWithinQuota deviceUris "alice" 5 deviceRow (freshSession [])).2.committed "01A4" := by
  have hwhole := certificate_stored_whole_iff deviceUris "alice" 5 deviceRow (freshSession [])
    (by decide)
  have hkept : KeptWhole deviceUris deviceRow (freshSession []) := by
    have hwritten : written deviceUris deviceRow (freshSession [])=2 := by decide
    rw [KeptWhole,hwritten]
    exact fun u hu => Or.inr hu
  have hcommits : commits deviceUris "alice" 5 deviceRow (freshSession [])=true := by decide
  exact ⟨hwhole.1.mpr hkept,hwhole.2.mpr (Or.inr hcommits)⟩

/-- The INSERT into `cert_uris` fails: the row stays, and its URI is not found. -/
theorem failed_index_keeps_row :
    let script := [.ok,.sqlError]
    let t := (insertCert deviceUris deviceRow (freshSession script)).2.committed
    (∃ r,t.certs.getCert "01A4"=some r ∧ r.cert=deviceRow.cert) ∧ t.uris=∅ ∧
      ¬Stored deviceUris t "01A4" := by
  intro script t
  have hrow : t.certs.getCert "01A4"=some deviceRow := by decide
  have huris : t.uris=∅ := by decide
  refine ⟨⟨deviceRow,hrow,rfl⟩,huris,?_⟩
  rintro (⟨r,hr,hall⟩|⟨hnone,-⟩)
  · have hmem := hall "urn:device:7" List.mem_cons_self
    rw [huris] at hmem
    exact absurd hmem (Finset.notMem_empty _)
  · rw [hrow] at hnone
    cases hnone

end FastPki.Certs.Insert
