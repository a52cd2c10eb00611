import FastPki.Audit.Retry
import FastPki.Db.Connection

namespace FastPki.Audit
open X509
open Db (Command Tx Conn)

/-! `append_audit` on its connection: whatever the server answers, the call is one of those that the
log is proved about. -/

section Attempt

variable {evpSha256 : Octets → Octets} {s : Site} {p : Nat} {c : Call}

/-- The statements of a process, by how they end. -/
def statements (p : Nat) (os : List Outcome) : List Act := os.map (.run p)

variable (evpSha256) in
/-- Some outcomes take the call from here to where an attempt on the connection ends: its row is
stored, or it is retried as the connection lets it. -/
def Matches (s : Site) (p : Nat) (c : Call) (r : Bool × Db.Session) : Prop :=
  ∃ os,(run (step evpSha256) s (statements p os)).holder=none ∧
    if r.1 then (run (step evpSha256) s (statements p os)).calls p=none ∧ ∃ row,row.ev=c.ev ∧
      (run (step evpSha256) s (statements p os)).log.rows=s.log.rows++[storedRow row]
    else (run (step evpSha256) s (statements p os)).calls p=retried c r.2.conn.gone ∧
      (run (step evpSha256) s (statements p os)).log.rows=s.log.rows

/-- The statement is undone, and the call caught. -/
structure Caught (s t : Site) (p : Nat) (c : Call) (dead : Bool) : Prop where
  holder : t.holder=none
  calls : t.calls p=retried c dead
  rows : t.log.rows=s.log.rows

theorem matches_throw {r : Bool × Db.Session} (hr : r.1=false)
    (h : Caught s (step evpSha256 s (.run p (.fails false r.2.conn.gone))) p c r.2.conn.gone) :
    Matches evpSha256 s p c r := by
  refine ⟨[.fails false r.2.conn.gone],h.holder,?_⟩
  rw [hr]
  exact ⟨h.calls,h.rows⟩

theorem matches_next {r : Bool × Db.Session} {d : Call} (hev : d.ev=c.ev) (hattempt : d.attempt=c.attempt)
    (hrows : (step evpSha256 s (.run p .ok)).log.rows=s.log.rows)
    (h : Matches evpSha256 (step evpSha256 s (.run p .ok)) p d r) : Matches evpSha256 s p c r := by
  obtain ⟨os,hholder,hend⟩ := h
  have hretried : retried d r.2.conn.gone=retried c r.2.conn.gone := by
    rw [retried,retried,hev,hattempt]
  rw [hev,hrows,hretried] at hend
  exact ⟨.ok::os,hholder,hend⟩

/-- The statements that are left of an attempt, under its ROLLBACK. -/
def attemptFrom (ks : List Command) : Routine Db.Session := (Db.execAll ks).rescue (Db.exec .rollback)

/-- A statement that passes is followed by the next ones; one that fails is caught. -/
theorem matches_statement {k : Command} {ks : List Command} {tx later : Tx} {d : Call}
    (hpass : Db.serve k tx true=(true,later)) (hrefused : (Db.serve k tx false).1=false)
    (hcaught : ∀ dead,Caught s (step evpSha256 s (.run p (.fails false dead))) p c dead)
    (hev : d.ev=c.ev) (hattempt : d.attempt=c.attempt)
    (hrows : (step evpSha256 s (.run p .ok)).log.rows=s.log.rows)
    (hrest : ∀ as,Matches evpSha256 (step evpSha256 s (.run p .ok)) p d
      (attemptFrom ks ⟨.ok later,as⟩)) (as : List Db.Answer) :
    Matches evpSha256 s p c (attemptFrom (k::ks) ⟨.ok tx,as⟩) := by
  cases ha : Db.nextAnswer as with
  | ok =>
    have hgoes : attemptFrom (k::ks) ⟨.ok tx,as⟩=attemptFrom ks ⟨.ok later,as.tail⟩ := by
      simp [attemptFrom,Routine.rescue,Db.execAll_cons,Routine.andThen,Db.exec,ha,hpass]
    rw [hgoes]
    exact matches_next hev hattempt hrows (hrest as.tail)
  | sqlError =>
    refine matches_throw ?_ (hcaught _)
    simp [attemptFrom,Routine.rescue,Db.execAll_cons,Routine.andThen,Db.exec,ha,hrefused]
  | drop =>
    refine matches_throw ?_ (hcaught _)
    simp [attemptFrom,Routine.rescue,Db.execAll_cons,Routine.andThen,Db.exec,ha]

theorem caught_abandon {t : Site} (hholder : t.holder=none ∨ t.holder=some p)
    (hrows : t.log.rows=s.log.rows) (dead : Bool) : Caught s (t.abandon p c dead) p c dead where
  holder := by
    obtain hnone|hmine := hholder
    · simp [Site.abandon,hnone]
    · simp [Site.abandon,hmine]
  calls := Function.update_self ..
  rows := hrows

/-- At every stage, where the lock is with this call or with nobody. -/
theorem caught_fails (hc : s.calls p=some c) (hholder : s.holder=none ∨ s.holder=some p) (dead : Bool) :
    Caught s (step evpSha256 s (.run p (.fails false dead))) p c dead := by
  simp only [step,hc,Option.elim_some]
  obtain ⟨ev,attempt,stage⟩ := c
  cases stage with
  | commit row =>
    have hcaught : Caught s ({ s with lost := s.lost+1 }.abandon p ⟨ev,attempt,.commit row⟩ dead) p
        ⟨ev,attempt,.commit row⟩ dead := by
      apply caught_abandon
      · exact hholder
      · rfl
    cases dead with
    | true => exact hcaught
    | false => exact hcaught
  | _ => exact caught_abandon hholder rfl dead

theorem matches_commit {ev : AuditEvent} {attempt : Nat} {row : AuditRow}
    (hc : s.calls p=some ⟨ev,attempt,.commit row⟩) (hholder : s.holder=some p) (hrow : row.ev=ev)
    (as : List Db.Answer) :
    Matches evpSha256 s p ⟨ev,attempt,.commit row⟩ (attemptFrom [.commit] ⟨.ok .open,as⟩) := by
  have hlast : attemptFrom [.commit]=(Db.exec .commit).rescue (Db.exec .rollback) := by
    rw [attemptFrom,Db.execAll,List.map_singleton,Routine.each_singleton]
  cases ha : Db.nextAnswer as with
  | ok =>
    have hstep : step evpSha256 s (.run p .ok)=
        { s.store row with calls := Function.update s.calls p none } := by
      simp only [step,hc,Option.elim_some,runCall]
    have hreturns : (attemptFrom [.commit] ⟨.ok .open,as⟩).1=true := by
      simp [hlast,Routine.rescue,Db.exec,ha,Db.serve]
    refine ⟨[.ok],?_,?_⟩
    · rw [statements,List.map_singleton,run_cons,run_nil,hstep]
      rfl
    · rw [hreturns,statements,List.map_singleton,run_cons,run_nil,hstep]
      exact ⟨Function.update_self ..,row,hrow,rfl⟩
  | sqlError =>
    refine matches_throw ?_ (caught_fails hc (Or.inr hholder) _)
    simp [hlast,Routine.rescue,Db.exec,ha,Db.serve]
  | drop =>
    refine matches_throw ?_ (caught_fails hc (Or.inr hholder) _)
    simp [hlast,Routine.rescue,Db.exec,ha]

theorem matches_insert {ev : AuditEvent} {attempt : Nat} {prev : Octets}
    (hc : s.calls p=some ⟨ev,attempt,.insert prev⟩) (hholder : s.holder=some p) :
    ∀ as,Matches evpSha256 s p ⟨ev,attempt,.insert prev⟩ (attemptFrom [.other,.commit] ⟨.ok .open,as⟩) := by
  have hok : step evpSha256 s (.run p .ok)=s.draw.goto p ⟨ev,attempt,.insert prev⟩
      (.commit (newRow evpSha256 s.log.nextSeq ev prev)) := by
    simp only [step,hc,Option.elim_some,runCall]
  refine matches_statement (d := ⟨ev,attempt,.commit (newRow evpSha256 s.log.nextSeq ev prev)⟩) rfl rfl
    (caught_fails hc (Or.inr hholder)) rfl rfl ?_ ?_
  · rw [hok]
    rfl
  · intro as
    rw [hok]
    refine matches_commit ?_ ?_ ?_ as
    · exact Function.update_self ..
    · exact hholder
    · rfl

theorem matches_head {ev : AuditEvent} {attempt : Nat}
    (hc : s.calls p=some ⟨ev,attempt,.head⟩) (hholder : s.holder=some p) :
    ∀ as,Matches evpSha256 s p ⟨ev,attempt,.head⟩ (attemptFrom [.other,.other,.commit] ⟨.ok .open,as⟩) := by
  have hok : step evpSha256 s (.run p .ok)=s.goto p ⟨ev,attempt,.head⟩ (.insert (readHead s.log)) := by
    simp only [step,hc,Option.elim_some,runCall]
  refine matches_statement (d := ⟨ev,attempt,.insert (readHead s.log)⟩) rfl rfl
    (caught_fails hc (Or.inr hholder)) rfl rfl ?_ ?_
  · rw [hok]
    rfl
  · intro as
    rw [hok]
    refine matches_insert ?_ ?_ as
    · exact Function.update_self ..
    · exact hholder

theorem matches_lock {ev : AuditEvent} {attempt : Nat}
    (hc : s.calls p=some ⟨ev,attempt,.lock⟩) (hholder : s.holder=none) :
    ∀ as,Matches evpSha256 s p ⟨ev,attempt,.lock⟩ (attemptFrom [.other,.other,.other,.commit] ⟨.ok .open,as⟩) := by
  have hok : step evpSha256 s (.run p .ok)=
      { s with holder := some p }.goto p ⟨ev,attempt,.lock⟩ .head := by
    simp only [step,hc,Option.elim_some,runCall,hholder,if_true]
  refine matches_statement (d := ⟨ev,attempt,.head⟩) rfl rfl (caught_fails hc (Or.inl hholder)) rfl rfl ?_ ?_
  · rw [hok]
    rfl
  · intro as
    rw [hok]
    refine matches_head ?_ ?_ as
    · exact Function.update_self ..
    · exact rfl

theorem matches_begin {ev : AuditEvent} {attempt : Nat}
    (hc : s.calls p=some ⟨ev,attempt,.begin⟩) (hholder : s.holder=none) :
    ∀ as,Matches evpSha256 s p ⟨ev,attempt,.begin⟩ (attemptFrom [.begin,.other,.other,.other,.commit] ⟨.ok .idle,as⟩) := by
  have hok : step evpSha256 s (.run p .ok)=s.goto p ⟨ev,attempt,.begin⟩ .lock := by
    simp only [step,hc,Option.elim_some,runCall]
  refine matches_statement (d := ⟨ev,attempt,.lock⟩) rfl rfl (caught_fails hc (Or.inl hholder)) rfl rfl ?_ ?_
  · rw [hok]
    rfl
  · intro as
    rw [hok]
    refine matches_lock ?_ ?_ as
    · exact Function.update_self ..
    · exact hholder

/-- A whole attempt, from a connection at rest. -/
theorem matches_attempt {ev : AuditEvent} {attempt : Nat}
    (hc : s.calls p=some ⟨ev,attempt,.connect⟩) (hholder : s.holder=none) {conn : Conn}
    (hconn : Db.Sound conn) (as : List Db.Answer) :
    Matches evpSha256 s p ⟨ev,attempt,.connect⟩ (Db.auditAttempt ⟨conn,as⟩) := by
  have hok : step evpSha256 s (.run p .ok)=s.goto p ⟨ev,attempt,.connect⟩ .begin := by
    simp only [step,hc,Option.elim_some,runCall]
  have hrest : ∀ as,Matches evpSha256 s p ⟨ev,attempt,.connect⟩
      (attemptFrom [.begin,.other,.other,.other,.commit] ⟨.ok .idle,as⟩) := by
    intro as
    refine matches_next (d := ⟨ev,attempt,.begin⟩) rfl rfl ?_ ?_
    · rw [hok]
      rfl
    · rw [hok]
      refine matches_begin ?_ ?_ as
      · exact Function.update_self ..
      · exact hholder
  obtain rfl|rfl := Db.AtRest.cases (show Db.AtRest ⟨conn,as⟩ from hconn)
  · by_cases hreach : Db.nextAnswer as=.ok
    · have hgoes : Db.auditAttempt ⟨.bad,as⟩=
          attemptFrom [.begin,.other,.other,.other,.commit] ⟨.ok .idle,as.tail⟩ := by
        simp [Db.auditAttempt,attemptFrom,Routine.rescue,Routine.andThen,Db.ensureConn,hreach]
      rw [hgoes]
      exact hrest as.tail
    · refine matches_throw ?_ (caught_fails hc (Or.inl hholder) _)
      simp [Db.auditAttempt,Routine.rescue,Routine.andThen,Db.ensureConn,hreach]
  · exact hrest as

end Attempt

section Call

variable {evpSha256 : Octets → Octets} {s : Site} {p : Nat} {ev : AuditEvent} {conn : Conn}

theorem run_statements_append (s : Site) (p : Nat) (os qs : List Outcome) :
    run (step evpSha256) s (statements p (os++qs))=
      run (step evpSha256) (run (step evpSha256) s (statements p os)) (statements p qs) := by
  rw [statements,List.map_append,run_append]
  rfl

variable (evpSha256) in
/-- Some outcomes take the call to its end: its row is stored, or none. -/
def Settles (s : Site) (p : Nat) (ev : AuditEvent) (returned : Bool) : Prop :=
  ∃ os,(run (step evpSha256) s (statements p os)).calls p=none ∧
    if returned then ∃ row,row.ev=ev ∧
      (run (step evpSha256) s (statements p os)).log.rows=s.log.rows++[storedRow row]
    else (run (step evpSha256) s (statements p os)).log.rows=s.log.rows

theorem retried_connect (ev : AuditEvent) (attempt : Nat) (dead : Bool) :
    retried ⟨ev,attempt,.connect⟩ dead=
      if dead=true ∧ attempt < 3 then some ⟨ev,attempt+1,.connect⟩ else none := rfl

/-- The attempts that are left, each from where the one before it left the connection. -/
theorem settles_loop {attempt left : Nat} (hleft : attempt+left=3)
    (hc : s.calls p=some ⟨ev,attempt,.connect⟩) (hholder : s.holder=none) (hconn : Db.Sound conn)
    (as : List Db.Answer) : Settles evpSha256 s p ev (Db.auditLoop (left+1) ⟨conn,as⟩).1 := by
  induction left generalizing s attempt conn as with
  | zero =>
    have hattempt : Matches evpSha256 s p ⟨ev,attempt,.connect⟩ (Db.auditAttempt ⟨conn,as⟩) :=
      matches_attempt hc hholder hconn as
    obtain ⟨os,_,hend⟩ := hattempt
    by_cases hr : (Db.auditAttempt ⟨conn,as⟩).1=true
    · rw [if_pos hr] at hend
      rw [Db.auditLoop,Routine.retry_returns hr,hr]
      exact ⟨os,hend⟩
    · rw [if_neg hr,retried_connect,if_neg (by omega)] at hend
      have hloop : (Db.auditLoop 1 ⟨conn,as⟩).1=false := by
        simp [Db.auditLoop,Routine.retry,hr]
      rw [hloop]
      exact ⟨os,hend⟩
  | succ left ih =>
    have hattempt : Matches evpSha256 s p ⟨ev,attempt,.connect⟩ (Db.auditAttempt ⟨conn,as⟩) :=
      matches_attempt hc hholder hconn as
    obtain ⟨os,hfree,hend⟩ := hattempt
    have hrest := Db.meets_auditAttempt ⟨conn,as⟩ hconn
    by_cases hr : (Db.auditAttempt ⟨conn,as⟩).1=true
    · rw [if_pos hr] at hend
      rw [Db.auditLoop,Routine.retry_returns hr,hr]
      exact ⟨os,hend⟩
    · rw [if_neg hr] at hend hrest
      by_cases hgone : (Db.auditAttempt ⟨conn,as⟩).2.conn.gone=true
      · -- the connection is gone, and the next attempt makes a new one
        have hloop : Db.auditLoop (left+1+1) ⟨conn,as⟩=
            Db.auditLoop (left+1) (Db.auditAttempt ⟨conn,as⟩).2 := by
          simp [Db.auditLoop,Routine.retry,hr,hgone]
        rw [retried_connect,if_pos ⟨hgone,by omega⟩] at hend
        have hnext : attempt+1+left=3 := by omega
        obtain ⟨qs,hdone,hrows⟩ := ih hnext hend.1 hfree hrest
          (Db.auditAttempt ⟨conn,as⟩).2.script
        refine ⟨os++qs,?_⟩
        rw [run_statements_append,hloop]
        rw [hend.2] at hrows
        exact ⟨hdone,hrows⟩
      · have hloop : (Db.auditLoop (left+1+1) ⟨conn,as⟩).1=false := by
          simp [Db.auditLoop,Routine.retry,hr,hgone]
        rw [retried_connect,if_neg fun h => hgone h.1] at hend
        rw [hloop]
        exact ⟨os,hend⟩

/-- Whatever the server answers to a call on a connection at rest, some outcomes of its statements take
the call to the same end. -/
theorem settles_call (hc : s.calls p=some ⟨ev,1,.connect⟩) (hholder : s.holder=none)
    (hconn : Db.Sound conn) (as : List Db.Answer) :
    Settles evpSha256 s p ev (Db.PgCall.run conn ⟨.appendAudit,as⟩).1 := by
  have hguard := Db.meets_ensureConn ⟨conn,as⟩ hconn
  by_cases hr : (Db.ensureConn ⟨conn,as⟩).1=true
  · rw [if_pos hr] at hguard
    have hrun : Db.PgCall.run conn ⟨.appendAudit,as⟩=Db.auditLoop 3 (Db.ensureConn ⟨conn,as⟩).2 := by
      simp [Db.PgCall.run,Db.Method.run,Routine.andThen,hr]
    rw [hrun]
    exact settles_loop rfl hc hholder hguard.atRest _
  · -- the guard of the call throws before its first attempt
    have hrun : (Db.PgCall.run conn ⟨.appendAudit,as⟩).1=false := by
      simp [Db.PgCall.run,Db.Method.run,Routine.andThen,hr]
    have hcaught : Caught s (step evpSha256 s (.run p (.fails false false))) p ⟨ev,1,.connect⟩ false :=
      caught_fails hc (Or.inl hholder) false
    rw [hrun]
    exact ⟨[.fails false false],hcaught.calls,hcaught.rows⟩

end Call

end FastPki.Audit
