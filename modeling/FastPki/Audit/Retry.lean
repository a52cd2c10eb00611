import FastPki.Audit.Append
import FastPki.Framework.Run

namespace FastPki.Audit
open X509

/-- Where a call of `append_audit` stands: the next statement of its transaction. -/
inductive Stage where
  | connect
  | begin
  | lock
  | head
  | insert (prev : Octets)
  | commit (row : AuditRow)
  deriving DecidableEq

/-- A call under way, in one of its three attempts. -/
structure Call where
  ev : AuditEvent
  attempt : Nat
  stage : Stage
  deriving DecidableEq

/-- How a statement ends. One that fails may have been carried out by the server, and leaves the
connection dead or not. -/
inductive Outcome where
  | ok
  | fails (applied dead : Bool)
  deriving DecidableEq

/-- The log, the holder of the advisory lock and the calls of each process. `lost` is history: the
numbers drawn and not stored since the last row was stored. -/
structure Site where
  log : AuditLog
  holder : Option Nat
  calls : Nat → Option Call
  lost : Nat

inductive Act where
  | call (p : Nat) (ev : AuditEvent) (now : Int)
  | run (p : Nat) (o : Outcome)

/-- A dead connection is answered with a new attempt, three in all. -/
def retried (c : Call) (dead : Bool) : Option Call :=
  if dead ∧ c.attempt < 3 then some ⟨c.ev,c.attempt+1,.connect⟩ else none

/-- The `catch`: the transaction is rolled back, which frees the lock. -/
def Site.abandon (s : Site) (p : Nat) (c : Call) (dead : Bool) : Site :=
  { s with
    holder := if s.holder = some p then none else s.holder
    calls := Function.update s.calls p (retried c dead) }

/-- The row is committed, which frees the lock. -/
def Site.store (s : Site) (row : AuditRow) : Site :=
  { s with
    log := { s.log with rows := s.log.rows++[storedRow row] }
    holder := none
    lost := 0 }

def Site.goto (s : Site) (p : Nat) (c : Call) (stage : Stage) : Site :=
  { s with calls := Function.update s.calls p (some { c with stage := stage }) }

/-- The INSERT draws a number, which no ROLLBACK gives back. -/
def Site.draw (s : Site) : Site := { s with log := { s.log with nextSeq := s.log.nextSeq+1 } }

section Step

variable (evpSha256 : Octets → Octets)

/-- One statement of the call `c` of the process `p`. -/
def runCall (s : Site) (p : Nat) (c : Call) (o : Outcome) : Site :=
  match c.stage,o with
  | .connect,.ok => s.goto p c .begin
  | .begin,.ok => s.goto p c .lock
  | .lock,.ok => if s.holder = none then { s with holder := some p }.goto p c .head else s
  | .head,.ok => s.goto p c (.insert (readHead s.log))
  | .insert prev,.ok => s.draw.goto p c (.commit (newRow evpSha256 s.log.nextSeq c.ev prev))
  | .commit row,.ok => { s.store row with calls := Function.update s.calls p none }
  | .insert _,.fails true dead => { s.draw with lost := s.lost+1 }.abandon p c dead
  | .commit row,.fails true true => (s.store row).abandon p c true
  | .commit _,.fails _ dead => { s with lost := s.lost+1 }.abandon p c dead
  | _,.fails _ dead => s.abandon p c dead

def step (s : Site) : Act → Site
  | .call p ev now =>
    if s.calls p = none then
      { s with calls := Function.update s.calls p (some ⟨stamp now ev,1,.connect⟩) }
    else s
  | .run p o => (s.calls p).elim s fun c => runCall evpSha256 s p c o

/-- Nobody is writing and the log is empty. -/
def start : Site := ⟨emptyLog,none,fun _ => none,0⟩

end Step

/-- The row that this action commits. -/
def commits (s : Site) : Act → Option AuditRow
  | .run p o =>
    match s.calls p with
    | some ⟨_,_,.commit row⟩ => if o = .ok ∨ o = .fails true true then some row else none
    | _ => none
  | .call _ _ _ => none

/-- What is committed holds no NUL, and since the last row was stored no attempt has failed that
had drawn a number; before the first row none matters. -/
def Unbroken (s : Site) (a : Act) : Prop :=
  ∀ row∈commits s a,NoNul row.ev ∧ (s.log.rows=[] ∨ s.lost=0)

instance (s : Site) (a : Act) : Decidable (Unbroken s a) :=
  inferInstanceAs (Decidable (∀ row∈commits s a,NoNul row.ev ∧ (s.log.rows=[] ∨ s.lost=0)))

/-- The stages behind the advisory lock. -/
def holds : Option Call → Bool
  | some ⟨_,_,.head⟩ | some ⟨_,_,.insert _⟩ | some ⟨_,_,.commit _⟩ => true
  | _ => false

theorem holds_retried (c : Call) (dead : Bool) : holds (retried c dead)=false := by
  rw [retried]
  split_ifs
  · rfl
  · rfl

/-- The sequence stands as many numbers behind the last row as were lost or are still pending. -/
def Counted (log : AuditLog) (lost : Nat) (pending : Int) : Prop :=
  ∀ last∈log.rows.getLast?,log.nextSeq=last.seq+1+lost+pending

section Inv

variable {evpSha256 : Octets → Octets} {s : Site}

variable (evpSha256) in
/-- What the holder of the lock has read and drawn is still so. -/
def Holding (log : AuditLog) (lost : Nat) (c : Call) : Prop :=
  match c.stage with
  | .head => Counted log lost 0
  | .insert prev => prev=lastHash auditGenesisHash log.rows ∧ Counted log lost 0
  | .commit row => row=newRow evpSha256 (log.nextSeq-1) c.ev (lastHash auditGenesisHash log.rows) ∧
      1<log.nextSeq ∧ (∀ r∈log.rows,r.seq<log.nextSeq-1) ∧ Counted log lost 1
  | _ => True

variable (evpSha256) in
structure SiteInv (s : Site) : Prop where
  log : LogInv s.log
  linked : Linked evpSha256 auditGenesisHash s.log.rows
  lock : ∀ p,holds (s.calls p)=true ↔ s.holder=some p
  holding : ∀ p,∀ c∈s.calls p,Holding evpSha256 s.log s.lost c
  free : s.holder=none → Counted s.log s.lost 0

theorem holding_of_not_holds {log : AuditLog} {lost : Nat} {c : Call} (h : holds (some c)=false) :
    Holding evpSha256 log lost c := by
  obtain ⟨ev,attempt,stage⟩ := c
  cases stage with
  | connect => trivial
  | begin => trivial
  | lock => trivial
  | head => cases h
  | insert prev => cases h
  | commit row => cases h

/-- One process moves on: it keeps the lock or its absence, takes the lock, or gives it back; only
its holder touches the log. -/
theorem SiteInv.move (h : SiteInv evpSha256 s) {p : Nat} {c : Option Call} {log : AuditLog}
    {holder : Option Nat} {lost : Nat}
    (hlock : (holder=s.holder ∧ (holds c=true ↔ s.holder=some p)) ∨
      (s.holder=none ∧ holder=some p ∧ holds c=true) ∨
      (s.holder=some p ∧ holder=none ∧ holds c=false))
    (hsame : (log=s.log ∧ lost=s.lost) ∨ s.holder=some p) (hlog : LogInv log)
    (hlinked : Linked evpSha256 auditGenesisHash log.rows)
    (hhold : ∀ d∈c,Holding evpSha256 log lost d) (hfree : holder=none → Counted log lost 0) :
    SiteInv evpSha256 ⟨log,holder,Function.update s.calls p c,lost⟩ where
  log := hlog
  linked := hlinked
  free := hfree
  lock := by
    intro q
    by_cases hq : q=p
    · subst hq
      simp only [Function.update_self]
      obtain ⟨rfl,hiff⟩|⟨_,rfl,hc⟩|⟨_,rfl,hc⟩ := hlock
      · exact hiff
      · simp [hc]
      · simp [hc]
    · simp only [Function.update_of_ne hq]
      rw [h.lock q]
      have hne : p≠q := fun heq => hq heq.symm
      obtain ⟨rfl,_⟩|⟨hnone,rfl,_⟩|⟨hsome,rfl,_⟩ := hlock
      · rfl
      · simp [hnone,hne]
      · simp [hsome,hne]
  holding := by
    intro q d hd
    by_cases hq : q=p
    · subst hq
      simp only [Function.update_self] at hd
      exact hhold d hd
    · simp only [Function.update_of_ne hq] at hd
      obtain ⟨rfl,rfl⟩|hp := hsame
      · exact h.holding q d hd
      · -- only one process is behind the lock
        apply holding_of_not_holds
        rw [← Bool.not_eq_true,← Option.mem_def.mp hd,h.lock q,hp,Option.some.injEq]
        exact fun heq => hq heq.symm

/-- An attempt that wrote nothing is given up, before or behind the lock. -/
theorem SiteInv.abandon (h : SiteInv evpSha256 s) {p : Nat} (c : Call) (dead : Bool) {log : AuditLog} {lost : Nat}
    (hsame : (log=s.log ∧ lost=s.lost) ∨ s.holder=some p) (hlog : LogInv log)
    (hlinked : Linked evpSha256 auditGenesisHash log.rows)
    (hcounted : s.holder=some p ∨ s.holder=none → Counted log lost 0) :
    SiteInv evpSha256 ({ s with log := log, lost := lost }.abandon p c dead) := by
  have hidle := holds_retried c dead
  have hhold : ∀ d∈retried c dead,Holding evpSha256 log lost d := by
    intro d hd
    apply holding_of_not_holds
    rwa [← Option.mem_def.mp hd]
  by_cases hp : s.holder=some p
  · have hmove := h.move (Or.inr (Or.inr ⟨hp,rfl,hidle⟩)) hsame hlog hlinked hhold
      fun _ => hcounted (Or.inl hp)
    simpa [Site.abandon,hp] using hmove
  · have hmove := h.move (Or.inl ⟨rfl,by simp [hidle,hp]⟩) hsame hlog hlinked hhold
      fun hnone => hcounted (Or.inr hnone)
    simpa [Site.abandon,hp] using hmove

/-- The row behind the lock is committed. -/
theorem SiteInv.stored (h : SiteInv evpSha256 s) {p : Nat} {ev : AuditEvent} {attempt : Nat}
    {row : AuditRow} (hc : s.calls p=some ⟨ev,attempt,.commit row⟩) (hnul : NoNul row.ev)
    (hlost : s.log.rows=[] ∨ s.lost=0) {c : Option Call} (hidle : holds c=false) :
    SiteInv evpSha256 { s.store row with calls := Function.update s.calls p c } := by
  have hp : s.holder=some p := (h.lock p).mp (by rw [hc]; rfl)
  obtain ⟨hrow,hone,hbelow,hcounted⟩ := h.holding p _ hc
  have hev : row.ev=ev := by rw [hrow]; rfl
  have hseq : row.seq=s.log.nextSeq-1 := by rw [hrow]; rfl
  have hwhole : storedRow row=row := by
    rw [hrow]
    exact storedRow_newRow h.linked _ (hev ▸ hnul)
  have hlog : LogInv ⟨s.log.rows++[row],s.log.nextSeq⟩ := by
    refine h.log.concat (fun last hlast => ?_) (by omega) (by omega) (le_refl _)
    have hlast' := hcounted last hlast
    obtain hnil|hzero := hlost
    · rw [hnil] at hlast
      cases hlast
    · omega
  have hlinked : Linked evpSha256 auditGenesisHash (s.log.rows++[row]) := by
    rw [linked_concat]
    refine ⟨h.linked,?_,?_⟩
    · rw [hrow]
      rfl
    · rw [hev,hrow]
      rfl
  have hstore : s.store row=⟨⟨s.log.rows++[row],s.log.nextSeq⟩,none,s.calls,0⟩ := by
    rw [Site.store,hwhole]
  rw [hstore]
  refine h.move (Or.inr (Or.inr ⟨hp,rfl,hidle⟩)) (Or.inr hp) hlog hlinked ?_ ?_
  · intro d hd
    apply holding_of_not_holds
    rwa [← Option.mem_def.mp hd]
  · intro _ last hlast
    have hlast' : row=last := by simpa using hlast
    have hseq' : last.seq=s.log.nextSeq-1 := hlast' ▸ hseq
    simp only [Nat.cast_zero]
    omega

/-- A process without the lock is behind none of its stages. -/
theorem SiteInv.unlocked (h : SiteInv evpSha256 s) {p : Nat} {c : Call} (hc : s.calls p=some c)
    (hstage : holds (some c)=false) : ¬s.holder=some p := by
  rw [← h.lock p,hc,hstage]
  simp

/-- Drawing a number keeps the rows in order. -/
theorem LogInv.draw {log : AuditLog} (h : LogInv log) : LogInv ⟨log.rows,log.nextSeq+1⟩ where
  numbered := h.numbered
  drawn := by
    intro row hrow
    have hdrawn := h.drawn row hrow
    exact ⟨hdrawn.1,hdrawn.2.trans (Int.lt_succ _)⟩
  start := h.start.trans (Int.lt_succ _)

/-- A process that waits for the lock goes on to a stage before it. -/
theorem SiteInv.goto (h : SiteInv evpSha256 s) {p : Nat} {c : Call} (hc : s.calls p=some c)
    (hstage : holds (some c)=false) {stage : Stage} (hnext : holds (some { c with stage := stage })=false) :
    SiteInv evpSha256 (s.goto p c stage) := by
  have hp := h.unlocked hc hstage
  refine h.move (Or.inl ⟨rfl,by simp [hnext,hp]⟩) (Or.inl ⟨rfl,rfl⟩) h.log h.linked ?_ h.free
  intro d hd
  rw [← Option.some.inj hd]
  exact holding_of_not_holds hnext

/-- An attempt that has not reached the lock fails. -/
theorem SiteInv.abandon_waiting (h : SiteInv evpSha256 s) {p : Nat} {c : Call}
    (hc : s.calls p=some c) (hstage : holds (some c)=false) (dead : Bool) :
    SiteInv evpSha256 (s.abandon p c dead) := by
  refine h.abandon c dead (Or.inl ⟨rfl,rfl⟩) h.log h.linked ?_
  rintro (hp|hnone)
  · exact absurd hp (h.unlocked hc hstage)
  · exact h.free hnone

/-- An attempt fails behind the lock. -/
theorem SiteInv.abandon_holding (h : SiteInv evpSha256 s) {p : Nat} {c : Call}
    (hc : s.calls p=some c) (hstage : holds (some c)=true) (dead : Bool) {log : AuditLog}
    {lost : Nat} (hlog : LogInv log) (hrows : log.rows=s.log.rows) (hcounted : Counted log lost 0) :
    SiteInv evpSha256 ({ s with log := log, lost := lost }.abandon p c dead) := by
  have hp : s.holder=some p := (h.lock p).mp (by rw [hc,hstage])
  refine h.abandon c dead (Or.inr hp) hlog ?_ fun _ => hcounted
  rw [hrows]
  exact h.linked

/-- The row that is inserted follows the head that was read and takes the number that was drawn. -/
theorem SiteInv.inserted (h : SiteInv evpSha256 s) {p : Nat} {ev : AuditEvent} {attempt : Nat} {prev : Octets}
    (hc : s.calls p=some ⟨ev,attempt,.insert prev⟩) :
    SiteInv evpSha256 (runCall evpSha256 s p ⟨ev,attempt,.insert prev⟩ .ok) := by
  have hp : s.holder=some p := (h.lock p).mp (by rw [hc]; rfl)
  obtain ⟨hprev,hcounted⟩ := h.holding p _ hc
  have hdraw : s.draw.log.nextSeq=s.log.nextSeq+1 := rfl
  refine h.move (Or.inl ⟨rfl,iff_of_true rfl hp⟩) (Or.inr hp) h.log.draw h.linked ?_ ?_
  · intro d hd
    rw [← Option.some.inj hd]
    have hstart := h.log.start
    refine ⟨?_,by omega,fun r hr => ?_,fun last hlast => ?_⟩
    · rw [hdraw,add_sub_cancel_right,hprev]
      rfl
    · have hdrawn := h.log.drawn r hr
      omega
    · have hlast' := hcounted last hlast
      have hlost : s.draw.lost=s.lost := rfl
      omega
  · intro hnone
    rw [Site.draw,hp] at hnone
    cases hnone

theorem SiteInv.runCall (h : SiteInv evpSha256 s) {p : Nat} {c : Call} (hc : s.calls p=some c)
    (o : Outcome) (hq : Unbroken s (.run p o)) : SiteInv evpSha256 (runCall evpSha256 s p c o) := by
  obtain ⟨ev,attempt,stage⟩ := c
  have hholding := h.holding p _ hc
  cases stage with
  | connect =>
    cases o with
    | ok => exact h.goto hc rfl rfl
    | fails applied dead => exact h.abandon_waiting hc rfl dead
  | begin =>
    cases o with
    | ok => exact h.goto hc rfl rfl
    | fails applied dead => exact h.abandon_waiting hc rfl dead
  | lock =>
    cases o with
    | ok =>
      simp only [Audit.runCall]
      split_ifs with hnone
      · refine h.move (Or.inr (Or.inl ⟨hnone,rfl,rfl⟩)) (Or.inl ⟨rfl,rfl⟩) h.log h.linked ?_ ?_
        · intro d hd
          rw [← Option.some.inj hd]
          exact h.free hnone
        · intro hsome
          cases hsome
      · exact h
    | fails applied dead => exact h.abandon_waiting hc rfl dead
  | head =>
    have hp : s.holder=some p := (h.lock p).mp (by rw [hc]; rfl)
    cases o with
    | ok =>
      refine h.move (Or.inl ⟨rfl,iff_of_true rfl hp⟩) (Or.inl ⟨rfl,rfl⟩) h.log h.linked ?_ h.free
      intro d hd
      rw [← Option.some.inj hd]
      exact ⟨h.log.readHead_eq,hholding⟩
    | fails applied dead => exact h.abandon_holding hc rfl dead h.log rfl hholding
  | insert prev =>
    obtain ⟨_,hcounted⟩ := hholding
    cases o with
    | ok => exact h.inserted hc
    | fails applied dead =>
      cases applied with
      | false => exact h.abandon_holding hc rfl dead h.log rfl hcounted
      | true =>
        refine h.abandon_holding hc rfl dead h.log.draw rfl fun last hlast => ?_
        have hlast' := hcounted last hlast
        have hdraw : s.draw.log.nextSeq=s.log.nextSeq+1 := rfl
        rw [hdraw]
        omega
  | commit row =>
    have hlost : Counted s.log (s.lost+1) 0 := by
      intro last hlast
      have hlast' := hholding.2.2.2 last hlast
      simp only [Nat.cast_add,Nat.cast_one]
      omega
    cases o with
    | ok =>
      obtain ⟨hnul,hnone⟩ := hq row (by simp [commits,hc])
      exact h.stored hc hnul hnone rfl
    | fails applied dead =>
      cases applied with
      | false => exact h.abandon_holding hc rfl dead h.log rfl hlost
      | true =>
        cases dead with
        | false => exact h.abandon_holding hc rfl false h.log rfl hlost
        | true =>
          obtain ⟨hnul,hnone⟩ := hq row (by simp [commits,hc])
          have hstored := h.stored hc hnul hnone (holds_retried ⟨ev,attempt,.commit row⟩ true)
          simpa [Audit.runCall,Site.abandon,Site.store] using hstored

theorem SiteInv.step (h : SiteInv evpSha256 s) (a : Act) (hq : Unbroken s a) :
    SiteInv evpSha256 (step evpSha256 s a) := by
  cases a with
  | call p ev now =>
    simp only [Audit.step]
    split_ifs with hidle
    · have hp : ¬s.holder=some p := by
        rw [← h.lock p,hidle]
        simp [holds]
      refine h.move (Or.inl ⟨rfl,by simp [holds,hp]⟩) (Or.inl ⟨rfl,rfl⟩) h.log h.linked ?_ h.free
      intro d hd
      rw [← Option.some.inj hd]
      trivial
    · exact h
  | run p o =>
    simp only [Audit.step]
    cases hc : s.calls p with
    | none => exact h
    | some c => exact h.runCall hc o hq

theorem SiteInv.start : SiteInv evpSha256 start where
  log := ⟨trivial,by simp [Audit.start,emptyLog],by decide⟩
  linked := trivial
  lock := by simp [Audit.start,holds]
  holding := by simp [Audit.start]
  free := by simp [Audit.start,emptyLog,Counted]

end Inv

/-- However the calls of the processes interleave, fail and are retried: while what is committed
holds no NUL and follows no lost number, the rows read in order pass the verification at every
moment. -/
theorem no_false_alarm (evpSha256 : Octets → Octets) (as : List Act)
    (h : Along (step evpSha256) Unbroken start as) (n : Nat) :
    (verifyAuditChain evpSha256 (getAudit (run (step evpSha256) start (as.take n)).log 0 0)).ok=true := by
  have hinv : SiteInv evpSha256 (run (step evpSha256) start (as.take n)) :=
    (h.take n).invariant (fun _ a hs hq => hs.step a hq) SiteInv.start
  rw [verifyAuditChain_ok_iff,hinv.log.getAudit_eq]
  exact ⟨hinv.log.numbered,hinv.linked⟩

/-- The commit of the first process lands although its connection drops, and the second attempt
stores the event again, while the second process waits for the lock. -/
def landedRun : List Act :=
  Act.call 1 loginEvent 0::Act.call 2 loginEvent 0::List.replicate 3 (Act.run 1 .ok)++
    List.replicate 3 (Act.run 2 .ok)++List.replicate 2 (Act.run 1 .ok)++
    [Act.run 1 (.fails true true)]++List.replicate 6 (Act.run 1 .ok)

theorem no_false_alarm_landed :
    (run (step sampleSha256) start landedRun).log.rows.map AuditRow.seq=[1,2] ∧
    (verifyAuditChain sampleSha256 (getAudit (run (step sampleSha256) start landedRun).log 0 0)).ok=true := by
  refine ⟨by decide,?_⟩
  have halong : Along (step sampleSha256) Unbroken start landedRun := by decide
  have hend := no_false_alarm sampleSha256 landedRun halong landedRun.length
  rwa [List.take_length] at hend

/-- A call in which every statement succeeds. -/
def smooth (p : Nat) (ev : AuditEvent) (now : Int) : List Act :=
  .call p ev now::List.replicate 6 (.run p .ok)

/-- With the lock free such a call is `appendAudit`. -/
theorem run_smooth (evpSha256 : Octets → Octets) (s : Site) (p : Nat) (hidle : s.calls p=none)
    (hfree : s.holder=none) (ev : AuditEvent) (now : Int) :
    (run (step evpSha256) s (smooth p ev now)).log=(appendAudit evpSha256 now s.log ev).1 := by
  simp [smooth,step,runCall,Site.goto,Site.draw,Site.store,hidle,hfree,appendAudit]

/-- Between two calls that succeed, the INSERT of another process draws the number 2 and fails. -/
def gapRun : List Act :=
  smooth 1 loginEvent 0++
    (Act.call 2 loginEvent 0::List.replicate 4 (Act.run 2 .ok)++[Act.run 2 (.fails true false)])++
    smooth 1 (deleteEvent "alice") 0

theorem append_audit_false_alarm :
    verifyAuditChain sampleSha256 (getAudit (run (step sampleSha256) start gapRun).log 0 0)=
      ⟨false,3,"sequence gap: expected seq 2 got 3",2,[]⟩ := by
  decide +kernel

end FastPki.Audit
