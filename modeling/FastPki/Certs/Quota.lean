import FastPki.Certs.Inventory
import FastPki.Db.Connection
import Mathlib.Data.List.Induction
import Mathlib.Logic.Function.Basic

namespace FastPki.Certs

/-- `owner=$1 AND status IN (0,2) AND cert_id IS NULL`. -/
def activeFor (owner : String) (r : Row) : Bool :=
  r.owner = owner ∧ (r.status = some 0 ∨ r.status = some 2) ∧ r.certId = none

def Inventory.countActiveForOwner (db : Inventory) (owner : String) : Nat :=
  db.rows.countP (activeFor owner)

/-- An UPDATE that takes rows out of the count frees what they took of it. -/
theorem Inventory.countActiveForOwner_modify_le (db : Inventory) (owner : String)
    {cond : Row → Bool} {set : CertRow → CertRow}
    (hset : ∀ r : Row,activeFor owner { r with toCertRow := set r.toCertRow }=false) :
    (db.modify cond set).countActiveForOwner owner≤db.countActiveForOwner owner := by
  have hrows : (db.modify cond set).rows=
      db.rows.map fun r => if cond r then { r with toCertRow := set r.toCertRow } else r := rfl
  simp only [countActiveForOwner,hrows,List.countP_map]
  apply List.countP_mono_left
  intro r _ hr
  simp only [Function.comp_apply] at hr
  split_ifs at hr
  · rw [hset r] at hr
    cases hr
  · exact hr

theorem Inventory.countActiveForOwner_revokeCert_le (db : Inventory) (owner serial : String)
    (reason whenUnix : Int) : (db.revokeCert serial reason whenUnix).1.countActiveForOwner owner≤
      db.countActiveForOwner owner := by
  apply countActiveForOwner_modify_le
  simp [activeFor]

theorem Inventory.countActiveForOwner_markExpiredNow_le (db : Inventory) (owner : String)
    (now : Int) : (db.markExpiredNow now).countActiveForOwner owner≤
      db.countActiveForOwner owner := by
  apply countActiveForOwner_modify_le
  simp [activeFor]

theorem Inventory.countActiveForOwner_insertCert_le (db : Inventory) (owner : String) (row : Row) :
    ((db.insertCert row).getD db).countActiveForOwner owner≤db.countActiveForOwner owner+1 := by
  cases hins : db.insertCert row with
  | none => exact Nat.le_succ _
  | some out =>
    obtain ⟨_,hrows⟩ := Keyed.insert_eq_some hins
    simp only [Option.getD_some,countActiveForOwner,hrows,List.countP_append]
    have hone : [row].countP (activeFor owner)≤1 := List.countP_le_length
    omega

namespace Quota

open Db (Tx Command serve)

/-- `conn_` of a process: no handle, one known to be dead, one that the server has ended without the
client having noticed, or a live one. -/
inductive Link where
  | null
  | bad
  | cut
  | ok (tx : Tx)
  deriving DecidableEq

/-- The next statement of a call of `insert_cert_within_quota`. `guard` is `ConnGuard`, `full` the
ROLLBACK of a refusal and `uri` the index of the certificate's URIs. -/
inductive Stage where
  | guard
  | connect
  | begin
  | lock
  | count
  | full
  | insert
  | uri (left : Nat)
  | commit
  deriving DecidableEq

/-- The call has counted and not refused. -/
def Stage.pastCount : Stage → Bool
  | .insert | .uri _ | .commit => true
  | _ => false

structure Call where
  row : Row
  uris : Nat
  attempt : Nat
  stage : Stage
  deriving DecidableEq

/-- How a statement ends: carried out, with an SQL error, or with the loss of the connection, before
or after it was carried out. -/
inductive Outcome where
  | ok
  | sqlError
  | drop (applied : Bool)
  deriving DecidableEq

/-- The committed rows, the holder of the owner's advisory lock, and the connection and call of each
process. -/
structure Site where
  db : Inventory
  holder : Option Nat
  links : Nat → Link
  calls : Nat → Option Call

/-- Beside the calls, the server ends connections and rolls failed transactions back, and
certificates are revoked and expire. -/
inductive Act where
  | call (p : Nat) (row : Row) (uris : Nat)
  | run (p : Nat) (o : Outcome)
  | sever (p : Nat)
  | rollback (p : Nat)
  | revoke (serial : String) (reason whenUnix : Int)
  | markExpired (now : Int)

def Site.goto (s : Site) (p : Nat) (c : Call) (stage : Stage) : Site :=
  { s with calls := Function.update s.calls p (some { c with stage := stage }) }

/-- The call returns or throws. -/
def Site.finish (s : Site) (p : Nat) : Site :=
  { s with calls := Function.update s.calls p none }

/-- The lock is given back where this process has it. -/
def Site.unlock (s : Site) (p : Nat) : Site :=
  { s with holder := if s.holder = some p then none else s.holder }

def Site.relink (s : Site) (p : Nat) (l : Link) : Site :=
  { s with links := Function.update s.links p l }

/-- The `catch`: a live connection and the third attempt rethrow, else the handle is thrown away
before the next attempt. -/
def Site.catch (s : Site) (p : Nat) (c : Call) : Site :=
  match s.links p with
  | .ok _ => s.finish p
  | _ => if c.attempt ≥ 3 then s.finish p
      else (s.relink p .null).goto p { c with attempt := c.attempt+1 } .connect

/-- `PQstatus(NULL)` is bad and `PQreset(NULL)` does nothing. -/
def Site.ensureConn (s : Site) (p : Nat) (o : Outcome) : Site × Bool :=
  match s.links p with
  | .ok _ | .cut => (s,true)
  | .null => (s,false)
  | .bad => if o = .ok then (s.relink p (.ok .idle),true) else (s,false)

/-- One statement, and whether `check` lets it pass. The end of a transaction frees the lock. -/
def Site.query (s : Site) (p : Nat) (k : Command) (valid : Bool) (o : Outcome) : Site × Bool :=
  match s.links p,o with
  | .ok _,.drop _ => ((s.relink p .bad).unlock p,false)
  | .ok tx,o =>
    let r := serve k tx (valid ∧ o = .ok)
    (if r.2 = .idle then (s.relink p (.ok .idle)).unlock p else s.relink p (.ok r.2),r.1)
  | _,_ => (s.relink p .bad,false)

/-- The row that the server commits with this COMMIT, whether the answer arrives or not. -/
def Site.landing (s : Site) (p : Nat) (c : Call) (o : Outcome) : Option Row :=
  if c.stage = .commit ∧ s.links p = .ok .open ∧ (o = .ok ∨ o = .drop true) then some c.row else none

def Site.store (s : Site) (row : Row) : Site :=
  { s with db := (s.db.insertCert row).getD s.db }

def Site.landed (s : Site) (p : Nat) (c : Call) (o : Outcome) : Site :=
  (s.landing p c o).elim s s.store

section Step

variable (owner : String) (maxCerts : Int)

/-- One statement of the call `c` of the process `p`. -/
def runCall (s : Site) (p : Nat) (c : Call) (o : Outcome) : Site :=
  match c.stage with
  | .guard =>
    let r := s.ensureConn p o
    if r.2 then r.1.goto p c .connect else r.1.finish p
  | .connect =>
    let r := s.ensureConn p o
    if r.2 then r.1.goto p c .begin else r.1.catch p c
  | .begin =>
    let r := s.query p .begin true o
    if r.2 then r.1.goto p c .lock else r.1.catch p c
  | .lock =>
    -- the statement waits while another process has the lock
    if o = .ok ∧ s.holder ≠ none ∧ s.holder ≠ some p ∧ s.links p ≠ .cut then s
    else
      let r := s.query p .other true o
      if r.2 then { r.1 with holder := some p }.goto p c .count else r.1.catch p c
  | .count =>
    let r := s.query p .other true o
    if r.2 then
      r.1.goto p c (if (s.db.countActiveForOwner owner : Int) ≥ maxCerts then .full else .insert)
    else r.1.catch p c
  | .full => (s.query p .rollback true o).1.finish p
  | .insert =>
    let r := s.query p .other (s.db.getCert c.row.serial).isNone o
    if r.2 then r.1.goto p c (.uri c.uris) else r.1.catch p c
  | .uri 0 => s.goto p c .commit
  | .uri (left+1) =>
    let r := s.query p .other true o
    if r.2 then r.1.goto p c (.uri left) else r.1.catch p c
  | .commit =>
    let r := (s.landed p c o).query p .commit true o
    if r.2 then r.1.finish p else r.1.catch p c

def step (s : Site) : Act → Site
  | .call p row uris => if s.calls p = none then
      { s with calls := Function.update s.calls p (some ⟨row,uris,1,.guard⟩) } else s
  | .run p o => (s.calls p).elim s fun c => runCall owner maxCerts s p c o
  | .sever p =>
    match s.links p with
    | .ok _ => (s.relink p .cut).unlock p
    | _ => s
  | .rollback p => if s.links p = .ok .failed then s.unlock p else s
  | .revoke serial reason whenUnix => { s with db := (s.db.revokeCert serial reason whenUnix).1 }
  | .markExpired now => { s with db := s.db.markExpiredNow now }

end Step

/-- No call is under way; the rows and the connections are any. -/
def start (db : Inventory) (links : Nat → Link) : Site := ⟨db,none,links,fun _ => none⟩

/-- The row that this action commits. -/
def commits (s : Site) : Act → Option Row
  | .run p o => (s.calls p).bind fun c => s.landing p c o
  | _ => none

/-- This action is the end of a call of `p` that answers `false`. -/
def refuses (s : Site) (p : Nat) : Act → Prop
  | .run q _ => q=p ∧ ∃ c∈s.calls p,c.stage=.full
  | _ => False

/-- What one process does leaves the connections and calls of the others, and their lock. -/
structure Frame (p : Nat) (s t : Site) : Prop where
  links : ∀ q≠p,t.links q=s.links q
  calls : ∀ q≠p,t.calls q=s.calls q
  holder : ∀ q≠p,s.holder=some q → t.holder=some q

section Frame

variable {s t u : Site} {p : Nat}

theorem Frame.trans (h : Frame p s t) (h' : Frame p t u) : Frame p s u where
  links := fun q hq => (h'.links q hq).trans (h.links q hq)
  calls := fun q hq => (h'.calls q hq).trans (h.calls q hq)
  holder := fun q hq hs => h'.holder q hq (h.holder q hq hs)

theorem Frame.refl (s : Site) (p : Nat) : Frame p s s :=
  ⟨fun _ _ => rfl,fun _ _ => rfl,fun _ _ hs => hs⟩

theorem frame_calls (s : Site) (p : Nat) (c : Option Call) :
    Frame p s { s with calls := Function.update s.calls p c } where
  links := fun _ _ => rfl
  calls := fun _ hq => Function.update_of_ne hq ..
  holder := fun _ _ hs => hs

theorem frame_relink (s : Site) (p : Nat) (l : Link) : Frame p s (s.relink p l) where
  links := fun _ hq => Function.update_of_ne hq ..
  calls := fun _ _ => rfl
  holder := fun _ _ hs => hs

theorem frame_unlock (s : Site) (p : Nat) : Frame p s (s.unlock p) where
  links := fun _ _ => rfl
  calls := fun _ _ => rfl
  holder := by
    intro q hq hs
    simp only [Site.unlock]
    rw [if_neg]
    · exact hs
    · rw [hs,Option.some.injEq]
      exact hq

theorem frame_catch (s : Site) (p : Nat) (c : Call) : Frame p s (s.catch p c) := by
  simp only [Site.catch]
  split
  · exact frame_calls s p none
  · split_ifs
    · exact frame_calls s p none
    · exact (frame_relink s p .null).trans (frame_calls ..)

theorem frame_ensureConn (s : Site) (p : Nat) (o : Outcome) : Frame p s (s.ensureConn p o).1 := by
  have hself := Frame.refl s p
  simp only [Site.ensureConn]
  split
  · exact hself
  · exact hself
  · exact hself
  · split_ifs
    · exact frame_relink s p _
    · exact hself

theorem frame_landed (s : Site) (p : Nat) (c : Call) (o : Outcome) : Frame p s (s.landed p c o) := by
  simp only [Site.landed]
  cases s.landing p c o with
  | none => exact Frame.refl s p
  | some row => exact ⟨fun _ _ => rfl,fun _ _ => rfl,fun _ _ hs => hs⟩

theorem frame_query (s : Site) (p : Nat) (k : Command) (valid : Bool) (o : Outcome) :
    Frame p s (s.query p k valid o).1 := by
  simp only [Site.query]
  split
  · exact (frame_relink s p .bad).trans (frame_unlock ..)
  · dsimp only
    split_ifs
    · exact (frame_relink s p _).trans (frame_unlock ..)
    · exact frame_relink s p _
  · exact frame_relink s p .bad

end Frame

/-- The rows stay as they are but for a commit. -/
theorem query_db (s : Site) (p : Nat) (k : Command) (valid : Bool) (o : Outcome) :
    (s.query p k valid o).1.db=s.db := by
  simp only [Site.query]
  split
  · rfl
  · dsimp only
    split_ifs <;> rfl
  · rfl

theorem query_calls (s : Site) (p : Nat) (k : Command) (valid : Bool) (o : Outcome) :
    (s.query p k valid o).1.calls=s.calls := by
  simp only [Site.query]
  split
  · rfl
  · dsimp only
    split_ifs <;> rfl
  · rfl

theorem ensureConn_calls (s : Site) (p : Nat) (o : Outcome) :
    (s.ensureConn p o).1.calls=s.calls := by
  simp only [Site.ensureConn]
  split
  · rfl
  · rfl
  · rfl
  · split_ifs <;> rfl

theorem landed_calls (s : Site) (p : Nat) (c : Call) (o : Outcome) :
    (s.landed p c o).calls=s.calls := by
  simp only [Site.landed]
  cases s.landing p c o with
  | none => rfl
  | some row => rfl

/-- A call that is caught has ended or starts over. -/
theorem catch_calls (s : Site) (p : Nat) (c : Call) :
    ∃ next,(s.catch p c).calls=Function.update s.calls p next ∧ ∀ d∈next,d.stage=.connect := by
  simp only [Site.catch]
  split
  · exact ⟨none,rfl,by simp⟩
  · split_ifs
    · exact ⟨none,rfl,by simp⟩
    · refine ⟨_,rfl,?_⟩
      simp

theorem ensureConn_db (s : Site) (p : Nat) (o : Outcome) : (s.ensureConn p o).1.db=s.db := by
  simp only [Site.ensureConn]
  split
  · rfl
  · rfl
  · rfl
  · split_ifs <;> rfl

theorem catch_db (s : Site) (p : Nat) (c : Call) : (s.catch p c).db=s.db := by
  simp only [Site.catch]
  split
  · rfl
  · split_ifs <;> rfl

theorem relink_self {s : Site} {p : Nat} {l : Link} (h : s.links p=l) : s.relink p l=s := by
  simp only [Site.relink,← h,Function.update_eq_self]

/-- A statement that passes was sent over a live connection and carried out. -/
theorem query_passes {s : Site} {p : Nat} {k : Command} {valid : Bool} {o : Outcome}
    (h : (s.query p k valid o).2=true) : ∃ tx,s.links p=.ok tx ∧
      (serve k tx (valid ∧ o=.ok)).1=true ∧ (s.query p k valid o).1=
        (if (serve k tx (valid ∧ o=.ok)).2=.idle then (s.relink p (.ok .idle)).unlock p
          else s.relink p (.ok (serve k tx (valid ∧ o=.ok)).2)) := by
  cases hlink : s.links p with
  | null => simp [Site.query,hlink] at h
  | bad => simp [Site.query,hlink] at h
  | cut => simp [Site.query,hlink] at h
  | ok tx =>
    cases o with
    | ok =>
      simp only [Site.query,hlink] at h ⊢
      exact ⟨tx,rfl,h,rfl⟩
    | sqlError =>
      simp only [Site.query,hlink] at h ⊢
      exact ⟨tx,rfl,h,rfl⟩
    | drop applied => simp [Site.query,hlink] at h

/-- In an open transaction a statement that passes changes nothing but what it reads or writes. -/
theorem query_other_passes {s : Site} {p : Nat} {valid : Bool} {o : Outcome}
    (hopen : s.links p=.ok .open ∨ s.links p=.cut) (h : (s.query p .other valid o).2=true) :
    s.links p=.ok .open ∧ o=.ok ∧ (s.query p .other valid o).1=s := by
  obtain ⟨tx,hlink,hpass,heq⟩ := query_passes h
  rw [hlink] at hopen
  obtain hopen|hopen := hopen
  · obtain rfl := Link.ok.inj hopen
    have hvalid : valid=true ∧ o=.ok := by
      simp only [serve] at hpass
      split_ifs at hpass with hv
      simpa using hv
    refine ⟨hlink,hvalid.2,?_⟩
    have hstay : (serve .other .open (valid ∧ o=.ok)).2=.open := by
      simp [serve,hvalid]
    rw [heq,hstay,if_neg (by decide),relink_self hlink]
  · cases hopen

theorem query_begin_passes {s : Site} {p : Nat} {o : Outcome}
    (h : (s.query p .begin true o).2=true) : (s.query p .begin true o).1.links p=.ok .open := by
  obtain ⟨tx,_,hpass,heq⟩ := query_passes h
  have hopen : (serve .begin tx (true ∧ o=.ok)).2=.open := by
    cases tx with
    | idle =>
      simp only [serve] at hpass ⊢
      split_ifs at hpass ⊢
      rfl
    | «open» =>
      simp only [serve] at hpass ⊢
      split_ifs at hpass ⊢
      rfl
    | failed => cases hpass
  rw [heq,hopen,if_neg (by decide)]
  simp [Site.relink]

theorem landing_eq_some {s : Site} {p : Nat} {c : Call} {o : Outcome} {row : Row}
    (h : s.landing p c o=some row) :
    c.stage=.commit ∧ s.links p=.ok .open ∧ (o=.ok ∨ o=.drop true) ∧ c.row=row := by
  simp only [Site.landing] at h
  split_ifs at h with hc
  exact ⟨hc.1,hc.2.1,hc.2.2,Option.some.inj h⟩

section Inv

variable (owner : String) (maxCerts : Int)

/-- How far the transaction of a call is, where its connection lives: behind the lock it has the
lock, and behind the count there is room for one row more. -/
def Holding (s : Site) (p : Nat) (stage : Stage) : Prop :=
  match stage with
  | .guard | .connect | .begin => True
  | .lock => s.links p=.ok .open ∨ s.links p=.cut
  | .count | .full => (s.links p=.ok .open ∧ s.holder=some p) ∨ s.links p=.cut
  | .insert | .uri _ | .commit => (s.links p=.ok .open ∧ s.holder=some p ∧
      (s.db.countActiveForOwner owner : Int) < maxCerts) ∨ s.links p=.cut

def Inv (s : Site) : Prop := ∀ p,∀ c∈s.calls p,Holding owner maxCerts s p c.stage

variable {owner maxCerts} {s t : Site} {p : Nat}

/-- What a process has is kept, with its room. -/
theorem Holding.keep_room {stage : Stage} (h : Holding owner maxCerts s p stage)
    (hlink : t.links p=s.links p) (hholder : s.holder=some p → t.holder=some p)
    (hroom : stage.pastCount=true → s.holder=some p →
      (s.db.countActiveForOwner owner : Int) < maxCerts →
      (t.db.countActiveForOwner owner : Int) < maxCerts) : Holding owner maxCerts t p stage := by
  cases stage with
  | guard => trivial
  | connect => trivial
  | begin => trivial
  | lock =>
    simp only [Holding,hlink] at h ⊢
    exact h
  | count =>
    simp only [Holding,hlink] at h ⊢
    exact h.imp_left fun hh => ⟨hh.1,hholder hh.2⟩
  | full =>
    simp only [Holding,hlink] at h ⊢
    exact h.imp_left fun hh => ⟨hh.1,hholder hh.2⟩
  | insert =>
    simp only [Holding,hlink] at h ⊢
    exact h.imp_left fun hh => ⟨hh.1,hholder hh.2.1,hroom rfl hh.2.1 hh.2.2⟩
  | uri left =>
    simp only [Holding,hlink] at h ⊢
    exact h.imp_left fun hh => ⟨hh.1,hholder hh.2.1,hroom rfl hh.2.1 hh.2.2⟩
  | commit =>
    simp only [Holding,hlink] at h ⊢
    exact h.imp_left fun hh => ⟨hh.1,hholder hh.2.1,hroom rfl hh.2.1 hh.2.2⟩

theorem Holding.keep {stage : Stage} (h : Holding owner maxCerts s p stage)
    (hlink : t.links p=s.links p) (hholder : s.holder=some p → t.holder=some p)
    (hdb : s.holder=some p →
      t.db.countActiveForOwner owner ≤ s.db.countActiveForOwner owner) :
    Holding owner maxCerts t p stage := by
  refine h.keep_room hlink hholder fun _ hp hlt => ?_
  have hle := hdb hp
  omega

theorem Inv.move (h : Inv owner maxCerts s) (hframe : Frame p s t)
    (hdb : s.holder=some p ∨ t.db.countActiveForOwner owner ≤ s.db.countActiveForOwner owner)
    (hp : ∀ c∈t.calls p,Holding owner maxCerts t p c.stage) : Inv owner maxCerts t := by
  intro q c hc
  by_cases hq : q=p
  · subst hq
    exact hp c hc
  · rw [hframe.calls q hq] at hc
    refine (h q c hc).keep (hframe.links q hq) (hframe.holder q hq) fun hs => ?_
    obtain hmine|hle := hdb
    · rw [hs,Option.some.injEq] at hmine
      exact absurd hmine hq
    · exact hle

theorem catch_holding {c : Call} : ∀ d∈(s.catch p c).calls p,
    Holding owner maxCerts (s.catch p c) p d.stage := by
  intro d hd
  simp only [Site.catch] at hd ⊢
  split at hd
  · simp [Site.finish] at hd
  · split_ifs at hd
    · simp [Site.finish] at hd
    · simp only [Site.goto,Function.update_self,Option.mem_def,Option.some.injEq] at hd
      subst hd
      trivial

/-- The call goes on where its last statement has left it. -/
theorem Inv.goto (h : Inv owner maxCerts s) (hframe : Frame p s t) (hdb : t.db=s.db) {c : Call}
    {stage : Stage} (hstage : Holding owner maxCerts t p stage) :
    Inv owner maxCerts (t.goto p c stage) := by
  refine h.move (hframe.trans (frame_calls ..)) (Or.inr ?_) ?_
  · change t.db.countActiveForOwner owner ≤ s.db.countActiveForOwner owner
    rw [hdb]
  · intro d hd
    simp only [Site.goto,Function.update_self,Option.mem_def,Option.some.injEq] at hd
    subst hd
    exact hstage.keep rfl id fun _ => le_rfl

theorem Inv.catch (h : Inv owner maxCerts s) (hframe : Frame p s t)
    (hdb : s.holder=some p ∨ t.db.countActiveForOwner owner ≤ s.db.countActiveForOwner owner)
    (c : Call) : Inv owner maxCerts (t.catch p c) := by
  refine h.move (hframe.trans (frame_catch ..)) ?_ catch_holding
  rwa [catch_db]

/-- The same of a statement that wrote no row. -/
theorem Inv.catch_of_db (h : Inv owner maxCerts s) (hframe : Frame p s t) (hdb : t.db=s.db)
    (c : Call) : Inv owner maxCerts (t.catch p c) := by
  refine h.catch hframe (Or.inr ?_) c
  rw [hdb]

theorem Inv.finish (h : Inv owner maxCerts s) (hframe : Frame p s t)
    (hdb : s.holder=some p ∨ t.db.countActiveForOwner owner ≤ s.db.countActiveForOwner owner) :
    Inv owner maxCerts (t.finish p) := by
  refine h.move (hframe.trans (frame_calls ..)) hdb ?_
  intro d hd
  simp [Site.finish] at hd

/-- A statement that takes the call from one stage to the next, or into the `catch`. -/
theorem Inv.advance (h : Inv owner maxCerts s) {c : Call} {k : Command} {valid : Bool} {o : Outcome}
    {stage : Stage}
    (hstage : (s.query p k valid o).2=true →
      Holding owner maxCerts (s.query p k valid o).1 p stage) :
    Inv owner maxCerts (if (s.query p k valid o).2 then (s.query p k valid o).1.goto p c stage
      else (s.query p k valid o).1.catch p c) := by
  split_ifs with hpass
  · exact h.goto (frame_query ..) (query_db ..) (hstage hpass)
  · exact h.catch_of_db (frame_query ..) (query_db ..) c

/-- Behind the lock a live connection has what the process was given. -/
theorem of_open {P : Prop} (h : (s.links p=.ok .open ∧ P) ∨ s.links p=.cut)
    (hopen : s.links p=.ok .open) : P := by
  obtain hh|hcut := h
  · exact hh.2
  · rw [hopen] at hcut
    cases hcut

theorem inv_runCall_lock (h : Inv owner maxCerts s) {c : Call} (hstage : c.stage=.lock)
    (hholding : Holding owner maxCerts s p .lock) (o : Outcome) :
    Inv owner maxCerts (runCall owner maxCerts s p c o) := by
  simp only [runCall,hstage]
  split_ifs with hwait hpass
  · exact h
  · obtain ⟨hopen,rfl,heq⟩ := query_other_passes hholding hpass
    rw [heq]
    -- the lock was free, or this process had it already
    have hfree : ∀ q≠p,s.holder≠some q := by
      intro q hq hs
      refine hwait ⟨rfl,?_⟩
      rw [hs,hopen]
      simpa using hq
    exact h.goto (t := { s with holder := some p })
      ⟨fun _ _ => rfl,fun _ _ => rfl,fun q hq hs => absurd hs (hfree q hq)⟩ rfl
      (Or.inl ⟨hopen,rfl⟩)
  · exact h.catch_of_db (frame_query ..) (query_db ..) c

theorem inv_runCall_count (h : Inv owner maxCerts s) {c : Call} (hstage : c.stage=.count)
    (hholding : Holding owner maxCerts s p .count) (o : Outcome) :
    Inv owner maxCerts (runCall owner maxCerts s p c o) := by
  simp only [runCall,hstage]
  apply h.advance
  intro hpass
  obtain ⟨hopen,_,heq⟩ := query_other_passes (hholding.imp_left And.left) hpass
  have hmine : s.holder=some p := of_open hholding hopen
  rw [heq]
  split_ifs with hfull
  · exact Or.inl ⟨hopen,hmine⟩
  · exact Or.inl ⟨hopen,hmine,Int.not_le.mp hfull⟩

/-- A row is added by the holder of the lock alone. -/
theorem inv_runCall_commit (h : Inv owner maxCerts s) {c : Call} (hstage : c.stage=.commit)
    (hholding : Holding owner maxCerts s p .commit) (o : Outcome) :
    Inv owner maxCerts (runCall owner maxCerts s p c o) := by
  simp only [runCall,hstage]
  have hdb : s.holder=some p ∨
      ((s.landed p c o).query p .commit true o).1.db.countActiveForOwner owner≤
        s.db.countActiveForOwner owner := by
    rw [query_db]
    cases hland : s.landing p c o with
    | none =>
      rw [Site.landed,hland]
      exact Or.inr le_rfl
    | some row => exact Or.inl (of_open hholding (landing_eq_some hland).2.1).1
  split_ifs
  · exact h.finish ((frame_landed ..).trans (frame_query ..)) hdb
  · exact h.catch ((frame_landed ..).trans (frame_query ..)) hdb c

theorem inv_runCall (h : Inv owner maxCerts s) {c : Call} (hc : c∈s.calls p) (o : Outcome) :
    Inv owner maxCerts (runCall owner maxCerts s p c o) := by
  have hholding := h p c hc
  cases hstage : c.stage with
  | guard =>
    simp only [runCall,hstage]
    split_ifs
    · exact h.goto (frame_ensureConn ..) (ensureConn_db ..) trivial
    · refine h.finish (frame_ensureConn ..) (Or.inr ?_)
      rw [ensureConn_db]
  | connect =>
    simp only [runCall,hstage]
    split_ifs
    · exact h.goto (frame_ensureConn ..) (ensureConn_db ..) trivial
    · exact h.catch_of_db (frame_ensureConn ..) (ensureConn_db ..) c
  | begin =>
    simp only [runCall,hstage]
    exact h.advance fun hpass => Or.inl (query_begin_passes hpass)
  | lock => exact inv_runCall_lock h hstage (hstage ▸ hholding) o
  | count => exact inv_runCall_count h hstage (hstage ▸ hholding) o
  | full =>
    simp only [runCall,hstage]
    refine h.finish (frame_query ..) (Or.inr ?_)
    rw [query_db]
  | insert =>
    rw [hstage] at hholding
    simp only [runCall,hstage]
    split_ifs with hpass
    · obtain ⟨_,_,heq⟩ := query_other_passes (hholding.imp_left And.left) hpass
      rw [heq]
      exact h.goto (Frame.refl ..) rfl hholding
    · exact h.catch_of_db (frame_query ..) (query_db ..) c
  | uri left =>
    rw [hstage] at hholding
    cases left with
    | zero =>
      simp only [runCall,hstage]
      exact h.goto (Frame.refl ..) rfl hholding
    | succ left =>
      simp only [runCall,hstage]
      apply h.advance
      intro hpass
      obtain ⟨_,_,heq⟩ := query_other_passes (hholding.imp_left And.left) hpass
      rw [heq]
      exact hholding
  | commit => exact inv_runCall_commit h hstage (hstage ▸ hholding) o

/-- A process whose connection is gone has nothing left to lose. -/
theorem holding_of_cut {stage : Stage} (h : s.links p=.cut) : Holding owner maxCerts s p stage := by
  cases stage with
  | guard => trivial
  | connect => trivial
  | begin => trivial
  | lock => exact Or.inr h
  | count => exact Or.inr h
  | full => exact Or.inr h
  | insert => exact Or.inr h
  | uri left => exact Or.inr h
  | commit => exact Or.inr h

/-- The call that met the failure of a transaction has ended. -/
theorem holding_of_failed {stage : Stage} (h : Holding owner maxCerts s p stage)
    (hfailed : s.links p=.ok .failed) : Holding owner maxCerts t p stage := by
  cases stage with
  | guard => trivial
  | connect => trivial
  | begin => trivial
  | lock => simp [Holding,hfailed] at h
  | count => simp [Holding,hfailed] at h
  | full => simp [Holding,hfailed] at h
  | insert => simp [Holding,hfailed] at h
  | uri left => simp [Holding,hfailed] at h
  | commit => simp [Holding,hfailed] at h

theorem inv_step (h : Inv owner maxCerts s) (a : Act) : Inv owner maxCerts (step owner maxCerts s a) := by
  cases a with
  | call p row uris =>
    simp only [step]
    split_ifs
    · refine h.move (frame_calls s p _) (Or.inr le_rfl) ?_
      intro d hd
      simp only [Function.update_self,Option.mem_def,Option.some.injEq] at hd
      subst hd
      trivial
    · exact h
  | run p o =>
    simp only [step]
    cases hc : s.calls p with
    | none => exact h
    | some c => exact inv_runCall h hc o
  | sever p =>
    simp only [step]
    split
    · refine h.move ((frame_relink s p .cut).trans (frame_unlock ..)) (Or.inr le_rfl) ?_
      intro d _
      apply holding_of_cut
      simp [Site.relink,Site.unlock]
    · exact h
  | rollback p =>
    simp only [step]
    split_ifs with hfailed
    · refine h.move (frame_unlock s p) (Or.inr le_rfl) ?_
      intro d hd
      exact holding_of_failed (h p d hd) hfailed
    · exact h
  | revoke serial reason whenUnix =>
    intro q c hc
    exact (h q c hc).keep rfl id fun _ =>
      s.db.countActiveForOwner_revokeCert_le owner serial reason whenUnix
  | markExpired now =>
    intro q c hc
    exact (h q c hc).keep rfl id fun _ => s.db.countActiveForOwner_markExpiredNow_le owner now

/-- A commit adds one row to less than the cap. -/
theorem commit_within_cap (h : Inv owner maxCerts s) {a : Act} {row : Row}
    (hrow : commits s a=some row) :
    ((step owner maxCerts s a).db.countActiveForOwner owner : Int) ≤ maxCerts := by
  cases a with
  | run p o =>
    simp only [commits] at hrow
    cases hc : s.calls p with
    | none => simp [hc] at hrow
    | some c =>
      rw [hc,Option.bind_some] at hrow
      obtain ⟨hstage,hopen,_,rfl⟩ := landing_eq_some hrow
      have hholding := h p c hc
      rw [hstage] at hholding
      obtain ⟨_,hroom⟩ := of_open hholding hopen
      have hdb : (step owner maxCerts s (.run p o)).db=(s.store c.row).db := by
        simp only [step,hc,Option.elim_some,runCall,hstage]
        have hquery := query_db (s.landed p c o) p .commit true o
        rw [Site.landed,hrow] at hquery
        split_ifs
        · rw [Site.landed,hrow]
          exact hquery
        · rw [catch_db,Site.landed,hrow]
          exact hquery
      have hone := s.db.countActiveForOwner_insertCert_le owner c.row
      rw [hdb]
      simp only [Site.store]
      omega
  | call p row uris => simp [commits] at hrow
  | sever p => simp [commits] at hrow
  | rollback p => simp [commits] at hrow
  | revoke serial reason whenUnix => simp [commits] at hrow
  | markExpired now => simp [commits] at hrow

theorem query_other_ok {valid : Bool} {o : Outcome} (h : (s.query p .other valid o).2=true) :
    o=.ok := by
  obtain ⟨tx,_,hpass,_⟩ := query_passes h
  cases tx with
  | idle =>
    simp only [serve,decide_eq_true_eq] at hpass
    exact hpass.2
  | «open» =>
    simp only [serve] at hpass
    split_ifs at hpass with hv
    simp only [decide_eq_true_eq] at hv
    exact hv.2
  | failed => cases hpass

/-- The calls after a step of `p`: its own has come to a refusal by its count alone. -/
def Onward (owner : String) (maxCerts : Int) (s : Site) (p : Nat) (c : Call) (o : Outcome)
    (calls : Nat → Option Call) : Prop :=
  ∃ next,calls=Function.update s.calls p next ∧ ∀ d∈next,d.stage=.full →
    d=c ∨ (c.stage=.count ∧ o=.ok ∧ d={ c with stage := .full } ∧
      maxCerts ≤ s.db.countActiveForOwner owner)

theorem onward_goto {c : Call} {o : Outcome} {stage : Stage} (h : t.calls=s.calls)
    (hstage : stage≠.full) : Onward owner maxCerts s p c o (t.goto p c stage).calls := by
  refine ⟨some { c with stage := stage },by rw [← h]; rfl,fun d hd hfull => ?_⟩
  obtain rfl := Option.some.inj hd
  exact absurd hfull hstage

theorem onward_catch {c : Call} {o : Outcome} (h : t.calls=s.calls) :
    Onward owner maxCerts s p c o (t.catch p c).calls := by
  obtain ⟨next,hnext,hstage⟩ := catch_calls t p c
  refine ⟨next,h ▸ hnext,fun d hd hfull => ?_⟩
  rw [hstage d hd] at hfull
  cases hfull

theorem onward_finish {c : Call} {o : Outcome} (h : t.calls=s.calls) :
    Onward owner maxCerts s p c o (t.finish p).calls := by
  refine ⟨none,by rw [← h]; rfl,fun d hd => ?_⟩
  cases hd

theorem runCall_onward {c : Call} (hc : s.calls p=some c) (o : Outcome) :
    Onward owner maxCerts s p c o (runCall owner maxCerts s p c o).calls := by
  cases hstage : c.stage with
  | guard =>
    simp only [runCall,hstage]
    split_ifs
    · exact onward_goto (ensureConn_calls ..) (by simp)
    · exact onward_finish (ensureConn_calls ..)
  | connect =>
    simp only [runCall,hstage]
    split_ifs
    · exact onward_goto (ensureConn_calls ..) (by simp)
    · exact onward_catch (ensureConn_calls ..)
  | begin =>
    simp only [runCall,hstage]
    split_ifs
    · exact onward_goto (query_calls ..) (by simp)
    · exact onward_catch (query_calls ..)
  | lock =>
    simp only [runCall,hstage]
    split_ifs
    · refine ⟨some c,?_,fun d hd _ => Or.inl (Option.some.inj hd).symm⟩
      rw [← hc,Function.update_eq_self]
    · exact onward_goto (query_calls ..) (by simp)
    · exact onward_catch (query_calls ..)
  | count =>
    simp only [runCall,hstage]
    split_ifs with hpass hfull
    · refine ⟨some { c with stage := .full },by simp only [Site.goto,query_calls],fun d hd _ => ?_⟩
      exact Or.inr ⟨hstage,query_other_ok hpass,(Option.some.inj hd).symm,hfull⟩
    · exact onward_goto (query_calls ..) (by simp)
    · exact onward_catch (query_calls ..)
  | full =>
    simp only [runCall,hstage]
    exact onward_finish (query_calls ..)
  | insert =>
    simp only [runCall,hstage]
    split_ifs
    · exact onward_goto (query_calls ..) (by simp)
    · exact onward_catch (query_calls ..)
  | uri left =>
    cases left with
    | zero =>
      simp only [runCall,hstage]
      exact onward_goto rfl (by simp)
    | succ left =>
      simp only [runCall,hstage]
      split_ifs
      · exact onward_goto (query_calls ..) (by simp)
      · exact onward_catch (query_calls ..)
  | commit =>
    simp only [runCall,hstage]
    split_ifs
    · exact onward_finish ((query_calls ..).trans (landed_calls ..))
    · exact onward_catch ((query_calls ..).trans (landed_calls ..))

theorem full_step {a : Act} {c : Call} (hc : c∈(step owner maxCerts s a).calls p)
    (hfull : c.stage=.full) : s.calls p=some c ∨
      ∃ d,s.calls p=some d ∧ d.stage=.count ∧ a=.run p .ok ∧ c={ d with stage := .full } ∧
        maxCerts ≤ s.db.countActiveForOwner owner := by
  cases a with
  | call q row uris =>
    simp only [step] at hc
    split_ifs at hc
    · by_cases hq : p=q
      · subst hq
        simp only [Function.update_self,Option.mem_def,Option.some.injEq] at hc
        subst hc
        cases hfull
      · simp only [Function.update_of_ne hq] at hc
        exact Or.inl hc
    · exact Or.inl hc
  | run q o =>
    simp only [step] at hc
    cases hd : s.calls q with
    | none =>
      rw [hd] at hc
      exact Or.inl hc
    | some d =>
      obtain ⟨next,hnext,hstage⟩ := @runCall_onward owner maxCerts s q d hd o
      rw [hd,Option.elim_some,hnext] at hc
      by_cases hq : p=q
      · subst hq
        rw [Function.update_self] at hc
        obtain rfl|⟨hcount,rfl,hsame,hcap⟩ := hstage c hc hfull
        · exact Or.inl hd
        · exact Or.inr ⟨d,hd,hcount,rfl,hsame,hcap⟩
      · rw [Function.update_of_ne hq] at hc
        exact Or.inl hc
  | sever q =>
    simp only [step] at hc
    split at hc
    · exact Or.inl hc
    · exact Or.inl hc
  | rollback q =>
    simp only [step] at hc
    split_ifs at hc
    · exact Or.inl hc
    · exact Or.inl hc
  | revoke serial reason whenUnix => exact Or.inl hc
  | markExpired now => exact Or.inl hc

/-- A call that is about to refuse has counted earlier, and has not moved since. -/
theorem counted_before_full (db : Inventory) (links : Nat → Link) (before : List Act) {c : Call}
    (hc : (run (step owner maxCerts) (start db links) before).calls p=some c)
    (hfull : c.stage=.full) : ∃ earlier more d,before=earlier++Act.run p .ok::more ∧
      (run (step owner maxCerts) (start db links) earlier).calls p=some d ∧ d.stage=.count ∧
      maxCerts≤(run (step owner maxCerts) (start db links) earlier).db.countActiveForOwner owner ∧
      ∀ k,(run (step owner maxCerts) (start db links)
        (earlier++Act.run p .ok::more.take k)).calls p=some { d with stage := .full } := by
  induction before using List.reverseRecOn with
  | nil => cases hc
  | append_singleton before a ih =>
    have hwhole := hc
    rw [run_append,run_cons,run_nil] at hc
    obtain hsame|⟨d,hd,hcount,rfl,rfl,hcap⟩ := full_step hc hfull
    · obtain ⟨earlier,more,d,rfl,hd,hcount,hcap,hstay⟩ := ih hsame
      refine ⟨earlier,more++[a],d,by simp,hd,hcount,hcap,fun k => ?_⟩
      by_cases hk : k ≤ more.length
      · rw [List.take_append_of_le_length hk]
        exact hstay k
      · have hlast := hstay more.length
        rw [List.take_length,hsame] at hlast
        have hall : (more++[a]).take k=more++[a] := by
          apply List.take_of_length_le
          simp only [List.length_append,List.length_singleton]
          omega
        rw [hall,← hlast,← hwhole]
        simp
    · refine ⟨before,[],d,rfl,hd,hcount,hcap,fun k => ?_⟩
      rw [List.take_nil,hwhole]

end Inv

/-- In every run every commit leaves the owner with no more than the cap, and a call answers `false`
only where it has counted the cap. -/
theorem cap_holds_at_every_commit (owner : String) (maxCerts : Int) (db : Inventory)
    (links : Nat → Link) (before : List Act) (a : Act) :
    (∀ row∈commits (run (step owner maxCerts) (start db links) before) a,
        ((run (step owner maxCerts) (start db links) (before++[a])).db.countActiveForOwner owner :
          Int) ≤ maxCerts) ∧
      ∀ p,refuses (run (step owner maxCerts) (start db links) before) p a →
        ∃ earlier more d,before=earlier++.run p .ok::more ∧
          (run (step owner maxCerts) (start db links) earlier).calls p=some d ∧ d.stage=.count ∧
          maxCerts≤
            (run (step owner maxCerts) (start db links) earlier).db.countActiveForOwner owner ∧
          ∀ k,(run (step owner maxCerts) (start db links)
            (earlier++.run p .ok::more.take k)).calls p=some { d with stage := .full } := by
  have hinv : Inv owner maxCerts (run (step owner maxCerts) (start db links) before) := by
    refine run_invariant (I := Inv owner maxCerts) (fun s a h => inv_step h a) ?_ before
    intro p c hc
    cases hc
  refine ⟨fun row hrow => ?_,fun p hp => ?_⟩
  · rw [run_append,run_cons,run_nil]
    exact commit_within_cap hinv hrow
  · cases a with
    | run q o =>
      obtain ⟨_,c,hc,hfull⟩ := hp
      exact counted_before_full db links before hc hfull
    | call q row uris => exact hp.elim
    | sever q => exact hp.elim
    | rollback q => exact hp.elim
    | revoke serial reason whenUnix => exact hp.elim
    | markExpired now => exact hp.elim

end Quota

end FastPki.Certs
