import FastPki.Certs.Insert
import FastPki.Certs.Store

namespace FastPki.Certs

/-! The inserts with their statements, beside the connection that they run on and the one step that the
enrolment services take them for. -/

namespace Insert

open Db (Command)

section Connection

variable {τ : Type*} {s : Session τ} {c c' : Routine (Session τ)} {d d' : Routine Db.Session}

/-- To the connection the routine is `d`, for some answers of the server. -/
def Follows (c : Routine (Session τ)) (d : Routine Db.Session) (s : Session τ) : Prop :=
  ∃ as,∀ rest,d ⟨s.conn,as++rest⟩=((c s).1,⟨(c s).2.conn,rest⟩)

theorem follows_exec (k : Command) (f : τ → Option τ) (s : Session τ) :
    Follows (exec k f) (Db.exec k) s := by
  cases hs : s.conn with
  | null => exact ⟨[],fun rest => by simp [exec,Db.exec,hs]⟩
  | bad => exact ⟨[],fun rest => by simp [exec,Db.exec,hs]⟩
  | ok tx =>
    refine ⟨[answer (f (s.tables tx)).isSome (nextOutcome s.script)],fun rest => ?_⟩
    simp only [exec,hs]
    cases answer (f (s.tables tx)).isSome (nextOutcome s.script) with
    | ok => rfl
    | sqlError => rfl
    | drop => rfl

theorem follows_ensureConn (s : Session τ) : Follows ensureConn Db.ensureConn s := by
  cases hs : s.conn with
  | null => exact ⟨[],fun rest => by simp [ensureConn,Db.ensureConn,hs]⟩
  | ok tx => exact ⟨[],fun rest => by simp [ensureConn,Db.ensureConn,hs]⟩
  | bad =>
    refine ⟨[answer true (nextOutcome s.script)],fun rest => ?_⟩
    simp only [ensureConn,hs]
    cases answer true (nextOutcome s.script) with
    | ok => rfl
    | sqlError => rfl
    | drop => rfl

theorem Follows.andThen (hc : Follows c d s) (hd : (c s).1=true → Follows c' d' (c s).2) :
    Follows (c.andThen c') (d.andThen d') s := by
  obtain ⟨as,hrun⟩ := hc
  by_cases hr : (c s).1=true
  · obtain ⟨bs,hmore⟩ := hd hr
    refine ⟨as++bs,fun rest => ?_⟩
    rw [List.append_assoc]
    simp only [Routine.andThen,hrun,hr,if_true,hmore]
  · refine ⟨as,fun rest => ?_⟩
    rw [Bool.not_eq_true] at hr
    simp only [Routine.andThen,hrun,hr,Bool.false_eq_true,if_false]

theorem Follows.ignored (hc : Follows c d s) : Follows c.ignored d.ignored s := by
  obtain ⟨as,hrun⟩ := hc
  exact ⟨as,fun rest => by simp only [Routine.ignored,hrun]⟩

theorem follows_each {α : Type*} (l : List α) (f : α → τ → Option τ) (s : Session τ) :
    Follows (.each (l.map fun x => exec .other (f x)))
      (Db.execAll (List.replicate l.length .other)) s := by
  induction l generalizing s with
  | nil => exact ⟨[],fun rest => rfl⟩
  | cons x l ih =>
    rw [List.map_cons,Routine.each_cons,List.length_cons,List.replicate_succ,Db.execAll_cons]
    exact (follows_exec .other (f x) s).andThen fun _ => ih _

end Connection

variable (san : X509.Octets → List String) (owner : String) (maxCerts : Int) (row : Row)

theorem follows_unlocked (s : Session Tables) :
    Follows (insertCertUnlocked san row)
      (Db.execAll (List.replicate ((san row.cert).length+1) .other)) s := by
  rw [insertCertUnlocked,List.replicate_succ,Db.execAll_cons]
  exact (follows_exec .other _ s).andThen fun _ => follows_each (san row.cert) _ _

theorem follows_insertOrRefuse (s : Session Tables) :
    Follows (insertOrRefuse san owner maxCerts row)
      (if full owner maxCerts s.work then (Db.exec .rollback).ignored
      else (Db.execAll (List.replicate ((san row.cert).length+1) .other)).andThen (Db.exec .commit)) s := by
  by_cases hfull : full owner maxCerts s.work=true
  · have hroll := (follows_exec .rollback some s).ignored
    simpa only [Follows,insertOrRefuse,hfull,if_true] using hroll
  · have hstore := (follows_unlocked san row s).andThen fun _ => follows_exec .commit some _
    simpa only [Follows,insertOrRefuse,hfull,Bool.false_eq_true,if_false] using hstore

/-- The count of the transaction decides between the two branches. -/
theorem follows_quotaAttempt (s : Session Tables) : ∃ full,
    Follows (quotaAttempt san owner maxCerts row)
      (Db.quotaAttempt full (san row.cert).length) s := by
  let begun := (exec .begin some (ensureConn s).2).2
  let counted := (exec .other some (exec .other some begun).2).2
  refine ⟨full owner maxCerts counted.work,?_⟩
  rw [quotaAttempt,Db.quotaAttempt_eq]
  refine (follows_ensureConn s).andThen fun _ => ?_
  refine (follows_exec .begin some _).andThen fun _ => ?_
  refine (follows_exec .other some _).andThen fun _ => ?_
  refine (follows_exec .other some _).andThen fun _ => ?_
  exact follows_insertOrRefuse san owner maxCerts row counted

/-- A second attempt finds no handle on either level. -/
theorem follows_quotaLoop (left : Nat) (s : Session Tables) : ∃ full,
    Follows (quotaLoop san owner maxCerts row (left+1))
      (Db.quotaLoop full (san row.cert).length (left+1)) s := by
  obtain ⟨full,as,hattempt⟩ := follows_quotaAttempt san owner maxCerts row s
  refine ⟨full,as,fun rest => ?_⟩
  have hnull := quotaLoop_null san owner maxCerts row left
    (s := { (quotaAttempt san owner maxCerts row s).2 with conn := .null }) rfl
  have hnull' := Db.quotaLoop_null full (san row.cert).length left rest
  rw [quotaLoop] at hnull
  rw [Db.quotaLoop] at hnull'
  simp only [quotaLoop,Db.quotaLoop,Routine.retry,hattempt,hnull,hnull']
  split_ifs
  · rfl
  · rfl
  · rfl

/-- Whatever becomes of the tables, the connection goes through a call of the method. -/
theorem insertCertWithinQuota_call (s : Session Tables) : ∃ full as,
    Db.PgCall.run s.conn ⟨.insertCertWithinQuota full (san row.cert).length,as⟩=
      ((insertCertWithinQuota san owner maxCerts row s).1,
        ⟨(insertCertWithinQuota san owner maxCerts row s).2.conn,[]⟩) := by
  by_cases hr : (ensureConn s).1=true
  · obtain ⟨full,hloop⟩ := follows_quotaLoop san owner maxCerts row 2 (ensureConn s).2
    obtain ⟨as,hrun⟩ := (follows_ensureConn s).andThen fun _ => hloop
    have hend := hrun []
    rw [List.append_nil] at hend
    exact ⟨full,as,hend⟩
  · have hthrow : Follows (insertCertWithinQuota san owner maxCerts row)
        (Db.Method.insertCertWithinQuota false (san row.cert).length).run s :=
      (follows_ensureConn s).andThen fun h => absurd h hr
    obtain ⟨as,hrun⟩ := hthrow
    have hend := hrun []
    rw [List.append_nil] at hend
    exact ⟨false,as,hend⟩

theorem insertCert_call (s : Session Tables) : ∃ as,
    Db.PgCall.run s.conn ⟨.plain (List.replicate ((san row.cert).length+1) true),as⟩=
      ((insertCert san row s).1,⟨(insertCert san row s).2.conn,[]⟩) := by
  obtain ⟨as,hrun⟩ := (follows_ensureConn s).andThen fun _ => follows_unlocked san row _
  have hend := hrun []
  rw [List.append_nil] at hend
  refine ⟨as,?_⟩
  have hstmts : (List.replicate ((san row.cert).length+1) true).map Db.plainStmt=
      (List.replicate ((san row.cert).length+1) Command.other).map Db.exec := by
    rw [List.map_replicate,List.map_replicate]
    rfl
  rw [Db.PgCall.run,Db.Method.run,hstmts]
  exact hend

end Insert

section Views

/-- What the enrolment services see of a row. -/
structure Row.Shows (r : Row) (x : StoredCert) : Prop where
  serial : x.cert.serial=r.serial
  status : r.status=some x.status
  owner : x.owner=r.owner
  caInstanceId : x.caInstanceId=r.caInstanceId.getD ""
  certId : r.certId=none ↔ x.certId=""

/-- Row by row, in one order. -/
def Inventory.Shows (db : Inventory) (certs : List StoredCert) : Prop :=
  List.Forall₂ Row.Shows db.rows certs

variable {db : Inventory} {certs : List StoredCert} {row : Row} {x : StoredCert}

theorem Inventory.Shows.getCert (h : db.Shows certs) (serial : String) :
    Option.Rel Row.Shows (db.getCert serial) (Certs.getCert certs serial) := by
  show Option.Rel _ (db.rows.find? fun r => r.serial = serial)
    (certs.find? fun x => x.cert.serial = serial)
  rw [Inventory.Shows] at h
  generalize db.rows=rows at h
  induction h with
  | nil => exact Option.Rel.none
  | @cons r x rows certs hrow _ ih =>
    have hkey : (x.cert.serial = serial) ↔ (r.serial = serial) := by rw [hrow.serial]
    by_cases hs : r.serial=serial
    · rw [List.find?_cons_of_pos (by simpa using hs),
        List.find?_cons_of_pos (by simpa using hkey.mpr hs)]
      exact Option.Rel.some hrow
    · rw [List.find?_cons_of_neg (by simpa using hs),
        List.find?_cons_of_neg (by simpa using hkey.not.mpr hs)]
      exact ih

theorem Row.Shows.active (h : row.Shows x) (owner : String) :
    activeFor owner row=decide (x.owner=owner ∧ Certs.active x) := by
  have hid : row.certId=none ↔ x.certId="" := h.certId
  simp only [activeFor,Certs.active,h.status,h.owner,Option.some.injEq,hid,decide_eq_true_eq]

theorem Inventory.Shows.count (h : db.Shows certs) (owner : String) :
    (db.countActiveForOwner owner : Int)=Certs.countActiveForOwner certs owner := by
  rw [Inventory.countActiveForOwner,Certs.countActiveForOwner,← List.countP_eq_length_filter]
  rw [Inventory.Shows] at h
  generalize db.rows=rows at h
  congr 1
  induction h with
  | nil => rfl
  | cons hrow _ ih => rw [List.countP_cons,List.countP_cons,ih,hrow.active owner]

/-- A new row is accepted on both levels or on neither. -/
theorem Inventory.Shows.insertCert (h : db.Shows certs) (hx : row.Shows x) :
    match db.insertCert row with
    | some out => ∃ more,Certs.insertCert certs x=.ok more ∧ out.Shows more
    | none => ∃ why,Certs.insertCert certs x=.error why := by
  have hrel := h.getCert row.serial
  rw [← hx.serial] at hrel
  cases hins : db.insertCert row with
  | none =>
    have htaken : db.getCert row.serial≠none := Keyed.insert_eq_none.mp hins
    rw [← hx.serial] at htaken
    cases hget : Certs.getCert certs x.cert.serial with
    | none =>
      rw [hget] at hrel
      cases hfind : db.getCert x.cert.serial with
      | none => exact absurd hfind htaken
      | some r =>
        rw [hfind] at hrel
        cases hrel
    | some y => exact ⟨_,by rw [Certs.insertCert,hget]; rfl⟩
  | some out =>
    obtain ⟨hother,hrows⟩ := Keyed.insert_eq_some hins
    have hfree : db.getCert row.serial=none := Keyed.find_eq_none.mpr hother
    have hnone : Certs.getCert certs x.cert.serial=none := by
      have hfind : db.getCert x.cert.serial=none := by
        rw [hx.serial]
        exact hfree
      rw [hfind] at hrel
      cases hget : Certs.getCert certs x.cert.serial with
      | none => rfl
      | some y =>
        rw [hget] at hrel
        cases hrel
    refine ⟨certs++[x],by rw [Certs.insertCert,hnone]; rfl,?_⟩
    rw [Inventory.Shows,hrows]
    exact List.rel_append h (List.Forall₂.cons hx List.Forall₂.nil)

/-- Where no statement fails, the call leaves what the one step leaves. -/
theorem withinQuota_shows (san : X509.Octets → List String) (owner : String) (maxCerts : Int)
    {s : Insert.Session Insert.Tables} (h : s.committed.certs.Shows certs) (hx : row.Shows x)
    (hready : s.ready=some []) :
    (Insert.insertCertWithinQuota san owner maxCerts row s).2.committed.certs.Shows
      ((Certs.insertCertWithinQuota certs x owner maxCerts).toOption.join.getD certs) := by
  have hopen : s.conn≠.ok .open := by
    intro hs
    rw [Insert.Session.ready,hs] at hready
    cases hready
  have hall : ∀ n,Insert.carriedOut [] n=n := by
    intro n
    cases n with
    | zero => rfl
    | succ n => rfl
  have hinsert := h.insertCert hx
  rw [Insert.withinQuota_committed owner maxCerts row hopen]
  simp only [Insert.commits,hready,hall,decide_true,Bool.and_true,Insert.full,h.count]
  by_cases hfull : Certs.countActiveForOwner certs owner ≥ maxCerts
  · simpa [Certs.insertCertWithinQuota,hfull,Except.toOption] using h
  · cases hins : s.committed.certs.insertCert row with
    | none =>
      rw [hins] at hinsert
      obtain ⟨why,hwhy⟩ := hinsert
      have htaken : s.committed.certs.getCert row.serial≠none := Keyed.insert_eq_none.mp hins
      have hsome : (s.committed.certs.getCert row.serial).isNone=false := by
        cases hget : s.committed.certs.getCert row.serial with
        | none => exact absurd hget htaken
        | some r => rfl
      simpa [Certs.insertCertWithinQuota,hfull,hwhy,hsome,Except.map,Except.toOption] using h
    | some out =>
      rw [hins] at hinsert
      obtain ⟨more,hmore,hshows⟩ := hinsert
      have hfree : s.committed.certs.getCert row.serial=none :=
        Keyed.find_eq_none.mpr (Keyed.insert_eq_some hins).1
      have hstore : Insert.storeRow row s.committed=some { s.committed with certs := out } := by
        rw [Insert.storeRow,hins]
        rfl
      simpa [Certs.insertCertWithinQuota,hfull,hmore,hfree,hstore,Insert.indexAll_certs,Except.map,
        Except.toOption] using hshows

end Views

end FastPki.Certs
