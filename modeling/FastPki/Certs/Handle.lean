import FastPki.Certs.Quota

namespace FastPki.Certs.Quota

/-! A call of `insert_cert_within_quota` among those of other processes, beside the connection that it
runs on. -/

open Db (Conn Command)

/-- The link of a handle whose client and server agree about it. -/
def Link.ofConn : Conn → Link
  | .null => .null
  | .bad => .bad
  | .ok tx => .ok tx

/-- The handle as its client knows it: it does not see that the server has ended the connection. -/
def Link.Shows (l : Link) (c : Conn) : Prop := l=.ofConn c ∨ (l=.cut ∧ ∃ tx,c=.ok tx)

/-- The statements of a certificate behind the count, and the COMMIT. -/
def writes (n : Nat) : Routine Db.Session :=
  (Db.execAll (List.replicate n .other)).andThen (Db.exec .commit)

theorem writes_succ (n : Nat) : writes (n+1)=(Db.exec .other).andThen (writes n) := by
  rw [writes,List.replicate_succ,Db.execAll_cons,Routine.andThen_assoc]
  rfl

/-- `full` is how the count of the attempt comes out. -/
def counted (full : Bool) (uris : Nat) : Routine Db.Session :=
  if full then (Db.exec .rollback).ignored else writes (uris+1)

/-- What is left of an attempt. -/
def Stage.rest (full : Bool) (uris : Nat) : Stage → Routine Db.Session
  | .guard | .connect => Db.quotaAttempt full uris
  | .begin => (Db.exec .begin).andThen
      ((Db.exec .other).andThen ((Db.exec .other).andThen (counted full uris)))
  | .lock => (Db.exec .other).andThen ((Db.exec .other).andThen (counted full uris))
  | .count => (Db.exec .other).andThen (counted full uris)
  | .full => (Db.exec .rollback).ignored
  | .insert => writes (uris+1)
  | .uri n => writes n
  | .commit => writes 0

/-- What is left of a call. Before the guard it is all of the method; behind it, further attempts find
no handle and throw. -/
def Call.rest (c : Call) (full : Bool) : Routine Db.Session := fun s =>
  if c.stage = .guard then (Db.Method.insertCertWithinQuota full c.uris).run s
  else
    let r := c.stage.rest full c.uris s
    if r.1 then r
    else (false,⟨if r.2.conn.gone ∧ c.attempt < 3 then .null else r.2.conn,r.2.script⟩)

/-- For some answers the handle is left like this. -/
def Call.Ends (c : Call) (conn fin : Conn) : Prop :=
  ∃ full as returned,c.rest full ⟨conn,as⟩=(returned,⟨fin,[]⟩)

section Statements

variable {s : Site} {p : Nat} {conn mid : Conn}

/-- A routine takes these answers and gets the handle from `conn` to `mid`. -/
def Takes (d : Routine Db.Session) (conn : Conn) (as : List Db.Answer) (returned : Bool) (mid : Conn) :
    Prop := ∀ rest,d ⟨conn,as++rest⟩=(returned,⟨mid,rest⟩)

theorem query_takes (h : (s.links p).Shows conn) (hconn : conn≠.null) (k : Command) (valid : Bool)
    (o : Outcome) : ∃ as mid,mid≠.null ∧ (s.query p k valid o).1.links p=.ofConn mid ∧
      Takes (Db.exec k) conn as (s.query p k valid o).2 mid := by
  obtain hlink|⟨hlink,tx,rfl⟩ := h
  · cases conn with
    | null => exact absurd rfl hconn
    | bad =>
      refine ⟨[],.bad,by simp,?_,?_⟩
      · simp [Site.query,hlink,Link.ofConn,Site.relink]
      · intro rest
        simp [Site.query,hlink,Link.ofConn,Db.exec]
    | ok tx =>
      cases o with
      | drop applied =>
        refine ⟨[.drop],.bad,by simp,?_,?_⟩
        · simp [Site.query,hlink,Link.ofConn,Site.relink,Site.unlock]
        · intro rest
          simp [Site.query,hlink,Link.ofConn,Db.exec,Db.nextAnswer]
      | ok =>
        refine ⟨[if valid then .ok else .sqlError],.ok (Db.serve k tx valid).2,by simp,?_,?_⟩
        · simp only [Site.query,hlink,Link.ofConn]
          split_ifs <;> simp_all [Site.relink,Site.unlock]
        · intro rest
          cases valid <;> simp [Site.query,hlink,Link.ofConn,Db.exec,Db.nextAnswer]
      | sqlError =>
        refine ⟨[.sqlError],.ok (Db.serve k tx false).2,by simp,?_,?_⟩
        · simp only [Site.query,hlink,Link.ofConn]
          split_ifs <;> simp_all [Site.relink,Site.unlock]
        · intro rest
          simp [Site.query,hlink,Link.ofConn,Db.exec,Db.nextAnswer]
  · refine ⟨[.drop],.bad,by simp,?_,?_⟩
    · simp [Site.query,hlink,Link.ofConn,Site.relink]
    · intro rest
      simp [Site.query,hlink,Db.exec,Db.nextAnswer]

theorem ensureConn_takes (h : (s.links p).Shows conn) (o : Outcome) :
    ∃ as mid,Takes Db.ensureConn conn as (s.ensureConn p o).2 mid ∧
      if (s.ensureConn p o).2 then ((s.ensureConn p o).1.links p).Shows mid ∧ mid≠.null
      else (s.ensureConn p o).1.links p=.ofConn mid := by
  obtain hlink|⟨hlink,tx,rfl⟩ := h
  · cases conn with
    | null =>
      refine ⟨[],.null,?_,?_⟩
      · intro rest
        simp [Site.ensureConn,hlink,Link.ofConn,Db.ensureConn]
      · simp [Site.ensureConn,hlink,Link.ofConn]
    | ok tx =>
      refine ⟨[],.ok tx,?_,?_⟩
      · intro rest
        simp [Site.ensureConn,hlink,Link.ofConn,Db.ensureConn]
      · simp [Site.ensureConn,hlink,Link.ofConn,Link.Shows]
    | bad =>
      by_cases ho : o=.ok
      · refine ⟨[.ok],.ok .idle,?_,?_⟩
        · intro rest
          simp [Site.ensureConn,hlink,Link.ofConn,Db.ensureConn,Db.nextAnswer,ho]
        · simp [Site.ensureConn,hlink,Link.ofConn,Link.Shows,Site.relink,ho]
      · refine ⟨[.drop],.bad,?_,?_⟩
        · intro rest
          simp [Site.ensureConn,hlink,Link.ofConn,Db.ensureConn,Db.nextAnswer,ho]
        · simp [Site.ensureConn,hlink,Link.ofConn,ho]
  · refine ⟨[],.ok tx,?_,?_⟩
    · intro rest
      simp [Site.ensureConn,hlink,Db.ensureConn]
    · simp [Site.ensureConn,hlink,Link.Shows]

theorem Takes.andThen_stops {d e : Routine Db.Session} {as : List Db.Answer}
    (h : Takes d conn as false mid) : Takes (d.andThen e) conn as false mid := by
  intro rest
  simp [Routine.andThen,h rest]

theorem Takes.andThen_goes {d e : Routine Db.Session} {as bs : List Db.Answer}
    (h : Takes d conn as true mid) : d.andThen e ⟨conn,as++bs⟩=e ⟨mid,bs⟩ :=
  Routine.andThen_returns (h bs)

end Statements

section Moves

variable {s u : Site} {p : Nat} {c : Call} {conn mid : Conn}

/-- A call under way: it is guarded in its first attempt, and has a handle once it is connected. -/
structure Stands (s : Site) (p : Nat) (c : Call) (conn : Conn) : Prop where
  link : (s.links p).Shows conn
  first : c.stage=.guard → c.attempt=1
  held : conn=.null → c.stage=.guard ∨ c.stage=.connect

/-- The call has ended, or the rest of it is left to be done from `mid`. -/
def Moves (c : Call) (conn : Conn) (t : Site) (p : Nat) : Prop :=
  (t.calls p=none ∧ ∃ fin,(t.links p).Shows fin ∧ c.Ends conn fin) ∨
  ∃ d mid,t.calls p=some d ∧ Stands t p d mid ∧ ∀ fin,d.Ends mid fin → c.Ends conn fin

theorem ends_of_throw {full : Bool} {as : List Db.Answer} (hg : c.stage≠.guard)
    (h : Takes (c.stage.rest full c.uris) conn as false mid) :
    c.Ends conn (if mid.gone ∧ c.attempt < 3 then .null else mid) := by
  have hrun := h []
  rw [List.append_nil] at hrun
  exact ⟨full,as,false,by simp [Call.rest,hg,hrun]⟩

theorem ends_of_return {full : Bool} {as : List Db.Answer} (hg : c.stage≠.guard)
    (h : Takes (c.stage.rest full c.uris) conn as true mid) : c.Ends conn mid := by
  have hrun := h []
  rw [List.append_nil] at hrun
  exact ⟨full,as,true,by simp [Call.rest,hg,hrun]⟩

/-- A further attempt finds no handle. -/
theorem ends_null {d : Call} {fin : Conn} (hd : d.stage=.connect) (h : d.Ends .null fin) :
    fin=.null := by
  obtain ⟨full,as,returned,hrun⟩ := h
  have hattempt : d.stage.rest full d.uris ⟨.null,as⟩=(false,⟨.null,as⟩) := by
    rw [hd]
    rfl
  have hg : d.stage≠.guard := by
    rw [hd]
    simp
  simp only [Call.rest,if_neg hg,hattempt,Bool.false_eq_true,ite_self] at hrun
  exact (congrArg (fun r => r.2.conn) hrun).symm

/-- The `catch` gives up, or throws the handle away for another attempt. -/
theorem moves_catch {full : Bool} {as : List Db.Answer} (hg : c.stage≠.guard)
    (h : Takes (c.stage.rest full c.uris) conn as false mid) (hlink : u.links p=.ofConn mid) :
    Moves c conn (u.catch p c) p := by
  have hends := ends_of_throw hg h
  by_cases hagain : mid.gone=true ∧ c.attempt < 3
  · rw [if_pos hagain] at hends
    have hnot : ¬c.attempt ≥ 3 := by omega
    have hcatch : u.catch p c=
        (u.relink p .null).goto p { c with attempt := c.attempt+1 } .connect := by
      cases mid with
      | null => simp [Site.catch,hlink,Link.ofConn,hnot]
      | bad => simp [Site.catch,hlink,Link.ofConn,hnot]
      | ok tx => cases hagain.1
    rw [hcatch]
    refine Or.inr ⟨_,.null,Function.update_self ..,⟨?_,by simp,fun _ => Or.inr rfl⟩,?_⟩
    · exact Or.inl (Function.update_self ..)
    · intro fin hfin
      rw [ends_null rfl hfin]
      exact hends
  · rw [if_neg hagain] at hends
    have hcatch : u.catch p c=u.finish p := by
      cases mid with
      | ok tx => simp [Site.catch,hlink,Link.ofConn]
      | null =>
        have hlast : c.attempt ≥ 3 := by
          by_contra hlt
          exact hagain ⟨rfl,by omega⟩
        simp [Site.catch,hlink,Link.ofConn,hlast]
      | bad =>
        have hlast : c.attempt ≥ 3 := by
          by_contra hlt
          exact hagain ⟨rfl,by omega⟩
        simp [Site.catch,hlink,Link.ofConn,hlast]
    rw [hcatch]
    exact Or.inl ⟨Function.update_self ..,mid,Or.inl hlink,hends⟩

theorem moves_goto {d : Routine Db.Session} {as : List Db.Answer} {next : Stage} (hg : c.stage≠.guard)
    (h : Takes d conn as true mid) (hlink : (u.links p).Shows mid) (hmid : mid≠.null)
    (hnext : next≠.guard) (count : Bool → Bool)
    (hrest : ∀ full,c.stage.rest (count full) c.uris=d.andThen (next.rest full c.uris)) :
    Moves c conn (u.goto p c next) p := by
  refine Or.inr ⟨{ c with stage := next },mid,Function.update_self ..,⟨hlink,?_,?_⟩,?_⟩
  · exact fun hstage => absurd hstage hnext
  · exact fun hnull => absurd hnull hmid
  · intro fin hfin
    obtain ⟨full,bs,returned,hrun⟩ := hfin
    refine ⟨count full,as++bs,returned,?_⟩
    simp only [Call.rest,if_neg hnext] at hrun
    simp only [Call.rest,if_neg hg,hrest,h.andThen_goes]
    exact hrun

theorem moves_finish {full : Bool} {as : List Db.Answer} (hg : c.stage≠.guard)
    (h : Takes (c.stage.rest full c.uris) conn as true mid) (hlink : u.links p=.ofConn mid) :
    Moves c conn (u.finish p) p :=
  Or.inl ⟨Function.update_self ..,mid,Or.inl hlink,ends_of_return hg h⟩

/-- One statement with the statements behind it, if it passes. -/
theorem moves_query (next : Stage) (h : Stands s p c conn) (hg : c.stage≠.guard)
    (hstage : c.stage≠.connect) (k : Command) (valid : Bool) (o : Outcome) (hnext : next≠.guard)
    (count : Bool → Bool)
    (hrest : ∀ full,c.stage.rest (count full) c.uris=(Db.exec k).andThen (next.rest full c.uris))
    (g : Site → Site) (hkeep : ∀ u,(g u).links=u.links) :
    Moves c conn (if (s.query p k valid o).2 then (g (s.query p k valid o).1).goto p c next
      else (s.query p k valid o).1.catch p c) p := by
  have hconn : conn≠.null := fun hnull => (h.held hnull).elim hg hstage
  obtain ⟨as,mid,hmid,hlink,htakes⟩ := query_takes h.link hconn k valid o
  by_cases hpass : (s.query p k valid o).2=true
  · rw [if_pos hpass]
    rw [hpass] at htakes
    refine moves_goto hg htakes ?_ hmid hnext count hrest
    rw [hkeep]
    exact Or.inl hlink
  · rw [if_neg hpass]
    rw [Bool.not_eq_true] at hpass
    rw [hpass] at htakes
    have hstop : Takes (c.stage.rest (count true) c.uris) conn as false mid := by
      rw [hrest]
      exact htakes.andThen_stops
    exact moves_catch hg hstop hlink

end Moves

section Run

variable {owner : String} {maxCerts : Int} {s : Site} {p : Nat} {c : Call} {conn : Conn}

theorem landed_links (s : Site) (p : Nat) (c : Call) (o : Outcome) :
    (s.landed p c o).links=s.links := by
  rw [Site.landed]
  cases s.landing p c o with
  | none => rfl
  | some row => rfl

theorem moves_connect (h : Stands s p c conn) (hstage : c.stage=.connect) (o : Outcome) :
    Moves c conn (if (s.ensureConn p o).2 then (s.ensureConn p o).1.goto p c .begin
      else (s.ensureConn p o).1.catch p c) p := by
  have hrest : ∀ full,c.stage.rest full c.uris=
      Db.ensureConn.andThen (Stage.begin.rest full c.uris) := by
    intro full
    rw [hstage]
    exact Db.quotaAttempt_eq full c.uris
  have hg : c.stage≠.guard := by
    rw [hstage]
    simp
  obtain ⟨as,mid,htakes,hend⟩ := ensureConn_takes h.link o
  by_cases hpass : (s.ensureConn p o).2=true
  · rw [if_pos hpass] at hend ⊢
    rw [hpass] at htakes
    exact moves_goto hg htakes hend.1 hend.2 (by simp) id hrest
  · rw [if_neg hpass] at hend ⊢
    rw [Bool.not_eq_true] at hpass
    rw [hpass] at htakes
    have hstop : Takes (c.stage.rest true c.uris) conn as false mid := by
      rw [hrest]
      exact htakes.andThen_stops
    exact moves_catch hg hstop hend

theorem moves_commit (h : Stands s p c conn) (hstage : c.stage=.commit) (o : Outcome) :
    Moves c conn (if ((s.landed p c o).query p .commit true o).2 then
        ((s.landed p c o).query p .commit true o).1.finish p
      else ((s.landed p c o).query p .commit true o).1.catch p c) p := by
  have hg : c.stage≠.guard := by
    rw [hstage]
    simp
  have hconn : conn≠.null := by
    intro hnull
    obtain hc|hc := h.held hnull
    · exact hg hc
    · cases hstage.symm.trans hc
  have hlanded : ((s.landed p c o).links p).Shows conn := by
    rw [landed_links]
    exact h.link
  have hrest : c.stage.rest true c.uris=Db.exec .commit := by
    rw [hstage]
    rfl
  obtain ⟨as,mid,_,hlink,htakes⟩ := query_takes hlanded hconn .commit true o
  rw [← hrest] at htakes
  by_cases hpass : ((s.landed p c o).query p .commit true o).2=true
  · rw [if_pos hpass]
    rw [hpass] at htakes
    exact moves_finish hg htakes hlink
  · rw [if_neg hpass]
    rw [Bool.not_eq_true] at hpass
    rw [hpass] at htakes
    exact moves_catch hg htakes hlink

theorem quotaLoop_rest (row : Row) (uris : Nat) (full : Bool) :
    Call.rest ⟨row,uris,1,.connect⟩ full=Db.quotaLoop full uris 3 := by
  funext t
  rw [Db.quotaLoop_succ]
  simp [Call.rest,Stage.rest]

/-- Before the guard the whole method is to come. -/
theorem moves_guard (h : Stands s p c conn) (hstage : c.stage=.guard) (o : Outcome) :
    Moves c conn (if (s.ensureConn p o).2 then (s.ensureConn p o).1.goto p c .connect
      else (s.ensureConn p o).1.finish p) p := by
  have hrest : ∀ full t,c.rest full t=Db.ensureConn.andThen (Db.quotaLoop full c.uris 3) t := by
    intro full t
    rw [Call.rest,if_pos hstage]
    rfl
  obtain ⟨as,mid,htakes,hend⟩ := ensureConn_takes h.link o
  by_cases hpass : (s.ensureConn p o).2=true
  · rw [if_pos hpass] at hend ⊢
    rw [hpass] at htakes
    refine Or.inr ⟨_,mid,Function.update_self ..,⟨hend.1,by simp,fun hnull => absurd hnull hend.2⟩,?_⟩
    intro fin hfin
    obtain ⟨full,bs,returned,hrun⟩ := hfin
    refine ⟨full,as++bs,returned,?_⟩
    rw [hrest,htakes.andThen_goes,← hrun,← quotaLoop_rest c.row,← h.first hstage]
  · rw [if_neg hpass] at hend ⊢
    rw [Bool.not_eq_true] at hpass
    rw [hpass] at htakes
    refine Or.inl ⟨Function.update_self ..,mid,Or.inl hend,true,as,false,?_⟩
    have hrun := htakes.andThen_stops (e := Db.quotaLoop true c.uris 3) []
    rw [List.append_nil] at hrun
    rw [hrest,hrun]

/-- One statement of a call. -/
theorem runCall_moves (hc : s.calls p=some c) (h : Stands s p c conn) (o : Outcome) :
    Moves c conn (runCall owner maxCerts s p c o) p := by
  obtain ⟨row,uris,attempt,stage⟩ := c
  cases stage with
  | guard => exact moves_guard h rfl o
  | connect => exact moves_connect h rfl o
  | begin =>
    exact moves_query .lock h (by simp) (by simp) .begin true o (by simp) id (fun _ => rfl) id
      fun _ => rfl
  | lock =>
    simp only [runCall]
    by_cases hwait : o=.ok ∧ s.holder≠none ∧ s.holder≠some p ∧ s.links p≠.cut
    · rw [if_pos hwait]
      exact Or.inr ⟨_,conn,hc,h,fun _ hfin => hfin⟩
    · rw [if_neg hwait]
      exact moves_query .count h (by simp) (by simp) .other true o (by simp) id (fun _ => rfl)
        (fun u => { u with holder := some p }) fun _ => rfl
  | count =>
    -- the count decides which of the two branches was to come
    simp only [runCall]
    by_cases hfull : (s.db.countActiveForOwner owner : Int) ≥ maxCerts
    · rw [if_pos hfull]
      exact moves_query .full h (by simp) (by simp) .other true o (by simp) (fun _ => true)
        (fun _ => rfl) id fun _ => rfl
    · rw [if_neg hfull]
      exact moves_query .insert h (by simp) (by simp) .other true o (by simp) (fun _ => false)
        (fun _ => rfl) id fun _ => rfl
  | full =>
    have hconn : conn≠.null := fun hnull => by simpa using h.held hnull
    obtain ⟨as,mid,_,hlink,htakes⟩ := query_takes h.link hconn .rollback true o
    have hroll : Takes (Stage.full.rest true uris) conn as true mid := by
      intro rest
      show (Db.exec .rollback).ignored _=_
      rw [Routine.ignored,htakes rest]
    exact moves_finish (by simp) hroll hlink
  | insert =>
    exact moves_query (.uri uris) h (by simp) (by simp) .other _ o (by simp) id
      (fun _ => writes_succ uris) id fun _ => rfl
  | uri n =>
    have hconn : conn≠.null := fun hnull => by simpa using h.held hnull
    cases n with
    | zero =>
      exact Or.inr ⟨_,conn,Function.update_self ..,
        ⟨h.link,by simp,fun hnull => absurd hnull hconn⟩,fun _ hfin => hfin⟩
    | succ n =>
      exact moves_query (.uri n) h (by simp) (by simp) .other true o (by simp) id
        (fun _ => writes_succ n) id fun _ => rfl
  | commit => exact moves_commit h rfl o

end Run

section Acts

variable {owner : String} {maxCerts : Int} {s t : Site} {p : Nat} {c : Call} {conn : Conn}

/-- What a process does leaves the connections and calls of the others. -/
theorem runCall_others (owner : String) (maxCerts : Int) (s : Site) {p q : Nat} (hq : q≠p) (c : Call)
    (o : Outcome) : (runCall owner maxCerts s p c o).links q=s.links q ∧
      (runCall owner maxCerts s p c o).calls q=s.calls q := by
  have hgoes : ∀ t next,Frame p s t → (t.goto p c next).links q=s.links q ∧
      (t.goto p c next).calls q=s.calls q := by
    intro t next ht
    have hframe := ht.trans (frame_calls t p (some { c with stage := next }))
    exact ⟨hframe.links q hq,hframe.calls q hq⟩
  have hfails : ∀ t,Frame p s t → (t.catch p c).links q=s.links q ∧
      (t.catch p c).calls q=s.calls q := by
    intro t ht
    have hframe := ht.trans (frame_catch t p c)
    exact ⟨hframe.links q hq,hframe.calls q hq⟩
  have hends : ∀ t,Frame p s t → (t.finish p).links q=s.links q ∧ (t.finish p).calls q=s.calls q := by
    intro t ht
    have hframe := ht.trans (frame_calls t p none)
    exact ⟨hframe.links q hq,hframe.calls q hq⟩
  have hconn := frame_ensureConn s p o
  have hquery : ∀ k valid,Frame p s (s.query p k valid o).1 := fun k valid => frame_query s p k valid o
  cases hstage : c.stage with
  | guard =>
    simp only [runCall,hstage]
    split_ifs
    · exact hgoes _ _ hconn
    · exact hends _ hconn
  | connect =>
    simp only [runCall,hstage]
    split_ifs
    · exact hgoes _ _ hconn
    · exact hfails _ hconn
  | lock =>
    simp only [runCall,hstage]
    split_ifs
    · exact ⟨rfl,rfl⟩
    · exact hgoes (s.query p .other true o).1 .count (hquery ..)
    · exact hfails _ (hquery ..)
  | full =>
    simp only [runCall,hstage]
    exact hends _ (hquery ..)
  | uri n =>
    cases n with
    | zero =>
      simp only [runCall,hstage]
      exact hgoes _ _ (Frame.refl s p)
    | succ n =>
      simp only [runCall,hstage]
      split_ifs
      · exact hgoes _ _ (hquery ..)
      · exact hfails _ (hquery ..)
  | commit =>
    have hlanded := (frame_landed s p c o).trans (frame_query (s.landed p c o) p .commit true o)
    simp only [runCall,hstage]
    split_ifs
    · exact hends _ hlanded
    · exact hfails _ hlanded
  | _ =>
    simp only [runCall,hstage]
    split_ifs <;> first | exact hgoes _ _ (hquery ..) | exact hfails _ (hquery ..)

/-- Nobody else moves a call on; that the server ends its connection shows at its next statement. -/
theorem step_stands {a : Act} (hc : s.calls p=some c) (h : Stands s p c conn) (ha : ∀ o,a≠.run p o) :
    (step owner maxCerts s a).calls p=some c ∧ Stands (step owner maxCerts s a) p c conn := by
  have hkeep : ∀ t : Site,t.links p=s.links p → t.calls p=s.calls p →
      t.calls p=some c ∧ Stands t p c conn := by
    intro t hlinks hcalls
    exact ⟨hcalls.trans hc,⟨hlinks ▸ h.link,h.first,h.held⟩⟩
  cases a with
  | call q row uris =>
    simp only [step]
    split_ifs with hfree
    · have hq : p≠q := by
        rintro rfl
        rw [hc] at hfree
        cases hfree
      exact hkeep _ rfl (Function.update_of_ne hq ..)
    · exact ⟨hc,h⟩
  | run q o =>
    simp only [step]
    have hq : p≠q := by
      rintro rfl
      exact ha o rfl
    cases hd : s.calls q with
    | none => exact ⟨hc,h⟩
    | some d =>
      obtain ⟨hlinks,hcalls⟩ := runCall_others owner maxCerts s hq d o
      exact hkeep _ hlinks hcalls
  | sever q =>
    simp only [step]
    split
    · next tx hlink =>
      by_cases hq : p=q
      · refine ⟨hc,⟨?_,h.first,h.held⟩⟩
        rw [← hq] at hlink ⊢
        obtain hconn|⟨hcut,_⟩ := h.link
        · refine Or.inr ⟨Function.update_self ..,tx,?_⟩
          cases conn with
          | null => cases hlink.symm.trans hconn
          | bad => cases hlink.symm.trans hconn
          | ok tx' =>
            rw [Link.ok.inj (hlink.symm.trans hconn)]
        · cases hlink.symm.trans hcut
      · exact hkeep _ (Function.update_of_ne hq ..) rfl
    · exact ⟨hc,h⟩
  | rollback q =>
    simp only [step]
    split_ifs
    · exact hkeep _ rfl rfl
    · exact ⟨hc,h⟩
  | revoke serial reason whenUnix => exact hkeep _ rfl rfl
  | markExpired now => exact hkeep _ rfl rfl

/-- Whatever the others do meanwhile, a call that comes to its end has done to its handle what is left
of the method does for some answers. -/
theorem call_ends {acts : List Act} (hc : s.calls p=some c) (h : Stands s p c conn)
    (hunder : Along (step owner maxCerts) (fun t _ => t.calls p≠none) s acts)
    (hend : (run (step owner maxCerts) s acts).calls p=none) :
    ∃ fin,((run (step owner maxCerts) s acts).links p).Shows fin ∧ c.Ends conn fin := by
  induction acts generalizing s c conn with
  | nil =>
    rw [run_nil,hc] at hend
    cases hend
  | cons a acts ih =>
    rw [run_cons] at hend ⊢
    by_cases ha : ∃ o,a=.run p o
    · obtain ⟨o,rfl⟩ := ha
      have hstep : step owner maxCerts s (.run p o)=runCall owner maxCerts s p c o := by
        simp only [step,hc,Option.elim_some]
      rw [hstep] at hend ⊢
      have hlater := hunder.2
      rw [hstep] at hlater
      have hmoves : Moves c conn (runCall owner maxCerts s p c o) p := runCall_moves hc h o
      obtain ⟨hnone,fin,hfin,hends⟩|⟨d,mid,hd,hstands,hrest⟩ := hmoves
      · -- the call is over, so that this was the last action
        cases acts with
        | nil => exact ⟨fin,hfin,hends⟩
        | cons b acts => exact absurd hnone hlater.1
      · obtain ⟨fin,hfin,hends⟩ := ih hd hstands hlater hend
        exact ⟨fin,hfin,hrest fin hends⟩
    · obtain ⟨hc',h'⟩ := step_stands hc h fun o heq => ha ⟨o,heq⟩
      exact ih hc' h' hunder.2 hend

/-- From the call to its end: the handle goes through the method. -/
theorem call_is_method {row : Row} {uris : Nat} {acts : List Act}
    (hc : s.calls p=some ⟨row,uris,1,.guard⟩) (hlink : (s.links p).Shows conn)
    (hunder : Along (step owner maxCerts) (fun t _ => t.calls p≠none) s acts)
    (hend : (run (step owner maxCerts) s acts).calls p=none) : ∃ full as,
      ((run (step owner maxCerts) s acts).links p).Shows
        (Db.step conn ⟨.insertCertWithinQuota full uris,as⟩) := by
  have hstands : Stands s p ⟨row,uris,1,.guard⟩ conn := ⟨hlink,fun _ => rfl,fun _ => Or.inl rfl⟩
  obtain ⟨fin,hfin,full,as,returned,hrun⟩ := call_ends hc hstands hunder hend
  have hconn : Db.step conn ⟨.insertCertWithinQuota full uris,as⟩=fin :=
    congrArg (fun r => r.2.conn) hrun
  exact ⟨full,as,hconn ▸ hfin⟩

end Acts

end FastPki.Certs.Quota
