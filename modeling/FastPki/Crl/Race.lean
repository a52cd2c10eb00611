import FastPki.Crl.Delta

namespace FastPki.Crl
open Certs

/-- A revocation whose handler has read the clock for its date and not yet reached its UPDATE. -/
structure Request where
  serial : String
  reason : Int
  date : Int

/-- A delta CRL, with the table it read. -/
structure DeltaRead where
  db : Inventory
  crl : CrlDoc

/-- One full generation, delta generations for its number, and revocations, all under way. -/
structure Race where
  db : Inventory
  clock : Int
  requests : List Request
  number : Option Int
  full : Option CrlDoc
  deltas : List DeltaRead

inductive RaceAct where
  | tick (seconds : Nat)
  /-- A handler reads the clock. -/
  | ask (serial : String) (reason : Int)
  /-- A handler executes its UPDATE. -/
  | execute (i : Nat)
  /-- The full generation takes its number. -/
  | fullNumber
  /-- The full generation reads its rows. -/
  | fullRead
  /-- A delta generation with that number as its base reads its rows. -/
  | deltaRead

/-- One step for the CA instance `x`; `days` is the configured time to the next update. -/
def raceStep (days : Int) (x : String) (s : Race) : RaceAct → Race
  | .tick seconds => { s with clock := s.clock+seconds }
  | .ask serial reason => { s with requests := s.requests++[⟨serial,reason,s.clock⟩] }
  | .execute i =>
    match s.requests[i]? with
    | none => s
    | some r => { s with db := (s.db.revokeCert r.serial r.reason r.date).1
                         requests := s.requests.eraseIdx i }
  | .fullNumber => if s.number.isNone then { s with number := some s.clock } else s
  | .fullRead =>
    match s.number,s.full with
    | some n,none => { s with full := some (generateCrl days s.db x n 0) }
    | _,_ => s
  | .deltaRead =>
    match s.number with
    | some n => { s with deltas := ⟨s.db,generateCrl days s.db x s.clock n⟩::s.deltas }
    | none => s

/-- Nothing has been generated. -/
def beforeRace (db : Inventory) (clock : Int) : Race := ⟨db,clock,[],none,none,[]⟩

def Listed (k : String) (crl : CrlDoc) : Prop := ∃ e∈crl.entries,serialHex e.serial=k

/-- Whatever was revoked when a delta read its rows is in the full CRL or in that delta. -/
def Complete (x : String) (s : Race) : Prop :=
  ∀ full,s.full=some full → ∀ d∈s.deltas,∀ row∈d.db.rows,
    revoked row.toCertRow=true → covered d.db x row=true → Listed row.serial full ∨ Listed row.serial d.crl

/-- An UPDATE that comes after the full CRL read its rows, with a date below its number, changes
no row of the CA that this CRL does not list. -/
def InTime (x : String) (s : Race) : RaceAct → Prop
  | .execute i => ∀ full r row,s.full=some full → s.requests[i]?=some r → 0<full.number →
      r.date<full.number → s.db.find r.serial=some row → revocable r.reason row.toCertRow=true →
      covered s.db x row=true → Listed row.serial full
  | _ => True

section Listed

variable {db : Inventory} (hspelled : Spelled db) {row : Row} (hrow : row∈db.rows)
  (days now : Int) (x : String)
include hspelled hrow

theorem listed_full : Listed row.serial (generateCrl days db x now 0) ↔
    revoked row.toCertRow=true ∧ covered db x row=true := by
  constructor
  · intro h
    obtain ⟨e,he,hserial⟩ := h
    obtain ⟨row',hfind,hcov,hrev⟩ := (mem_full hspelled).mp he
    rw [hserial,Keyed.find_of_mem hrow] at hfind
    obtain rfl := Option.some.inj hfind
    exact ⟨(revoked_of_revocation hrev).1,hcov⟩
  · intro h
    obtain ⟨n,hn⟩ := hspelled row hrow
    refine ⟨⟨n,row.revocationReason.getD 0,row.revocationDate.getD 0⟩,?_,hn.symm⟩
    refine (mem_full hspelled).mpr ⟨row,?_,h.2,if_pos h.1⟩
    exact Keyed.find_eq_some.mpr ⟨hrow,hn⟩

/-- A delta lists a revoked row exactly when its date is not below the base. -/
theorem listed_delta (hrev : revoked row.toCertRow=true) (hcov : covered db x row=true)
    (base : Int) : Listed row.serial (generateCrl days db x now base) ↔
      0<base → base ≤ row.revocationDate.getD 0 := by
  by_cases hbase : 0<base
  · constructor
    · intro h _
      obtain ⟨e,he,hserial⟩ := h
      obtain ⟨row',hfind,_,hdate,hcase⟩ := (mem_delta hspelled hbase).mp he
      rw [hserial,Keyed.find_of_mem hrow] at hfind
      obtain rfl := Option.some.inj hfind
      obtain hlist|⟨_,_,hd⟩ := hcase
      · rw [(revoked_of_revocation hlist).2.2]
        exact hdate
      · rw [← hd]
        exact hdate
    · intro h
      obtain ⟨n,hn⟩ := hspelled row hrow
      refine ⟨⟨n,row.revocationReason.getD 0,row.revocationDate.getD 0⟩,?_,hn.symm⟩
      refine (mem_delta hspelled hbase).mpr ⟨row,?_,hcov,h hbase,Or.inl (if_pos hrev)⟩
      exact Keyed.find_eq_some.mpr ⟨hrow,hn⟩
  · have hall : crlEntries db x base=crlEntries db x 0 := by simp [crlEntries,hbase]
    have hlisted : Listed row.serial (generateCrl days db x now base) := by
      have hzero := (listed_full hspelled hrow days now x).mpr ⟨hrev,hcov⟩
      simp only [Listed,generateCrl,hall] at hzero ⊢
      exact hzero
    exact iff_of_true hlisted fun hpos => absurd hpos hbase

end Listed

/-- A delta that read its rows now would complete the full CRL. -/
def Caught (x : String) (s : Race) : Prop :=
  ∀ full,s.full=some full → ∀ row∈s.db.rows,
    revoked row.toCertRow=true → covered s.db x row=true →
    Listed row.serial full ∨ (0<full.number → full.number ≤ row.revocationDate.getD 0)

structure RaceInv (x : String) (s : Race) : Prop where
  spelled : Spelled s.db
  number : ∀ full,s.full=some full → s.number=some full.number
  /-- Nothing of what a delta saw revoked is ever undone. -/
  lasts : ∀ d∈s.deltas,∀ row∈d.db.rows,revoked row.toCertRow=true → covered d.db x row=true →
    ∃ now∈s.db.rows,now.serial=row.serial ∧ revoked now.toCertRow=true ∧ covered s.db x now=true

section Step

variable {days : Int} {x : String} {s : Race}

theorem revoked_update {db : Inventory} {row : Row} (hrow : row∈db.rows)
    (hrev : revoked row.toCertRow=true) (x serial : String) (reason date : Int) :
    ∃ now∈(db.revokeCert serial reason date).1.rows,now.serial=row.serial ∧
      revoked now.toCertRow=true ∧
      covered (db.revokeCert serial reason date).1 x now=covered db x row := by
  refine ⟨_,Inventory.mem_modify.mpr ⟨row,hrow,rfl⟩,?_⟩
  simp only [Inventory.revokeCert,Inventory.modifySerial,covered_modify]
  split_ifs
  · exact ⟨rfl,rfl,rfl⟩
  · exact ⟨rfl,hrev,rfl⟩

theorem RaceInv.step (h : RaceInv x s) (days : Int) (a : RaceAct) : RaceInv x (raceStep days x s a) := by
  cases a with
  | tick seconds => exact ⟨h.spelled,h.number,h.lasts⟩
  | ask serial reason => exact ⟨h.spelled,h.number,h.lasts⟩
  | execute i =>
    simp only [raceStep]
    cases s.requests[i]? with
    | none => exact h
    | some r =>
      refine ⟨h.spelled.modify _ _,h.number,?_⟩
      intro d hd row hrow hrev hcov
      obtain ⟨now,hnow,hserial,hrevNow,hcovNow⟩ := h.lasts d hd row hrow hrev hcov
      obtain ⟨later,hlater,hsame,hrevLater,hcovLater⟩ :=
        revoked_update hnow hrevNow x r.serial r.reason r.date
      exact ⟨later,hlater,hsame.trans hserial,hrevLater,hcovLater.trans hcovNow⟩
  | fullNumber =>
    simp only [raceStep]
    split_ifs with hnone
    · refine ⟨h.spelled,?_,h.lasts⟩
      intro full hfull
      have hnumber := h.number full hfull
      rw [hnumber] at hnone
      cases hnone
    · exact h
  | fullRead =>
    simp only [raceStep]
    split
    · next n hn _ =>
      refine ⟨h.spelled,?_,h.lasts⟩
      intro full hfull
      rw [← Option.some.inj hfull]
      exact hn
    · exact h
  | deltaRead =>
    simp only [raceStep]
    split
    · next n hn =>
      refine ⟨h.spelled,h.number,?_⟩
      intro d hd row hrow hrev hcov
      obtain rfl|hd := List.mem_cons.mp hd
      · exact ⟨row,hrow,rfl,hrev,hcov⟩
      · exact h.lasts d hd row hrow hrev hcov
    · exact h

/-- A delta read right now misses nothing exactly when all that is revoked now is caught. -/
theorem complete_deltaRead (h : RaceInv x s) (days : Int) :
    Complete x (raceStep days x s .deltaRead) ↔ Complete x s ∧ Caught x s := by
  simp only [raceStep]
  cases hnumber : s.number with
  | none =>
    have hnone : ∀ full,s.full≠some full := by
      intro full hfull
      have hsome := h.number full hfull
      rw [hnumber] at hsome
      cases hsome
    have hcaught : Caught x s := fun full hfull => absurd hfull (hnone full)
    simp [hcaught]
  | some n =>
    have hbase : ∀ full,s.full=some full → full.number=n := by
      intro full hfull
      exact (Option.some.inj (hnumber.symm.trans (h.number full hfull))).symm
    constructor
    · intro hall
      constructor
      · intro full hfull d hd
        exact hall full hfull d (List.mem_cons_of_mem _ hd)
      · intro full hfull row hrow hrev hcov
        have hlist := hall full hfull _ List.mem_cons_self row hrow hrev hcov
        rw [listed_delta h.spelled hrow days s.clock x hrev hcov] at hlist
        rwa [hbase full hfull]
    · intro hall full hfull d hd row hrow hrev hcov
      obtain rfl|hd := List.mem_cons.mp hd
      · have hlist := hall.2 full hfull row hrow hrev hcov
        rw [hbase full hfull] at hlist
        rwa [listed_delta h.spelled hrow days s.clock x hrev hcov]
      · exact hall.1 full hfull d hd row hrow hrev hcov

/-- An UPDATE leaves everything caught exactly when it comes in time. -/
theorem caught_execute (hcaught : Caught x s) (i : Nat) :
    Caught x (raceStep days x s (.execute i)) ↔ InTime x s (.execute i) := by
  simp only [raceStep,InTime]
  cases hreq : s.requests[i]? with
  | none => simp [hcaught]
  | some r =>
    constructor
    · intro hafter full r' row hfull hr hpos hdate hfind hrevocable hcov
      obtain rfl := Option.some.inj hr
      obtain ⟨hrow,hserial⟩ := Keyed.find_eq_some.mp hfind
      have hmem : { row with toCertRow := ⟨some (-1),some r.reason,some r.date,row.notAfter⟩ }∈
          (s.db.revokeCert r.serial r.reason r.date).1.rows :=
        Inventory.mem_modify.mpr ⟨row,hrow,by simp [hserial,hrevocable]⟩
      have hcov' : covered (s.db.revokeCert r.serial r.reason r.date).1 x
          { row with toCertRow := ⟨some (-1),some r.reason,some r.date,row.notAfter⟩ }=true :=
        (covered_modify _ _ _ _ _).trans hcov
      obtain hlist|hnew := hafter full hfull _ hmem rfl hcov'
      · exact hlist
      · have hge : full.number ≤ r.date := hnew hpos
        omega
    · intro hintime full hfull row hrow hrev hcov
      obtain ⟨r0,hr0,rfl⟩ := Inventory.mem_modify.mp hrow
      by_cases hhit : r0.serial=r.serial ∧ revocable r.reason r0.toCertRow=true
      · have hcov0 : covered s.db x r0=true := by
          rw [← hcov]
          simp only [Inventory.revokeCert,Inventory.modifySerial,covered_modify,hhit]
          rfl
        simp only [hhit,and_self,decide_true,if_true]
        by_cases hlate : 0<full.number ∧ r.date<full.number
        · have hfind : s.db.find r.serial=some r0 := Keyed.find_eq_some.mpr ⟨hr0,hhit.1⟩
          have hlist := hintime full r r0 hfull rfl hlate.1 hlate.2 hfind hhit.2 hcov0
          rw [hhit.1] at hlist
          exact Or.inl hlist
        · right
          intro hpos
          simp only [Option.getD_some]
          omega
      · simp only [hhit,decide_false,Bool.false_eq_true,if_false] at hrev hcov ⊢
        rw [Inventory.revokeCert,Inventory.modifySerial,covered_modify] at hcov
        exact hcaught full hfull r0 hr0 hrev hcov

/-- The full CRL lists all that is revoked when it reads its rows, hence what deltas saw. -/
theorem complete_fullRead (h : RaceInv x s) (hcomplete : Complete x s) (hcaught : Caught x s) :
    Complete x (raceStep days x s .fullRead) ∧ Caught x (raceStep days x s .fullRead) := by
  simp only [raceStep]
  split
  · next n hn _ =>
    constructor
    · intro full hfull d hd row hrow hrev hcov
      obtain rfl := Option.some.inj hfull
      obtain ⟨now,hnow,hserial,hrevNow,hcovNow⟩ := h.lasts d hd row hrow hrev hcov
      rw [← hserial]
      exact Or.inl ((listed_full h.spelled hnow days n x).mpr ⟨hrevNow,hcovNow⟩)
    · intro full hfull row hrow hrev hcov
      obtain rfl := Option.some.inj hfull
      exact Or.inl ((listed_full h.spelled hrow days n x).mpr ⟨hrev,hcov⟩)
  · exact ⟨hcomplete,hcaught⟩

theorem race_step_iff (a : RaceAct) (h : RaceInv x s ∧ Complete x s ∧ Caught x s) :
    (RaceInv x (raceStep days x s a) ∧ Complete x (raceStep days x s a) ∧
      Caught x (raceStep days x s a)) ↔ InTime x s a := by
  obtain ⟨hinv,hcomplete,hcaught⟩ := h
  have hstep := hinv.step days a
  cases a with
  | tick seconds => exact iff_of_true ⟨hstep,hcomplete,hcaught⟩ trivial
  | ask serial reason => exact iff_of_true ⟨hstep,hcomplete,hcaught⟩ trivial
  | execute i =>
    have hsame : Complete x (raceStep days x s (.execute i)) := by
      simp only [raceStep]
      split
      · exact hcomplete
      · exact hcomplete
    simp only [hstep,hsame,true_and]
    exact caught_execute hcaught i
  | fullNumber =>
    refine iff_of_true ⟨hstep,?_⟩ trivial
    simp only [raceStep]
    split_ifs
    · exact ⟨hcomplete,hcaught⟩
    · exact ⟨hcomplete,hcaught⟩
  | fullRead => exact iff_of_true ⟨hstep,complete_fullRead hinv hcomplete hcaught⟩ trivial
  | deltaRead =>
    have hread := (complete_deltaRead hinv days).mpr ⟨hcomplete,hcaught⟩
    refine iff_of_true ⟨hstep,hread,?_⟩ trivial
    simp only [raceStep]
    split
    · exact hcaught
    · exact hcaught

end Step

theorem beforeRace_inv {db : Inventory} (hspelled : Spelled db) (x : String) (clock : Int) :
    RaceInv x (beforeRace db clock) where
  spelled := hspelled
  number full hfull := by cases hfull
  lasts d hd := by cases hd

/-- A delta that reads its rows after any part of the run, and every delta of that part, completes
the full CRL, exactly when every UPDATE of the run comes in time. -/
theorem deltas_complete_iff (days : Int) (x : String) (db : Inventory) (hspelled : Spelled db)
    (clock : Int) (as : List RaceAct) :
    (∀ k,Complete x (raceStep days x (run (raceStep days x) (beforeRace db clock) (as.take k))
      .deltaRead)) ↔ Along (raceStep days x) (InTime x) (beforeRace db clock) as := by
  have hstart := beforeRace_inv hspelled x clock
  have hcomplete : Complete x (beforeRace db clock) := by intro full hfull; cases hfull
  have hcaught : Caught x (beforeRace db clock) := by intro full hfull; cases hfull
  rw [← forall_take_iff_along (P := fun s => RaceInv x s ∧ Complete x s ∧ Caught x s)
    (fun s a h => race_step_iff a h) as ⟨hstart,hcomplete,hcaught⟩]
  apply forall_congr'
  intro k
  have hinv := run_invariant (I := RaceInv x) (fun s a h => h.step days a) hstart (as.take k)
  rw [complete_deltaRead hinv days]
  simp only [hinv,true_and]

def oneLeafRows : List Row := [leafRow 31]

theorem oneLeafRows_distinct : (oneLeafRows.map Row.serial).Nodup := by decide

def oneLeaf : Inventory := ⟨oneLeafRows,oneLeafRows_distinct⟩

theorem oneLeaf_spelled : Spelled oneLeaf := by
  intro row hrow
  rw [List.mem_singleton.mp hrow]
  exact ⟨31,rfl⟩

theorem deltas_complete_in_time : Spelled oneLeaf ∧ ∀ k,Complete "sub"
    (raceStep 7 "sub" (run (raceStep 7 "sub") (beforeRace oneLeaf 999)
      ([.fullNumber,.tick 1,.fullRead,.ask (serialHex 31) 1,.execute 0,.deltaRead].take k))
      .deltaRead) := by
  refine ⟨oneLeaf_spelled,(deltas_complete_iff 7 "sub" oneLeaf oneLeaf_spelled 999 _).mpr ?_⟩
  refine ⟨trivial,trivial,trivial,trivial,?_,trivial,trivial⟩
  intro full r row hfull hr _ hdate
  obtain rfl := Option.some.inj hfull
  obtain rfl := Option.some.inj hr
  exact absurd hdate (by decide)

/-- The handler reads the clock in the second before the full CRL takes its number, and its UPDATE
comes after the full CRL has read the rows: neither CRL lists the revoked certificate. -/
theorem revocation_in_neither_crl : ¬Complete "sub"
    (run (raceStep 7 "sub") (beforeRace oneLeaf 999)
      [.ask (serialHex 31) 1,.tick 1,.fullNumber,.fullRead,.execute 0,.deltaRead]) := by
  intro h
  have hnone : ∀ k crl,crl.entries=[] → ¬Listed k crl := by
    intro k crl hempty hlist
    obtain ⟨e,he,_⟩ := hlist
    rw [hempty] at he
    cases he
  have hmiss := h _ rfl _ List.mem_cons_self
    { leafRow 31 with toCertRow := ⟨some (-1),some 1,some 999,some 9000⟩ } (by decide) rfl (by decide)
  obtain hfull|hdelta := hmiss
  · exact hnone _ _ (by decide) hfull
  · exact hnone _ _ (by decide) hdelta

end FastPki.Crl
