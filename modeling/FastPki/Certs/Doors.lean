import FastPki.Certs.Quota

namespace FastPki.Certs.Doors

open Quota (Site Outcome)

/-- The handlers that issue to a user: EST `do_enroll` and `handle_serverkeygen`, SCEP
`handle_pkcsreq` with a per-user challenge and as a renewal. -/
inductive Route where
  | simpleenroll
  | serverkeygen
  | pkcsReq
  | renewal
  deriving DecidableEq

/-- A request under way: `checked` once `role_limit_refusal` has let it pass. -/
structure Request where
  route : Route
  row : Row
  uris : Nat
  checked : Bool
  deriving DecidableEq

/-- The handlers at work, over the database that they share. -/
structure Hall where
  site : Site
  desks : Nat → Option Request

/-- The steps of the handlers, and those of the calls that they have made. `leave` is any other
refusal or failure. -/
inductive Act where
  | arrive (h : Nat) (route : Route) (row : Row) (uris : Nat)
  | check (h : Nat)
  | leave (h : Nat)
  | insert (h p : Nat) (reconnect o : Outcome)
  | quota (a : Quota.Act)

/-- The columns that every handler writes alike. -/
def ownRow (owner : String) (row : Row) : Row :=
  { row with owner := owner, certId := none, status := some 0 }

/-- A renewal carries no challenge, and without a user there is nothing to count. -/
def unchecked (owner : String) (route : Route) : Bool := route = .renewal ∨ owner = ""

/-- Where the cap is decided with the write. -/
def counted (owner : String) (route : Route) : Bool :=
  (route = .simpleenroll ∨ route = .pkcsReq) ∧ owner ≠ ""

/-- The row that a plain INSERT adds, which is a transaction of its own. -/
def landing (s : Site) (p : Nat) (row : Row) (o : Outcome) : Option Row :=
  if s.links p = .ok .idle ∧ (o = .ok ∨ o = .drop true) ∧ (s.db.getCert row.serial).isNone then
    some row
  else none

/-- The same behind the `ConnGuard`. -/
def added (s : Site) (p : Nat) (row : Row) (reconnect o : Outcome) : Option Row :=
  if (s.ensureConn p reconnect).2 then landing (s.ensureConn p reconnect).1 p row o else none

/-- `insert_cert`. -/
def plainInsert (s : Site) (p : Nat) (row : Row) (reconnect o : Outcome) : Site :=
  let r := s.ensureConn p reconnect
  if r.2 then
    (((landing r.1 p row o).elim r.1 r.1.store).query p .other
      (r.1.db.getCert row.serial).isNone o).1
  else s

section Step

variable (owner : String) (maxCerts : Int)

/-- The request that this action brings to its plain INSERT. -/
def plainAt (s : Hall) (h p : Nat) : Option Request :=
  (s.desks h).filter fun req =>
    req.checked ∧ s.site.calls p = none ∧ ¬counted owner req.route

/-- The row that this action adds without counting. -/
def addsPlain (s : Hall) : Act → Option Row
  | .insert h p reconnect o => (plainAt owner s h p).bind fun req =>
      added s.site p (ownRow owner req.row) reconnect o
  | _ => none

def Hall.sit (s : Hall) (h : Nat) (req : Option Request) : Hall :=
  { s with desks := Function.update s.desks h req }

/-- The row that this action stores. -/
def stores (s : Hall) (a : Act) : Option Row :=
  match a with
  | .quota a => Quota.commits s.site a
  | a => addsPlain owner s a

def step (s : Hall) : Act → Hall
  | .arrive h route row uris =>
    if s.desks h = none then s.sit h (some ⟨route,row,uris,unchecked owner route⟩) else s
  | .check h =>
    if (s.site.db.countActiveForOwner owner : Int) ≥ maxCerts then s.sit h none
    else s.sit h ((s.desks h).map fun req => { req with checked := true })
  | .leave h => s.sit h none
  | .insert h p reconnect o =>
    match s.desks h with
    | none => s
    | some req =>
      if req.checked ∧ s.site.calls p = none then
        { s.sit h none with
          site := if counted owner req.route then
              Quota.step owner maxCerts s.site (.call p (ownRow owner req.row) req.uris)
            else plainInsert s.site p (ownRow owner req.row) reconnect o }
      else s
  -- a call is made by a handler alone
  | .quota (.call _ _ _) => s
  | .quota a => { s with site := Quota.step owner maxCerts s.site a }

end Step

/-- One row more is promised to a call that has counted and not committed. -/
def reserved (s : Site) : Int :=
  match s.holder with
  | some p => if (s.calls p).any (·.stage.pastCount) then 1 else 0
  | none => 0

/-- A row that is added without counting finds room, beside the row that a counted call is about to
add. -/
def Room (owner : String) (maxCerts : Int) (s : Hall) (a : Act) : Prop :=
  ∀ row∈addsPlain owner s a,
    (s.site.db.countActiveForOwner owner : Int)+reserved s.site < maxCerts

instance (owner : String) (maxCerts : Int) (s : Hall) (a : Act) :
    Decidable (Room owner maxCerts s a) :=
  inferInstanceAs (Decidable (∀ row∈addsPlain owner s a,_))

/-- What an action stores leaves the user within the cap. -/
def Capped (owner : String) (maxCerts : Int) (s : Hall) (a : Act) : Prop :=
  ∀ row∈stores owner s a,
    ((step owner maxCerts s a).site.db.countActiveForOwner owner : Int) ≤ maxCerts

instance (owner : String) (maxCerts : Int) (s : Hall) (a : Act) :
    Decidable (Capped owner maxCerts s a) :=
  inferInstanceAs (Decidable (∀ row∈stores owner s a,_))

def start (db : Inventory) (links : Nat → Quota.Link) : Hall :=
  ⟨Quota.start db links,fun _ => none⟩

section Plain

variable {owner : String} {maxCerts : Int} {s : Site} {p : Nat} {row : Row} {reconnect o : Outcome}

/-- A plain INSERT touches its own connection, and adds the row that lands. -/
theorem plainInsert_frame : Quota.Frame p s (plainInsert s p row reconnect o) := by
  simp only [plainInsert]
  split_ifs
  · refine (Quota.frame_ensureConn s p reconnect).trans (.trans ?_ (Quota.frame_query ..))
    cases landing (s.ensureConn p reconnect).1 p row o with
    | none => exact Quota.Frame.refl _ p
    | some row => exact ⟨fun _ _ => rfl,fun _ _ => rfl,fun _ _ hs => hs⟩
  · exact Quota.Frame.refl s p

theorem plainInsert_calls : (plainInsert s p row reconnect o).calls=s.calls := by
  simp only [plainInsert]
  split_ifs
  · rw [Quota.query_calls]
    cases landing (s.ensureConn p reconnect).1 p row o with
    | none => exact Quota.ensureConn_calls s p reconnect
    | some row => exact Quota.ensureConn_calls s p reconnect
  · rfl

theorem plainInsert_db : (plainInsert s p row reconnect o).db=
    (added s p row reconnect o).elim s.db fun r => (s.db.insertCert r).getD s.db := by
  simp only [plainInsert,added]
  split_ifs
  · rw [Quota.query_db]
    have hdb := Quota.ensureConn_db s p reconnect
    cases landing (s.ensureConn p reconnect).1 p row o with
    | none => exact hdb
    | some r => simp only [Option.elim_some,Site.store,hdb]
  · rfl

end Plain

section Inv

variable {owner : String} {maxCerts : Int} {s : Hall}

theorem reserved_nonneg (s : Site) : 0 ≤ reserved s := by
  simp only [reserved]
  split
  · split_ifs <;> omega
  · omega

theorem reserved_of_pastCount {s : Site} {p : Nat} {c : Quota.Call} (hc : c∈s.calls p)
    (hpast : c.stage.pastCount=true) (hholder : s.holder=some p) : reserved s=1 := by
  rw [Option.mem_def] at hc
  simp [reserved,hholder,hc,hpast]

/-- A plain INSERT adds one row where it lands, and none where it does not. -/
theorem plainInsert_count {s : Site} {p : Nat} {row : Row} {reconnect o : Outcome} :
    (plainInsert s p row reconnect o).db.countActiveForOwner owner≤
      s.db.countActiveForOwner owner+
        (if (added s p row reconnect o).isSome then 1 else 0) := by
  rw [plainInsert_db]
  cases added s p row reconnect o with
  | none => exact le_rfl
  | some r => exact s.db.countActiveForOwner_insertCert_le owner r

theorem inv_plainInsert {p : Nat} {row : Row} {reconnect o : Outcome}
    (h : Quota.Inv owner maxCerts s.site) (hidle : s.site.calls p=none)
    (hroom : (added s.site p row reconnect o).isSome=true →
      (s.site.db.countActiveForOwner owner : Int)+reserved s.site < maxCerts) :
    Quota.Inv owner maxCerts (plainInsert s.site p row reconnect o) := by
  intro q c hc
  rw [plainInsert_calls] at hc
  have hq : q≠p := by
    rintro rfl
    rw [hidle] at hc
    cases hc
  have hframe := @plainInsert_frame s.site p row reconnect o
  refine (h q c hc).keep_room (hframe.links q hq) (hframe.holder q hq) fun hpast hholder hlt => ?_
  have hcount := @plainInsert_count owner s.site p row reconnect o
  split_ifs at hcount with hadded
  · -- the row of this call is still to come
    have hone := hroom hadded
    rw [reserved_of_pastCount hc hpast hholder] at hone
    omega
  · omega

/-- What an action does to the database: it is one of the calls, or a plain INSERT on a connection
that no call uses, or nothing. -/
theorem step_site (s : Hall) (a : Act) :
    (step owner maxCerts s a).site=s.site ∧ stores owner s a=none ∨
    (∃ b,(step owner maxCerts s a).site=Quota.step owner maxCerts s.site b ∧
      stores owner s a=Quota.commits s.site b) ∨
    ∃ p row reconnect o,s.site.calls p=none ∧
      (step owner maxCerts s a).site=plainInsert s.site p row reconnect o ∧
      stores owner s a=added s.site p row reconnect o ∧
      addsPlain owner s a=added s.site p row reconnect o := by
  cases a with
  | arrive h route row uris =>
    left
    simp only [step]
    split_ifs
    · exact ⟨rfl,rfl⟩
    · exact ⟨rfl,rfl⟩
  | check h =>
    left
    simp only [step]
    split_ifs
    · exact ⟨rfl,rfl⟩
    · exact ⟨rfl,rfl⟩
  | leave h => exact Or.inl ⟨rfl,rfl⟩
  | quota b =>
    cases b with
    | call p row uris => exact Or.inl ⟨rfl,rfl⟩
    | run p o => exact Or.inr (Or.inl ⟨.run p o,rfl,rfl⟩)
    | sever p => exact Or.inr (Or.inl ⟨.sever p,rfl,rfl⟩)
    | rollback p => exact Or.inr (Or.inl ⟨.rollback p,rfl,rfl⟩)
    | revoke serial reason whenUnix => exact Or.inr (Or.inl ⟨.revoke serial reason whenUnix,rfl,rfl⟩)
    | markExpired now => exact Or.inr (Or.inl ⟨.markExpired now,rfl,rfl⟩)
  | insert h p reconnect o =>
    simp only [step,stores,addsPlain,plainAt]
    cases hdesk : s.desks h with
    | none => exact Or.inl ⟨rfl,rfl⟩
    | some req =>
      simp only [Option.filter_some]
      by_cases hready : req.checked=true ∧ s.site.calls p=none
      · by_cases hcounted : counted owner req.route=true
        · refine Or.inr (Or.inl ⟨.call p (ownRow owner req.row) req.uris,?_,?_⟩)
          · simp [hready,hcounted]
          · simp [hcounted,Quota.commits]
        · refine Or.inr (Or.inr ⟨p,ownRow owner req.row,reconnect,o,hready.2,?_,?_,?_⟩)
          · simp [hready,hcounted]
          · simp [hready,hcounted]
          · simp [hready,hcounted]
      · refine Or.inl ⟨by simp [hready],?_⟩
        rw [if_neg]
        · rfl
        · simp only [decide_eq_true_eq]
          exact fun hall => hready ⟨hall.1,hall.2.1⟩

theorem inv_step {a : Act} (h : Quota.Inv owner maxCerts s.site) (hroom : Room owner maxCerts s a) :
    Quota.Inv owner maxCerts (step owner maxCerts s a).site := by
  obtain ⟨hsite,_⟩|⟨b,hsite,_⟩|⟨p,row,reconnect,o,hidle,hsite,_,hplain⟩ :=
    @step_site owner maxCerts s a
  · rwa [hsite]
  · rw [hsite]
    exact Quota.inv_step h b
  · rw [hsite]
    refine inv_plainInsert h hidle fun hadded => ?_
    obtain ⟨r,hr⟩ := Option.isSome_iff_exists.mp hadded
    exact hroom r (hplain.trans hr)

theorem capped_step {a : Act} (h : Quota.Inv owner maxCerts s.site)
    (hroom : Room owner maxCerts s a) : Capped owner maxCerts s a := by
  intro row hrow
  obtain ⟨_,hnone⟩|⟨b,hsite,hstores⟩|⟨p,r,reconnect,o,_,hsite,hstores,hplain⟩ :=
    @step_site owner maxCerts s a
  · rw [hnone] at hrow
    cases hrow
  · rw [hstores] at hrow
    rw [hsite]
    exact Quota.commit_within_cap h hrow
  · rw [hstores] at hrow
    have hlt := hroom row (hplain.trans hrow)
    have hcount := @plainInsert_count owner s.site p r reconnect o
    have hnonneg := reserved_nonneg s.site
    rw [hrow,Option.isSome_some,if_pos rfl] at hcount
    rw [hsite]
    omega

end Inv

/-- Where every row that is stored without counting finds room, beside the row that a counted call
is about to store, whatever a handler stores leaves the user within the cap. -/
theorem doors_share_the_cap (owner : String) (maxCerts : Int) (db : Inventory)
    (links : Nat → Quota.Link) (as : List Act)
    (hroom : Along (step owner maxCerts) (Room owner maxCerts) (start db links) as) :
    Along (step owner maxCerts) (Capped owner maxCerts) (start db links) as := by
  refine hroom.imp (I := fun s => Quota.Inv owner maxCerts s.site) (fun s a h hr => inv_step h hr)
    (fun s a h hr => capped_step h hr) ?_
  intro p c hc
  cases hc

/-- A row of the user alice, as a handler stores it. -/
def aliceRow (serial : String) : Row where
  status := some 0
  revocationReason := none
  revocationDate := none
  notAfter := none
  serial := serial
  notBefore := none
  owner := "alice"
  cert := []
  caInstanceId := some "east"
  sHash := none
  iHash := none
  isCa := false
  id := none
  caEnabled := none
  privateKey := ""
  certId := none
  insSeq := none

def idle : Nat → Quota.Link := fun _ => .ok .idle

/-- An enrolment, counted from its BEGIN to its COMMIT. -/
def enrolment : List Act :=
  [Act.arrive 0 .simpleenroll (aliceRow "1") 0,Act.check 0,Act.insert 0 0 .ok .ok]++
    List.replicate 8 (Act.quota (.run 0 .ok))

def keygen (h : Nat) (serial : String) : List Act :=
  [Act.arrive h .serverkeygen (aliceRow serial) 0,Act.check h,Act.insert h 1 .ok .ok]

/-- One certificate through each of two doors, under a cap of two. -/
theorem doors_share_the_cap_twice :
    Along (step "alice" 2) (Room "alice" 2) (start ⟨[],by simp⟩ idle) (enrolment++keygen 1 "2") ∧
      Along (step "alice" 2) (Capped "alice" 2) (start ⟨[],by simp⟩ idle)
        (enrolment++keygen 1 "2") := by
  have hroom : Along (step "alice" 2) (Room "alice" 2) (start ⟨[],by simp⟩ idle)
      (enrolment++keygen 1 "2") := by
    decide
  exact ⟨hroom,doors_share_the_cap "alice" 2 _ idle _ hroom⟩

/-- A renewal adds to the certificate that it renews. -/
def renewed : List Act := [Act.arrive 2 .renewal (aliceRow "3") 0,Act.insert 2 1 .ok .ok]

/-- After an enrolment that takes the whole cap of one, a renewal stores a second certificate; and
two requests for a server key pass their checks together. -/
theorem doors_exceed_the_cap :
    ¬Along (step "alice" 1) (Capped "alice" 1) (start ⟨[],by simp⟩ idle) (enrolment++renewed) ∧
      ¬Along (step "alice" 1) (Capped "alice" 1) (start ⟨[],by simp⟩ idle)
        ((keygen 1 "2").take 2++(keygen 2 "3").take 2++(keygen 1 "2").drop 2++
          (keygen 2 "3").drop 2) := by
  constructor
  · decide
  · decide

end FastPki.Certs.Doors
