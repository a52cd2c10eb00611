import FastPki.Crl.Race

namespace FastPki.Crl
open Certs Tls

/-- The row of `crls` for the full CRL of one CA; `crl` is none where the octets do not parse. -/
structure StoredCrl where
  crl : Option CrlDoc
  crlNumber : Int
  thisUpdate : Int
  nextUpdate : Int
  importedBy : String

/-- `crl_revocation_fingerprint` of octets that parse: serial and reason of every entry. -/
def crlRevocationFingerprint (crl : CrlDoc) : String :=
  String.join (crl.entries.map fun e =>
    bnBn2hex e.serial++":"++(if e.reason = 0 then "" else toString e.reason)++",")

/-- Whether `publish_generated_crl` replaces this row at this time. -/
def replaces (stored : Option StoredCrl) (crl : CrlDoc) (now : Int) : Bool :=
  match stored with
  | none => true
  | some row =>
    let sameContent := row.crl.any fun old =>
      crlRevocationFingerprint old ≠ "" ∧ crlRevocationFingerprint old = crlRevocationFingerprint crl
    let stillFresh : Bool := row.nextUpdate > 0 ∧ row.thisUpdate > 0 ∧
      now < row.thisUpdate+(row.nextUpdate-row.thisUpdate).tdiv 2
    !(sameContent && stillFresh)

/-- Where a process stands in `CrlCache::get`. `readAt` counts the reads of the rows before it. -/
inductive Stage where
  | idle
  | generate (now : Int)
  | numbered (now number : Int)
  | publish (crl : CrlDoc) (readAt : Nat)
  | look (crl : CrlDoc) (readAt : Nat) (now : Int)
  | write (crl : CrlDoc) (readAt : Nat)

/-- The number the process has taken for the CRL it is about to publish. -/
def Stage.number : Stage → Option Int
  | .numbered _ number => some number
  | .publish crl _ | .look crl _ _ | .write crl _ => some crl.number
  | _ => none

/-- The CRL the process is about to publish, and when its rows were read. -/
def Stage.doc : Stage → Option (CrlDoc × Nat)
  | .publish crl readAt | .look crl readAt _ | .write crl readAt => some (crl,readAt)
  | _ => none

/-- A process with its `CrlCache` entry for the CA. -/
structure Process where
  ttl : Int
  datacenterId : String
  cached : Option CrlDoc
  generatedAt : Int
  stage : Stage

/-- The processes that share one database. `revokedAt` keeps, for every serial, how many reads of
the rows there were when its certificate was last revoked. -/
structure Site extends State where
  stored : Option StoredCrl
  procs : Nat → Process
  reads : Nat
  revokedAt : String → Nat

inductive SiteAct where
  /-- Other writers of the table, and time. -/
  | other (a : Act)
  /-- The next step of a process; `fails` is true when the call it makes throws. -/
  | proc (i : Nat) (fails : Bool)

def importedBy (p : Process) : String :=
  if p.datacenterId = "" then "generated" else "generated:"++p.datacenterId

def storedRow (p : Process) (crl : CrlDoc) : StoredCrl :=
  ⟨some crl,crl.number,crl.thisUpdate,crl.nextUpdate,importedBy p⟩

def Site.to (s : Site) (i : Nat) (p : Process) (stage : Stage) : Site :=
  { s with procs := Function.update s.procs i { p with stage := stage } }

/-- One step of `CrlCache::get` for the CA `x`, with what it calls. -/
def Site.advance (days : Int) (x : String) (s : Site) (i : Nat) (fails : Bool) : Site :=
  let p := s.procs i
  match p.stage with
  | .idle =>
    if p.cached.isNone ∨ p.ttl ≤ 0 ∨ s.clock-p.generatedAt ≥ p.ttl then s.to i p (.generate s.clock)
    else s
  | .generate now => if fails then s.to i p .idle else s.to i p (.numbered now s.clock)
  | .numbered now number =>
    if fails then s.to i p .idle
    else
      let crl := generateCrl days s.db x number 0
      { s.to i { p with cached := some crl,generatedAt := now } (.publish crl s.reads) with
        reads := s.reads+1 }
  | .publish crl readAt =>
    if x = "" then s.to i p .idle else s.to i p (.look crl readAt s.clock)
  | .look crl readAt now =>
    if fails then s.to i p .idle
    else if replaces s.stored crl now then s.to i p (.write crl readAt) else s.to i p .idle
  | .write crl _ =>
    if fails then s.to i p .idle else { s.to i p .idle with stored := some (storedRow p crl) }

/-- Whether the table has the certificate of this serial as revoked, on hold or for good. -/
def revokedIn (db : Inventory) (k : String) : Bool :=
  (db.find k).any fun row => revoked row.toCertRow

def siteStep (days : Int) (x : String) (s : Site) : SiteAct → Site
  | .other a =>
    let t := step s.toState a
    { s with
      toState := t
      revokedAt := fun k =>
        if revokedIn t.db k && !revokedIn s.db k then s.reads else s.revokedAt k }
  | .proc i fails => s.advance days x i fails

/-- The certificate of this serial is revoked, and not on hold. -/
def ForGood (db : Inventory) (k : String) : Prop :=
  ∃ row,db.find k=some row ∧ revoked row.toCertRow=true ∧ row.revocationReason.getD 0≠6

/-- Every certificate that is revoked for good and listed by the old CRL is listed by the new. -/
def Carries (db : Inventory) (old new : CrlDoc) : Prop :=
  ∀ k,ForGood db k → Listed k old → Listed k new

/-- What a step puts in place of the stored row is not behind it. -/
def Forward (s t : Site) : Prop :=
  ∀ old new,s.stored=some old → t.stored=some new → old.crlNumber≤new.crlNumber ∧
    ∀ crl,old.crl=some crl → ∃ crl',new.crl=some crl' ∧ Carries s.db crl crl'

/-- No certificate that the stored row lists and that is revoked for good was revoked after the
rows of this read. -/
def ReadSince (s : Site) (readAt : Nat) : Prop :=
  ∀ row crl,s.stored=some row → row.crl=some crl → ∀ k,ForGood s.db k → Listed k crl →
    s.revokedAt k ≤ readAt

/-- Rows enter the table unrevoked; and when a process writes the row, no certificate of the row
there is was revoked since it read its rows, and no other process is under way to write one that
it numbered earlier or whose rows it read earlier. -/
def NoneBehind (s : Site) : SiteAct → Prop
  | .other a => Admitted a
  | .proc i fails => ∀ crl readAt,(s.procs i).stage=.write crl readAt → fails=false →
      ReadSince s readAt ∧
      ∀ j,j≠i → (∀ n,(s.procs j).stage.number=some n → crl.number≤n) ∧
        ∀ d,(s.procs j).stage.doc=some d → readAt<d.2

/-- The table has the certificate of this serial, and the CRL of the CA covers it. -/
def Held (x : String) (db : Inventory) (k : String) : Prop :=
  ∃ row,db.find k=some row ∧ covered db x row=true

/-- The new CRL, of rows read at this time, lists what the old one lists and what is revoked now,
unless it was revoked later. -/
def Keeps (s : Site) (old new : CrlDoc) (readAt : Nat) : Prop :=
  ∀ k,Listed k old → revokedIn s.db k=true → s.revokedAt k ≤ readAt → Listed k new

section Held

variable {x : String} {db : Inventory} {k : String}

theorem Held.modify (h : Held x db k) (cond : Row → Bool) (set : CertRow → CertRow) :
    Held x (db.modify cond set) k := by
  obtain ⟨row,hfind,hcov⟩ := h
  refine ⟨_,by rw [Inventory.find_modify,hfind]; rfl,?_⟩
  rw [covered_modify]
  -- an UPDATE changes the columns of the status, none of those that decide the CA
  dsimp only
  split_ifs
  · exact hcov
  · exact hcov

theorem Held.insert (h : Held x db k) {row : Row} {u : Inventory}
    (hins : db.insertCert row=some u) : Held x u k := by
  obtain ⟨r,hfind,hcov⟩ := h
  obtain ⟨hr,hkey⟩ := Keyed.find_eq_some.mp hfind
  have hne : row.serial≠k := fun hk => (Keyed.insert_eq_some hins).1 r hr (hkey.trans hk.symm)
  refine ⟨r,?_,covered_insert hins hcov⟩
  rw [Keyed.find_insert hins,if_neg hne]
  exact hfind

theorem Held.step {s : State} (h : Held x s.db k) (a : Act) : Held x (step s a).db k := by
  cases a with
  | tick seconds => exact h
  | insertCert row =>
    simp only [Crl.step]
    cases hins : s.db.insertCert row with
    | none => exact h
    | some u => exact h.insert hins
  | revokeCert serial reason => exact h.modify _ _
  | releaseHold serial => exact h.modify _ _
  | markExpiredNow => exact h.modify _ _

theorem ForGood.revokedIn (h : ForGood db k) : revokedIn db k=true := by
  obtain ⟨row,hfind,hrev,_⟩ := h
  rw [Crl.revokedIn,hfind]
  exact hrev

/-- A CRL made now lists what is revoked now, of the certificates of its CA. -/
theorem Held.listed (hspelled : Spelled db) (h : Held x db k) (hrev : revokedIn db k=true)
    (days number : Int) : Listed k (generateCrl days db x number 0) := by
  obtain ⟨row,hfind,hcov⟩ := h
  rw [revokedIn,hfind] at hrev
  obtain ⟨hrow,hserial⟩ := Keyed.find_eq_some.mp hfind
  rw [← hserial]
  exact (listed_full hspelled hrow days number x).mpr ⟨hrev,hcov⟩

theorem held_of_listed (hspelled : Spelled db) {days number : Int}
    (h : Listed k (generateCrl days db x number 0)) : Held x db k := by
  obtain ⟨e,he,rfl⟩ := h
  obtain ⟨row,hfind,hcov,_⟩ := (mem_full hspelled).mp he
  exact ⟨row,hfind,hcov⟩

end Held

/-- The stored row is not from the future, and lists certificates of its CA in the table. -/
def SoundRow (x : String) (s : State) (row : StoredCrl) : Prop :=
  row.crlNumber ≤ s.clock ∧ ∀ crl,row.crl=some crl → ∀ k,Listed k crl → Held x s.db k

structure SiteInv (x : String) (s : Site) : Prop where
  spelled : Spelled s.db
  clock : ∀ j n,(s.procs j).stage.number=some n → n ≤ s.clock
  reads : ∀ j d,(s.procs j).stage.doc=some d → d.2 < s.reads
  held : ∀ j d,(s.procs j).stage.doc=some d → ∀ k,Listed k d.1 → Held x s.db k
  /-- Of two CRLs under way, the one whose rows were read later keeps the other's entries. -/
  order : ∀ j k d e,(s.procs j).stage.doc=some d → (s.procs k).stage.doc=some e → d.2<e.2 →
    Keeps s d.1 e.1 e.2
  sound : ∀ row,s.stored=some row → SoundRow x s.toState row
  /-- No CRL under way is behind the stored one. -/
  ahead : ∀ row,s.stored=some row → ∀ j,
    (∀ n,(s.procs j).stage.number=some n → row.crlNumber≤n) ∧
      ∀ d crl,(s.procs j).stage.doc=some d → row.crl=some crl → Keeps s crl d.1 d.2

section Step

variable {x : String} {s : Site}

/-- What is revoked by this step was revoked after every read so far. -/
theorem Keeps.other {old new : CrlDoc} {readAt : Nat} (h : Keeps s old new readAt)
    (hread : readAt<s.reads) (days : Int) (a : Act) :
    Keeps (siteStep days x s (.other a)) old new readAt := by
  intro k hold hrev hat
  simp only [siteStep] at hrev hat
  split_ifs at hat with hnew
  · omega
  · have hwas : revokedIn s.db k=true := by
      rw [hrev] at hnew
      simpa using hnew
    exact h k hold hwas hat

theorem SiteInv.other (h : SiteInv x s) {a : Act} (ha : Admitted a) (days : Int) :
    SiteInv x (siteStep days x s (.other a)) := by
  have hclock : s.clock≤(step s.toState a).clock := by
    cases a with
    | tick seconds =>
      simp only [step]
      omega
    | _ => exact le_rfl
  have hspelled : Spelled (step s.toState a).db := by
    cases a with
    | tick seconds => exact h.spelled
    | insertCert row =>
      simp only [step]
      cases hins : s.db.insertCert row with
      | none => exact h.spelled
      | some u =>
        intro r hr
        rw [Option.getD_some,(Keyed.insert_eq_some hins).2] at hr
        obtain hr|hr := List.mem_append.mp hr
        · exact h.spelled r hr
        · rw [List.mem_singleton.mp hr]
          exact ha.2
    | revokeCert serial reason => exact h.spelled.modify _ _
    | releaseHold serial => exact h.spelled.modify _ _
    | markExpiredNow => exact h.spelled.modify _ _
  exact {
    spelled := hspelled
    clock := fun j n hn => (h.clock j n hn).trans hclock
    reads := h.reads
    held := fun j d hd k hk => (h.held j d hd k hk).step a
    order := fun j k d e hd he hlt =>
      (h.order j k d e hd he hlt).other (h.reads k e he) days a
    sound := fun row hrow => ⟨(h.sound row hrow).1.trans hclock,
      fun crl hcrl k hk => ((h.sound row hrow).2 crl hcrl k hk).step a⟩
    ahead := fun row hrow j => ⟨(h.ahead row hrow j).1,fun d crl hd hcrl =>
      ((h.ahead row hrow j).2 d crl hd hcrl).other (h.reads j d hd) days a⟩ }

/-- A process goes on: it drops what it had, keeps it, or takes the time as its number. -/
theorem SiteInv.to (h : SiteInv x s) (i : Nat) (p : Process) {stage : Stage}
    (hnumber : ∀ n,stage.number=some n → (s.procs i).stage.number=some n ∨ n=s.clock)
    (hdoc : ∀ d,stage.doc=some d → (s.procs i).stage.doc=some d) : SiteInv x (s.to i p stage) := by
  have hnum : ∀ j n,((s.to i p stage).procs j).stage.number=some n →
      (s.procs j).stage.number=some n ∨ n=s.clock := by
    intro j n hn
    by_cases hj : j=i
    · subst hj
      exact hnumber n (by simpa [Site.to] using hn)
    · exact Or.inl (by simpa [Site.to,Function.update_of_ne hj] using hn)
  have hd : ∀ j d,((s.to i p stage).procs j).stage.doc=some d →
      (s.procs j).stage.doc=some d := by
    intro j d hd
    by_cases hj : j=i
    · subst hj
      exact hdoc d (by simpa [Site.to] using hd)
    · simpa [Site.to,Function.update_of_ne hj] using hd
  refine ⟨h.spelled,?_,?_,?_,?_,h.sound,?_⟩
  · intro j n hn
    obtain hold|rfl := hnum j n hn
    · exact h.clock j n hold
    · exact le_rfl
  · exact fun j d hdj => h.reads j d (hd j d hdj)
  · exact fun j d hdj => h.held j d (hd j d hdj)
  · exact fun j k d e hdj hek => h.order j k d e (hd j d hdj) (hd k e hek)
  · intro row hrow j
    refine ⟨fun n hn => ?_,fun d crl hdj hcrl => (h.ahead row hrow j).2 d crl (hd j d hdj) hcrl⟩
    obtain hold|rfl := hnum j n hn
    · exact (h.ahead row hrow j).1 n hold
    · exact (h.sound row hrow).1

theorem SiteInv.idle (h : SiteInv x s) (i : Nat) (p : Process) : SiteInv x (s.to i p .idle) :=
  h.to i p (fun n hn => by cases hn) fun d hd => by cases hd

/-- The rows are read: the new CRL keeps what any CRL lists, and is the last one read. -/
theorem SiteInv.read (h : SiteInv x s) (i : Nat) (p : Process) {now number : Int}
    (hstage : (s.procs i).stage=.numbered now number) (days : Int) :
    let crl := generateCrl days s.db x number 0
    SiteInv x { s.to i p (.publish crl s.reads) with reads := s.reads+1 } := by
  intro crl
  have hnum : ∀ j n,((s.to i p (.publish crl s.reads)).procs j).stage.number=some n →
      (s.procs j).stage.number=some n := by
    intro j n hn
    by_cases hj : j=i
    · subst hj
      rw [hstage]
      simpa [Site.to,Stage.number,crl,generateCrl] using hn
    · simpa [Site.to,Function.update_of_ne hj] using hn
  have hdoc : ∀ j d,((s.to i p (.publish crl s.reads)).procs j).stage.doc=some d →
      d=(crl,s.reads) ∨ (s.procs j).stage.doc=some d := by
    intro j d hd
    by_cases hj : j=i
    · subst hj
      exact Or.inl (by simpa [Site.to,Stage.doc,eq_comm] using hd)
    · exact Or.inr (by simpa [Site.to,Function.update_of_ne hj] using hd)
  refine ⟨h.spelled,fun j n hn => h.clock j n (hnum j n hn),?_,?_,?_,h.sound,?_⟩
  · intro j d hd
    obtain rfl|hold := hdoc j d hd
    · exact Nat.lt_succ_self _
    · exact (h.reads j d hold).trans (Nat.lt_succ_self _)
  · intro j d hd
    obtain rfl|hold := hdoc j d hd
    · exact fun k hk => held_of_listed h.spelled hk
    · exact h.held j d hold
  · intro j k d e hd he hlt
    obtain rfl|hold := hdoc j d hd
    · -- nothing was read after the rows of this CRL
      obtain rfl|hold' := hdoc k e he
      · exact absurd hlt (lt_irrefl _)
      · exact absurd (h.reads k e hold') (not_lt.mpr hlt.le)
    · obtain rfl|hold' := hdoc k e he
      · exact fun n hn hrev _ => (h.held j d hold n hn).listed h.spelled hrev days number
      · exact h.order j k d e hold hold' hlt
  · intro row hrow j
    refine ⟨fun n hn => (h.ahead row hrow j).1 n (hnum j n hn),?_⟩
    intro d old hd hold
    obtain rfl|hdj := hdoc j d hd
    · exact fun k hk hrev _ => ((h.sound row hrow).2 old hold k hk).listed h.spelled hrev days number
    · exact (h.ahead row hrow j).2 d old hdj hold

theorem SiteInv.write (h : SiteInv x s) (i : Nat) {crl : CrlDoc} {readAt : Nat}
    (hstage : (s.procs i).stage=.write crl readAt)
    (hbehind : ∀ j,j≠i → (∀ n,(s.procs j).stage.number=some n → crl.number≤n) ∧
      ∀ d,(s.procs j).stage.doc=some d → readAt<d.2) (p : Process) :
    SiteInv x { s.to i p .idle with stored := some (storedRow p crl) } := by
  have hidle := h.idle i p
  have hdoc : (s.procs i).stage.doc=some (crl,readAt) := by rw [hstage]; rfl
  have hclock : crl.number ≤ s.clock := h.clock i crl.number (by rw [hstage]; rfl)
  refine ⟨h.spelled,hidle.clock,hidle.reads,hidle.held,hidle.order,?_,?_⟩
  · intro row hrow
    obtain rfl := Option.some.inj hrow
    refine ⟨hclock,fun c hc => ?_⟩
    obtain rfl := Option.some.inj hc
    exact h.held i _ hdoc
  · intro row hrow j
    obtain rfl := Option.some.inj hrow
    by_cases hj : j=i
    · subst hj
      constructor
      · intro n hn
        simp [Site.to,Stage.number] at hn
      · intro d c hd
        simp [Site.to,Stage.doc] at hd
    · obtain ⟨hnum,hread⟩ := hbehind j hj
      simp only [Site.to,Function.update_of_ne hj]
      refine ⟨hnum,fun d c hd hc => ?_⟩
      obtain rfl := Option.some.inj hc
      exact h.order i j _ d hdoc hd (hread d hd)

theorem SiteInv.step (h : SiteInv x s) {a : SiteAct} (ha : NoneBehind s a) (days : Int) :
    SiteInv x (siteStep days x s a) := by
  cases a with
  | other a => exact h.other ha days
  | proc i fails =>
    simp only [siteStep,Site.advance]
    split
    · split_ifs
      · exact h.to i _ (fun n hn => by cases hn) fun d hd => by cases hd
      · exact h
    · split_ifs
      · exact h.idle i _
      · exact h.to i _ (fun n hn => Or.inr (Option.some.inj hn).symm) fun d hd => by cases hd
    · next now number hstage =>
      split_ifs
      · exact h.idle i _
      · exact h.read i _ hstage days
    · next crl readAt hstage =>
      split_ifs
      · exact h.idle i _
      · exact h.to i _ (fun n hn => Or.inl (by rw [hstage]; exact hn)) fun d hd => by
          rw [hstage]; exact hd
    · next crl readAt now hstage =>
      split_ifs
      · exact h.idle i _
      · exact h.to i _ (fun n hn => Or.inl (by rw [hstage]; exact hn)) fun d hd => by
          rw [hstage]; exact hd
      · exact h.idle i _
    · next crl readAt hstage =>
      split_ifs with hfails
      · exact h.idle i _
      · exact h.write i hstage (ha crl readAt hstage (by simpa using hfails)).2 _

/-- Only an upsert replaces the row, and it writes what is ahead of the row. -/
theorem SiteInv.forward (h : SiteInv x s) (days : Int) {a : SiteAct} (ha : NoneBehind s a) :
    Forward s (siteStep days x s a) := by
  have hsame : ∀ t : Site,t.stored=s.stored → Forward s t := by
    intro t ht old new hold hnew
    obtain rfl := Option.some.inj (hold.symm.trans (ht ▸ hnew))
    exact ⟨le_rfl,fun crl hcrl => ⟨crl,hcrl,fun k _ hk => hk⟩⟩
  cases a with
  | other a => exact hsame _ rfl
  | proc i fails =>
    simp only [siteStep,Site.advance]
    split
    all_goals split_ifs
    any_goals exact hsame _ rfl
    next crl readAt hstage hfails =>
      intro o n ho hn
      obtain rfl := Option.some.inj hn
      obtain ⟨hnumber,hkeeps⟩ := h.ahead o ho i
      rw [hstage] at hnumber hkeeps
      refine ⟨hnumber crl.number rfl,fun c hc => ⟨crl,rfl,fun k hgood hk => ?_⟩⟩
      have hsince := (ha crl readAt hstage (by simpa using hfails)).1
      exact hkeeps (crl,readAt) c rfl hc k hk hgood.revokedIn (hsince o c ho hc k hgood hk)

end Step

/-- All processes are idle, and the row there is, if any, tells of this table. -/
structure Settled (x : String) (s : Site) : Prop where
  spelled : Spelled s.db
  idle : ∀ j,(s.procs j).stage=.idle
  sound : ∀ row,s.stored=some row → SoundRow x s.toState row

theorem Settled.inv {x : String} {s : Site} (h : Settled x s) : SiteInv x s where
  spelled := h.spelled
  clock j n hn := by rw [h.idle j] at hn; cases hn
  reads j d hd := by rw [h.idle j] at hd; cases hd
  held j d hd := by rw [h.idle j] at hd; cases hd
  order j k d e hd := by rw [h.idle j] at hd; cases hd
  sound := h.sound
  ahead row hrow j := by
    rw [h.idle j]
    constructor
    · intro n hn
      cases hn
    · intro d crl hd
      cases hd

/-- In a run in which nobody writes the row while another process is behind it, no step takes
the stored CRL backwards. -/
theorem stored_crl_forward (days : Int) (x : String) (s : Site) (hs : Settled x s)
    (as : List SiteAct) (has : Along (siteStep days x) NoneBehind s as) (k : Nat) (a : SiteAct)
    (hk : as[k]?=some a) :
    Forward (run (siteStep days x) s (as.take k)) (run (siteStep days x) s (as.take (k+1))) := by
  have hinv := (has.take k).invariant (I := SiteInv x) (fun _ _ h ha => h.step ha days) hs.inv
  have hlast := has.take (k+1)
  rw [List.take_add_one,hk] at hlast ⊢
  rw [run_append]
  exact hinv.forward days (along_append.mp hlast).2.1

def idleProcess : Process := ⟨300,"",none,0,.idle⟩

/-- One valid leaf, nothing published, every process idle. -/
def unpublished : Site := ⟨⟨oneLeaf,1000⟩,none,fun _ => idleProcess,0,fun _ => 0⟩

theorem unpublished_settled : Settled "sub" unpublished where
  spelled := oneLeaf_spelled
  idle _ := rfl
  sound row hrow := by cases hrow

/-- The steps of a `CrlCache::get` that publishes. -/
def publishing (i : Nat) : List SiteAct := List.replicate 6 (.proc i false)

theorem advance_procs_of_ne (days : Int) (x : String) (s : Site) {i j : Nat} (hj : j≠i)
    (fails : Bool) : (s.advance days x i fails).procs j=s.procs j := by
  simp only [Site.advance,Site.to]
  split <;> split_ifs <;> simp [Function.update_of_ne hj]

/-- Nothing was revoked after the rows that this process has read. -/
def Quiet (i : Nat) (s : Site) : Prop :=
  ∀ k,s.revokedAt k ≤ s.reads ∧ ∀ d,(s.procs i).stage.doc=some d → s.revokedAt k ≤ d.2

theorem Quiet.advance {i : Nat} {s : Site} (h : Quiet i s) (days : Int) (x : String)
    (fails : Bool) : Quiet i (s.advance days x i fails) := by
  intro k
  obtain ⟨hreads,hdoc⟩ := h k
  simp only [Site.advance,Site.to]
  split
  all_goals
    next hstage =>
      rw [hstage] at hdoc
      split_ifs
      all_goals
        simp only [Function.update_self,Stage.doc]
        simp only [Stage.doc] at hdoc
        grind

theorem revokedAt_le_reads {s : Site} (h : ∀ k,s.revokedAt k ≤ s.reads) (days : Int) (x : String)
    (a : SiteAct) (k : String) : (siteStep days x s a).revokedAt k ≤ (siteStep days x s a).reads := by
  cases a with
  | other a =>
    simp only [siteStep]
    split_ifs
    · exact le_rfl
    · exact h k
  | proc i fails =>
    have hsame : (s.advance days x i fails).revokedAt=s.revokedAt := by
      simp only [Site.advance,Site.to]
      split <;> split_ifs <;> rfl
    have hgrows : s.reads ≤ (s.advance days x i fails).reads := by
      simp only [Site.advance,Site.to]
      split <;> split_ifs <;> simp
    simp only [siteStep,hsame]
    exact (h k).trans hgrows

/-- A process that is alone meets nobody behind it. -/
theorem along_alone (days : Int) (x : String) (s : Site) (i n : Nat)
    (halone : ∀ j,j≠i → (s.procs j).stage=.idle) (hquiet : Quiet i s) :
    Along (siteStep days x) NoneBehind s (List.replicate n (.proc i false)) := by
  induction n generalizing s with
  | zero => trivial
  | succ n ih =>
    constructor
    · intro crl readAt hstage _
      constructor
      · intro row c hrow hc k hgood hk
        exact (hquiet k).2 (crl,readAt) (by rw [hstage]; rfl)
      · intro j hj
        rw [halone j hj]
        constructor
        · intro m hm
          cases hm
        · intro d hd
          cases hd
    · refine ih _ ?_ (hquiet.advance days x false)
      intro j hj
      simp only [siteStep]
      rw [advance_procs_of_ne days x s hj]
      exact halone j hj

/-- A certificate is put on hold and a process publishes; then it is revoked for good and another
process publishes. -/
def inTurn : List SiteAct :=
  (SiteAct.other (.revokeCert (serialHex 31) 6)::publishing 0)++
    (SiteAct.other (.revokeCert (serialHex 31) 1)::publishing 1)

theorem stored_crl_forward_two : Settled "sub" unpublished ∧
    Forward (run (siteStep 7 "sub") unpublished (inTurn.take 13))
      (run (siteStep 7 "sub") unpublished (inTurn.take 14)) := by
  have hstamp : ∀ as k,(run (siteStep 7 "sub") unpublished as).revokedAt k ≤
      (run (siteStep 7 "sub") unpublished as).reads :=
    run_invariant (I := fun s : Site => ∀ k,s.revokedAt k ≤ s.reads)
      (fun s a h => revokedAt_le_reads h 7 "sub" a) fun _ => le_rfl
  have hfirst : Along (siteStep 7 "sub") NoneBehind unpublished
      (SiteAct.other (.revokeCert (serialHex 31) 6)::publishing 0) := by
    refine ⟨show revocationReasonRefusal 6="" by decide,along_alone 7 "sub" _ 0 6 ?_ ?_⟩
    · exact fun _ _ => rfl
    · exact fun k => ⟨hstamp [.other (.revokeCert (serialHex 31) 6)] k,fun d hd => by cases hd⟩
  have hidle : ∀ j,j≠1 → ((run (siteStep 7 "sub") unpublished
      (SiteAct.other (.revokeCert (serialHex 31) 6)::publishing 0)).procs j).stage=.idle := by
    intro j hj
    by_cases h0 : j=0
    · subst h0
      rfl
    · have hkeep : ∀ n s,(run (siteStep 7 "sub") s
          (List.replicate n (.proc 0 false))).procs j=s.procs j := by
        intro n
        induction n with
        | zero => intro s; rfl
        | succ n ih => exact fun s => (ih _).trans (advance_procs_of_ne 7 "sub" s h0 false)
      rw [run,publishing,List.foldl_cons]
      exact congrArg Process.stage (hkeep 6 _)
  have hrest : Along (siteStep 7 "sub") NoneBehind (run (siteStep 7 "sub") unpublished
        (SiteAct.other (.revokeCert (serialHex 31) 6)::publishing 0))
      (SiteAct.other (.revokeCert (serialHex 31) 1)::publishing 1) := by
    refine ⟨show revocationReasonRefusal 1="" by decide,along_alone 7 "sub" _ 1 6 hidle ?_⟩
    intro k
    refine ⟨?_,fun d hd => by cases hd⟩
    have hk := hstamp ((SiteAct.other (.revokeCert (serialHex 31) 6)::publishing 0)++
      [.other (.revokeCert (serialHex 31) 1)]) k
    rw [run_append] at hk
    exact hk
  exact ⟨unpublished_settled,stored_crl_forward 7 "sub" unpublished unpublished_settled inTurn
    (along_append.mpr ⟨hfirst,hrest⟩) 13 (.proc 1 false) rfl⟩

/-- A process reads the rows at time 1000, a certificate is revoked, another process publishes
at time 1010, and the first one then overwrites it. -/
def overtaken : List SiteAct :=
  List.replicate 3 (.proc 0 false)++
    [.other (.tick 10),.other (.revokeCert (serialHex 31) 1)]++publishing 1++
    List.replicate 3 (.proc 0 false)

theorem stored_crl_goes_back :
    ¬Forward (run (siteStep 7 "sub") unpublished (overtaken.take 13))
      (run (siteStep 7 "sub") unpublished (overtaken.take 14)) := by
  intro h
  have hback := (h _ _ rfl rfl).1
  revert hback
  decide

end FastPki.Crl
