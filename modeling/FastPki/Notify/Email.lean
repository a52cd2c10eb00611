import FastPki.Certs.Inventory
import Mathlib.Data.List.Sort

namespace FastPki.Notify
open Certs X509

/-- The warning windows in days, as `parse_days` leaves them. -/
structure Windows where
  days : List Nat
  nonempty : days≠[]
  positive : ∀ w∈days,0<w
  sorted : days.Pairwise (· > ·)

structure EmailConfig where
  th : Windows
  serialPrefix : Nat
  /-- `owner_email`, empty where the owner has no address. -/
  ownerEmail : String → String
  /-- `NOTIFY_EMAIL_FALLBACK` where it is an address. -/
  fallback : Option String
  /-- The `subject` column of the row with this serial. -/
  subject : String → String
  /-- The names that a certificate carries. -/
  namesOf : Octets → List String

/-- What an email says of one certificate. -/
structure Line where
  serial : String
  stage : Int
  deriving DecidableEq

structure Batch where
  address : String
  lines : List Line
  deriving DecidableEq

section Code

def expiryDaysLeft (notAfter now : Int) : Int :=
  let d := notAfter-now
  if d ≥ 0 then d/86400 else -((-d+86399)/86400)

/-- The smaller one of the windows that the days left are in. -/
def narrower (d best : Int) (w : Nat) : Int :=
  if 0 < w ∧ d ≤ w ∧ (best < 0 ∨ w < best) then w else best

/-- The stage: 0 where the certificate has expired, else the smallest window it is in, else -1. -/
def expiryStage (notAfter now : Int) (th : List Nat) : Int :=
  if notAfter ≤ now then 0
  else th.foldl (narrower (expiryDaysLeft notAfter now)) (-1)

def hexFour (p : Nat) : List Char := [p/4096%16,p/256%16,p/16%16,p%16].map Nat.digitChar

/-- The data center's number stands in front of the 40 digits of a serial; 0 is no number. -/
def issuedByPrefix (serialHex : String) (p : Nat) : Bool :=
  if p = 0 then true
  else
    let s := serialHex.toList.map Char.toLower
    if s.length > 40 then false else (List.replicate (40-s.length) '0'++s).take 4 = hexFour p

def selected (cutoff : Int) (row : CertRow) : Bool :=
  row.status = some 0 ∧ ∃ n∈row.notAfter,n < cutoff

def notAfterLe (a b : Row) : Prop := a.notAfter.getD 0 ≤ b.notAfter.getD 0

instance (a b : Row) : Decidable (notAfterLe a b) := inferInstanceAs (Decidable (_ ≤ _))

def getExpiringCerts (db : Inventory) (cutoff : Int) : List Row :=
  (db.rows.filter fun r => selected cutoff r.toCertRow).insertionSort notAfterLe

variable (cfg : EmailConfig)

def newerValid (e r : Row) : Bool :=
  r.status = some 0 ∧ r.owner = e.owner ∧ cfg.subject r.serial = cfg.subject e.serial ∧ r.serial ≠ e.serial ∧
    (∃ n∈r.notAfter,n > e.notAfter.getD 0) ∧ r.cert ≠ []

/-- A newer certificate of the owner has the same subject and the same names. -/
def alreadyReplaced (db : Inventory) (e : Row) : Bool :=
  e.owner ≠ "" && cfg.subject e.serial ≠ "" && (db.getCert e.serial).any fun old => old.cert ≠ [] &&
    db.rows.any fun r => newerValid cfg e r && cfg.namesOf r.cert = cfg.namesOf old.cert

/-- To whom a selected certificate is reported in this run, and how, if it is. -/
def lineOf (db : Inventory) (sent : String → Option Int) (now : Int) (e : Row) :
    Option (String × Line) :=
  if !issuedByPrefix e.serial cfg.serialPrefix then none
  else
    let stage := expiryStage (e.notAfter.getD 0) now cfg.th.days
    if stage < 0 then none
    else if (sent e.serial).any (stage ≥ ·) then none
    else if alreadyReplaced cfg db e then none
    else
      let address := cfg.ownerEmail e.owner
      (if address = "" then cfg.fallback else some address).map (·,⟨e.serial,stage⟩)

/-- The batches by address, in the order of the addresses. -/
def addLine : List Batch → String × Line → List Batch
  | [],(address,line) => [⟨address,[line]⟩]
  | b::bs,(address,line) =>
    if address = b.address then ⟨b.address,b.lines++[line]⟩::bs
    else if address < b.address then ⟨address,[line]⟩::b::bs
    else b::addLine bs (address,line)

def batchesOf (lines : List (String × Line)) : List Batch := lines.foldl addLine []

def recordNotifyStage (sent : String → Option Int) (line : Line) : String → Option Int :=
  Function.update sent line.serial
    (some ((sent line.serial).elim line.stage (min · line.stage)))

def pruneNotifySent (db : Inventory) (sent : String → Option Int) : String → Option Int :=
  fun serial => if db.rows.any fun r => r.serial = serial ∧ r.status = some 0 then sent serial
    else none

end Code

/-- Where a run of `fastpki-notify` stands: it has the expiring certificates, its emails are accepted,
or they are recorded. -/
inductive Job where
  | selected (now : Int) (managed : List Row)
  | mailed (batches : List Batch)
  | recorded

/-- The emails of one run, with its time. -/
structure Mailing where
  now : Int
  batches : List Batch

/-- The tables, the clock, the run under way, and what was emailed so far, the last run first. -/
structure State where
  db : Inventory
  sent : String → Option Int
  clock : Int
  job : Option Job
  log : List Mailing

inductive Act where
  | tick (seconds : Nat)
  /-- `mark_expired_now`. -/
  | sweep
  | hold (serial : String)
  | release (serial : String)
  /-- The next step of a run of `fastpki-notify`. -/
  | notify

def cutoff (cfg : EmailConfig) (now : Int) : Int := now+(cfg.th.days.headD 0 : Nat)*86400

def notifyStep (cfg : EmailConfig) (s : State) : State :=
  match s.job with
  | none => { s with job := some (.selected s.clock (getExpiringCerts s.db (cutoff cfg s.clock))) }
  | some (.selected now managed) =>
    let batches := batchesOf (managed.filterMap (lineOf cfg s.db s.sent now))
    { s with job := some (.mailed batches),log := ⟨now,batches⟩::s.log }
  | some (.mailed batches) =>
    { s with job := some .recorded
             sent := (batches.flatMap Batch.lines).foldl recordNotifyStage s.sent }
  | some .recorded => { s with job := none,sent := pruneNotifySent s.db s.sent }

def step (cfg : EmailConfig) (s : State) : Act → State
  | .tick seconds => { s with clock := s.clock+seconds }
  | .sweep => { s with db := s.db.markExpiredNow s.clock }
  | .hold serial => { s with db := (s.db.revokeCert serial 6 s.clock).1 }
  | .release serial => { s with db := (s.db.releaseHold serial s.clock).1 }
  | .notify => notifyStep cfg s

section Property

def Mailing.lines (m : Mailing) : List Line := m.batches.flatMap Batch.lines

/-- The stages at which a certificate was emailed, the last one first. -/
def stagesOf (k : String) (log : List Mailing) : List Int :=
  log.flatMap fun m => (m.lines.filter (·.serial = k)).map Line.stage

/-- No stage is emailed twice, and the first run after the expiry says that the certificate has
expired. -/
def HeardOnce (k : String) (notAfter : Int) (log : List Mailing) : Prop :=
  (stagesOf k log).Nodup ∧ ∀ (m : Mailing) (before : List Mailing),m::before<:+log →
    notAfter ≤ m.now → (∀ r∈before,r.now<notAfter) → ⟨k,0⟩∈m.lines

/-- A certificate of this data center, valid, whose owner has an address, of which nothing was emailed
yet. -/
structure Fresh (cfg : EmailConfig) (k : String) (notAfter : Int) (s : State) : Prop where
  row : ∃ row,s.db.find k=some row ∧ row.status=some 0 ∧ row.notAfter=some notAfter ∧
    cfg.ownerEmail row.owner≠""
  dated : 0<notAfter
  issued : issuedByPrefix k cfg.serialPrefix=true
  sent : s.sent k=none
  log : s.log=[]
  job : s.job=none

/-- The certificate is not set to expired, by the sweep or by a release, before its expiry was
emailed; no run starts or ends while it is on hold; and it is not replaced. -/
def Undisturbed (cfg : EmailConfig) (k : String) (s : State) : Act → Prop
  | .sweep => ∀ row∈s.db.find k,expiredBy s.clock row.toCertRow=true → 0∈stagesOf k s.log
  | .release serial => ∀ row∈s.db.find k,serial=k → onHold row.toCertRow=true →
      row.notAfter.getD 0 ≤ s.clock → 0∈stagesOf k s.log
  | .notify => ∀ row∈s.db.find k,
      match s.job with
      | some (.selected _ _) => alreadyReplaced cfg s.db row=false
      | some (.mailed _) => True
      | _ => onHold row.toCertRow=false
  | _ => True

instance (cfg : EmailConfig) (k : String) (s : State) (a : Act) :
    Decidable (Undisturbed cfg k s a) :=
  match a with
  | .sweep => inferInstanceAs (Decidable (∀ row∈s.db.find k,_ → _))
  | .release _ => inferInstanceAs (Decidable (∀ row∈s.db.find k,_ → _ → _ → _))
  | .notify =>
    match hjob : s.job with
    | none => decidable_of_iff (∀ row∈s.db.find k,onHold row.toCertRow=false)
        (by simp only [Undisturbed,hjob])
    | some (.selected _ _) => decidable_of_iff (∀ row∈s.db.find k,alreadyReplaced cfg s.db row=false)
        (by simp only [Undisturbed,hjob])
    | some (.mailed _) => .isTrue (by simp [Undisturbed,hjob])
    | some .recorded => decidable_of_iff (∀ row∈s.db.find k,onHold row.toCertRow=false)
        (by simp only [Undisturbed,hjob])
  | .tick _ => .isTrue trivial
  | .hold _ => .isTrue trivial

end Property

section Batches

/-- Sorting lines into batches loses none and adds none. -/
theorem addLine_perm (bs : List Batch) (p : String × Line) :
    ((addLine bs p).flatMap Batch.lines).Perm (bs.flatMap Batch.lines++[p.2]) := by
  obtain ⟨address,line⟩ := p
  induction bs with
  | nil => simp [addLine]
  | cons b bs ih =>
    rw [addLine]
    split_ifs
    · simp only [List.flatMap_cons,List.append_assoc]
      exact List.Perm.append_left _ List.perm_append_comm
    · simp only [List.flatMap_cons]
      exact (List.perm_append_singleton _ _).symm
    · simp only [List.flatMap_cons,List.append_assoc]
      exact ih.append_left _

theorem batchesOf_perm (lines : List (String × Line)) :
    ((batchesOf lines).flatMap Batch.lines).Perm (lines.map (·.2)) := by
  have hfold : ∀ (lines : List (String × Line)) (bs : List Batch),
      ((lines.foldl addLine bs).flatMap Batch.lines).Perm
        (bs.flatMap Batch.lines++lines.map (·.2)) := by
    intro lines
    induction lines with
    | nil => simp
    | cons p lines ih =>
      intro bs
      rw [List.foldl_cons,List.map_cons]
      refine (ih _).trans (((addLine_perm bs p).append_right _).trans ?_)
      simp
  have h := hfold lines []
  rwa [List.flatMap_nil,List.nil_append] at h

theorem recordAll_apply (k : String) (lines : List Line) (sent : String → Option Int) :
    lines.foldl recordNotifyStage sent k=
      ((lines.filter (·.serial = k)).map Line.stage).foldl
        (fun r stage => some (r.elim stage (min · stage))) (sent k) := by
  induction lines generalizing sent with
  | nil => rfl
  | cons line lines ih =>
    rw [List.foldl_cons,ih,List.filter_cons]
    by_cases hk : line.serial=k
    · simp [hk,recordNotifyStage]
    · simp [hk,recordNotifyStage,Function.update_of_ne (Ne.symm hk)]

end Batches

section Stage

variable {notAfter now : Int} {th : List Nat}

theorem foldl_narrower (th : List Nat) (d best : Int) (hbest : best=-1 ∨ 0<best) :
    th.foldl (narrower d) best=-1 ∨ 0<th.foldl (narrower d) best := by
  induction th generalizing best with
  | nil => exact hbest
  | cons w th ih =>
    rw [List.foldl_cons]
    apply ih
    rw [narrower]
    split_ifs with hw
    · omega
    · exact hbest

/-- The stage is 0 exactly where the certificate has expired. -/
theorem expiryStage_eq_zero_iff : expiryStage notAfter now th=0 ↔ notAfter ≤ now := by
  rw [expiryStage]
  split_ifs with h
  · simp [h]
  · have hfold := foldl_narrower th (expiryDaysLeft notAfter now) (-1) (Or.inl rfl)
    exact iff_of_false (by omega) h

end Stage

end FastPki.Notify
