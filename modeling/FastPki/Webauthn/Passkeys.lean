import FastPki.Auth.Login
import FastPki.Auth.Sessions
import FastPki.Framework.History
import FastPki.Framework.Keyed
import FastPki.Framework.Rows
import FastPki.Webauthn.Assertion

namespace FastPki.Webauthn
open X509 Cbor
open Auth (Collation WebUser lowerText beforeFirst afterFirst)
open Auth.Sessions (Sess textParam)

structure PasskeyRow where
  credentialId : Octets
  subject : Octets
  userHandle : Octets
  publicKey : Octets
  name : Octets
  alg : Int
  signCount : Int
  created : Int
  lastUsed : Int
  deriving DecidableEq

inductive Purpose where
  | signin | register
  deriving DecidableEq

/-- A row of `passkey_challenges`. -/
structure Challenge where
  challenge : Octets
  purpose : Purpose
  subject : Octets
  expires : Int
  deriving DecidableEq

abbrev Passkeys := Keyed PasskeyRow.credentialId
abbrev Challenges := Keyed Challenge.challenge

def kPasskeyChallengeTtl : Int := 300
def kFreshSignin : Int := 600
def bar : UInt8 := 0x7c

/-- The database and its exceptions: its `lower`, its order of texts, and what a statement that
fails throws. -/
structure Sql extends Collation where
  textLe : Octets → Octets → Bool
  failed : String → Error

section Statements

variable (sql : Sql)

def textOf (what : String) (s : Octets) : Result Octets :=
  match textParam s with
  | some t => .ok t
  | none => .error (.thrown (sql.failed what))

def byAge (a b : PasskeyRow) : Bool :=
  a.created < b.created || (a.created = b.created && sql.textLe a.credentialId b.credentialId)

def listPasskeys (t : Passkeys) (subject : Octets) : Result (List PasskeyRow) := do
  let who ← textOf sql "passkeys" subject
  .ok ((t.rows.filter fun r => sql.lower r.subject = sql.lower who).mergeSort (byAge sql))

def getPasskey (t : Passkeys) (id : Octets) : Result (Option PasskeyRow) := do
  let id ← textOf sql "passkeys" id
  .ok (t.find id)

def addPasskey (t : Passkeys) (p : PasskeyRow) : Result Passkeys := do
  let credentialId ← textOf sql "add_passkey" p.credentialId
  let subject ← textOf sql "add_passkey" p.subject
  let userHandle ← textOf sql "add_passkey" p.userHandle
  let name ← textOf sql "add_passkey" p.name
  match t.insert { p with credentialId,subject,userHandle,name,lastUsed := 0 } with
  | some u => .ok u
  | none => .error (.thrown (sql.failed "add_passkey"))

def touchPasskey (t : Passkeys) (id : Octets) (signCount lastUsed : Int) : Passkeys :=
  t.update (·.credentialId = cString id) (fun r => { r with signCount,lastUsed }) fun _ => rfl

def deletePasskey (t : Passkeys) (id : Octets) : Passkeys := t.delete (·.credentialId = cString id)

def deletePasskeysFor (t : Passkeys) (subject : Octets) : Passkeys :=
  t.delete fun r => sql.lower r.subject = sql.lower (cString subject)

/-- Which of the two statements of `put_passkey_challenge` were carried out, where it throws. -/
inductive PutFate where
  | ok | neither | sweep | both
  deriving DecidableEq

def sweepChallenges (t : Challenges) (now : Int) : Challenges := t.delete (·.expires < now)

/-- The row that the `INSERT` is to store. -/
def challengeRow (c : Challenge) : Result Challenge := do
  let challenge ← textOf sql "put_passkey_challenge" c.challenge
  let subject ← textOf sql "put_passkey_challenge" c.subject
  .ok { c with challenge,subject }

/-- The challenge is there, for that purpose, and has not expired. -/
def Challenge.answers (ch : Octets) (purpose : Purpose) (now : Int) (c : Challenge) : Bool :=
  c.challenge = ch ∧ c.purpose = purpose ∧ c.expires ≥ now

def takePasskeyChallenge (t : Challenges) (challenge : Octets) (purpose : Purpose) (now : Int) :
    Result (Option Challenge × Challenges) := do
  let ch ← textOf sql "take_passkey_challenge" challenge
  .ok (t.rows.find? (·.answers ch purpose now),t.delete (·.answers ch purpose now))

end Statements

section Requests

variable (lib : Library) (sql : Sql) (pkiDns : Octets)

def newB64url (drawn : Vector UInt8 32) : Octets := Jws.base64urlEncode drawn.toList

def unb64url (j : Json) (k : String) : Result Octets :=
  match j.find k with
  | some (.str s) => (Jws.base64urlDecode (octets s)).mapError .thrown
  | _ => .error (.thrown ⟨1,"missing "++k⟩)

/-- `body.value(k, std::string())` -/
def bodyValue (j : Json) (k : String) : Result Octets :=
  match j.value Json.getStr k "" with
  | some s => .ok (octets s)
  | none => .error (.thrown (lib.typeError j k))

/-- The body of a finishing request, the text of its client data, and what this says. -/
structure Answer where
  body : Json
  clientDataJson : Octets
  clientData : ClientData

def readAnswer (body : Octets) : Result Answer := do
  let j ← (lib.parse body).mapError .thrown
  let cdj ← unb64url j "clientDataJSON"
  let cd ← parseClientData lib cdj
  .ok ⟨j,cdj,cd⟩

/-- What was signed, and the signature. -/
structure Evidence where
  clientDataJson : Octets
  authenticatorData : Octets
  signature : Octets
  deriving DecidableEq

/-- What `POST /api/signin/passkey/finish` looks at once its challenge is taken. -/
def checkSignin (t : Passkeys) (a : Answer) : Result (PasskeyRow × Nat × Evidence) := do
  let id ← bodyValue lib a.body "id"
  let found ← getPasskey sql t id
  match found with
  | none => .error (.thrown ⟨1,"this passkey is not registered here"⟩)
  | some pk =>
    let uh ← bodyValue lib a.body "userHandle"
    if uh ≠ [] ∧ uh ≠ pk.userHandle then .error (.thrown ⟨1,"the passkey's user does not match"⟩)
    else
      let data ← unb64url a.body "authenticatorData"
      let signature ← unb64url a.body "signature"
      let count ← verifyAssertion lib a.clientDataJson data signature pkiDns a.clientData.challenge
        pk.publicKey pk.alg
      -- a counter that stays at 0 is that of a synced passkey
      if (count ≠ 0 ∨ pk.signCount ≠ 0) ∧ (count : Int) ≤ pk.signCount then
        .error (.thrown ⟨1,"the passkey's signature counter did not advance"⟩)
      else .ok (pk,count,⟨a.clientDataJson,data,signature⟩)

def signedInRecently (s : Sess) (now : Int) : Bool := s.created > 0 ∧ now-s.created ≤ kFreshSignin

def passkeyName (name : Octets) : Octets :=
  let cut := if name.length > 64 then name.take 64 else name
  if cut = [] then octets "passkey" else cut

/-- What `POST /api/me/passkeys/finish` looks at once its challenge is taken: the row to add. -/
def checkRegister (t : Passkeys) (user owner : Octets) (a : Answer) (now : Int) :
    Result PasskeyRow :=
  if bar ∉ owner ∨ afterFirst bar owner ≠ user then
    .error (.thrown ⟨1,"this registration was started by someone else"⟩)
  else do
    let object ← unb64url a.body "attestationObject"
    let reg ← verifyRegistration lib a.clientDataJson object pkiDns a.clientData.challenge
    let found ← getPasskey sql t reg.credentialId
    match found with
    | some _ => .error (.thrown ⟨1,"this passkey is already registered"⟩)
    | none =>
      let name ← bodyValue lib a.body "name"
      .ok ⟨reg.credentialId,user,beforeFirst bar owner,reg.spki,passkeyName name,reg.alg,
        reg.signCount,now,0⟩

/-- The handle that all passkeys of a person share: that of the oldest, or a new one. -/
def handleFor (t : Passkeys) (user : Octets) (drawn : Vector UInt8 32) : Result Octets := do
  let existing ← listPasskeys sql t user
  match existing with
  | [] => .ok (newB64url drawn)
  | p::_ => .ok p.userHandle

end Requests

/-- A lookup that fails finds nobody; `users` are the rows of `web_users`, none where it throws. -/
def findUser (sql : Sql) (users : Option (List WebUser)) (name : Octets) : Option WebUser :=
  match textParam name,users with
  | some _,some rows => Auth.getWebUser sql.toCollation rows name
  | _,_ => none

/-- A request under way, by the statement it comes to next. -/
inductive Job where
  | signin (ticket : Challenge) (answer : Answer)
  | signed (ticket : Challenge) (row : PasskeyRow) (count : Nat) (evidence : Evidence)
      (account : WebUser)
  | enrolling (user handle : Octets)
  | registering (ticket : Challenge) (user : Octets) (answer : Answer) (now : Int)
  | adding (ticket : Challenge) (answer : Answer) (row : PasskeyRow)
  | removing (id : Octets)

/-- The challenge that a request has taken. -/
def Job.ticket : Job → Option Challenge
  | .signin t _ => some t
  | .signed t _ _ _ _ => some t
  | .registering t _ _ _ => some t
  | .adding t _ _ => some t
  | _ => none

/-- A session that a passkey opened. -/
structure Opened where
  ticket : Challenge
  row : PasskeyRow
  count : Nat
  evidence : Evidence
  account : WebUser

/-- A passkey that was added, and the registration that added it. -/
structure Added where
  ticket : Challenge
  answer : Answer
  row : PasskeyRow

/-- The two tables and the requests under way, with all challenges stored, sessions opened and
passkeys added so far, the newest first. -/
structure State where
  passkeys : Passkeys
  challenges : Challenges
  jobs : List Job
  issued : List Challenge
  opened : List Opened
  added : List Added

def State.start : State := ⟨⟨[],List.nodup_nil⟩,⟨[],List.nodup_nil⟩,[],[],[],[]⟩

/-- What the next statement of a request meets: the time, what `RAND_bytes` gives, how the
statements end, the accounts there are, and whether the session could be stored. -/
structure Env where
  now : Int
  drawn : Vector UInt8 32
  put : PutFate
  fate : Fate
  users : Option (List WebUser)
  stored : Bool

inductive Act where
  | beginSignin (allowed : Bool) (env : Env)
  | takeSignin (allowed : Bool) (body : Octets) (env : Env)
  | beginRegister (sess : Option Sess) (env : Env)
  | takeRegister (sess : Option Sess) (body : Octets) (env : Env)
  | removePasskey (owner id : Octets)
  | deleteFor (subject : Octets)
  | advance (i : Nat) (env : Env)

section Step

variable (lib : Library) (sql : Sql) (pkiDns : Octets)

def insertChallenge (s : State) (c : Challenge) : State :=
  match challengeRow sql c with
  | .error _ => s
  | .ok row =>
    match s.challenges.insert row with
    | none => s
    | some u => { s with challenges := u,issued := row::s.issued }

/-- Challenges that have expired go first. -/
def putPasskeyChallenge (s : State) (c : Challenge) (now : Int) (fate : PutFate) : State :=
  let swept := { s with challenges := sweepChallenges s.challenges now }
  match fate with
  | .neither => s
  | .sweep => swept
  | .ok => insertChallenge sql swept c
  | .both => insertChallenge sql swept c

def beginSignin (s : State) (allowed : Bool) (env : Env) : State :=
  if !allowed then s
  else putPasskeyChallenge sql s
    ⟨newB64url env.drawn,.signin,[],env.now+kPasskeyChallengeTtl⟩ env.now env.put

/-- The challenge is taken; `job` goes on with it, unless the statement throws. -/
def takeFor (s : State) (a : Answer) (purpose : Purpose) (env : Env) (job : Challenge → Job) : State :=
  match takePasskeyChallenge sql s.challenges a.clientData.challenge purpose env.now with
  | .error _ => s
  | .ok (found,rest) =>
    match env.fate with
    | .throws applied => if applied then { s with challenges := rest } else s
    | .ok =>
      match found with
      | none => s
      | some t => { s with challenges := rest,jobs := job t::s.jobs }

def takeSignin (s : State) (allowed : Bool) (body : Octets) (env : Env) : State :=
  if !allowed then s
  else match readAnswer lib body with
    | .error _ => s
    | .ok a => takeFor sql s a .signin env fun t => .signin t a

def beginRegister (s : State) (sess : Option Sess) (env : Env) : State :=
  match sess with
  | none => s
  | some who =>
    if !signedInRecently who env.now then s
    else match handleFor sql s.passkeys who.user env.drawn with
      | .error _ => s
      | .ok handle => { s with jobs := .enrolling who.user handle::s.jobs }

def takeRegister (s : State) (sess : Option Sess) (body : Octets) (env : Env) : State :=
  match sess with
  | none => s
  | some who =>
    if !signedInRecently who env.now then s
    else match readAnswer lib body with
      | .error _ => s
      | .ok a => takeFor sql s a .register env fun t => .registering t who.user a env.now

/-- One's own passkey, or anyone's through the page of users; `owner` is whose it has to be. -/
def removePasskey (s : State) (owner id : Octets) : State :=
  match getPasskey sql s.passkeys id with
  | .ok (some p) =>
    if lowerText p.subject = lowerText owner then { s with jobs := .removing id::s.jobs } else s
  | _ => s

/-- The session is opened whether or not the counter could be written. -/
def openSession (s : State) (o : Opened) (env : Env) : State :=
  let touched := touchPasskey s.passkeys o.row.credentialId o.count env.now
  let passkeys := if env.fate = .throws false then s.passkeys else touched
  if env.stored then { s with passkeys,opened := o::s.opened } else { s with passkeys }

def addRow (s : State) (a : Added) (env : Env) : State :=
  match addPasskey sql s.passkeys a.row with
  | .error _ => s
  | .ok u => if env.fate = .throws false then s else { s with passkeys := u,added := a::s.added }

/-- The next statement of one request, which is no longer in the list. -/
def advance (s : State) (env : Env) : Job → State
  | .signin t a =>
    match checkSignin lib sql pkiDns s.passkeys a with
    | .error _ => s
    | .ok (pk,count,ev) =>
      match findUser sql env.users pk.subject with
      | none => s
      | some u => { s with jobs := .signed t pk count ev u::s.jobs }
  | .signed t row count ev u => openSession s ⟨t,row,count,ev,u⟩ env
  | .enrolling user handle =>
    putPasskeyChallenge sql s
      ⟨newB64url env.drawn,.register,handle++bar::user,env.now+kPasskeyChallengeTtl⟩ env.now env.put
  | .registering t user a now =>
    match checkRegister lib sql pkiDns s.passkeys user t.subject a now with
    | .ok row => { s with jobs := .adding t a row::s.jobs }
    | .error _ => s
  | .adding t a row => addRow sql s ⟨t,a,row⟩ env
  | .removing id => { s with passkeys := deletePasskey s.passkeys id }

def step (s : State) : Act → State
  | .beginSignin allowed env => beginSignin sql s allowed env
  | .takeSignin allowed body env => takeSignin lib sql s allowed body env
  | .beginRegister sess env => beginRegister sql s sess env
  | .takeRegister sess body env => takeRegister lib sql s sess body env
  | .removePasskey owner id => removePasskey sql s owner id
  | .deleteFor subject => { s with passkeys := deletePasskeysFor sql s.passkeys subject }
  | .advance i env =>
    match s.jobs[i]? with
    | none => s
    | some j => advance lib sql pkiDns { s with jobs := s.jobs.eraseIdx i } env j

end Step

section Single

variable {lib : Library} {sql : Sql} {pkiDns : Octets} {s : State}

/-- Challenges as tickets: one that a request has taken is good until the request ends, and a
session or a passkey is what is got for it. -/
def State.ledger (s : State) : Ledger Challenge where
  issued := s.issued
  good := s.challenges.rows++s.jobs.filterMap Job.ticket
  spent := s.opened.map Opened.ticket++s.added.map Added.ticket

theorem insertChallenge_ledger (s : State) (c : Challenge) {l : Ledger Challenge}
    (hi : l.issued=s.issued) (hg : s.ledger.good.Subperm l.good) (hs : l.spent=s.ledger.spent) :
    l.Step (insertChallenge sql s c).ledger := by
  rw [insertChallenge]
  cases challengeRow sql c with
  | error e => exact FastPki.Ledger.Step.same hi.symm hg hs.symm
  | ok row =>
    cases hins : s.challenges.insert row with
    | none => simpa only [hins] using FastPki.Ledger.Step.same hi.symm hg hs.symm
    | some u =>
      simp only [hins]
      obtain ⟨_,hrows⟩ := Keyed.insert_eq_some hins
      have hgood : (u.rows++s.jobs.filterMap Job.ticket).Subperm (row::l.good) := by
        rw [hrows,List.append_assoc,List.singleton_append]
        exact List.perm_middle.subperm.trans ((List.subperm_cons row).mpr hg)
      have hstep := FastPki.Ledger.Step.issue hgood
      rw [hi,hs] at hstep
      exact hstep

theorem putPasskeyChallenge_ledger (s : State) (c : Challenge) (now : Int) (fate : PutFate) :
    s.ledger.Step (putPasskeyChallenge sql s c now fate).ledger := by
  have hswept : ((sweepChallenges s.challenges now).rows++s.jobs.filterMap Job.ticket).Subperm
      s.ledger.good :=
    (List.subperm_append_right _).mpr List.filter_sublist.subperm
  cases fate with
  | ok => exact insertChallenge_ledger _ c rfl hswept rfl
  | neither => exact FastPki.Ledger.Step.same rfl (List.Subperm.refl _) rfl
  | sweep => exact FastPki.Ledger.Step.same rfl hswept rfl
  | both => exact insertChallenge_ledger _ c rfl hswept rfl

/-- What a request does that takes a challenge. -/
theorem takeFor_cases (sql : Sql) (s : State) (a : Answer) (purpose : Purpose) (env : Env)
    (job : Challenge → Job) :
    let hit := Challenge.answers (cString a.clientData.challenge) purpose env.now
    let rest := { s with challenges := s.challenges.delete hit }
    takeFor sql s a purpose env job=s ∨ takeFor sql s a purpose env job=rest ∨
      ∃ t,s.challenges.rows.find? hit=some t ∧
        takeFor sql s a purpose env job={ rest with jobs := job t::s.jobs } := by
  intro hit rest
  rw [takeFor,takePasskeyChallenge,textOf,textParam]
  split_ifs with hutf
  · simp only [bind,Except.bind]
    cases env.fate with
    | throws applied =>
      cases applied with
      | false => exact Or.inl rfl
      | true => exact Or.inr (Or.inl rfl)
    | ok =>
      cases s.challenges.rows.find? hit with
      | none => exact Or.inl rfl
      | some t => exact Or.inr (Or.inr ⟨t,rfl,rfl⟩)
  · exact Or.inl rfl

theorem takeFor_ledger {a : Answer} {purpose : Purpose} {env : Env} {job : Challenge → Job}
    (hjob : ∀ t,(job t).ticket=some t) : s.ledger.Step (takeFor sql s a purpose env job).ledger := by
  have hrest : ∀ hit,(s.challenges.delete hit).rows.Subperm s.challenges.rows :=
    fun hit => List.filter_sublist.subperm
  obtain h|h|⟨t,hfind,h⟩ := takeFor_cases sql s a purpose env job
  · rw [h]
    exact FastPki.Ledger.Step.same rfl (List.Subperm.refl _) rfl
  · rw [h]
    exact FastPki.Ledger.Step.same rfl ((List.subperm_append_right _).mpr (hrest _)) rfl
  · rw [h]
    refine FastPki.Ledger.Step.same rfl ?_ rfl
    -- the challenge leaves the table for the request
    have hmoved : ∀ rows : List Challenge,(rows++(job t::s.jobs).filterMap Job.ticket).Perm
        ((t::rows)++s.jobs.filterMap Job.ticket) := by
      intro rows
      rw [List.filterMap_cons_some (hjob t)]
      exact List.perm_middle
    exact (hmoved _).subperm.trans ((List.subperm_append_right _).mpr (cons_filter_subperm hfind))

/-- The tickets with those of one request apart. -/
def State.ledgerWith (s : State) (j : Job) : Ledger Challenge :=
  { s.ledger with good := s.challenges.rows++(j.ticket.toList++s.jobs.filterMap Job.ticket) }

theorem ledgerWith_lapse (s : State) (j : Job) : (s.ledgerWith j).Step s.ledger :=
  FastPki.Ledger.Step.same rfl
    ((List.subperm_append_left _).mpr (List.sublist_append_right _ _).subperm) rfl

/-- The request goes on with its challenge, or ends. -/
theorem ledgerWith_push (s : State) (j k : Job) (h : k.ticket=j.ticket) :
    (s.ledgerWith j).Step { s with jobs := k::s.jobs }.ledger := by
  refine FastPki.Ledger.Step.same rfl ?_ rfl
  have hsame : (k::s.jobs).filterMap Job.ticket=j.ticket.toList++s.jobs.filterMap Job.ticket := by
    rw [← h]
    cases hk : k.ticket with
    | none => simp [hk]
    | some t => simp [hk]
  simp only [State.ledger,State.ledgerWith,hsame]
  exact List.Subperm.refl _

theorem ledgerWith_spend {s t : State} {j : Job} {c : Challenge} (hj : j.ticket=some c)
    (hi : t.issued=s.issued) (hg : t.ledger.good=s.ledger.good)
    (hs : t.ledger.spent.Perm (c::s.ledger.spent)) : (s.ledgerWith j).Step t.ledger := by
  have hgood : (c::t.ledger.good).Subperm (s.ledgerWith j).good := by
    rw [hg,State.ledgerWith,hj]
    exact List.perm_middle.symm.subperm
  have hstep := FastPki.Ledger.Step.spend hgood hs
  rw [show (s.ledgerWith j).issued=t.ledger.issued from hi.symm] at hstep
  exact hstep

theorem advance_ledger (s : State) (env : Env) (j : Job) :
    (s.ledgerWith j).Step (advance lib sql pkiDns s env j).ledger := by
  have hnone := ledgerWith_lapse s j
  cases j with
  | signin t a =>
    simp only [advance]
    split
    · exact hnone
    · split
      · exact hnone
      · exact ledgerWith_push s _ _ rfl
  | signed t row count ev u =>
    simp only [advance,openSession]
    split_ifs
    · exact ledgerWith_spend rfl rfl rfl (List.Perm.refl _)
    · exact ledgerWith_spend rfl rfl rfl (List.Perm.refl _)
    · exact ledgerWith_lapse s _
    · exact ledgerWith_lapse s _
  | enrolling user handle => exact putPasskeyChallenge_ledger s _ _ _
  | registering t user a now =>
    simp only [advance]
    split
    · exact ledgerWith_push s _ _ rfl
    · exact hnone
  | adding t a row =>
    simp only [advance,addRow]
    split
    · exact hnone
    · split_ifs
      · exact hnone
      · exact ledgerWith_spend rfl rfl rfl List.perm_middle
  | removing id => exact ledgerWith_lapse s _

theorem step_ledger (s : State) (a : Act) : s.ledger.Step (step lib sql pkiDns s a).ledger := by
  have hsame : s.ledger.Step s.ledger :=
    FastPki.Ledger.Step.same rfl (List.Subperm.refl _) rfl
  cases a with
  | beginSignin allowed env =>
    simp only [step,beginSignin]
    split_ifs
    · exact hsame
    · exact putPasskeyChallenge_ledger s _ _ _
  | takeSignin allowed body env =>
    simp only [step,takeSignin]
    split_ifs
    · exact hsame
    · split
      · exact hsame
      · exact takeFor_ledger fun t => rfl
  | beginRegister sess env =>
    simp only [step,beginRegister]
    split
    · exact hsame
    · split_ifs
      · exact hsame
      · split
        · exact hsame
        · exact FastPki.Ledger.Step.same rfl (List.Subperm.refl _) rfl
  | takeRegister sess body env =>
    simp only [step,takeRegister]
    split
    · exact hsame
    · split_ifs
      · exact hsame
      · split
        · exact hsame
        · exact takeFor_ledger fun t => rfl
  | removePasskey owner id =>
    simp only [step,removePasskey]
    split
    · split_ifs
      · exact FastPki.Ledger.Step.same rfl (List.Subperm.refl _) rfl
      · exact hsame
    · exact hsame
  | deleteFor subject => exact FastPki.Ledger.Step.same rfl (List.Subperm.refl _) rfl
  | advance i env =>
    simp only [step]
    split
    · exact hsame
    · rename_i j hj
      refine (advance_ledger { s with jobs := s.jobs.eraseIdx i } env j).of_subperm rfl ?_ rfl
      exact ((filterMap_eraseIdx_perm hj).append_left s.challenges.rows).subperm

/-- However the requests interleave, and whichever statements fail, every session that a passkey
opened and every passkey that was added has a challenge of its own among those that were issued. -/
theorem passkey_challenge_once (acts : List Act) :
    let s := run (step lib sql pkiDns) State.start acts
    (s.opened.map Opened.ticket++s.added.map Added.ticket).Subperm s.issued := by
  have hstart : State.start.ledger.Sound := List.Subperm.refl []
  have hsound : (run (step lib sql pkiDns) State.start acts).ledger.Sound :=
    run_invariant (I := fun s : State => s.ledger.Sound) (fun s a hs => hs.step (step_ledger s a))
      hstart acts
  exact hsound.spent_subperm

end Single

end FastPki.Webauthn
