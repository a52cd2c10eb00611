import FastPki.Auth.Backoff
import FastPki.Auth.Login
import FastPki.Auth.Password

namespace FastPki.Auth

open X509

/-- A directory, as `ldap_providers` lists it. -/
structure Directory extends Provider where
  enabled : Bool
  deriving DecidableEq

structure AuthResult where
  ok : Bool
  role : String
  groups : List Octets
  subject : Octets
  retryAfter : Int
  deriving DecidableEq

def AuthResult.denied : AuthResult := ⟨false,"",[],[],0⟩

/-- A password that a directory is shown. -/
structure Bind where
  provider : Octets
  user : Octets
  password : Octets
  deriving DecidableEq

/-- What a check finds. `users` is `get_web_user`, and `none` its exception; a directory answers to a
name and a password, and with the groups of a name. -/
structure World where
  users : Octets → Option (Option WebUser)
  directories : List Directory
  bindCheck : Directory → Octets → Octets → Bool
  groupsForUser : Directory → Octets → List Octets

structure Attempt where
  username : Octets
  password : Octets
  clientIp : Octets
  deriving DecidableEq

section Code

variable (pbkdf2 : Pbkdf2) (authBackend : Octets) (w : World) (a : Attempt)

/-- A row that holds a hash of its own. Any other is that of an identity from elsewhere. -/
def WebUser.isLocal (row : WebUser) : Bool := (octets "pbkdf2$").isPrefixOf (octets row.hash)

/-- An exception of the check leaves the account denied. -/
def localAnswer (row : WebUser) : AuthResult :=
  match verifyPassword pbkdf2 a.password (octets row.hash) with
  | some true => if row.mustReset then .denied else ⟨true,row.role,[],row.username,0⟩
  | _ => .denied

def login : QualifiedLogin := splitQualifiedLogin a.username (w.directories.map Directory.toProvider)

/-- The directory that accepts, and all that were asked on the way. -/
def askDirectories (q : QualifiedLogin) (password : Octets) :
    List Directory → Option Directory × List Bind
  | [] => (none,[])
  | p::ps =>
    if p.enabled = false ∨ p.id ≠ q.provider then askDirectories q password ps
    else if w.bindCheck p q.user password then (some p,[⟨p.id,q.user,password⟩])
    else ((askDirectories q password ps).1,⟨p.id,q.user,password⟩::(askDirectories q password ps).2)

/-- An onboarded account is kept under its qualified name. -/
def roleFor (externalRole : String) (subject : Octets) : String :=
  if externalRole ≠ "" then externalRole
  else match w.users subject with
    | some (some row) => row.role
    | _ => ""

def viaBackend (externalRole : String) : AuthResult × List Bind :=
  if authBackend ≠ octets "ldap" ∨ w.directories = [] then (.denied,[])
  else
    let q := login w a
    if q.user = [] ∨ q.provider = [] then (.denied,[])
    else match askDirectories w q a.password w.directories with
      | (none,binds) => (.denied,binds)
      | (some p,binds) =>
        let subject := qualifySubject p.id q.user
        (⟨true,roleFor w externalRole subject,
          (w.groupsForUser p q.user).map (qualifySubject p.id),subject,0⟩,binds)

/-- The answer, and the directories that were shown the password for it. -/
def authenticateUnthrottled : AuthResult × List Bind :=
  if a.username = [] ∨ a.password = [] then (.denied,[])
  else match w.users a.username with
    | some (some row) =>
      if row.isLocal then (localAnswer pbkdf2 a row,[]) else viaBackend authBackend w a row.role
    | _ => viaBackend authBackend w a ""

end Code

/-- A request that has been let in and not answered yet is in flight. The record holds what was asked
of the throttle, all passwords that a directory was shown, and all answers, the newest last. -/
structure Door where
  throttle : LoginThrottle
  inFlight : List Attempt
  ops : List (LoginThrottle.Op × Int)
  shown : List (Attempt × Bind)
  answers : List (Attempt × AuthResult)

inductive DoorAct where
  /-- A caller is let in, or told to wait. -/
  | call (a : Attempt)
  /-- The check of a request that was let in, and its answer. -/
  | finish (i : Nat) (w : World)

section Door

variable (pbkdf2 : Pbkdf2) (authBackend : Octets) (loginFailureThreshold loginLockoutSec : Int)

/-- An operation of the throttle, kept in the record. -/
def Door.ask (d : Door) (op : LoginThrottle.Op) (steady : Int) : Door :=
  { d with throttle := d.throttle.step (op,steady),ops := d.ops++[(op,steady)] }

def Door.wait (d : Door) (a : Attempt) (steady : Int) : Int :=
  d.throttle.retryAfter steady a.username a.clientIp

/-- `authenticate` up to the check of the password. -/
def Door.call (d : Door) (a : Attempt) (steady : Int) : Door :=
  let d := d.ask (.configure loginFailureThreshold loginLockoutSec) steady
  if d.wait a steady > 0 then
    { d with answers := d.answers++[(a,{ AuthResult.denied with retryAfter := d.wait a steady })] }
  else { d with inFlight := d.inFlight++[a] }

/-- Every answer but an acceptance counts as a failure. -/
def Door.finish (d : Door) (i : Nat) (w : World) (steady : Int) : Door :=
  match d.inFlight[i]? with
  | none => d
  | some a =>
    let (r,binds) := authenticateUnthrottled pbkdf2 authBackend w a
    let op := if r.ok then LoginThrottle.Op.recordSuccess a.username a.clientIp
      else .recordFailure a.username a.clientIp
    { d.ask op steady with
      inFlight := d.inFlight.eraseIdx i
      shown := d.shown++binds.map (a,·)
      answers := d.answers++[(a,r)] }

def Door.step (d : Door) : DoorAct × Int → Door
  | (.call a,steady) => d.call loginFailureThreshold loginLockoutSec a steady
  | (.finish i w,steady) => d.finish pbkdf2 authBackend i w steady

def Door.start : Door := ⟨.init,[],[],[],[]⟩

/-- The door after these steps. -/
def door (acts : List (DoorAct × Int)) : Door :=
  run (Door.step pbkdf2 authBackend loginFailureThreshold loginLockoutSec) Door.start acts

end Door

section Checks

variable {pbkdf2 : Pbkdf2} {authBackend : Octets}

/-- Who vouches for an answer that accepts. -/
inductive Vouched (pbkdf2 : Pbkdf2) (authBackend : Octets) (w : World) (a : Attempt) :
    AuthResult → Prop
  /-- The account's own hash, of an account whose owner has set the password. -/
  | account {row : WebUser} (hrow : w.users a.username=some (some row))
      (hhash : verifyPassword pbkdf2 a.password (octets row.hash)=some true)
      (hset : row.mustReset=false) : Vouched pbkdf2 authBackend w a ⟨true,row.role,[],row.username,0⟩
  /-- The directory that the login names, for a name that has no hash here. -/
  | directory {p : Directory} {user : Octets} (role : String) (hbackend : authBackend=octets "ldap")
      (hlocal : ∀ row,w.users a.username=some (some row) → row.isLocal=false)
      (hp : p∈w.directories) (henabled : p.enabled=true) (hlogin : login w a=⟨p.id,user⟩)
      (hid : p.id≠[]) (huser : user≠[]) (hbind : w.bindCheck p user a.password=true) :
      Vouched pbkdf2 authBackend w a ⟨true,role,(w.groupsForUser p user).map (qualifySubject p.id),
        qualifySubject p.id user,0⟩

/-- A directory is shown the password of a login that names it. -/
structure Named (authBackend : Octets) (w : World) (a : Attempt) (b : Bind) : Prop where
  backend : authBackend=octets "ldap"
  foreign : ∀ row,w.users a.username=some (some row) → row.isLocal=false
  directory : ∃ p∈w.directories,p.enabled=true ∧ p.id=b.provider
  login : login w a=⟨b.provider,b.user⟩
  provider : b.provider≠[]
  password : b.password=a.password

theorem askDirectories_asked (w : World) (q : QualifiedLogin) (password : Octets)
    (ps : List Directory) : ∀ b∈(askDirectories w q password ps).2,
      (∃ p∈ps,p.enabled=true ∧ p.id=b.provider) ∧ b=⟨q.provider,q.user,password⟩ := by
  induction ps with
  | nil =>
    intro b hb
    cases hb
  | cons p ps ih =>
    intro b hb
    have hlater : b∈(askDirectories w q password ps).2 →
        (∃ p'∈p::ps,p'.enabled=true ∧ p'.id=b.provider) ∧ b=⟨q.provider,q.user,password⟩ := by
      intro hb
      obtain ⟨⟨p',hp',hen⟩,hbind⟩ := ih b hb
      exact ⟨⟨p',List.mem_cons_of_mem p hp',hen⟩,hbind⟩
    rw [askDirectories] at hb
    split_ifs at hb with hskip hok
    · exact hlater hb
    · obtain ⟨hen,hid⟩ := not_or.mp hskip
      obtain rfl := List.mem_singleton.mp hb
      refine ⟨⟨p,List.mem_cons_self,by simpa using hen,rfl⟩,?_⟩
      rw [not_not.mp hid]
    · obtain ⟨hen,hid⟩ := not_or.mp hskip
      obtain rfl|hb := List.mem_cons.mp hb
      · refine ⟨⟨p,List.mem_cons_self,by simpa using hen,rfl⟩,?_⟩
        rw [not_not.mp hid]
      · exact hlater hb

theorem askDirectories_accepts {w : World} {q : QualifiedLogin} {password : Octets}
    {ps : List Directory} {p : Directory} (h : (askDirectories w q password ps).1=some p) :
    p∈ps ∧ p.enabled=true ∧ p.id=q.provider ∧ w.bindCheck p q.user password=true := by
  induction ps with
  | nil => cases h
  | cons p' ps ih =>
    rw [askDirectories] at h
    split_ifs at h with hskip hok
    · obtain ⟨hp,hrest⟩ := ih h
      exact ⟨List.mem_cons_of_mem p' hp,hrest⟩
    · obtain ⟨hen,hid⟩ := not_or.mp hskip
      obtain rfl := Option.some.inj h
      exact ⟨List.mem_cons_self,by simpa using hen,not_not.mp hid,hok⟩
    · obtain ⟨hp,hrest⟩ := ih h
      exact ⟨List.mem_cons_of_mem p' hp,hrest⟩

/-- What the backend does once the local table has not answered. -/
theorem viaBackend_spec {w : World} {a : Attempt} (externalRole : String)
    (hlocal : ∀ row,w.users a.username=some (some row) → row.isLocal=false) :
    ((viaBackend authBackend w a externalRole).1.ok=true →
      Vouched pbkdf2 authBackend w a (viaBackend authBackend w a externalRole).1) ∧
    ∀ b∈(viaBackend authBackend w a externalRole).2,Named authBackend w a b := by
  have hdenied : (AuthResult.denied,([] : List Bind)).1.ok=true →
      Vouched pbkdf2 authBackend w a AuthResult.denied := nofun
  rw [viaBackend]
  by_cases hoff : authBackend≠octets "ldap" ∨ w.directories=[]
  · rw [if_pos hoff]
    exact ⟨hdenied,nofun⟩
  rw [if_neg hoff]
  obtain ⟨hbackend,_⟩ := not_or.mp hoff
  simp only
  by_cases hbare : (login w a).user=[] ∨ (login w a).provider=[]
  · rw [if_pos hbare]
    exact ⟨hdenied,nofun⟩
  rw [if_neg hbare]
  obtain ⟨huser,hprovider⟩ := not_or.mp hbare
  have hasked : ∀ b∈(askDirectories w (login w a) a.password w.directories).2,
      Named authBackend w a b := by
    intro b hb
    obtain ⟨hdirectory,rfl⟩ := askDirectories_asked w (login w a) a.password w.directories b hb
    exact ⟨not_not.mp hbackend,hlocal,hdirectory,rfl,hprovider,rfl⟩
  split
  · rename_i binds hask
    rw [hask] at hasked
    exact ⟨nofun,hasked⟩
  · rename_i p binds hask
    have haccepts : (askDirectories w (login w a) a.password w.directories).1=some p := by
      rw [hask]
    obtain ⟨hp,hen,hid,hbind⟩ := askDirectories_accepts haccepts
    rw [hask] at hasked
    refine ⟨fun _ => ?_,hasked⟩
    refine Vouched.directory _ (not_not.mp hbackend) hlocal hp hen ?_ ?_ huser hbind
    · rw [hid]
    · rw [hid]
      exact hprovider

theorem authenticateUnthrottled_spec (pbkdf2 : Pbkdf2) (authBackend : Octets) (w : World)
    (a : Attempt) :
    ((authenticateUnthrottled pbkdf2 authBackend w a).1.ok=true →
      Vouched pbkdf2 authBackend w a (authenticateUnthrottled pbkdf2 authBackend w a).1) ∧
    ∀ b∈(authenticateUnthrottled pbkdf2 authBackend w a).2,Named authBackend w a b := by
  rw [authenticateUnthrottled]
  split_ifs with hempty
  · exact ⟨nofun,nofun⟩
  · cases hrow : w.users a.username with
    | none => exact viaBackend_spec "" fun row h => by rw [hrow] at h; cases h
    | some found =>
      cases found with
      | none => exact viaBackend_spec "" fun row h => by rw [hrow] at h; cases h
      | some row =>
        simp only
        by_cases hlocal : row.isLocal=true
        · rw [if_pos hlocal]
          refine ⟨fun hok => ?_,nofun⟩
          simp only [localAnswer] at hok ⊢
          split at hok
          · rename_i hhash
            split_ifs at hok with hreset
            · cases hok
            · rw [if_neg hreset]
              exact Vouched.account hrow hhash (by simpa using hreset)
          · cases hok
        · rw [if_neg hlocal]
          refine viaBackend_spec row.role fun row' h => ?_
          rw [hrow] at h
          obtain rfl := Option.some.inj (Option.some.inj h)
          simpa using hlocal

end Checks

section Runs

variable (pbkdf2 : Pbkdf2) (authBackend : Octets) (loginFailureThreshold loginLockoutSec : Int)

theorem finish_step (d : Door) (act : DoorAct × Int) :
    (∀ x∈(d.step pbkdf2 authBackend loginFailureThreshold loginLockoutSec act).answers,
      x∈d.answers ∨ (x.2.ok=true → ∃ i w,act.1=.finish i w ∧ d.inFlight[i]?=some x.1 ∧
        Vouched pbkdf2 authBackend w x.1 x.2)) ∧
    ∀ x∈(d.step pbkdf2 authBackend loginFailureThreshold loginLockoutSec act).shown,
      x∈d.shown ∨ ∃ i w,act.1=.finish i w ∧ d.inFlight[i]?=some x.1 ∧
        Named authBackend w x.1 x.2 := by
  obtain ⟨act,steady⟩ := act
  cases act with
  | call a =>
    simp only [Door.step,Door.call]
    split_ifs
    · refine ⟨fun x hx => ?_,fun x hx => Or.inl hx⟩
      obtain hx|hx := List.mem_append.mp hx
      · exact Or.inl hx
      · rw [List.mem_singleton.mp hx]
        exact Or.inr nofun
    · exact ⟨fun x hx => Or.inl hx,fun x hx => Or.inl hx⟩
  | finish i w =>
    simp only [Door.step,Door.finish]
    split
    · exact ⟨fun x hx => Or.inl hx,fun x hx => Or.inl hx⟩
    · rename_i a ha
      obtain ⟨hvouched,hnamed⟩ := authenticateUnthrottled_spec pbkdf2 authBackend w a
      refine ⟨fun x hx => ?_,fun x hx => ?_⟩
      · obtain hx|hx := List.mem_append.mp hx
        · exact Or.inl hx
        · rw [List.mem_singleton.mp hx]
          exact Or.inr fun hok => ⟨i,w,rfl,ha,hvouched hok⟩
      · obtain hx|hx := List.mem_append.mp hx
        · exact Or.inl hx
        · obtain ⟨b,hb,rfl⟩ := List.mem_map.mp hx
          exact Or.inr ⟨i,w,rfl,ha,hnamed b hb⟩

/-- An attempt is accepted only by a check of its own, at which the stored hash of its account took
the password, or the one directory that its login names did; and the answer speaks for that account
or that directory alone. -/
theorem auth_accepted_vouched (acts : List (DoorAct × Int)) :
    ∀ x∈(door pbkdf2 authBackend loginFailureThreshold loginLockoutSec acts).answers,x.2.ok=true →
      Happened (fun pre act => ∃ i w,act.1=.finish i w ∧
        (door pbkdf2 authBackend loginFailureThreshold loginLockoutSec pre).inFlight[i]?=some x.1 ∧
        Vouched pbkdf2 authBackend w x.1 x.2) acts := by
  intro x hx hok
  have hmem := happened_of_mem_run (f := Door.answers) (fun d act x hx =>
    (finish_step pbkdf2 authBackend loginFailureThreshold loginLockoutSec d act).1 x hx) rfl acts x hx
  exact hmem.imp fun pre act h => h hok

def corpDirectory : Directory :=
  ⟨⟨octets "corp",.ldap,octets "Corp",octets "CORP",octets "corp.example"⟩,true⟩

/-- A name that the table of users does not have, and a directory that knows it. -/
def corpWorld : World where
  users _ := some none
  directories := [corpDirectory]
  bindCheck _ user password := user = octets "alice" ∧ password = octets "pw"
  groupsForUser _ _ := [octets "staff"]

def corpAttempt : Attempt := ⟨octets "CORP\\alice",octets "pw",octets "192.0.2.7"⟩

def corpLogin : List (DoorAct × Int) := [(.call corpAttempt,50),(.finish 0 corpWorld,51)]

theorem auth_accepted_vouched_corp : ∃ x∈(door (fun _ _ _ => none) (octets "ldap") 5 300 corpLogin).answers,
    x.2.ok=true ∧ Happened (fun pre act => ∃ i w,act.1=.finish i w ∧
      (door (fun _ _ _ => none) (octets "ldap") 5 300 pre).inFlight[i]?=some x.1 ∧
      Vouched (fun _ _ _ => none) (octets "ldap") w x.1 x.2) corpLogin := by
  let answer : AuthResult := ⟨true,"",[octets "corp\\staff"],octets "corp\\alice",0⟩
  have hanswer : (corpAttempt,answer)∈
      (door (fun _ _ _ => none) (octets "ldap") 5 300 corpLogin).answers := by
    decide +kernel
  exact ⟨(corpAttempt,answer),hanswer,rfl,
    auth_accepted_vouched (fun _ _ _ => none) (octets "ldap") 5 300 corpLogin _ hanswer rfl⟩

/-- A password is shown to no directory but the one that the login with it names, and to none where
the look-up of the name finds a hash here. -/
theorem auth_password_kept (acts : List (DoorAct × Int)) :
    ∀ x∈(door pbkdf2 authBackend loginFailureThreshold loginLockoutSec acts).shown,
      Happened (fun pre act => ∃ i w,act.1=.finish i w ∧
        (door pbkdf2 authBackend loginFailureThreshold loginLockoutSec pre).inFlight[i]?=some x.1 ∧
        Named authBackend w x.1 x.2) acts := by
  exact happened_of_mem_run (f := Door.shown) (fun d act x hx =>
    (finish_step pbkdf2 authBackend loginFailureThreshold loginLockoutSec d act).2 x hx) rfl acts

theorem auth_password_kept_corp : ∃ x∈(door (fun _ _ _ => none) (octets "ldap") 5 300 corpLogin).shown,
    x.2.provider=octets "corp" ∧ Happened (fun pre act => ∃ i w,act.1=.finish i w ∧
      (door (fun _ _ _ => none) (octets "ldap") 5 300 pre).inFlight[i]?=some x.1 ∧
      Named (octets "ldap") w x.1 x.2) corpLogin := by
  have hshown : (corpAttempt,⟨octets "corp",octets "alice",octets "pw"⟩)∈
      (door (fun _ _ _ => none) (octets "ldap") 5 300 corpLogin).shown := by
    decide +kernel
  exact ⟨_,hshown,rfl,auth_password_kept (fun _ _ _ => none) (octets "ldap") 5 300 corpLogin _ hshown⟩

end Runs

section Waits

variable {pbkdf2 : Pbkdf2} {authBackend : Octets} {loginFailureThreshold loginLockoutSec : Int}

def DoorAct.keys : DoorAct → List Octets
  | .call a => LoginThrottle.keysOf a.username a.clientIp
  | .finish _ _ => []

/-- The callers use these keys only, and the throttle has room for all of them. -/
def Few (ks : List Octets) (acts : List (DoorAct × Int)) : Prop :=
  ks.length ≤ LoginThrottle.init.maxKeys ∧ ∀ x∈acts,∀ k∈x.1.keys,k∈ks

theorem Few.init {ks : List Octets} {acts : List (DoorAct × Int)} {act : DoorAct × Int}
    (h : Few ks (acts++[act])) : Few ks acts :=
  ⟨h.1,fun x hx => h.2 x (List.mem_append_left _ hx)⟩

/-- What a run of the door keeps of its throttle. -/
structure Recorded (ks : List Octets) (d : Door) : Prop where
  throttle : d.throttle=run LoginThrottle.step .init d.ops
  within : LoginThrottle.Within ks d.ops
  flying : ∀ a∈d.inFlight,∀ k∈LoginThrottle.keysOf a.username a.clientIp,k∈ks

theorem Recorded.ask {ks : List Octets} {d : Door} (h : Recorded ks d) (op : LoginThrottle.Op)
    (hop : ∀ k∈LoginThrottle.touched op,k∈ks) (steady : Int) : Recorded ks (d.ask op steady) := by
  refine ⟨?_,⟨h.within.1,?_⟩,h.flying⟩
  · rw [Door.ask,run_append,← h.throttle]
    rfl
  · intro x hx
    obtain hx|hx := List.mem_append.mp hx
    · exact h.within.2 x hx
    · rw [List.mem_singleton.mp hx]
      exact hop

theorem Recorded.step {ks : List Octets} {d : Door} (h : Recorded ks d) {act : DoorAct × Int}
    (hact : ∀ k∈act.1.keys,k∈ks) :
    Recorded ks (d.step pbkdf2 authBackend loginFailureThreshold loginLockoutSec act) := by
  obtain ⟨act,steady⟩ := act
  cases act with
  | call a =>
    have hask := h.ask (.configure loginFailureThreshold loginLockoutSec) nofun steady
    simp only [Door.step,Door.call]
    split_ifs
    · exact ⟨hask.throttle,hask.within,hask.flying⟩
    · refine ⟨hask.throttle,hask.within,fun b hb => ?_⟩
      obtain hb|hb := List.mem_append.mp hb
      · exact h.flying b hb
      · rw [List.mem_singleton.mp hb]
        exact hact
  | finish i w =>
    simp only [Door.step,Door.finish]
    split
    · exact h
    · rename_i a ha
      have hown := h.flying a (List.mem_of_getElem? ha)
      have hask := h.ask (if (authenticateUnthrottled pbkdf2 authBackend w a).1.ok then
        .recordSuccess a.username a.clientIp else .recordFailure a.username a.clientIp)
        (by split_ifs; exacts [nofun,hown]) steady
      exact ⟨hask.throttle,hask.within,fun b hb => h.flying b (List.mem_of_mem_eraseIdx hb)⟩

theorem recorded_door {ks : List Octets} (acts : List (DoorAct × Int)) : Few ks acts →
    Recorded ks (door pbkdf2 authBackend loginFailureThreshold loginLockoutSec acts) := by
  refine run_history (I := fun acts (d : Door) => Few ks acts → Recorded ks d) ?_ ?_ acts
  · intro h
    exact ⟨rfl,⟨h.1,nofun⟩,nofun⟩
  · intro acts act ih h
    exact (ih h.init).step (h.2 act (List.mem_append_right _ List.mem_cons_self))

/-- A caller is let in when the plain record of all that was answered before asks for no wait, of the
account or of the address. -/
def LetIn (loginFailureThreshold loginLockoutSec : Int) (d : Door) (act : DoorAct × Int)
    (a : Attempt) : Prop :=
  act.1=.call a ∧
    let d := d.ask (.configure loginFailureThreshold loginLockoutSec) act.2
    d.throttle.plainWait act.2 a.username a.clientIp d.ops ≤ 0

theorem threshold_configure (s : LoginThrottle) {loginFailureThreshold : Int}
    (h : loginFailureThreshold ≤ 980) (loginLockoutSec steady : Int) :
    (s.step (.configure loginFailureThreshold loginLockoutSec,steady)).threshold ≤ 980 := by
  simp only [LoginThrottle.step,LoginThrottle.configure]
  split_ifs
  · exact h
  · decide

/-- The throttle lets in by its table those that the plain record lets in. -/
theorem Recorded.letIn {ks : List Octets} {d : Door} (h : Recorded ks d)
    (hthreshold : loginFailureThreshold ≤ 980) {a : Attempt} {steady : Int}
    (hwait : ¬(d.ask (.configure loginFailureThreshold loginLockoutSec) steady).wait a steady > 0) :
    LetIn loginFailureThreshold loginLockoutSec d (.call a,steady) a := by
  have hask := h.ask (.configure loginFailureThreshold loginLockoutSec) nofun steady
  have hagrees := LoginThrottle.agrees_run _ hask.within
  rw [← hask.throttle] at hagrees
  have hplain := hagrees.retryAfter (threshold_configure d.throttle hthreshold loginLockoutSec steady)
    steady a.username a.clientIp
  refine ⟨rfl,?_⟩
  change LoginThrottle.plainWait _ steady a.username a.clientIp _ ≤ 0
  rw [← hplain]
  exact not_lt.mp hwait

/-- What is in flight was let in, and so was what has been checked. -/
structure Waited (P : Attempt → Prop) (d : Door) : Prop where
  flying : ∀ a∈d.inFlight,P a
  checked : ∀ x∈d.answers,x.2.retryAfter=0 → P x.1

theorem Waited.step {ks : List Octets} {d : Door} (hrec : Recorded ks d)
    (hthreshold : loginFailureThreshold ≤ 980) {P : Attempt → Prop} (h : Waited P d)
    (act : DoorAct × Int) (hin : ∀ a,LetIn loginFailureThreshold loginLockoutSec d act a → P a) :
    Waited P (d.step pbkdf2 authBackend loginFailureThreshold loginLockoutSec act) := by
  obtain ⟨act,steady⟩ := act
  cases act with
  | call a =>
    simp only [Door.step,Door.call]
    split_ifs with hwait
    · refine ⟨h.flying,fun x hx hzero => ?_⟩
      obtain hx|hx := List.mem_append.mp hx
      · exact h.checked x hx hzero
      · rw [List.mem_singleton.mp hx] at hzero
        exact absurd hzero (ne_of_gt hwait)
    · refine ⟨fun b hb => ?_,h.checked⟩
      obtain hb|hb := List.mem_append.mp hb
      · exact h.flying b hb
      · rw [List.mem_singleton.mp hb]
        exact hin a (hrec.letIn hthreshold hwait)
  | finish i w =>
    simp only [Door.step,Door.finish]
    split
    · exact h
    · rename_i a ha
      refine ⟨fun b hb => h.flying b (List.mem_of_mem_eraseIdx hb),fun x hx hzero => ?_⟩
      obtain hx|hx := List.mem_append.mp hx
      · exact h.checked x hx hzero
      · rw [List.mem_singleton.mp hx]
        exact h.flying a (List.mem_of_getElem? ha)

/-- No password is checked out of time: whatever attempts overlap, each answer that is no wait goes
back to a call at a moment when the plain record of the failures of its account and of its address
asked for no wait. -/
theorem auth_checked_after_wait (pbkdf2 : Pbkdf2) (authBackend : Octets)
    (loginFailureThreshold loginLockoutSec : Int) (hthreshold : loginFailureThreshold ≤ 980)
    (ks : List Octets) (acts : List (DoorAct × Int)) (hfew : Few ks acts) :
    ∀ x∈(door pbkdf2 authBackend loginFailureThreshold loginLockoutSec acts).answers,
      x.2.retryAfter=0 → Happened (fun pre act => LetIn loginFailureThreshold loginLockoutSec
        (door pbkdf2 authBackend loginFailureThreshold loginLockoutSec pre) act x.1) acts := by
  have hwaited : Few ks acts → Waited (fun a => Happened (fun pre act =>
      LetIn loginFailureThreshold loginLockoutSec
        (door pbkdf2 authBackend loginFailureThreshold loginLockoutSec pre) act a) acts)
      (door pbkdf2 authBackend loginFailureThreshold loginLockoutSec acts) := by
    refine run_history (I := fun acts d => Few ks acts → Waited (fun a => Happened (fun pre act =>
      LetIn loginFailureThreshold loginLockoutSec
        (door pbkdf2 authBackend loginFailureThreshold loginLockoutSec pre) act a) acts) d)
      (fun _ => ⟨fun _ h => (List.not_mem_nil h).elim,fun _ h => (List.not_mem_nil h).elim⟩) ?_ acts
    intro acts act ih hfew
    have hbefore := ih hfew.init
    refine Waited.step (recorded_door acts hfew.init) hthreshold ⟨?_,?_⟩ act ?_
    · exact fun a ha => (hbefore.flying a ha).append [act]
    · exact fun x hx hzero => (hbefore.checked x hx hzero).append [act]
    · exact fun a ha => Happened.last ha
  exact (hwaited hfew).checked

def stranger : Attempt := ⟨octets "mallory",octets "guess",octets "192.0.2.7"⟩

def nobody : World := ⟨fun _ => some none,[],fun _ _ _ => false,fun _ _ => []⟩

/-- Two guesses, a third in the same second that has to wait, and a fourth one second later. -/
def guessing : List (DoorAct × Int) :=
  [(.call stranger,50),(.finish 0 nobody,50),(.call stranger,50),(.finish 0 nobody,50),
    (.call stranger,50),(.call stranger,51),(.finish 0 nobody,51)]

theorem auth_checked_after_wait_guessing :
    (door (fun _ _ _ => none) (octets "local") 1 300 guessing).answers.map (·.2.retryAfter)=
      [0,0,1,0] ∧
    Happened (fun pre act => LetIn 1 300 (door (fun _ _ _ => none) (octets "local") 1 300 pre) act
      stranger) guessing :=
  ⟨by decide +kernel,auth_checked_after_wait (fun _ _ _ => none) (octets "local") 1 300 (by decide)
    (LoginThrottle.keysOf stranger.username stranger.clientIp) guessing
    ⟨by decide +kernel,by decide +kernel⟩ (stranger,.denied) (by decide +kernel) rfl⟩

end Waits

end FastPki.Auth
