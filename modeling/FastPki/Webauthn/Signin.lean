import FastPki.Webauthn.Passkeys

namespace FastPki.Webauthn
open X509 Cbor
open Auth (WebUser beforeFirst afterFirst beforeFirst_append afterFirst_append)
open Auth.Sessions (Sess textParam)

section Steps

variable (lib : Library) (sql : Sql) (pkiDns : Octets)

/-- The challenge that an action stores. -/
inductive Issues (s : State) : Act → Challenge → Prop
  | signin {env : Env} {c : Challenge}
      (h : challengeRow sql ⟨newB64url env.drawn,.signin,[],env.now+kPasskeyChallengeTtl⟩=.ok c) :
      Issues s (.beginSignin true env) c
  | register {i : Nat} {env : Env} {user handle : Octets} {c : Challenge}
      (hj : s.jobs[i]?=some (.enrolling user handle))
      (h : challengeRow sql ⟨newB64url env.drawn,.register,handle++bar::user,
        env.now+kPasskeyChallengeTtl⟩=.ok c) : Issues s (.advance i env) c

/-- The request that an action leaves under way, and what it has found so far. -/
inductive Starts (s : State) : Act → Job → Prop
  | signin {body : Octets} {env : Env} {a : Answer} {t : Challenge} (hread : readAnswer lib body=.ok a)
      (ht : t∈s.challenges.rows)
      (hhit : t.answers (cString a.clientData.challenge) .signin env.now=true) :
      Starts s (.takeSignin true body env) (.signin t a)
  | signed {i : Nat} {env : Env} {t : Challenge} {a : Answer} {pk : PasskeyRow} {count : Nat}
      {ev : Evidence} {u : WebUser} (hj : s.jobs[i]?=some (.signin t a))
      (hcheck : checkSignin lib sql pkiDns s.passkeys a=.ok (pk,count,ev))
      (hu : findUser sql env.users pk.subject=some u) :
      Starts s (.advance i env) (.signed t pk count ev u)
  | enrolling {who : Sess} {env : Env} {handle : Octets} (hfresh : signedInRecently who env.now=true)
      (hh : handleFor sql s.passkeys who.user env.drawn=.ok handle) :
      Starts s (.beginRegister (some who) env) (.enrolling who.user handle)
  | registering {who : Sess} {body : Octets} {env : Env} {a : Answer} {t : Challenge}
      (hfresh : signedInRecently who env.now=true) (hread : readAnswer lib body=.ok a)
      (ht : t∈s.challenges.rows)
      (hhit : t.answers (cString a.clientData.challenge) .register env.now=true) :
      Starts s (.takeRegister (some who) body env) (.registering t who.user a env.now)
  | adding {i : Nat} {env : Env} {t : Challenge} {user : Octets} {a : Answer} {now : Int}
      {row : PasskeyRow} (hj : s.jobs[i]?=some (.registering t user a now))
      (hcheck : checkRegister lib sql pkiDns s.passkeys user t.subject a now=.ok row) :
      Starts s (.advance i env) (.adding t a row)
  | removing {owner id : Octets} : Starts s (.removePasskey owner id) (.removing id)

inductive Opens (s : State) : Act → Opened → Prop
  | mk {i : Nat} {env : Env} {o : Opened}
      (hj : s.jobs[i]?=some (.signed o.ticket o.row o.count o.evidence o.account)) :
      Opens s (.advance i env) o

inductive Adds (s : State) : Act → Added → Prop
  | mk {i : Nat} {env : Env} {d : Added} (hj : s.jobs[i]?=some (.adding d.ticket d.answer d.row)) :
      Adds s (.advance i env) d

end Steps

section Members

variable {lib : Library} {sql : Sql} {pkiDns : Octets} {s : State}

theorem insertChallenge_rows {c x : Challenge} (h : x∈(insertChallenge sql s c).challenges.rows) :
    x∈s.challenges.rows ∨ challengeRow sql c=.ok x := by
  rw [insertChallenge] at h
  cases hrow : challengeRow sql c with
  | error e =>
    rw [hrow] at h
    exact Or.inl h
  | ok row =>
    simp only [hrow] at h
    cases hins : s.challenges.insert row with
    | none =>
      simp only [hins] at h
      exact Or.inl h
    | some u =>
      simp only [hins,(Keyed.insert_eq_some hins).2,List.mem_append,List.mem_singleton] at h
      exact h.imp_right fun hx => by rw [hx]

theorem putPasskeyChallenge_rows {c x : Challenge} {now : Int} {fate : PutFate}
    (h : x∈(putPasskeyChallenge sql s c now fate).challenges.rows) :
    x∈s.challenges.rows ∨ challengeRow sql c=.ok x := by
  have hswept : ∀ y,y∈(sweepChallenges s.challenges now).rows → y∈s.challenges.rows :=
    fun y hy => (Keyed.mem_delete.mp hy).1
  cases fate with
  | ok => exact (insertChallenge_rows h).imp_left (hswept x)
  | neither => exact Or.inl h
  | sweep => exact Or.inl (hswept x h)
  | both => exact (insertChallenge_rows h).imp_left (hswept x)

/-- A challenge touches neither the requests nor what came of them. -/
theorem putPasskeyChallenge_rest (sql : Sql) (s : State) (c : Challenge) (now : Int)
    (fate : PutFate) :
    (putPasskeyChallenge sql s c now fate).jobs=s.jobs ∧
    (putPasskeyChallenge sql s c now fate).opened=s.opened ∧
    (putPasskeyChallenge sql s c now fate).added=s.added ∧
    (putPasskeyChallenge sql s c now fate).passkeys=s.passkeys := by
  have hins : ∀ t : State,(insertChallenge sql t c).jobs=t.jobs ∧
      (insertChallenge sql t c).opened=t.opened ∧ (insertChallenge sql t c).added=t.added ∧
      (insertChallenge sql t c).passkeys=t.passkeys := by
    intro t
    rw [insertChallenge]
    cases challengeRow sql c with
    | error e => exact ⟨rfl,rfl,rfl,rfl⟩
    | ok row =>
      cases hins : t.challenges.insert row with
      | none => simp [hins]
      | some u => simp [hins]
  cases fate with
  | ok => exact hins _
  | neither => exact ⟨rfl,rfl,rfl,rfl⟩
  | sweep => exact ⟨rfl,rfl,rfl,rfl⟩
  | both => exact hins _

theorem takeFor_jobs {a : Answer} {purpose : Purpose} {env : Env} {job : Challenge → Job} {j : Job}
    (h : j∈(takeFor sql s a purpose env job).jobs) : j∈s.jobs ∨
    ∃ t∈s.challenges.rows,t.answers (cString a.clientData.challenge) purpose env.now=true ∧
      j=job t := by
  obtain heq|heq|⟨t,hfind,heq⟩ := takeFor_cases sql s a purpose env job
  · rw [heq] at h
    exact Or.inl h
  · rw [heq] at h
    exact Or.inl h
  · rw [heq,List.mem_cons] at h
    obtain hj|hj := h
    · exact Or.inr ⟨t,List.mem_of_find?_eq_some hfind,List.find?_some hfind,hj⟩
    · exact Or.inl hj

theorem takeFor_rest (sql : Sql) (s : State) (a : Answer) (purpose : Purpose) (env : Env)
    (job : Challenge → Job) : (takeFor sql s a purpose env job).opened=s.opened ∧
    (takeFor sql s a purpose env job).added=s.added ∧
    (takeFor sql s a purpose env job).passkeys=s.passkeys ∧
    ∀ c∈(takeFor sql s a purpose env job).challenges.rows,c∈s.challenges.rows := by
  obtain heq|heq|⟨t,_,heq⟩ := takeFor_cases sql s a purpose env job
  · rw [heq]
    exact ⟨rfl,rfl,rfl,fun c hc => hc⟩
  · rw [heq]
    exact ⟨rfl,rfl,rfl,fun c hc => (Keyed.mem_delete.mp hc).1⟩
  · rw [heq]
    exact ⟨rfl,rfl,rfl,fun c hc => (Keyed.mem_delete.mp hc).1⟩

end Members

section Moves

variable {lib : Library} {sql : Sql} {pkiDns : Octets}

/-- What a sign-in does not change of a passkey. -/
def PasskeyRow.identity (r : PasskeyRow) : Octets × Octets × Octets × Octets × Int :=
  (r.credentialId,r.subject,r.userHandle,r.publicKey,r.alg)

/-- A row as the database takes it. -/
def PasskeyRow.asStored (r : PasskeyRow) : PasskeyRow :=
  { r with
    credentialId := cString r.credentialId
    subject := cString r.subject
    userHandle := cString r.userHandle
    name := cString r.name
    lastUsed := 0 }

/-- Whatever is there after an action was there before, or the action brought it. -/
structure Moves (lib : Library) (sql : Sql) (pkiDns : Octets) (s : State) (a : Act) (t : State) :
    Prop where
  challenges : ∀ c∈t.challenges.rows,c∈s.challenges.rows ∨ Issues sql s a c
  jobs : ∀ j∈t.jobs,j∈s.jobs ∨ Starts lib sql pkiDns s a j
  opened : ∀ o∈t.opened,o∈s.opened ∨ Opens s a o
  added : ∀ d∈t.added,d∈s.added ∨ Adds s a d
  kept : ∀ d∈s.added,d∈t.added
  passkeys : ∀ r∈t.passkeys.rows,(∃ x∈s.passkeys.rows,x.identity=r.identity) ∨
    ∃ d∈t.added,d.row.asStored=r

theorem Moves.idle (s : State) (a : Act) {t : State} (hc : ∀ c∈t.challenges.rows,c∈s.challenges.rows)
    (hj : ∀ j∈t.jobs,j∈s.jobs ∨ Starts lib sql pkiDns s a j) (ho : t.opened=s.opened)
    (hd : t.added=s.added) (hp : ∀ r∈t.passkeys.rows,r∈s.passkeys.rows) :
    Moves lib sql pkiDns s a t where
  challenges c h := Or.inl (hc c h)
  jobs := hj
  opened _ h := Or.inl (ho ▸ h)
  added _ h := Or.inl (hd ▸ h)
  kept _ h := hd ▸ h
  passkeys r h := Or.inl ⟨r,hp r h,rfl⟩

theorem textOf_eq_ok {what : String} {x y : Octets} (h : textOf sql what x=.ok y) : y=cString x := by
  rw [textOf,textParam] at h
  split_ifs at h
  exact (Except.ok.inj h).symm

theorem addPasskey_eq_ok {t u : Passkeys} {p : PasskeyRow} (h : addPasskey sql t p=.ok u) :
    t.insert p.asStored=some u := by
  obtain ⟨id,hid,h⟩ := bind_eq_ok_iff.mp h
  obtain ⟨subject,hsubject,h⟩ := bind_eq_ok_iff.mp h
  obtain ⟨handle,hhandle,h⟩ := bind_eq_ok_iff.mp h
  obtain ⟨name,hname,h⟩ := bind_eq_ok_iff.mp h
  rw [textOf_eq_ok hid,textOf_eq_ok hsubject,textOf_eq_ok hhandle,textOf_eq_ok hname] at h
  split at h
  · rename_i v hins
    rw [← Except.ok.inj h]
    exact hins
  · cases h

theorem challengeRow_eq_ok {c x : Challenge} (h : challengeRow sql c=.ok x) :
    x={ c with challenge := cString c.challenge,subject := cString c.subject } := by
  obtain ⟨ch,hch,h⟩ := bind_eq_ok_iff.mp h
  obtain ⟨subject,hsubject,h⟩ := bind_eq_ok_iff.mp h
  rw [← Except.ok.inj h,textOf_eq_ok hch,textOf_eq_ok hsubject]

theorem touchPasskey_identity {t : Passkeys} {id : Octets} {n last : Int} {r : PasskeyRow}
    (h : r∈(touchPasskey t id n last).rows) : ∃ x∈t.rows,x.identity=r.identity := by
  obtain ⟨x,hx,rfl⟩ := Keyed.mem_update.mp h
  refine ⟨x,hx,?_⟩
  split_ifs <;> rfl

theorem put_moves (s : State) (a : Act) {js : List Job} {c : Challenge} {now : Int} {fate : PutFate}
    (hj : ∀ j∈js,j∈s.jobs ∨ Starts lib sql pkiDns s a j)
    (hc : ∀ x,challengeRow sql c=.ok x → Issues sql s a x) :
    Moves lib sql pkiDns s a (putPasskeyChallenge sql { s with jobs := js } c now fate) := by
  obtain ⟨hjobs,hopened,hadded,hpass⟩ :=
    putPasskeyChallenge_rest sql { s with jobs := js } c now fate
  constructor
  · exact fun x hx => (putPasskeyChallenge_rows hx).imp_right (hc x)
  · rw [hjobs]
    exact hj
  · rw [hopened]
    exact fun o ho => Or.inl ho
  · rw [hadded]
    exact fun d hd => Or.inl hd
  · rw [hadded]
    exact fun d hd => hd
  · rw [hpass]
    exact fun r hr => Or.inl ⟨r,hr,rfl⟩

theorem take_moves (s : State) (act : Act) {a : Answer} {purpose : Purpose} {env : Env}
    {job : Challenge → Job} (hj : ∀ t∈s.challenges.rows,
      t.answers (cString a.clientData.challenge) purpose env.now=true →
        Starts lib sql pkiDns s act (job t)) :
    Moves lib sql pkiDns s act (takeFor sql s a purpose env job) := by
  obtain ⟨hopened,hadded,hpass,hrows⟩ := takeFor_rest sql s a purpose env job
  refine Moves.idle s act hrows (fun j hmem => ?_) hopened hadded ?_
  · obtain h|⟨t,ht,hhit,rfl⟩ := takeFor_jobs hmem
    · exact Or.inl h
    · exact Or.inr (hj t ht hhit)
  · rw [hpass]
    exact fun r hr => hr

/-- A request that is under way goes on. -/
theorem advance_moves (s : State) (i : Nat) (env : Env) {j : Job} (hj : s.jobs[i]?=some j) :
    Moves lib sql pkiDns s (.advance i env)
      (advance lib sql pkiDns { s with jobs := s.jobs.eraseIdx i } env j) := by
  have herase : ∀ k∈s.jobs.eraseIdx i,k∈s.jobs ∨ Starts lib sql pkiDns s (.advance i env) k :=
    fun k hk => Or.inl (List.mem_of_mem_eraseIdx hk)
  have hidle : Moves lib sql pkiDns s (.advance i env) { s with jobs := s.jobs.eraseIdx i } :=
    Moves.idle s _ (fun c hc => hc) herase rfl rfl fun r hr => hr
  have hpush : ∀ k,Starts lib sql pkiDns s (.advance i env) k →
      Moves lib sql pkiDns s (.advance i env) { s with jobs := k::s.jobs.eraseIdx i } := by
    intro k hk
    refine Moves.idle s _ (fun c hc => hc) (fun l hl => ?_) rfl rfl fun r hr => hr
    obtain rfl|hl := List.mem_cons.mp hl
    · exact Or.inr hk
    · exact herase l hl
  cases j with
  | signin t a =>
    simp only [advance]
    split
    · exact hidle
    · next pk count ev hcheck =>
      split
      · exact hidle
      · next u hu => exact hpush _ (Starts.signed hj hcheck hu)
  | signed t row count ev u =>
    simp only [advance,openSession]
    have hopened : ∀ o∈(⟨t,row,count,ev,u⟩::s.opened : List Opened),
        o∈s.opened ∨ Opens s (.advance i env) o := by
      intro o ho
      obtain rfl|ho := List.mem_cons.mp ho
      · exact Or.inr ⟨hj⟩
      · exact Or.inl ho
    split_ifs
    · exact { hidle with opened := hopened }
    · exact { hidle with
        opened := hopened
        passkeys := fun r hr => Or.inl (touchPasskey_identity hr) }
    · exact hidle
    · exact { hidle with passkeys := fun r hr => Or.inl (touchPasskey_identity hr) }
  | enrolling user handle =>
    simp only [advance]
    exact put_moves s _ herase fun c h => Issues.register hj h
  | registering t user a now =>
    simp only [advance]
    split
    · rename_i row hcheck
      exact hpush _ (Starts.adding hj hcheck)
    · exact hidle
  | adding t a row =>
    simp only [advance,addRow]
    cases hadd : addPasskey sql s.passkeys row with
    | error e => exact hidle
    | ok u =>
      simp only
      split_ifs
      · exact hidle
      · have hrows := (Keyed.insert_eq_some (addPasskey_eq_ok hadd)).2
        refine { hidle with added := fun d hd => ?_,kept := fun d hd => ?_,passkeys := fun r hr => ?_ }
        · obtain rfl|hd := List.mem_cons.mp hd
          · exact Or.inr ⟨hj⟩
          · exact Or.inl hd
        · exact List.mem_cons_of_mem _ hd
        · rw [hrows,List.mem_append,List.mem_singleton] at hr
          obtain hr|rfl := hr
          · exact Or.inl ⟨r,hr,rfl⟩
          · exact Or.inr ⟨_,List.mem_cons_self,rfl⟩
  | removing id =>
    exact Moves.idle s _ (fun c hc => hc) herase rfl rfl fun r hr => (Keyed.mem_delete.mp hr).1

theorem step_moves (s : State) (a : Act) : Moves lib sql pkiDns s a (step lib sql pkiDns s a) := by
  have hjobs : ∀ j∈s.jobs,j∈s.jobs ∨ Starts lib sql pkiDns s a j := fun j hj => Or.inl hj
  have hidle : Moves lib sql pkiDns s a s :=
    Moves.idle s a (fun c hc => hc) hjobs rfl rfl fun r hr => hr
  have hpush : ∀ k,Starts lib sql pkiDns s a k →
      Moves lib sql pkiDns s a { s with jobs := k::s.jobs } := by
    intro k hk
    refine Moves.idle s _ (fun c hc => hc) (fun l hl => ?_) rfl rfl fun r hr => hr
    obtain rfl|hl := List.mem_cons.mp hl
    · exact Or.inr hk
    · exact Or.inl hl
  cases a with
  | beginSignin allowed env =>
    cases allowed with
    | false => exact hidle
    | true => exact put_moves s _ hjobs fun c h => Issues.signin h
  | takeSignin allowed body env =>
    cases allowed with
    | false => exact hidle
    | true =>
      simp only [step,takeSignin]
      split
      · exact hidle
      · split
        · exact hidle
        · rename_i a hread
          exact take_moves s _ fun t ht hhit => Starts.signin hread ht hhit
  | beginRegister sess env =>
    cases sess with
    | none => exact hidle
    | some who =>
      simp only [step,beginRegister]
      split_ifs with hfresh
      · exact hidle
      · split
        · exact hidle
        · rename_i handle hh
          exact hpush _ (Starts.enrolling (by simpa using hfresh) hh)
  | takeRegister sess body env =>
    cases sess with
    | none => exact hidle
    | some who =>
      simp only [step,takeRegister]
      split_ifs with hfresh
      · exact hidle
      · split
        · exact hidle
        · rename_i a hread
          exact take_moves s _ fun t ht hhit =>
            Starts.registering (by simpa using hfresh) hread ht hhit
  | removePasskey owner id =>
    simp only [step,removePasskey]
    split
    · split_ifs
      · exact hpush _ Starts.removing
      · exact hidle
    · exact hidle
  | deleteFor subject =>
    exact Moves.idle s _ (fun c hc => hc) hjobs rfl rfl fun r hr => (Keyed.mem_delete.mp hr).1
  | advance i env =>
    simp only [step]
    split
    · exact hidle
    · rename_i j hj
      exact advance_moves s i env hj

end Moves

section Origins

variable {lib : Library} {sql : Sql} {pkiDns : Octets}

/-- The state after these actions. -/
def after (lib : Library) (sql : Sql) (pkiDns : Octets) (acts : List Act) : State :=
  run (step lib sql pkiDns) State.start acts

theorem challenge_issued (acts : List Act) : ∀ c∈(after lib sql pkiDns acts).challenges.rows,
    Happened (fun pre a => Issues sql (after lib sql pkiDns pre) a c) acts :=
  happened_of_mem_run (f := fun s : State => s.challenges.rows)
    (fun s a => (step_moves s a).challenges) rfl acts

theorem job_started (acts : List Act) : ∀ j∈(after lib sql pkiDns acts).jobs,
    Happened (fun pre a => Starts lib sql pkiDns (after lib sql pkiDns pre) a j) acts :=
  happened_of_mem_run (f := State.jobs) (fun s a => (step_moves s a).jobs) rfl acts

theorem session_opened (acts : List Act) : ∀ o∈(after lib sql pkiDns acts).opened,
    Happened (fun pre a => Opens (after lib sql pkiDns pre) a o) acts :=
  happened_of_mem_run (f := State.opened) (fun s a => (step_moves s a).opened) rfl acts

theorem passkey_added (acts : List Act) : ∀ d∈(after lib sql pkiDns acts).added,
    Happened (fun pre a => Adds (after lib sql pkiDns pre) a d) acts :=
  happened_of_mem_run (f := State.added) (fun s a => (step_moves s a).added) rfl acts

/-- Every passkey of the store was added, and what identifies it has not changed since. -/
theorem passkey_of_added (acts : List Act) : ∀ r∈(after lib sql pkiDns acts).passkeys.rows,
    ∃ d∈(after lib sql pkiDns acts).added,d.row.asStored.identity=r.identity := by
  refine run_invariant (I := fun s : State => ∀ r∈s.passkeys.rows,
    ∃ d∈s.added,d.row.asStored.identity=r.identity) ?_ ?_ acts
  · intro s a hs r hr
    have hm : Moves lib sql pkiDns s a (step lib sql pkiDns s a) := step_moves s a
    obtain ⟨x,hx,hsame⟩|⟨d,hd,rfl⟩ := hm.passkeys r hr
    · obtain ⟨d,hd,hid⟩ := hs x hx
      exact ⟨d,hm.kept d hd,hid.trans hsame⟩
    · exact ⟨d,hd,rfl⟩
  · intro r hr
    cases hr

theorem cString_of_urlSafe {t : Octets} (h : ∀ c∈t,Jws.isUrlSafe c=true) : cString t=t := by
  apply cString_eq_self_iff.mpr
  intro hz
  exact absurd (h 0 hz) (by decide)

theorem cString_newB64url (drawn : Vector UInt8 32) : cString (newB64url drawn)=newB64url drawn :=
  cString_of_urlSafe Jws.isUrlSafe_base64urlEncode

/-- The rule of the signature counter. -/
def Advances (stored : Int) (count : Nat) : Prop := (count=0 ∧ stored=0) ∨ stored < count

theorem checkSignin_eq_ok {t : Passkeys} {a : Answer} {pk : PasskeyRow} {count : Nat} {ev : Evidence}
    (h : checkSignin lib sql pkiDns t a=.ok (pk,count,ev)) :
    pk∈t.rows ∧ ev.clientDataJson=a.clientDataJson ∧ Advances pk.signCount count ∧
    Asserted lib pkiDns a.clientData.challenge pk.publicKey pk.alg ev.clientDataJson
      ev.authenticatorData ev.signature count := by
  obtain ⟨id,_,h⟩ := bind_eq_ok_iff.mp h
  obtain ⟨found,hfound,h⟩ := bind_eq_ok_iff.mp h
  obtain ⟨key,_,hkey⟩ := bind_eq_ok_iff.mp hfound
  cases found with
  | none => cases h
  | some p =>
    obtain ⟨uh,_,h⟩ := bind_eq_ok_iff.mp h
    split_ifs at h
    obtain ⟨data,_,h⟩ := bind_eq_ok_iff.mp h
    obtain ⟨signature,_,h⟩ := bind_eq_ok_iff.mp h
    obtain ⟨n,hn,h⟩ := bind_eq_ok_iff.mp h
    split_ifs at h with hcount
    have hsame := Except.ok.inj h
    rw [Prod.mk.injEq,Prod.mk.injEq] at hsame
    obtain ⟨rfl,rfl,rfl⟩ := hsame
    have hmem : p∈t.rows := lookup_mem (Except.ok.inj hkey)
    refine ⟨hmem,rfl,?_,verifyAssertion_eq_ok hn⟩
    rw [Advances]
    omega

end Origins

section Session

variable (lib : Library) (sql : Sql) (pkiDns : Octets)

/-- `begin` handed this challenge out, five minutes before it expires. -/
def HandedOut (acts : List Act) (c : Challenge) : Prop :=
  Happened (fun _ a => ∃ env,a=.beginSignin true env ∧
    c=⟨newB64url env.drawn,.signin,[],env.now+kPasskeyChallengeTtl⟩) acts

/-- This answer took the challenge, which had been handed out and had not expired. -/
def Taken (acts : List Act) (c : Challenge) (answer : Answer) : Prop :=
  Happened (fun pre a => HandedOut pre c ∧ c∈(after lib sql pkiDns pre).challenges.rows ∧
    ∃ body env,a=.takeSignin true body env ∧ readAnswer lib body=.ok answer ∧
      c.challenge=cString answer.clientData.challenge ∧ env.now ≤ c.expires) acts

/-- Later on the passkey was in the store with this key, the answer was found to be signed by it,
its counter had advanced, and this account was found under its subject. -/
def Checked (acts : List Act) (o : Opened) : Prop :=
  Happened (fun pre a => ∃ answer i env,a=.advance i env ∧
    findUser sql env.users o.row.subject=some o.account ∧ Taken lib sql pkiDns pre o.ticket answer ∧ o.row∈(after lib sql pkiDns pre).passkeys.rows ∧
    o.evidence.clientDataJson=answer.clientDataJson ∧ Advances o.row.signCount o.count ∧
    Asserted lib pkiDns answer.clientData.challenge o.row.publicKey o.row.alg
      o.evidence.clientDataJson o.evidence.authenticatorData o.evidence.signature o.count) acts

variable {lib sql pkiDns}

theorem handedOut_of_issued {acts : List Act} {c : Challenge}
    (h : Happened (fun pre a => Issues sql (after lib sql pkiDns pre) a c) acts)
    (hc : c.purpose=.signin) : HandedOut acts c := by
  refine h.imp fun pre a hissue => ?_
  cases hissue with
  | @signin env c hrow =>
    refine ⟨env,rfl,?_⟩
    rw [challengeRow_eq_ok hrow,cString_newB64url]
    rfl
  | register hj hrow =>
    rw [challengeRow_eq_ok hrow] at hc
    cases hc

theorem answers_iff {ch : Octets} {purpose : Purpose} {now : Int} {c : Challenge} :
    c.answers ch purpose now=true ↔ c.challenge=ch ∧ c.purpose=purpose ∧ now ≤ c.expires := by
  rw [Challenge.answers,decide_eq_true_eq]

theorem taken_of_started {acts : List Act} {c : Challenge} {answer : Answer}
    (h : Happened (fun pre a => Starts lib sql pkiDns (after lib sql pkiDns pre) a
      (.signin c answer)) acts) : Taken lib sql pkiDns acts c answer := by
  refine h.imp fun pre a hstart => ?_
  cases hstart with
  | @signin body env _ _ hread ht hhit =>
    obtain ⟨hch,hpurpose,hnow⟩ := answers_iff.mp hhit
    have hissued := challenge_issued pre c ht
    exact ⟨handedOut_of_issued hissued hpurpose,ht,body,env,rfl,hread,hch,hnow⟩

/-- Whatever else happens at the same time, a session that a passkey opened is for the account of a
passkey which was in the store when it was looked up, and that passkey signed the answer to a
challenge this server had handed out, had not yet expired and was taken for this answer. -/
theorem passkey_session_proved (acts : List Act) : ∀ o∈(after lib sql pkiDns acts).opened,
    Happened (fun pre _ => Checked lib sql pkiDns pre o) acts := by
  intro o ho
  refine (session_opened acts o ho).imp fun pre a hopen => ?_
  cases hopen with
  | mk hj =>
    refine (job_started pre _ (List.mem_of_getElem? hj)).imp fun pre a hstart => ?_
    cases hstart with
    | @signed i env _ answer _ _ _ _ hj hcheck hu =>
      have htaken := taken_of_started (job_started pre _ (List.mem_of_getElem? hj))
      obtain ⟨hrow,hclient,hadvances,hasserted⟩ := checkSignin_eq_ok hcheck
      exact ⟨answer,i,env,rfl,hu,htaken,hrow,hclient,hadvances,hasserted⟩

end Session

section Registration

variable (lib : Library) (sql : Sql) (pkiDns : Octets)

/-- Someone who had signed in within ten minutes asked to add a passkey to this account. -/
def Asked (acts : List Act) (subject : Octets) : Prop :=
  Happened (fun _ a => ∃ who env,a=.beginRegister (some who) env ∧ cString who.user=subject ∧
    signedInRecently who env.now=true) acts

/-- The challenge of that registration, with the handle the passkey is to have. -/
def Offered (acts : List Act) (c : Challenge) (handle subject : Octets) : Prop :=
  Happened (fun pre a => Asked pre subject ∧ ∃ i env,a=.advance i env ∧
    c=⟨newB64url env.drawn,.register,handle++bar::subject,env.now+kPasskeyChallengeTtl⟩) acts

/-- The account's own session answered it in time. -/
def Answered (acts : List Act) (c : Challenge) (answer : Answer) (handle subject : Octets) : Prop :=
  Happened (fun pre a => Offered pre c handle subject ∧
    c∈(after lib sql pkiDns pre).challenges.rows ∧
    ∃ who body env,a=.takeRegister (some who) body env ∧ who.user=subject ∧
      signedInRecently who env.now=true ∧ readAnswer lib body=.ok answer ∧
      c.challenge=cString answer.clientData.challenge ∧ env.now ≤ c.expires) acts

/-- The authenticator made the key of this passkey for the answer to that challenge. -/
def Registers (acts : List Act) (r : PasskeyRow) : Prop :=
  Happened (fun pre _ => ∃ c answer object reg,
    Answered lib sql pkiDns pre c answer r.userHandle r.subject ∧
    Attested lib pkiDns answer.clientData.challenge answer.clientDataJson object reg ∧
    (r.credentialId,r.publicKey,r.alg)=(reg.credentialId,reg.spki,reg.alg)) acts

variable {lib sql pkiDns}

theorem bar_notMem_beforeFirst (s : Octets) : bar∉beforeFirst bar s := by
  intro h
  simpa using List.mem_takeWhile_imp h

theorem checkRegister_eq_ok {t : Passkeys} {user owner : Octets} {a : Answer} {now : Int}
    {row : PasskeyRow} (h : checkRegister lib sql pkiDns t user owner a now=.ok row) :
    bar∈owner ∧ afterFirst bar owner=user ∧ row.subject=user ∧
    row.userHandle=beforeFirst bar owner ∧ ∃ object reg,
      Attested lib pkiDns a.clientData.challenge a.clientDataJson object reg ∧
      (row.credentialId,row.publicKey,row.alg)=(reg.credentialId,reg.spki,reg.alg) := by
  rw [checkRegister] at h
  split_ifs at h with howner
  rw [not_or,not_not,not_not] at howner
  obtain ⟨object,_,h⟩ := bind_eq_ok_iff.mp h
  obtain ⟨reg,hreg,h⟩ := bind_eq_ok_iff.mp h
  obtain ⟨found,_,h⟩ := bind_eq_ok_iff.mp h
  cases found with
  | some p => cases h
  | none =>
    obtain ⟨name,_,h⟩ := bind_eq_ok_iff.mp h
    rw [← Except.ok.inj h]
    exact ⟨howner.1,howner.2,rfl,rfl,object,reg,verifyRegistration_eq_ok hreg,rfl⟩

/-- No handle of the store has the separator in it. -/
theorem handle_plain (acts : List Act) : ∀ r∈(after lib sql pkiDns acts).passkeys.rows,
    bar∉r.userHandle ∧ 0∉r.userHandle := by
  intro r hr
  obtain ⟨d,hd,hid⟩ := passkey_of_added acts r hr
  have hhandle : cString d.row.userHandle=r.userHandle := congrArg (fun x => x.2.2.1) hid
  obtain ⟨pre,_,_,_,hadd⟩ := passkey_added acts d hd
  cases hadd with
  | mk hj =>
    obtain ⟨pre,_,_,_,hstart⟩ := job_started pre _ (List.mem_of_getElem? hj)
    cases hstart with
    | adding _ hcheck =>
      obtain ⟨_,_,_,hrow,_⟩ := checkRegister_eq_ok hcheck
      rw [← hhandle,hrow]
      constructor
      · intro hbar
        exact bar_notMem_beforeFirst _ (List.takeWhile_sublist _ |>.subset hbar)
      · intro hz
        simpa using List.mem_takeWhile_imp hz

theorem handleFor_plain {acts : List Act} {user handle : Octets} {drawn : Vector UInt8 32}
    (h : handleFor sql (after lib sql pkiDns acts).passkeys user drawn=.ok handle) :
    bar∉handle ∧ 0∉handle := by
  obtain ⟨existing,hlist,h⟩ := bind_eq_ok_iff.mp h
  obtain ⟨who,_,hlist⟩ := bind_eq_ok_iff.mp hlist
  cases existing with
  | nil =>
    rw [← Except.ok.inj h,newB64url]
    constructor
    · exact fun hb => absurd (Jws.isUrlSafe_base64urlEncode _ hb) (by decide)
    · exact fun hz => absurd (Jws.isUrlSafe_base64urlEncode _ hz) (by decide)
  | cons p rest =>
    rw [← Except.ok.inj h]
    have hmem : p∈p::rest := List.mem_cons_self
    rw [← Except.ok.inj hlist,List.mem_mergeSort,List.mem_filter] at hmem
    exact handle_plain acts p hmem.1

theorem cString_append_bar {handle user : Octets} (h : 0∉handle) :
    cString (handle++bar::user)=handle++bar::cString user := by
  rw [cString_append_of_notMem h]
  rfl

theorem Offered.subject_eq {acts : List Act} {c : Challenge} {handle subject : Octets}
    (h : Offered acts c handle subject) : c.subject=handle++bar::subject := by
  obtain ⟨_,_,_,_,_,_,_,_,rfl⟩ := h
  rfl

theorem offered_of_issued {acts : List Act} {c : Challenge}
    (h : Happened (fun pre a => Issues sql (after lib sql pkiDns pre) a c) acts)
    (hc : c.purpose=.register) : ∃ handle subject,Offered acts c handle subject ∧
      bar∉handle ∧ 0∉handle ∧ 0∉subject := by
  obtain ⟨pre,a,post,rfl,hissue⟩ := h
  cases hissue with
  | signin hrow =>
    rw [challengeRow_eq_ok hrow] at hc
    cases hc
  | @register i env user handle _ hj hrow =>
    have hstart := job_started pre _ (List.mem_of_getElem? hj)
    have hplain : bar∉handle ∧ 0∉handle := by
      obtain ⟨pre,_,_,_,hstart⟩ := hstart
      cases hstart with
      | enrolling _ hh => exact handleFor_plain hh
    have hasked : Asked pre (cString user) := by
      refine hstart.imp fun _ a hstart => ?_
      cases hstart with
      | @enrolling who env _ hfresh _ => exact ⟨who,env,rfl,rfl,hfresh⟩
    refine ⟨handle,cString user,⟨pre,_,post,rfl,hasked,i,env,rfl,?_⟩,hplain.1,hplain.2,?_⟩
    · rw [challengeRow_eq_ok hrow,cString_newB64url,cString_append_bar hplain.2]
    · intro hz
      simpa using List.mem_takeWhile_imp hz

/-- The row that a registration is about to add, as the database will take it. -/
theorem answered_of_started {acts : List Act} {d : Added}
    (h : Happened (fun pre a => Starts lib sql pkiDns (after lib sql pkiDns pre) a
      (.adding d.ticket d.answer d.row)) acts) : Registers lib sql pkiDns acts d.row.asStored := by
  refine h.imp fun pre a hstart => ?_
  cases hstart with
  | @adding i env _ user _ now _ hj hcheck =>
    obtain ⟨_,hafter,hsubject,hhandle,object,reg,hattested,hkey⟩ := checkRegister_eq_ok hcheck
    refine ⟨d.ticket,d.answer,object,reg,?_,hattested,?_⟩
    · refine (job_started pre _ (List.mem_of_getElem? hj)).imp fun pre a hstart => ?_
      cases hstart with
      | @registering who body env _ _ hfresh hread ht hhit =>
        obtain ⟨hch,hpurpose,hnow⟩ := answers_iff.mp hhit
        obtain ⟨handle,subject,hoffered,hbar,hhandle0,hsubject0⟩ :=
          offered_of_issued (challenge_issued pre _ ht) hpurpose
        rw [hoffered.subject_eq,afterFirst_append hbar] at hafter
        rw [hoffered.subject_eq,beforeFirst_append hbar] at hhandle
        have hstored : d.row.asStored.userHandle=handle := by
          rw [PasskeyRow.asStored,hhandle]
          exact cString_eq_self_iff.mpr hhandle0
        have howner : d.row.asStored.subject=subject := by
          rw [PasskeyRow.asStored,hsubject,← hafter]
          exact cString_eq_self_iff.mpr hsubject0
        rw [hstored,howner]
        exact ⟨hoffered,ht,who,body,env,rfl,hafter.symm,hfresh,hread,hch,hnow⟩
    · obtain ⟨cd,auth,ad,_,_,_,_,rfl⟩ := hattested
      have hid : d.row.credentialId=Jws.base64urlEncode ad.credentialId := congrArg Prod.fst hkey
      have hplain : cString d.row.credentialId=d.row.credentialId := by
        rw [hid]
        exact cString_of_urlSafe Jws.isUrlSafe_base64urlEncode
      rw [PasskeyRow.asStored,hplain]
      exact hkey

theorem Registers.of_identity {acts : List Act} {r x : PasskeyRow} (h : x.identity=r.identity)
    (hx : Registers lib sql pkiDns acts x) : Registers lib sql pkiDns acts r := by
  simp only [PasskeyRow.identity,Prod.mk.injEq] at h
  obtain ⟨hid,hsubject,hhandle,hkey,halg⟩ := h
  rw [Registers,hid,hsubject,hhandle,hkey,halg] at hx
  exact hx

/-- A passkey is in the store only because the account it belongs to asked for it in a session not
older than ten minutes and, in such a session again, gave the answer its authenticator had made to
the challenge of that request; its handle is the one the request was given. -/
theorem passkey_registered_by_owner (acts : List Act) :
    ∀ r∈(after lib sql pkiDns acts).passkeys.rows,Registers lib sql pkiDns acts r := by
  intro r hr
  obtain ⟨d,hd,hid⟩ := passkey_of_added acts r hr
  obtain ⟨pre,a,post,rfl,hadd⟩ := passkey_added acts d hd
  cases hadd with
  | mk hj =>
    have hreg := answered_of_started (job_started pre _ (List.mem_of_getElem? hj))
    exact Registers.of_identity hid (hreg.append _)

end Registration

section Counter

variable {lib : Library} {sql : Sql} {pkiDns : Octets}

/-- No session is opened, and no passkey is changed or added. -/
def Quiet (s t : State) : Prop := t.opened=s.opened ∧ ∀ r∈t.passkeys.rows,r∈s.passkeys.rows

theorem Quiet.refl (s : State) : Quiet s s := ⟨rfl,fun _ hr => hr⟩

theorem put_quiet (s : State) (js : List Job) (c : Challenge) (now : Int) (fate : PutFate) :
    Quiet s (putPasskeyChallenge sql { s with jobs := js } c now fate) := by
  obtain ⟨_,hopened,_,hpass⟩ := putPasskeyChallenge_rest sql { s with jobs := js } c now fate
  exact ⟨hopened,fun r hr => by rwa [hpass] at hr⟩

theorem take_quiet (s : State) (a : Answer) (purpose : Purpose) (env : Env)
    (job : Challenge → Job) : Quiet s (takeFor sql s a purpose env job) := by
  obtain ⟨hopened,_,hpass,_⟩ := takeFor_rest sql s a purpose env job
  exact ⟨hopened,fun r hr => by rwa [hpass] at hr⟩

/-- The two statements that a counter can change with. -/
theorem step_counter (lib : Library) (sql : Sql) (pkiDns : Octets) (s : State) (a : Act) :
    Quiet s (step lib sql pkiDns s a) ∨
    (∃ i env o,a=.advance i env ∧ s.jobs[i]?=
        some (.signed o.ticket o.row o.count o.evidence o.account) ∧
      step lib sql pkiDns s a=openSession { s with jobs := s.jobs.eraseIdx i } o env) ∨
    ∃ i env d,a=.advance i env ∧ s.jobs[i]?=some (.adding d.ticket d.answer d.row) ∧
      step lib sql pkiDns s a=addRow sql { s with jobs := s.jobs.eraseIdx i } d env := by
  cases a with
  | beginSignin allowed env =>
    cases allowed with
    | false => exact Or.inl (Quiet.refl s)
    | true => exact Or.inl (put_quiet s s.jobs _ _ _)
  | takeSignin allowed body env =>
    cases allowed with
    | false => exact Or.inl (Quiet.refl s)
    | true =>
      left
      simp only [step,takeSignin]
      split
      · exact Quiet.refl s
      · split
        · exact Quiet.refl s
        · exact take_quiet s _ _ _ _
  | beginRegister sess env =>
    left
    simp only [step,beginRegister]
    split
    · exact Quiet.refl s
    · split_ifs
      · exact Quiet.refl s
      · split
        · exact Quiet.refl s
        · exact Quiet.refl s
  | takeRegister sess body env =>
    left
    simp only [step,takeRegister]
    split
    · exact Quiet.refl s
    · split_ifs
      · exact Quiet.refl s
      · split
        · exact Quiet.refl s
        · exact take_quiet s _ _ _ _
  | removePasskey owner id =>
    left
    simp only [step,removePasskey]
    split
    · split_ifs
      · exact Quiet.refl s
      · exact Quiet.refl s
    · exact Quiet.refl s
  | deleteFor subject => exact Or.inl ⟨rfl,fun r hr => (Keyed.mem_delete.mp hr).1⟩
  | advance i env =>
    cases hj : s.jobs[i]? with
    | none =>
      simp only [step,hj]
      exact Or.inl (Quiet.refl s)
    | some j =>
      simp only [step,hj]
      cases j with
      | signin t a =>
        left
        simp only [advance]
        split
        · exact Quiet.refl s
        · split
          · exact Quiet.refl s
          · exact Quiet.refl s
      | signed t row count ev u => exact Or.inr (Or.inl ⟨i,env,⟨t,row,count,ev,u⟩,rfl,hj,rfl⟩)
      | enrolling user handle => exact Or.inl (put_quiet s _ _ _ _)
      | registering t user a now =>
        left
        simp only [advance]
        split
        · exact Quiet.refl s
        · exact Quiet.refl s
      | adding t a row => exact Or.inr (Or.inr ⟨i,env,⟨t,a,row⟩,rfl,hj,rfl⟩)
      | removing id => exact Or.inl ⟨rfl,fun r hr => (Keyed.mem_delete.mp hr).1⟩

/-- Between looking up a passkey and writing its counter back nothing happened to it, and the write
went through. A passkey that has signed in is not added a second time. -/
def UndisturbedJob (s : State) (env : Env) : Job → Prop
  | .signed _ row _ _ _ => env.fate≠.throws false ∧ ∃ r∈s.passkeys.rows,
      r.credentialId=row.credentialId ∧ r.signCount=row.signCount
  | .adding _ _ row => ∀ o∈s.opened,o.row.credentialId≠cString row.credentialId
  | _ => True

def Undisturbed (s : State) : Act → Prop
  | .advance i env => ∀ j∈s.jobs[i]?,UndisturbedJob s env j
  | _ => True

instance (s : State) (env : Env) : DecidablePred (UndisturbedJob s env)
  | .signin _ _ => inferInstanceAs (Decidable True)
  | .signed _ row _ _ _ => inferInstanceAs (Decidable (env.fate≠.throws false ∧
      ∃ r∈s.passkeys.rows,r.credentialId=row.credentialId ∧ r.signCount=row.signCount))
  | .enrolling _ _ => inferInstanceAs (Decidable True)
  | .registering _ _ _ _ => inferInstanceAs (Decidable True)
  | .adding _ _ row =>
    inferInstanceAs (Decidable (∀ o∈s.opened,o.row.credentialId≠cString row.credentialId))
  | .removing _ => inferInstanceAs (Decidable True)

instance (s : State) : DecidablePred (Undisturbed s)
  | .beginSignin _ _ => inferInstanceAs (Decidable True)
  | .takeSignin _ _ _ => inferInstanceAs (Decidable True)
  | .beginRegister _ _ => inferInstanceAs (Decidable True)
  | .takeRegister _ _ _ => inferInstanceAs (Decidable True)
  | .removePasskey _ _ => inferInstanceAs (Decidable True)
  | .deleteFor _ => inferInstanceAs (Decidable True)
  | .advance i env => inferInstanceAs (Decidable (∀ j∈s.jobs[i]?,UndisturbedJob s env j))

/-- The counter that a later sign-in shows, against an earlier one. -/
def Above (newer older : Opened) : Prop :=
  newer.row.credentialId=older.row.credentialId →
    older.count < newer.count ∨ (older.count=0 ∧ newer.count=0)

structure Counted (s : State) : Prop where
  ids : ∀ r∈s.passkeys.rows,cString r.credentialId=r.credentialId
  jobs : ∀ t row count ev u,Job.signed t row count ev u∈s.jobs →
    Advances row.signCount count ∧ cString row.credentialId=row.credentialId
  stored : ∀ o∈s.opened,∀ r∈s.passkeys.rows,r.credentialId=o.row.credentialId →
    (o.count : Int) ≤ r.signCount
  order : s.opened.Pairwise Above

theorem Counted.signed_step {s : State} (hs : Counted s) (lib : Library) (sql : Sql)
    (pkiDns : Octets) (a : Act) : ∀ t row count ev u,
    Job.signed t row count ev u∈(step lib sql pkiDns s a).jobs →
      Advances row.signCount count ∧ cString row.credentialId=row.credentialId := by
  intro t row count ev u hj
  obtain hold|hnew := (step_moves s a).jobs _ hj
  · exact hs.jobs t row count ev u hold
  · cases hnew with
    | signed _ hcheck _ =>
      obtain ⟨hrow,_,hadvances,_⟩ := checkSignin_eq_ok hcheck
      exact ⟨hadvances,hs.ids row hrow⟩

theorem mem_touchPasskey {t : Passkeys} {id : Octets} {n last : Int} {x : PasskeyRow}
    (hid : cString id=id) (hx : x∈(touchPasskey t id n last).rows) :
    (x.credentialId=id ∧ x.signCount=n) ∨ (x.credentialId≠id ∧ x∈t.rows) := by
  obtain ⟨y,hy,rfl⟩ := Keyed.mem_update.mp hx
  rw [hid]
  by_cases hsame : y.credentialId=id
  · left
    simp [hsame]
  · right
    simp [hsame,hy]

/-- The session that is opened is above all that its passkey opened before. -/
theorem Counted.openSession {s : State} (hs : Counted s) {js : List Job} {o : Opened} {env : Env}
    (ho : Advances o.row.signCount o.count) (hid : cString o.row.credentialId=o.row.credentialId)
    (hfate : env.fate≠.throws false) (hjs : ∀ t row count ev u,Job.signed t row count ev u∈js →
      Advances row.signCount count ∧ cString row.credentialId=row.credentialId)
    {r : PasskeyRow} (hr : r∈s.passkeys.rows)
    (hrid : r.credentialId=o.row.credentialId) (hcount : r.signCount=o.row.signCount) :
    Counted (openSession { s with jobs := js } o env) := by
  have hbefore : ∀ p∈s.opened,p.row.credentialId=o.row.credentialId →
      (p.count : Int) ≤ o.row.signCount := by
    intro p hp hsame
    rw [← hcount]
    exact hs.stored p hp r hr (hrid.trans hsame.symm)
  have hids : ∀ x∈(touchPasskey s.passkeys o.row.credentialId o.count env.now).rows,
      cString x.credentialId=x.credentialId := by
    intro x hx
    obtain ⟨hx,_⟩|⟨_,hx⟩ := mem_touchPasskey hid hx
    · rw [hx,hid]
    · exact hs.ids x hx
  have hstored : ∀ p∈s.opened,
      ∀ x∈(touchPasskey s.passkeys o.row.credentialId o.count env.now).rows,
      x.credentialId=p.row.credentialId → (p.count : Int) ≤ x.signCount := by
    intro p hp x hx hsame
    obtain ⟨hx,hn⟩|⟨_,hx⟩ := mem_touchPasskey hid hx
    · have hle := hbefore p hp (hsame.symm.trans hx)
      rw [Advances] at ho
      omega
    · exact hs.stored p hp x hx hsame
  have habove : ∀ p∈s.opened,Above o p := by
    intro p hp hsame
    have hle := hbefore p hp hsame.symm
    rw [Advances] at ho
    omega
  simp only [Webauthn.openSession,if_neg hfate]
  split_ifs
  · refine ⟨hids,hjs,?_,List.pairwise_cons.mpr ⟨habove,hs.order⟩⟩
    intro p hp x hx hsame
    obtain rfl|hp := List.mem_cons.mp hp
    · obtain ⟨_,hn⟩|⟨hne,_⟩ := mem_touchPasskey hid hx
      · rw [hn]
      · exact absurd hsame hne
    · exact hstored p hp x hx hsame
  · exact ⟨hids,hjs,hstored,hs.order⟩

theorem Counted.addRow {s : State} (hs : Counted s) {js : List Job} {d : Added} {env : Env}
    (hnew : ∀ o∈s.opened,o.row.credentialId≠cString d.row.credentialId)
    (hjs : ∀ t row count ev u,Job.signed t row count ev u∈js →
      Advances row.signCount count ∧ cString row.credentialId=row.credentialId) :
    Counted (addRow sql { s with jobs := js } d env) := by
  have hidle : Counted { s with jobs := js } := ⟨hs.ids,hjs,hs.stored,hs.order⟩
  rw [Webauthn.addRow]
  cases hadd : addPasskey sql s.passkeys d.row with
  | error e => simpa only [hadd] using hidle
  | ok u =>
    have hrows := (Keyed.insert_eq_some (addPasskey_eq_ok hadd)).2
    simp only
    split_ifs
    · exact hidle
    · refine ⟨?_,hjs,?_,hs.order⟩
      · intro x hx
        rw [hrows,List.mem_append,List.mem_singleton] at hx
        obtain hx|rfl := hx
        · exact hs.ids x hx
        · exact cString_eq_self_iff.mpr fun hz => by simpa using List.mem_takeWhile_imp hz
      · intro o ho x hx hsame
        rw [hrows,List.mem_append,List.mem_singleton] at hx
        obtain hx|rfl := hx
        · exact hs.stored o ho x hx hsame
        · exact absurd hsame.symm (hnew o ho)

theorem Counted.step {s : State} (hs : Counted s) {a : Act} (ha : Undisturbed s a) :
    Counted (step lib sql pkiDns s a) := by
  have hsigned := hs.signed_step lib sql pkiDns a
  have herase : ∀ i t row count ev u,Job.signed t row count ev u∈s.jobs.eraseIdx i →
      Advances row.signCount count ∧ cString row.credentialId=row.credentialId :=
    fun i t row count ev u hj => hs.jobs t row count ev u (List.mem_of_mem_eraseIdx hj)
  obtain hquiet|⟨i,env,o,rfl,hj,hstep⟩|⟨i,env,d,rfl,hj,hstep⟩ :=
    step_counter lib sql pkiDns s a
  · refine ⟨fun r hr => hs.ids r (hquiet.2 r hr),hsigned,?_,?_⟩
    · rw [hquiet.1]
      exact fun o ho r hr => hs.stored o ho r (hquiet.2 r hr)
    · rw [hquiet.1]
      exact hs.order
  · obtain ⟨hfate,r,hr,hrid,hcount⟩ := ha _ hj
    obtain ⟨hadvances,hid⟩ := hs.jobs _ _ _ _ _ (List.mem_of_getElem? hj)
    rw [hstep]
    exact hs.openSession hadvances hid hfate (herase i) hr hrid hcount
  · rw [hstep]
    exact hs.addRow (ha _ hj) (herase i)

/-- A copy of a passkey is found out. Where sign-ins with one passkey do not overlap and each writes its
counter back, each shows a higher counter than all before it, or no passkey of that id has ever shown
one. -/
theorem passkey_counter_advances (acts : List Act)
    (h : Along (step lib sql pkiDns) Undisturbed State.start acts) :
    (after lib sql pkiDns acts).opened.Pairwise Above := by
  have hstart : Counted State.start := by
    refine ⟨?_,?_,?_,List.Pairwise.nil⟩
    · intro r hr
      cases hr
    · intro t row count ev u hj
      cases hj
    · intro o ho
      cases ho
  have hend : Counted (after lib sql pkiDns acts) :=
    h.invariant (I := Counted) (fun s a hs ha => hs.step ha) hstart
  exact hend.order

/-! ### Two sign-ins with one passkey -/

def zeros : Vector UInt8 32 := Vector.replicate 32 0

def clientDataOf (type : String) : Json :=
  .object [("type",.str type),("challenge",.str "AAAAAAAAAAAAAAAAAAAAAAAAAAAAAAAAAAAAAAAAAAA"),
    ("origin",.str "https://pki")]

/-- An Ed25519 key with the id 07. -/
def registerBody : Json :=
  .object [("clientDataJSON",.str "Aw"),("attestationObject",.str ("oWhhdXRoRGF0YVhiAAAAAAAAAAAAAAAAAAAAAAAAAAAAAAAAAAAA"++
    "AAAAAABFAAAAAAAAAAAAAAAAAAAAAAAAAAAAAQekAQEDJyAGIVgg"++
    "AAAAAAAAAAAAAAAAAAAAAAAAAAAAAAAAAAAAAAAAAAA"))]

def signinBody (authenticatorData : String) : Json :=
  .object [("id",.str "Bw"),("clientDataJSON",.str "BA"),("signature",.str "AA"),
    ("authenticatorData",.str authenticatorData)]

/-- Texts of one octet, a hash of zeros, and keys that sign everything. -/
def toyLibrary : Library where
  parse
    | [0] => .ok registerBody
    | [1] => .ok (signinBody "AAAAAAAAAAAAAAAAAAAAAAAAAAAAAAAAAAAAAAAAAAAFAAAAAQ")
    | [2] => .ok (signinBody "AAAAAAAAAAAAAAAAAAAAAAAAAAAAAAAAAAAAAAAAAAAFAAAAAg")
    | [3] => .ok (clientDataOf "webauthn.create")
    | [4] => .ok (clientDataOf "webauthn.get")
    | _ => .error ⟨101,"syntax error while parsing value"⟩
  typeError _ k := ⟨302,k⟩
  sha256 _ := zeros.toList
  spkiOf
    | .ed25519 x => .ok x
    | _ => .error ⟨1,"passkey: the public key is not a valid key"⟩
  keyType _ := some .ed25519
  digestVerify _ _ _ _ := true

def plainSql : Sql := ⟨Auth.collationC,fun _ _ => true,fun what => ⟨1,what⟩⟩

def calm : Env := ⟨100,zeros,.ok,.ok,some [⟨octets "alice","admin","",false⟩],true⟩

def alice : Sess := ⟨octets "alice",octets "admin",false,9999,[],octets "password",[],50⟩

def signinActs (body : UInt8) : List Act :=
  [.beginSignin true calm,.takeSignin true [body] calm,.advance 0 calm,
    .advance 0 calm]

def twoSignins : List Act :=
  [.beginRegister (some alice) calm,.advance 0 calm,
    .takeRegister (some alice) [0] calm,.advance 0 calm,.advance 0 calm]++
    signinActs 1++signinActs 2

theorem passkey_session_proved_twice : ∃ o∈(after toyLibrary plainSql (octets "pki") twoSignins).opened,
    o.count=2 ∧ Happened (fun pre _ => Checked toyLibrary plainSql (octets "pki") pre o) twoSignins := by
  have hopened : ∃ o∈(after toyLibrary plainSql (octets "pki") twoSignins).opened,o.count=2 := by
    decide +kernel
  obtain ⟨o,ho,hcount⟩ := hopened
  exact ⟨o,ho,hcount,passkey_session_proved twoSignins o ho⟩

theorem passkey_registered_by_owner_alice :
    ∃ r∈(after toyLibrary plainSql (octets "pki") twoSignins).passkeys.rows,
      r.subject=octets "alice" ∧ Registers toyLibrary plainSql (octets "pki") twoSignins r := by
  have hadded : ∃ r∈(after toyLibrary plainSql (octets "pki") twoSignins).passkeys.rows,
      r.subject=octets "alice" := by
    decide +kernel
  obtain ⟨r,hr,hsubject⟩ := hadded
  exact ⟨r,hr,hsubject,passkey_registered_by_owner twoSignins r hr⟩

theorem passkey_counter_advances_twice :
    Along (step toyLibrary plainSql (octets "pki")) Undisturbed State.start twoSignins ∧
    (after toyLibrary plainSql (octets "pki") twoSignins).opened.map Opened.count=[2,1] ∧
    (after toyLibrary plainSql (octets "pki") twoSignins).opened.Pairwise Above := by
  have hrun : Along (step toyLibrary plainSql (octets "pki")) Undisturbed State.start twoSignins ∧
      (after toyLibrary plainSql (octets "pki") twoSignins).opened.map Opened.count=[2,1] := by
    decide +kernel
  exact ⟨hrun.1,hrun.2,passkey_counter_advances twoSignins hrun.1⟩

end Counter

end FastPki.Webauthn
