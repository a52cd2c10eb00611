import FastPki.Audit.Chain
import FastPki.Auth.Sessions
import FastPki.Auth.Subject
import FastPki.Framework.History
import FastPki.Framework.Rows
import FastPki.Oidc.Client

namespace FastPki.Oidc

open FastPki.X509 FastPki.Jws
open Auth (WebUser qualifySubject)
open Auth.Sessions (SessionRow SignIn joinGroups splitGroups)

/-- What a request meets. The providers may be edited between any two requests, and each node of a
mesh has its own callback address. -/
structure Ctx where
  now : Int
  ssoAllowed : Bool
  redirectUri : Octets
  rows : List OidcProviderRow

/-- The provider asked for, the first enabled one when none is. The callback is this node's own,
whatever the row says. -/
def oidcRowFor (ctx : Ctx) (want : Octets) : Option OidcProviderRow :=
  (ctx.rows.find? fun r => r.enabled ∧ (want = [] ∨ r.id = want)).map
    fun r => { r with redirectUri := ctx.redirectUri }

/-- The row where the client made from it can be used. -/
def usableRow (ctx : Ctx) (want : Octets) : Option OidcProviderRow :=
  (oidcRowFor ctx want).filter fun r => (OidcClient.ofRow r).enabled

def randomToken (drawn : Vector UInt8 24) : Octets := Audit.toHex drawn.toList

/-- A login that waits for its callback, with the state it goes by. -/
structure OidcFlow where
  state : Octets
  nonce : Octets
  verifier : Octets
  at_ : Int
  provider : Octets
  deriving DecidableEq

def inGroups (row : OidcProviderRow) (groups : List Octets) (g : Octets) : Bool :=
  g ≠ [] && groups.any (· = qualifySubject row.id g)

/-- `none` is a login that is turned away: the provider asks for an account that is not there. -/
def federatedRole (row : OidcProviderRow) (account : Option WebUser) (groups : List Octets) :
    Option Octets :=
  match account with
  | some u => some (octets u.role)
  | none =>
    if row.requireLocalUser then none
    else if inGroups row groups row.adminGroup then some (octets "admin")
    else if inGroups row groups row.auditorGroup then some (octets "auditor")
    else some (octets "none")

/-- A callback whose flow has been taken out of the map. -/
structure Pending where
  flow : OidcFlow
  code : Octets
  deriving DecidableEq

/-- A session, with what `Sessions::create` is called with. -/
structure Session where
  flow : OidcFlow
  row : OidcProviderRow
  claims : OidcClaims
  user : Octets
  role : Octets

def kSessionTtl : Int := 12*3600

def Session.signIn (o : Session) : SignIn := ⟨o.user,o.role,false,kSessionTtl,octets "sso",[]⟩

/-- `oidc_flows`, the callbacks under way and the rows of `web_sessions`, with all logins and
sessions so far. -/
structure State where
  flows : List OidcFlow
  pending : List Pending
  rows : List SessionRow
  issued : List OidcFlow
  sessions : List Session

def State.start : State := ⟨[],[],[],[],[]⟩

/-- What the rest of a callback meets: the providers by then, the network, the accounts by their
names, the token that is drawn, and whether the database takes the session. -/
structure Env where
  ctx : Ctx
  idp : Idp
  account : Octets → Option WebUser
  token : Vector UInt8 24
  stored : Bool

inductive Act where
  | login (ctx : Ctx) (want : Octets) (state nonce verifier : Vector UInt8 24)
  | callback (ctx : Ctx) (error : Bool) (state code : Octets)
  | finish (i : Nat) (env : Env)
  | restart

section Code

-- `hash` is what is kept of a session's token
variable (lib : JsonLib) (crypto : Crypto) (hash : Octets → Octets)

/-- `GET /api/oidc/login`. Only here are stale logins dropped. -/
def login (s : State) (ctx : Ctx) (want : Octets) (state nonce verifier : Vector UInt8 24) : State :=
  if !ctx.ssoAllowed then s
  else match usableRow ctx want with
    | none => s
    | some row =>
      let new : OidcFlow := ⟨randomToken state,randomToken nonce,randomToken verifier,ctx.now,row.id⟩
      let kept := s.flows.filter fun f => ¬ctx.now-f.at_ > 600
      { s with flows := new::remove OidcFlow.state new.state kept,issued := new::s.issued }

/-- `GET /api/oidc/callback` up to where its flow is taken out of the map. -/
def callback (s : State) (ctx : Ctx) (error : Bool) (state code : Octets) : State :=
  if usableRow ctx [] = none ∨ !ctx.ssoAllowed ∨ error then s
  else match lookup OidcFlow.state state s.flows with
    | none => s
    | some f =>
      { s with flows := remove OidcFlow.state state s.flows,pending := ⟨f,code⟩::s.pending }

/-- What becomes of it: the provider is the one the login was for, or the login fails. -/
def complete (p : Pending) (env : Env) : Option Session := do
  let row ← usableRow env.ctx p.flow.provider
  let claims ← (exchange lib crypto env.idp (OidcClient.ofRow row) p.code p.flow.verifier p.flow.nonce
    env.ctx.now).toOption
  let user := qualifySubject row.id claims.username
  let role ← federatedRole row (env.account user) claims.groups
  return ⟨p.flow,row,claims,user,role⟩

/-- The session and the rows of `web_sessions` with it. -/
def openSession (rows : List SessionRow) (p : Pending) (env : Env) :
    Option (Session × List SessionRow) := do
  let o ← complete lib crypto p env
  let stored ← Auth.Sessions.create hash rows (randomToken env.token) env.ctx.now o.signIn
    o.claims.groups
  if env.stored then some (o,stored) else none

def finish (s : State) (i : Nat) (env : Env) : State :=
  match s.pending[i]? with
  | none => s
  | some p =>
    let rest := { s with pending := s.pending.eraseIdx i }
    match openSession lib crypto hash s.rows p env with
    | none => rest
    | some (o,rows) => { rest with rows,sessions := o::s.sessions }

def step (s : State) : Act → State
  | .login ctx want state nonce verifier => login s ctx want state nonce verifier
  | .callback ctx error state code => callback s ctx error state code
  | .finish i env => finish lib crypto hash s i env
  -- the map is in the memory of the process
  | .restart => { s with flows := [],pending := [] }

end Code

section Single

variable {lib : JsonLib} {crypto : Crypto} {hash : Octets → Octets}

/-- Logins as tickets: one is good while it waits or its callback is under way. -/
def State.ledger (s : State) : Ledger OidcFlow where
  issued := s.issued
  good := s.flows++s.pending.map Pending.flow
  spent := s.sessions.map Session.flow

theorem remove_sublist (k : Octets) (t : List OidcFlow) : (remove OidcFlow.state k t).Sublist t :=
  List.filter_sublist

theorem complete_eq_some {p : Pending} {env : Env} {o : Session}
    (h : complete lib crypto p env=some o) : o.flow=p.flow ∧
    usableRow env.ctx p.flow.provider=some o.row ∧
    exchange lib crypto env.idp (OidcClient.ofRow o.row) p.code p.flow.verifier p.flow.nonce
      env.ctx.now=.ok o.claims ∧ o.user=qualifySubject o.row.id o.claims.username ∧
    federatedRole o.row (env.account o.user) o.claims.groups=some o.role := by
  simp only [complete,Option.bind_eq_bind,Option.bind_eq_some_iff] at h
  obtain ⟨row,hrow,claims,hclaims,role,hrole,h⟩ := h
  obtain rfl := Option.some.inj h
  have hok : exchange lib crypto env.idp (OidcClient.ofRow row) p.code p.flow.verifier p.flow.nonce
      env.ctx.now=.ok claims := by
    cases hex : exchange lib crypto env.idp (OidcClient.ofRow row) p.code p.flow.verifier p.flow.nonce
        env.ctx.now with
    | error e =>
      rw [hex] at hclaims
      cases hclaims
    | ok c =>
      rw [hex] at hclaims
      rw [Option.some.inj hclaims]
  exact ⟨rfl,hrow,hok,rfl,hrole⟩

theorem openSession_eq_some {rows stored : List SessionRow} {p : Pending} {env : Env} {o : Session}
    (h : openSession lib crypto hash rows p env=some (o,stored)) :
    complete lib crypto p env=some o ∧
    Auth.Sessions.create hash rows (randomToken env.token) env.ctx.now o.signIn o.claims.groups=
      some stored := by
  simp only [openSession,Option.bind_eq_bind,Option.bind_eq_some_iff] at h
  obtain ⟨o',ho,stored',hstored,h⟩ := h
  split_ifs at h
  obtain ⟨rfl,rfl⟩ := Prod.mk.inj (Option.some.inj h)
  exact ⟨ho,hstored⟩

theorem login_ledger (s : State) (ctx : Ctx) (want : Octets) (state nonce verifier : Vector UInt8 24) :
    s.ledger.Step (login s ctx want state nonce verifier).ledger := by
  rw [login]
  split_ifs
  · exact Ledger.Step.same rfl (List.Subperm.refl _) rfl
  · split
    · exact Ledger.Step.same rfl (List.Subperm.refl _) rfl
    · apply Ledger.Step.issue
      rw [List.cons_append,List.subperm_cons]
      apply (List.subperm_append_right _).mpr
      exact ((remove_sublist _ _).trans List.filter_sublist).subperm

theorem callback_ledger (s : State) (ctx : Ctx) (error : Bool) (state code : Octets) :
    s.ledger.Step (callback s ctx error state code).ledger := by
  rw [callback]
  split_ifs
  · exact Ledger.Step.same rfl (List.Subperm.refl _) rfl
  · split
    · exact Ledger.Step.same rfl (List.Subperm.refl _) rfl
    · rename_i f hf
      apply Ledger.Step.lapse
      have htaken : (f::remove OidcFlow.state state s.flows).Subperm s.flows := cons_remove_subperm hf
      have hmoved : ((remove OidcFlow.state state s.flows)++f::s.pending.map Pending.flow).Perm
          ((f::remove OidcFlow.state state s.flows)++s.pending.map Pending.flow) := List.perm_middle
      exact hmoved.subperm.trans ((List.subperm_append_right _).mpr htaken)

theorem finish_ledger (s : State) (i : Nat) (env : Env) :
    s.ledger.Step (finish lib crypto hash s i env).ledger := by
  rw [finish]
  cases hp : s.pending[i]? with
  | none => exact Ledger.Step.same rfl (List.Subperm.refl _) rfl
  | some p =>
    obtain ⟨hi,rfl⟩ := List.getElem?_eq_some_iff.mp hp
    have herase := (List.getElem_cons_eraseIdx_perm hi).map Pending.flow
    have hgood : (s.flows++(s.pending.eraseIdx i).map Pending.flow).Subperm s.ledger.good := by
      apply (List.subperm_append_left _).mpr
      exact ((List.eraseIdx_sublist s.pending i).map Pending.flow).subperm
    simp only
    split
    · exact Ledger.Step.same rfl hgood rfl
    · next o rows ho =>
      refine Ledger.Step.spend (t := s.pending[i].flow) ?_ ?_
      · have hmoved : (s.pending[i].flow::(s.flows++(s.pending.eraseIdx i).map Pending.flow)).Perm
            (s.flows++s.pending[i].flow::(s.pending.eraseIdx i).map Pending.flow) :=
          List.perm_middle.symm
        exact (hmoved.trans (herase.append_left s.flows)).subperm
      · rw [← (complete_eq_some (openSession_eq_some ho).1).1]
        exact List.Perm.refl _

theorem step_ledger (s : State) (a : Act) : s.ledger.Step (step lib crypto hash s a).ledger := by
  cases a with
  | login ctx want state nonce verifier => exact login_ledger s ctx want state nonce verifier
  | callback ctx error state code => exact callback_ledger s ctx error state code
  | finish i env => exact finish_ledger s i env
  | restart => exact Ledger.Step.same rfl (List.nil_subperm) rfl

/-- Each login opens at most one session, however the callbacks interleave and whatever is replayed
at them. -/
theorem oidc_login_once (acts : List Act) :
    let s := run (step lib crypto hash) State.start acts
    (s.sessions.map Session.flow).Subperm s.issued := by
  have hstart : State.start.ledger.Sound := List.Subperm.refl []
  have hsound : (run (step lib crypto hash) State.start acts).ledger.Sound :=
    run_invariant (I := fun s : State => s.ledger.Sound) (fun s a hs => hs.step (step_ledger s a))
      hstart acts
  exact hsound.spent_subperm

end Single

section Provenance

variable (lib : JsonLib) (crypto : Crypto) (hash : Octets → Octets)

/-- The state after these actions. -/
def after (acts : List Act) : State := run (step lib crypto hash) State.start acts

/-- A browser was sent to this provider with the state, the nonce and the verifier of the flow. -/
def SentTo (acts : List Act) (f : OidcFlow) : Prop :=
  Happened (fun _ a => ∃ ctx want state nonce verifier row,
    a=.login ctx want state nonce verifier ∧ ctx.ssoAllowed=true ∧ usableRow ctx want=some row ∧
    f=⟨randomToken state,randomToken nonce,randomToken verifier,ctx.now,row.id⟩) acts

/-- Later a callback came back with that state and took the flow. -/
def CameBack (acts : List Act) (f : OidcFlow) (code : Octets) : Prop :=
  Happened (fun pre a => SentTo pre f ∧ f∈(after lib crypto hash pre).flows ∧
    ∃ ctx,a=.callback ctx false f.state code ∧ ctx.ssoAllowed=true) acts

/-- A request with this token is for this user, with these groups, as far as the stored text keeps
them apart. -/
def ReadsBack (rows : List SessionRow) (token user role : Octets) (groups : List Octets) : Prop :=
  ∀ idle later sess,(Auth.Sessions.get hash idle rows token later).1=some sess →
    sess.user=cString user ∧ sess.role=cString role ∧
      sess.groups=splitGroups (cString (joinGroups groups))

/-- The provider of the login, enabled by then, vouched for the user under the nonce of the login;
name and groups are what it said, under its own id. -/
def Confirmed (acts : List Act) (o : Session) : Prop :=
  Happened (fun pre a => ∃ code i env subject,a=.finish i env ∧ CameBack lib crypto hash pre o.flow code ∧
    o.row.enabled=true ∧ o.row.redirectUri=env.ctx.redirectUri ∧
    (o.flow.provider≠[] → o.row.id=o.flow.provider) ∧
    Vouched lib crypto env.idp (OidcClient.ofRow o.row) o.flow.nonce env.ctx.now o.claims.raw ∧
    textValue lib o.claims.raw "nonce"=.ok o.flow.nonce ∧
    o.user=qualifySubject o.row.id (usernameOf (OidcClient.ofRow o.row) o.claims.raw subject) ∧
    textValue lib o.claims.raw "sub"=.ok subject ∧
    o.claims.groups=groupsOf (OidcClient.ofRow o.row) o.claims.raw ∧
    federatedRole o.row (env.account o.user) o.claims.groups=some o.role ∧
    ReadsBack hash (step lib crypto hash (after lib crypto hash pre) a).rows
      (randomToken env.token) o.user o.role o.claims.groups) acts

variable {lib crypto hash}

theorem flow_step (lib : JsonLib) (crypto : Crypto) (hash : Octets → Octets) (s : State) (a : Act) :
    ∀ f∈(step lib crypto hash s a).flows,f∈s.flows ∨
    ∃ ctx want state nonce verifier row,a=.login ctx want state nonce verifier ∧
      ctx.ssoAllowed=true ∧ usableRow ctx want=some row ∧
      f=⟨randomToken state,randomToken nonce,randomToken verifier,ctx.now,row.id⟩ := by
  intro f hf
  cases a with
  | login ctx want state nonce verifier =>
    simp only [step,login] at hf
    split_ifs at hf with hsso
    · exact Or.inl hf
    · split at hf
      · exact Or.inl hf
      · rename_i row hrow
        obtain hf|hf := List.mem_cons.mp hf
        · exact Or.inr ⟨ctx,want,state,nonce,verifier,row,rfl,by simpa using hsso,hrow,hf⟩
        · exact Or.inl (List.mem_of_mem_filter (List.mem_of_mem_filter hf))
  | callback ctx error state code =>
    left
    simp only [step,callback] at hf
    split_ifs at hf
    · exact hf
    · split at hf
      · exact hf
      · exact List.mem_of_mem_filter hf
  | finish i env =>
    left
    simp only [step,finish] at hf
    split at hf
    · exact hf
    · split at hf
      · exact hf
      · exact hf
  | restart => cases hf

theorem pending_step (lib : JsonLib) (crypto : Crypto) (hash : Octets → Octets) (s : State) (a : Act) :
    ∀ p∈(step lib crypto hash s a).pending,p∈s.pending ∨
    (p.flow∈s.flows ∧ ∃ ctx,a=.callback ctx false p.flow.state p.code ∧ ctx.ssoAllowed=true) := by
  intro p hp
  cases a with
  | login ctx want state nonce verifier =>
    left
    simp only [step,login] at hp
    split_ifs at hp
    · exact hp
    · split at hp
      · exact hp
      · exact hp
  | callback ctx error state code =>
    simp only [step,callback] at hp
    split_ifs at hp with hgate
    · exact Or.inl hp
    · split at hp
      · exact Or.inl hp
      · rename_i f hf
        obtain rfl|hp := List.mem_cons.mp hp
        · right
          simp only [not_or,Bool.not_eq_true',Bool.not_eq_false,Bool.not_eq_true] at hgate
          obtain ⟨_,hsso,herror⟩ := hgate
          obtain rfl : error=false := herror
          refine ⟨lookup_mem hf,ctx,?_,hsso⟩
          rw [lookup_key hf]
        · exact Or.inl hp
  | finish i env =>
    left
    simp only [step,finish] at hp
    split at hp
    · exact hp
    · split at hp
      · exact List.mem_of_mem_eraseIdx hp
      · exact List.mem_of_mem_eraseIdx hp
  | restart => cases hp

theorem session_step (lib : JsonLib) (crypto : Crypto) (hash : Octets → Octets) (s : State) (a : Act) :
    ∀ o∈(step lib crypto hash s a).sessions,o∈s.sessions ∨
    ∃ i env p,a=.finish i env ∧ p∈s.pending ∧
      openSession lib crypto hash s.rows p env=some (o,(step lib crypto hash s a).rows) := by
  intro o ho
  cases a with
  | login ctx want state nonce verifier =>
    left
    simp only [step,login] at ho
    split_ifs at ho
    · exact ho
    · split at ho
      · exact ho
      · exact ho
  | callback ctx error state code =>
    left
    simp only [step,callback] at ho
    split_ifs at ho
    · exact ho
    · split at ho
      · exact ho
      · exact ho
  | finish i env =>
    simp only [step,finish] at ho ⊢
    split at ho
    · exact Or.inl ho
    · next p hp =>
      split at ho
      · exact Or.inl ho
      · next session rows hsession =>
        obtain rfl|ho := List.mem_cons.mp ho
        · refine Or.inr ⟨i,env,p,rfl,List.mem_of_getElem? hp,?_⟩
          simp only [hsession]
        · exact Or.inl ho
  | restart => exact Or.inl ho

theorem usableRow_eq_some {ctx : Ctx} {want : Octets} {row : OidcProviderRow}
    (h : usableRow ctx want=some row) :
    row.enabled=true ∧ row.redirectUri=ctx.redirectUri ∧ (want≠[] → row.id=want) := by
  rw [usableRow,Option.filter_eq_some_iff] at h
  obtain ⟨r,hr,rfl⟩ := Option.map_eq_some_iff.mp h.1
  have hfound := List.find?_some hr
  rw [decide_eq_true_eq] at hfound
  exact ⟨hfound.1,rfl,fun hne => hfound.2.resolve_left hne⟩

theorem randomToken_ne_nil (drawn : Vector UInt8 24) : randomToken drawn≠[] := by
  intro h
  have hlen : drawn.toList.length=24 := by simp
  cases hd : drawn.toList with
  | nil =>
    rw [hd] at hlen
    cases hlen
  | cons b bs =>
    rw [randomToken,hd,Audit.toHex,Hex.encode] at h
    cases h

theorem CameBack.nonce_ne_nil {acts : List Act} {f : OidcFlow} {code : Octets}
    (h : CameBack lib crypto hash acts f code) : f.nonce≠[] := by
  obtain ⟨pre,_,_,_,hsent,_,_⟩ := h
  obtain ⟨_,_,_,_,_,_,_,nonce,_,_,_,_,_,hf⟩ := hsent
  rw [hf]
  exact randomToken_ne_nil nonce

/-- A session that single sign-on opened is for a user whom the provider of that very login vouched
for: it signed the claims for this client, within their time, under the nonce the browser had been
sent with, and the name and the groups are its own. -/
theorem oidc_session_vouched (acts : List Act) : ∀ o∈(after lib crypto hash acts).sessions,
    Confirmed lib crypto hash acts o := by
  intro o ho
  have hsession := happened_of_mem_run (f := State.sessions)
    (session_step lib crypto hash) rfl acts o ho
  refine hsession.imp fun pre a h => ?_
  obtain ⟨i,env,p,rfl,hp,hopen⟩ := h
  obtain ⟨hcomplete,hstored⟩ := openSession_eq_some hopen
  obtain ⟨hflow,hrow,hexchange,huser,hrole⟩ := complete_eq_some hcomplete
  have hcame : CameBack lib crypto hash pre p.flow p.code := by
    have hpending := happened_of_mem_run (f := State.pending)
      (pending_step lib crypto hash) rfl pre p hp
    refine hpending.imp fun pre a h => ?_
    obtain ⟨hmem,hctx⟩ := h
    have hsent := happened_of_mem_run (f := State.flows)
      (flow_step lib crypto hash) rfl pre p.flow hmem
    exact ⟨hsent,hmem,hctx⟩
  have hnonce : p.flow.nonce≠[] := hcame.nonce_ne_nil
  obtain ⟨hvouched,hclaimed,subject,hsubject,hname⟩ := exchange_vouched hexchange
  obtain ⟨henabled,hredirect,hid⟩ := usableRow_eq_some hrow
  rw [← hflow] at hcame hnonce hid hvouched
  refine ⟨p.code,i,env,subject,rfl,hcame,henabled,hredirect,hid,hvouched,hvouched.1.nonce hnonce,?_,
    hsubject,hclaimed,hrole,?_⟩
  · rw [huser,hname]
  · exact fun idle later sess hsess => Auth.Sessions.get_create hstored hsess

/-! ### A login through one provider -/

def zeroDraw : Vector UInt8 24 := Vector.replicate 24 0

def corpRow : OidcProviderRow :=
  ⟨octets "corp",true,octets "https://idp",octets "console",[],[],[],[],[],false,octets "staff",[]⟩

def corpCtx : Ctx := ⟨100,true,octets "https://pki/api/oidc/callback",[corpRow]⟩

def headerText : String := "\x7b\"alg\":\"RS256\"\x7d"

def keysText : String := "\x7b\"keys\":[\x7b\"e\":\"AQAB\",\"kty\":\"RSA\",\"n\":\"AQ\"\x7d]\x7d"

def claimsText : String :=
  "\x7b\"aud\":\"console\",\"email\":\"alice@corp.example\",\"exp\":1000,\"groups\":[\"staff\"],"++
    "\"iss\":\"https://idp\",\"nonce\":\""++String.ofList (List.replicate 48 '0')++
    "\",\"sub\":\"a1\"\x7d"

/-- The header and the claims in base64url, and a signature of one octet. -/
def idToken : String :=
  "eyJhbGciOiJSUzI1NiJ9."++
    "eyJhdWQiOiJjb25zb2xlIiwiZW1haWwiOiJhbGljZUBjb3JwLmV4YW1wbGUiLCJleHAiOjEwMDAsImdyb3Vw"++
    "cyI6WyJzdGFmZiJdLCJpc3MiOiJodHRwczovL2lkcCIsIm5vbmNlIjoiMDAwMDAwMDAwMDAwMDAwMDAwMDAw"++
    "MDAwMDAwMDAwMDAwMDAwMDAwMDAwMDAwMDAwIiwic3ViIjoiYTEifQ"++".AA"

def tokenText : String := "\x7b\"id_token\":\""++idToken++"\"\x7d"

/-- The five texts of the login, read as JSON. -/
def loginLib : JsonLib where
  parse t :=
    if t = octets headerText then .ok (.object [("alg",.str "RS256")])
    else if t = octets keysText then
      .ok (.object [("keys",.arr [.object [("e",.str "AQAB"),("kty",.str "RSA"),("n",.str "AQ")]])])
    else if t = octets tokenText then .ok (.object [("id_token",.str idToken)])
    else if t = octets claimsText then
      .ok (.object [("aud",.str "console"),("email",.str "alice@corp.example"),("exp",.int 1000),
        ("groups",.arr [.str "staff"]),("iss",.str "https://idp"),
        ("nonce",.str (String.ofList (List.replicate 48 '0'))),("sub",.str "a1")])
    else discoveryLib.parse t
  noMember _ k := ⟨403,k⟩
  typeError _ k := ⟨302,k⟩

/-- Only the one key makes signatures. -/
def oneKey : Crypto where
  fromData p := if p = .rsa [1] [1,0,1] then .ok [1] else .error ⟨1,"badPublicKey"⟩
  ecdsaDer r s := r++s
  digestVerify pk sig _ := pk = [1] ∧ sig = [0]

def loginIdp : Idp where
  get n _ := .response 200 (if n = 0 then discoveryText else octets keysText)
  post _ _ := .response 200 (octets tokenText)

def corpLogin : List Act :=
  [.login corpCtx [] zeroDraw zeroDraw zeroDraw,
    .callback corpCtx false (randomToken zeroDraw) (octets "code"),
    .finish 0 ⟨corpCtx,loginIdp,fun _ => none,zeroDraw,true⟩]

theorem oidc_session_vouched_corp : ∃ o∈(after loginLib oneKey id corpLogin).sessions,
    o.user=octets "corp\\alice@corp.example" ∧ o.role=octets "admin" ∧
    Confirmed loginLib oneKey id corpLogin o := by
  have hopened : ∃ o∈(after loginLib oneKey id corpLogin).sessions,
      o.user=octets "corp\\alice@corp.example" ∧ o.role=octets "admin" := by
    decide +kernel
  obtain ⟨o,ho,huser,hrole⟩ := hopened
  exact ⟨o,ho,huser,hrole,oidc_session_vouched corpLogin o ho⟩

end Provenance

end FastPki.Oidc
