import FastPki.Acme.Routes

namespace FastPki.Acme

open FastPki.X509 FastPki.Certs

/-- The status that the HTTP library answers with where a handler has set none, where an exception
has left the handler, and where no route matches. -/
structure Httplib where
  unset : Nat
  thrown : Nat
  unrouted : Nat
  unset_ok : unset<400
  thrown_error : 400≤thrown
  unrouted_error : 400≤unrouted

/-- The library as it answers by default. -/
def httplib : Httplib := ⟨200,500,404,by decide,by decide,by decide⟩

/-- A protected header has exactly one of the two. -/
inductive Form where
  | kid (kid : String)
  | jwk (jwk : String)

/-- A JWS as `jws::parse` returns it. `verify` is what `jws::verify` does under a key. Both throw a
`pki::Error` with its text, or another exception, here none. -/
structure ParsedJws where
  url : String
  nonce : String
  form : Form
  verify : String → Except (Option String) Unit

structure HttpPost where
  contentType : String
  parsed : Except (Option String) ParsedJws

/-- What becomes of a POST. `silent` is a handler that returned and left the response as it was, and
`goesOn` one that has the account of the signer and reads on. -/
inductive Reply where
  | problem (p : Problem)
  | thrown
  | unrouted
  | silent
  | answer (http : Nat) (tb : Tables)
  | goesOn (account : AccountRow)

namespace Reply

def http (lib : Httplib) : Reply → Option Nat
  | problem p => some p.http
  | thrown => some lib.thrown
  | unrouted => some lib.unrouted
  | silent => some lib.unset
  | answer http _ => some http
  | goesOn _ => none

def tables (tb : Tables) : Reply → Tables
  | answer _ tb' => tb'
  | _ => tb

/-- Only a `pki::Error` is caught, and answered with its text. -/
def caught (http : Nat) (type : String) : Option String → Reply
  | some what => problem ⟨http,type,what⟩
  | none => thrown

/-- The server answers with an error and changes no row. -/
def Inert (lib : Httplib) (tb : Tables) (r : Reply) : Prop :=
  (∃ code,r.http lib=some code ∧ 400≤code) ∧ r.tables tb=tb

end Reply

/-- Who has signed: an account, or the key that the JWS itself carries. -/
inductive Signer where
  | account (acc : AccountRow)
  | key (jwk : String)

def Signer.deactivated : Signer → Bool
  | account acc => acc.status = 1
  | key _ => false

/-- The id of an account from its URL. -/
def lastSegment (kid : String) : String := String.ofList (kid.toList.rtakeWhile (· ≠ '/'))

def signer (tb : Tables) (parsed : ParsedJws) : Except Reply Signer :=
  match parsed.form with
  | .jwk jwk => do
    (parsed.verify jwk).mapError (Reply.caught 401 "unauthorized")
    return .key jwk
  | .kid kid => do
    let acc ← requireSome (tb.getAccountById (lastSegment kid))
      (.problem ⟨400,"accountDoesNotExist","no such account"⟩)
    (parsed.verify acc.jwk).mapError (Reply.caught 401 "unauthorized")
    return .account acc

/-- `nonces` are those stored; the one of the request is deleted, and every answer stores another. -/
def parseAcmePost (site : Site) (nonces : List String) (tb : Tables) (req : HttpPost)
    (path : String) : Except Reply Signer := do
  refuseIf (req.contentType ≠ "application/jose+json")
    (.problem ⟨415,"malformed","expected application/jose+json"⟩)
  let parsed ← req.parsed.mapError (Reply.caught 400 "malformed")
  refuseIf (parsed.url ≠ urlFor site path) (.problem ⟨400,"unauthorized","url mismatch"⟩)
  refuseIf (parsed.nonce ∉ nonces) (.problem ⟨400,"badNonce","stale or unknown nonce"⟩)
  let s ← signer tb parsed
  -- no account is looked up for a key that the JWS carries, so that is never refused here
  refuseIf s.deactivated (.problem ⟨401,"unauthorized","account is deactivated"⟩)
  return s

/-- The fields of a new-account payload. A flag that is no boolean is none: reading it throws. -/
structure NewAccountFields where
  onlyReturnExisting : Option Bool
  termsOfServiceAgreed : Option Bool
  contact : String
  externalAccountBinding : Option (Except (Option String) (String × String))

/-- An empty payload is a JSON null, which has no fields to read. -/
inductive NewAccountPayload where
  | malformed (what : String)
  | noObject
  | object (fields : NewAccountFields)

inductive Route where
  | newAccount (payload : NewAccountPayload)
  | account (id : String) (deactivate : Bool)
  | keyChange (inner : Option InnerJws)
  | newOrder (ca : String) (idents : List Identifier)
  | newAuthz (ident : Identifier)
  | order (id : String)
  | authz (id : String) (deactivate : Bool)
  | chall (id attObj : String)
  | finalize (id ca : String) (payload : FinalizePayload)
  | cert (serial : String)

namespace Route

def path : Route → String
  | newAccount _ => "/new-account"
  | account id _ => "/account/"++id
  | keyChange _ => "/key-change"
  | newOrder _ _ => "/new-order"
  | newAuthz _ => "/new-authz"
  | order id => "/order/"++id
  | authz id _ => "/authz/"++id
  | chall id _ => "/chall/"++id
  | finalize id _ _ => "/order/"++id++"/finalize"
  | cert serial => "/cert/"++serial

/-- Pre-authorization is optional. -/
def registered (inp : Input) : Route → Bool
  | newAuthz _ => inp.acmeNewAuthz
  | _ => true

/-- The POST as the handlers of an account take it. -/
def post : Route → Option Post
  | newAccount _ => none
  | account id deactivate => some (.account id deactivate)
  | keyChange inner => some (.keyChange inner)
  | newOrder ca idents => some (.other (.newOrder ca idents))
  | newAuthz ident => some (.newAuthz ident)
  | order id => some (.other (.orderGet id))
  | authz id deactivate => some (.authz id deactivate)
  | chall id attObj => some (.chall id attObj)
  | finalize id ca payload => some (.other (.finalize id ca payload))
  | cert _ => none

end Route

/-- The account is made of what the request says; the flag is read before the row is saved. -/
def createAccount (inp : Input) (tb : Tables) (jwk hash : String) (f : NewAccountFields)
    (kid eab : String) : Reply :=
  match f.termsOfServiceAgreed with
  | none => .thrown
  | some agreed =>
    .answer 201 (tb.saveAccount
      ⟨⟨inp.newId,kid,jwk⟩,0,if agreed then 1 else 0,hash,f.contact,eab⟩)

/-- An account that does not exist yet needs a binding, or a device that could be proven. -/
def bindAccount (inp : Input) (tb : Tables) (jwk hash : String) (f : NewAccountFields) : Reply :=
  match f.externalAccountBinding with
  | some (.ok (kid,eab)) => createAccount inp tb jwk hash f kid eab
  | some (.error why) =>
    .caught 401 "unauthorized" (why.map ("externalAccountBinding: "++·))
  | none =>
    if tb.deviceTicketsOutstanding inp.now ∨ tb.serials ≠ [] then
      createAccount inp tb jwk hash f "" ""
    else .problem ⟨400,"externalAccountRequired","external account binding is required"⟩

/-- The status of an account that exists is not looked at. -/
def handleNewAccount (site : Site) (inp : Input) (tb : Tables) (jwk : String)
    (payload : NewAccountPayload) : Reply :=
  match site.thumbprint jwk with
  | none => .problem ⟨400,"badPublicKey","thumbprint: unsupported kty"⟩
  | some hash =>
    match payload with
    | .malformed what => .problem ⟨400,"malformed","payload: "++what⟩
    | .noObject => .thrown
    | .object f =>
      match f.onlyReturnExisting,tb.getAccountByJwkHash hash with
      | none,_ => .thrown
      | some _,some _ => .answer 200 tb
      | some true,none => .problem ⟨400,"accountDoesNotExist","no account for this key"⟩
      | some false,none => bindAccount inp tb jwk hash f

/-- What each handler does with a JWS that carries its key itself. -/
def withoutAccount (site : Site) (inp : Input) (tb : Tables) (jwk : String) : Route → Reply
  | .newAccount payload => handleNewAccount site inp tb jwk payload
  | .account _ _ => .problem ⟨401,"unauthorized",
      "an account may only be read or deactivated by its own key"⟩
  | .keyChange _ => .problem ⟨400,"malformed",
      "key-change must be signed by the account (kid) key"⟩
  | .newOrder _ _ => .problem ⟨400,"malformed","kid required"⟩
  | .newAuthz _ => .problem ⟨400,"malformed","kid required"⟩
  | .order id =>
    if (getOrder tb.db id).isNone then .problem ⟨404,"malformed","no such order"⟩
    else .problem ⟨401,"unauthorized","an order may only be read by the account that created it"⟩
  | .authz id _ =>
    if (getAuthz tb.db id).isNone then .problem ⟨404,"malformed","no such authz"⟩
    else .problem ⟨401,"unauthorized",
      "an authorization may only be acted on by the account that owns it"⟩
  | .chall _ _ => .problem ⟨404,"malformed","no such challenge"⟩
  -- the one handler that sends nothing
  | .finalize _ _ _ => .silent
  | .cert serial =>
    if (getCert tb.certs serial).isNone then .problem ⟨404,"malformed","no such cert"⟩
    else .problem ⟨401,"unauthorized","no account for this request"⟩

def withAccount (account : AccountRow) : Route → Reply
  | .newAccount _ => .problem ⟨400,"malformed","newAccount must use jwk"⟩
  | _ => .goesOn account

def handle (site : Site) (inp : Input) (nonces : List String) (tb : Tables) (route : Route)
    (req : HttpPost) : Reply :=
  if route.registered inp then
    match parseAcmePost site nonces tb req route.path with
    | .error r => r
    | .ok (.account acc) => withAccount acc route
    | .ok (.key jwk) => withoutAccount site inp tb jwk route
  else .unrouted

/-- The signature verifies under this text of a key only. -/
def underKey (signedBy jwk : String) : Except (Option String) Unit :=
  if jwk = signedBy then .ok () else .error (some "JWS signature verification failed")

def signedPost (site : Site) (path : String) (form : Form)
    (verify : String → Except (Option String) Unit) : HttpPost :=
  ⟨"application/jose+json",.ok ⟨urlFor site path,"n",form,verify⟩⟩

/-- Only the signature and the account are left to decide. -/
theorem parseAcmePost_signedPost (site : Site) (tb : Tables) (path : String) (form : Form)
    (verify : String → Except (Option String) Unit) :
    parseAcmePost site ["n"] tb (signedPost site path form verify) path=do
      let s ← signer tb ⟨urlFor site path,"n",form,verify⟩
      refuseIf s.deactivated (.problem ⟨401,"unauthorized","account is deactivated"⟩)
      return s := by
  simp [parseAcmePost,signedPost,refuseIf,bind,Except.bind,Except.mapError]

theorem advance_parse_eq (site : Site) (inp : Input) (tb : Tables) (path kid signedBy : String)
    (post : Post) :
    (Worker.parse (lastSegment kid) signedBy post).advance site inp tb=
    goOn tb (match parseAcmePost site ["n"] tb
        (signedPost site path (.kid kid) (underKey signedBy)) path with
      | .ok (.account acc) => dispatch site inp tb acc post
      | _ => finished) := by
  rw [parseAcmePost_signedPost]
  simp only [Worker.advance,signer]
  cases hacc : tb.getAccountById (lastSegment kid) with
  | none => rfl
  | some acc =>
    by_cases hjwk : acc.jwk=signedBy
    · subst hjwk
      have hverify : underKey acc.jwk acc.jwk=.ok () := if_pos rfl
      by_cases hstatus : acc.status=1
      · have hrefused : (Signer.account acc).deactivated=true := decide_eq_true hstatus
        simp [requireSome,hverify,hstatus,hrefused,refuseIf,bind,Except.bind,Except.mapError,
          pure,Except.pure]
      · have hactive : (Signer.account acc).deactivated=false := decide_eq_false hstatus
        simp [requireSome,hverify,hstatus,hactive,refuseIf,bind,Except.bind,Except.mapError,
          pure,Except.pure]
    · have hverify : underKey signedBy acc.jwk=.error (some "JWS signature verification failed") :=
        if_neg hjwk
      simp [requireSome,hverify,hjwk,bind,Except.bind,Except.mapError]

/-- The payload that the machine of all handlers takes, as it was read. -/
def NewAccount.payload (n : NewAccount) : NewAccountPayload :=
  .object ⟨some n.onlyReturnExisting,some n.termsAgreed,n.contact,
    n.binding.map fun b => b.mapError some⟩

/-- A handler that is not interrupted. -/
def Worker.alone (site : Site) (inp : Input) : Nat → Tables → Worker → Tables
  | 0,tb,_ => tb
  | n+1,tb,w =>
    let e := w.advance site inp tb
    alone site inp n e.tables e.worker

@[simp]
theorem alone_finished (site : Site) (inp : Input) (n : Nat) (tb : Tables) :
    Worker.alone site inp n tb finished=tb := by
  induction n with
  | zero => rfl
  | succ n ih => exact ih

/-- In the machine of all handlers new-account takes at most three statements, and leaves the same
tables. -/
theorem handleNewAccount_tables (site : Site) (inp : Input) (tb : Tables) (n : NewAccount) :
    (handleNewAccount site inp tb n.jwk n.payload).tables tb=
    Worker.alone site inp 3 tb (acceptNew site n) := by
  cases hhash : site.thumbprint n.jwk with
  | none =>
    have hfirst : acceptNew site n=finished := by simp [acceptNew,hhash]
    rw [hfirst,alone_finished]
    simp [handleNewAccount,hhash,Reply.tables]
  | some hash =>
    have hfirst : acceptNew site n=.newAccountGet n hash := by simp [acceptNew,hhash]
    have hsecond : Worker.alone site inp 3 tb (.newAccountGet n hash)=
        Worker.alone site inp 2 tb (newAccountStep tb n hash) := rfl
    rw [hfirst,hsecond]
    simp only [handleNewAccount,hhash,NewAccount.payload,newAccountStep]
    cases hold : tb.getAccountByJwkHash hash with
    | some acc => simp [Reply.tables]
    | none =>
      cases honly : n.onlyReturnExisting with
      | true => simp [Reply.tables]
      | false =>
        cases hbinding : n.binding with
        | none =>
          have hthird : Worker.alone site inp 2 tb (.newAccountTickets n hash)=
              Worker.alone site inp 1 tb
                (if tb.deviceTicketsOutstanding inp.now ∨ tb.serials≠[] then
                  .newAccountSave n hash "" "" else finished) := rfl
          simp only [bindAccount,Option.map_none,Option.isSome_none,Bool.false_eq_true,
            or_self,if_false,hthird]
          split_ifs with hdevice
          · rfl
          · simp [Reply.tables]
        | some b =>
          cases b with
          | error why => simp [bindAccount,Except.mapError,Reply.caught,Reply.tables]
          | ok p =>
            simp only [bindAccount,Except.mapError,Option.map_some,createAccount,Option.isSome_none,
              Bool.false_eq_true,or_self,if_false]
            rfl

namespace Reply

theorem problem_inert {lib : Httplib} {tb : Tables} {p : Problem} (h : 400≤p.http) :
    (problem p).Inert lib tb :=
  ⟨⟨p.http,rfl,h⟩,rfl⟩

/-- For a route that takes no key. -/
theorem problem_inert_iff {lib : Httplib} {tb : Tables} {p : Problem} (h : 400≤p.http) :
    (problem p).Inert lib tb ↔ ¬False :=
  iff_of_true (problem_inert h) not_false

theorem thrown_inert (lib : Httplib) (tb : Tables) : thrown.Inert lib tb :=
  ⟨⟨lib.thrown,rfl,lib.thrown_error⟩,rfl⟩

theorem caught_inert {lib : Httplib} {tb : Tables} {http : Nat} {type : String} (h : 400≤http)
    (e : Option String) : (caught http type e).Inert lib tb := by
  cases e with
  | none => exact thrown_inert lib tb
  | some what => exact problem_inert h

theorem not_inert_of_http {lib : Httplib} {tb : Tables} {r : Reply} {code : Nat}
    (hcode : r.http lib=some code) (hlt : code<400) : ¬r.Inert lib tb := by
  intro h
  obtain ⟨code',hcode',hle⟩ := h.1
  have heq : code=code' := Option.some.inj (hcode.symm.trans hcode')
  omega

end Reply

/-- The JWS passes every check under the key that it carries. -/
structure Accepted (site : Site) (nonces : List String) (req : HttpPost) (path : String)
    (parsed : ParsedJws) (jwk : String) : Prop where
  contentType : req.contentType="application/jose+json"
  url : parsed.url=urlFor site path
  nonce : parsed.nonce∈nonces
  form : parsed.form=.jwk jwk
  verified : parsed.verify jwk=.ok ()

theorem signer_eq_ok_iff {tb : Tables} {parsed : ParsedJws} {s : Signer} :
    signer tb parsed=.ok s ↔
    (∃ jwk,parsed.form=.jwk jwk ∧ parsed.verify jwk=.ok () ∧ s=.key jwk) ∨
    (∃ kid acc,parsed.form=.kid kid ∧ tb.getAccountById (lastSegment kid)=some acc ∧
      parsed.verify acc.jwk=.ok () ∧ s=.account acc) := by
  rcases parsed with ⟨url,nonce,form,verify⟩
  cases form with
  | jwk jwk =>
    simp only [signer,bind_eq_ok_iff,mapError_eq_ok_iff,pure,Except.pure,Except.ok.injEq]
    constructor
    · intro h
      obtain ⟨_,hverify,hs⟩ := h
      exact .inl ⟨jwk,rfl,hverify,hs.symm⟩
    · intro h
      obtain ⟨jwk',hform,hverify,hs⟩ | ⟨kid,acc,hform,_⟩ := h
      · cases hform
        exact ⟨(),hverify,hs.symm⟩
      · cases hform
  | kid kid =>
    simp only [signer,bind_eq_ok_iff,requireSome_eq_ok_iff,mapError_eq_ok_iff,pure,Except.pure,
      Except.ok.injEq]
    constructor
    · intro h
      obtain ⟨acc,hacc,_,hverify,hs⟩ := h
      exact .inr ⟨kid,acc,rfl,hacc,hverify,hs.symm⟩
    · intro h
      obtain ⟨jwk',hform,_⟩ | ⟨kid',acc,hform,hacc,hverify,hs⟩ := h
      · cases hform
      · cases hform
        exact ⟨acc,hacc,(),hverify,hs.symm⟩

theorem parseAcmePost_eq_ok_iff {site : Site} {nonces : List String} {tb : Tables} {req : HttpPost}
    {path : String} {s : Signer} :
    parseAcmePost site nonces tb req path=.ok s ↔
    req.contentType="application/jose+json" ∧ ∃ parsed,req.parsed=.ok parsed ∧
      parsed.url=urlFor site path ∧ parsed.nonce∈nonces ∧ signer tb parsed=.ok s ∧
      s.deactivated=false := by
  simp only [parseAcmePost,bind_eq_ok_iff,refuseIf_eq_ok_iff,mapError_eq_ok_iff,pure,Except.pure,
    Except.ok.injEq,not_not,Bool.not_eq_true]
  constructor
  · intro h
    obtain ⟨_,htype,parsed,hparsed,_,hurl,_,hnonce,s',hs,_,hactive,rfl⟩ := h
    exact ⟨htype,parsed,hparsed,hurl,hnonce,hs,hactive⟩
  · intro h
    obtain ⟨htype,parsed,hparsed,hurl,hnonce,hs,hactive⟩ := h
    exact ⟨(),htype,parsed,hparsed,(),hurl,(),hnonce,s,hs,(),hactive,rfl⟩

/-- Whatever stops the request before its handler is an error of its own. -/
theorem parseAcmePost_refuses (lib : Httplib) (site : Site) (nonces : List String) (tb : Tables)
    (req : HttpPost) (path : String) :
    Refuses (Reply.Inert lib tb) (parseAcmePost site nonces tb req path) := by
  have hsigner : ∀ parsed,Refuses (Reply.Inert lib tb) (signer tb parsed) := by
    intro parsed
    simp only [signer]
    split
    · apply Refuses.bind (.mapError (Reply.caught_inert (by decide)))
      intro _
      exact .ok
    · apply Refuses.bind (.requireSome (Reply.problem_inert (by decide)))
      intro acc
      apply Refuses.bind (.mapError (Reply.caught_inert (by decide)))
      intro _
      exact .ok
  apply Refuses.bind (.refuseIf (Reply.problem_inert (by decide)))
  intro _
  apply Refuses.bind (.mapError (Reply.caught_inert (by decide)))
  intro parsed
  apply Refuses.bind (.refuseIf (Reply.problem_inert (by decide)))
  intro _
  apply Refuses.bind (.refuseIf (Reply.problem_inert (by decide)))
  intro _
  apply Refuses.bind (hsigner parsed)
  intro s
  apply Refuses.bind (.refuseIf (Reply.problem_inert (by decide)))
  intro _
  exact .ok

theorem parseAcmePost_eq_key_iff {site : Site} {nonces : List String} {tb : Tables} {req : HttpPost}
    {path jwk : String} {parsed : ParsedJws} (hparsed : req.parsed=.ok parsed) :
    parseAcmePost site nonces tb req path=.ok (.key jwk) ↔
    Accepted site nonces req path parsed jwk := by
  rw [parseAcmePost_eq_ok_iff]
  constructor
  · intro h
    obtain ⟨htype,parsed',hparsed',hurl,hnonce,hsigner,_⟩ := h
    obtain rfl : parsed'=parsed := Except.ok.inj (hparsed'.symm.trans hparsed)
    obtain ⟨jwk',hform,hverify,hs⟩ | ⟨kid,acc,_,_,_,hs⟩ := signer_eq_ok_iff.mp hsigner
    · obtain rfl := Signer.key.inj hs
      exact ⟨htype,hurl,hnonce,hform,hverify⟩
    · cases hs
  · intro h
    have hsigner : signer tb parsed=.ok (.key jwk) :=
      signer_eq_ok_iff.mpr (.inl ⟨jwk,h.form,h.verified,rfl⟩)
    exact ⟨h.contentType,parsed,hparsed,h.url,h.nonce,hsigner,rfl⟩

/-- An account that signs in kid form is the one that it names, and active. -/
theorem account_of_parseAcmePost {site : Site} {nonces : List String} {tb : Tables} {req : HttpPost}
    {path : String} {parsed : ParsedJws} {acc : AccountRow} (hparsed : req.parsed=.ok parsed)
    (h : parseAcmePost site nonces tb req path=.ok (.account acc)) :
    ∃ kid,parsed.form=.kid kid ∧ tb.getAccountById (lastSegment kid)=some acc ∧ acc.status≠1 := by
  obtain ⟨_,parsed',hparsed',_,_,hsigner,hactive⟩ := parseAcmePost_eq_ok_iff.mp h
  obtain rfl : parsed'=parsed := Except.ok.inj (hparsed'.symm.trans hparsed)
  obtain ⟨_,_,_,hs⟩ | ⟨kid,acc',hform,hacc,_,hs⟩ := signer_eq_ok_iff.mp hsigner
  · cases hs
  · obtain rfl := Signer.account.inj hs
    exact ⟨kid,hform,hacc,of_decide_eq_false hactive⟩

/-- In kid form a handler takes its first step into the machine of all handlers exactly where the
account of the signer is there and active. -/
theorem advance_parse_handle (site : Site) (inp : Input) (tb : Tables) {route : Route} {post : Post}
    (kid signedBy : String) (hpost : route.post=some post) :
    (Worker.parse (lastSegment kid) signedBy post).advance site inp tb=
    goOn tb (match handle site inp ["n"] tb route
        (signedPost site route.path (.kid kid) (underKey signedBy)) with
      | .goesOn acc => dispatch site inp tb acc post
      | _ => finished) := by
  rw [advance_parse_eq site inp tb route.path kid signedBy post]
  apply congrArg (goOn tb)
  cases hparse : parseAcmePost site ["n"] tb
      (signedPost site route.path (.kid kid) (underKey signedBy)) route.path with
  | error r =>
    have hinert := parseAcmePost_refuses httplib site ["n"] tb _ route.path r hparse
    have hgoes : ∀ acc,r≠.goesOn acc := by
      rintro acc rfl
      obtain ⟨⟨code,hcode,_⟩,_⟩ := hinert
      cases hcode
    simp only [handle,hparse]
    split_ifs
    · cases r with
      | goesOn acc => exact absurd rfl (hgoes acc)
      | problem p => rfl
      | thrown => rfl
      | unrouted => rfl
      | silent => rfl
      | answer http tb' => rfl
    · rfl
  | ok s =>
    cases s with
    | key jwk => cases ((parseAcmePost_eq_key_iff rfl).mp hparse).form
    | account acc =>
      simp only [handle,hparse]
      cases route with
      | newAccount payload => cases hpost
      | cert serial => cases hpost
      | newAuthz ident =>
        obtain rfl := Option.some.inj hpost
        split_ifs with hroute
        · rfl
        · have hoff : ¬(inp.acmeNewAuthz ∧ ident.type="dns" ∧ ident.value≠[]) := fun h => hroute h.1
          exact if_neg hoff
      | account id deactivate => rfl
      | keyChange inner => rfl
      | newOrder ca idents => rfl
      | order id => rfl
      | authz id deactivate => rfl
      | chall id attObj => rfl
      | finalize id ca payload => rfl

/-- A new account is created with a binding that was verified, or while a device could be proven. -/
def NewAccountFields.Bound (inp : Input) (tb : Tables) (f : NewAccountFields) : Prop :=
  match f.externalAccountBinding with
  | some b => b.isOk
  | none => tb.deviceTicketsOutstanding inp.now ∨ tb.serials≠[]

/-- An account of this key exists, or one may be created. -/
def NewAccountPayload.Admitted (site : Site) (inp : Input) (tb : Tables) (jwk : String) :
    NewAccountPayload → Prop
  | object f => ∃ hash only,site.thumbprint jwk=some hash ∧ f.onlyReturnExisting=some only ∧
      ((tb.getAccountByJwkHash hash).isSome ∨
        only=false ∧ f.termsOfServiceAgreed.isSome ∧ f.Bound inp tb)
  | _ => False

/-- The two routes that a key can use by itself. -/
def Route.TakesKey (site : Site) (inp : Input) (tb : Tables) (jwk : String) : Route → Prop
  | newAccount payload => payload.Admitted site inp tb jwk
  | finalize _ _ _ => True
  | _ => False

theorem createAccount_inert_iff {lib : Httplib} {inp : Input} {tb : Tables} {jwk hash : String}
    {f : NewAccountFields} {kid eab : String} :
    (createAccount inp tb jwk hash f kid eab).Inert lib tb ↔ f.termsOfServiceAgreed=none := by
  cases hterms : f.termsOfServiceAgreed with
  | none => simp [createAccount,hterms,Reply.thrown_inert]
  | some agreed =>
    simp only [createAccount,hterms,reduceCtorEq,iff_false]
    exact Reply.not_inert_of_http rfl (by decide)

theorem bindAccount_inert_iff {lib : Httplib} {inp : Input} {tb : Tables} {jwk hash : String}
    {f : NewAccountFields} :
    (bindAccount inp tb jwk hash f).Inert lib tb ↔
    ¬(f.termsOfServiceAgreed.isSome ∧ f.Bound inp tb) := by
  have hiff : f.termsOfServiceAgreed=none ↔ ¬f.termsOfServiceAgreed.isSome := by simp
  cases hbinding : f.externalAccountBinding with
  | some b =>
    cases b with
    | ok p =>
      simp only [bindAccount,NewAccountFields.Bound,hbinding,createAccount_inert_iff,hiff]
      simp [Except.isOk,Except.toBool]
    | error why =>
      simp only [bindAccount,NewAccountFields.Bound,hbinding]
      simp [Except.isOk,Except.toBool,Reply.caught_inert]
  | none =>
    simp only [bindAccount,NewAccountFields.Bound,hbinding]
    split_ifs with hdevice
    · rw [createAccount_inert_iff,hiff]
      simp only [hdevice,and_true]
    · simp [hdevice,Reply.problem_inert]

theorem handleNewAccount_inert_iff {lib : Httplib} {site : Site} {inp : Input} {tb : Tables}
    {jwk : String} {payload : NewAccountPayload} :
    (handleNewAccount site inp tb jwk payload).Inert lib tb ↔ ¬payload.Admitted site inp tb jwk := by
  cases hhash : site.thumbprint jwk with
  | none =>
    have hnot : ¬payload.Admitted site inp tb jwk := by
      cases payload with
      | object f => simp [NewAccountPayload.Admitted,hhash]
      | malformed what => exact not_false
      | noObject => exact not_false
    simp only [handleNewAccount,hhash,hnot,not_false_eq_true,iff_true]
    exact Reply.problem_inert (by decide)
  | some hash =>
    cases payload with
    | malformed what =>
      simp [handleNewAccount,hhash,NewAccountPayload.Admitted,Reply.problem_inert]
    | noObject =>
      simp [handleNewAccount,hhash,NewAccountPayload.Admitted,Reply.thrown_inert]
    | object f =>
      simp only [handleNewAccount,hhash,NewAccountPayload.Admitted]
      cases honly : f.onlyReturnExisting with
      | none => simp [Reply.thrown_inert]
      | some only =>
        cases hold : tb.getAccountByJwkHash hash with
        | some acc =>
          have hnot : ¬(Reply.answer 200 tb).Inert lib tb := Reply.not_inert_of_http rfl (by decide)
          simp [hnot,hold]
        | none =>
          cases only with
          | true => simp [hold,Reply.problem_inert]
          | false => simp [hold,bindAccount_inert_iff]

theorem withoutAccount_inert_iff {lib : Httplib} {site : Site} {inp : Input} {tb : Tables}
    {jwk : String} {route : Route} :
    (withoutAccount site inp tb jwk route).Inert lib tb ↔ ¬route.TakesKey site inp tb jwk := by
  cases route with
  | newAccount payload => exact handleNewAccount_inert_iff
  | finalize id ca payload =>
    simp only [withoutAccount,Route.TakesKey,not_true_eq_false,iff_false]
    exact Reply.not_inert_of_http rfl lib.unset_ok
  | account id deactivate => exact Reply.problem_inert_iff (by decide)
  | keyChange inner => exact Reply.problem_inert_iff (by decide)
  | newOrder ca idents => exact Reply.problem_inert_iff (by decide)
  | newAuthz ident => exact Reply.problem_inert_iff (by decide)
  | chall id attObj => exact Reply.problem_inert_iff (by decide)
  | order id =>
    simp only [withoutAccount]
    split_ifs with h
    · exact Reply.problem_inert_iff (by decide)
    · exact Reply.problem_inert_iff (by decide)
  | authz id deactivate =>
    simp only [withoutAccount]
    split_ifs with h
    · exact Reply.problem_inert_iff (by decide)
    · exact Reply.problem_inert_iff (by decide)
  | cert serial =>
    simp only [withoutAccount]
    split_ifs with h
    · exact Reply.problem_inert_iff (by decide)
    · exact Reply.problem_inert_iff (by decide)

/-- The request is signed with the key of this account. In kid form it names the account, in jwk
form it carries a key. -/
structure CarriesKey (acc : AccountRow) (parsed : ParsedJws) : Prop where
  verified : parsed.verify acc.jwk=.ok ()
  named : ∀ kid,parsed.form=.kid kid → lastSegment kid=acc.id

/-- A key is inert once its account is deactivated, except that a JWS which carries the key itself is
answered without an error by finalize, and by new-account where that finds an account or makes
one. -/
theorem deactivated_key_inert_iff (lib : Httplib) (site : Site) (inp : Input) (nonces : List String)
    (tb : Tables) (acc : AccountRow) (route : Route) (req : HttpPost) (parsed : ParsedJws)
    (hstored : tb.getAccountById acc.id=some acc) (hstatus : acc.status=1)
    (hparsed : req.parsed=.ok parsed) (hkey : CarriesKey acc parsed) :
    (handle site inp nonces tb route req).Inert lib tb ↔
    ∀ jwk,Accepted site nonces req route.path parsed jwk → route.registered inp →
      ¬route.TakesKey site inp tb jwk := by
  simp only [handle]
  split_ifs with hroute
  · cases hpost : parseAcmePost site nonces tb req route.path with
    | error r =>
      have hr : r.Inert lib tb := parseAcmePost_refuses lib site nonces tb req route.path r hpost
      refine iff_of_true hr ?_
      intro jwk haccepted
      have hok : parseAcmePost site nonces tb req route.path=.ok (.key jwk) :=
        (parseAcmePost_eq_key_iff hparsed).mpr haccepted
      rw [hpost] at hok
      cases hok
    | ok s =>
      cases s with
      | account acc' =>
        -- only the account itself can be named, and that is refused
        obtain ⟨kid,hform,hacc,hactive⟩ := account_of_parseAcmePost hparsed hpost
        rw [hkey.named kid hform,hstored] at hacc
        obtain rfl := Option.some.inj hacc
        exact absurd hstatus hactive
      | key jwk =>
        have haccepted := (parseAcmePost_eq_key_iff hparsed).mp hpost
        change (withoutAccount site inp tb jwk route).Inert lib tb ↔ _
        rw [withoutAccount_inert_iff]
        constructor
        · intro h jwk' haccepted' _
          have hform : Form.jwk jwk=Form.jwk jwk' := haccepted.form.symm.trans haccepted'.form
          obtain rfl := Form.jwk.inj hform
          exact h
        · intro h
          exact h jwk haccepted hroute
  · have hinert : Reply.unrouted.Inert lib tb := ⟨⟨lib.unrouted,rfl,lib.unrouted_error⟩,rfl⟩
    refine iff_of_true hinert ?_
    intro jwk _ h
    exact absurd h hroute

def deactivatedRow : AccountRow := { aliceRow with status := 1 }

/-- Nothing but one account, which is deactivated. -/
def deactivatedTables : Tables := ⟨[deactivatedRow],[],[],[],[],[],[]⟩

/-- A signature of the key of that account, which may be written in two ways. -/
def aliceSigned (jwk : String) : Except (Option String) Unit :=
  if jwk ∈ ["k1","K1"] then .ok () else .error (some "JWS signature verification failed")

def alicePost (path : String) (form : Form) : HttpPost := signedPost plainSite path form aliceSigned

def joinFields : NewAccountFields := ⟨some false,some true,"",some (.ok ("alice","eab"))⟩

theorem aliceSigned_carriesKey (path : String) (form : Form)
    (h : ∀ kid,form=.kid kid → lastSegment kid="1") :
    CarriesKey deactivatedRow ⟨urlFor plainSite path,"n",form,aliceSigned⟩ := by
  have hverified : aliceSigned "k1"=.ok () := rfl
  exact ⟨hverified,h⟩

theorem deactivated_key_inert_orders :
    deactivatedTables.getAccountById "1"=some deactivatedRow ∧
    (handle plainSite (draw "2") ["n"] deactivatedTables (.newOrder "ca1" [])
      (alicePost "/new-order" (.kid "acme/account/1"))).Inert httplib deactivatedTables ∧
    (handle plainSite (draw "2") ["n"] deactivatedTables (.keyChange none)
      (alicePost "/key-change" (.jwk "k1"))).Inert httplib deactivatedTables := by
  have hkid : ∀ kid,Form.kid "acme/account/1"=.kid kid → lastSegment kid="1" := by
    intro kid h
    obtain rfl := Form.kid.inj h
    decide
  have hjwk : ∀ kid,Form.jwk "k1"=.kid kid → lastSegment kid="1" := by
    intro kid h
    cases h
  refine ⟨by decide,?_,?_⟩
  · apply (deactivated_key_inert_iff httplib plainSite (draw "2") ["n"] deactivatedTables
      deactivatedRow _ _ _ (by decide) rfl rfl (aliceSigned_carriesKey "/new-order" _ hkid)).mpr
    intro _ _ _ h
    exact h
  · apply (deactivated_key_inert_iff httplib plainSite (draw "2") ["n"] deactivatedTables
      deactivatedRow _ _ _ (by decide) rfl rfl (aliceSigned_carriesKey "/key-change" _ hjwk)).mpr
    intro _ _ _ h
    exact h

/-- With the key itself, new-account returns the account as valid, or makes another one where the key
is written differently, and finalize answers nothing at all. -/
theorem deactivated_key_answered :
    deactivatedTables.getAccountById "1"=some deactivatedRow ∧ deactivatedRow.status=1 ∧
    (∀ path jwk,CarriesKey deactivatedRow ⟨urlFor plainSite path,"n",.jwk jwk,aliceSigned⟩) ∧
    ¬(handle plainSite (draw "2") ["n"] deactivatedTables (.newAccount (.object joinFields))
      (alicePost "/new-account" (.jwk "k1"))).Inert httplib deactivatedTables ∧
    ¬(handle plainSite (draw "2") ["n"] deactivatedTables (.newAccount (.object joinFields))
      (alicePost "/new-account" (.jwk "K1"))).Inert httplib deactivatedTables ∧
    ((handle plainSite (draw "2") ["n"] deactivatedTables (.newAccount (.object joinFields))
      (alicePost "/new-account" (.jwk "K1"))).tables deactivatedTables).accounts≠
        deactivatedTables.accounts ∧
    ¬(handle plainSite (draw "2") ["n"] deactivatedTables (.finalize "7" "ca1" .noCsr)
      (alicePost "/order/7/finalize" (.jwk "k1"))).Inert httplib deactivatedTables := by
  refine ⟨by decide,rfl,?_,?_,?_,by decide,?_⟩
  · intro path jwk
    apply aliceSigned_carriesKey
    intro kid h
    cases h
  · exact @Reply.not_inert_of_http httplib deactivatedTables _ 200 (by decide) (by decide)
  · exact @Reply.not_inert_of_http httplib deactivatedTables _ 201 (by decide) (by decide)
  · exact @Reply.not_inert_of_http httplib deactivatedTables _ 200 (by decide) (by decide)

end FastPki.Acme
