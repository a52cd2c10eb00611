import FastPki.Auth.Subject
import FastPki.Framework.Percent
import FastPki.Jws.Verify

namespace FastPki.Oidc

open FastPki.X509 FastPki.Jws
open Auth (qualifySubject)

/-- A row of `oidc_providers`. -/
structure OidcProviderRow where
  id : Octets
  enabled : Bool
  issuer : Octets
  clientId : Octets
  clientSecret : Octets
  redirectUri : Octets
  scopes : Octets
  usernameClaim : Octets
  groupsClaim : Octets
  requireLocalUser : Bool
  adminGroup : Octets
  auditorGroup : Octets
  deriving DecidableEq

structure OidcClient where
  providerId : Octets
  issuer : Octets
  clientId : Octets
  clientSecret : Octets
  redirectUri : Octets
  scopes : Octets
  usernameClaim : Octets
  groupsClaim : Octets
  deriving DecidableEq

/-- An empty column is one that was not set. -/
def orDefault (v : Octets) (d : String) : Octets := if v = [] then octets d else v

def OidcClient.ofRow (r : OidcProviderRow) : OidcClient where
  providerId := r.id
  issuer := r.issuer
  clientId := r.clientId
  clientSecret := r.clientSecret
  redirectUri := r.redirectUri
  scopes := orDefault r.scopes "openid email profile"
  usernameClaim := orDefault r.usernameClaim "email"
  groupsClaim := orDefault r.groupsClaim "groups"

def OidcClient.enabled (c : OidcClient) : Bool :=
  c.issuer ≠ [] ∧ c.clientId ≠ [] ∧ c.redirectUri ≠ []

inductive HttpAnswer where
  | transport (error : String)
  | response (status : Nat) (body : Octets)
  deriving DecidableEq

/-- What the network answers in the course of one request of ours. The `n`th GET may be answered
differently from the one before. -/
structure Idp where
  get : Nat → Octets × Octets → HttpAnswer
  post : Octets × Octets → Octets → HttpAnswer

/-- `s.find(c, from)` -/
def findFrom (c : UInt8) (from_ : Nat) (s : Octets) : Option Nat :=
  ((s.drop from_).idxOf? c).map (·+from_)

def schemeEnd : Octets → Nat → Option Nat
  | s@(_::rest),n => if (octets "://").isPrefixOf s then some n else schemeEnd rest (n+1)
  | [],_ => none

/-- The scheme and host, and the path behind them. -/
def splitUrl (url : Octets) : Octets × Octets :=
  match schemeEnd url 0 with
  | none => (url,octets "/")
  | some i =>
    match findFrom 0x2f (i+3) url with
    | none => (url,octets "/")
    | some p => (url.take p,url.drop p)

/-- `isalnum` of the C locale, and four signs. -/
def unreserved (c : UInt8) : Bool :=
  (0x30 ≤ c && c ≤ 0x39) || (0x41 ≤ c && c ≤ 0x5a) || (0x61 ≤ c && c ≤ 0x7a) ||
    c = 0x2d || c = 0x5f || c = 0x2e || c = 0x7e

def urlencode (s : Octets) : Octets := Percent.encode unreserved s

def stripSlashes (s : Octets) : Octets := (s.reverse.dropWhile (· = 0x2f)).reverse

/-- What discovery gives. -/
structure Endpoints where
  authz : Octets
  token : Octets
  jwks : Octets
  deriving DecidableEq

section Code

variable (lib : JsonLib) (crypto : Crypto) (idp : Idp)

def httpGetJson (n : Nat) (url : Octets) : Except Error Json :=
  match idp.get n (splitUrl url) with
  | .transport e => .error ⟨2,"oidc: GET "++asText url++" transport error: "++e⟩
  | .response status body =>
    if status ≠ 200 then .error ⟨2,"oidc: GET "++asText url++" HTTP "++toString status⟩
    else lib.parse body

def discoveryUrl (cl : OidcClient) : Octets :=
  stripSlashes cl.issuer++octets "/.well-known/openid-configuration"

/-- The first GET of every request. -/
def ensureDiscovery (cl : OidcClient) : Except Error Endpoints := do
  let d ← httpGetJson lib idp 0 (discoveryUrl cl)
  let authz ← textMember lib d "authorization_endpoint"
  let token ← textMember lib d "token_endpoint"
  let jwks ← textMember lib d "jwks_uri"
  .ok ⟨authz,token,jwks⟩

/-- The first key of that id; of any id when none is asked for. -/
def keyOf (kid : Octets) : List Json → Except Error (Option Json)
  | [] => .ok none
  | k::ks =>
    if kid = [] then .ok (some k)
    else if !k.contains "kid" then keyOf kid ks
    else do
      let id ← textMember lib k "kid"
      if id = kid then .ok (some k) else keyOf kid ks

def keysOf (jwks : Json) (kid : Octets) : Except Error (Option Json) := do
  let keys ← member lib jwks "keys"
  keyOf lib kid keys.elements

/-- A key that is not there is looked for once more, in a new copy of the keys. -/
def findJwk (uri kid : Octets) : Except Error Json := do
  let jwks ← httpGetJson lib idp 1 uri
  let found ← keysOf lib jwks kid
  match found with
  | some k => .ok k
  | none =>
    let jwks ← httpGetJson lib idp 2 uri
    let found ← keysOf lib jwks kid
    requireSome found ⟨1,"oidc: no JWKS key for kid '"++asText kid++"'"⟩

def containsAud (aud : Json) (want : Octets) : Bool :=
  match aud with
  | .str s => octets s = want
  | .arr l => l.any fun a => (a.getStr.map octets) = some want
  | _ => false

/-- Up to the first dot, up to the second, and the rest. -/
def splitToken (jwt : Octets) : Option (Octets × Octets × Octets) :=
  let rest := jwt.dropWhile (· ≠ 0x2e)
  let rest' := (rest.drop 1).dropWhile (· ≠ 0x2e)
  if rest = [] ∨ rest' = [] then none
  else some (jwt.takeWhile (· ≠ 0x2e),(rest.drop 1).takeWhile (· ≠ 0x2e),rest'.drop 1)

def tokenExpired (claims : Json) (now : Int) : Except Error Bool :=
  match claims.find "exp" with
  | none => .ok true
  | some v =>
    match v.getInt64 with
    | none => .error (lib.typeError v "exp")
    | some e => .ok (e < now)

def checkClaims (cl : OidcClient) (claims : Json) (nonce : Octets) (now : Int) :
    Except Error Unit := do
  let iss ← textValue lib claims "iss"
  refuseIf (stripSlashes iss ≠ stripSlashes cl.issuer) ⟨1,"oidc: issuer mismatch"⟩
  refuseIf (((claims.find "aud").elim false (containsAud · cl.clientId)) = false)
    ⟨1,"oidc: audience mismatch"⟩
  let expired ← tokenExpired lib claims now
  refuseIf expired ⟨1,"oidc: id_token expired"⟩
  if nonce = [] then .ok ()
  else do
    let n ← textValue lib claims "nonce"
    refuseIf (n ≠ nonce) ⟨1,"oidc: nonce mismatch"⟩

/-- The claims of a token that the provider signed. -/
def verifyIdToken (cl : OidcClient) (jwksUri jwt nonce : Octets) (now : Int) : Except Error Json := do
  let (h,p,s) ← requireSome (splitToken jwt) ⟨1,"oidc: malformed id_token"⟩
  let hb ← base64urlDecode h
  let header ← lib.parse hb
  let alg ← textValue lib header "alg"
  let kid ← textValue lib header "kid"
  let sig ← base64urlDecode s
  let key ← findJwk lib idp jwksUri kid
  let _ ← verify lib crypto ⟨h,p,sig,alg⟩ key
  let pb ← base64urlDecode p
  let claims ← lib.parse pb
  checkClaims lib cl claims nonce now
  .ok claims

def authUrl (cl : OidcClient) (state nonce codeChallenge : Octets) : Except Error Octets := do
  let ep ← ensureDiscovery lib idp cl
  .ok (ep.authz++octets "?response_type=code"++
    octets "&client_id="++urlencode cl.clientId++
    octets "&redirect_uri="++urlencode cl.redirectUri++
    octets "&scope="++urlencode cl.scopes++
    octets "&state="++urlencode state++
    octets "&nonce="++urlencode nonce++
    octets "&code_challenge="++urlencode codeChallenge++
    octets "&code_challenge_method=S256")

def tokenBody (cl : OidcClient) (code codeVerifier : Octets) : Octets :=
  octets "grant_type=authorization_code"++
    octets "&code="++urlencode code++
    octets "&redirect_uri="++urlencode cl.redirectUri++
    octets "&client_id="++urlencode cl.clientId++
    octets "&code_verifier="++urlencode codeVerifier++
    (if cl.clientSecret = [] then [] else octets "&client_secret="++urlencode cl.clientSecret)

structure OidcClaims where
  raw : Json
  subject : Octets
  username : Octets
  email : Octets
  groups : List Octets

def unverified (claims : Json) : Bool :=
  match claims.find "email_verified" with
  | some (.bool b) => !b
  | some (.str s) => s = "false"
  | _ => false

def emailOf (claims : Json) : Octets :=
  match claims.find "email" with
  | some (.str s) => if unverified claims then [] else octets s
  | _ => []

/-- A member whose name comes from the settings. -/
def findNamed (claims : Json) (name : Octets) : Option Json :=
  match claims with
  | .obj members => (members.find? fun m => octets m.1 = name).map Prod.snd
  | _ => none

def usernameOf (cl : OidcClient) (claims : Json) (subject : Octets) : Octets :=
  match findNamed claims cl.usernameClaim with
  | some (.str s) => if octets s = [] then subject else octets s
  | _ => subject

def groupsOf (cl : OidcClient) (claims : Json) : List Octets :=
  match findNamed claims cl.groupsClaim with
  | some (.arr l) => l.filterMap fun g => g.getStr.map fun s => qualifySubject cl.providerId (octets s)
  | _ => []

def requestToken (cl : OidcClient) (ep : Endpoints) (code codeVerifier : Octets) :
    Except Error Octets :=
  match idp.post (splitUrl ep.token) (tokenBody cl code codeVerifier) with
  | .transport e => .error ⟨2,"oidc: token request transport error: "++e⟩
  | .response status body =>
    if status ≠ 200 then
      .error ⟨1,"oidc: token endpoint HTTP "++toString status++": "++asText body⟩
    else do
      let tok ← lib.parse body
      refuseIf (!tok.contains "id_token") ⟨1,"oidc: token response has no id_token"⟩
      textMember lib tok "id_token"

def exchange (cl : OidcClient) (code codeVerifier expectedNonce : Octets) (now : Int) :
    Except Error OidcClaims := do
  let ep ← ensureDiscovery lib idp cl
  let jwt ← requestToken lib idp cl ep code codeVerifier
  let claims ← verifyIdToken lib crypto idp cl ep.jwks jwt expectedNonce now
  let subject ← textValue lib claims "sub"
  .ok ⟨claims,subject,usernameOf cl claims subject,emailOf claims,groupsOf cl claims⟩

end Code

section Requests

/-- The parameters of the request for a token. -/
def tokenParams (cl : OidcClient) (code codeVerifier : Octets) : List (Octets × Octets) :=
  [(octets "grant_type",octets "authorization_code"),(octets "code",code),
    (octets "redirect_uri",cl.redirectUri),(octets "client_id",cl.clientId),
    (octets "code_verifier",codeVerifier)]++
    (if cl.clientSecret = [] then [] else [(octets "client_secret",cl.clientSecret)])

/-- The parameters that a browser is sent to the provider with. -/
def authParams (cl : OidcClient) (state nonce codeChallenge : Octets) : List (Octets × Octets) :=
  [(octets "response_type",octets "code"),(octets "client_id",cl.clientId),
    (octets "redirect_uri",cl.redirectUri),(octets "scope",cl.scopes),(octets "state",state),
    (octets "nonce",nonce),(octets "code_challenge",codeChallenge),
    (octets "code_challenge_method",octets "S256")]

/-- The query of a URL: from its first `?` to its fragment. -/
def queryOf (url : Octets) : Octets :=
  ((url.takeWhile (· ≠ 0x23)).dropWhile (· ≠ 0x3f)).drop 1

theorem unreserved_formSafe : Percent.FormSafe unreserved :=
  ⟨by decide,by decide,by decide,by decide⟩

/-- A name of unreserved characters is written as it is. -/
theorem pair_plain {name value : Octets} (h : name.all unreserved=true) :
    Percent.pair unreserved (name,value)=name++Percent.equalsSign::urlencode value := by
  have hname : Percent.encode unreserved name=name := by
    rw [Percent.encode,List.flatMap_congr (g := fun c => [c])]
    · simp
    · intro c hc
      rw [if_pos (List.all_eq_true.mp h c hc)]
  rw [Percent.pair,hname]
  rfl

/-- The name of one more parameter, as the code writes it. -/
abbrev NamedParam (text name : String) : Prop :=
  octets text=Percent.ampersand::(octets name++[Percent.equalsSign]) ∧
    (octets name).all unreserved=true

theorem named_pair {text name : String} (h : NamedParam text name) (value : Octets) :
    Percent.ampersand::Percent.pair unreserved (octets name,value)=octets text++urlencode value := by
  rw [pair_plain h.2,h.1]
  simp

theorem tokenBody_eq (cl : OidcClient) (code codeVerifier : Octets) :
    tokenBody cl code codeVerifier=Percent.formEncode unreserved (tokenParams cl code codeVerifier) := by
  have hgrant : Percent.pair unreserved (octets "grant_type",octets "authorization_code")=
      octets "grant_type=authorization_code" := by decide
  have hcode : NamedParam "&code=" "code" := by decide
  have hredirect : NamedParam "&redirect_uri=" "redirect_uri" := by decide
  have hclient : NamedParam "&client_id=" "client_id" := by decide
  have hverifier : NamedParam "&code_verifier=" "code_verifier" := by decide
  have hsecret : NamedParam "&client_secret=" "client_secret" := by decide
  rw [tokenBody,tokenParams,List.cons_append,Percent.formEncode_cons,List.flatMap_append]
  simp only [List.flatMap_cons,List.flatMap_nil,hgrant,named_pair hcode,named_pair hredirect,
    named_pair hclient,named_pair hverifier]
  split_ifs
  · simp
  · simp [named_pair hsecret]

def authQuery (cl : OidcClient) (state nonce codeChallenge : Octets) : Octets :=
  Percent.formEncode unreserved (authParams cl state nonce codeChallenge)

theorem authUrl_eq {lib : JsonLib} {idp : Idp} {cl : OidcClient} {ep : Endpoints}
    (h : ensureDiscovery lib idp cl=.ok ep) (state nonce codeChallenge : Octets) :
    authUrl lib idp cl state nonce codeChallenge=
      .ok (ep.authz++0x3f::authQuery cl state nonce codeChallenge) := by
  have htype : 0x3f::Percent.pair unreserved (octets "response_type",octets "code")=
      octets "?response_type=code" := by decide
  have hclient : NamedParam "&client_id=" "client_id" := by decide
  have hredirect : NamedParam "&redirect_uri=" "redirect_uri" := by decide
  have hscope : NamedParam "&scope=" "scope" := by decide
  have hstate : NamedParam "&state=" "state" := by decide
  have hnonce : NamedParam "&nonce=" "nonce" := by decide
  have hchallenge : NamedParam "&code_challenge=" "code_challenge" := by decide
  have hmethod : Percent.ampersand::Percent.pair unreserved
      (octets "code_challenge_method",octets "S256")=octets "&code_challenge_method=S256" := by decide
  rw [authUrl,h,authQuery,authParams,Percent.formEncode_cons]
  simp only [List.flatMap_cons,List.flatMap_nil,named_pair hredirect,named_pair hclient,
    named_pair hscope,named_pair hstate,named_pair hnonce,named_pair hchallenge,hmethod,
    ← List.cons_append,htype]
  simp [bind,Except.bind]

theorem hash_notMem_authQuery (cl : OidcClient) (state nonce codeChallenge : Octets) :
    0x23∉authQuery cl state nonce codeChallenge := by
  intro h
  obtain hkeep|hsign|⟨n,hn,hdigit⟩ := Percent.mem_formEncode h
  · exact absurd hkeep (by decide)
  · exact absurd hsign (by decide)
  · have hall : ∀ m∈List.range 16,Percent.hexDigit m≠0x23 := by decide
    exact hall n (List.mem_range.mpr hn) hdigit.symm

theorem queryOf_append {a q : Octets} (ha : 0x3f∉a) (hash : 0x23∉a) (hq : 0x23∉q) :
    queryOf (a++0x3f::q)=q := by
  have hwhole : (a++0x3f::q).takeWhile (· ≠ 0x23)=a++0x3f::q := by
    rw [List.takeWhile_eq_self_iff]
    intro x hx
    rw [List.mem_append,List.mem_cons] at hx
    obtain hx|rfl|hx := hx
    · simpa using ne_of_mem_of_not_mem hx hash
    · decide
    · simpa using ne_of_mem_of_not_mem hx hq
  rw [queryOf,hwhole,List.dropWhile_append_of_pos]
  · simp
  · intro x hx
    simpa using ne_of_mem_of_not_mem hx ha

/-- Whatever is in the settings and in what a browser hands over, the provider reads exactly the
parameters of the two requests: the one for a token, and the one the browser is sent with, where the
endpoint has no query of its own. -/
theorem oidc_requests_read_back {lib : JsonLib} {idp : Idp} {cl : OidcClient} {ep : Endpoints}
    (hep : ensureDiscovery lib idp cl=.ok ep) (hquery : 0x3f∉ep.authz) (hash : 0x23∉ep.authz)
    (code codeVerifier state nonce codeChallenge : Octets) :
    Percent.formDecode (tokenBody cl code codeVerifier)=tokenParams cl code codeVerifier ∧
    ∃ url,authUrl lib idp cl state nonce codeChallenge=.ok url ∧
      Percent.formDecode (queryOf url)=authParams cl state nonce codeChallenge := by
  constructor
  · rw [tokenBody_eq]
    exact Percent.formDecode_formEncode unreserved_formSafe _
  · refine ⟨_,authUrl_eq hep state nonce codeChallenge,?_⟩
    rw [queryOf_append hquery hash (hash_notMem_authQuery cl state nonce codeChallenge)]
    exact Percent.formDecode_formEncode unreserved_formSafe _

def discoveryText : Octets :=
  octets ("\x7b\"authorization_endpoint\":\"https://idp/auth\",\"jwks_uri\":\"https://idp/keys\","++
    "\"token_endpoint\":\"https://idp/token\"\x7d")

def discoveryLib : JsonLib where
  parse t := if t = discoveryText then .ok (.object [("authorization_endpoint",.str "https://idp/auth"),
      ("jwks_uri",.str "https://idp/keys"),("token_endpoint",.str "https://idp/token")])
    else .error ⟨101,"syntax error while parsing value"⟩
  noMember _ k := ⟨403,k⟩
  typeError _ k := ⟨302,k⟩

def discoveryIdp : Idp where
  get _ _ := .response 200 discoveryText
  post _ _ := .transport "Connection"

def consoleClient : OidcClient where
  providerId := octets "corp"
  issuer := octets "https://idp/"
  clientId := octets "console"
  clientSecret := octets "s&t"
  redirectUri := octets "https://pki/api/oidc/callback"
  scopes := octets "openid email profile"
  usernameClaim := octets "email"
  groupsClaim := octets "groups"

theorem oidc_requests_read_back_corp :
    Percent.formDecode (tokenBody consoleClient (octets "c&client_id=other") (octets "v"))=
      tokenParams consoleClient (octets "c&client_id=other") (octets "v") ∧
    ∃ url,authUrl discoveryLib discoveryIdp consoleClient (octets "s") (octets "n") (octets "h")=.ok url ∧
      Percent.formDecode (queryOf url)=
        authParams consoleClient (octets "s") (octets "n") (octets "h") := by
  have hep : ensureDiscovery discoveryLib discoveryIdp consoleClient=
      .ok ⟨octets "https://idp/auth",octets "https://idp/token",octets "https://idp/keys"⟩ := by rfl
  exact oidc_requests_read_back hep (by decide) (by decide) _ _ _ _ _

end Requests

section Token

variable {lib : JsonLib} {crypto : Crypto} {idp : Idp} {cl : OidcClient}

/-- A key of the provider, as it answered in the first or in the second copy of its keys. -/
def KeyOfProvider (lib : JsonLib) (idp : Idp) (cl : OidcClient) (key : Json) : Prop :=
  ∃ ep n jwks keys,ensureDiscovery lib idp cl=.ok ep ∧ (n=1 ∨ n=2) ∧
    httpGetJson lib idp n ep.jwks=.ok jwks ∧ jwks.find "keys"=some keys ∧ key∈keys.elements

/-- What the claims say of themselves: who issued them, for whom, until when, and for which login. -/
structure ClaimsFor (lib : JsonLib) (cl : OidcClient) (nonce : Octets) (now : Int) (claims : Json) :
    Prop where
  issuer : ∃ iss,textValue lib claims "iss"=.ok iss ∧ stripSlashes iss=stripSlashes cl.issuer
  audience : ∃ aud,claims.find "aud"=some aud ∧ containsAud aud cl.clientId=true
  expiry : ∃ v e,claims.find "exp"=some v ∧ v.getInt64=some e ∧ now ≤ e
  nonce : nonce≠[] → textValue lib claims "nonce"=.ok nonce

/-- The provider signed these claims, and they are for this login. -/
def Vouched (lib : JsonLib) (crypto : Crypto) (idp : Idp) (cl : OidcClient) (nonce : Octets)
    (now : Int) (claims : Json) : Prop :=
  ClaimsFor lib cl nonce now claims ∧ ∃ key p payload,KeyOfProvider lib idp cl key ∧
    SignedBy lib crypto key p ∧ base64urlDecode p.payloadB64=.ok payload ∧
    lib.parse payload=.ok claims

theorem keyOf_mem {kid : Octets} {ks : List Json} {key : Json} (h : keyOf lib kid ks=.ok (some key)) :
    key∈ks := by
  induction ks with
  | nil => cases h
  | cons k ks ih =>
    rw [keyOf] at h
    split_ifs at h with hany hno
    · obtain rfl := Option.some.inj (Except.ok.inj h)
      exact List.mem_cons_self
    · exact List.mem_cons_of_mem k (ih h)
    · obtain ⟨id,_,h⟩ := bind_eq_ok_iff.mp h
      split_ifs at h
      · obtain rfl := Option.some.inj (Except.ok.inj h)
        exact List.mem_cons_self
      · exact List.mem_cons_of_mem k (ih h)

theorem keysOf_mem {jwks key : Json} {kid : Octets} (h : keysOf lib jwks kid=.ok (some key)) :
    ∃ keys,jwks.find "keys"=some keys ∧ key∈keys.elements := by
  obtain ⟨keys,hkeys,h⟩ := bind_eq_ok_iff.mp h
  exact ⟨keys,requireSome_eq_ok_iff.mp hkeys,keyOf_mem h⟩

theorem findJwk_key {ep : Endpoints} (hep : ensureDiscovery lib idp cl=.ok ep) {kid : Octets}
    {key : Json} (h : findJwk lib idp ep.jwks kid=.ok key) : KeyOfProvider lib idp cl key := by
  obtain ⟨first,hfirst,h⟩ := bind_eq_ok_iff.mp h
  obtain ⟨found,hfound,h⟩ := bind_eq_ok_iff.mp h
  cases found with
  | some k =>
    obtain rfl := Except.ok.inj h
    obtain ⟨keys,hkeys,hmem⟩ := keysOf_mem hfound
    exact ⟨ep,1,first,keys,hep,Or.inl rfl,hfirst,hkeys,hmem⟩
  | none =>
    obtain ⟨second,hsecond,h⟩ := bind_eq_ok_iff.mp h
    obtain ⟨again,hagain,h⟩ := bind_eq_ok_iff.mp h
    obtain rfl := requireSome_eq_ok_iff.mp h
    obtain ⟨keys,hkeys,hmem⟩ := keysOf_mem hagain
    exact ⟨ep,2,second,keys,hep,Or.inr rfl,hsecond,hkeys,hmem⟩

theorem checkClaims_eq_ok {claims : Json} {nonce : Octets} {now : Int}
    (h : checkClaims lib cl claims nonce now=.ok ()) : ClaimsFor lib cl nonce now claims := by
  obtain ⟨iss,hiss,h⟩ := bind_eq_ok_iff.mp h
  obtain ⟨_,hissuer,h⟩ := bind_eq_ok_iff.mp h
  obtain ⟨_,haud,h⟩ := bind_eq_ok_iff.mp h
  obtain ⟨expired,hexpired,h⟩ := bind_eq_ok_iff.mp h
  obtain ⟨_,hlive,h⟩ := bind_eq_ok_iff.mp h
  refine ⟨⟨iss,hiss,not_not.mp (refuseIf_eq_ok_iff.mp hissuer)⟩,?_,?_,?_⟩
  · have hsome := refuseIf_eq_ok_iff.mp haud
    cases hfind : claims.find "aud" with
    | none => simp [hfind] at hsome
    | some aud => exact ⟨aud,rfl,by simpa [hfind] using hsome⟩
  · have hfresh := refuseIf_eq_ok_iff.mp hlive
    rw [tokenExpired] at hexpired
    cases hfind : claims.find "exp" with
    | none =>
      rw [hfind] at hexpired
      exact absurd (Except.ok.inj hexpired).symm hfresh
    | some v =>
      simp only [hfind] at hexpired
      cases hint : v.getInt64 with
      | none =>
        rw [hint] at hexpired
        cases hexpired
      | some e =>
        rw [hint] at hexpired
        rw [← Except.ok.inj hexpired,decide_eq_true_eq] at hfresh
        exact ⟨v,e,rfl,hint,by omega⟩
  · intro hnonce
    rw [if_neg hnonce] at h
    obtain ⟨n,hn,h⟩ := bind_eq_ok_iff.mp h
    rw [← not_not.mp (refuseIf_eq_ok_iff.mp h)]
    exact hn

theorem exchange_vouched {code codeVerifier nonce : Octets} {now : Int} {out : OidcClaims}
    (h : exchange lib crypto idp cl code codeVerifier nonce now=.ok out) :
    Vouched lib crypto idp cl nonce now out.raw ∧ out.groups=groupsOf cl out.raw ∧
      ∃ subject,textValue lib out.raw "sub"=.ok subject ∧
        out.username=usernameOf cl out.raw subject := by
  obtain ⟨ep,hep,h⟩ := bind_eq_ok_iff.mp h
  obtain ⟨jwt,_,h⟩ := bind_eq_ok_iff.mp h
  obtain ⟨claims,hclaims,h⟩ := bind_eq_ok_iff.mp h
  obtain ⟨subject,hsubject,h⟩ := bind_eq_ok_iff.mp h
  obtain rfl := Except.ok.inj h
  refine ⟨?_,rfl,subject,hsubject,rfl⟩
  obtain ⟨⟨hd,p,s⟩,_,hclaims⟩ := bind_eq_ok_iff.mp hclaims
  obtain ⟨hb,_,hclaims⟩ := bind_eq_ok_iff.mp hclaims
  obtain ⟨header,_,hclaims⟩ := bind_eq_ok_iff.mp hclaims
  obtain ⟨alg,_,hclaims⟩ := bind_eq_ok_iff.mp hclaims
  obtain ⟨kid,_,hclaims⟩ := bind_eq_ok_iff.mp hclaims
  obtain ⟨sig,_,hclaims⟩ := bind_eq_ok_iff.mp hclaims
  obtain ⟨key,hkey,hclaims⟩ := bind_eq_ok_iff.mp hclaims
  obtain ⟨pk,hverify,hclaims⟩ := bind_eq_ok_iff.mp hclaims
  obtain ⟨pb,hpb,hclaims⟩ := bind_eq_ok_iff.mp hclaims
  obtain ⟨payload,hpayload,hclaims⟩ := bind_eq_ok_iff.mp hclaims
  obtain ⟨_,hcheck,hclaims⟩ := bind_eq_ok_iff.mp hclaims
  obtain rfl := Except.ok.inj hclaims
  exact ⟨checkClaims_eq_ok hcheck,key,⟨hd,p,sig,alg⟩,pb,findJwk_key hep hkey,verify_eq_ok hverify,
    hpb,hpayload⟩

end Token

end FastPki.Oidc
