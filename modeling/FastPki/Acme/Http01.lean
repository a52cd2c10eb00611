import FastPki.Auth.Subject
import FastPki.Framework.Except
import FastPki.Framework.Loop
import FastPki.Net.Cidr

namespace FastPki.Acme.Http01

open X509 Net Ascii

def kHttp01MaxRedirects : Nat := 10

structure Http01Refused where
  cidr : Octets
  what : Octets

def kHttp01Refused : List Http01Refused :=
  [⟨octets "0.0.0.0/8",octets "an unspecified address"⟩,
   ⟨octets "169.254.0.0/16",
    octets "a link-local address (this includes cloud metadata endpoints)"⟩,
   ⟨octets "224.0.0.0/4",octets "a multicast address"⟩,
   ⟨octets "240.0.0.0/4",octets "a reserved or broadcast address"⟩,
   ⟨octets "::/128",octets "an unspecified address"⟩,
   ⟨octets "fe80::/10",octets "a link-local address"⟩,
   ⟨octets "ff00::/8",octets "a multicast address"⟩]

/-- `host` is bare, without brackets around an IPv6 literal. -/
structure Http01Url where
  scheme : Octets
  host : Octets
  path : Octets
  port : Nat
  deriving DecidableEq

section Parse

/-- What stands before the first `pat` and what stands after it. -/
def splitAround (pat : Octets) : Octets → Option (Octets × Octets)
  | [] => none
  | c::s =>
    if pat.isPrefixOf (c::s) then some ([],(c::s).drop pat.length)
    else (splitAround pat s).map fun (before,after) => (c::before,after)

/-- What stands before the last colon, and what stands after it. -/
def splitPort (authority : Octets) : Octets × Octets :=
  if colon ∈ authority then
    let port := (authority.reverse.takeWhile (· ≠ colon)).reverse
    (authority.take (authority.length-port.length-1),port)
  else (authority,[])

/-- The host of an authority and the text of its port, which is empty when there is none. -/
def splitAuthority (authority : Octets) : Except Octets (Octets × Octets) :=
  if authority.head? = some 0x5b then
    let inside := authority.drop 1
    if !inside.contains 0x5d then .error (octets "a redirect to a malformed address")
    else
      let after := (inside.dropWhile (· ≠ 0x5d)).drop 1
      .ok (inside.takeWhile (· ≠ 0x5d),if after.head? = some colon then after.drop 1 else [])
  else .ok (splitPort authority)

def endsAuthority (c : UInt8) : Bool := c = slash || c = 0x3f || c = 0x23

def portNumber (scheme port : Octets) : Nat :=
  if port = [] then (if scheme = octets "https" then 443 else 80) else value port

/-- From the scheme on, which stands already. -/
def parseAuthority (scheme rest : Octets) : Except Octets Http01Url := do
  refuseIf (scheme ≠ octets "http" ∧ scheme ≠ octets "https")
    (octets "a redirect to a '"++scheme++octets "' URL; only http and https are followed")
  let authority := rest.takeWhile (!endsAuthority ·)
  let path := if rest.any endsAuthority then rest.dropWhile (!endsAuthority ·) else octets "/"
  refuseIf (authority.contains 0x40) (octets "a redirect whose URL carries credentials")
  let (host,port) ← splitAuthority authority
  refuseIf (host = []) (octets "a redirect with no host")
  refuseIf (port ≠ [] ∧ (!port.all isDigit ∨ port.length > 5))
    (octets "a redirect to a malformed port")
  refuseIf (portNumber scheme port ≠ 80 ∧ portNumber scheme port ≠ 443)
    (octets "a redirect to port "++octets (toString (portNumber scheme port))++
      octets "; only ports 80 and 443 are followed")
  return ⟨scheme,host,path,portNumber scheme port⟩

/-- An absolute URL, or one relative to `base`. The error is what `why` is set to. -/
def http01Parse (loc : Octets) (base : Option Http01Url) : Except Octets Http01Url :=
  match base,loc with
  | some base,0x2f::0x2f::rest => parseAuthority base.scheme rest
  | some base,0x2f::rest => .ok { base with path := 0x2f::rest }
  | _,loc =>
    match splitAround (octets "://") loc with
    | none => .error (octets "a redirect to '"++loc++
        octets "', which is not an http or https URL")
    | some (scheme,rest) => parseAuthority (scheme.map Auth.asciiLower) rest

end Parse

section Fetch

/-- A connection: the URL that is asked for and the text of the address it is pinned to. -/
structure Dial where
  url : Http01Url
  addr : Octets
  deriving DecidableEq

/-- `location` is empty where there is no such header. -/
structure Response where
  status : Nat
  location : Octets
  body : Octets

/-- The resolver and the HTTP client, which may answer by anything that went before. -/
structure Network (σ : Type*) where
  getaddrinfo : σ → Octets → Nat → Option (List Addr) × σ
  inetNtop : Addr → Option Octets
  get : σ → Dial → Option Response × σ

variable {σ : Type*} (net : Network σ)

def refusedBy (ip : Octets) : Option Http01Refused := kHttp01Refused.find? (ipInCidr ip ·.cidr)

/-- The addresses not refused so far, each once, and the words on the first that was. -/
structure Sorted where
  out : List Octets
  refused : Octets

def sortAddress (host : Octets) (s : Sorted) (a : Addr) : Sorted :=
  match net.inetNtop a with
  | none => s
  | some ip =>
    match refusedBy ip with
    | none => if s.out.contains ip then s else { s with out := s.out++[ip] }
    | some hit =>
      if s.refused ≠ [] then s
      else { s with refused := octets "'"++host++octets "' resolves to "++ip++octets ", "++
              hit.what++octets ", which is never a validation target" }

/-- The addresses to dial, in resolver order, refused ones dropped. -/
def http01Addresses (host : Octets) (answer : Option (List Addr)) : Except Octets (List Octets) :=
  match answer with
  | none | some [] => .error (octets "'"++host++octets "' does not resolve")
  | some ai =>
    let s := ai.foldl (sortAddress net host) ⟨[],[]⟩
    if s.out ≠ [] then .ok s.out
    else if s.refused = [] then .error (octets "'"++host++octets "' resolves to no usable address")
    else .error s.refused

/-- Each address in turn until one answers; with the connections that were opened. -/
def dialEach (url : Http01Url) : σ → List Octets → (Option Response × σ) × List Dial
  | w,[] => ((none,w),[])
  | w,addr::addrs =>
    match net.get w ⟨url,addr⟩ with
    | (some r,w) => ((some r,w),[⟨url,addr⟩])
    | (none,w) =>
      let rest := dialEach url w addrs
      (rest.1,⟨url,addr⟩::rest.2)

/-- Where the loop stands. The last two fields are there to be reasoned about: what was dialled and
which URLs were requested. -/
structure Hop (σ : Type*) where
  world : σ
  hop : Nat
  url : Http01Url
  dials : List Dial
  urls : List Http01Url

/-- The result, with the reason of a refusal. -/
structure Fetched where
  result : Except Octets Unit
  dials : List Dial
  urls : List Http01Url

def isRedirect (status : Nat) : Bool :=
  status = 301 || status = 302 || status = 303 || status = 307 || status = 308

def contains (pat s : Octets) : Bool := (splitAround pat s).isSome

def isTrailing (c : UInt8) : Bool := c = 0x0a || c = 0x0d || c = 0x20 || c = 0x09

def stripped (body : Octets) : Octets := (body.reverse.dropWhile isTrailing).reverse

/-- What becomes of an answer: the next URL, or the end. -/
def judge (expected : Octets) (hop : Nat) (url : Http01Url) (r : Response) :
    Http01Url ⊕ Except Octets Unit :=
  if isRedirect r.status then
    if hop ≥ kHttp01MaxRedirects then
      .inr (.error (octets "the challenge URL redirected more than "++
        octets (toString kHttp01MaxRedirects)++octets " times"))
    else if r.location = [] then .inr (.error (octets "a redirect with no Location"))
    else match http01Parse r.location (some url) with
      | .error why => .inr (.error (octets "the challenge URL answered with "++why))
      | .ok next => .inl next
  else if r.status ≠ 200 then
    .inr (.error (octets "the challenge URL answered HTTP "++octets (toString r.status)++
      octets ", not 200"))
  else if stripped r.body ≠ expected then
    .inr (.error (octets "the challenge response did not match the key authorization"))
  else .inr (.ok ())

def unresolved (hop : Nat) (why : Octets) : Octets :=
  if hop = 0 ∧ contains (octets "does not resolve") why then
    octets "the identifier does not resolve"
  else if hop = 0 then why
  else octets "the challenge URL redirected to "++why

def unanswered (hop : Nat) (url : Http01Url) : Octets :=
  if hop = 0 then octets "nothing answered on port 80 at the identifier"
  else octets "nothing answered at "++url.scheme++octets "://"++url.host++octets ":"++
    octets (toString url.port)++octets " after a redirect"

/-- One round of the loop of `fetch_http01`. -/
def fetchRound (expected : Octets) (h : Hop σ) : Hop σ ⊕ Fetched :=
  let (answer,w) := net.getaddrinfo h.world (cString h.url.host) h.url.port
  match http01Addresses net h.url.host answer with
  | .error why => .inr ⟨.error (unresolved h.hop why),h.dials,h.urls⟩
  | .ok addrs =>
    let ((r,w),opened) := dialEach net h.url w addrs
    let dials := h.dials++opened
    let urls := h.urls++[h.url]
    match r with
    | none => .inr ⟨.error (unanswered h.hop h.url),dials,urls⟩
    | some r =>
      match judge expected h.hop h.url r with
      | .inl next => .inl ⟨w,h.hop+1,next,dials,urls⟩
      | .inr result => .inr ⟨result,dials,urls⟩

def fetchStart (w : σ) (host token : Octets) : Hop σ :=
  ⟨w,0,⟨octets "http",host,octets "/.well-known/acme-challenge/"++token,80⟩,[],[]⟩

end Fetch

end FastPki.Acme.Http01
