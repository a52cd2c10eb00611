import FastPki.Framework.Run
import FastPki.Framework.Table
import FastPki.Saml.Consume

namespace FastPki.Saml
open X509 Xml

/-- A row of `saml_providers`. -/
structure SamlRow where
  id : Octets
  enabled : Bool
  idpEntityId : Octets
  idpSsoUrl : Octets
  idpCert : Octets
  spEntityId : Octets
  usernameAttr : Octets
  groupsAttr : Octets
  clockSkewSec : Int

/-- The address of the ACS is this console's own, whatever the row says. -/
def SamlSp.ofRow (acsUrl : Octets) (r : SamlRow) : SamlSp where
  providerId := r.id
  idpEntityId := r.idpEntityId
  idpSsoUrl := r.idpSsoUrl
  idpCert := r.idpCert
  spEntityId := r.spEntityId
  spAcsUrl := acsUrl
  usernameAttr := r.usernameAttr
  groupsAttr := if r.groupsAttr = [] then octets "groups" else r.groupsAttr
  skew := if r.clockSkewSec > 0 then r.clockSkewSec else 120

/-- What a request meets. The providers may be edited between any two requests. `sec` is xmlsec
with the key of a certificate file, `admits` is `federated_role`. -/
structure Ctx where
  now : Int
  ssoAllowed : Bool
  acsUrl : Octets
  rows : List SamlRow
  sec : Octets → XmlSec
  admits : SamlSp → SamlAssertion → Bool

/-- The provider asked for, the first enabled one when none is; `none` is one that cannot be used. -/
def samlRowFor (ctx : Ctx) (want : Octets) : Option SamlSp :=
  ((ctx.rows.find? fun r => r.enabled ∧ (want = [] ∨ r.id = want)).map
    (SamlSp.ofRow ctx.acsUrl)).filter SamlSp.enabled

/-- A request id that waits for its response. -/
structure SamlPending where
  rid : Octets
  at_ : Int
  provider : Octets
  deriving DecidableEq

/-- A session that was opened: what was signed, the request it answered, and by whom and when. -/
structure Accepted where
  form : Canon
  request : Octets
  provider : Octets
  now : Int

/-- `saml_reqs`, with all logins and sessions so far. -/
structure SamlState where
  reqs : List SamlPending
  issued : List SamlPending
  accepted : List Accepted

def SamlState.start : SamlState := ⟨[],[],[]⟩

/-- `GET /api/saml/login`, where `random_id` gave `rid`. Only here are stale requests dropped. -/
def getLogin (ctx : Ctx) (want rid : Octets) (s : SamlState) : SamlState :=
  if !ctx.ssoAllowed then s
  else match samlRowFor ctx want with
    | none => s
    | some sp =>
      let new : SamlPending := ⟨rid,ctx.now,sp.providerId⟩
      let kept := s.reqs.filter fun p => ¬ctx.now-p.at_ > 600
      { s with reqs := upsert SamlPending.rid new kept,issued := new::s.issued }

/-- What the body of a response decodes to: as text, for the provider hint, and as a document. -/
structure AcsPost where
  text : Option Octets
  doc : Option Doc

def afterInfix (w : Octets) : Octets → Option Octets
  | [] => if w = [] then some [] else none
  | c::s => if w.isPrefixOf (c::s) then some ((c::s).drop w.length) else afterInfix w s

/-- The first thing in the text that looks like the attribute. -/
def peekRid (text : Octets) : Octets :=
  match afterInfix (octets "InResponseTo=\"") text with
  | none => []
  | some rest => if 0x22 ∈ rest then rest.takeWhile (· ≠ 0x22) else []

/-- The signed part of the assertion that is looked at. -/
def assertionForm (doc : Doc) : Option Canon := do
  let a ← findDesc nsAssert (octets "Assertion") doc.root
  let sig ← findChild (some a) nsDsig (octets "Signature")
  return (a.alone.without sig.addr).canonical

/-- The provider of the request that the text names, as an ACS request first looks it up. -/
def flowProvider (reqs : List SamlPending) (post : AcsPost) : Octets :=
  (lookup SamlPending.rid (post.text.elim [] peekRid) reqs).elim [] SamlPending.provider

def knownRequest (reqs : List SamlPending) (provider rid : Octets) : Bool :=
  (lookup SamlPending.rid rid reqs).any (·.provider = provider)

/-- `POST /api/saml/acs` once it has its `flowProvider`; other requests may have come between. A
request id that is known is used up, whatever follows. -/
def postAcs (ctx : Ctx) (flow : Octets) (post : AcsPost) (s : SamlState) : SamlState :=
  if !ctx.ssoAllowed ∨ samlRowFor ctx [] = none then s
  else
    match samlRowFor ctx flow,post.doc with
    | some sp,some doc =>
      let known := knownRequest s.reqs sp.providerId
      match checkResponse (ctx.sec sp.idpCert) sp ctx.now known doc with
      | .error _ => s
      | .ok a =>
        let request := inResponseTo doc.root a
        let s := { s with reqs := remove SamlPending.rid request s.reqs }
        match consume (ctx.sec sp.idpCert) sp ctx.now known doc,assertionForm doc with
        | .ok out,some form =>
          if ctx.admits sp out then
            { s with accepted := ⟨form,request,sp.providerId,ctx.now⟩::s.accepted }
          else s
        | _,_ => s
    | _,_ => s

inductive SamlAct where
  | login (ctx : Ctx) (want rid : Octets)
  | acs (ctx : Ctx) (flow : Octets) (post : AcsPost)

def samlStep (s : SamlState) : SamlAct → SamlState
  | .login ctx want rid => getLogin ctx want rid s
  | .acs ctx flow post => postAcs ctx flow post s

/-! ### The request a signed form names -/

def canonChild (c : Option Canon) (name : String) : Option Canon :=
  c.bind fun c => c.children.siblings.find? (·.is nsAssert (octets name))

def canonConfirmation (c : Canon) : Option Canon :=
  canonChild (canonChild (canonChild (some c) "Subject") "SubjectConfirmation")
    "SubjectConfirmationData"

/-- The subject confirmation of a signed form names this request and no other. -/
def NamesRequest (c : Canon) (v : Octets) : Prop :=
  v≠[] ∧ ∃ scd∈canonConfirmation c,(∃ x∈scd.attrs,x.name=octets "InResponseTo") ∧
    ∀ x∈scd.attrs,x.name=octets "InResponseTo" → x.value=v

theorem NamesRequest.unique {c : Canon} {v w : Octets} (hv : NamesRequest c v)
    (hw : NamesRequest c w) : v=w := by
  obtain ⟨_,scd,hscd,⟨x,hx,hname⟩,hv⟩ := hv
  obtain ⟨_,scd',hscd',_,hw⟩ := hw
  obtain rfl : scd=scd' := Option.some.inj (hscd.symm.trans hscd')
  rw [← hv x hx hname,← hw x hx hname]

theorem canonChild_canonical {n : Nodes} (h : n.IsElement) (name : String) :
    canonChild (some n.canonical) name=(assertChild (some n) name).map Nodes.canonical := by
  simp only [canonChild,assertChild,findChild,Option.bind_some]
  rw [h.canonical.1,Nodes.siblings_canonical,List.find?_map]
  congr 1
  apply List.find?_congr
  intro x hx
  exact (Nodes.siblings_isElement hx).canonical.2.2 nsAssert (octets name)

theorem canonConfirmation_canonical {n : Nodes} (h : n.IsElement) :
    canonConfirmation n.canonical=(confirmationData n).map Nodes.canonical := by
  simp only [canonConfirmation,confirmationData,canonChild_canonical h]
  cases hsubject : assertChild (some n) "Subject" with
  | none => rfl
  | some subject =>
    rw [Option.map_some,canonChild_canonical (findChild_isElement hsubject)]
    cases hconf : assertChild (some subject) "SubjectConfirmation" with
    | none => rfl
    | some conf =>
      rw [Option.map_some,canonChild_canonical (findChild_isElement hconf)]

theorem confirmationData_congr {a b : Nodes}
    (h : ∀ name,(assertChild (some a) name).map Nodes.children=
      (assertChild (some b) name).map Nodes.children) :
    confirmationData a=confirmationData b := by
  simp only [confirmationData]
  congr 1
  exact findChild_congr (h "Subject") nsAssert (octets "SubjectConfirmation")

theorem validateConditionsAndSubject_known {sp : SamlSp} {now : Int} {known : Octets → Bool}
    {response a : Nodes} (h : validateConditionsAndSubject sp now known response a=.ok ()) :
    known (inResponseTo response a)=true := by
  obtain ⟨_,_,h⟩ := bind_eq_ok_iff.mp h
  obtain ⟨_,_,h⟩ := bind_eq_ok_iff.mp h
  obtain ⟨_,_,h⟩ := bind_eq_ok_iff.mp h
  obtain ⟨_,_,h⟩ := bind_eq_ok_iff.mp h
  obtain ⟨_,_,h⟩ := bind_eq_ok_iff.mp h
  obtain ⟨_,_,h⟩ := bind_eq_ok_iff.mp h
  have hknown := refuseIf_eq_ok_iff.mp h
  rw [not_or,Bool.not_eq_false] at hknown
  exact hknown.2

/-- The assertion of a checked response, as the node it is and as the form that was signed. -/
theorem checkResponse_signed {sec : XmlSec} {sp : SamlSp} {now : Int} {known : Octets → Bool}
    {doc : Doc} {a : Nodes} (h : checkResponse sec sp now known doc=.ok a) {form : Canon}
    (hform : assertionForm doc=some form) :
    sec.Signed (attr (some a) (octets "ID")) form ∧
      canonConfirmation form=(confirmationData a).map Nodes.canonical := by
  obtain ⟨hone,sig,hsig,hsigned⟩ := verifySignedAssertion_ok (checkResponse_ok h).1
  have hmem : a∈doc.root.elements.filter (·.is nsAssert (octets "Assertion")) := by
    rw [hone]
    exact List.mem_singleton_self a
  have hfind : findDesc nsAssert (octets "Assertion") doc.root=some a := by
    rw [findDesc_eq_find?,← List.head?_filter,hone]
    rfl
  obtain ⟨b,hb,hform⟩ := Option.bind_eq_some_iff.mp hform
  obtain rfl := Option.some.inj (hfind.symm.trans hb)
  obtain ⟨t,ht,hform⟩ := Option.bind_eq_some_iff.mp hform
  obtain rfl := Option.some.inj (hsig.symm.trans ht)
  obtain rfl := Option.some.inj hform
  obtain ⟨hmem,his⟩ := List.mem_filter.mp hmem
  obtain ⟨hel,hchild⟩ := signedPart_child doc.distinct hmem (Nodes.isElement_of_is his) hsig
  refine ⟨hsigned,?_⟩
  rw [canonConfirmation_canonical hel,confirmationData_congr hchild]

/-- The request that a response is held to answer is the one its signed form names. -/
theorem inResponseTo_of_names {response a : Nodes} {form : Canon} {v : Octets}
    (hconf : canonConfirmation form=(confirmationData a).map Nodes.canonical)
    (hv : NamesRequest form v) : inResponseTo response a=v := by
  obtain ⟨hne,scd,hscd,hnames⟩ := hv
  rw [hconf] at hscd
  obtain ⟨scd,hdata,rfl⟩ := Option.map_eq_some_iff.mp hscd
  have hel : scd.IsElement := by
    obtain ⟨p,_,hfound⟩ := Option.bind_eq_some_iff.mp hdata
    exact Nodes.siblings_isElement (List.mem_of_find?_eq_some hfound)
  rw [hel.canonical.2.1] at hnames
  have hattr : attr (confirmationData a) (octets "InResponseTo")=v := by
    rw [hdata]
    obtain ⟨⟨x,hx,hxname⟩,hall⟩ := hnames
    apply attr_eq_of_all ⟨x,mem_sortAttrs.mp hx,hxname⟩
    intro y hy
    exact hall y (mem_sortAttrs.mpr hy)
  simp only [inResponseTo,hattr]
  rw [if_pos hne]

/-! ### Runs -/

theorem getLogin_cases (ctx : Ctx) (want rid : Octets) (s : SamlState) :
    getLogin ctx want rid s=s ∨ ∃ provider,getLogin ctx want rid s={ s with
      reqs := upsert SamlPending.rid ⟨rid,ctx.now,provider⟩
        (s.reqs.filter fun p => ¬ctx.now-p.at_ > 600)
      issued := ⟨rid,ctx.now,provider⟩::s.issued } := by
  simp only [getLogin]
  split
  · exact .inl rfl
  · split
    · exact .inl rfl
    · next sp _ => exact .inr ⟨sp.providerId,rfl⟩

/-- An ACS request changes nothing, or uses up the request it answers, with or without a session. -/
theorem postAcs_cases (ctx : Ctx) (flow : Octets) (post : AcsPost) (s : SamlState) :
    postAcs ctx flow post s=s ∨ ∃ sp doc a,post.doc=some doc ∧
      checkResponse (ctx.sec sp.idpCert) sp ctx.now (knownRequest s.reqs sp.providerId) doc=.ok a ∧
      (postAcs ctx flow post s={ s with
          reqs := remove SamlPending.rid (inResponseTo doc.root a) s.reqs } ∨
        ∃ form,assertionForm doc=some form ∧ postAcs ctx flow post s={ s with
          reqs := remove SamlPending.rid (inResponseTo doc.root a) s.reqs
          accepted := ⟨form,inResponseTo doc.root a,sp.providerId,ctx.now⟩::s.accepted }) := by
  simp only [postAcs]
  split
  · exact .inl rfl
  split
  · next sp doc _ hdoc =>
    split
    · exact .inl rfl
    · next a ha =>
      refine .inr ⟨sp,doc,a,hdoc,ha,?_⟩
      split
      · next out form _ hform =>
        split
        · exact .inr ⟨form,hform,rfl⟩
        · exact .inl rfl
      · exact .inl rfl
  · exact .inl rfl

/-- No two sessions rest on one signed form, and each answers a login of its provider of the last
ten minutes. -/
def OneSession (s : SamlState) : Prop :=
  (s.accepted.map Accepted.form).Nodup ∧
    ∀ e∈s.accepted,∃ p∈s.issued,p.rid=e.request ∧ p.provider=e.provider ∧ e.now-p.at_≤600

/-- The request ids that `random_id` gives are new; what a key has signed names the request it
answers, and that one is not stale. -/
def Sure (s : SamlState) : SamlAct → Prop
  | .login _ _ rid => ∀ p∈s.issued,p.rid≠rid
  | .acs ctx _ post => ∀ doc∈post.doc,∀ form∈assertionForm doc,
      (∃ cert id,(ctx.sec cert).Signed id form) →
        ∃ v,NamesRequest form v ∧ ∀ p∈s.reqs,p.rid=v → ctx.now-p.at_≤600

structure Booked (s : SamlState) : Prop where
  pending : ∀ p∈s.reqs,p∈s.issued
  spent : ∀ e∈s.accepted,∀ p∈s.reqs,p.rid≠e.request
  once : (s.accepted.map Accepted.request).Nodup
  names : ∀ e∈s.accepted,NamesRequest e.form e.request
  answers : ∀ e∈s.accepted,∃ p∈s.issued,p.rid=e.request ∧ p.provider=e.provider ∧ e.now-p.at_≤600

theorem Booked.oneSession {s : SamlState} (h : Booked s) : OneSession s := by
  refine ⟨?_,h.answers⟩
  have once := List.pairwise_map.mp h.once
  apply List.pairwise_map.mpr
  refine once.imp_of_mem ?_
  intro e e' he he' hne hform
  apply hne
  have hnames := h.names e he
  rw [hform] at hnames
  exact hnames.unique (h.names e' he')

theorem Booked.login {s : SamlState} (h : Booked s) {ctx : Ctx} {want rid : Octets}
    (hsure : ∀ p∈s.issued,p.rid≠rid) : Booked (getLogin ctx want rid s) := by
  obtain heq|⟨provider,heq⟩ := getLogin_cases ctx want rid s
  · rwa [heq]
  rw [heq]
  constructor
  case pending =>
    intro p hp
    obtain rfl|⟨hp,_⟩ := mem_upsert.mp hp
    · exact List.mem_cons_self
    · exact List.mem_cons_of_mem _ (h.pending p (List.mem_filter.mp hp).1)
  case spent =>
    intro e he p hp
    obtain rfl|⟨hp,_⟩ := mem_upsert.mp hp
    · -- the new id was never issued before, and every accepted one was
      obtain ⟨q,hq,hreq,_⟩ := h.answers e he
      intro hrid
      exact hsure q hq (hreq.trans hrid.symm)
    · exact h.spent e he p (List.mem_filter.mp hp).1
  case once => exact h.once
  case names => exact h.names
  case answers =>
    intro e he
    obtain ⟨q,hq,hans⟩ := h.answers e he
    exact ⟨q,List.mem_cons_of_mem _ hq,hans⟩

/-- Using up a request keeps the books. -/
theorem Booked.remove {s : SamlState} (h : Booked s) (rid : Octets) :
    Booked { s with reqs := FastPki.remove SamlPending.rid rid s.reqs } where
  pending p hp := h.pending p (List.mem_filter.mp hp).1
  spent e he p hp := h.spent e he p (List.mem_filter.mp hp).1
  once := h.once
  names := h.names
  answers := h.answers

theorem Booked.acs {s : SamlState} (h : Booked s) {ctx : Ctx} {flow : Octets} {post : AcsPost}
    (hsure : Sure s (.acs ctx flow post)) : Booked (postAcs ctx flow post s) := by
  obtain heq|⟨sp,doc,a,hdoc,hcheck,heq|⟨form,hform,heq⟩⟩ := postAcs_cases ctx flow post s
  · rwa [heq]
  · rw [heq]
    exact h.remove _
  rw [heq]
  obtain ⟨hsigned,hconf⟩ := checkResponse_signed hcheck hform
  obtain ⟨v,hv,hfresh⟩ := hsure doc hdoc form hform ⟨_,_,hsigned⟩
  have hrequest : inResponseTo doc.root a=v := inResponseTo_of_names hconf hv
  have hknown := validateConditionsAndSubject_known (checkResponse_ok hcheck).2
  rw [hrequest] at hknown
  rw [hrequest]
  obtain ⟨p,hfind,hprovider⟩ := (Option.any_eq_true _ _).mp hknown
  have hp := lookup_mem hfind
  have hprid : p.rid=v := lookup_key hfind
  have base := h.remove v
  constructor
  case pending => exact base.pending
  case spent =>
    intro e he q hq
    obtain rfl|he := List.mem_cons.mp he
    · simpa using (List.mem_filter.mp hq).2
    · exact base.spent e he q hq
  case once =>
    rw [List.map_cons,List.nodup_cons]
    refine ⟨?_,h.once⟩
    intro hin
    obtain ⟨e,he,hereq⟩ := List.mem_map.mp hin
    exact h.spent e he p hp (hprid.trans hereq.symm)
  case names =>
    intro e he
    obtain rfl|he := List.mem_cons.mp he
    · exact hv
    · exact h.names e he
  case answers =>
    intro e he
    obtain rfl|he := List.mem_cons.mp he
    · exact ⟨p,h.pending p hp,hprid,of_decide_eq_true hprovider,hfresh p hp hprid⟩
    · exact h.answers e he

theorem Booked.step {s : SamlState} (h : Booked s) (act : SamlAct) (hsure : Sure s act) :
    Booked (samlStep s act) := by
  cases act with
  | login ctx want rid => exact h.login hsure
  | acs ctx flow post => exact h.acs hsure

theorem start_booked : Booked SamlState.start := by
  constructor <;> simp [SamlState.start]

/-- A signed assertion opens at most one session, for a login of its provider of the last ten
minutes, in every state of a run whose responses are signed together with a request that is not
stale. -/
theorem saml_assertion_once (acts : List SamlAct) (h : Along samlStep Sure SamlState.start acts)
    (n : Nat) : OneSession (run samlStep SamlState.start (acts.take n)) :=
  ((h.take n).invariant (fun _ act hs hsure => hs.step act hsure) start_booked).oneSession

def corpRow : SamlRow where
  id := octets "corp"
  enabled := true
  idpEntityId := []
  idpSsoUrl := octets "https://idp.example/sso"
  idpCert := octets "/etc/idp.pem"
  spEntityId := octets "https://pki.example/saml"
  usernameAttr := []
  groupsAttr := []
  clockSkewSec := 0

def corpCtx (sec : XmlSec) (now : Int) : Ctx where
  now := now
  ssoAllowed := true
  acsUrl := octets "https://pki.example/api/saml/acs"
  rows := [corpRow]
  sec _ := sec
  admits _ _ := true

def alicePost : AcsPost := ⟨some (octets "InResponseTo=\"_q\""),some aliceResponse⟩

/-- The assertion is sent again after another login, and refused. -/
def aliceRun : List SamlAct :=
  [.login (corpCtx aliceSec 0) [] (octets "_q"),
    .acs (corpCtx aliceSec 600) (octets "corp") alicePost,
    .login (corpCtx aliceSec 601) [] (octets "_p"),
    .acs (corpCtx aliceSec 602) (octets "corp") alicePost]

theorem saml_assertion_once_alice :
    (run samlStep SamlState.start aliceRun).accepted.length=1 ∧
      OneSession (run samlStep SamlState.start aliceRun) := by
  have names : ∀ doc∈alicePost.doc,∀ form∈assertionForm doc,NamesRequest form (octets "_q") := by
    intro doc hdoc form hform
    obtain rfl := Option.some.inj hdoc
    obtain rfl := Option.some.inj hform
    exact ⟨by decide,_,rfl,by decide,by decide⟩
  refine ⟨by decide,saml_assertion_once aliceRun ?_ 4⟩
  refine ⟨?_,?_,?_,?_,trivial⟩
  · simp only [Sure]
    decide
  · intro doc hdoc form hform _
    exact ⟨octets "_q",names doc hdoc form hform,by decide⟩
  · simp only [Sure]
    decide
  · intro doc hdoc form hform _
    exact ⟨octets "_q",names doc hdoc form hform,by decide⟩

/-- What can be relied on in every run: ids are new, and an ACS request looks up its provider. -/
def Actual (s : SamlState) : SamlAct → Prop
  | .login _ _ rid => ∀ p∈s.issued,p.rid≠rid
  | .acs _ flow post => flow=flowProvider s.reqs post

/-- An assertion whose subject confirmation names no request. -/
def bareSubject : Nodes :=
  .element 7 (some nsAssert) (octets "Subject") []
    (.element 8 (some nsAssert) (octets "NameID") [] (.text (octets "alice") .nil) .nil) .nil

def bareSec : XmlSec :=
  oneSec (octets "_a") [⟨none,octets "ID",octets "_a"⟩] bareSubject.canonical ids_named ids_value

/-- The same assertion in a response that was made up for a request. -/
def bareResponse (rid : Octets) : Doc where
  root := .element 0 (some nsProto) (octets "Response") [⟨none,octets "InResponseTo",rid⟩]
    (.element 1 (some nsProto) (octets "Status") []
      (.element 2 (some nsProto) (octets "StatusCode")
        [⟨none,octets "Value",octets "urn:oasis:names:tc:SAML:2.0:status:Success"⟩] .nil .nil)
      (.element 3 (some nsAssert) (octets "Assertion") [⟨none,octets "ID",octets "_a"⟩]
        (aliceSignature bareSubject) .nil))
    .nil
  doctype := false
  distinct := by
    show [0,1,2,3,4,5,6,7,8].Nodup
    decide

def barePost (rid : Octets) : AcsPost :=
  ⟨some (octets "InResponseTo=\""++rid++octets "\""),some (bareResponse rid)⟩

/-- Two logins, and an assertion seen once that answers both. -/
def replayRun : List SamlAct :=
  [.login (corpCtx bareSec 0) [] (octets "_q"),
    .acs (corpCtx bareSec 1) (octets "corp") (barePost (octets "_q")),
    .login (corpCtx bareSec 2) [] (octets "_p"),
    .acs (corpCtx bareSec 3) (octets "corp") (barePost (octets "_p"))]

/-- A response that comes after hours, when nobody else has signed in. -/
def staleRun : List SamlAct :=
  [.login (corpCtx aliceSec 0) [] (octets "_q"),
    .acs (corpCtx aliceSec 10000) (octets "corp") alicePost]

theorem saml_assertion_replayed :
    (∃ acts,Along samlStep Actual SamlState.start acts ∧
      ¬((run samlStep SamlState.start acts).accepted.map Accepted.form).Nodup) ∧
    ∃ acts,Along samlStep Actual SamlState.start acts ∧
      ∃ e∈(run samlStep SamlState.start acts).accepted,
        ∀ p∈(run samlStep SamlState.start acts).issued,600<e.now-p.at_ := by
  constructor
  · refine ⟨replayRun,?_,by decide⟩
    refine ⟨?_,?_,?_,?_,trivial⟩ <;> simp only [Actual] <;> decide
  · refine ⟨staleRun,?_,by decide⟩
    refine ⟨?_,?_,trivial⟩ <;> simp only [Actual] <;> decide

end FastPki.Saml
