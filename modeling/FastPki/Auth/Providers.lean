import FastPki.Auth.Subject
import FastPki.Framework.Except
import FastPki.Framework.Run
import FastPki.Framework.Table
import Mathlib.Data.Set.Defs

namespace FastPki.Auth
open X509

inductive Kind where
  | ldap | saml | oidc
  deriving DecidableEq

/-- A row of `auth_providers`, with the names a directory answers to. `id` is its primary key. -/
structure Provider where
  id : Octets
  kind : Kind
  displayName : Octets
  netbiosName : Octets
  dnsRoot : Octets
  deriving DecidableEq

/-- The parameters of `POST /api/auth-providers` that it checks; an absent one is empty. The
two domain names are those of the form, or what the directory itself answered. -/
structure ProviderPost where
  id : Octets
  kind : Option Octets
  displayName : Octets
  idpSsoUrl : Octets
  idpCert : Octets
  spEntityId : Octets
  issuer : Octets
  clientId : Octets
  uris : Octets
  baseDns : Octets
  netbiosName : Octets
  dnsRoot : Octets

structure ProviderRefusal where
  status : Nat
  error : Octets
  deriving DecidableEq

def Kind.text : Kind → Octets
  | .ldap => octets "ldap"
  | .saml => octets "saml"
  | .oidc => octets "oidc"

def invalidId (id : Octets) : Bool :=
  id = [] ∨ id.length > 64 ∨ (octets " \t/\\@").any (· ∈ id)

def kindOf (kind : Option Octets) : Option Kind :=
  [Kind.ldap,.saml,.oidc].find? fun k => k.text = kind.getD (octets "ldap")

/-- What each kind cannot do without. -/
def requiredFields (q : ProviderPost) : Kind → Except ProviderRefusal Unit
  | .saml => do
    refuseIf (q.idpSsoUrl = [] ∨ q.idpCert = [])
      ⟨400,octets "idp_sso_url and idp_cert are both required — without the certificate every "++
        octets "signer would be trusted"⟩
    refuseIf (q.spEntityId = [])
      ⟨400,octets "sp_entity_id is required — it is this service's own entity ID, as registered "++
        octets "with the identity provider"⟩
  | .oidc => refuseIf (q.issuer = [] ∨ q.clientId = [])
    ⟨400,octets "issuer and client_id are both required"⟩
  | .ldap => refuseIf (q.uris = [] ∨ q.baseDns = [])
    ⟨400,octets "uris and base_dns are both required — a directory with neither cannot be "++
      octets "bound to"⟩

/-- One id, one kind. -/
def kindClash (table : List Provider) (p : Provider) : Option Octets :=
  ((table.find? (·.id = p.id)).filter (·.kind ≠ p.kind)).map fun had =>
    octets "the id '"++p.id++octets "' is already a "++had.kind.text++
      octets " provider — choose another id, or remove that one first"

/-- The names by which a sign-in reaches a directory, without regard to letter case. -/
def loginNames (p : Provider) : List (Octets × Octets) :=
  ((octets "id",p.id)::[(octets "display name",p.displayName),
    (octets "NetBIOS name",p.netbiosName),(octets "DNS root",p.dnsRoot)].filter (·.2 ≠ [])).map
      fun n => (n.1,n.2.map asciiLower)

/-- Only directories are compared with each other, and only with directories. -/
def nameClash (table : List Provider) (p : Provider) : Option Octets :=
  if p.kind ≠ .ldap then none
  else (loginNames p).findSome? fun mine =>
    (table.filter fun o => o.kind = .ldap ∧ o.id ≠ p.id).findSome? fun o =>
      ((loginNames o).find? fun theirs => mine.2 = theirs.2).map fun theirs =>
        octets "the "++mine.1++octets " '"++mine.2++octets "' is already the "++theirs.1++
          octets " of directory '"++o.id++
          octets "' — a sign-in naming it could reach only one of them"

def refuseClash (clash : Option Octets) : Except ProviderRefusal Unit :=
  clash.elim (.ok ()) fun e => .error ⟨409,e⟩

/-- The row is stored under the C string of its id; a stored row keeps its kind. -/
def saveProvider (table : List Provider) (p : Provider) : List Provider :=
  let new := { p with id := cString p.id }
  let row := match lookup Provider.id new.id table with
    | none => new
    | some old => if old.kind = p.kind then new else { old with displayName := p.displayName }
  upsert Provider.id row table

def postAuthProvider (webAllowRevoke : Bool) (table : List Provider) (q : ProviderPost) :
    Except ProviderRefusal (List Provider) := do
  refuseIf (webAllowRevoke = false)
    ⟨403,octets "console writes disabled (set WEB_ALLOW_REVOKE=true)"⟩
  refuseIf (invalidId q.id)
    ⟨400,octets "invalid id — a provider id qualifies every subject it authenticates, so it "++
      octets "may not contain a space, slash, backslash or @"⟩
  let kind ← requireSome (kindOf q.kind) ⟨400,octets "kind must be ldap, saml or oidc"⟩
  let p : Provider := ⟨q.id,kind,q.displayName,q.netbiosName,q.dnsRoot⟩
  refuseClash (kindClash table p)
  requiredFields q kind
  refuseClash (nameClash table p)
  return saveProvider table p

inductive ProviderRequest where
  | post (q : ProviderPost)
  | delete (id : Octets)

/-- A refused request leaves the table. -/
def providerStep (webAllowRevoke : Bool) (table : List Provider) :
    ProviderRequest → List Provider
  | .post q => match postAuthProvider webAllowRevoke table q with
    | .ok table' => table'
    | .error _ => table
  | .delete id => if webAllowRevoke ∧ id ≠ [] then remove Provider.id (cString id) table else table

/-- Stored ids are C strings without a backslash. -/
def PlainIds (table : List Provider) : Prop := ∀ p∈table,0∉p.id ∧ backslash∉p.id

theorem PlainIds.saveProvider {table : List Provider} (h : PlainIds table) {p : Provider}
    (hp : backslash∉p.id) : PlainIds (saveProvider table p) := by
  have hnew : 0∉cString p.id ∧ backslash∉cString p.id :=
    ⟨zero_notMem_cString p.id,fun hb => hp ((List.takeWhile_prefix _).subset hb)⟩
  intro x hx
  simp only [Auth.saveProvider] at hx
  obtain rfl|⟨hx,_⟩ := mem_upsert.mp hx
  · split
    · exact hnew
    · next old hold =>
      have hold' := h old (lookup_mem hold)
      split_ifs
      · exact hnew
      · exact hold'
  · exact h x hx

theorem postAuthProvider_ok {w : Bool} {table table' : List Provider} {q : ProviderPost}
    (h : postAuthProvider w table q=.ok table') :
    ∃ p,invalidId p.id=false ∧ table'=saveProvider table p := by
  obtain ⟨_,_,h⟩ := bind_eq_ok_iff.mp h
  obtain ⟨_,hid,h⟩ := bind_eq_ok_iff.mp h
  obtain ⟨kind,_,h⟩ := bind_eq_ok_iff.mp h
  obtain ⟨_,_,h⟩ := bind_eq_ok_iff.mp h
  obtain ⟨_,_,h⟩ := bind_eq_ok_iff.mp h
  obtain ⟨_,_,h⟩ := bind_eq_ok_iff.mp h
  refine ⟨_,?_,(Except.ok.inj h).symm⟩
  simpa using refuseIf_eq_ok_iff.mp hid

theorem PlainIds.step {w : Bool} {table : List Provider} (h : PlainIds table)
    (r : ProviderRequest) : PlainIds (providerStep w table r) := by
  cases r with
  | post q =>
    simp only [providerStep]
    split
    · next table' hpost =>
      obtain ⟨p,hid,rfl⟩ := postAuthProvider_ok hpost
      apply h.saveProvider
      intro hb
      simp only [invalidId,decide_eq_false_iff_not,not_or] at hid
      apply hid.2.2
      rw [List.any_eq_true]
      exact ⟨backslash,by decide,decide_eq_true hb⟩
    · exact h
  | delete id =>
    simp only [providerStep]
    split_ifs
    · exact fun p hp => h p (List.mem_filter.mp hp).1
    · exact h

theorem plainIds_run (w : Bool) (rs : List ProviderRequest) :
    PlainIds (run (providerStep w) [] rs) :=
  run_invariant (fun _ r h => h.step r) (fun _ hp => absurd hp List.not_mem_nil) rs

/-- Where an identity comes from. -/
inductive Source where
  | localAccount | clientCert | provider (id : Octets)
  deriving DecidableEq

def Source.subject : Source → Octets → Octets
  | .localAccount,name => name
  | .clientCert,cn => qualifySubject dn cn
  | .provider id,user => qualifySubject id user

/-- The console authenticates a local account by its name, a provider's user by the provider. -/
def Source.Knows (table : List Provider) (accounts : Set Octets) : Source → Octets → Prop
  | .localAccount,name => name∈accounts
  | .clientCert,_ => True
  | .provider id,_ => ∃ p∈table,p.id=id

def NoSharing (coll : Collation) (table : List Provider) (accounts : Set Octets) : Prop :=
  ∀ users (s : Source) n (t : Source) m,s.Knows table accounts n → t.Knows table accounts m →
    s≠t → ¬∃ row,getWebUser coll users (s.subject n)=some row ∧
      getWebUser coll users (t.subject m)=some row

/-- No two qualifiers agree but for letter case, and no local name starts with one. -/
structure Separate (coll : Collation) (table : List Provider) (accounts : Set Octets) : Prop where
  named : ∀ p∈table,p.id≠[] ∧ coll.lower p.id≠coll.lower dn
  apart : ∀ p∈table,∀ q∈table,p.id≠q.id → coll.lower p.id≠coll.lower q.id
  bare : ∀ n∈accounts,backslash∈cString n →
    coll.lower (subjectProvider (cString n))≠coll.lower dn ∧
      ∀ p∈table,coll.lower (subjectProvider (cString n))≠coll.lower p.id

theorem getWebUser_shared_iff {coll : Collation} {a b : Octets} :
    (∃ users row,getWebUser coll users a=some row ∧ getWebUser coll users b=some row) ↔
      coll.lower (cString a)=coll.lower (cString b) := by
  constructor
  · intro ⟨users,row,ha,hb⟩
    rw [← getWebUser_eq_some ha,getWebUser_eq_some hb]
  · intro h
    let row : WebUser := ⟨cString a,"none","",false⟩
    refine ⟨[row],row,?_,?_⟩ <;> simp [getWebUser,row,h]

theorem noSharing_iff {coll : Collation} {table : List Provider} {accounts : Set Octets} :
    NoSharing coll table accounts ↔
      ∀ (s : Source) n (t : Source) m,s.Knows table accounts n → t.Knows table accounts m →
        s≠t → coll.lower (cString (s.subject n))≠coll.lower (cString (t.subject m)) := by
  constructor
  · intro h s n t m hs ht hst heq
    obtain ⟨users,hrow⟩ := getWebUser_shared_iff.mpr heq
    exact h users s n t m hs ht hst hrow
  · intro h users s n t m hs ht hst hrow
    exact h s n t m hs ht hst (getWebUser_shared_iff.mp ⟨users,hrow⟩)

theorem cString_qualifySubject {id : Octets} (hne : id≠[]) (h0 : 0∉id) (user : Octets) :
    cString (qualifySubject id user)=id++backslash::cString user := by
  rw [qualifySubject,if_neg hne,cString_append_of_notMem h0]
  rfl

/-- What a stored id and `dn` share. -/
structure Qualifier (id : Octets) : Prop where
  ne : id≠[]
  no_zero : 0∉id
  no_backslash : backslash∉id

theorem Qualifier.dn : Qualifier Auth.dn := by
  constructor <;> decide

theorem Qualifier.lower_eq {x y : Octets} (hx : Qualifier x) (hy : Qualifier y) {coll : Collation}
    {u v : Octets}
    (h : coll.lower (cString (qualifySubject x u))=coll.lower (cString (qualifySubject y v))) :
    coll.lower x=coll.lower y := by
  rw [cString_qualifySubject hx.ne hx.no_zero,cString_qualifySubject hy.ne hy.no_zero] at h
  exact (coll.lower_inj_split hx.no_backslash hy.no_backslash h).1

/-- A local name that is found as a qualified subject is spelled like one. -/
theorem Qualifier.of_bare {id : Octets} (hid : Qualifier id) {coll : Collation} {n u : Octets}
    (h : coll.lower (cString n)=coll.lower (cString (qualifySubject id u))) :
    backslash∈cString n ∧ coll.lower (subjectProvider (cString n))=coll.lower id := by
  rw [cString_qualifySubject hid.ne hid.no_zero] at h
  have hb : backslash∈cString n := by
    by_contra hb
    apply coll.lower_clear _ hb
    rw [h,coll.lower_split]
    simp
  refine ⟨hb,?_⟩
  obtain ⟨a,b,hn,ha⟩ := exists_split hb
  rw [hn,subjectProvider_split ha]
  rw [hn] at h
  exact (coll.lower_inj_split ha hid.no_backslash h).1

/-- The other way: a name spelled like a qualified subject is found as the one of that user. -/
theorem Qualifier.bare_eq {id : Octets} (hid : Qualifier id) {coll : Collation} {n : Octets}
    (hb : backslash∈cString n)
    (h : coll.lower (subjectProvider (cString n))=coll.lower id) :
    ∃ u,coll.lower (cString n)=coll.lower (cString (qualifySubject id u)) := by
  obtain ⟨a,b,hn,ha⟩ := exists_split hb
  rw [hn,subjectProvider_split ha] at h
  have hb0 : 0∉b := by
    intro h0
    apply zero_notMem_cString n
    rw [hn]
    simp [h0]
  refine ⟨b,?_⟩
  rw [cString_qualifySubject hid.ne hid.no_zero,cString_eq_self_iff.mpr hb0,hn,coll.lower_split,
    coll.lower_split,h]

theorem Separate.qualifier {coll : Collation} {table : List Provider} {accounts : Set Octets}
    (h : Separate coll table accounts) (hids : PlainIds table) {p : Provider} (hp : p∈table) :
    Qualifier p.id :=
  ⟨(h.named p hp).1,(hids p hp).1,(hids p hp).2⟩

theorem Separate.noSharing {coll : Collation} {table : List Provider} {accounts : Set Octets}
    (h : Separate coll table accounts) (hids : PlainIds table) :
    NoSharing coll table accounts := by
  have bareCert (n : Octets) (hn : n∈accounts) (cn : Octets) :
      coll.lower (cString n)≠coll.lower (cString (qualifySubject dn cn)) := by
    intro heq
    obtain ⟨hb,hlow⟩ := Qualifier.dn.of_bare heq
    exact (h.bare n hn hb).1 hlow
  have bareProvider (n : Octets) (hn : n∈accounts) (p : Provider) (hp : p∈table) (u : Octets) :
      coll.lower (cString n)≠coll.lower (cString (qualifySubject p.id u)) := by
    intro heq
    obtain ⟨hb,hlow⟩ := (h.qualifier hids hp).of_bare heq
    exact (h.bare n hn hb).2 p hp hlow
  have certProvider (cn : Octets) (p : Provider) (hp : p∈table) (u : Octets) :
      coll.lower (cString (qualifySubject p.id u))≠
        coll.lower (cString (qualifySubject dn cn)) := by
    intro heq
    exact (h.named p hp).2 ((h.qualifier hids hp).lower_eq Qualifier.dn heq)
  rw [noSharing_iff]
  intro s n t m hs ht hst
  match s,t with
  | .localAccount,.localAccount => exact absurd rfl hst
  | .clientCert,.clientCert => exact absurd rfl hst
  | .localAccount,.clientCert => exact bareCert n hs m
  | .clientCert,.localAccount => exact (bareCert m ht n).symm
  | .localAccount,.provider _ =>
    obtain ⟨p,hp,rfl⟩ := ht
    exact bareProvider n hs p hp m
  | .provider _,.localAccount =>
    obtain ⟨p,hp,rfl⟩ := hs
    exact (bareProvider m ht p hp n).symm
  | .provider _,.clientCert =>
    obtain ⟨p,hp,rfl⟩ := hs
    exact certProvider m p hp n
  | .clientCert,.provider _ =>
    obtain ⟨p,hp,rfl⟩ := ht
    exact (certProvider n p hp m).symm
  | .provider _,.provider _ =>
    obtain ⟨p,hp,rfl⟩ := hs
    obtain ⟨q,hq,rfl⟩ := ht
    intro heq
    apply h.apart p hp q hq (fun hpq => hst (by rw [hpq]))
    exact (h.qualifier hids hp).lower_eq (h.qualifier hids hq) heq

theorem NoSharing.separate {coll : Collation} {table : List Provider} {accounts : Set Octets}
    (h : NoSharing coll table accounts) (hids : PlainIds table) :
    Separate coll table accounts := by
  rw [noSharing_iff] at h
  have named (p : Provider) (hp : p∈table) : p.id≠[] := by
    -- the users of an empty id are bare names, and one may be spelled like a certificate's
    intro he
    apply h (.provider p.id) (qualifySubject dn []) .clientCert [] ⟨p,hp,rfl⟩ trivial (by simp)
    rw [he]
    rfl
  have qualifier (p : Provider) (hp : p∈table) : Qualifier p.id :=
    ⟨named p hp,(hids p hp).1,(hids p hp).2⟩
  have same {x y : Octets} (hx : Qualifier x) (hy : Qualifier y)
      (hlow : coll.lower x=coll.lower y) :
      coll.lower (cString (qualifySubject x []))=coll.lower (cString (qualifySubject y [])) := by
    rw [cString_qualifySubject hx.ne hx.no_zero,cString_qualifySubject hy.ne hy.no_zero,
      coll.lower_split,coll.lower_split,hlow]
  constructor
  case named =>
    intro p hp
    refine ⟨named p hp,?_⟩
    intro hlow
    exact h (.provider p.id) [] .clientCert [] ⟨p,hp,rfl⟩ trivial (by simp)
      (same (qualifier p hp) Qualifier.dn hlow)
  case apart =>
    intro p hp q hq hpq hlow
    exact h (.provider p.id) [] (.provider q.id) [] ⟨p,hp,rfl⟩ ⟨q,hq,rfl⟩ (by simpa using hpq)
      (same (qualifier p hp) (qualifier q hq) hlow)
  case bare =>
    intro n hn hb
    constructor
    · intro hlow
      obtain ⟨u,hu⟩ := Qualifier.dn.bare_eq hb hlow
      exact h .localAccount n .clientCert u hn trivial (by simp) hu
    · intro p hp hlow
      obtain ⟨u,hu⟩ := (qualifier p hp).bare_eq hb hlow
      exact h .localAccount n (.provider p.id) u hn ⟨p,hp,rfl⟩ (by simp) hu

/-- Whatever was posted and removed before, identities of two sources are kept apart exactly when
the stored qualifiers differ in more than letter case and no local name carries one. -/
theorem identities_separate_iff (coll : Collation) (webAllowRevoke : Bool)
    (rs : List ProviderRequest) (accounts : Set Octets) :
    NoSharing coll (run (providerStep webAllowRevoke) [] rs) accounts ↔
      Separate coll (run (providerStep webAllowRevoke) [] rs) accounts :=
  ⟨fun h => h.separate (plainIds_run webAllowRevoke rs),
    fun h => h.noSharing (plainIds_run webAllowRevoke rs)⟩

def samlCorp : ProviderPost where
  id := octets "corp"
  kind := some (octets "saml")
  displayName := octets "Corp"
  idpSsoUrl := octets "https://idp.corp.example/sso"
  idpCert := octets "-----BEGIN CERTIFICATE-----"
  spEntityId := octets "https://pki.example/saml"
  issuer := []
  clientId := []
  uris := []
  baseDns := []
  netbiosName := []
  dnsRoot := []

def oidcCorp : ProviderPost :=
  { samlCorp with
    id := octets "CORP",kind := some (octets "oidc"),issuer := octets "https://login.example",
    clientId := octets "fastpki" }

/-- A second identity provider whose id differs in case only is accepted, and its `alice` is the
account of the first one's `alice`. -/
theorem providers_share_account :
    ∃ rs accounts,¬NoSharing collationC (run (providerStep true) [] rs) accounts := by
  refine ⟨[.post samlCorp,.post oidcCorp],∅,?_⟩
  intro h
  let row : WebUser := ⟨octets "corp\\alice","requester","",false⟩
  refine h [row] (.provider (octets "corp")) (octets "alice") (.provider (octets "CORP"))
    (octets "alice") ?_ ?_ (by decide) ⟨row,by decide,by decide⟩
  · exact ⟨⟨octets "corp",.saml,octets "Corp",[],[]⟩,by decide,rfl⟩
  · exact ⟨⟨octets "CORP",.oidc,octets "Corp",[],[]⟩,by decide,rfl⟩

end FastPki.Auth
