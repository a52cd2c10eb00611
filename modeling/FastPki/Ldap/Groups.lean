import FastPki.Ldap.Directory
import Mathlib.Algebra.Group.Nat.Defs
import Mathlib.Data.List.Dedup

namespace FastPki.Ldap
open X509 Auth

structure LdapProvider where
  uris : List Octets
  baseDns : List Octets
  groupFilter : Octets
  groupAttr : Octets

/-- RFC 4514: a name as the value of an RDN. A space and a `#` are special at an end only. -/
def escapeDnValue (v : Octets) : Octets :=
  v.zipIdx.flatMap fun (c,i) =>
    if c ∈ octets "\"+,;<>\\" then [backslash,c]
    else if c = 0x23 then if i = 0 then [backslash,c] else [c]
    else if c = 0x20 then if i = 0 ∨ i+1 = v.length then [backslash,c] else [c]
    else if c = 0 then octets "\\00"
    else [c]

def bindDn (username base : Octets) : Octets :=
  octets "CN="++escapeDnValue username++octets ","++base

def groupFilterText (p : LdapProvider) : Octets :=
  if p.groupFilter = [] then
    octets "(|(objectClass=groupOfNames)(objectClass=groupOfUniqueNames)"++
      octets "(objectClass=group)(objectClass=posixGroup))"
  else p.groupFilter

/-- The attribute that names a group, or else its DN. -/
def groupName (p : LdapProvider) (g : Entry) : Octets :=
  ((g.values (if p.groupAttr = [] then octets "cn" else p.groupAttr)).head?).getD g.dn

def sAMAccountName : Octets := octets "sAMAccountName"
def uid : Octets := octets "uid"
def cn : Octets := octets "cn"
def member : Octets := octets "member"
def uniqueMember : Octets := octets "uniqueMember"
def memberUid : Octets := octets "memberUid"
def objectSid : Octets := octets "objectSid"
def primaryGroupID : Octets := octets "primaryGroupID"

/-- `std::stoul`: blanks, a sign, then digits up to whatever follows them; it throws where there
are none or where they do not fit. -/
def stoul (s : Octets) : Option Nat :=
  let s := s.dropWhile fun c => c = 0x20 ∨ 0x09 ≤ c ∧ c ≤ 0x0d
  let negative := s.head? = some 0x2d
  let s := if negative ∨ s.head? = some 0x2b then s.drop 1 else s
  let digits := s.takeWhile fun c => 0x30 ≤ c ∧ c ≤ 0x39
  let n := digits.foldl (fun n c => n*10+(c.toNat-0x30)) 0
  if digits = [] ∨ n ≥ 2^64 then none else some (if negative then (2^64-n)%2^64 else n)

/-- The user's SID with its last sub-authority replaced by the group's. -/
def primaryGroupSid (sid : Octets) (rid : Nat) : Option Octets :=
  let n := (sid.getD 1 0).toNat
  if sid.length < 8 ∨ n = 0 ∨ sid.length ≠ 8+4*n then none
  else some (sid.take (8+4*(n-1))++
    [UInt8.ofNat rid,UInt8.ofNat (rid/2^8),UInt8.ofNat (rid/2^16),UInt8.ofNat (rid/2^24)])

def Entry.primarySid (e : Entry) : Option Octets := do
  let sid ← (e.values objectSid).head?
  let rid ← (e.values primaryGroupID).head?.bind stoul
  primaryGroupSid sid rid

/-- `ad_primary_group_sid_filter` of an entry, empty for one that has no such group. -/
def adPrimaryGroupSidFilter (e : Entry) : Octets := e.primarySid.elim [] (·.flatMap hexByte)

def userFilter (username : Octets) : Filter :=
  .or (.equality sAMAccountName (filterEscape username))
    (.or (.equality uid (filterEscape username)) (.equality cn (filterEscape username)))

def directFilter (p : LdapProvider) (userDn username : Octets) : Filter :=
  .and (.configured (groupFilterText p)) (.or (.equality member (filterEscape userDn))
    (.or (.equality uniqueMember (filterEscape userDn))
      (.equality memberUid (filterEscape username))))

def primaryFilter (p : LdapProvider) (sid : Octets) : Filter :=
  .and (.configured (groupFilterText p)) (.equality objectSid sid)

def nestedFilter (p : LdapProvider) (userDn : Octets) : Filter :=
  .and (.configured (groupFilterText p)) (.inChain member (filterEscape userDn))

/-- `std::sort` and `std::unique`. -/
def sortUnique (l : List Octets) : List Octets :=
  (l.mergeSort fun a b => a ≤ b).dedup

section

variable {sch : Schema} {dir : Directory sch} (net : Net dir) (p : LdapProvider)

/-- The entry the first accepted bind is for. -/
def boundEntry (username password : Octets) : Option Entry :=
  if username = [] ∨ password = [] then none
  else if p.uris = [] ∨ p.baseDns = [] then none
  else p.uris.findSome? fun uri =>
    p.baseDns.findSome? fun base => net.bind uri (bindDn username base) password

def ldapBindCheck (username password : Octets) : Bool := (boundEntry net p username password).isSome

/-- The user search stops at the first base that answers; the first entry is taken. -/
def findUserEntry (uri username : Octets) : Option Entry :=
  p.baseDns.findSome? fun base => (net.search uri base (userFilter username) 2).bind List.head?

def collect (uri : Octets) (f : Filter) : List Octets :=
  p.baseDns.flatMap fun base => ((net.search uri base f 1000).getD []).map (groupName p)

def groupsAt (uri username : Octets) : List Octets :=
  if !net.serviceBind uri then []
  else
    let found := findUserEntry net p uri username
    let userDn := found.elim (bindDn username (p.baseDns.headD [])) Entry.dn
    let primarySidFilter := found.elim [] adPrimaryGroupSidFilter
    collect net p uri (directFilter p userDn username)++
      (if primarySidFilter = [] then [] else collect net p uri (primaryFilter p primarySidFilter))++
      collect net p uri (nestedFilter p userDn)

/-- The first server that names a group decides. -/
def ldapGroupsForUser (username : Octets) : List Octets :=
  if username = [] ∨ p.uris = [] ∨ p.baseDns = [] then []
  else sortUnique (((p.uris.map fun uri => groupsAt net p uri username).find? (· ≠ [])).getD [])

end

section

variable (sch : Schema) (p : LdapProvider)

def IsGroup (g : Entry) : Prop := sch.configured (groupFilterText p) g

def Named (username : Octets) (e : Entry) : Prop :=
  e.Has sch sAMAccountName username ∨ e.Has sch uid username ∨ e.Has sch cn username

/-- A group that lists the DN, or the bare name. -/
def Lists (userDn username : Octets) (g : Entry) : Prop :=
  IsGroup sch p g ∧
    (g.Has sch member userDn ∨ g.Has sch uniqueMember userDn ∨ g.Has sch memberUid username)

def HasSid (sid : Option Octets) (g : Entry) : Prop :=
  IsGroup sch p g ∧ ∃ raw,sid=some raw ∧ g.Has sch objectSid raw

variable {sch} (dir : Directory sch)

def Nests (userDn : Octets) (g : Entry) : Prop :=
  IsGroup sch p g ∧ InChain sch dir.entries member userDn g

/-- The groups of an entry: those that list its DN or its uid, its primary group, and those it is
in by nesting. -/
def Belongs (e g : Entry) : Prop :=
  IsGroup sch p g ∧
    (g.Has sch member e.dn ∨ g.Has sch uniqueMember e.dn ∨
        ∃ u∈e.values uid,g.Has sch memberUid u) ∨
    HasSid sch p e.primarySid g ∨ Nests p dir e.dn g

def Owns (e : Entry) (name : Octets) : Prop :=
  ∃ g∈dir.entries,groupName p g=name ∧ Belongs p dir e g

/-- Under some base an entry meets `P`, and no more than `limit` do. -/
def Visible (limit : Nat) (P : Entry → Prop) (e : Entry) : Prop :=
  ∃ base∈p.baseDns,e∈dir.selected base P ∧ (dir.selected base P).length≤limit

def Reached (username userDn : Octets) (sid : Option Octets) (g : Entry) : Prop :=
  Visible p dir 1000 (Lists sch p userDn username) g ∨ Visible p dir 1000 (HasSid sch p sid) g ∨
    Visible p dir 1000 (Nests p dir userDn) g

/-- The DN and the primary group a server may find for a name: of any entry that carries it, or
the one that `ldap_bind_check` tries first. -/
def Resolves (username userDn : Octets) (sid : Option Octets) : Prop :=
  (∃ x,Visible p dir 2 (Named sch username) x ∧ userDn=x.dn ∧ sid=x.primarySid) ∨
    userDn=bindDn username (p.baseDns.headD []) ∧ sid=none

/-- Whatever the name is resolved to, the groups found are groups of `e`. -/
def Aligned (username : Octets) (e : Entry) : Prop :=
  ∀ userDn sid,Resolves p dir username userDn sid →
    ∀ g,Reached p dir username userDn sid g → Owns p dir e (groupName p g)

/-- An entry that can be signed in as with this password. -/
def CanBind (username password : Octets) (e : Entry) : Prop :=
  username≠[] ∧ password≠[] ∧ p.uris≠[] ∧ e∈dir.entries ∧ e.password=some password ∧
    ∃ base∈p.baseDns,sch.normDn e.dn=sch.normDn (bindDn username base)

/-- A login carries only groups of the entry that it bound as. -/
def LoginGroupsOwn (username password : Octets) : Prop :=
  ∀ (net : Net dir) e,boundEntry net p username password=some e →
    ∀ name∈ldapGroupsForUser net p username,Owns p dir e name

end

section

variable {sch : Schema} {dir : Directory sch} {p : LdapProvider}

theorem matches_userFilter {username : Octets} {e : Entry} :
    (userFilter username).Matches sch dir.entries e ↔ Named sch username e := by
  show _ ∨ _ ∨ _ ↔ _
  rw [matches_equality_filterEscape,matches_equality_filterEscape,matches_equality_filterEscape]
  rfl

theorem matches_directFilter {userDn username : Octets} {g : Entry} :
    (directFilter p userDn username).Matches sch dir.entries g ↔
      Lists sch p userDn username g := by
  show _ ∧ (_ ∨ _ ∨ _) ↔ _
  rw [matches_equality_filterEscape,matches_equality_filterEscape,matches_equality_filterEscape]
  rfl

theorem matches_primaryFilter {raw : Octets} {g : Entry} :
    (primaryFilter p (raw.flatMap hexByte)).Matches sch dir.entries g ↔
      HasSid sch p (some raw) g := by
  show _ ∧ _ ↔ _
  rw [matches_equality_hexBytes]
  simp only [HasSid,Option.some.injEq,exists_eq_left']
  rfl

theorem matches_nestedFilter {userDn : Octets} {g : Entry} :
    (nestedFilter p userDn).Matches sch dir.entries g ↔ Nests p dir userDn g := by
  show _ ∧ _ ↔ _
  rw [matches_inChain_filterEscape]
  rfl

theorem search_visible {net : Net dir} {uri base : Octets} {f : Filter} {limit : Nat}
    {l : List Entry} {P : Entry → Prop} (hf : ∀ e,f.Matches sch dir.entries e ↔ P e)
    (hbase : base∈p.baseDns) (h : net.search uri base f limit=some l) {e : Entry} (he : e∈l) :
    Visible p dir limit P e := by
  obtain ⟨hperm,hlen⟩ := net.search_honest h
  rw [Directory.selected_congr hf] at hperm
  refine ⟨base,hbase,hperm.mem_iff.mp he,?_⟩
  rwa [← hperm.length_eq]

theorem mem_collect {net : Net dir} {uri : Octets} {f : Filter} {P : Entry → Prop}
    (hf : ∀ e,f.Matches sch dir.entries e ↔ P e) {name : Octets}
    (h : name∈collect net p uri f) : ∃ g,Visible p dir 1000 P g ∧ groupName p g=name := by
  obtain ⟨base,hbase,h⟩ := List.mem_flatMap.mp h
  obtain ⟨g,hg,hname⟩ := List.mem_map.mp h
  cases hs : net.search uri base f 1000 with
  | none =>
    rw [hs] at hg
    exact absurd hg List.not_mem_nil
  | some l =>
    rw [hs] at hg
    exact ⟨g,search_visible hf hbase hs hg,hname⟩

theorem findUserEntry_visible {net : Net dir} {uri username : Octets} {x : Entry}
    (h : findUserEntry net p uri username=some x) :
    Visible p dir 2 (Named sch username) x := by
  obtain ⟨base,hbase,h⟩ := List.exists_of_findSome?_eq_some h
  obtain ⟨l,hl,hx⟩ := Option.bind_eq_some_iff.mp h
  exact search_visible (fun _ => matches_userFilter) hbase hl (List.mem_of_head? hx)

/-- What a server answers was reached from what it resolved the name to. -/
theorem groupsAt_reached {net : Net dir} {uri username name : Octets}
    (h : name∈groupsAt net p uri username) :
    ∃ userDn sid g,Resolves p dir username userDn sid ∧ Reached p dir username userDn sid g ∧
      groupName p g=name := by
  simp only [groupsAt] at h
  split at h
  · exact absurd h List.not_mem_nil
  generalize hfound : findUserEntry net p uri username=found at h
  let userDn := found.elim (bindDn username (p.baseDns.headD [])) Entry.dn
  let sid := found.bind Entry.primarySid
  have resolved : Resolves p dir username userDn sid := by
    cases found with
    | none => exact .inr ⟨rfl,rfl⟩
    | some x => exact .inl ⟨x,findUserEntry_visible hfound,rfl,rfl⟩
  have reached (g : Entry) (hg : Reached p dir username userDn sid g) (hname : groupName p g=name) :
      ∃ userDn sid g,Resolves p dir username userDn sid ∧
        Reached p dir username userDn sid g ∧ groupName p g=name :=
    ⟨userDn,sid,g,resolved,hg,hname⟩
  rcases List.mem_append.mp h with h|h
  rcases List.mem_append.mp h with h|h
  · obtain ⟨g,hg,hname⟩ := mem_collect (fun _ => matches_directFilter) h
    exact reached g (.inl hg) hname
  · split at h
    · exact absurd h List.not_mem_nil
    · next hne =>
      cases hsid : sid with
      | none =>
        refine absurd ?_ hne
        cases found with
        | none => rfl
        | some x =>
          show x.primarySid.elim [] _=_
          rw [show x.primarySid=none from hsid]
          rfl
      | some raw =>
        have htext : found.elim [] adPrimaryGroupSidFilter=raw.flatMap hexByte := by
          obtain ⟨x,rfl,hx⟩ := Option.bind_eq_some_iff.mp hsid
          show x.primarySid.elim [] _=_
          rw [hx]
          rfl
        rw [htext] at h
        obtain ⟨g,hg,hname⟩ := mem_collect (fun _ => matches_primaryFilter) h
        rw [← hsid] at hg
        exact reached g (.inr (.inl hg)) hname
  · obtain ⟨g,hg,hname⟩ := mem_collect (fun _ => matches_nestedFilter) h
    exact reached g (.inr (.inr hg)) hname

theorem mem_sortUnique {l : List Octets} {x : Octets} : x∈sortUnique l ↔ x∈l := by
  simp [sortUnique]

theorem boundEntry_canBind {net : Net dir} {username password : Octets} {e : Entry}
    (h : boundEntry net p username password=some e) : CanBind p dir username password e := by
  simp only [boundEntry] at h
  split_ifs at h with hlogin hconf
  obtain ⟨uri,_,h⟩ := List.exists_of_findSome?_eq_some h
  obtain ⟨base,hbase,h⟩ := List.exists_of_findSome?_eq_some h
  obtain ⟨hmem,hdn,hpw⟩ := net.bind_honest h
  simp only [not_or] at hlogin hconf
  exact ⟨hlogin.1,hlogin.2,hconf.1,hmem,hpw,base,hbase,hdn⟩

theorem loginGroupsOwn_of_aligned {username password : Octets}
    (h : ∀ e,CanBind p dir username password e → Aligned p dir username e) :
    LoginGroupsOwn p dir username password := by
  intro net e hbound name hname
  have aligned := h e (boundEntry_canBind hbound)
  simp only [ldapGroupsForUser] at hname
  split_ifs at hname
  · exact absurd hname List.not_mem_nil
  rw [mem_sortUnique] at hname
  cases hfind : (p.uris.map fun uri => groupsAt net p uri username).find? (· ≠ []) with
  | none =>
    rw [hfind] at hname
    exact absurd hname List.not_mem_nil
  | some groups =>
    rw [hfind] at hname
    obtain ⟨uri,_,rfl⟩ := List.mem_map.mp (List.mem_of_find?_eq_some hfind)
    obtain ⟨userDn,sid,g,hres,hg,rfl⟩ := groupsAt_reached hname
    exact aligned userDn sid hres g hg

theorem findSome?_only {α β : Type*} {l : List α} {f : α → Option β} {b : β}
    (honly : ∀ a∈l,∀ c,f a=some c → c=b) (h : ∃ a∈l,f a=some b) : l.findSome? f=some b := by
  cases hfind : l.findSome? f with
  | none =>
    obtain ⟨a,ha,hb⟩ := h
    rw [List.findSome?_eq_none_iff.mp hfind a ha] at hb
    cases hb
  | some c =>
    obtain ⟨a,ha,hc⟩ := List.exists_of_findSome?_eq_some hfind
    rw [honly a ha c hc]

/-- Servers on which only one login works, and which put an entry of their choice first in the
answer to the user search, or fail it. -/
noncomputable def leadingNet (dir : Directory sch) (username : Octets) (e : Entry)
    (he : e∈dir.entries) (loginDn : Octets) (hdn : sch.normDn e.dn=sch.normDn loginDn)
    (lead : Octets → Option Entry)
    (hlead : ∀ base x,lead base=some x → x∈dir.selected base (Named sch username)) :
    Net dir where
  bind _ name password := if name = loginDn ∧ e.password = some password then some e else none
  bind_honest h := by
    split_ifs at h with hname
    cases h
    exact ⟨he,hname.1 ▸ hdn,hname.2⟩
  serviceBind _ := true
  search _ base f limit :=
    let all := dir.selected base fun e => f.Matches sch dir.entries e
    if limit < all.length then none
    else if f = userFilter username then (lead base).map fun x => x::all.erase x
    else some all
  search_honest {_ base f limit l} h := by
    simp only at h
    split_ifs at h with hlimit hf
    · obtain ⟨x,hx,rfl⟩ := Option.map_eq_some_iff.mp h
      have hmem := hlead base x hx
      have named : ∀ e,(userFilter username).Matches sch dir.entries e ↔ Named sch username e :=
        fun _ => matches_userFilter
      rw [← Directory.selected_congr named,← hf] at hmem
      have hperm := (List.perm_cons_erase hmem).symm
      exact ⟨hperm,hperm.length_eq ▸ Nat.not_lt.mp hlimit⟩
    · cases h
      exact ⟨List.Perm.refl _,Nat.not_lt.mp hlimit⟩

theorem leadingNet_boundEntry {username password : Octets} {e : Entry}
    (hcan : CanBind p dir username password e) {he : e∈dir.entries} {loginDn : Octets}
    {hdn : sch.normDn e.dn=sch.normDn loginDn} {lead : Octets → Option Entry}
    {hlead : ∀ base x,lead base=some x → x∈dir.selected base (Named sch username)}
    (hlogin : ∃ base∈p.baseDns,bindDn username base=loginDn) :
    boundEntry (leadingNet dir username e he loginDn hdn lead hlead) p username password=
      some e := by
  obtain ⟨hname,hpw,huris,_,hpass,base,hbase,_⟩ := hcan
  rw [boundEntry,if_neg (by simp [hname,hpw]),
    if_neg (by simp [huris,List.ne_nil_of_mem hbase])]
  have atUri (uri : Octets) : (p.baseDns.findSome? fun base =>
      (leadingNet dir username e he loginDn hdn lead hlead).bind uri (bindDn username base)
        password)=some e := by
    apply findSome?_only
    · intro base _ c hc
      simp only [leadingNet] at hc
      split_ifs at hc
      exact (Option.some.inj hc).symm
    · obtain ⟨base,hbase,hdn⟩ := hlogin
      exact ⟨base,hbase,if_pos ⟨hdn,hpass⟩⟩
  apply findSome?_only
  · intro uri _ c hc
    rw [atUri uri] at hc
    exact (Option.some.inj hc).symm
  · obtain ⟨uri,huri⟩ := List.exists_mem_of_ne_nil p.uris huris
    exact ⟨uri,huri,atUri uri⟩

/-- Servers that answer every group search they may. -/
structure Answering (net : Net dir) : Prop where
  serviceBind : ∀ uri,net.serviceBind uri=true
  search : ∀ uri base f g limit,
    (dir.selected base fun e => (Filter.and f g).Matches sch dir.entries e).length≤limit →
    net.search uri base (.and f g) limit=
      some (dir.selected base fun e => (Filter.and f g).Matches sch dir.entries e)

theorem leadingNet_answering {username : Octets} {e : Entry} {he : e∈dir.entries}
    {loginDn : Octets} {hdn : sch.normDn e.dn=sch.normDn loginDn} {lead : Octets → Option Entry}
    {hlead : ∀ base x,lead base=some x → x∈dir.selected base (Named sch username)} :
    Answering (leadingNet dir username e he loginDn hdn lead hlead) := by
  constructor
  · intro uri
    rfl
  · intro uri base f g limit hlen
    have hne : Filter.and f g≠userFilter username := Filter.noConfusion
    simp only [leadingNet]
    rw [if_neg (Nat.not_lt.mpr hlen),if_neg hne]

/-- The name can be resolved to anything that `Resolves` allows, while `e` signs in. -/
theorem exists_net {username password userDn : Octets} {sid : Option Octets} {e : Entry}
    (hcan : CanBind p dir username password e) (hres : Resolves p dir username userDn sid) :
    ∃ net : Net dir,Answering net ∧ boundEntry net p username password=some e ∧
      ∀ uri,(findUserEntry net p uri username).elim (bindDn username (p.baseDns.headD []))
          Entry.dn=userDn ∧
        (findUserEntry net p uri username).bind Entry.primarySid=sid := by
  obtain ⟨_,_,_,he,_,login,hlogin,hdn⟩ := id hcan
  obtain ⟨x,hvisible,rfl,rfl⟩|⟨rfl,rfl⟩ := hres
  · obtain ⟨base,hbase,hx,hlen⟩ := hvisible
    have hlead : ∀ b y,(if b = base then some x else none)=some y →
        y∈dir.selected b (Named sch username) := by
      intro b y hy
      split_ifs at hy with hb
      cases hy
      exact hb ▸ hx
    refine ⟨leadingNet dir username e he (bindDn username login) hdn
      (fun b => if b = base then some x else none) hlead,leadingNet_answering,
      leadingNet_boundEntry hcan ⟨login,hlogin,rfl⟩,?_⟩
    intro uri
    have hfound : findUserEntry (leadingNet dir username e he (bindDn username login) hdn
        (fun b => if b = base then some x else none) hlead) p uri username=some x := by
      apply findSome?_only
      · intro b _ y hy
        obtain ⟨l,hl,hy⟩ := Option.bind_eq_some_iff.mp hy
        simp only [leadingNet,if_true] at hl
        split_ifs at hl
        · obtain rfl := Option.some.inj hl
          exact (Option.some.inj hy).symm
        · cases hl
      · refine ⟨base,hbase,?_⟩
        simp only [leadingNet]
        rw [Directory.selected_congr (fun _ => matches_userFilter),
          if_neg (Nat.not_lt.mpr hlen),if_pos trivial,if_pos trivial]
        rfl
    rw [hfound]
    exact ⟨rfl,rfl⟩
  · refine ⟨leadingNet dir username e he (bindDn username login) hdn (fun _ => none)
      (fun _ _ h => by cases h),leadingNet_answering,
      leadingNet_boundEntry hcan ⟨login,hlogin,rfl⟩,?_⟩
    intro uri
    have hfound : findUserEntry (leadingNet dir username e he (bindDn username login) hdn
        (fun _ => none) (fun _ _ h => by cases h)) p uri username=none := by
      apply List.findSome?_eq_none_iff.mpr
      intro b _
      simp [leadingNet]
    rw [hfound]
    exact ⟨rfl,rfl⟩

theorem primarySid_ne {e : Entry} {raw : Octets} (h : e.primarySid=some raw) : raw≠[] := by
  obtain ⟨sid,_,h⟩ := Option.bind_eq_some_iff.mp h
  obtain ⟨rid,_,h⟩ := Option.bind_eq_some_iff.mp h
  simp only [primaryGroupSid] at h
  split_ifs at h
  obtain rfl := Option.some.inj h
  simp

theorem Answering.collect {net : Net dir} (h : Answering net) {uri : Octets} {f f' : Filter}
    {P : Entry → Prop} (hf : ∀ e,(Filter.and f f').Matches sch dir.entries e ↔ P e) {g : Entry}
    (hg : Visible p dir 1000 P g) : groupName p g∈Ldap.collect net p uri (.and f f') := by
  obtain ⟨base,hbase,hmem,hlen⟩ := hg
  rw [← Directory.selected_congr hf] at hmem hlen
  refine List.mem_flatMap.mpr ⟨base,hbase,?_⟩
  rw [h.search uri base f f' 1000 hlen]
  exact List.mem_map.mpr ⟨g,hmem,rfl⟩

theorem Answering.groupsAt {net : Net dir} (h : Answering net) {uri username userDn : Octets}
    {sid : Option Octets}
    (hdn : (findUserEntry net p uri username).elim (bindDn username (p.baseDns.headD []))
      Entry.dn=userDn)
    (hsid : (findUserEntry net p uri username).bind Entry.primarySid=sid) {g : Entry}
    (hg : Reached p dir username userDn sid g) :
    groupName p g∈Ldap.groupsAt net p uri username := by
  simp only [Ldap.groupsAt]
  rw [if_neg (by simp [h.serviceBind uri]),hdn]
  obtain hg|hg|hg := hg
  · apply List.mem_append_left
    apply List.mem_append_left
    exact h.collect (fun _ => matches_directFilter) hg
  · apply List.mem_append_left
    apply List.mem_append_right
    obtain ⟨base,hbase,hmem,_⟩ := id hg
    obtain ⟨_,raw,hraw,_⟩ := (Directory.mem_selected.mp hmem).2.2
    rw [hraw] at hsid hg
    obtain ⟨x,hx,hx'⟩ := Option.bind_eq_some_iff.mp hsid
    have htext : (findUserEntry net p uri username).elim [] adPrimaryGroupSidFilter=
        raw.flatMap hexByte := by
      rw [hx]
      show x.primarySid.elim [] _=_
      rw [hx']
      rfl
    have hne : raw.flatMap hexByte≠[] := by
      cases raw with
      | nil => exact absurd rfl (primarySid_ne hx')
      | cons c raw => simp [hexByte]
    rw [htext,if_neg hne]
    exact h.collect (fun _ => matches_primaryFilter) hg
  · apply List.mem_append_right
    exact h.collect (fun _ => matches_nestedFilter) hg

theorem aligned_of_loginGroupsOwn {username password : Octets}
    (h : LoginGroupsOwn p dir username password) {e : Entry}
    (hcan : CanBind p dir username password e) : Aligned p dir username e := by
  intro userDn sid hres g hg
  obtain ⟨net,answering,hbound,hfound⟩ := exists_net hcan hres
  obtain ⟨hname,_,huris,_,_,base,hbase,_⟩ := hcan
  apply h net e hbound
  rw [ldapGroupsForUser,if_neg (by simp [hname,huris,List.ne_nil_of_mem hbase]),mem_sortUnique]
  cases hp : p.uris with
  | nil => exact absurd hp huris
  | cons uri uris =>
    have hmem : groupName p g∈groupsAt net p uri username :=
      answering.groupsAt (hfound uri).1 (hfound uri).2 hg
    rw [List.map_cons,List.find?_cons_of_pos (by simpa using List.ne_nil_of_mem hmem)]
    exact hmem

/-- In a directory where only `e` carries the name, as its uid too, nothing is mixed up. -/
theorem aligned_of_only {username : Octets} {e : Entry} (huid : username∈e.values uid)
    (hdn : e.dn=bindDn username (p.baseDns.headD []))
    (honly : ∀ x∈dir.entries,Named sch username x → x=e) : Aligned p dir username e := by
  intro userDn sid hres g hg
  have htarget : userDn=e.dn ∧ (sid=e.primarySid ∨ sid=none) := by
    obtain ⟨x,⟨base,_,hx,_⟩,rfl,rfl⟩|⟨rfl,rfl⟩ := hres
    · obtain ⟨hmem,_,hnamed⟩ := Directory.mem_selected.mp hx
      rw [honly x hmem hnamed]
      exact ⟨rfl,.inl rfl⟩
    · exact ⟨hdn.symm,.inr rfl⟩
  obtain ⟨rfl,hsid⟩ := htarget
  obtain ⟨_,_,hg,_⟩|⟨_,_,hg,_⟩|⟨_,_,hg,_⟩ := hg
  · obtain ⟨hmem,_,hgroup,hlists⟩ := Directory.mem_selected.mp hg
    refine ⟨g,hmem,rfl,.inl ⟨hgroup,?_⟩⟩
    obtain h|h|h := hlists
    · exact .inl h
    · exact .inr (.inl h)
    · exact .inr (.inr ⟨username,huid,h⟩)
  · obtain ⟨hmem,_,hgroup,raw,hraw,hhas⟩ := Directory.mem_selected.mp hg
    obtain rfl|rfl := hsid
    · exact ⟨g,hmem,rfl,.inr (.inl ⟨hgroup,raw,hraw,hhas⟩)⟩
    · cases hraw
  · obtain ⟨hmem,_,hnests⟩ := Directory.mem_selected.mp hg
    exact ⟨g,hmem,rfl,.inr (.inr hnests)⟩

end

/-- A login carries the groups of the entry it bound as exactly when every entry that the name may
be resolved to has, as far as the searches show, only groups of that entry, and so has the bare
name. -/
theorem login_groups_own_iff (sch : Schema) (dir : Directory sch) (p : LdapProvider)
    (username password : Octets) :
    LoginGroupsOwn p dir username password ↔
      ∀ e,CanBind p dir username password e → Aligned p dir username e :=
  ⟨fun h _ hcan => aligned_of_loginGroupsOwn h hcan,loginGroupsOwn_of_aligned⟩

/-- Comparisons of ASCII text without regard to letter case. -/
def asciiSchema : Schema where
  norm _ v := v.map asciiLower
  normDn dn := dn.map asciiLower
  under base dn := (base.map asciiLower).isSuffixOf (dn.map asciiLower)
  configured _ e := (e.values (octets "objectClass")).any (· = octets "groupOfNames")

def alice : Entry where
  dn := octets "CN=alice,OU=staff,DC=corp"
  attrs := [(cn,[octets "alice"]),(uid,[octets "asmith"])]
  password := some (octets "secret")

/-- Another person, whose uid is the other's commonName. -/
def aliceRoot : Entry where
  dn := octets "CN=Alice Root,OU=staff,DC=corp"
  attrs := [(cn,[octets "Alice Root"]),(uid,[octets "alice"])]
  password := some (octets "toor")

def admins : Entry where
  dn := octets "CN=admins,OU=staff,DC=corp"
  attrs := [(octets "objectClass",[octets "groupOfNames"]),(cn,[octets "admins"]),
    (member,[aliceRoot.dn])]
  password := none

def staff : Directory asciiSchema where
  entries := [alice,aliceRoot,admins]
  distinct := by decide
  named := by decide

def corp : LdapProvider := ⟨[octets "ldaps://dc1"],[octets "OU=staff,DC=corp"],[],[]⟩

/-- Who signs in as `CN=alice` gets the groups of whoever has the uid `alice`. -/
theorem login_groups_of_namesake :
    ¬LoginGroupsOwn corp staff (octets "alice") (octets "secret") := by
  intro h
  have hcan : CanBind corp staff (octets "alice") (octets "secret") alice := by
    refine ⟨by decide,by decide,by decide,by decide,rfl,octets "OU=staff,DC=corp",by decide,?_⟩
    decide
  have hfound : Visible corp staff 2 (Named asciiSchema (octets "alice")) aliceRoot := by
    refine ⟨octets "OU=staff,DC=corp",by decide,?_,?_⟩
    · rw [Directory.mem_selected]
      refine ⟨by decide,by decide,.inr (.inl ?_)⟩
      decide
    · apply Nat.le_of_lt_succ
      apply List.length_filter_lt_length_iff_exists.mpr
      refine ⟨admins,by decide,?_⟩
      have : ¬Named asciiSchema (octets "alice") admins := by
        unfold Named
        decide
      simp [this]
  have hreached : Reached corp staff (octets "alice") aliceRoot.dn aliceRoot.primarySid admins := by
    refine .inl ⟨octets "OU=staff,DC=corp",by decide,?_,?_⟩
    · rw [Directory.mem_selected]
      refine ⟨by decide,by decide,?_,.inl ?_⟩
      · show asciiSchema.configured _ admins=true
        decide
      · decide
    · exact Nat.le_trans (List.length_filter_le _ _) (by decide)
  obtain ⟨g,hg,hname,hbelongs⟩ := aligned_of_loginGroupsOwn h hcan aliceRoot.dn aliceRoot.primarySid
    (.inl ⟨aliceRoot,hfound,rfl,rfl⟩) admins hreached
  have hunlisted : ∀ g∈staff.entries,¬(g.Has asciiSchema member alice.dn ∨
      g.Has asciiSchema uniqueMember alice.dn ∨
        ∃ u∈alice.values uid,g.Has asciiSchema memberUid u) := by decide
  have hchain : ∀ g,InChain asciiSchema staff.entries member alice.dn g → g∉staff.entries := by
    intro g hchain
    induction hchain with
    | direct hhas => exact fun hg => hunlisted _ hg (.inl hhas)
    | step hm _ _ ih => exact absurd hm ih
  obtain ⟨_,hlists⟩|⟨_,raw,hraw,_⟩|⟨_,hnested⟩ := hbelongs
  · exact hunlisted g hg hlists
  · have : alice.primarySid=none := by decide
    rw [this] at hraw
    cases hraw
  · exact hchain g hnested hg

end FastPki.Ldap
