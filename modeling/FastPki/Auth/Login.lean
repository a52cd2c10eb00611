import FastPki.Auth.Providers

namespace FastPki.Auth
open X509

def atSign : UInt8 := 0x40

def lowerText (s : Octets) : Octets := s.map asciiLower

def asciiUpper (b : UInt8) : UInt8 := if 0x61 ≤ b ∧ b ≤ 0x7a then b-0x20 else b

/-- Windows forms the realm by upper-casing the DNS root; it is never stored. -/
def Provider.realm (p : Provider) : Octets := p.dnsRoot.map asciiUpper

/-- The names under which a directory is reached, with the case folded away. -/
def Provider.answersTo (p : Provider) (want : Octets) : Bool :=
  lowerText p.id = want ∨ lowerText p.displayName = want ∨
    (p.netbiosName ≠ [] ∧ lowerText p.netbiosName = want) ∨
    (p.dnsRoot ≠ [] ∧ (lowerText p.dnsRoot = want ∨ lowerText p.realm = want))

/-- The id of the first directory, in the order they are listed, that answers to the domain as it
was typed; empty when none does. -/
def resolveDomain (providers : List Provider) (domain : Octets) : Octets :=
  ((providers.find? (·.answersTo (lowerText domain))).map (·.id)).getD []

structure QualifiedLogin where
  provider : Octets
  user : Octets
  deriving DecidableEq

def beforeFirst (c : UInt8) (s : Octets) : Octets := s.takeWhile (· ≠ c)
def afterFirst (c : UInt8) (s : Octets) : Octets := (s.dropWhile (· ≠ c)).drop 1
def afterLast (c : UInt8) (s : Octets) : Octets := (s.reverse.takeWhile (· ≠ c)).reverse
def beforeLast (c : UInt8) (s : Octets) : Octets := ((s.reverse.dropWhile (· ≠ c)).drop 1).reverse

/-- `DOMAIN\user` is refused where the domain is unknown, with both parts empty; `user@domain` is a
plain name then. -/
def splitQualifiedLogin (login : Octets) (providers : List Provider) : QualifiedLogin :=
  if backslash ∈ login then
    let domain := beforeFirst backslash login
    let user := afterFirst backslash login
    if domain = [] ∨ user = [] then ⟨[],[]⟩
    else
      let id := resolveDomain providers domain
      if id = [] then ⟨[],[]⟩ else ⟨id,user⟩
  else if atSign ∈ login ∧ afterLast atSign login ≠ [] ∧
      resolveDomain providers (afterLast atSign login) ≠ [] then
    ⟨resolveDomain providers (afterLast atSign login),beforeLast atSign login⟩
  else ⟨[],login⟩

section Parts

variable {c : UInt8} {a b : Octets}

theorem takeWhile_ne_append (ha : c∉a) : (a++c::b).takeWhile (· ≠ c)=a := by
  rw [List.takeWhile_append_of_pos]
  · simp
  · intro x hx
    simpa using ne_of_mem_of_not_mem hx ha

theorem dropWhile_ne_append (ha : c∉a) : (a++c::b).dropWhile (· ≠ c)=c::b := by
  rw [List.dropWhile_append_of_pos]
  · simp
  · intro x hx
    simpa using ne_of_mem_of_not_mem hx ha

theorem beforeFirst_append (ha : c∉a) : beforeFirst c (a++c::b)=a := takeWhile_ne_append ha

theorem afterFirst_append (ha : c∉a) : afterFirst c (a++c::b)=b := by
  rw [afterFirst,dropWhile_ne_append ha]
  rfl

theorem afterLast_append (hb : c∉b) : afterLast c (a++c::b)=b := by
  have hrev : (a++c::b).reverse=b.reverse++c::a.reverse := by simp
  rw [afterLast,hrev,takeWhile_ne_append (by simpa using hb),List.reverse_reverse]

theorem beforeLast_append (hb : c∉b) : beforeLast c (a++c::b)=a := by
  have hrev : (a++c::b).reverse=b.reverse++c::a.reverse := by simp
  rw [beforeLast,hrev,dropWhile_ne_append (by simpa using hb)]
  simp

/-- A text around the first occurrence of an octet, and around the last one. -/
theorem split_first {s : Octets} (h : c∈s) :
    s=beforeFirst c s++c::afterFirst c s ∧ c∉beforeFirst c s := by
  obtain ⟨a,b,rfl,ha⟩ := List.eq_append_cons_of_mem h
  rw [beforeFirst_append ha,afterFirst_append ha]
  exact ⟨rfl,ha⟩

theorem split_last {s : Octets} (h : c∈s) :
    s=beforeLast c s++c::afterLast c s ∧ c∉afterLast c s := by
  obtain ⟨a,b,hs,ha⟩ := List.eq_append_cons_of_mem (List.mem_reverse.mpr h)
  have hs' : s=b.reverse++c::a.reverse := by
    rw [← List.reverse_reverse s,hs]
    simp
  have ha' : c∉a.reverse := by simpa using ha
  rw [hs',beforeLast_append ha',afterLast_append ha']
  exact ⟨rfl,ha'⟩

end Parts

theorem answersTo_id (p : Provider) : p.answersTo (lowerText p.id)=true := by
  simp [Provider.answersTo]

/-- Nobody listed before a directory answers to its id. -/
def Unshadowed (providers : List Provider) (p : Provider) : Prop :=
  ∀ q∈providers.takeWhile (·.id ≠ p.id),q.answersTo (lowerText p.id)=false

/-- A name that names no directory. -/
def PlainName (providers : List Provider) (u : Octets) : Prop :=
  backslash∉u ∧ (atSign∈u → afterLast atSign u≠[] →
    resolveDomain providers (afterLast atSign u)=[])

theorem resolveDomain_id_iff {providers : List Provider} (hids : (providers.map (·.id)).Nodup)
    {p : Provider} (hp : p∈providers) :
    resolveDomain providers p.id=p.id ↔ Unshadowed providers p := by
  obtain ⟨earlier,later,rfl⟩ := List.append_of_mem hp
  have hearlier : ∀ q∈earlier,q.id≠p.id := by
    intro q hq heq
    rw [List.map_append,List.nodup_append] at hids
    exact hids.2.2 q.id (List.mem_map_of_mem hq) p.id (by simp) heq
  have htake : (earlier++p::later).takeWhile (·.id ≠ p.id)=earlier := by
    rw [List.takeWhile_append_of_pos]
    · simp
    · intro q hq
      simpa using hearlier q hq
  rw [Unshadowed,htake,resolveDomain,List.find?_append]
  cases hfind : earlier.find? (·.answersTo (lowerText p.id)) with
  | none =>
    have hnone : ∀ q∈earlier,q.answersTo (lowerText p.id)=false := by simpa using hfind
    refine iff_of_true ?_ hnone
    simp [answersTo_id]
  | some q =>
    have hq := List.mem_of_find?_eq_some hfind
    have hyes : q.answersTo (lowerText p.id)=true := by simpa using List.find?_some hfind
    have hno : ¬∀ q∈earlier,q.answersTo (lowerText p.id)=false := by
      intro hall
      rw [hall q hq] at hyes
      cases hyes
    simp [hno,hearlier q hq]

theorem splitQualifiedLogin_backslash {providers : List Provider} {domain user : Octets}
    (hdomain : backslash∉domain) :
    splitQualifiedLogin (domain++backslash::user) providers=
      if domain=[] ∨ user=[] ∨ resolveDomain providers domain=[] then ⟨[],[]⟩
      else ⟨resolveDomain providers domain,user⟩ := by
  rw [splitQualifiedLogin,if_pos (by simp)]
  simp only [beforeFirst_append hdomain,afterFirst_append hdomain]
  by_cases hempty : domain=[] ∨ user=[]
  · rw [if_pos hempty,if_pos (by tauto)]
  · rw [if_neg hempty]
    by_cases hid : resolveDomain providers domain=[]
    · rw [if_pos hid,if_pos (by tauto)]
    · rw [if_neg hid,if_neg (by tauto)]

theorem splitQualifiedLogin_plain_iff {providers : List Provider} {u : Octets} (hu : u≠[]) :
    splitQualifiedLogin u providers=⟨[],u⟩ ↔ PlainName providers u := by
  by_cases hb : backslash∈u
  · obtain ⟨hsplit,hdomain⟩ := split_first hb
    have hnot : ¬PlainName providers u := fun h => h.1 hb
    rw [hsplit,splitQualifiedLogin_backslash hdomain,← hsplit]
    split_ifs with hrefused
    · simpa [hnot] using hu.symm
    · have hid : resolveDomain providers (beforeFirst backslash u)≠[] := by tauto
      simp [hnot,hid]
  · rw [splitQualifiedLogin,if_neg hb,PlainName]
    split_ifs with hat
    · simp [hat]
    · have hyes : atSign∈u → afterLast atSign u≠[] →
          resolveDomain providers (afterLast atSign u)=[] := by tauto
      exact iff_of_true rfl ⟨hb,hyes⟩

/-- A subject that was qualified by a directory is read back as one of that directory exactly when
the id can stand before a backslash and nobody listed before answers to it. -/
theorem split_qualify_iff (providers : List Provider) (hids : (providers.map (·.id)).Nodup)
    (p : Provider) (hp : p∈providers) (u : Octets) (hu : u≠[]) :
    splitQualifiedLogin (qualifySubject p.id u) providers=⟨p.id,u⟩ ↔
      (p.id≠[] ∧ backslash∉p.id ∧ Unshadowed providers p) ∨
        (p.id=[] ∧ PlainName providers u) := by
  by_cases hid : p.id=[]
  · simp only [qualifySubject,hid,if_pos]
    rw [splitQualifiedLogin_plain_iff hu]
    simp
  · rw [qualifySubject,if_neg hid]
    by_cases hb : backslash∈p.id
    · -- the id is cut at its own backslash, and the rest of it is read as part of the user
      obtain ⟨hsplit,hdomain⟩ := split_first hb
      have hlonger : afterFirst backslash p.id++backslash::u≠u := by
        intro heq
        have := congrArg List.length heq
        simp at this
        omega
      have htext : p.id++backslash::u=
          beforeFirst backslash p.id++backslash::(afterFirst backslash p.id++backslash::u) := by
        nth_rewrite 1 [hsplit]
        simp
      rw [htext,splitQualifiedLogin_backslash hdomain]
      split_ifs
      · simp [hid,hb,hu.symm]
      · simp [hid,hb,hlonger]
    · rw [splitQualifiedLogin_backslash hb]
      simp only [hid,hu,hb,false_or,not_false_eq_true,ne_eq,true_and,false_and,or_false]
      rw [← resolveDomain_id_iff hids hp]
      split_ifs with hnone
      · rw [hnone]
        simp [hu.symm,Ne.symm hid]
      · simp

def contoso : Provider := ⟨octets "contoso",.ldap,octets "Contoso",octets "CORP",octets "corp.contoso.com"⟩
def corp : Provider := ⟨octets "corp",.ldap,octets "corp",[],[]⟩

theorem split_qualify_contoso :
    ([contoso,corp].map (·.id)).Nodup ∧ contoso∈[contoso,corp] ∧ octets "alice"≠[] ∧
    splitQualifiedLogin (qualifySubject contoso.id (octets "alice")) [contoso,corp]=
      ⟨octets "contoso",octets "alice"⟩ := by
  have hids : ([contoso,corp].map (·.id)).Nodup := by decide
  have hunshadowed : Unshadowed [contoso,corp] contoso := by
    intro q hq
    cases hq
  refine ⟨hids,by simp,by decide,?_⟩
  exact (split_qualify_iff _ hids contoso (by simp) _ (by decide)).mpr
    (Or.inl ⟨by decide,by decide,hunshadowed⟩)

/-- The NetBIOS name of the first directory is the id of the second, whose subjects are read as the
first one's. -/
theorem split_qualify_shadowed :
    ([contoso,corp].map (·.id)).Nodup ∧ corp∈[contoso,corp] ∧ octets "alice"≠[] ∧
    splitQualifiedLogin (qualifySubject corp.id (octets "alice")) [contoso,corp]=
      ⟨octets "contoso",octets "alice"⟩ ∧ contoso.id≠corp.id := by
  decide

end FastPki.Auth
