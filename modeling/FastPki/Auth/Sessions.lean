import FastPki.Framework.Table
import FastPki.Framework.Utf8
import FastPki.X509.Name

namespace FastPki.Auth.Sessions

open X509

def newline : UInt8 := 0x0a

/-- A row of `web_sessions`. -/
structure SessionRow where
  tokenHash : Octets
  username : Octets
  role : Octets
  groups : Octets
  mustReset : Bool
  expires : Int
  lastSeen : Int
  method : Octets
  certSerial : Octets
  created : Int
  deriving DecidableEq

structure Sess where
  user : Octets
  role : Octets
  mustReset : Bool
  expires : Int
  groups : List Octets
  method : Octets
  certSerial : Octets
  created : Int

def joinGroups (g : List Octets) : Octets := [newline].intercalate g

def splitGroups (s : Octets) : List Octets := if s = [] then [] else s.splitOn newline

/-- A text parameter of a statement: a C string, and UTF-8 or else the statement fails. -/
def textParam (s : Octets) : Option Octets :=
  if validUtf8 (cString s) then some (cString s) else none

/-- `none` is the exception of a statement that failed. -/
def sessionPut (rows : List SessionRow) (s : SessionRow) : Option (List SessionRow) := do
  let tokenHash ← textParam s.tokenHash
  let username ← textParam s.username
  let role ← textParam s.role
  let groups ← textParam s.groups
  let method ← textParam s.method
  let certSerial ← textParam s.certSerial
  return upsert SessionRow.tokenHash { s with
    tokenHash, username, role, groups, method, certSerial } rows

def kTouchEvery : Int := 60

section Store

-- `hash` is what is kept of a token, `idle` the idle timeout
variable (hash : Octets → Octets) (idle : Int)

/-- What a sign-in gives the session besides its groups. -/
structure SignIn where
  user : Octets
  role : Octets
  mustReset : Bool
  ttl : Int
  method : Octets
  certSerial : Octets

/-- `tok` is the random token and `now` the time of the call. -/
def create (rows : List SessionRow) (tok : Octets) (now : Int) (a : SignIn) (groups : List Octets) :
    Option (List SessionRow) :=
  sessionPut rows ⟨hash tok,a.user,a.role,joinGroups groups,a.mustReset,now+a.ttl,now,a.method,
    a.certSerial,now⟩

def get (rows : List SessionRow) (tok : Octets) (now : Int) : Option Sess × List SessionRow :=
  let key := cString (hash tok)
  if tok = [] then (none,rows)
  else match lookup SessionRow.tokenHash key rows with
    | none => (none,rows)
    | some row =>
      if row.expires < now ∨ row.lastSeen+idle < now then
        (none,remove SessionRow.tokenHash key rows)
      else
        (some ⟨row.username,row.role,row.mustReset,row.expires,splitGroups row.groups,row.method,
          row.certSerial,row.created⟩,
        if now-row.lastSeen ≥ kTouchEvery then
          rows.map fun r => if r.tokenHash = key then { r with lastSeen := now } else r
        else rows)

end Store

/-- The selectors that `roles_of` asks the database for. -/
def selectorsOf (s : Sess) : List (Octets × Octets) :=
  (if s.user ≠ [] ∧ s.user ≠ octets "anonymous" then [(octets "user",s.user)] else [])++
    s.groups.map ((octets "group",·))

/-- However it is created and read, the session has these groups, and no group selector is for
another name. -/
def KeepsGroups (groups : List Octets) : Prop :=
  ∀ (hash : Octets → Octets) (idle : Int) (rows stored : List SessionRow) (tok : Octets)
    (now later : Int) (a : SignIn) (s : Sess),
    create hash rows tok now a groups=some stored → (get hash idle stored tok later).1=some s →
      s.groups=groups ∧ ∀ g,(octets "group",g)∈selectorsOf s → g∈groups

/-- Names without the separator and without NUL, other than one empty name alone. -/
def Plain (groups : List Octets) : Prop :=
  (∀ g∈groups,newline∉g ∧ 0∉g) ∧ groups≠[[]]

section RoundTrip

variable {groups : List Octets}

theorem joinGroups_eq_nil : joinGroups groups=[] ↔ groups=[] ∨ groups=[[]] := by
  cases groups with
  | nil => simp [joinGroups]
  | cons g gs =>
    cases gs with
    | nil => simp [joinGroups]
    | cons h gs => simp [joinGroups,List.intercalate_cons_cons]

theorem mem_joinGroups {c : UInt8} (hc : c∈joinGroups groups) :
    c=newline ∨ ∃ g∈groups,c∈g := by
  induction groups with
  | nil => cases hc
  | cons g gs ih =>
    cases gs with
    | nil => exact Or.inr ⟨g,List.mem_cons_self,by simpa [joinGroups] using hc⟩
    | cons h gs =>
      rw [joinGroups,List.intercalate_cons_cons,List.mem_append,List.mem_append,
        List.mem_singleton] at hc
      rcases hc with (hc|hc)|hc
      · exact Or.inr ⟨g,List.mem_cons_self,hc⟩
      · exact Or.inl hc
      · rcases ih hc with hc|⟨x,hx,hc⟩
        · exact Or.inl hc
        · exact Or.inr ⟨x,List.mem_cons_of_mem _ hx,hc⟩

/-- A piece has octets of the whole, and the separator is none of them. -/
theorem mem_piece {s g : Octets} (hg : g∈s.splitOn newline) : ∀ c∈g,c∈s ∧ c≠newline := by
  induction s generalizing g with
  | nil =>
    rw [List.splitOn_nil,List.mem_singleton] at hg
    rw [hg]
    intro c hc
    cases hc
  | cons d s ih =>
    have hrest {x : Octets} (hx : x∈s.splitOn newline) : ∀ c∈x,c∈d::s ∧ c≠newline :=
      fun c hc => ⟨List.mem_cons_of_mem _ (ih hx c hc).1,(ih hx c hc).2⟩
    rw [List.splitOn_cons_eq_if_modifyHead] at hg
    split_ifs at hg with hd
    · rcases List.mem_cons.mp hg with rfl|hg
      · intro c hc
        cases hc
      · exact hrest hg
    · cases hsplit : s.splitOn newline with
      | nil => exact absurd hsplit (List.splitOn_ne_nil _ _)
      | cons x xs =>
        rw [hsplit,List.modifyHead_cons] at hg
        rw [hsplit] at hrest
        rcases List.mem_cons.mp hg with rfl|hg
        · intro c hc
          rcases List.mem_cons.mp hc with rfl|hc
          · exact ⟨List.mem_cons_self,by simpa using hd⟩
          · exact hrest List.mem_cons_self c hc
        · exact hrest (List.mem_cons_of_mem _ hg)

/-- The list comes back when its names are plain, and then alone. -/
theorem splitGroups_stored_iff :
    splitGroups (cString (joinGroups groups))=groups ↔ Plain groups := by
  constructor
  · intro h
    refine ⟨fun g hg => ?_,?_⟩
    · rw [← h,splitGroups] at hg
      split_ifs at hg with hnil
      · cases hg
      · refine ⟨fun hc => (mem_piece hg newline hc).2 rfl,fun hc => ?_⟩
        exact zero_notMem_cString _ (mem_piece hg 0 hc).1
    · rintro rfl
      exact absurd h (by decide)
  · rintro ⟨hplain,hne⟩
    have hzero : 0∉joinGroups groups := by
      intro hmem
      rcases mem_joinGroups hmem with hc|⟨g,hg,hc⟩
      · exact absurd hc (by decide)
      · exact (hplain g hg).2 hc
    rw [cString_eq_self_iff.mpr hzero,splitGroups]
    split_ifs with hnil
    · rcases joinGroups_eq_nil.mp hnil with h|h
      · exact h.symm
      · exact absurd h hne
    · have hne' : groups≠[] := fun h => hnil (joinGroups_eq_nil.mpr (Or.inl h))
      exact List.splitOn_intercalate newline (fun g hg => (hplain g hg).1) hne'

end RoundTrip

section Session

variable {hash : Octets → Octets} {idle now later : Int} {rows stored : List SessionRow}
  {tok : Octets} {a : SignIn} {groups : List Octets} {s : Sess}

/-- What the database holds for the token after a sign-in. -/
theorem lookup_create (h : create hash rows tok now a groups=some stored) :
    ∃ row,lookup SessionRow.tokenHash (cString (hash tok)) stored=some row ∧
      row.username=cString a.user ∧ row.role=cString a.role ∧
      row.groups=cString (joinGroups groups) ∧ row.expires=now+a.ttl ∧ row.lastSeen=now := by
  simp only [create,sessionPut,textParam,Option.bind_eq_bind,Option.bind_eq_some_iff] at h
  obtain ⟨key,hkey,user,huser,role,hrole,text,htext,method,-,serial,-,hrow⟩ := h
  split_ifs at hkey huser hrole htext
  obtain rfl := Option.some.inj hkey
  obtain rfl := Option.some.inj huser
  obtain rfl := Option.some.inj hrole
  obtain rfl := Option.some.inj htext
  let row : SessionRow := ⟨cString (hash tok),cString a.user,cString a.role,
    cString (joinGroups groups),a.mustReset,now+a.ttl,now,method,serial,now⟩
  have hself : lookup SessionRow.tokenHash row.tokenHash (upsert SessionRow.tokenHash row rows)=
      some row := lookup_upsert_self row rows
  refine ⟨row,?_,rfl,rfl,rfl,rfl,rfl⟩
  rw [← Option.some.inj hrow]
  exact hself

/-- A session is read with the name and the role it was created with; its groups are what the
stored text splits into. -/
theorem get_create (hstored : create hash rows tok now a groups=some stored)
    (hget : (get hash idle stored tok later).1=some s) :
    s.user=cString a.user ∧ s.role=cString a.role ∧
      s.groups=splitGroups (cString (joinGroups groups)) := by
  obtain ⟨row,hlook,huser,hrole,hgroups,-⟩ := lookup_create hstored
  simp only [get,hlook] at hget
  split_ifs at hget
  all_goals
    obtain rfl := Option.some.inj hget
    exact ⟨huser,hrole,congrArg splitGroups hgroups⟩

theorem groups_of_create (hstored : create hash rows tok now a groups=some stored)
    (hget : (get hash idle stored tok later).1=some s) :
    s.groups=splitGroups (cString (joinGroups groups)) := (get_create hstored hget).2.2

theorem mem_selectorsOf {g : Octets} : (octets "group",g)∈selectorsOf s ↔ g∈s.groups := by
  have hkind : octets "group"≠octets "user" := by decide
  rw [selectorsOf,List.mem_append]
  constructor
  · rintro (h|h)
    · split_ifs at h
      · rw [List.mem_singleton] at h
        exact absurd (congrArg Prod.fst h) hkind
      · cases h
    · obtain ⟨x,hx,heq⟩ := List.mem_map.mp h
      obtain rfl : x=g := congrArg Prod.snd heq
      exact hx
  · intro h
    exact Or.inr (List.mem_map_of_mem h)

/-- A sign-in whose every field is plain. -/
def someSignIn : SignIn := ⟨octets "alice",octets "none",false,3600,octets "sso",[]⟩

/-- Where the text can be stored there is a session to be read. -/
theorem exists_session (h : validUtf8 (cString (joinGroups groups))=true) :
    ∃ stored s,create id [] (octets "t") 0 someSignIn groups=some stored ∧
      (get id 900 stored (octets "t") 0).1=some s := by
  have htok : validUtf8 (cString (octets "t"))=true := by decide
  have huser : validUtf8 (cString (octets "alice"))=true := by decide
  have hrole : validUtf8 (cString (octets "none"))=true := by decide
  have hmethod : validUtf8 (cString (octets "sso"))=true := by decide
  have hserial : validUtf8 (cString [])=true := by decide
  have hcreate : ∃ stored,create id [] (octets "t") 0 someSignIn groups=some stored := by
    simp [create,sessionPut,textParam,someSignIn,h,htok,huser,hrole,hmethod,hserial]
  obtain ⟨stored,hstored⟩ := hcreate
  obtain ⟨row,hlook,-,-,-,hexp,hseen⟩ := lookup_create hstored
  have hlive : ¬(row.expires<0 ∨ row.lastSeen+900<0) := by
    rw [hexp,hseen]
    decide
  have hne : octets "t"≠[] := by decide
  refine ⟨stored,⟨row.username,row.role,row.mustReset,row.expires,splitGroups row.groups,row.method,
    row.certSerial,row.created⟩,hstored,?_⟩
  simp only [get,hlook,if_neg hne,if_neg hlive]

end Session

/-- A session is judged by the groups it signed in with as long as no name holds what the stored
text is split or ended at. -/
theorem session_groups_kept_iff (groups : List Octets) :
    KeepsGroups groups ↔ validUtf8 (cString (joinGroups groups))=false ∨ Plain groups := by
  rw [← splitGroups_stored_iff]
  constructor
  · intro h
    cases htext : validUtf8 (cString (joinGroups groups)) with
    | false => exact Or.inl rfl
    | true =>
      obtain ⟨stored,s,hstored,hget⟩ := exists_session htext
      rw [← groups_of_create hstored hget]
      exact Or.inr (h _ _ _ _ _ _ _ _ _ hstored hget).1
  · rintro h hash idle rows stored tok now later a s hstored hget
    have hsplit := groups_of_create hstored hget
    rcases h with h|h
    · simp only [create,sessionPut,textParam,Option.bind_eq_bind,Option.bind_eq_some_iff] at hstored
      obtain ⟨_,_,_,_,_,_,_,htext,_⟩ := hstored
      rw [if_neg (by simp [h])] at htext
      cases htext
    · rw [h] at hsplit
      refine ⟨hsplit,fun g hg => ?_⟩
      rwa [mem_selectorsOf,hsplit] at hg

/-- One group of a provider, whose name ends as the group of another. -/
def smuggled : List Octets := [octets "corp\\x\nldap\\admins"]

theorem group_name_splits_in_two :
    splitGroups (cString (joinGroups smuggled))=[octets "corp\\x",octets "ldap\\admins"] ∧
    ¬octets "ldap\\admins"∈smuggled ∧ ¬KeepsGroups smuggled := by
  have hsplit : splitGroups (cString (joinGroups smuggled))=
      [octets "corp\\x",octets "ldap\\admins"] := by decide
  refine ⟨hsplit,by decide,fun h => ?_⟩
  have htext : validUtf8 (cString (joinGroups smuggled))=true := by decide
  obtain ⟨stored,s,hstored,hget⟩ := exists_session htext
  have hgroups := groups_of_create hstored hget
  rw [(h _ _ _ _ _ _ _ _ _ hstored hget).1,hsplit] at hgroups
  exact absurd hgroups (by decide)

end FastPki.Auth.Sessions
