import FastPki.X509.Name

namespace FastPki.Auth
open X509

def backslash : UInt8 := 0x5c

/-- A local name stays bare, any other is qualified by where it comes from. -/
def qualifySubject (providerId user : Octets) : Octets :=
  if providerId = [] then user else providerId ++ backslash::user

/-- What stands before the first backslash; empty when there is none. -/
def subjectProvider (subject : Octets) : Octets :=
  if backslash ∈ subject then subject.takeWhile (· ≠ backslash) else []

def subjectUser (subject : Octets) : Octets :=
  if backslash ∈ subject then (subject.dropWhile (· ≠ backslash)).drop 1 else subject

/-- The qualifier of a client certificate that names no account of this server. -/
def dn : Octets := octets "dn"

/-- `lower()` of the database: it acts on the letters of a text, so that a backslash stays where
it is and comes from nothing else. -/
structure Collation where
  lower : Octets → Octets
  lower_split : ∀ a b,lower (a++backslash::b)=lower a++backslash::lower b
  lower_clear : ∀ a,backslash∉a → backslash∉lower a

def asciiLower (b : UInt8) : UInt8 := if 0x41 ≤ b ∧ b ≤ 0x5a then b+0x20 else b

/-- The collation "C". -/
def collationC : Collation where
  lower := List.map asciiLower
  lower_split a b := by
    rw [List.map_append,List.map_cons]
    rfl
  lower_clear a h hl := by
    obtain ⟨b,hb,hlow⟩ := List.mem_map.mp hl
    have hb' : b=backslash := by
      simp only [asciiLower] at hlow
      split_ifs at hlow with hup
      · simp only [UInt8.le_iff_toNat_le] at hup
        have := congrArg UInt8.toNat hlow
        simp [backslash] at this hup
        omega
      · exact hlow
    exact h (hb' ▸ hb)

/-- A row of `web_users` as the console reads it. -/
structure WebUser where
  username : Octets
  role : String
  hash : String
  mustReset : Bool
  deriving DecidableEq

/-- `WHERE lower(username)=lower($1)`; the name is bound as a C string. -/
def getWebUser (coll : Collation) (users : List WebUser) (name : Octets) : Option WebUser :=
  users.find? fun u => coll.lower u.username = coll.lower (cString name)

theorem getWebUser_eq_some {coll : Collation} {users : List WebUser} {name : Octets}
    {row : WebUser} (h : getWebUser coll users name=some row) :
    coll.lower row.username=coll.lower (cString name) := by
  have := List.find?_some h
  simpa using this

theorem subjectProvider_split {a b : Octets} (ha : backslash∉a) :
    subjectProvider (a++backslash::b)=a := by
  rw [subjectProvider,if_pos (by simp),List.takeWhile_append_of_pos]
  · simp
  · intro z hz
    simpa using fun heq : z=backslash => ha (heq ▸ hz)

theorem append_backslash_inj {a b c d : Octets} (ha : backslash∉a) (hc : backslash∉c)
    (h : a++backslash::b=c++backslash::d) : a=c ∧ b=d := by
  have hac : a=c := by
    rw [← subjectProvider_split ha,h,subjectProvider_split hc]
  subst hac
  exact ⟨rfl,List.cons.inj (List.append_cancel_left h) |>.2⟩

/-- Two texts that agree but for letter case agree before and after the first backslash. -/
theorem Collation.lower_inj_split (coll : Collation) {a b c d : Octets} (ha : backslash∉a)
    (hc : backslash∉c) (h : coll.lower (a++backslash::b)=coll.lower (c++backslash::d)) :
    coll.lower a=coll.lower c ∧ coll.lower b=coll.lower d := by
  rw [coll.lower_split,coll.lower_split] at h
  exact append_backslash_inj (coll.lower_clear a ha) (coll.lower_clear c hc) h

theorem exists_split {s : Octets} (h : backslash∈s) :
    ∃ a b,s=a++backslash::b ∧ backslash∉a := by
  obtain ⟨a,b,rfl,ha⟩ := List.eq_append_cons_of_mem h
  exact ⟨a,b,rfl,ha⟩

end FastPki.Auth
