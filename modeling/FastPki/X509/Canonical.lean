import FastPki.Framework.Ascii
import FastPki.X509.Name

namespace FastPki.X509

open Ascii

/-- `ossl_tolower`: ASCII alone, whatever the locale. -/
def osslToLower (c : UInt8) : UInt8 := if 0x41 ≤ c && c ≤ 0x5a then c+0x20 else c

/-- Blanks in a row become one, and letters small. -/
def collapse : Bool → Octets → Octets
  | _,[] => []
  | afterBlank,c::cs =>
    if isSpace c then (if afterBlank then collapse true cs else 0x20::collapse true cs)
    else osslToLower c::collapse false cs

/-- The canonical form of one value: UTF-8 without outer blanks. A value of another type is kept as
it is. -/
def canonString (s : Asn1String) : Option Asn1String :=
  if s.tag ∈ [StringTag.utf8,.bmp,.universal,.printable,.t61,.ia5,.visible] then
    (asn1StringToUtf8 s).map fun text =>
      ⟨.utf8,collapse false (strip isSpace text)⟩
  else some s

def canonName (n : Name) : Option Name :=
  n.mapM fun e => (canonString e.value).map fun v => { e with value := v }

/-- `X509_NAME_cmp(a, b) == 0`. -/
def nameCmp (a b : Name) : Bool := canonName a ≠ none ∧ canonName a = canonName b

theorem canonName_length {n m : Name} (h : canonName n=some m) : m.length=n.length := by
  rw [canonName] at h
  induction n generalizing m with
  | nil =>
    obtain rfl : []=m := by simpa using h
    rfl
  | cons e n ih =>
    rw [List.mapM_cons] at h
    obtain ⟨e',_,h⟩ := Option.bind_eq_some_iff.mp h
    obtain ⟨m',hm',h⟩ := Option.bind_eq_some_iff.mp h
    obtain rfl := Option.some.inj h
    rw [List.length_cons,List.length_cons,ih hm']

theorem nameCmp_iff {a b : Name} :
    nameCmp a b=true ↔ ∃ n,canonName a=some n ∧ canonName b=some n := by
  rw [nameCmp,decide_eq_true_eq]
  constructor
  · intro h
    obtain ⟨n,hn⟩ := Option.ne_none_iff_exists'.mp h.1
    exact ⟨n,hn,h.2.symm.trans hn⟩
  · intro h
    obtain ⟨n,ha,hb⟩ := h
    rw [ha,hb]
    simp

/-- Names that compare equal have as many entries. -/
theorem length_eq_of_nameCmp {a b : Name} (h : nameCmp a b=true) : a.length=b.length := by
  obtain ⟨n,ha,hb⟩ := nameCmp_iff.mp h
  rw [← canonName_length ha,canonName_length hb]

end FastPki.X509
