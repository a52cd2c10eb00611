import FastPki.Framework.Utf8
import Mathlib.Data.List.TakeWhile
import Mathlib.Tactic.Common

namespace FastPki.X509

/-- A `std::string` that came out of DER is a string of octets, not of characters. -/
abbrev Octets := List UInt8

def octets (s : String) : Octets := s.toUTF8.data.toList

/-- Octets inside a text, one character each. -/
def asText (o : Octets) : String := String.ofList (o.map fun c => Char.ofNat c.toNat)

theorem octets_asText {o : Octets} (h : ∀ c∈o,c<0x80) : octets (asText o)=o := by
  have hbytes : octets (asText o)=o.flatMap fun c => String.utf8EncodeChar (Char.ofNat c.toNat) := by
    simp [octets,asText,List.utf8Encode,List.flatMap_map]
  rw [hbytes]
  clear hbytes
  induction o with
  | nil => rfl
  | cons c o ih =>
    obtain ⟨hc,ho⟩ := List.forall_mem_cons.mp h
    rw [List.flatMap_cons,utf8EncodeChar_ascii hc,ih ho]
    rfl

/-- What a C string of these octets reads as. -/
def cString (o : Octets) : Octets := o.takeWhile (· ≠ 0)

theorem cString_eq_self_iff {o : Octets} : cString o=o ↔ 0∉o := by
  rw [cString,List.takeWhile_eq_self_iff]
  constructor
  · intro h hzero
    simpa using h 0 hzero
  · intro h x hx
    simpa using ne_of_mem_of_not_mem hx h

theorem zero_notMem_cString (o : Octets) : 0∉cString o := by
  intro h
  simpa using List.mem_takeWhile_imp h

theorem cString_append_of_mem {s : Octets} (h : 0∈s) (t : Octets) : cString (s++t)=cString s := by
  induction s with
  | nil => cases h
  | cons c s ih =>
    by_cases hc : c=0
    · simp [cString,hc]
    · have hs : 0∈s := (List.mem_cons.mp h).resolve_left (Ne.symm hc)
      have hrest := ih hs
      simpa [cString,hc] using hrest

theorem cString_append_of_notMem {s : Octets} (h : 0∉s) (t : Octets) :
    cString (s++t)=s++cString t := by
  apply List.takeWhile_append_of_pos
  intro c hc
  simpa using ne_of_mem_of_not_mem hc h

inductive StringTag where
  | utf8 | numeric | printable | t61 | ia5 | visible | bmp | universal | other
  deriving DecidableEq

structure Asn1String where
  tag : StringTag
  data : Octets
  deriving DecidableEq

def utf8OfCode (n : Nat) : Option Octets :=
  if n.isValidChar then some (String.utf8EncodeChar (Char.ofNat n)) else none

/-- Two octets a character, most significant first; an odd length is an error. -/
def bmpToUtf8 : Octets → Option Octets
  | [] => some []
  | a::b::rest => do
    let c ← utf8OfCode (a.toNat*256+b.toNat)
    let cs ← bmpToUtf8 rest
    return c++cs
  | _ => none

def universalToUtf8 : Octets → Option Octets
  | [] => some []
  | a::b::c::d::rest => do
    let e ← utf8OfCode (((a.toNat*256+b.toNat)*256+c.toNat)*256+d.toNat)
    let es ← universalToUtf8 rest
    return e++es
  | _ => none

/-- `ASN1_STRING_to_UTF8`; `none` is its negative return. The one-octet types are read as
Latin-1. -/
def asn1StringToUtf8 (s : Asn1String) : Option Octets :=
  match s.tag with
  | .utf8 => if (ByteArray.utf8Decode? ⟨⟨s.data⟩⟩).isSome then some s.data else none
  | .numeric | .printable | .t61 | .ia5 | .visible =>
    some (s.data.flatMap fun b => String.utf8EncodeChar (Char.ofNat b.toNat))
  | .bmp => bmpToUtf8 s.data
  | .universal => universalToUtf8 s.data
  | .other => none

structure NameEntry where
  nid : String
  value : Asn1String
  deriving DecidableEq

/-- The entries of an X.509 name in the order of its encoding. -/
abbrev Name := List NameEntry

def commonName : String := "2.5.4.3"

/-- Every commonName value, in order: a name may hold any number of them. -/
def commonNames (n : Name) : List Asn1String :=
  (n.filter (·.nid = commonName)).map (·.value)

/-- `X509_NAME_get_text_by_NID(n, NID_commonName, buf, len)`: the octets of the first
commonName, whatever its type, cut to the buffer. -/
def getTextByCn (n : Name) (len : Nat) : Option Octets :=
  (commonNames n).head?.map fun v => v.data.take (len-1)

/-- `name_cn`: the first commonName as text, empty when there is none or it does not decode. -/
def nameCn (n : Name) : Octets :=
  ((commonNames n).head?.bind asn1StringToUtf8).getD []

end FastPki.X509
