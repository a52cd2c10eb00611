import FastPki.Auth.Subject
import FastPki.Framework.Hex

namespace FastPki.Ldap
open X509 Auth

/-- An octet of an assertion value as `\XX`. -/
def hexByte (c : UInt8) : Octets := [backslash,Hex.digit (c.toNat/16),Hex.digit (c.toNat%16)]

/-- RFC 4515: only what means something in a filter is written as its code. -/
def filterEscape (s : Octets) : Octets :=
  s.flatMap fun c => if c ∈ octets "*()\\\x00" then hexByte c else [c]

/-- The value a server reads from the text of an assertion; `none` is a bad filter. -/
def filterValue : Octets → Option Octets
  | [] => some []
  | c::h::l::rest =>
    if c = backslash then do
      let high ← Hex.value h
      let low ← Hex.value l
      let value ← filterValue rest
      return UInt8.ofNat (high*16+low)::value
    else (filterValue (h::l::rest)).map (c::·)
  | c::rest => if c = backslash then none else (filterValue rest).map (c::·)

theorem filterValue_plain {c : UInt8} (hc : c≠backslash) (rest : Octets) :
    filterValue (c::rest)=(filterValue rest).map (c::·) := by
  match rest with
  | [] => simp [filterValue,hc]
  | [_] => simp [filterValue,hc]
  | h::l::rest => rw [filterValue,if_neg hc]

theorem filterValue_hexByte (c : UInt8) (rest : Octets) :
    filterValue (hexByte c++rest)=(filterValue rest).map (c::·) := by
  have hc : c.toNat<256 := c.toNat_lt
  have hval : c.toNat/16*16+c.toNat%16=c.toNat := by omega
  show filterValue (backslash::_::_::rest)=_
  rw [filterValue,if_pos rfl,Hex.value_digit (by omega),Hex.value_digit (by omega)]
  cases filterValue rest with
  | none => rfl
  | some value =>
    show some (UInt8.ofNat _::value)=some (c::value)
    rw [hval,UInt8.ofNat_toNat]

/-- Whatever the user typed, the server compares with exactly that. -/
theorem filterValue_filterEscape (s : Octets) : filterValue (filterEscape s)=some s := by
  induction s with
  | nil => rfl
  | cons c s ih =>
    rw [filterEscape,List.flatMap_cons,← filterEscape]
    split_ifs with hc
    · rw [filterValue_hexByte,ih]
      rfl
    · have hne : c≠backslash := fun heq => hc (heq ▸ by decide)
      rw [List.singleton_append,filterValue_plain hne,ih]
      rfl

theorem filterValue_hexBytes (s : Octets) : filterValue (s.flatMap hexByte)=some s := by
  induction s with
  | nil => rfl
  | cons c s ih =>
    rw [List.flatMap_cons,filterValue_hexByte,ih]
    rfl

structure Entry where
  dn : Octets
  attrs : List (Octets × List Octets)
  password : Option Octets
  deriving DecidableEq

/-- Attribute names are compared without regard to letter case. -/
def Entry.values (e : Entry) (attr : Octets) : List Octets :=
  ((e.attrs.find? fun a => a.1.map asciiLower = attr.map asciiLower).map (·.2)).getD []

/-- How a server compares. Two values of an attribute match when their normal forms are the same;
`configured` is what it makes of a filter text out of the configuration. -/
structure Schema where
  norm : Octets → Octets → Octets
  normDn : Octets → Octets
  under : Octets → Octets → Bool
  configured : Octets → Entry → Bool

section

variable (sch : Schema)

def Entry.Has (e : Entry) (attr value : Octets) : Prop :=
  ∃ v∈e.values attr,sch.norm attr v=sch.norm attr value

instance (e : Entry) (attr value : Octets) : Decidable (e.Has sch attr value) :=
  inferInstanceAs (Decidable (∃ v∈e.values attr,sch.norm attr v=sch.norm attr value))

/-- LDAP_MATCHING_RULE_IN_CHAIN: the value stands in the attribute of the entry, or in that of an
entry the attribute leads to. -/
inductive InChain (entries : List Entry) (attr value : Octets) : Entry → Prop where
  | direct {e} : e.Has sch attr value → InChain entries attr value e
  | step {m e} : m∈entries → InChain entries attr value m → e.Has sch attr m.dn →
    InChain entries attr value e

inductive Filter where
  | configured (text : Octets)
  | equality (attr text : Octets)
  | inChain (attr text : Octets)
  | and (f g : Filter)
  | or (f g : Filter)
  deriving DecidableEq

def Filter.Matches (entries : List Entry) (e : Entry) : Filter → Prop
  | .configured text => sch.configured text e
  | .equality attr text => ∃ v,filterValue text=some v ∧ e.Has sch attr v
  | .inChain attr text => ∃ v,filterValue text=some v ∧ InChain sch entries attr v e
  | .and f g => f.Matches entries e ∧ g.Matches entries e
  | .or f g => f.Matches entries e ∨ g.Matches entries e

theorem matches_equality_filterEscape {entries : List Entry} {e : Entry} {attr value : Octets} :
    (Filter.equality attr (filterEscape value)).Matches sch entries e ↔ e.Has sch attr value := by
  simp only [Filter.Matches,filterValue_filterEscape,Option.some.injEq,exists_eq_left']

theorem matches_equality_hexBytes {entries : List Entry} {e : Entry} {attr value : Octets} :
    (Filter.equality attr (value.flatMap hexByte)).Matches sch entries e ↔
      e.Has sch attr value := by
  simp only [Filter.Matches,filterValue_hexBytes,Option.some.injEq,exists_eq_left']

theorem matches_inChain_filterEscape {entries : List Entry} {e : Entry} {attr value : Octets} :
    (Filter.inChain attr (filterEscape value)).Matches sch entries e ↔
      InChain sch entries attr value e := by
  simp only [Filter.Matches,filterValue_filterEscape,Option.some.injEq,exists_eq_left']

structure Directory where
  entries : List Entry
  distinct : entries.Pairwise fun a b => sch.normDn a.dn≠sch.normDn b.dn
  named : ∀ e∈entries,e.dn≠[]

variable {sch}

open Classical in
/-- The entries of a subtree that meet `P`. -/
noncomputable def Directory.selected (dir : Directory sch) (base : Octets) (P : Entry → Prop) :
    List Entry :=
  dir.entries.filter fun e => sch.under base e.dn ∧ P e

theorem Directory.mem_selected {dir : Directory sch} {base : Octets} {P : Entry → Prop}
    {e : Entry} : e∈dir.selected base P ↔ e∈dir.entries ∧ sch.under base e.dn ∧ P e := by
  simp [Directory.selected]

theorem Directory.selected_congr {dir : Directory sch} {P Q : Entry → Prop}
    (h : ∀ e,P e ↔ Q e) (base : Octets) : dir.selected base P=dir.selected base Q := by
  have hPQ : P=Q := funext fun e => propext (h e)
  rw [hPQ]

/-- The servers of a directory. Any request may fail; a search that does not, and that finds no
more than its limit, returns what it selects, in some order. -/
structure Net (dir : Directory sch) where
  bind : Octets → Octets → Octets → Option Entry
  bind_honest : ∀ {uri name password e},bind uri name password=some e →
    e∈dir.entries ∧ sch.normDn e.dn=sch.normDn name ∧ e.password=some password
  serviceBind : Octets → Bool
  search : Octets → Octets → Filter → Nat → Option (List Entry)
  search_honest : ∀ {uri base f limit l},search uri base f limit=some l →
    l.Perm (dir.selected base fun e => f.Matches sch dir.entries e) ∧ l.length≤limit

end

end FastPki.Ldap
