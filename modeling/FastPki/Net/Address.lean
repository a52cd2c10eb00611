import FastPki.Framework.Ascii
import FastPki.Framework.Bits
import FastPki.Framework.Hex
import FastPki.X509.Name

namespace FastPki.Net

open X509 Ascii

def colon : UInt8 := 0x3a
def slash : UInt8 := 0x2f
def dot : UInt8 := 0x2e
def comma : UInt8 := 0x2c

def trim (s : Octets) : Octets := strip isBlank s

/-- `std::stoi` of digits; `none` is the exception of a number beyond an `int`. -/
def stoi (s : Octets) : Option Nat := if value s < 2^31 then some (value s) else none

section Literals

/-- Four octets in network order, or sixteen. -/
structure Addr where
  b : Octets
  width : b.length=4 ∨ b.length=16
  deriving DecidableEq

def Addr.bits (a : Addr) : Nat := 8*a.b.length

def Addr.ofBytes (b : Octets) : Option Addr :=
  if h : b.length=4 ∨ b.length=16 then some ⟨b,h⟩ else none

/-- One octet of a dotted quad: no sign, no leading zero, at most 255. -/
def quadOctet (s : Octets) : Option UInt8 :=
  if s = [] ∨ !s.all isDigit then none
  else if s.length > 1 ∧ s.head? = some 0x30 then none
  else if value s > 255 then none
  else some (UInt8.ofNat (value s))

/-- `inet_pton(AF_INET, …)`. -/
def inetPton4 (src : Octets) : Option Octets :=
  match src.splitOn dot with
  | [p,q,r,s] => do
    let p ← quadOctet p
    let q ← quadOctet q
    let r ← quadOctet r
    let s ← quadOctet s
    return [p,q,r,s]
  | _ => none

/-- The two octets of a group. -/
def groupOctets (val : Nat) : Octets := [UInt8.ofNat (val/256),UInt8.ofNat (val%256)]

/-- The loop of `inet_pton(AF_INET6, …)`: `tp` is what has been written, `colonp` where the two
colons stood, `curtok` the start of the current group and `seen` how many digits of it there were. -/
def pton6Loop : Octets → Octets → Octets → Option Nat → Nat → Nat → Option (Octets × Option Nat)
  | [],_,tp,colonp,seen,val =>
    if seen = 0 then some (tp,colonp)
    else if tp.length+2 > 16 then none
    else some (tp++groupOctets val,colonp)
  | c::src,curtok,tp,colonp,seen,val =>
    match Hex.value c with
    | some d => if seen = 4 then none else pton6Loop src curtok tp colonp (seen+1) (16*val+d)
    | none =>
      if c = colon then
        if seen = 0 then
          if colonp.isSome then none else pton6Loop src src tp (some tp.length) 0 0
        else if src = [] then none
        else if tp.length+2 > 16 then none
        else pton6Loop src src (tp++groupOctets val) colonp 0 0
      -- the last four octets may be written as a dotted quad
      else if c = dot ∧ tp.length+4 ≤ 16 then (inetPton4 curtok).map fun b => (tp++b,colonp)
      else none

/-- The two colons stand for one group at least. -/
def pton6Fill (tp : Octets) : Option Nat → Option Octets
  | none => some tp
  | some k => if tp.length = 16 then none
      else some (tp.take k++List.replicate (16-tp.length) 0++tp.drop k)

/-- `inet_pton(AF_INET6, …)`. -/
def inetPton6 (src : Octets) : Option Octets :=
  if src.head? = some colon ∧ (src.drop 1).head? ≠ some colon then none
  else if src = [] then none
  else
    let start := if src.head? = some colon then src.drop 1 else src
    match pton6Loop start start [] none 0 0 with
    | none => none
    | some (tp,colonp) => (pton6Fill tp colonp).filter (·.length = 16)

/-- A bracketed literal, as a URL or a Host header carries it. -/
def unbracket (s : Octets) : Octets :=
  if s.length > 2 ∧ s.head? = some 0x5b ∧ s.getLast? = some 0x5d then (s.drop 1).dropLast else s

/-- `parse_addr` before the fold of the mapped addresses. -/
def parseLiteral (input : Octets) : Option Addr :=
  let s := trim input
  if s = [] then none
  else
    let t := unbracket s
    if colon ∉ t then (inetPton4 (cString t)).bind Addr.ofBytes
    else (inetPton6 (cString t)).bind Addr.ofBytes

def mappedPrefix : Octets := [0,0,0,0,0,0,0,0,0,0,0xff,0xff]

def Addr.mapped (a : Addr) : Bool := a.b.length = 16 && a.b.take 12 = mappedPrefix

theorem Addr.length_drop_of_mapped {a : Addr} (h : a.mapped=true) : (a.b.drop 12).length=4 := by
  rw [mapped,Bool.and_eq_true,decide_eq_true_eq] at h
  rw [List.length_drop,h.1]

/-- The mapped range becomes its four trailing octets. -/
def Addr.unmap (a : Addr) : Addr :=
  if h : a.mapped=true then ⟨a.b.drop 12,Or.inl (length_drop_of_mapped h)⟩ else a

def parseAddr (input : Octets) : Option Addr := (parseLiteral input).map Addr.unmap

/-- The text of an address as `inet_ntop` writes it: digits, dots and colons, which `inet_pton`
reads as that address. -/
structure ReadsBack (a : Addr) (t : Octets) : Prop where
  plain : ∀ c∈t,((Hex.value c).isSome || c = colon || c = dot)=true
  quad : a.b.length=4 → colon∉t ∧ inetPton4 t=some a.b
  groups : a.b.length=16 → colon∈t ∧ inetPton6 t=some a.b

theorem trim_eq_self {s : Octets} (h : ∀ c∈s,isBlank c=false) : trim s=s := by
  have hno (l : Octets) (hl : ∀ c∈l,isBlank c=false) : l.dropWhile isBlank=l := by
    cases l with
    | nil => rfl
    | cons c l => rw [List.dropWhile_cons_of_neg (by simp [hl c List.mem_cons_self])]
  rw [trim,strip,stripLeft,stripRight,hno s h,hno s.reverse fun c hc => h c (List.mem_reverse.mp hc),List.reverse_reverse]

theorem Addr.ofBytes_self (a : Addr) : Addr.ofBytes a.b=some a := dif_pos a.width

/-- A literal without blanks and brackets is read whole. -/
theorem ReadsBack.parseLiteral {a : Addr} {t : Octets} (h : ReadsBack a t) :
    parseLiteral t=some a := by
  have hnot {c : UInt8} (hc : ((Hex.value c).isSome || c = colon || c = dot)=false) : c∉t := by
    intro hmem
    rw [h.plain c hmem] at hc
    cases hc
  have htrim : trim t=t := by
    apply trim_eq_self
    intro c hc
    rw [isBlank,Bool.or_eq_false_iff,decide_eq_false_iff_not,decide_eq_false_iff_not]
    constructor
    · rintro rfl
      exact hnot (by decide) hc
    · rintro rfl
      exact hnot (by decide) hc
  have hbracket : unbracket t=t := by
    rw [unbracket,if_neg]
    rintro ⟨-,hopen,-⟩
    exact hnot (by decide) (List.mem_of_head? hopen)
  have hzero : cString t=t := cString_eq_self_iff.mpr (hnot (by decide))
  rw [Net.parseLiteral,htrim]
  rcases a.width with hw|hw
  · obtain ⟨hcolon,hread⟩ := h.quad hw
    have hne : t≠[] := by
      rintro rfl
      cases hread
    rw [if_neg hne,hbracket,if_pos hcolon,hzero,hread,Option.bind_some,a.ofBytes_self]
  · obtain ⟨hcolon,hread⟩ := h.groups hw
    rw [if_neg (List.ne_nil_of_mem hcolon),hbracket,if_neg (not_not.mpr hcolon),hzero,hread,
      Option.bind_some,a.ofBytes_self]

end Literals

section Cidr

/-- The first `len` bits of two addresses of one width. -/
def samePrefix (x y : Addr) (len : Nat) : Bool :=
  let whole := len/8
  let rest := len%8
  if x.b.take whole ≠ y.b.take whole then false
  else if rest = 0 then true
  else
    let mask : UInt8 := 0xff <<< UInt8.ofNat (8-rest)
    x.b.getD whole 0 &&& mask = y.b.getD whole 0 &&& mask

/-- The address before the first slash and the length after it; `none` where that is no number. -/
def splitCidr (c : Octets) : Option (Octets × Option Nat) :=
  if slash ∈ c then
    let p := trim ((c.dropWhile (· ≠ slash)).drop 1)
    if p = [] ∨ !p.all isDigit then none
    else (stoi p).map fun len => (c.takeWhile (· ≠ slash),some len)
  else some (c,none)

def ipInCidr (ip cidr : Octets) : Bool :=
  let c := trim cidr
  if c = [] then false
  else match splitCidr c with
    | none => false
    | some (net,len) =>
      match parseAddr net,parseAddr ip with
      | some n,some a =>
        let len := len.getD n.bits
        if len > n.bits then false
        else if n.bits ≠ a.bits then false
        else samePrefix n a len
      | _,_ => false

end Cidr

end FastPki.Net
