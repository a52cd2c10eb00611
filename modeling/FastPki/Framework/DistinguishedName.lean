import FastPki.Framework.Hex
import FastPki.Framework.Utf8

namespace FastPki.Rfc4514

open Ascii

def esc : UInt8 := 0x5c
def comma : UInt8 := 0x2c
def plus : UInt8 := 0x2b
def equals : UInt8 := 0x3d
def sharp : UInt8 := 0x23
def space : UInt8 := 0x20

def isAlpha (c : UInt8) : Bool := (0x41 ≤ c && c ≤ 0x5a) || (0x61 ≤ c && c ≤ 0x7a)
def keychar (c : UInt8) : Bool := isAlpha c || isDigit c || c = 0x2d

def keystring (s : List UInt8) : Bool := s.head?.any isAlpha && s.all keychar

/-- A number has no leading zero. -/
def number (s : List UInt8) : Bool :=
  s ≠ [] && s.all isDigit && (s.length = 1 || s.head? ≠ some 0x30)

def numericoid (s : List UInt8) : Bool :=
  let arcs := s.splitOn 0x2e
  arcs.length ≥ 2 && arcs.all number

def attributeType (s : List UInt8) : Bool := keystring s || numericoid s

def hexPair (h l : UInt8) : Option UInt8 := do
  let high ← Hex.value h
  let low ← Hex.value l
  return UInt8.ofNat (high*16+low)

def hexPairs : List UInt8 → Option (List UInt8)
  | [] => some []
  | [_] => none
  | h::l::rest => do
    let b ← hexPair h l
    let bs ← hexPairs rest
    return b::bs

/-- What a backslash may stand before: the characters that are special somewhere, and itself. -/
def special (c : UInt8) : Bool :=
  c ∈ [0x22,plus,comma,0x3b,0x3c,0x3e,space,sharp,equals,esc]

/-- What may stand for itself inside of a value. -/
def stringchar (c : UInt8) : Bool := c ∉ [0x00,0x22,plus,comma,0x3b,0x3c,0x3e,esc]

/-- The octets of a value, each with whether it stands for itself. -/
def parseUnits : List UInt8 → Option (List (Bool × UInt8))
  | [] => some []
  | c::rest =>
    if c = esc then
      match rest with
      | [] => none
      | d::rest =>
        if special d then (parseUnits rest).map ((false,d)::·)
        else match rest with
          | [] => none
          | e::rest => (hexPair d e).bind fun b => (parseUnits rest).map ((false,b)::·)
    else if stringchar c then (parseUnits rest).map ((true,c)::·)
    else none

/-- A space is not a value's first or last character, nor a sharp its first. -/
def endsOk (us : List (Bool × UInt8)) : Bool :=
  us.head? ≠ some (true,space) && us.head? ≠ some (true,sharp) && us.getLast? ≠ some (true,space)

inductive Value where
  | text (octets : List UInt8)
  | ber (octets : List UInt8)
  deriving DecidableEq

def parseString (s : List UInt8) : Option Value :=
  (parseUnits s).bind fun us => if endsOk us then some (.text (us.map (·.2))) else none

def parseValue (s : List UInt8) : Option Value :=
  if s.head? = some sharp then
    if s.drop 1 = [] then none else (hexPairs (s.drop 1)).map .ber
  else parseString s

structure Ava where
  type : List UInt8
  value : Value
  deriving DecidableEq

abbrev Rdn := List Ava

def parseAva (s : List UInt8) : Option Ava :=
  let type := s.takeWhile (· ≠ equals)
  if equals ∈ s ∧ attributeType type then
    (parseValue ((s.dropWhile (· ≠ equals)).drop 1)).map (⟨type,·⟩)
  else none

/-- One octet more of the first piece. -/
def prepend (w : List UInt8) : List (List UInt8) → List (List UInt8)
  | [] => [w]
  | p::ps => (w++p)::ps

/-- The pieces between separators that no backslash stands before. -/
def splitRaw (sep : UInt8) : Bool → List UInt8 → List (List UInt8)
  | _,[] => [[]]
  | escaped,c::rest =>
    if !escaped && c = sep then []::splitRaw sep false rest
    else prepend [c] (splitRaw sep (!escaped && c = esc) rest)

def parseRdn (s : List UInt8) : Option Rdn := (splitRaw plus false s).mapM parseAva

/-- The RDNs of a distinguished name in its string form; the empty text is the empty name. -/
def parseDn (text : List UInt8) : Option (List Rdn) :=
  if !validUtf8 text then none
  else if text = [] then some []
  else (splitRaw comma false text).mapM parseRdn

section Split

variable {sep : UInt8}

theorem prepend_append (v w : List UInt8) (ps : List (List UInt8)) :
    prepend (v++w) ps=prepend v (prepend w ps) := by
  cases ps with
  | nil => rfl
  | cons p ps => simp [prepend]

/-- A word in which nothing is a separator, whatever follows it. -/
def Whole (sep : UInt8) (w : List UInt8) : Prop :=
  ∀ t,splitRaw sep false (w++t)=prepend w (splitRaw sep false t)

theorem splitRaw_ne_nil (escaped : Bool) (t : List UInt8) : splitRaw sep escaped t≠[] := by
  cases t with
  | nil => simp [splitRaw]
  | cons c t =>
    rw [splitRaw]
    split
    · simp
    · cases splitRaw sep (!escaped && c=esc) t with
      | nil => simp [prepend]
      | cons p ps => simp [prepend]

theorem Whole.nil : Whole sep [] := by
  intro t
  cases h : splitRaw sep false t with
  | nil => exact absurd h (splitRaw_ne_nil false t)
  | cons p ps =>
    rw [List.nil_append,h]
    rfl

theorem Whole.append {v w : List UInt8} (hv : Whole sep v) (hw : Whole sep w) :
    Whole sep (v++w) := by
  intro t
  rw [List.append_assoc,hv,hw,prepend_append]

theorem Whole.raw {c : UInt8} (hsep : c≠sep) (hesc : c≠esc) : Whole sep [c] := by
  intro t
  simp [splitRaw,hsep,hesc]

theorem Whole.pair (hsep : esc≠sep) (d : UInt8) : Whole sep [esc,d] := by
  intro t
  have hpair : [esc,d]=[esc]++[d] := rfl
  rw [hpair,prepend_append]
  simp [splitRaw,hsep]

theorem Whole.of_forall {w : List UInt8} (h : ∀ c∈w,c≠sep ∧ c≠esc) : Whole sep w := by
  induction w with
  | nil => exact Whole.nil
  | cons c w ih =>
    have hc := h c List.mem_cons_self
    exact (Whole.raw hc.1 hc.2).append (ih fun d hd => h d (List.mem_cons_of_mem _ hd))

theorem Whole.split {w : List UInt8} (h : Whole sep w) : splitRaw sep false w=[w] := by
  have hnil := h []
  rw [List.append_nil] at hnil
  rw [hnil]
  simp [splitRaw,prepend]

theorem Whole.split_cons {w : List UInt8} (h : Whole sep w) (t : List UInt8) :
    splitRaw sep false (w++sep::t)=w::splitRaw sep false t := by
  rw [h]
  simp [splitRaw,prepend]

end Split

section Written

/-- A text that writes the octets of a value out, each for itself or behind a backslash. -/
inductive Written : List (Bool × UInt8) → List UInt8 → Prop where
  | nil : Written [] []
  | raw {c : UInt8} (hc : stringchar c=true) {us : List (Bool × UInt8)} {t : List UInt8} :
    Written us t → Written ((true,c)::us) (c::t)
  | pair {d : UInt8} (hd : special d=true) {us : List (Bool × UInt8)} {t : List UInt8} :
    Written us t → Written ((false,d)::us) (esc::d::t)
  | hex {h l b : UInt8} (hb : hexPair h l=some b) {us : List (Bool × UInt8)} {t : List UInt8} :
    Written us t → Written ((false,b)::us) (esc::h::l::t)

variable {us : List (Bool × UInt8)} {w : List UInt8}

theorem hexValue_special {c : UInt8} (h : special c=true) : Hex.value c=none := by
  simp only [special,decide_eq_true_eq,List.mem_cons,List.not_mem_nil,or_false] at h
  obtain rfl|rfl|rfl|rfl|rfl|rfl|rfl|rfl|rfl|rfl := h <;> rfl

theorem not_special_of_hexPair {h l b : UInt8} (hb : hexPair h l=some b) :
    special h=false ∧ special l=false := by
  obtain ⟨_,hhigh,hrest⟩ := Option.bind_eq_some_iff.mp hb
  obtain ⟨_,hlow,_⟩ := Option.bind_eq_some_iff.mp hrest
  constructor
  · by_contra hs
    rw [hexValue_special (by simpa using hs)] at hhigh
    cases hhigh
  · by_contra hs
    rw [hexValue_special (by simpa using hs)] at hlow
    cases hlow

theorem Written.parseUnits_eq (h : Written us w) : parseUnits w=some us := by
  induction h with
  | nil => rfl
  | @raw c hc us t _ ih =>
    have hne : c≠esc := by
      rintro rfl
      cases hc
    rw [parseUnits.eq_def]
    simp [hne,hc,ih]
  | @pair d hd us t _ ih =>
    rw [parseUnits.eq_def]
    simp [hd,ih]
  | @hex hi lo b hb us t _ ih =>
    rw [parseUnits.eq_def]
    simp [(not_special_of_hexPair hb).1,hb,ih]

/-- Neither a comma nor a plus of a written value parts it. -/
theorem Written.whole {sep : UInt8} (hsep : special sep=true) (hraw : stringchar sep=false)
    (hesc : esc≠sep) (h : Written us w) : Whole sep w := by
  induction h with
  | nil => exact Whole.nil
  | @raw c hc us t _ ih =>
    have hne : c≠sep := by
      rintro rfl
      rw [hraw] at hc
      cases hc
    have hne' : c≠esc := by
      rintro rfl
      cases hc
    exact (Whole.raw hne hne').append ih
  | @pair d hd us t _ ih => exact (Whole.pair hesc d).append ih
  | @hex hi lo b hb us t _ ih =>
    have hlow := (not_special_of_hexPair hb).2
    have hne : lo≠sep := by
      rintro rfl
      rw [hsep] at hlow
      cases hlow
    have hne' : lo≠esc := by
      rintro rfl
      cases hlow
    exact ((Whole.pair hesc hi).append (Whole.raw hne hne')).append ih

theorem Written.parseValue_eq (h : Written us w) (hends : endsOk us=true) :
    parseValue w=some (.text (us.map (·.2))) := by
  have hstart : w.head?≠some sharp := by
    cases h with
    | nil => simp
    | raw hc _ =>
      rintro heq
      obtain rfl := Option.some.inj heq
      simp [endsOk] at hends
    | pair hd _ => exact fun heq => absurd (Option.some.inj heq) (by decide)
    | hex hb _ => exact fun heq => absurd (Option.some.inj heq) (by decide)
  rw [parseValue,if_neg hstart,parseString,h.parseUnits_eq,Option.bind_some,if_pos hends]

end Written

section Name

variable {type w b : List UInt8} {us : List (Bool × UInt8)}

theorem keystring_plain (h : keystring type=true) {c : UInt8} (hc : c∈type) :
    c≠comma ∧ c≠plus ∧ c≠equals ∧ c≠esc := by
  rw [keystring,Bool.and_eq_true,List.all_eq_true] at h
  have hkey := h.2 c hc
  refine ⟨?_,?_,?_,?_⟩ <;> (rintro rfl; cases hkey)

theorem parseAva_keystring (htype : keystring type=true) (hw : Written us w)
    (hends : endsOk us=true) :
    parseAva (type++equals::w)=some ⟨type,.text (us.map (·.2))⟩ := by
  have hclear : ∀ c∈type,decide (c≠equals)=true :=
    fun c hc => by simpa using (keystring_plain htype hc).2.2.1
  have htake : (type++equals::w).takeWhile (· ≠ equals)=type := by
    rw [List.takeWhile_append_of_pos hclear]
    simp
  have hdrop : (type++equals::w).dropWhile (· ≠ equals)=equals::w := by
    rw [List.dropWhile_append_of_pos hclear]
    simp
  rw [parseAva,htake,hdrop,if_pos ⟨by simp,by simp [attributeType,htype]⟩]
  exact congrArg (Option.map _) (hw.parseValue_eq hends)

/-- The first RDN of a name, written out, and what is before it and behind it. -/
theorem parseRdn_keystring (htype : keystring type=true) (hw : Written us w)
    (hends : endsOk us=true) :
    Whole comma (type++equals::w) ∧
      parseRdn (type++equals::w)=some [⟨type,.text (us.map (·.2))⟩] := by
  have hwhole (sep : UInt8) (hsep : special sep=true) (hraw : stringchar sep=false)
      (hesc : esc≠sep) (heq : equals≠sep) (hplain : ∀ c∈type,c≠sep) :
      Whole sep (type++equals::w) := by
    have hhead : Whole sep type :=
      Whole.of_forall fun c hc => ⟨hplain c hc,(keystring_plain htype hc).2.2.2⟩
    exact hhead.append ((Whole.raw heq (by decide)).append (hw.whole hsep hraw hesc))
  have hcomma := hwhole comma (by decide) (by decide) (by decide) (by decide)
    fun c hc => (keystring_plain htype hc).1
  have hplus := hwhole plus (by decide) (by decide) (by decide) (by decide)
    fun c hc => (keystring_plain htype hc).2.1
  refine ⟨hcomma,?_⟩
  rw [parseRdn,hplus.split,List.mapM_cons,parseAva_keystring htype hw hends]
  rfl

/-- A written RDN before a name is its first RDN. -/
theorem parseDn_keystring (htype : keystring type=true) (hw : Written us w)
    (hends : endsOk us=true) (hvalid : validUtf8 (type++equals::w++comma::b)=true) (hb : b≠[])
    {rdns : List Rdn} (hdn : parseDn b=some rdns) :
    parseDn (type++equals::w++comma::b)=some ([⟨type,.text (us.map (·.2))⟩]::rdns) := by
  obtain ⟨hwhole,hrdn⟩ := parseRdn_keystring htype hw hends
  have hrest : (splitRaw comma false b).mapM parseRdn=some rdns := by
    rw [parseDn] at hdn
    split_ifs at hdn
    exact hdn
  rw [parseDn,hvalid,if_neg (by simp),if_neg (by simp),hwhole.split_cons,List.mapM_cons,hrdn,hrest]
  rfl

/-- A comma is followed by an RDN. -/
theorem parseDn_trailing_comma (htype : keystring type=true) (hw : Written us w)
    (hends : endsOk us=true) : parseDn (type++equals::w++[comma])=none := by
  obtain ⟨hwhole,hrdn⟩ := parseRdn_keystring htype hw hends
  have hempty : parseRdn []=none := by decide
  rw [parseDn,if_neg (show ¬type++equals::w++[comma]=[] by simp),hwhole.split_cons]
  split_ifs
  · rfl
  · rw [List.mapM_cons,hrdn]
    simp [splitRaw,hempty]

theorem validUtf8_of_parseDn {text : List UInt8} {rdns : List Rdn} (h : parseDn text=some rdns) :
    validUtf8 text=true := by
  rw [parseDn] at h
  split_ifs at h with hvalid
  · simpa using hvalid
  · simpa using hvalid

end Name

end FastPki.Rfc4514
