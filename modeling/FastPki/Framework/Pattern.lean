import FastPki.Framework.Regex

namespace FastPki.Pattern

/-- The tokens of the text of a pattern. A class is a list of ranges, or what is outside of them. -/
inductive Token where
  | char (c : UInt8)
  | any
  | cls (negated : Bool) (ranges : List (UInt8 × UInt8))
  | opening | closing | bar
  | star | plus | question
  | caret | dollar
  deriving DecidableEq

/-- A class that is being read: `prev` may still begin a range, and `dash` says that it has. -/
structure ClassText where
  negated : Bool
  ranges : List (UInt8 × UInt8)
  prev : Option UInt8
  dash : Bool
  deriving DecidableEq

/-- Where the reader stands in the text. -/
inductive Mode where
  | plain
  | escape
  /-- Right after the opening bracket. -/
  | classStart
  | inClass (text : ClassText)
  | classEscape (text : ClassText)
  deriving DecidableEq

/-- What stands for itself after a backslash: no letter, digit or underscore does. -/
def standsForItself (c : UInt8) : Bool :=
  !((0x61 ≤ c && c ≤ 0x7a) || (0x41 ≤ c && c ≤ 0x5a) || (0x30 ≤ c && c ≤ 0x39) || c = 0x5f)

/-- One more character of a class. A range that ends before it begins is refused. -/
def ClassText.atom (t : ClassText) (c : UInt8) : Option ClassText :=
  match t.prev,t.dash with
  | none,_ => some { t with prev := some c }
  | some a,false => some { t with ranges := t.ranges++[(a,a)],prev := some c }
  | some a,true =>
    if a ≤ c then some { t with ranges := t.ranges++[(a,c)],prev := none,dash := false } else none

def ClassText.token (t : ClassText) : Token :=
  .cls t.negated (t.ranges++(t.prev.map fun a => (a,a)).toList++
    (if t.dash then [(0x2d,0x2d)] else []))

def classChar (t : ClassText) (c : UInt8) : Option (Mode × List Token) :=
  if c = 0x5d then some (.plain,[t.token])
  else if c = 0x5c then some (.classEscape t,[])
  else if c = 0x2d && t.prev.isSome && !t.dash then some (.inClass { t with dash := true },[])
  else (t.atom c).map fun t => (.inClass t,[])

/-- A character outside of a class. Counted repetitions (braces) are not read. -/
def plainChar (c : UInt8) : Option (Mode × List Token) :=
  if c = 0x5c then some (.escape,[])
  else if c = 0x5b then some (.classStart,[])
  else if c = 0x2e then some (.plain,[.any])
  else if c = 0x5e then some (.plain,[.caret])
  else if c = 0x24 then some (.plain,[.dollar])
  else if c = 0x7c then some (.plain,[.bar])
  else if c = 0x28 then some (.plain,[.opening])
  else if c = 0x29 then some (.plain,[.closing])
  else if c = 0x2a then some (.plain,[.star])
  else if c = 0x2b then some (.plain,[.plus])
  else if c = 0x3f then some (.plain,[.question])
  else if c = 0x5d || c = 0x7b || c = 0x7d then none
  else some (.plain,[.char c])

def scanChar : Mode → UInt8 → Option (Mode × List Token)
  | .plain,c => plainChar c
  | .escape,c => if standsForItself c then some (.plain,[.char c]) else none
  | .classStart,c =>
    if c = 0x5e then some (.inClass ⟨true,[],none,false⟩,[]) else classChar ⟨false,[],none,false⟩ c
  | .inClass t,c => classChar t c
  | .classEscape t,c =>
    if standsForItself c then (t.atom c).map fun t => (.inClass t,[]) else none

def scan : Mode → List UInt8 → Option (Mode × List Token)
  | m,[] => some (m,[])
  | m,c::text => (scanChar m c).bind fun p => (scan p.1 text).map fun q => (q.1,p.2++q.2)

/-- The tokens of a whole text, which ends neither in a class nor after a backslash. -/
def tokens (text : List UInt8) : Option (List Token) :=
  match scan .plain text with
  | some (.plain,ts) => some ts
  | _ => none

/-- A group that is open: its alternatives so far, the terms of the last one (last term first),
and whether a quantifier may follow. -/
structure Group where
  alternatives : List (Regex UInt8)
  terms : List (Regex UInt8)
  quantifiable : Bool

def Group.new : Group := ⟨[],[],false⟩

/-- The terms one after the other. -/
def concat : List (Regex UInt8) → Regex UInt8
  | [] => .epsilon
  | [r] => r
  | r::rs => .seq r (concat rs)

def Group.regex (g : Group) : Regex UInt8 :=
  g.alternatives.foldr .alt (concat g.terms.reverse)

def Group.atom (g : Group) (r : Regex UInt8) : Group := ⟨g.alternatives,r::g.terms,true⟩

/-- A quantifier takes the last term; a second one, the lazy form, is not read. -/
def Group.quantify (g : Group) (f : Regex UInt8 → Regex UInt8) : Option Group :=
  match g.terms,g.quantifiable with
  | r::rs,true => some ⟨g.alternatives,f r::rs,false⟩
  | _,_ => none

def inRanges (negated : Bool) (ranges : List (UInt8 × UInt8)) (c : UInt8) : Bool :=
  xor negated (ranges.any fun r => r.1 ≤ c && c ≤ r.2)

/-- The groups that are open, the innermost first, take a token. An assertion inside of the
pattern is not read. -/
def parseToken (outer : List Group) (g : Group) : Token → Option (List Group × Group)
  | .char c => some (outer,g.atom (.char (· = c)))
  | .any => some (outer,g.atom (.char fun c => c ≠ 0x0a && c ≠ 0x0d))
  | .cls negated ranges => some (outer,g.atom (.char (inRanges negated ranges)))
  | .opening => some (g::outer,Group.new)
  | .closing =>
    match outer with
    | [] => none
    | g'::outer => some (outer,g'.atom g.regex)
  | .bar => some (outer,⟨g.alternatives++[concat g.terms.reverse],[],false⟩)
  | .star => (g.quantify .star).map (outer,·)
  | .plus => (g.quantify fun r => .seq r (.star r)).map (outer,·)
  | .question => (g.quantify fun r => .alt r .epsilon).map (outer,·)
  | .caret | .dollar => none

def parse (outer : List Group) (g : Group) : List Token → Option (Regex UInt8)
  | [] => if outer.isEmpty then some g.regex else none
  | t::ts => (parseToken outer g t).bind fun p => parse p.1 p.2 ts

/-- The expression for a match of a whole word: there the assertions at both ends say nothing. -/
def dropAnchors (ts : List Token) : List Token :=
  let ts := if ts.head? = some .caret then ts.tail else ts
  if ts.getLast? = some .dollar then ts.dropLast else ts

/-- The ECMAScript pattern of this text; none where it is malformed or has a construct that is
not read here. -/
def read (text : List UInt8) : Option (Regex UInt8) :=
  (tokens text).bind fun ts => parse [] Group.new (dropAnchors ts)

theorem scan_append {m m' : Mode} {u : List UInt8} {ts : List Token}
    (h : scan m u=some (m',ts)) (v : List UInt8) :
    scan m (u++v)=(scan m' v).map fun q => (q.1,ts++q.2) := by
  induction u generalizing m ts with
  | nil =>
    obtain ⟨rfl,rfl⟩ := Prod.mk.inj (Option.some.inj h)
    simp
  | cons c u ih =>
    rw [scan,Option.bind_eq_some_iff] at h
    obtain ⟨p,hp,hrest⟩ := h
    obtain ⟨q,hq,hpair⟩ := Option.map_eq_some_iff.mp hrest
    obtain ⟨rfl,rfl⟩ := Prod.mk.inj hpair
    rw [List.cons_append,scan,hp,Option.bind_some,ih hq,Option.map_map]
    congr 1
    funext r
    simp

/-- A text that is read piece by piece: each piece leaves the reader outside of a class. -/
theorem tokens_append {u v : List UInt8} {ts ts' : List Token} (hu : scan .plain u=some (.plain,ts))
    (hv : tokens v=some ts') : tokens (u++v)=some (ts++ts') := by
  unfold tokens at hv ⊢
  rw [scan_append hu]
  split at hv
  · next ts'' hscan =>
    obtain rfl := Option.some.inj hv
    rw [hscan]
    rfl
  · cases hv

theorem dropAnchors_anchored (ts : List Token) : dropAnchors (.caret::(ts++[.dollar]))=ts := by
  simp [dropAnchors]

/-- Characters that stand for themselves become the last terms of the innermost group. -/
theorem parse_chars (outer : List Group) (g : Group) (cs : List UInt8) (ts : List Token) :
    parse outer g (cs.map .char++ts)=
      parse outer (cs.foldl (fun g c => g.atom (.char (· = c))) g) ts := by
  induction cs generalizing g with
  | nil => rfl
  | cons c cs ih => exact ih (g.atom (.char (· = c)))

theorem foldl_atom (g : Group) (cs : List UInt8) :
    (cs.foldl (fun g c => g.atom (.char (· = c))) g).alternatives=g.alternatives ∧
    (cs.foldl (fun g c => g.atom (.char (· = c))) g).terms=
      (cs.map fun c => Regex.char (· = c)).reverse++g.terms := by
  induction cs generalizing g with
  | nil => exact ⟨rfl,rfl⟩
  | cons c cs ih =>
    obtain ⟨halt,hterms⟩ := ih (g.atom (.char (· = c)))
    refine ⟨halt,?_⟩
    rw [List.foldl_cons,hterms,List.map_cons,List.reverse_cons,List.append_assoc]
    rfl

theorem lang_concat (rs : List (Regex UInt8)) : (concat rs).lang=(rs.map Regex.lang).prod := by
  induction rs with
  | nil => rfl
  | cons r rs ih =>
    cases rs with
    | nil => simp [concat]
    | cons s rs =>
      change r.lang*(concat (s::rs)).lang=_
      rw [ih]
      rfl

theorem lang_chars (cs : List UInt8) :
    ((cs.map fun c => Regex.char (· = c)).map Regex.lang).prod=(Regex.literal cs).lang := by
  induction cs with
  | nil => rfl
  | cons c cs ih => rw [List.map_cons,List.map_cons,List.prod_cons,ih]; rfl

end FastPki.Pattern
