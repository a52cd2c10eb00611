import Mathlib.Data.List.Basic
import Mathlib.Tactic.Common

namespace FastPki.KeyValue

/-- Text in the octets that a C program sees. -/
abbrev Text := List UInt8

abbrev Setting := Text × Text

/-- `isspace` in the C locale. -/
def blank (c : UInt8) : Bool := c = 32 || (9 ≤ c && c ≤ 13)

/-- Where a reader of `keyword = value` settings stands. The equal sign may have blanks around it; a
value is bare or in single quotes, and a backslash takes the next octet into it as it is. -/
inductive Mode where
  | between
  | name (k : Text)
  | named (k : Text)
  | value (k : Text)
  | bare (k v : Text)
  | bareEscape (k v : Text)
  | quoted (k v : Text)
  | quotedEscape (k v : Text)
  deriving DecidableEq

structure Reader where
  settings : List Setting
  mode : Mode
  deriving DecidableEq

namespace Reader

def store (r : Reader) (k v : Text) : Reader := ⟨r.settings++[(k,v)],.between⟩

/-- One more octet; a keyword without its equal sign is an error. -/
def next (r : Reader) (c : UInt8) : Option Reader :=
  match r.mode with
  | .between => if blank c then some r
      else if c = 61 then some { r with mode := .value [] } else some { r with mode := .name [c] }
  | .name k => if c = 61 then some { r with mode := .value k }
      else if blank c then some { r with mode := .named k } else some { r with mode := .name (k++[c]) }
  | .named k => if c = 61 then some { r with mode := .value k }
      else if blank c then some r else none
  | .value k => if blank c then some r
      else if c = 39 then some { r with mode := .quoted k [] }
      else if c = 92 then some { r with mode := .bareEscape k [] }
      else some { r with mode := .bare k [c] }
  | .bare k v => if blank c then some (r.store k v)
      else if c = 92 then some { r with mode := .bareEscape k v }
      else some { r with mode := .bare k (v++[c]) }
  | .bareEscape k v => some { r with mode := .bare k (v++[c]) }
  | .quoted k v => if c = 92 then some { r with mode := .quotedEscape k v }
      else if c = 39 then some (r.store k v) else some { r with mode := .quoted k (v++[c]) }
  | .quotedEscape k v => some { r with mode := .quoted k (v++[c]) }

def read (r : Reader) (s : Text) : Option Reader := s.foldlM next r

/-- The end of the text ends a bare value, also one that is still empty. -/
def finish (r : Reader) : Option (List Setting) :=
  match r.mode with
  | .between => some r.settings
  | .value k => some (r.store k []).settings
  | .bare k v | .bareEscape k v => some (r.store k v).settings
  | _ => none

end Reader

/-- The settings of a text, in their order. -/
def parse (s : Text) : Option (List Setting) := (Reader.read ⟨[],.between⟩ s).bind Reader.finish

/-- Of several settings of one keyword the last counts. -/
def settingOf (l : List Setting) (k : Text) : Option Text :=
  (l.reverse.find? fun e => e.1 = k).map Prod.snd

def write (e : Setting) : Text := e.1++61::e.2

/-- Each setting behind a space. -/
def writeAll (l : List Setting) : Text := l.flatMap fun e => 32::write e

theorem settingOf_append (l m : List Setting) (k : Text) :
    settingOf (l++m) k=(settingOf m k).or (settingOf l k) := by
  rw [settingOf,List.reverse_append,List.find?_append]
  cases hm : m.reverse.find? fun e => e.1 = k with
  | none => simp [settingOf,hm]
  | some e => simp [settingOf,hm]

theorem settingOf_eq_none {l : List Setting} {k : Text} : settingOf l k=none ↔ ∀ e∈l,e.1≠k := by
  simp [settingOf]

/-- Settings of other keywords change no value. -/
theorem settingOf_append_of_none {l m : List Setting} (h : ∀ e∈m,settingOf l e.1=none) {k v : Text}
    (hk : settingOf l k=some v) : settingOf (l++m) k=some v := by
  have hm : settingOf m k=none := by
    rw [settingOf_eq_none]
    intro e he hsame
    have hnone := h e he
    rw [hsame,hk] at hnone
    cases hnone
  rw [settingOf_append,hm,Option.none_or,hk]

namespace Reader

theorem read_append (r : Reader) (s t : Text) : r.read (s++t)=(r.read s).bind fun r => r.read t :=
  List.foldlM_append

theorem read_cons (r : Reader) (c : UInt8) (s : Text) :
    r.read (c::s)=(r.next c).bind fun r => r.read s :=
  List.foldlM_cons

/-- An octet that stands for itself in a keyword and in a bare value. -/
def plain (c : UInt8) : Bool := !blank c && c ≠ 39 && c ≠ 92

theorem plain_iff {c : UInt8} : plain c=true ↔ blank c=false ∧ c≠39 ∧ c≠92 := by
  simp [plain,and_assoc]

variable {l : List Setting} {k v s : Text}

theorem read_bare (hs : ∀ c∈s,plain c=true) :
    Reader.read ⟨l,.bare k v⟩ s=some ⟨l,.bare k (v++s)⟩ := by
  induction s generalizing v with
  | nil => simp [read]
  | cons c s ih =>
    obtain ⟨hblank,-,hslash⟩ := plain_iff.mp (hs c List.mem_cons_self)
    have hnext : next ⟨l,.bare k v⟩ c=some ⟨l,.bare k (v++[c])⟩ := by simp [next,hblank,hslash]
    rw [read_cons,hnext,Option.bind_some,ih fun d hd => hs d (List.mem_cons_of_mem c hd)]
    simp

theorem read_value (hne : s≠[]) (hs : ∀ c∈s,plain c=true) :
    Reader.read ⟨l,.value k⟩ s=some ⟨l,.bare k s⟩ := by
  cases s with
  | nil => exact absurd rfl hne
  | cons c s =>
    obtain ⟨hblank,hquote,hslash⟩ := plain_iff.mp (hs c List.mem_cons_self)
    have hnext : next ⟨l,.value k⟩ c=some ⟨l,.bare k [c]⟩ := by simp [next,hblank,hquote,hslash]
    rw [read_cons,hnext,Option.bind_some,read_bare fun d hd => hs d (List.mem_cons_of_mem c hd)]
    simp

theorem read_name (hs : ∀ c∈s,plain c=true ∧ c≠61) :
    Reader.read ⟨l,.name k⟩ s=some ⟨l,.name (k++s)⟩ := by
  induction s generalizing k with
  | nil => simp [read]
  | cons c s ih =>
    obtain ⟨hplain,hequal⟩ := hs c List.mem_cons_self
    obtain ⟨hblank,-,-⟩ := plain_iff.mp hplain
    have hnext : next ⟨l,.name k⟩ c=some ⟨l,.name (k++[c])⟩ := by simp [next,hblank,hequal]
    rw [read_cons,hnext,Option.bind_some,ih fun d hd => hs d (List.mem_cons_of_mem c hd)]
    simp

end Reader

/-- A setting that needs neither blanks nor quotes. -/
structure Simple (e : Setting) : Prop where
  keyword : e.1≠[]
  keywordOctets : ∀ c∈e.1,Reader.plain c=true ∧ c≠61
  value : e.2≠[]
  valueOctets : ∀ c∈e.2,Reader.plain c=true

theorem Simple.plain {e : Setting} (h : Simple e) : ∀ c∈write e,Reader.plain c=true := by
  intro c hc
  rw [write,List.mem_append,List.mem_cons] at hc
  obtain hk|rfl|hv := hc
  · exact (h.keywordOctets c hk).1
  · decide
  · exact h.valueOctets c hv

theorem Simple.read {e : Setting} (h : Simple e) (l : List Setting) :
    Reader.read ⟨l,.between⟩ (write e)=some ⟨l,.bare e.1 e.2⟩ := by
  obtain ⟨k,v⟩ := e
  cases k with
  | nil => exact absurd rfl h.keyword
  | cons c k =>
    obtain ⟨hplain,hequal⟩ := h.keywordOctets c List.mem_cons_self
    obtain ⟨hblank,-,-⟩ := Reader.plain_iff.mp hplain
    have hfirst : Reader.next ⟨l,.between⟩ c=some ⟨l,.name [c]⟩ := by
      simp [Reader.next,hblank,hequal]
    have hname : Reader.read ⟨l,.name [c]⟩ k=some ⟨l,.name (c::k)⟩ :=
      Reader.read_name fun d hd => h.keywordOctets d (List.mem_cons_of_mem c hd)
    have hsign : Reader.next ⟨l,.name (c::k)⟩ 61=some ⟨l,.value (c::k)⟩ := by simp [Reader.next]
    rw [write,List.cons_append,Reader.read_cons,hfirst,Option.bind_some,Reader.read_append,hname,
      Option.bind_some,Reader.read_cons,hsign,Option.bind_some]
    exact Reader.read_value h.value h.valueOctets

/-- Settings behind a bare value. -/
theorem finish_writeAll {m : List Setting} (hm : ∀ e∈m,Simple e) (l : List Setting) (k v : Text) :
    (Reader.read ⟨l,.bare k v⟩ (writeAll m)).bind Reader.finish=some (l++(k,v)::m) := by
  induction m generalizing l k v with
  | nil => simp [writeAll,Reader.read,Reader.finish,Reader.store]
  | cons e m ih =>
    have hblank : Reader.next ⟨l,.bare k v⟩ 32=some ⟨l++[(k,v)],.between⟩ := by
      simp [Reader.next,blank,Reader.store]
    have hfirst := (hm e List.mem_cons_self).read (l++[(k,v)])
    have hrest := ih (fun d hd => hm d (List.mem_cons_of_mem e hd)) (l++[(k,v)]) e.1 e.2
    have hsplit : writeAll (e::m)=32::(write e++writeAll m) := by simp [writeAll]
    rw [hsplit,Reader.read_cons,hblank,Option.bind_some,Reader.read_append,hfirst,Option.bind_some,
      hrest]
    simp

/-- A text whose front leaves the reader in a bare value. -/
theorem parse_behind {s t : Text} {r : Reader} (hs : Reader.read ⟨[],.between⟩ s=some r)
    {l : List Setting} {k v : Text} (ht : r.read t=some ⟨l,.bare k v⟩) {m : List Setting}
    (hm : ∀ e∈m,Simple e) : parse (s++t++writeAll m)=some (l++(k,v)::m) := by
  rw [parse,List.append_assoc,Reader.read_append,hs,Option.bind_some,Reader.read_append,ht,
    Option.bind_some,finish_writeAll hm]

end FastPki.KeyValue
