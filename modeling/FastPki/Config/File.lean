import FastPki.Framework.Decimal
import FastPki.Framework.Except
import FastPki.Framework.Lines
import FastPki.Framework.OrderedMap
import FastPki.Framework.Substring
import FastPki.X509.Name
import Mathlib.Data.List.DropRight
import Mathlib.Data.List.Lex

namespace FastPki.Config

open X509 Ascii

/-! The configuration as one text, one setting a line. -/

/-- `std::map` compares its keys octet by octet. -/
scoped instance instLinearOrderUInt8 : LinearOrder UInt8 where
  le_refl a := UInt8.le_refl a
  le_trans _ _ _ := UInt8.le_trans
  le_antisymm _ _ := UInt8.le_antisymm
  le_total a b := UInt8.le_total a b
  lt_iff_le_not_ge a b := by
    rw [UInt8.not_le]
    exact ⟨fun h => ⟨UInt8.le_of_lt h,h⟩,And.right⟩
  toDecidableLE := inferInstance

/-- Values by their keys. -/
abbrev Settings := OrderedMap Octets Octets

def newline : UInt8 := 0x0a
def carriageReturn : UInt8 := 0x0d
def space : UInt8 := 0x20
def hash : UInt8 := 0x23
def equals : UInt8 := 0x3d

/-- A line without the carriage return at its end. -/
def chomp (l : Octets) : Octets := if l.getLast? = some carriageReturn then l.dropLast else l

theorem chomp_isPrefix (l : Octets) : chomp l<+:l := by
  rw [chomp]
  split_ifs
  · exact List.dropLast_prefix l
  · exact List.prefix_rfl

def fileLines (text : Octets) : List Octets := (getlines newline text).map chomp

def configFileLineKey (l : Octets) : Octets :=
  match l.dropWhile isBlank with
  | [] => []
  | c::t =>
    if c = hash ∨ equals ∉ c::t then []
    else ((c::t).takeWhile (· ≠ equals)).rdropWhile isBlank

/-- What stands behind the equal sign. -/
def lineValue (l : Octets) : Octets := (l.dropWhile (· ≠ equals)).drop 1

def configFileKeys (text : Octets) : List Octets :=
  ((fileLines text).map configFileLineKey).filter (· ≠ [])

def isSecretConfigKey (k : Octets) : Bool :=
  k = octets "NOTIFY_WEBHOOK" ||
    ["TOKEN","SECRET","PASSWORD","CONNINFO","PBM","CHALLENGE"].any fun s => octets s <:+: k

def isBootstrapConfigKey (k : Octets) : Bool := k = octets "PG_CONNINFO"

def kConfigFileKey : Octets := octets "CONFIG_FILE_TEXT"

def isFileEditorExcludedKey (k : Octets) : Bool := k = kConfigFileKey

def mask : Octets := octets "(set)"

/-- The line as it is stored. -/
def maskLine (l : Octets) : Octets :=
  let k := configFileLineKey l
  if k ≠ [] ∧ isSecretConfigKey k ∧ (lineValue l).any fun c => !isBlank c then k++equals::mask else l

def maskConfigFileSecrets (text : Octets) : Octets :=
  putlines newline ((fileLines text).map maskLine)

def endsWith (s k : Octets) : Bool := s.length < k.length && s.isSuffixOf k

/-- Where `sep` stands first, what is behind it. -/
def after (sep s : Octets) : Option Octets := (splitFirst sep s).map fun r => r.2.drop sep.length

section Parse

-- what the parser of a setting stated to a value when it refuses it
variable (probe : Octets → Octets → Option Octets)

/-- Empty where the value is acceptable. -/
def validateConfigValue (key val : Octets) : Octets :=
  let stem := key.take (key.length-5)
  if endsWith (octets "_BIND") key ∧ val.head? = some 0x5b then
    key++octets " takes a bare address, without brackets — write \""++
      (val.drop 1).takeWhile (· ≠ 0x5d)++octets "\""++
      match after (octets "]:") val with
      | none => []
      | some port => octets ", and set "++stem++octets "_PORT="++port
  else if endsWith (octets "_BIND") key ∧ val.count 0x3a = 1 then
    key++octets " takes an address only, not host:port — use \""++val.takeWhile (· ≠ 0x3a)++
      octets "\" and set "++stem++octets "_PORT="++(val.dropWhile (· ≠ 0x3a)).drop 1
  else if endsWith (octets "_PORT") key ∧ val ≠ [] ∧ val.all isDigit = false then
    key++octets " must be a number between 1 and 65535 (got \""++val++octets "\")"
  else if endsWith (octets "_PORT") key ∧ val ≠ [] ∧
      (value val < 1 ∨ 65535 < value val) then
    key++octets " must be between 1 and 65535 (got \""++val++octets "\")"
  else (probe key val).getD []

def keyChar (c : UInt8) : Bool :=
  (0x41 ≤ c && c ≤ 0x5a) || isDigit c || c = 0x5f

/-- One line of an edited file; `none` is a line that stated nothing. -/
def parseLine (line : Octets) : Except Octets (Option (Octets × Octets)) :=
  match line.dropWhile isBlank with
  | [] => .ok none
  | c::t =>
    if c = hash then .ok none
    else if equals ∉ c::t then .error (octets "line is not KEY=value: "++c::t)
    else
      let key := ((c::t).takeWhile (· ≠ equals)).rdropWhile isBlank
      let val := (((c::t).dropWhile (· ≠ equals)).drop 1).dropWhile isBlank
      if key = [] then .error (octets "empty key in: "++line)
      else if key.all keyChar = false then
        .error (octets "invalid key '"++key++octets "' (expected UPPER_SNAKE_CASE)")
      else if isBootstrapConfigKey key then
        .error (octets "bootstrap key must stay in bootstrap.conf: "++key)
      else if isFileEditorExcludedKey key then .ok none
      else if validateConfigValue probe key val ≠ [] then .error (validateConfigValue probe key val)
      else .ok (some (key,val))

/-- The later line of a key wins. -/
def want (lines : List Octets) (m : Settings) : Except Octets Settings :=
  match lines with
  | [] => .ok m
  | l::rest => do
    match ← parseLine probe l with
    | none => want rest m
    | some (k,v) => want rest (m.insert k v)

/-- A secret at its mask is neither set nor unset. -/
def keeps (k v : Octets) : Bool := isSecretConfigKey k && v = mask

structure CfgFileEdit where
  set : Settings
  unset : List Octets

def parseConfigFile (text : Octets) (base overlay : Settings) : Except Octets CfgFileEdit := do
  let want ← want probe (fileLines text) .empty
  .ok {
    set := want.filter fun k v => !keeps k v && base.find k ≠ some v && overlay.find k ≠ some v
    unset := ((want.filter fun k v => !keeps k v && base.find k = some v &&
        (overlay.find k).isSome).entries.map Prod.fst)++
      ((overlay.filter fun k _ => !isFileEditorExcludedKey k && (base.find k).isSome &&
        (want.find k).isNone).entries.map Prod.fst) }

end Parse

section Lines

/-- What a line gives its key. -/
def settingValue (l : Octets) : Octets := (lineValue l).dropWhile isBlank

/-- A text that is the key of a line it begins. -/
structure KeyForm (k : Octets) : Prop where
  ne_nil : k≠[]
  first : ∀ c∈k.head?,isBlank c=false ∧ c≠hash
  last : ∀ c∈k.getLast?,isBlank c=false
  notMem : equals∉k

theorem isBlank_equals : isBlank equals=false := rfl

theorem takeWhile_key {k : Octets} (h : equals∉k) (v : Octets) :
    (k++equals::v).takeWhile (· ≠ equals)=k := by
  rw [List.takeWhile_append_of_pos fun c hc => by simpa using fun heq : c=equals => h (heq ▸ hc)]
  simp

theorem lineValue_append {k : Octets} (h : equals∉k) (v : Octets) :
    lineValue (k++equals::v)=v := by
  rw [lineValue,List.dropWhile_append_of_pos
    fun c hc => by simpa using fun heq : c=equals => h (heq ▸ hc)]
  simp

theorem dropWhile_isBlank_of_keyForm {k : Octets} (h : KeyForm k) (s : Octets) :
    (k++s).dropWhile isBlank=k++s := by
  cases k with
  | nil => exact absurd rfl h.ne_nil
  | cons c k =>
    have hc := (h.first c rfl).1
    rw [List.cons_append,List.dropWhile_cons_of_neg (by simp [hc])]

theorem rdropWhile_of_keyForm {k : Octets} (h : KeyForm k) : k.rdropWhile isBlank=k := by
  rw [List.rdropWhile_eq_self_iff]
  intro hne
  have hlast := h.last _ (List.getLast?_eq_some_getLast hne)
  simp [hlast]

/-- A key and its value are read back from the line they make. -/
theorem configFileLineKey_append {k : Octets} (h : KeyForm k) (v : Octets) :
    configFileLineKey (k++equals::v)=k := by
  have hdrop := dropWhile_isBlank_of_keyForm h (equals::v)
  have htake := takeWhile_key h.notMem v
  cases k with
  | nil => exact absurd rfl h.ne_nil
  | cons c k =>
    have hc : c≠hash := (h.first c rfl).2
    rw [List.cons_append] at hdrop htake
    rw [configFileLineKey,List.cons_append,hdrop]
    simp only
    rw [if_neg (by simp [hc]),htake,rdropWhile_of_keyForm h]

/-- The first equal sign is behind the blanks a line begins with. -/
theorem dropWhile_equals_dropWhile_isBlank (l : Octets) :
    (l.dropWhile isBlank).dropWhile (· ≠ equals)=l.dropWhile (· ≠ equals) := by
  induction l with
  | nil => rfl
  | cons c l ih =>
    by_cases hc : isBlank c=true
    · have hne : c≠equals := by
        rintro rfl
        exact absurd hc (by simp [isBlank_equals])
      rw [List.dropWhile_cons_of_pos hc,ih,List.dropWhile_cons_of_pos (by simpa using hne)]
    · rw [List.dropWhile_cons_of_neg hc]

theorem isBlank_head_dropWhile {l t : Octets} {c : UInt8} (h : l.dropWhile isBlank=c::t) :
    isBlank c=false := by
  have hhead := List.head?_dropWhile_not isBlank l
  rw [h] at hhead
  simpa using hhead

theorem keyForm_configFileLineKey {l : Octets} (h : configFileLineKey l≠[]) :
    KeyForm (configFileLineKey l) := by
  rw [configFileLineKey] at h ⊢
  split at h
  · exact absurd rfl h
  · next c t hdrop =>
    split_ifs at h with hskip
    · exact absurd rfl h
    simp only [if_neg hskip]
    obtain ⟨hhash,-⟩ := not_or.mp hskip
    have hpre := List.rdropWhile_prefix isBlank ((c::t).takeWhile (· ≠ equals))
    refine ⟨h,fun d hd => ?_,fun d hd => ?_,fun hmem => ?_⟩
    · -- the key begins as the line does
      have hline := hpre.trans (List.takeWhile_prefix _)
      obtain ⟨k,hk⟩ := List.head?_eq_some_iff.mp hd
      rw [hk,List.cons_prefix_cons] at hline
      exact hline.1 ▸ ⟨isBlank_head_dropWhile hdrop,hhash⟩
    · have hlast := List.rdropWhile_last_not isBlank _ h
      rw [Option.mem_def,List.getLast?_eq_some_getLast h] at hd
      rw [Option.some.inj hd] at hlast
      simpa using hlast
    · have hin := List.mem_takeWhile_imp (hpre.subset hmem)
      simp at hin

theorem keyForm_of_keyChar {k : Octets} (hne : k≠[]) (h : k.all keyChar=true) : KeyForm k := by
  have hall : ∀ c∈k,keyChar c=true := List.all_eq_true.mp h
  have hchar : ∀ c : UInt8,keyChar c=true → isBlank c=false ∧ c≠hash ∧ c≠equals := by
    intro c hc
    refine ⟨?_,?_,?_⟩
    · by_contra hb
      rw [Bool.not_eq_false,isBlank,Bool.or_eq_true,decide_eq_true_iff,decide_eq_true_iff] at hb
      obtain rfl|rfl := hb
      · exact absurd hc (by decide)
      · exact absurd hc (by decide)
    · rintro rfl
      exact absurd hc (by decide)
    · rintro rfl
      exact absurd hc (by decide)
  refine ⟨hne,fun c hc => ?_,fun c hc => ?_,fun hmem => ?_⟩
  · have h3 := hchar c (hall c (List.mem_of_mem_head? hc))
    exact ⟨h3.1,h3.2.1⟩
  · exact (hchar c (hall c (List.mem_of_getLast? hc))).1
  · exact (hchar equals (hall equals hmem)).2.2 rfl

end Lines

section Reading

/-- What a text stated of a key: the last of its lines. -/
def stated : List Octets → Octets → Option Octets
  | [],_ => none
  | l::ls,k => (stated ls k).or
      (if k ≠ [] ∧ configFileLineKey l = k then some (settingValue l) else none)

theorem stated_append (ls ms : List Octets) (k : Octets) :
    stated (ls++ms) k=(stated ms k).or (stated ls k) := by
  induction ls with
  | nil => simp [stated]
  | cons l ls ih => rw [List.cons_append,stated,stated,ih,Option.or_assoc]

theorem stated_eq_none_iff {ls : List Octets} {k : Octets} (hk : k≠[]) :
    stated ls k=none ↔ ∀ l∈ls,configFileLineKey l≠k := by
  induction ls with
  | nil => simp [stated]
  | cons l ls ih => simp [stated,Option.or_eq_none_iff,ih,hk,and_comm]

theorem stated_nil_key (ls : List Octets) : stated ls []=none := by
  induction ls with
  | nil => rfl
  | cons l ls ih => simp [stated,ih]

theorem mem_configFileKeys_iff {text k : Octets} :
    k∈configFileKeys text ↔ (stated (fileLines text) k).isSome=true := by
  rw [configFileKeys,List.mem_filter,List.mem_map]
  by_cases hk : k=[]
  · subst hk
    simp [stated_nil_key]
  · have hnone : stated (fileLines text) k=none ↔ ∀ l∈fileLines text,configFileLineKey l≠k :=
      stated_eq_none_iff hk
    rw [← Option.ne_none_iff_isSome,ne_eq (stated _ _),hnone]
    simp [hk]

/-- Where the lines of a key agree, this is what the text stated. -/
theorem stated_eq_some {ls : List Octets} {k v : Octets} (hk : k≠[])
    (hall : ∀ l∈ls,configFileLineKey l=k → settingValue l=v)
    (hsome : ∃ l∈ls,configFileLineKey l=k) : stated ls k=some v := by
  induction ls with
  | nil =>
    obtain ⟨l,hl,-⟩ := hsome
    cases hl
  | cons l ls ih =>
    have hrest : ∀ m∈ls,configFileLineKey m=k → settingValue m=v :=
      fun m hm => hall m (List.mem_cons_of_mem l hm)
    rw [stated]
    by_cases hlater : ∃ m∈ls,configFileLineKey m=k
    · rw [ih hrest hlater]
      rfl
    · have hnone : stated ls k=none := (stated_eq_none_iff hk).mpr fun m hm heq => hlater ⟨m,hm,heq⟩
      obtain ⟨m,hm,hkey⟩ := hsome
      obtain rfl|hm := List.mem_cons.mp hm
      · rw [hnone,if_pos ⟨hk,hkey⟩,hall m List.mem_cons_self hkey]
        rfl
      · exact absurd ⟨m,hm,hkey⟩ hlater

/-- What is stated stands in a line. -/
theorem exists_of_stated {ls : List Octets} {k v : Octets} (h : stated ls k=some v) :
    ∃ l∈ls,configFileLineKey l=k ∧ settingValue l=v := by
  induction ls with
  | nil => cases h
  | cons l ls ih =>
    rw [stated] at h
    cases hlater : stated ls k with
    | some u =>
      rw [hlater,Option.some_or] at h
      obtain ⟨m,hm,hline⟩ := ih (hlater.trans h)
      exact ⟨m,List.mem_cons_of_mem l hm,hline⟩
    | none =>
      rw [hlater,Option.none_or] at h
      split_ifs at h with hk
      exact ⟨l,List.mem_cons_self,hk.2,Option.some.inj h⟩

theorem mem_of_mem_settingValue {l : Octets} {c : UInt8} (h : c∈settingValue l) : c∈l := by
  have hvalue : c∈lineValue l := (List.dropWhile_suffix isBlank).subset h
  exact (List.dropWhile_suffix _).subset (List.mem_of_mem_drop hvalue)

theorem mem_of_mem_fileLines {text l : Octets} {c : UInt8} (h : l∈fileLines text) (hc : c∈l) :
    c∈text := by
  obtain ⟨m,hm,rfl⟩ := List.mem_map.mp h
  exact mem_of_mem_getlines hm ((chomp_isPrefix m).subset hc)

variable {probe : Octets → Octets → Option Octets}

/-- Nothing but blanks, or a comment. -/
def Silent (l : Octets) : Prop := ∀ c∈(l.dropWhile isBlank).head?,c=hash

theorem Silent.key {l : Octets} (h : Silent l) : configFileLineKey l=[] := by
  rw [configFileLineKey]
  split
  · rfl
  · next c t hdrop => exact if_pos (Or.inl (h c (by simp [hdrop])))

theorem Silent.parse {l : Octets} (h : Silent l) : parseLine probe l=.ok none := by
  rw [parseLine]
  split
  · rfl
  · next c t hdrop => exact if_pos (h c (by simp [hdrop]))

/-- What the line of a key must be to be taken. -/
structure Settable (probe : Octets → Octets → Option Octets) (k v : Octets) : Prop where
  chars : k.all keyChar=true
  notBootstrap : isBootstrapConfigKey k=false
  valid : isFileEditorExcludedKey k=false → validateConfigValue probe k v=[]

/-- The line behind its blanks, where it is neither silent nor without an equal sign. -/
theorem line_of_not_silent {l : Octets} (h : ¬Silent l) :
    ∃ c t,l.dropWhile isBlank=c::t ∧ c≠hash ∧
      (equals∈c::t → configFileLineKey l=((c::t).takeWhile (· ≠ equals)).rdropWhile isBlank) ∧
      (equals∉c::t → configFileLineKey l=[]) ∧
      settingValue l=(((c::t).dropWhile (· ≠ equals)).drop 1).dropWhile isBlank := by
  have hvalue := dropWhile_equals_dropWhile_isBlank l
  cases hdrop : l.dropWhile isBlank with
  | nil => exact absurd (fun c hc => by simp [hdrop] at hc) h
  | cons c t =>
    have hc : c≠hash := fun heq => h fun d hd => by
      rw [hdrop] at hd
      exact (Option.some.inj hd) ▸ heq
    rw [hdrop] at hvalue
    refine ⟨c,t,rfl,hc,fun heq => ?_,fun heq => ?_,by rw [settingValue,lineValue,hvalue]⟩
    · simp only [configFileLineKey,hdrop]
      rw [if_neg (not_or.mpr ⟨hc,not_not.mpr heq⟩)]
    · simp only [configFileLineKey,hdrop]
      rw [if_pos (Or.inr heq)]

theorem parseLine_ok {l : Octets} {r : Option (Octets × Octets)} (h : parseLine probe l=.ok r) :
    (Silent l ∧ r=none) ∨
    (configFileLineKey l≠[] ∧ Settable probe (configFileLineKey l) (settingValue l) ∧
      r=if isFileEditorExcludedKey (configFileLineKey l) then none
        else some (configFileLineKey l,settingValue l)) := by
  by_cases hs : Silent l
  · rw [hs.parse] at h
    exact Or.inl ⟨hs,(Except.ok.inj h).symm⟩
  · obtain ⟨c,t,hdrop,hc,hkey,-,hval⟩ := line_of_not_silent hs
    rw [parseLine,hdrop] at h
    simp only [if_neg hc] at h
    split_ifs at h with heq hne hchars hboot hex hvalid
    · rw [← hkey heq] at hne hchars hboot hex
      refine Or.inr ⟨hne,⟨by simpa using hchars,by simpa using hboot,fun hno => ?_⟩,?_⟩
      · exact absurd hex (by simp [hno])
      · rw [if_pos hex]
        exact (Except.ok.inj h).symm
    · rw [← hkey heq] at hne hchars hboot hex hvalid h
      rw [← hval] at hvalid h
      refine Or.inr ⟨hne,⟨by simpa using hchars,by simpa using hboot,fun _ => not_not.mp hvalid⟩,?_⟩
      rw [if_neg hex]
      exact (Except.ok.inj h).symm

theorem parseLine_settable {l : Octets} (hne : configFileLineKey l≠[])
    (h : Settable probe (configFileLineKey l) (settingValue l)) :
    parseLine probe l=.ok (if isFileEditorExcludedKey (configFileLineKey l) then none
      else some (configFileLineKey l,settingValue l)) := by
  have hs : ¬Silent l := fun hs => hne hs.key
  obtain ⟨c,t,hdrop,hc,hkey,hnokey,hval⟩ := line_of_not_silent hs
  have heq : equals∈c::t := by
    by_contra hno
    exact hne (hnokey hno)
  have hkey := hkey heq
  rw [parseLine,hdrop]
  simp only [if_neg hc,if_neg (not_not.mpr heq),← hkey,← hval,if_neg hne,h.chars,h.notBootstrap,
    Bool.true_eq_false,Bool.false_eq_true,if_false]
  by_cases hex : isFileEditorExcludedKey (configFileLineKey l)=true
  · rw [if_pos hex,if_pos hex]
  · rw [if_neg hex,if_neg hex,h.valid (by simpa using hex)]
    simp

/-- What an accepted text asks for is what it states. -/
theorem want_find {ls : List Octets} {m w : Settings} (h : want probe ls m=.ok w) (k : Octets) :
    w.find k=if isFileEditorExcludedKey k then m.find k else (stated ls k).or (m.find k) := by
  induction ls generalizing m with
  | nil =>
    rw [want] at h
    simp [← Except.ok.inj h,stated]
  | cons l ls ih =>
    rw [want] at h
    obtain ⟨r,hr,hrest⟩ := bind_eq_ok_iff.mp h
    obtain ⟨hs,rfl⟩|⟨hne,-,rfl⟩ := parseLine_ok hr
    · rw [ih hrest,stated]
      have hno : ¬(k≠[] ∧ configFileLineKey l=k) := fun hk => hk.1 (hk.2 ▸ hs.key)
      rw [if_neg hno,Option.or_none]
    · by_cases hex : isFileEditorExcludedKey (configFileLineKey l)=true
      · simp only [if_pos hex] at hrest
        rw [ih hrest,stated]
        by_cases hk : isFileEditorExcludedKey k=true
        · rw [if_pos hk,if_pos hk]
        · have hno : ¬(k≠[] ∧ configFileLineKey l=k) := fun h => hk (h.2 ▸ hex)
          rw [if_neg hk,if_neg hk,if_neg hno,Option.or_none]
      · simp only [if_neg hex] at hrest
        rw [ih hrest,OrderedMap.find_insert,stated]
        by_cases hk : k=configFileLineKey l
        · subst hk
          rw [if_neg hex,if_neg hex,if_pos rfl,if_pos ⟨hne,rfl⟩,Option.or_assoc]
          rfl
        · have hno : ¬(k≠[] ∧ configFileLineKey l=k) := fun h => hk h.2.symm
          rw [if_neg hk,if_neg hno,Option.or_none]

/-- A text is accepted line by line. -/
theorem want_ok_iff {ls : List Octets} {m : Settings} :
    (∃ w,want probe ls m=.ok w) ↔ ∀ l∈ls,∃ r,parseLine probe l=.ok r := by
  induction ls generalizing m with
  | nil => simp [want]
  | cons l ls ih =>
    rw [List.forall_mem_cons,want]
    constructor
    · rintro ⟨w,h⟩
      obtain ⟨r,hr,hrest⟩ := bind_eq_ok_iff.mp h
      refine ⟨⟨r,hr⟩,?_⟩
      cases r with
      | none => exact ih.mp ⟨w,hrest⟩
      | some e => exact ih.mp ⟨w,hrest⟩
    · rintro ⟨⟨r,hr⟩,hrest⟩
      rw [hr]
      cases r with
      | none => exact ih.mpr hrest
      | some e => exact ih.mpr hrest

/-- The key of an accepted line is of key characters. -/
theorem zero_notMem_of_stated {ls : List Octets} (h : ∀ l∈ls,∃ r,parseLine probe l=.ok r)
    {k v : Octets} (hs : stated ls k=some v) : 0∉k := by
  obtain ⟨l,hl,rfl,-⟩ := exists_of_stated hs
  obtain ⟨r,hr⟩ := h l hl
  obtain ⟨hsilent,-⟩|⟨-,hset,-⟩ := parseLine_ok hr
  · rw [hsilent.key]
    exact List.not_mem_nil
  · intro hzero
    exact absurd (List.all_eq_true.mp hset.chars 0 hzero) (by decide)

end Reading

section Mask

/-- Lines that are read as they were written. -/
def Tidy (ls : List Octets) : Prop := ∀ l∈ls,newline∉l ∧ l.getLast?≠some carriageReturn

theorem fileLines_putlines {ls : List Octets} (h : Tidy ls) : fileLines (putlines newline ls)=ls := by
  rw [fileLines,getlines_putlines fun l hl => (h l hl).1]
  have hid : ∀ l∈ls,chomp l=l := fun l hl => if_neg (h l hl).2
  exact (List.map_congr_left hid).trans (List.map_id' ls)

theorem newline_notMem_of_mem_fileLines {text l : Octets} (h : l∈fileLines text) : newline∉l := by
  obtain ⟨m,hm,rfl⟩ := List.mem_map.mp h
  exact fun hmem => notMem_of_mem_getlines hm ((chomp_isPrefix m).subset hmem)

theorem mem_of_mem_configFileLineKey {l : Octets} {c : UInt8} (h : c∈configFileLineKey l) : c∈l := by
  rw [configFileLineKey] at h
  split at h
  · cases h
  · next d t hdrop =>
    split_ifs at h
    · cases h
    · have hline := (List.takeWhile_prefix _).subset ((List.rdropWhile_prefix _ _).subset h)
      exact (List.dropWhile_suffix isBlank).subset (hdrop ▸ hline)

theorem any_isBlank_iff {l : Octets} : (l.any fun c => !isBlank c)=true ↔ l.dropWhile isBlank≠[] := by
  rw [ne_eq,List.dropWhile_eq_nil_iff]
  simp

/-- What the stored text shows of a value. -/
def maskedValue (k v : Octets) : Octets := if isSecretConfigKey k ∧ v ≠ [] then mask else v

theorem dropWhile_mask : mask.dropWhile isBlank=mask := by decide

theorem maskLine_key_value (l : Octets) :
    configFileLineKey (maskLine l)=configFileLineKey l ∧
    (configFileLineKey l≠[] →
      settingValue (maskLine l)=maskedValue (configFileLineKey l) (settingValue l)) := by
  rw [maskLine]
  split_ifs with h
  · obtain ⟨hne,hsecret,hany⟩ := h
    have hform := keyForm_configFileLineKey hne
    refine ⟨configFileLineKey_append hform mask,fun _ => ?_⟩
    rw [settingValue,lineValue_append hform.notMem,dropWhile_mask,maskedValue,
      if_pos ⟨hsecret,any_isBlank_iff.mp hany⟩]
  · refine ⟨rfl,fun hne => ?_⟩
    rw [maskedValue,if_neg fun hs => h ⟨hne,hs.1,any_isBlank_iff.mpr hs.2⟩]

/-- The stored text says of each key what the text says of it, under the mask. -/
theorem stated_maskLine (ls : List Octets) (k : Octets) :
    stated (ls.map maskLine) k=(stated ls k).map (maskedValue k) := by
  induction ls with
  | nil => rfl
  | cons l ls ih =>
    obtain ⟨hkey,hvalue⟩ := maskLine_key_value l
    rw [List.map_cons,stated,stated,ih,hkey]
    by_cases hk : k≠[] ∧ configFileLineKey l=k
    · rw [if_pos hk,if_pos hk,hvalue (hk.2.symm ▸ hk.1),hk.2]
      cases stated ls k <;> rfl
    · rw [if_neg hk,if_neg hk,Option.or_none,Option.or_none]

theorem maskLine_maskLine (l : Octets) : maskLine (maskLine l)=maskLine l := by
  obtain ⟨hkey,-⟩ := maskLine_key_value l
  by_cases h : configFileLineKey l≠[] ∧ isSecretConfigKey (configFileLineKey l)=true ∧
      ((lineValue l).any fun c => !isBlank c)=true
  · have hline : maskLine l=configFileLineKey l++equals::mask := if_pos h
    rw [maskLine,hkey,← hline]
    exact ite_self (maskLine l)
  · have hline : maskLine l=l := if_neg h
    rw [hline,hline]

/-- What masking writes is of the line, or the mask. -/
theorem mem_of_mem_maskLine {l : Octets} {c : UInt8} (h : c∈maskLine l) : c∈l ∨ c∈equals::mask := by
  rw [maskLine] at h
  split_ifs at h
  · obtain h|h := List.mem_append.mp h
    · exact Or.inl (mem_of_mem_configFileLineKey h)
    · exact Or.inr h
  · exact Or.inl h

theorem newline_notMem_maskLine {l : Octets} (h : newline∉l) : newline∉maskLine l := by
  intro hmem
  obtain hmem|hmem := mem_of_mem_maskLine hmem
  · exact h hmem
  · exact absurd hmem (by decide)

theorem tidy_maskLine {ls : List Octets} (h : Tidy ls) : Tidy (ls.map maskLine) := by
  intro m hm
  obtain ⟨l,hl,rfl⟩ := List.mem_map.mp hm
  refine ⟨newline_notMem_maskLine (h l hl).1,?_⟩
  rw [maskLine]
  split_ifs with hsecret
  · rw [List.getLast?_append_of_ne_nil _ (List.cons_ne_nil _ _)]
    decide
  · exact (h l hl).2

theorem fileLines_maskConfigFileSecrets {text : Octets} (h : Tidy (fileLines text)) :
    fileLines (maskConfigFileSecrets text)=(fileLines text).map maskLine :=
  fileLines_putlines (tidy_maskLine h)

/-- Masking again changes nothing. -/
theorem maskConfigFileSecrets_idem {text : Octets} (h : Tidy (fileLines text)) :
    maskConfigFileSecrets (maskConfigFileSecrets text)=maskConfigFileSecrets text := by
  rw [maskConfigFileSecrets,fileLines_maskConfigFileSecrets h,List.map_map]
  congr 1
  exact List.map_congr_left fun l _ => maskLine_maskLine l

/-- Of a secret the text shows at most that there is one. -/
def MaskedText (text : Octets) : Prop :=
  ∀ l∈fileLines text,isSecretConfigKey (configFileLineKey l)=true →
    settingValue l=[] ∨ settingValue l=mask

theorem equals_mem_of_key {l : Octets} (h : configFileLineKey l≠[]) : equals∈l.dropWhile isBlank := by
  rw [configFileLineKey] at h
  split at h
  · exact absurd rfl h
  · next c t hdrop =>
    by_contra hno
    exact h (if_pos (Or.inr (hdrop ▸ hno)))

theorem dropWhile_append_of_mem {p : UInt8 → Bool} {l : Octets} {c : UInt8} (hc : c∈l)
    (hp : p c=false) (s : Octets) : (l++s).dropWhile p=l.dropWhile p++s := by
  rw [List.dropWhile_append,if_neg]
  rw [List.isEmpty_iff,List.dropWhile_eq_nil_iff]
  intro hall
  exact absurd (hall c hc) (by simp [hp])

theorem takeWhile_append_of_mem {p : UInt8 → Bool} {l : Octets} {c : UInt8} (hc : c∈l)
    (hp : p c=false) (s : Octets) : (l++s).takeWhile p=l.takeWhile p := by
  rw [List.takeWhile_append,if_neg]
  intro hlen
  have hall : l.takeWhile p=l := (List.takeWhile_prefix p).eq_of_length hlen
  rw [← hall] at hc
  exact absurd (List.mem_takeWhile_imp hc) (by simp [hp])

/-- Octets at the end of a line belong to its value. -/
theorem line_append {l : Octets} (h : configFileLineKey l≠[]) (s : Octets) :
    configFileLineKey (l++s)=configFileLineKey l ∧ lineValue (l++s)=lineValue l++s := by
  have heq := equals_mem_of_key h
  have hmem : equals∈l := (List.dropWhile_suffix isBlank).subset heq
  have hsep : (fun c : UInt8 => decide (c≠equals)) equals=false := by simp
  constructor
  · rw [configFileLineKey,configFileLineKey,dropWhile_append_of_mem hmem isBlank_equals]
    cases hdrop : l.dropWhile isBlank with
    | nil =>
      rw [hdrop] at heq
      cases heq
    | cons c t =>
      rw [hdrop] at heq
      have htake := takeWhile_append_of_mem (p := fun c => decide (c≠equals)) heq hsep s
      rw [List.cons_append] at htake ⊢
      simp only [htake]
      have hmem' : equals∈c::(t++s) := by
        rw [← List.cons_append]
        exact List.mem_append_left s heq
      simp only [heq,hmem',not_true_eq_false,or_false]
  · have hne : l.dropWhile (fun c => decide (c≠equals))≠[] := by
      intro hnil
      have hall := List.dropWhile_eq_nil_iff.mp hnil equals hmem
      simp at hall
    rw [lineValue,lineValue,dropWhile_append_of_mem hmem hsep,
      List.drop_append_of_le_length (List.length_pos_of_ne_nil hne)]

theorem zero_notMem_maskConfigFileSecrets {text : Octets} (h : 0∉text) :
    0∉maskConfigFileSecrets text := by
  intro hzero
  obtain ⟨m,hm,hzero⟩ := List.mem_flatMap.mp hzero
  obtain ⟨l,hl,rfl⟩ := List.mem_map.mp hm
  obtain hzero|hzero := List.mem_append.mp hzero
  · obtain hzero|hzero := mem_of_mem_maskLine hzero
    · exact h (mem_of_mem_fileLines hl hzero)
    · exact absurd hzero (by decide)
  · exact absurd hzero (by decide)

/-- Where the database cuts a text, its lines up to there are whole. -/
theorem exists_of_mem_getlines_cString {ls : List Octets} (h : ∀ l∈ls,newline∉l) {m : Octets}
    (hm : m∈getlines newline (cString (putlines newline ls))) : ∃ l∈ls,m=cString l := by
  induction ls with
  | nil => cases hm
  | cons l ls ih =>
    obtain ⟨hl,hrest⟩ := List.forall_mem_cons.mp h
    rw [putlines_cons] at hm
    by_cases hzero : 0∈l
    · rw [cString_append_of_mem hzero] at hm
      have hcut : newline∉cString l := fun hmem => hl ((List.takeWhile_prefix _).subset hmem)
      by_cases hnil : cString l=[]
      · rw [hnil] at hm
        cases hm
      · rw [getlines_of_notMem hcut hnil,List.mem_singleton] at hm
        exact ⟨l,List.mem_cons_self,hm⟩
    · have hwhole : cString l=l := cString_eq_self_iff.mpr hzero
      have hline : cString (l++newline::putlines newline ls)=
          l++newline::cString (putlines newline ls) := by
        have hsplit := cString_append_of_notMem hzero (newline::putlines newline ls)
        rw [hsplit,cString,List.takeWhile_cons_of_pos (by decide)]
        rfl
      rw [hline,getlines_append_cons hl] at hm
      obtain rfl|hm := List.mem_cons.mp hm
      · exact ⟨m,List.mem_cons_self,hwhole.symm⟩
      · obtain ⟨k,hk,heq⟩ := ih hrest hm
        exact ⟨k,List.mem_cons_of_mem l hk,heq⟩

/-- The text that the database keeps shows no secret, whatever was typed. -/
theorem maskedText_cString (text : Octets) : MaskedText (cString (maskConfigFileSecrets text)) := by
  intro m hm hsecret
  obtain ⟨c,hc,rfl⟩ := List.mem_map.mp hm
  have hlines : ∀ l∈(fileLines text).map maskLine,newline∉l := by
    intro y hy
    obtain ⟨l,hl,rfl⟩ := List.mem_map.mp hy
    exact newline_notMem_maskLine (newline_notMem_of_mem_fileLines hl)
  obtain ⟨y,hy,rfl⟩ := exists_of_mem_getlines_cString hlines hc
  obtain ⟨l,-,rfl⟩ := List.mem_map.mp hy
  have hpre : chomp (cString (maskLine l))<+:maskLine l :=
    (chomp_isPrefix _).trans (List.takeWhile_prefix _)
  have hne : configFileLineKey (chomp (cString (maskLine l)))≠[] := by
    intro hnil
    rw [hnil] at hsecret
    exact absurd hsecret (by decide)
  by_cases hmasked : configFileLineKey l≠[] ∧ isSecretConfigKey (configFileLineKey l)=true ∧
      ((lineValue l).any fun c => !isBlank c)=true
  · have hline : maskLine l=configFileLineKey l++equals::mask := if_pos hmasked
    have hform := keyForm_configFileLineKey hmasked.1
    have hzero : 0∉configFileLineKey l := by
      -- a key that is cut has no equal sign behind it
      intro hzero
      have heq := (List.dropWhile_suffix isBlank).subset (equals_mem_of_key hne)
      rw [hline,cString_append_of_mem hzero] at heq
      exact hform.notMem ((List.takeWhile_prefix _).subset ((chomp_isPrefix _).subset heq))
    have hwhole : cString (maskLine l)=maskLine l := by
      rw [cString_eq_self_iff,hline,List.mem_append]
      rintro (hmem|hmem)
      · exact hzero hmem
      · exact absurd hmem (by decide)
    have hchomp : chomp (maskLine l)=maskLine l := by
      rw [chomp,hline,List.getLast?_append_of_ne_nil _ (List.cons_ne_nil _ _),if_neg (by decide)]
    rw [hwhole,hchomp,hline,settingValue,lineValue_append hform.notMem,dropWhile_mask]
    exact Or.inr rfl
  · have hline : maskLine l=l := if_neg hmasked
    rw [hline] at hpre hne hsecret ⊢
    obtain ⟨s,hs⟩ := hpre
    obtain ⟨hkey,hvalue⟩ := line_append hne s
    rw [hs] at hkey hvalue
    left
    by_contra hshown
    refine hmasked ⟨hkey ▸ hne,hkey ▸ hsecret,?_⟩
    rw [hvalue,List.any_append,any_isBlank_iff.mpr hshown]
    rfl

end Mask

end FastPki.Config
