import FastPki.Framework.Base64
import FastPki.Framework.Hex

namespace FastPki

/-- Base64 as the octets of its text. -/
def base64Text (s : List UInt8) : List UInt8 := (base64 s).map fun c => UInt8.ofNat c.toNat

def padSign : UInt8 := 0x3d

/-- The six bits of an octet of the text. -/
def sextet (c : UInt8) : Option Nat :=
  if 0x41 ≤ c ∧ c ≤ 0x5a then some (c.toNat-0x41)
  else if 0x61 ≤ c ∧ c ≤ 0x7a then some (c.toNat-0x61+26)
  else if 0x30 ≤ c ∧ c ≤ 0x39 then some (c.toNat-0x30+52)
  else if c = 0x2b then some 62
  else if c = 0x2f then some 63
  else none

/-- Four times six bits are three octets. -/
def ofSextets (w x y z : Nat) : List UInt8 :=
  [UInt8.ofNat (w*4+x/16),UInt8.ofNat (x%16*16+y/4),UInt8.ofNat (y%4*64+z)]

/-- The last group may be padded. -/
def base64Decode : List UInt8 → Option (List UInt8)
  | [] => some []
  | a::b::c::d::rest =>
    if rest = [] ∧ c = padSign ∧ d = padSign then
      match sextet a,sextet b with
      | some w,some x => some ((ofSextets w x 0 0).take 1)
      | _,_ => none
    else if rest = [] ∧ d = padSign then
      match sextet a,sextet b,sextet c with
      | some w,some x,some y => some ((ofSextets w x y 0).take 2)
      | _,_,_ => none
    else
      match sextet a,sextet b,sextet c,sextet d with
      | some w,some x,some y,some z => (base64Decode rest).map (ofSextets w x y z++·)
      | _,_,_,_ => none
  | _ => none

/-- The "Q" encoding: a blank is written `_`, any octet may be written `=XX`. -/
def qDecode : List UInt8 → Option (List UInt8)
  | [] => some []
  | c::rest =>
    if c = padSign then
      match rest with
      | h::l::rest' =>
        match Hex.value h,Hex.value l with
        | some x,some y => (qDecode rest').map (UInt8.ofNat (x*16+y)::·)
        | _,_ => none
      | _ => none
    else (qDecode rest).map ((if c = 0x5f then 0x20 else c)::·)

def questionMark : UInt8 := 0x3f

/-- The charsets whose texts are octets of UTF-8. -/
def utf8Charset (name : List UInt8) : Bool :=
  let lower := name.map fun c => if 0x41 ≤ c ∧ c ≤ 0x5a then c+0x20 else c
  -- "utf-8" and "us-ascii"
  lower = [0x75,0x74,0x66,0x2d,0x38] ∨ lower = [0x75,0x73,0x2d,0x61,0x73,0x63,0x69,0x69]

/-- `=?charset?encoding?text?=`, of at most 75 octets; what is nothing of the kind, or of a charset
that is not known here, stands for itself. -/
def decodeWord (w : List UInt8) : Option (List UInt8) :=
  match w.splitOn questionMark with
  | [opening,charset,encoding,text,closing] =>
    if w.length ≤ 75 ∧ opening = [padSign] ∧ closing = [padSign] ∧ utf8Charset charset = true ∧
        text ≠ [] then
      if encoding = [0x42] ∨ encoding = [0x62] then base64Decode text
      else if encoding = [0x51] ∨ encoding = [0x71] then qDecode text
      else none
    else none
  | _ => none

def foldingBlank (c : UInt8) : Bool := c = 0x20 ∨ c = 0x09

/-- A text as its runs of blanks and its words, in turn. -/
def pieces : List UInt8 → List (List UInt8)
  | [] => []
  | c::cs =>
    match pieces cs with
    | [] => [[c]]
    | p::ps => if p.head?.map foldingBlank = some (foldingBlank c) then (c::p)::ps else [c]::p::ps

def startsEncoded : List (List UInt8) → Bool
  | [] => false
  | p::_ => (decodeWord p).isSome

/-- The blanks between two encoded words are not part of the text; `after` says that the piece before
was an encoded word. -/
def joinPieces : Bool → List (List UInt8) → List UInt8
  | _,[] => []
  | after,p::ps =>
    match decodeWord p with
    | some t => t++joinPieces true ps
    | none => (if after ∧ startsEncoded ps = true then [] else p)++joinPieces false ps

/-- An unstructured header value as it is read. -/
def decodeText (s : List UInt8) : List UInt8 := joinPieces false (pieces s)

section Base64

theorem sextet_base64Char {n : Nat} (h : n<64) :
    sextet (UInt8.ofNat (base64Char n).toNat)=some n := by
  have hall : ∀ n<64,sextet (UInt8.ofNat (base64Char n).toNat)=some n := by
    simp only [base64Char,base64Alphabet_eq]
    decide +kernel
  exact hall n h

theorem sextet_padSign : sextet padSign=none := by decide

/-- The octets of a group come back from its sextets. -/
theorem ofSextets_group (a b c : UInt8) :
    ofSextets (a.toNat/4) (a.toNat%4*16+b.toNat/16) (b.toNat%16*4+c.toNat/64) (c.toNat%64)=
      [a,b,c] := by
  have h := octetsOfSextets_sextets [a,b,c]
  rw [sextets,octetsOfSextets_group] at h
  exact h

theorem base64Decode_base64Text (s : List UInt8) : base64Decode (base64Text s)=some s := by
  have hpad : (61 : UInt8)=padSign := rfl
  induction s using base64.induct with
  | case1 => rfl
  | case2 a =>
    have ha := a.toNat_lt
    have hgroup := ofSextets_group a 0 0
    simp only [UInt8.toNat_zero,Nat.zero_div,Nat.zero_mod,Nat.zero_mul,Nat.add_zero] at hgroup
    have h1 : sextet (UInt8.ofNat (base64Char (a.toNat/4)).toNat)=some (a.toNat/4) :=
      sextet_base64Char (by omega)
    have h2 : sextet (UInt8.ofNat (base64Char (a.toNat%4*16)).toNat)=some (a.toNat%4*16) :=
      sextet_base64Char (by omega)
    simp [base64Text,base64,base64Decode,hpad,h1,h2,hgroup]
  | case3 a b =>
    have ha := a.toNat_lt
    have hb := b.toNat_lt
    have hgroup := ofSextets_group a b 0
    simp only [UInt8.toNat_zero,Nat.zero_div,Nat.zero_mod,Nat.add_zero] at hgroup
    have h1 := sextet_base64Char (n := a.toNat/4) (by omega)
    have h2 := sextet_base64Char (n := a.toNat%4*16+b.toNat/16) (by omega)
    have h3 := sextet_base64Char (n := b.toNat%16*4) (by omega)
    have hne : UInt8.ofNat (base64Char (b.toNat%16*4)).toNat≠padSign := by
      intro heq
      rw [heq,sextet_padSign] at h3
      cases h3
    simp [base64Text,base64,base64Decode,hpad,hne,h1,h2,h3,hgroup]
  | case4 a b c rest ih =>
    have ha := a.toNat_lt
    have hb := b.toNat_lt
    have hc := c.toNat_lt
    have hgroup := ofSextets_group a b c
    have h1 := sextet_base64Char (n := a.toNat/4) (by omega)
    have h2 := sextet_base64Char (n := a.toNat%4*16+b.toNat/16) (by omega)
    have h3 := sextet_base64Char (n := b.toNat%16*4+c.toNat/64) (by omega)
    have h4 := sextet_base64Char (n := c.toNat%64) (by omega)
    have hne : UInt8.ofNat (base64Char (c.toNat%64)).toNat≠padSign := by
      intro heq
      rw [heq,sextet_padSign] at h4
      cases h4
    have ih' : base64Decode ((base64 rest).map fun c => UInt8.ofNat c.toNat)=some rest := ih
    simp [base64Text,base64,base64Decode,hne,h1,h2,h3,h4,hgroup,ih']

theorem base64Decode_length {t s : List UInt8} (h : base64Decode t=some s) :
    s.length ≤ t.length := by
  induction t using base64Decode.induct generalizing s with
  | case1 =>
    cases h
    exact Nat.le_refl _
  | case2 a b c d rest hpad w x hb ha =>
    simp only [base64Decode,if_pos hpad,ha,hb,Option.some.injEq] at h
    subst h
    simp [ofSextets]
  | case3 a b c d rest hpad hno =>
    simp only [base64Decode,if_pos hpad] at h
    cases h
  | case4 a b c d rest hno hpad w x y hc hb ha =>
    simp only [base64Decode,if_neg hno,if_pos hpad,ha,hb,hc,Option.some.injEq] at h
    subst h
    simp [ofSextets]
  | case5 a b c d rest hno hpad hnone =>
    simp only [base64Decode,if_neg hno,if_pos hpad] at h
    cases h
  | case6 a b c d rest hno hno' w x y z hd hc hb ha ih =>
    simp only [base64Decode,if_neg hno,if_neg hno',ha,hb,hc,hd,Option.map_eq_some_iff] at h
    obtain ⟨r,hr,rfl⟩ := h
    have hlen := ih hr
    simp [ofSextets]
    omega
  | case7 a b c d rest hno hno' hnone =>
    simp only [base64Decode,if_neg hno,if_neg hno'] at h
    cases h
  | case8 t hnil hno =>
    rw [base64Decode] at h
    · cases h
    · exact hnil
    · exact hno

theorem base64_length (s : List UInt8) : (base64 s).length=4*((s.length+2)/3) := by
  induction s using base64.induct with
  | case1 => rfl
  | case2 a => simp [base64]
  | case3 a b => simp [base64]
  | case4 a b c rest ih =>
    simp only [base64,List.length_cons,ih]
    omega

theorem base64Text_length (s : List UInt8) : (base64Text s).length=4*((s.length+2)/3) := by
  rw [base64Text,List.length_map,base64_length]

/-- Nothing but letters, digits, `+`, `/` and `=` is written. -/
theorem mem_base64Text {s : List UInt8} {c : UInt8} (h : c∈base64Text s) :
    c=padSign ∨ ∃ n,sextet c=some n := by
  have hpad : UInt8.ofNat '='.toNat=padSign := by decide
  obtain ⟨d,hd,rfl⟩ := List.mem_map.mp h
  by_cases heq : d = '='
  · left
    rw [heq,hpad]
  · right
    have hin : d∈base64Alphabet := by
      by_contra hout
      exact not_mem_base64 hout heq s hd
    have hlen : base64Alphabet.length=64 := length_base64Alphabet
    obtain ⟨n,hn,hget⟩ := List.mem_iff_getElem.mp hin
    have hchar : base64Char n=d := by
      rw [base64Char,List.getD_eq_getElem?_getD,List.getElem?_eq_getElem hn,hget]
      rfl
    rw [← hchar]
    exact ⟨n,sextet_base64Char (by omega)⟩

theorem sextet_printable {c : UInt8} {n : Nat} (h : sextet c=some n) : 0x20<c := by
  rw [UInt8.lt_iff_toNat_lt]
  show 32<c.toNat
  unfold sextet at h
  simp only [UInt8.le_iff_toNat_le,UInt8.reduceToNat] at h
  split_ifs at h with hupper hlower hdigit hplus hslash
  · omega
  · omega
  · omega
  · rw [hplus]
    decide
  · rw [hslash]
    decide

theorem base64Text_printable {s : List UInt8} {c : UInt8} (h : c∈base64Text s) : 0x20<c := by
  obtain rfl|⟨n,hn⟩ := mem_base64Text h
  · decide
  · exact sextet_printable hn

end Base64

section Word

theorem qDecode_length {t s : List UInt8} (h : qDecode t=some s) : s.length ≤ t.length := by
  induction t using qDecode.induct generalizing s with
  | case1 =>
    cases h
    exact Nat.le_refl _
  | case2 h' l rest w x hl hh ih =>
    rw [qDecode,if_pos rfl,hh,hl] at h
    change Option.map _ _=some s at h
    rw [Option.map_eq_some_iff] at h
    obtain ⟨r,hr,rfl⟩ := h
    have hlen := ih hr
    simp only [List.length_cons]
    omega
  | case3 h' l rest hno =>
    simp only [qDecode] at h
    cases h
  | case4 rest hno =>
    simp only [qDecode] at h
    cases h
  | case5 c rest hc ih =>
    unfold qDecode at h
    rw [if_neg hc,Option.map_eq_some_iff] at h
    obtain ⟨r,hr,rfl⟩ := h
    have hlen := ih hr
    simp only [List.length_cons]
    omega

/-- An encoded word says less than it takes. -/
theorem decodeWord_length {w t : List UInt8} (h : decodeWord w=some t) : t.length<w.length := by
  have hjoin : [questionMark].intercalate (w.splitOn questionMark)=w :=
    List.intercalate_splitOn questionMark
  unfold decodeWord at h
  split at h
  · rename_i opening charset encoding text closing hsplit
    have htext : t.length ≤ text.length := by
      split_ifs at h
      · exact base64Decode_length h
      · exact qDecode_length h
    rw [hsplit] at hjoin
    have hlen := congrArg List.length hjoin
    simp [List.intercalate] at hlen
    omega
  · cases h

/-- The word that carries `t` in base64. -/
def encodedWord (t : List UInt8) : List UInt8 :=
  -- "=?UTF-8?B?" and "?="
  [0x3d,0x3f,0x55,0x54,0x46,0x2d,0x38,0x3f,0x42,0x3f]++base64Text t++[0x3f,0x3d]

theorem encodedWord_length (t : List UInt8) : (encodedWord t).length=4*((t.length+2)/3)+12 := by
  simp only [encodedWord,List.length_append,base64Text_length,List.length_cons,List.length_nil]
  omega

/-- Up to 45 octets fit into one word. -/
theorem decodeWord_encodedWord {t : List UInt8} (hne : t≠[]) (hlen : t.length ≤ 45) :
    decodeWord (encodedWord t)=some t := by
  have hparts : encodedWord t=[questionMark].intercalate
      [[padSign],[0x55,0x54,0x46,0x2d,0x38],[0x42],base64Text t,[padSign]] := by
    simp [encodedWord,List.intercalate,questionMark,padSign]
  have hclear : ∀ l∈[[padSign],[0x55,0x54,0x46,0x2d,0x38],[0x42],base64Text t,[padSign]],
      questionMark∉l := by
    intro l hl hmark
    simp only [List.mem_cons,List.not_mem_nil,or_false] at hl
    obtain rfl|rfl|rfl|rfl|rfl := hl
    · revert hmark; decide
    · revert hmark; decide
    · revert hmark; decide
    · obtain hpad|⟨n,hs⟩ := mem_base64Text hmark
      · revert hpad; decide
      · have hnone : sextet questionMark=none := by decide
        rw [hnone] at hs
        cases hs
    · revert hmark; decide
  have hsplit : (encodedWord t).splitOn questionMark=
      [[padSign],[0x55,0x54,0x46,0x2d,0x38],[0x42],base64Text t,[padSign]] := by
    rw [hparts]
    exact List.splitOn_intercalate questionMark hclear (by simp)
  have hfit : (encodedWord t).length ≤ 75 := by
    rw [encodedWord_length]
    omega
  have htext : base64Text t≠[] := by
    intro hnil
    have hzero := base64Text_length t
    rw [hnil] at hzero
    have hpos : 0<t.length := List.length_pos_iff.mpr hne
    simp only [List.length_nil] at hzero
    omega
  have hset : utf8Charset [0x55,0x54,0x46,0x2d,0x38]=true := by decide
  unfold decodeWord
  rw [hsplit]
  simp only [hfit,hset,htext,ne_eq,not_false_eq_true,and_self,if_true,true_or,
    base64Decode_base64Text]

end Word

section Text

theorem pieces_flatten (s : List UInt8) : (pieces s).flatten=s := by
  induction s with
  | nil => rfl
  | cons c cs ih =>
    rw [pieces]
    split
    · rename_i hnil
      rw [hnil] at ih
      simp [← ih]
    · rename_i p ps hps
      rw [hps] at ih
      split_ifs
      · simp [← ih]
      · simp [← ih]

/-- A text without an encoded word is read as it stands. -/
theorem joinPieces_plain {ps : List (List UInt8)} (h : ∀ p∈ps,decodeWord p=none) (after : Bool) :
    joinPieces after ps=ps.flatten := by
  induction ps generalizing after with
  | nil => rfl
  | cons p ps ih =>
    have hp : decodeWord p=none := h p List.mem_cons_self
    have hps : ∀ q∈ps,decodeWord q=none := fun q hq => h q (List.mem_cons_of_mem p hq)
    have hnext : startsEncoded ps=false := by
      cases ps with
      | nil => rfl
      | cons q qs => simp [startsEncoded,hps q List.mem_cons_self]
    simp [joinPieces,hp,hnext,ih hps]

theorem joinPieces_length (ps : List (List UInt8)) (after : Bool) :
    (joinPieces after ps).length ≤ ps.flatten.length := by
  induction ps generalizing after with
  | nil => exact Nat.le_refl _
  | cons p ps ih =>
    rw [List.flatten_cons,List.length_append,joinPieces]
    cases hp : decodeWord p with
    | none =>
      have hrest := ih false
      have hfirst : (if after ∧ startsEncoded ps=true then [] else p).length ≤ p.length := by
        split_ifs
        · exact Nat.zero_le _
        · exact Nat.le_refl _
      simp only [List.length_append]
      omega
    | some t =>
      have hrest := ih true
      have hfirst := decodeWord_length hp
      simp only [List.length_append]
      omega

/-- With an encoded word in it the text that is read is a shorter one. -/
theorem joinPieces_shorter {ps : List (List UInt8)} {w : List UInt8} (hw : w∈ps)
    (h : decodeWord w≠none) (after : Bool) :
    (joinPieces after ps).length<ps.flatten.length := by
  induction ps generalizing after with
  | nil => cases hw
  | cons p ps ih =>
    rw [List.flatten_cons,List.length_append,joinPieces]
    cases hp : decodeWord p with
    | none =>
      have htail : w∈ps := by
        obtain rfl|htail := List.mem_cons.mp hw
        · exact absurd hp h
        · exact htail
      have hrest := ih htail false
      have hfirst : (if after ∧ startsEncoded ps=true then [] else p).length ≤ p.length := by
        split_ifs
        · exact Nat.zero_le _
        · exact Nat.le_refl _
      simp only [List.length_append]
      omega
    | some t =>
      have hrest := joinPieces_length ps true
      have hfirst := decodeWord_length hp
      simp only [List.length_append]
      omega

/-- A text means itself exactly when none of its words is an encoded word. -/
theorem decodeText_eq_self_iff (s : List UInt8) :
    decodeText s=s ↔ ∀ w∈pieces s,decodeWord w=none := by
  constructor
  · intro h w hw
    by_contra hsome
    have hlen := joinPieces_shorter hw hsome false
    rw [pieces_flatten] at hlen
    have hsame := congrArg List.length h
    rw [decodeText] at hsame
    omega
  · intro h
    rw [decodeText,joinPieces_plain h,pieces_flatten]

theorem pieces_cons (c : UInt8) (cs : List UInt8) : ∃ p ps,pieces (c::cs)=(c::p)::ps := by
  rw [pieces]
  split
  · exact ⟨[],[],rfl⟩
  · rename_i p ps _
    split_ifs
    · exact ⟨p,ps,rfl⟩
    · exact ⟨[],p::ps,rfl⟩

/-- A word that a blank or nothing follows is a piece. -/
theorem pieces_word {w rest : List UInt8} (hne : w≠[]) (hword : ∀ c∈w,foldingBlank c=false)
    (hrest : ∀ c∈rest.head?,foldingBlank c=true) : pieces (w++rest)=w::pieces rest := by
  induction w with
  | nil => exact absurd rfl hne
  | cons c w ih =>
    have hc : foldingBlank c=false := hword c List.mem_cons_self
    cases w with
    | nil =>
      cases rest with
      | nil => rfl
      | cons d ds =>
        have hd : foldingBlank d=true := hrest d rfl
        obtain ⟨p,ps,hps⟩ := pieces_cons d ds
        rw [List.singleton_append,pieces,hps]
        simp [hc,hd]
    | cons c' w =>
      have hc' : foldingBlank c'=false := hword c' (by simp)
      have htail : pieces (c'::w++rest)=(c'::w)::pieces rest :=
        ih (by simp) fun x hx => hword x (List.mem_cons_of_mem c hx)
      rw [List.cons_append,pieces,htail]
      simp [hc,hc']

theorem pieces_blank {w : List UInt8} (rest : List UInt8) (hne : w≠[])
    (hword : ∀ c∈w,foldingBlank c=false) :
    pieces (0x20::(w++rest))=[0x20]::pieces (w++rest) := by
  cases w with
  | nil => exact absurd rfl hne
  | cons c w =>
    have hc : foldingBlank c=false := hword c List.mem_cons_self
    have hblank : foldingBlank 0x20=true := by decide
    obtain ⟨p,ps,hps⟩ := pieces_cons c (w++rest)
    rw [List.cons_append,pieces,hps]
    simp [hc,hblank]

theorem pieces_intercalate {ws : List (List UInt8)}
    (h : ∀ w∈ws,w≠[] ∧ ∀ c∈w,foldingBlank c=false) :
    pieces ([0x20].intercalate ws)=ws.intersperse [0x20] := by
  induction ws with
  | nil => rfl
  | cons w ws ih =>
    obtain ⟨hne,hword⟩ := h w List.mem_cons_self
    have hws : ∀ v∈ws,v≠[] ∧ ∀ c∈v,foldingBlank c=false :=
      fun v hv => h v (List.mem_cons_of_mem w hv)
    cases ws with
    | nil =>
      have hone : pieces (w++[])=w::pieces [] := pieces_word hne hword (by simp)
      simpa [List.intercalate,pieces] using hone
    | cons v vs =>
      obtain ⟨hne',hword'⟩ := hws v List.mem_cons_self
      have hrest : ∃ r,[0x20].intercalate (v::vs)=v++r := by
        cases vs with
        | nil => exact ⟨[],by simp [List.intercalate]⟩
        | cons u us => exact ⟨0x20::[0x20].intercalate (u::us),by simp [List.intercalate]⟩
      obtain ⟨r,hr⟩ := hrest
      have hsplit : [0x20].intercalate (w::v::vs)=w++0x20::(v++r) := by
        rw [← hr]
        simp [List.intercalate]
      have hblank : ∀ c∈(0x20::(v++r)).head?,foldingBlank c=true := by
        intro c hc
        obtain rfl := Option.some.inj hc
        decide
      rw [hsplit,pieces_word hne hword hblank,pieces_blank r hne' hword',← hr,ih hws]
      rfl

theorem encodedWord_printable {t : List UInt8} {c : UInt8} (h : c∈encodedWord t) : 0x20<c := by
  have hends : ∀ c∈[0x3d,0x3f,0x55,0x54,0x46,0x2d,0x38,0x3f,0x42,0x3f,0x3f,0x3d],(0x20 : UInt8)<c := by
    decide +kernel
  simp only [encodedWord,List.mem_append] at h
  obtain (hfront|htext)|hback := h
  · exact hends c (List.mem_append_left [0x3f,0x3d] hfront)
  · exact base64Text_printable htext
  · exact hends c (List.mem_append_right [0x3d,0x3f,0x55,0x54,0x46,0x2d,0x38,0x3f,0x42,0x3f] hback)

theorem foldingBlank_of_printable {c : UInt8} (h : 0x20<c) : foldingBlank c=false := by
  apply decide_eq_false
  rintro (rfl|rfl)
  · exact absurd h (by decide)
  · exact absurd h (by decide)

/-- The words of a text that was cut into chunks are read as the text. -/
theorem decodeText_encodedWords {chunks : List (List UInt8)}
    (h : ∀ t∈chunks,t≠[] ∧ t.length ≤ 45) :
    decodeText ([0x20].intercalate (chunks.map encodedWord))=chunks.flatten := by
  have hwords : ∀ w∈chunks.map encodedWord,w≠[] ∧ ∀ c∈w,foldingBlank c=false := by
    intro w hw
    obtain ⟨t,_,rfl⟩ := List.mem_map.mp hw
    exact ⟨by simp [encodedWord],fun c hc => foldingBlank_of_printable (encodedWord_printable hc)⟩
  rw [decodeText,pieces_intercalate hwords]
  clear hwords
  generalize false=after
  induction chunks generalizing after with
  | nil => rfl
  | cons t chunks ih =>
    obtain ⟨hne,hlen⟩ := h t List.mem_cons_self
    have hdecode := decodeWord_encodedWord hne hlen
    have hrest : ∀ u∈chunks,u≠[] ∧ u.length ≤ 45 := fun u hu => h u (List.mem_cons_of_mem t hu)
    cases chunks with
    | nil => simp [joinPieces,hdecode]
    | cons u us =>
      obtain ⟨hne',hlen'⟩ := hrest u List.mem_cons_self
      have hnext := decodeWord_encodedWord hne' hlen'
      have hblank : decodeWord [0x20]=none := by decide
      have hstarts : startsEncoded (((u::us).map encodedWord).intersperse [0x20])=true := by
        cases us with
        | nil => simp [startsEncoded,hnext]
        | cons v vs => simp [startsEncoded,hnext]
      have hih := ih hrest false
      rw [List.map_cons,List.map_cons,List.intersperse_cons_cons,joinPieces,hdecode,joinPieces,hblank,
        ← List.map_cons,List.flatten_cons,← hih,hstarts]
      simp

end Text

end FastPki
