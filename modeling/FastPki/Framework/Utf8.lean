import Mathlib.Tactic.Common

namespace FastPki

/-- What may follow the first octet of a character: mostly any of `80-BF`, but less where the
character would be too long a form, a surrogate or out of range. -/
inductive Utf8Trail where
  | any | noOverlong3 | noSurrogate | noOverlong4 | inRange
  deriving DecidableEq

def Utf8Trail.accepts : Utf8Trail → UInt8 → Bool
  | any,c => 0x80 ≤ c && c ≤ 0xbf
  | noOverlong3,c => 0xa0 ≤ c && c ≤ 0xbf
  | noSurrogate,c => 0x80 ≤ c && c ≤ 0x9f
  | noOverlong4,c => 0x90 ≤ c && c ≤ 0xbf
  | inRange,c => 0x80 ≤ c && c ≤ 0x8f

/-- The octets that the first octet of a character calls for. -/
def utf8Lead (c : UInt8) : Option (List Utf8Trail) :=
  if c < 0x80 then some []
  else if 0xc2 ≤ c ∧ c ≤ 0xdf then some [.any]
  else if c = 0xe0 then some [.noOverlong3,.any]
  else if c = 0xed then some [.noSurrogate,.any]
  else if 0xe1 ≤ c ∧ c ≤ 0xef then some [.any,.any]
  else if c = 0xf0 then some [.noOverlong4,.any,.any]
  else if 0xf1 ≤ c ∧ c ≤ 0xf3 then some [.any,.any,.any]
  else if c = 0xf4 then some [.inRange,.any,.any]
  else none

def utf8Step : List Utf8Trail → UInt8 → Option (List Utf8Trail)
  | [],c => utf8Lead c
  | t::ts,c => if t.accepts c then some ts else none

def utf8Run (owed : List Utf8Trail) (text : List UInt8) : Option (List Utf8Trail) :=
  text.foldlM utf8Step owed

/-- A text as the octets spell it. -/
def textOf (o : List UInt8) : Option String :=
  (ByteArray.utf8Decode? ⟨⟨o⟩⟩).map fun cs => String.ofList cs.toList

def validUtf8 (text : List UInt8) : Bool := utf8Run [] text = some []

theorem utf8Run_append (owed : List Utf8Trail) (a b : List UInt8) :
    utf8Run owed (a++b)=(utf8Run owed a).bind fun owed' => utf8Run owed' b :=
  List.foldlM_append

/-- ASCII stands between characters only. -/
theorem utf8Step_ascii {c : UInt8} (hc : c<0x80) (owed : List Utf8Trail) :
    utf8Step owed c=if owed=[] then some [] else none := by
  cases owed with
  | nil => simp [utf8Step,utf8Lead,hc]
  | cons t ts =>
    have hno : t.accepts c=false := by
      rw [UInt8.lt_iff_toNat_lt] at hc
      have hlow : c.toNat<128 := hc
      cases t <;> simp [Utf8Trail.accepts,UInt8.le_iff_toNat_le] <;> omega
    simp [utf8Step,hno]

theorem utf8Run_ascii {w : List UInt8} (hw : ∀ c∈w,c<0x80) : utf8Run [] w=some [] := by
  induction w with
  | nil => rfl
  | cons c w ih =>
    rw [utf8Run,List.foldlM_cons,utf8Step_ascii (hw c List.mem_cons_self),if_pos rfl]
    exact ih fun x hx => hw x (List.mem_cons_of_mem _ hx)

theorem validUtf8_of_ascii {w : List UInt8} (hw : ∀ c∈w,c<0x80) : validUtf8 w=true :=
  decide_eq_true (utf8Run_ascii hw)

theorem validUtf8_append {a b : List UInt8} (ha : validUtf8 a=true) (hb : validUtf8 b=true) :
    validUtf8 (a++b)=true := by
  rw [validUtf8,decide_eq_true_eq] at *
  rw [utf8Run_append,ha]
  exact hb

/-- Before text ASCII makes no difference. -/
theorem validUtf8_ascii_append {w : List UInt8} (hw : ∀ c∈w,c<0x80) (t : List UInt8) :
    validUtf8 (w++t)=validUtf8 t := by
  rw [validUtf8,validUtf8,utf8Run_append,utf8Run_ascii hw]
  rfl

/-- Between ASCII a text is valid by itself. -/
theorem validUtf8_of_append {w a b : List UInt8} {c : UInt8} (hw : ∀ c∈w,c<0x80) (hc : c<0x80)
    (h : validUtf8 (w++(a++c::b))=true) : validUtf8 a=true := by
  rw [validUtf8_ascii_append hw,validUtf8,decide_eq_true_eq,utf8Run_append] at h
  obtain ⟨owed,ha,hrest⟩ := Option.bind_eq_some_iff.mp h
  rw [utf8Run,List.foldlM_cons,utf8Step_ascii hc] at hrest
  by_cases howed : owed=[]
  · rw [validUtf8,decide_eq_true_eq,ha,howed]
  · rw [if_neg howed] at hrest
    cases hrest

/-- A text in which some ASCII octets are written as longer ASCII. -/
inductive Spells : List UInt8 → List UInt8 → Prop where
  | nil : Spells [] []
  | raw (c : UInt8) {u t : List UInt8} : Spells u t → Spells (c::u) (c::t)
  | escaped {c : UInt8} (hc : c<0x80) {w : List UInt8} (hne : w≠[]) (hw : ∀ x∈w,x<0x80)
    {u t : List UInt8} : Spells u t → Spells (c::u) (w++t)

theorem Spells.utf8Run_eq {u t : List UInt8} (h : Spells u t) (owed : List Utf8Trail) :
    utf8Run owed t=utf8Run owed u := by
  induction h generalizing owed with
  | nil => rfl
  | raw c _ ih =>
    rw [utf8Run,utf8Run,List.foldlM_cons,List.foldlM_cons]
    exact congrArg _ (funext ih)
  | @escaped c hc w hne hw u t _ ih =>
    have hword : utf8Run owed w=if owed=[] then some [] else none := by
      cases w with
      | nil => exact absurd rfl hne
      | cons x w =>
        rw [utf8Run,List.foldlM_cons,utf8Step_ascii (hw x List.mem_cons_self)]
        split_ifs
        · exact utf8Run_ascii fun y hy => hw y (List.mem_cons_of_mem _ hy)
        · rfl
    rw [utf8Run_append,hword,utf8Run,List.foldlM_cons,utf8Step_ascii hc]
    split_ifs
    · exact ih []
    · rfl

/-- How ASCII is written makes a text neither valid nor invalid. -/
theorem Spells.validUtf8_eq {u t : List UInt8} (h : Spells u t) : validUtf8 t=validUtf8 u := by
  rw [validUtf8,validUtf8,h.utf8Run_eq]

section Characters

theorem utf8Lead_eq (c : UInt8) : utf8Lead c=
    if c.toNat<0x80 then some []
    else if 0xc2 ≤ c.toNat ∧ c.toNat ≤ 0xdf then some [.any]
    else if c.toNat=0xe0 then some [.noOverlong3,.any]
    else if c.toNat=0xed then some [.noSurrogate,.any]
    else if 0xe1 ≤ c.toNat ∧ c.toNat ≤ 0xef then some [.any,.any]
    else if c.toNat=0xf0 then some [.noOverlong4,.any,.any]
    else if 0xf1 ≤ c.toNat ∧ c.toNat ≤ 0xf3 then some [.any,.any,.any]
    else if c.toNat=0xf4 then some [.inRange,.any,.any]
    else none := by
  simp only [utf8Lead,UInt8.lt_iff_toNat_lt,UInt8.le_iff_toNat_le,← UInt8.toNat_inj]
  rfl

/-- The octets a trail octet may be. -/
def Utf8Trail.low : Utf8Trail → Nat
  | any | noSurrogate | inRange => 0x80
  | noOverlong3 => 0xa0
  | noOverlong4 => 0x90

def Utf8Trail.high : Utf8Trail → Nat
  | any | noOverlong3 | noOverlong4 => 0xbf
  | noSurrogate => 0x9f
  | inRange => 0x8f

theorem accepts_iff (t : Utf8Trail) (c : UInt8) :
    t.accepts c=true ↔ t.low ≤ c.toNat ∧ c.toNat ≤ t.high := by
  cases t <;> simp only [Utf8Trail.accepts,Bool.and_eq_true,decide_eq_true_eq,UInt8.le_iff_toNat_le] <;>
    rfl

theorem toNat_ofNat_octet {n : Nat} (h : n<256) : (UInt8.ofNat n).toNat=n := by
  rw [UInt8.toNat_ofNat']
  exact Nat.mod_eq_of_lt h

/-- A first octet with what must follow it. -/
theorem utf8Run_cons (c : UInt8) (text : List UInt8) :
    utf8Run [] (c::text)=(utf8Lead c).bind fun owed => utf8Run owed text := rfl

theorem utf8Run_owed {t : Utf8Trail} {ts : List Utf8Trail} {c : UInt8} {text : List UInt8}
    (h : t.accepts c=true) : utf8Run (t::ts) (c::text)=utf8Run ts text := by
  rw [utf8Run,List.foldlM_cons,utf8Step,if_pos h]
  rfl

/-- A character is written as the machine reads one. -/
theorem utf8Run_utf8EncodeChar (c : Char) : utf8Run [] (String.utf8EncodeChar c)=some [] := by
  have hvalid : c.val.toNat<0xd800 ∨ 0xdfff<c.val.toNat ∧ c.val.toNat<0x110000 := c.valid
  rw [String.utf8EncodeChar]
  generalize c.val.toNat=v at hvalid
  split_ifs with h1 h2 h3
  · rw [utf8Run_cons,utf8Lead_eq,toNat_ofNat_octet (by omega),if_pos (by omega)]
    rfl
  · rw [utf8Run_cons,utf8Lead_eq,toNat_ofNat_octet (by omega),if_neg (by omega),if_pos (by omega),
      Option.bind_some,utf8Run_owed]
    · rfl
    · rw [accepts_iff,toNat_ofNat_octet (by omega)]
      simp only [Utf8Trail.low,Utf8Trail.high]
      omega
  · rw [utf8Run_cons,utf8Lead_eq,toNat_ofNat_octet (by omega)]
    split_ifs <;> first | omega | skip
    all_goals
      rw [Option.bind_some,utf8Run_owed,utf8Run_owed]
      · rfl
      all_goals
        rw [accepts_iff,toNat_ofNat_octet (by omega)]
        simp only [Utf8Trail.low,Utf8Trail.high]
        omega
  · rw [utf8Run_cons,utf8Lead_eq,toNat_ofNat_octet (by omega)]
    split_ifs <;> first | omega | skip
    all_goals
      rw [Option.bind_some,utf8Run_owed,utf8Run_owed,utf8Run_owed]
      · rfl
      all_goals
        rw [accepts_iff,toNat_ofNat_octet (by omega)]
        simp only [Utf8Trail.low,Utf8Trail.high]
        omega

theorem validUtf8_utf8EncodeChar (c : Char) : validUtf8 (String.utf8EncodeChar c)=true :=
  decide_eq_true (utf8Run_utf8EncodeChar c)

/-- What is owed comes first, one octet for each place. -/
theorem exists_of_utf8Run {owed : List Utf8Trail} {text : List UInt8} (h : utf8Run owed text=some []) :
    ∃ ts rest,text=ts++rest ∧ List.Forall₂ (fun t c => t.accepts c=true) owed ts ∧
      utf8Run [] rest=some [] := by
  induction owed generalizing text with
  | nil => exact ⟨[],text,rfl,.nil,h⟩
  | cons t owed ih =>
    cases text with
    | nil => cases h
    | cons c text =>
      rw [utf8Run,List.foldlM_cons] at h
      obtain ⟨next,hstep,hrest⟩ := Option.bind_eq_some_iff.mp h
      rw [utf8Step] at hstep
      split_ifs at hstep with hc
      cases hstep
      obtain ⟨ts,rest,rfl,hts,hrun⟩ := ih hrest
      exact ⟨c::ts,rest,rfl,.cons hc hts,hrun⟩

theorem val_ofNat {n : Nat} (h : n<0xd800 ∨ 0xdfff<n ∧ n<0x110000) :
    (Char.ofNat n).val.toNat=n := by
  rw [Char.ofNat,dif_pos h]
  rfl

theorem ofNat_eq_octet {n : Nat} {c : UInt8} (h : n=c.toNat) : UInt8.ofNat n=c := by
  rw [h,UInt8.ofNat_toNat]

/-- Beyond ASCII no octet of a character is ASCII. -/
theorem utf8EncodeChar_high {c : Char} (h : 0x80 ≤ c.val.toNat) :
    ∀ b∈String.utf8EncodeChar c,0x80 ≤ b.toNat := by
  have hvalid : c.val.toNat<0xd800 ∨ 0xdfff<c.val.toNat ∧ c.val.toNat<0x110000 := c.valid
  have hoctet : ∀ n,0x80 ≤ n → n<256 → 0x80 ≤ (UInt8.ofNat n).toNat := by
    intro n hlow hhigh
    rw [toNat_ofNat_octet hhigh]
    exact hlow
  rw [String.utf8EncodeChar]
  split_ifs with h1 h2 h3
  · omega
  all_goals
    intro b hb
    simp only [List.mem_cons,List.not_mem_nil,or_false] at hb
  · obtain rfl|rfl := hb
    all_goals exact hoctet _ (by omega) (by omega)
  · obtain rfl|rfl|rfl := hb
    all_goals exact hoctet _ (by omega) (by omega)
  · obtain rfl|rfl|rfl|rfl := hb
    all_goals exact hoctet _ (by omega) (by omega)

theorem utf8EncodeChar_low {c : Char} (h : c.val.toNat<0x80) :
    String.utf8EncodeChar c=[UInt8.ofNat c.val.toNat] := by
  rw [String.utf8EncodeChar,if_pos (by omega)]

/-- Only the NUL is written with a zero. -/
theorem zero_notMem_utf8EncodeChar {c : Char} (h : c ≠ '\x00') : 0∉String.utf8EncodeChar c := by
  intro hzero
  by_cases hlow : c.val.toNat<0x80
  · rw [utf8EncodeChar_low hlow,List.mem_singleton] at hzero
    have hval : c.val.toNat=0 := by
      have hcast := congrArg UInt8.toNat hzero
      rw [toNat_ofNat_octet (by omega)] at hcast
      exact hcast.symm
    apply h
    rw [← Char.ofNat_toNat c,Char.toNat,hval]
  · exact absurd (utf8EncodeChar_high (Nat.not_lt.mp hlow) 0 hzero) (by decide)

/-- Text of ASCII is an octet for each character. -/
theorem utf8EncodeChar_ascii {c : UInt8} (h : c<0x80) :
    String.utf8EncodeChar (Char.ofNat c.toNat)=[c] := by
  have hlt : c.toNat<128 := UInt8.lt_iff_toNat_lt.mp h
  have hval : (Char.ofNat c.toNat).val.toNat=c.toNat := val_ofNat (by omega)
  rw [utf8EncodeChar_low (by omega),hval,UInt8.ofNat_toNat]

section Assemble

variable {c x y z : UInt8}

theorem exists_encoded_two (hc : 0xc2 ≤ c.toNat ∧ c.toNat ≤ 0xdf)
    (hx : 0x80 ≤ x.toNat ∧ x.toNat ≤ 0xbf) : ∃ ch,String.utf8EncodeChar ch=[c,x] := by
  refine ⟨Char.ofNat ((c.toNat-0xc0)*64+(x.toNat-0x80)),?_⟩
  rw [String.utf8EncodeChar,val_ofNat (by omega),if_neg (by omega),if_pos (by omega),
    ofNat_eq_octet (c := c) (by omega),ofNat_eq_octet (c := x) (by omega)]

/-- Neither too long a form nor a surrogate. -/
theorem exists_encoded_three (hc : 0xe0 ≤ c.toNat ∧ c.toNat ≤ 0xef)
    (hx : 0x80 ≤ x.toNat ∧ x.toNat ≤ 0xbf) (hy : 0x80 ≤ y.toNat ∧ y.toNat ≤ 0xbf)
    (hlong : c.toNat=0xe0 → 0xa0 ≤ x.toNat) (hsurrogate : c.toNat=0xed → x.toNat ≤ 0x9f) :
    ∃ ch,String.utf8EncodeChar ch=[c,x,y] := by
  refine ⟨Char.ofNat ((c.toNat-0xe0)*4096+(x.toNat-0x80)*64+(y.toNat-0x80)),?_⟩
  rw [String.utf8EncodeChar,val_ofNat (by omega),if_neg (by omega),if_neg (by omega),
    if_pos (by omega),ofNat_eq_octet (c := c) (by omega),ofNat_eq_octet (c := x) (by omega),
    ofNat_eq_octet (c := y) (by omega)]

/-- Neither too long a form nor out of range. -/
theorem exists_encoded_four (hc : 0xf0 ≤ c.toNat ∧ c.toNat ≤ 0xf4)
    (hx : 0x80 ≤ x.toNat ∧ x.toNat ≤ 0xbf) (hy : 0x80 ≤ y.toNat ∧ y.toNat ≤ 0xbf)
    (hz : 0x80 ≤ z.toNat ∧ z.toNat ≤ 0xbf) (hlong : c.toNat=0xf0 → 0x90 ≤ x.toNat)
    (hrange : c.toNat=0xf4 → x.toNat ≤ 0x8f) : ∃ ch,String.utf8EncodeChar ch=[c,x,y,z] := by
  refine ⟨Char.ofNat ((c.toNat-0xf0)*262144+(x.toNat-0x80)*4096+(y.toNat-0x80)*64+
    (z.toNat-0x80)),?_⟩
  rw [String.utf8EncodeChar,val_ofNat (by omega),if_neg (by omega),if_neg (by omega),
    if_neg (by omega),ofNat_eq_octet (c := c) (by omega),ofNat_eq_octet (c := x) (by omega),
    ofNat_eq_octet (c := y) (by omega),ofNat_eq_octet (c := z) (by omega)]

end Assemble

theorem accepts_range {t : Utf8Trail} {c : UInt8} (h : t.accepts c=true) :
    0x80 ≤ c.toNat ∧ c.toNat ≤ 0xbf := by
  rw [accepts_iff] at h
  cases t <;> simp only [Utf8Trail.low,Utf8Trail.high] at h <;> omega

/-- What the machine reads as a character is one. -/
theorem exists_utf8EncodeChar {c : UInt8} {owed : List Utf8Trail} {ts : List UInt8}
    (h : utf8Lead c=some owed) (hts : List.Forall₂ (fun t c => t.accepts c=true) owed ts) :
    ∃ ch,String.utf8EncodeChar ch=c::ts := by
  rw [utf8Lead_eq] at h
  split_ifs at h with h1 h2 h3 h4 h5 h6 h7 h8
  all_goals cases h
  · cases hts
    exact ⟨_,utf8EncodeChar_ascii (UInt8.lt_iff_toNat_lt.mpr h1)⟩
  · obtain _|⟨hx,_|_⟩ := hts
    exact exists_encoded_two h2 (accepts_range hx)
  · obtain _|⟨hx,_|⟨hy,_|_⟩⟩ := hts
    exact exists_encoded_three (by omega) (accepts_range hx) (accepts_range hy)
      (fun _ => ((accepts_iff _ _).mp hx).1) (by omega)
  · obtain _|⟨hx,_|⟨hy,_|_⟩⟩ := hts
    exact exists_encoded_three (by omega) (accepts_range hx) (accepts_range hy) (by omega)
      fun _ => ((accepts_iff _ _).mp hx).2
  · obtain _|⟨hx,_|⟨hy,_|_⟩⟩ := hts
    exact exists_encoded_three (by omega) (accepts_range hx) (accepts_range hy) (by omega) (by omega)
  · obtain _|⟨hx,_|⟨hy,_|⟨hz,_|_⟩⟩⟩ := hts
    exact exists_encoded_four (by omega) (accepts_range hx) (accepts_range hy) (accepts_range hz)
      (fun _ => ((accepts_iff _ _).mp hx).1) (by omega)
  · obtain _|⟨hx,_|⟨hy,_|⟨hz,_|_⟩⟩⟩ := hts
    exact exists_encoded_four (by omega) (accepts_range hx) (accepts_range hy) (accepts_range hz)
      (by omega) (by omega)
  · obtain _|⟨hx,_|⟨hy,_|⟨hz,_|_⟩⟩⟩ := hts
    exact exists_encoded_four (by omega) (accepts_range hx) (accepts_range hy) (accepts_range hz)
      (by omega) fun _ => ((accepts_iff _ _).mp hx).2

/-- The machine accepts what characters spell, and nothing else. -/
theorem validUtf8_iff_chars {text : List UInt8} :
    validUtf8 text=true ↔ ∃ cs : List Char,cs.flatMap String.utf8EncodeChar=text := by
  constructor
  · intro h
    rw [validUtf8,decide_eq_true_eq] at h
    -- by the length of what is left to read
    induction hn : text.length using Nat.strongRecOn generalizing text with
    | ind n ih =>
      cases text with
      | nil => exact ⟨[],rfl⟩
      | cons c text =>
        rw [utf8Run_cons] at h
        obtain ⟨owed,hlead,hrun⟩ := Option.bind_eq_some_iff.mp h
        obtain ⟨ts,rest,rfl,hts,hrest⟩ := exists_of_utf8Run hrun
        obtain ⟨ch,hch⟩ := exists_utf8EncodeChar hlead hts
        have hlt : rest.length < n := by
          rw [← hn,List.length_cons,List.length_append]
          omega
        obtain ⟨cs,hcs⟩ := ih _ hlt hrest rfl
        refine ⟨ch::cs,?_⟩
        rw [List.flatMap_cons,hch,hcs,List.cons_append]
  · rintro ⟨cs,rfl⟩
    induction cs with
    | nil => rfl
    | cons ch cs ih =>
      apply validUtf8_append
      · exact validUtf8_utf8EncodeChar ch
      · exact ih

theorem validUtf8_iff {text : List UInt8} :
    validUtf8 text=true ↔ ByteArray.IsValidUTF8 ⟨⟨text⟩⟩ := by
  rw [validUtf8_iff_chars]
  constructor
  · rintro ⟨cs,rfl⟩
    refine .intro cs (ByteArray.ext ?_)
    simp [List.utf8Encode]
  · rintro ⟨cs,hcs⟩
    refine ⟨cs,?_⟩
    have hbytes := congrArg (fun b => b.data.toList) hcs
    simpa [List.utf8Encode] using hbytes.symm

theorem validUtf8_eq_isSome (text : List UInt8) :
    validUtf8 text=(ByteArray.utf8Decode? ⟨⟨text⟩⟩).isSome := by
  rw [Bool.eq_iff_iff,validUtf8_iff,ByteArray.isSome_utf8Decode?_iff]

end Characters

end FastPki
