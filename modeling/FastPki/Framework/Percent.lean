import FastPki.Framework.Hex

namespace FastPki

/-! Percent-encoding and the `application/x-www-form-urlencoded` format, over octets. -/

namespace Percent

def percent : UInt8 := 0x25
def ampersand : UInt8 := 0x26
def plus : UInt8 := 0x2b
def equalsSign : UInt8 := 0x3d

def hexDigit (n : Nat) : UInt8 := UInt8.ofNat (if n < 10 then 0x30+n else 0x41+n-10)

def escaped (c : UInt8) : List UInt8 := [percent,hexDigit (c.toNat/16),hexDigit (c.toNat%16)]

/-- Octets that are not to be kept are written as two hexadecimal digits behind a percent sign. -/
def encode (keep : UInt8 → Bool) (s : List UInt8) : List UInt8 :=
  s.flatMap fun c => if keep c then [c] else escaped c

/-- A percent sign without two digits behind it stands for itself. -/
def decode : List UInt8 → List UInt8
  | [] => []
  | c::a::b::rest =>
    if c = percent then
      match Hex.value a,Hex.value b with
      | some x,some y => UInt8.ofNat (16*x+y)::decode rest
      | _,_ => c::decode (a::b::rest)
    else c::decode (a::b::rest)
  | c::rest => c::decode rest

/-- One `name=value`, both as they are written. -/
def pair (keep : UInt8 → Bool) (p : List UInt8 × List UInt8) : List UInt8 :=
  encode keep p.1++equalsSign::encode keep p.2

def formEncode (keep : UInt8 → Bool) (ps : List (List UInt8 × List UInt8)) : List UInt8 :=
  [ampersand].intercalate (ps.map (pair keep))

def plusToSpace (s : List UInt8) : List UInt8 := s.map fun c => if c = plus then 0x20 else c

def readPair (s : List UInt8) : List UInt8 × List UInt8 :=
  (decode (plusToSpace (s.takeWhile (· ≠ equalsSign))),
    decode (plusToSpace ((s.dropWhile (· ≠ equalsSign)).drop 1)))

/-- The parser of the format: parts between `&`, of which empty ones are passed over. -/
def formDecode (s : List UInt8) : List (List UInt8 × List UInt8) :=
  ((s.splitOn ampersand).filter (· ≠ [])).map readPair

/-- The first pair, and each other behind an `&`. -/
theorem formEncode_cons (keep : UInt8 → Bool) (p : List UInt8 × List UInt8)
    (ps : List (List UInt8 × List UInt8)) :
    formEncode keep (p::ps)=pair keep p++ps.flatMap fun q => ampersand::pair keep q := by
  induction ps generalizing p with
  | nil => simp [formEncode,List.intercalate]
  | cons q ps ih =>
    have hrest := ih q
    rw [formEncode] at hrest ⊢
    rw [List.flatMap_cons,List.cons_append,← hrest]
    simp [List.intercalate]

section RoundTrip

variable {keep : UInt8 → Bool}

theorem hexValue_hexDigit {n : Nat} (h : n < 16) : Hex.value (hexDigit n)=some n := by
  have hall : ∀ m∈List.range 16,Hex.value (hexDigit m)=some m := by decide
  exact hall n (List.mem_range.mpr h)

/-- No digit is one of the signs that the format gives a meaning to. -/
theorem hexDigit_plain {n : Nat} (h : n < 16) :
    hexDigit n≠plus ∧ hexDigit n≠ampersand ∧ hexDigit n≠equalsSign := by
  have hall : ∀ m∈List.range 16,
      hexDigit m≠plus ∧ hexDigit m≠ampersand ∧ hexDigit m≠equalsSign := by decide
  exact hall n (List.mem_range.mpr h)

theorem decode_cons_of_ne {c : UInt8} (hc : c≠percent) (rest : List UInt8) :
    decode (c::rest)=c::decode rest := by
  cases rest with
  | nil => rfl
  | cons a rest =>
    cases rest with
    | nil => rfl
    | cons b rest => rw [decode,if_neg hc]

theorem decode_escaped (c : UInt8) (rest : List UInt8) :
    decode (escaped c++rest)=c::decode rest := by
  have hc : c.toNat < 256 := c.toNat_lt
  have hdigits : UInt8.ofNat (16*(c.toNat/16)+c.toNat%16)=c := by
    rw [Nat.div_add_mod,UInt8.ofNat_toNat]
  simp only [escaped,List.cons_append,List.nil_append]
  rw [decode,if_pos rfl,hexValue_hexDigit (by omega),hexValue_hexDigit (by omega)]
  simp only [hdigits]

/-- What is encoded reads back, whatever stands behind it. -/
theorem decode_encode_append (hk : keep percent=false) (s rest : List UInt8) :
    decode (encode keep s++rest)=s++decode rest := by
  induction s with
  | nil => rfl
  | cons c s ih =>
    rw [encode,List.flatMap_cons,List.append_assoc]
    by_cases hc : keep c=true
    · have hne : c≠percent := by
        rintro rfl
        rw [hk] at hc
        cases hc
      rw [if_pos hc,List.singleton_append,decode_cons_of_ne hne]
      exact congrArg (List.cons c) ih
    · rw [if_neg hc,decode_escaped]
      exact congrArg (List.cons c) ih

theorem mem_encode {s : List UInt8} {x : UInt8} (h : x∈encode keep s) :
    keep x=true ∨ x=percent ∨ ∃ n < 16,x=hexDigit n := by
  obtain ⟨c,_,hx⟩ := List.mem_flatMap.mp h
  have hc : c.toNat < 256 := c.toNat_lt
  split_ifs at hx with hkeep
  · rw [List.mem_singleton] at hx
    exact Or.inl (hx ▸ hkeep)
  · rw [escaped,List.mem_cons,List.mem_cons,List.mem_singleton] at hx
    obtain hx|hx|hx := hx
    · exact Or.inr (Or.inl hx)
    · exact Or.inr (Or.inr ⟨c.toNat/16,by omega,hx⟩)
    · exact Or.inr (Or.inr ⟨c.toNat%16,by omega,hx⟩)

/-- A form is made of what is kept, of escapes and of the two separators. -/
theorem mem_formEncode {ps : List (List UInt8 × List UInt8)} {x : UInt8}
    (h : x∈formEncode keep ps) : keep x=true ∨ x∈[percent,ampersand,equalsSign] ∨
      ∃ n < 16,x=hexDigit n := by
  have hencoded : ∀ s,x∈encode keep s → keep x=true ∨ x∈[percent,ampersand,equalsSign] ∨
      ∃ n < 16,x=hexDigit n :=
    fun s hs => (mem_encode hs).imp_right (Or.imp_left fun hx => by simp [hx])
  have hpair : ∀ p,x∈pair keep p → keep x=true ∨ x∈[percent,ampersand,equalsSign] ∨
      ∃ n < 16,x=hexDigit n := by
    intro p hp
    rw [pair,List.mem_append,List.mem_cons] at hp
    obtain hp|hp|hp := hp
    · exact hencoded p.1 hp
    · exact Or.inr (Or.inl (by simp [hp]))
    · exact hencoded p.2 hp
  cases ps with
  | nil => cases h
  | cons p ps =>
    rw [formEncode_cons,List.mem_append] at h
    obtain h|h := h
    · exact hpair p h
    · obtain ⟨q,_,hq⟩ := List.mem_flatMap.mp h
      obtain hq|hq := List.mem_cons.mp hq
      · exact Or.inr (Or.inl (by simp [hq]))
      · exact hpair q hq

/-- None of the signs of the format is kept. -/
structure FormSafe (keep : UInt8 → Bool) : Prop where
  percent : keep percent=false
  ampersand : keep ampersand=false
  plus : keep plus=false
  equalsSign : keep equalsSign=false

variable (hk : FormSafe keep)
include hk

theorem notMem_encode (s : List UInt8) :
    plus∉encode keep s ∧ ampersand∉encode keep s ∧ equalsSign∉encode keep s := by
  have hno : ∀ x,keep x=false → x≠percent → (∀ n < 16,hexDigit n≠x) → x∉encode keep s := by
    intro x hx hp hd hmem
    obtain hkeep|hpercent|⟨n,hn,hdigit⟩ := mem_encode hmem
    · rw [hx] at hkeep
      cases hkeep
    · exact hp hpercent
    · exact hd n hn hdigit.symm
  refine ⟨hno _ hk.plus (by decide) ?_,hno _ hk.ampersand (by decide) ?_,
    hno _ hk.equalsSign (by decide) ?_⟩
  · exact fun n hn => (hexDigit_plain hn).1
  · exact fun n hn => (hexDigit_plain hn).2.1
  · exact fun n hn => (hexDigit_plain hn).2.2

theorem decode_plusToSpace_encode (s : List UInt8) : decode (plusToSpace (encode keep s))=s := by
  have hplus : plusToSpace (encode keep s)=encode keep s := by
    rw [plusToSpace,List.map_congr_left (g := id),List.map_id]
    intro c hc
    rw [if_neg]
    · rfl
    · rintro rfl
      exact (notMem_encode hk s).1 hc
  have happ := decode_encode_append hk.percent s []
  rw [List.append_nil] at happ
  rw [hplus,happ,decode,List.append_nil]

theorem readPair_pair (p : List UInt8 × List UInt8) : readPair (pair keep p)=p := by
  have hno := (notMem_encode hk p.1).2.2
  have htake : (pair keep p).takeWhile (· ≠ equalsSign)=encode keep p.1 := by
    rw [pair,List.takeWhile_append_of_pos]
    · simp
    · intro x hx
      simpa using ne_of_mem_of_not_mem hx hno
  have hdrop : (pair keep p).dropWhile (· ≠ equalsSign)=equalsSign::encode keep p.2 := by
    rw [pair,List.dropWhile_append_of_pos]
    · simp
    · intro x hx
      simpa using ne_of_mem_of_not_mem hx hno
  rw [readPair,htake,hdrop,List.drop_one,List.tail_cons,decode_plusToSpace_encode hk,
    decode_plusToSpace_encode hk]

theorem ampersand_notMem_pair (p : List UInt8 × List UInt8) : ampersand∉pair keep p := by
  rw [pair,List.mem_append,List.mem_cons]
  rintro (h|h|h)
  · exact (notMem_encode hk p.1).2.1 h
  · exact absurd h (by decide)
  · exact (notMem_encode hk p.2).2.1 h

/-- A form reads back as the pairs it was written from: no value can end itself, change another or
add one. -/
theorem formDecode_formEncode (ps : List (List UInt8 × List UInt8)) :
    formDecode (formEncode keep ps)=ps := by
  cases hps : ps with
  | nil => rfl
  | cons p rest =>
    have hne : ps.map (pair keep)≠[] := by simp [hps]
    have hparts : ∀ s∈ps.map (pair keep),ampersand∉s := by
      intro s hs
      obtain ⟨q,_,rfl⟩ := List.mem_map.mp hs
      exact ampersand_notMem_pair hk q
    have hsplit : (formEncode keep ps).splitOn ampersand=ps.map (pair keep) :=
      List.splitOn_intercalate ampersand hparts hne
    have hfull : (ps.map (pair keep)).filter (· ≠ [])=ps.map (pair keep) := by
      rw [List.filter_eq_self]
      intro s hs
      obtain ⟨q,_,rfl⟩ := List.mem_map.mp hs
      simp [pair]
    rw [← hps,formDecode,hsplit,hfull,List.map_map]
    exact List.map_id'' (readPair_pair hk) ps

end RoundTrip

end Percent

end FastPki
