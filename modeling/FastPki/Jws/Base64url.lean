import FastPki.Framework.Sextets
import FastPki.Profile.CertProfile
import Mathlib.Data.List.Nodup
import Mathlib.Tactic.Ring

namespace FastPki.Jws

open FastPki.X509

def b64uChars : Octets := octets "ABCDEFGHIJKLMNOPQRSTUVWXYZabcdefghijklmnopqrstuvwxyz0123456789-_"

/-- The character at an index into the alphabet. -/
def b64uChar (i : Nat) : UInt8 := b64uChars.getD i 0

/-- Three octets of the input at a time, as one word. Of a last group that is not full the characters
that would tell nothing are left out, and no padding stands in for them. -/
def base64urlEncode : Octets → Octets
  | [] => []
  | [a] =>
    let v := a.toUInt32 <<< 16
    [b64uChar ((v >>> 18) &&& 63).toNat,b64uChar ((v >>> 12) &&& 63).toNat]
  | [a,b] =>
    let v := a.toUInt32 <<< 16 ||| b.toUInt32 <<< 8
    [b64uChar ((v >>> 18) &&& 63).toNat,b64uChar ((v >>> 12) &&& 63).toNat,
      b64uChar ((v >>> 6) &&& 63).toNat]
  | a::b::c::rest =>
    let v := a.toUInt32 <<< 16 ||| b.toUInt32 <<< 8 ||| c.toUInt32
    b64uChar ((v >>> 18) &&& 63).toNat::b64uChar ((v >>> 12) &&& 63).toNat::
      b64uChar ((v >>> 6) &&& 63).toNat::b64uChar (v &&& 63).toNat::base64urlEncode rest

/-- Letters, digits, `-` and `_`. -/
def isUrlSafe (c : UInt8) : Bool :=
  (0x41 ≤ c && c ≤ 0x5a) || (0x61 ≤ c && c ≤ 0x7a) || (0x30 ≤ c && c ≤ 0x39) || c = 0x2d || c = 0x5f

/-- Where in the alphabet a character is; -1 of the table is `none`. -/
def decodeTable (c : UInt8) : Option Nat := b64uChars.idxOf? c

/-- Padding and line breaks are passed over, wherever they are. -/
def isSkipped (c : UInt8) : Bool := c = 0x3d || c = 0x0d || c = 0x0a

/-- The variables of the loop of `base64url_decode_impl`. -/
structure Decoding where
  buf : UInt32
  bits : Nat
  out : Octets
  deriving DecidableEq

def Decoding.start : Decoding := ⟨0,0,[]⟩

/-- The part of the loop behind the table: `buf` is shifted without a check for what falls out of it. -/
def Decoding.push (st : Decoding) (v : Nat) : Decoding :=
  let buf := st.buf <<< 6 ||| UInt32.ofNat v
  let bits := st.bits+6
  if bits ≥ 8 then ⟨buf,bits-8,st.out++[((buf >>> UInt32.ofNat (bits-8)) &&& 0xff).toUInt8]⟩
  else ⟨buf,bits,st.out⟩

def Decoding.next (st : Decoding) (c : UInt8) : Except Error Decoding :=
  match decodeTable c with
  | some v => .ok (st.push v)
  | none => if isSkipped c then .ok st else .error ⟨1,"invalid base64url char"⟩

def base64urlDecode (s : Octets) : Except Error Octets := do
  let st ← s.foldlM Decoding.next Decoding.start
  return st.out

theorem b64uChars_eq : b64uChars=
    [0x41,0x42,0x43,0x44,0x45,0x46,0x47,0x48,0x49,0x4a,0x4b,0x4c,0x4d,0x4e,0x4f,0x50,
     0x51,0x52,0x53,0x54,0x55,0x56,0x57,0x58,0x59,0x5a,0x61,0x62,0x63,0x64,0x65,0x66,
     0x67,0x68,0x69,0x6a,0x6b,0x6c,0x6d,0x6e,0x6f,0x70,0x71,0x72,0x73,0x74,0x75,0x76,
     0x77,0x78,0x79,0x7a,0x30,0x31,0x32,0x33,0x34,0x35,0x36,0x37,0x38,0x39,0x2d,0x5f] := by
  decide +kernel

theorem length_b64uChars : b64uChars.length=64 := by
  rw [b64uChars_eq]
  rfl

theorem nodup_b64uChars : b64uChars.Nodup := by
  have hdistinct : (b64uChars.map UInt8.toNat).Nodup := by
    rw [b64uChars_eq]
    decide +kernel
  exact List.Nodup.of_map UInt8.toNat hdistinct

theorem b64uChar_eq_getElem {v : Nat} (hv : v < b64uChars.length) : b64uChar v=b64uChars[v] := by
  rw [b64uChar,List.getD_eq_getElem?_getD,List.getElem?_eq_getElem hv,Option.getD_some]

theorem b64uChar_of_decodeTable {c : UInt8} {v : Nat} (h : decodeTable c=some v) :
    v<64 ∧ b64uChar v=c := by
  obtain ⟨hv,hget,_⟩ := List.idxOf?_eq_some_iff.mp h
  refine ⟨?_,(b64uChar_eq_getElem hv).trans hget⟩
  rw [← length_b64uChars]
  exact hv

/-- No character is in the alphabet twice, so that the table has each index. -/
theorem decodeTable_b64uChar {v : Nat} (hv : v<64) : decodeTable (b64uChar v)=some v := by
  rw [← length_b64uChars] at hv
  apply List.idxOf?_eq_some_iff.mpr
  refine ⟨hv,(b64uChar_eq_getElem hv).symm,?_⟩
  intro j hj hc
  rw [b64uChar_eq_getElem hv] at hc
  have hjv : j=v := nodup_b64uChars.getElem_inj_iff.mp hc
  omega

/-- A word of three octets; one that is missing is zero. -/
theorem toNat_word (a b c : UInt8) :
    (a.toUInt32 <<< 16 ||| b.toUInt32 <<< 8 ||| c.toUInt32).toNat=
      a.toNat*65536+b.toNat*256+c.toNat := by
  have ha := a.toNat_lt
  have hb := b.toNat_lt
  have hc := c.toNat_lt
  have hfirst : (a.toUInt32 <<< 16).toNat=2^16*a.toNat := by
    rw [UInt32.toNat_shiftLeft,UInt8.toNat_toUInt32,Nat.shiftLeft_eq]
    show a.toNat*65536%4294967296=65536*a.toNat
    omega
  have hsecond : (b.toUInt32 <<< 8).toNat=2^8*b.toNat := by
    rw [UInt32.toNat_shiftLeft,UInt8.toNat_toUInt32,Nat.shiftLeft_eq]
    show b.toNat*256%4294967296=256*b.toNat
    omega
  have hcarry : 2^16*a.toNat+2^8*b.toNat=2^8*(a.toNat*256+b.toNat) := by omega
  rw [UInt32.toNat_or,UInt32.toNat_or,hfirst,hsecond,UInt8.toNat_toUInt32,
    ← Nat.two_pow_add_eq_or_of_lt (by omega),hcarry,← Nat.two_pow_add_eq_or_of_lt (by omega)]
  omega

theorem toNat_shiftRight (v : UInt32) {i : Nat} (hi : i<32) :
    (v >>> UInt32.ofNat i).toNat=v.toNat/2^i := by
  have hlt : i < UInt32.size := by
    show i<4294967296
    omega
  rw [UInt32.toNat_shiftRight,UInt32.toNat_ofNat_of_lt' hlt,Nat.mod_eq_of_lt hi,
    Nat.shiftRight_eq_div_pow]

/-- Six bits of a word. -/
theorem toNat_field (v : UInt32) {i : Nat} (hi : i<32) :
    ((v >>> UInt32.ofNat i) &&& 63).toNat=v.toNat/2^i%64 := by
  rw [UInt32.toNat_and,toNat_shiftRight v hi]
  exact Nat.and_two_pow_sub_one_eq_mod (v.toNat/2^i) 6

/-- The four indices that are read out of a word. -/
theorem word_fields {v : UInt32} {a b c : UInt8}
    (hv : v=a.toUInt32 <<< 16 ||| b.toUInt32 <<< 8 ||| c.toUInt32) :
    ((v >>> 18) &&& 63).toNat=a.toNat/4 ∧ ((v >>> 12) &&& 63).toNat=a.toNat%4*16+b.toNat/16 ∧
      ((v >>> 6) &&& 63).toNat=b.toNat%16*4+c.toNat/64 ∧ (v &&& 63).toNat=c.toNat%64 := by
  have ha := a.toNat_lt
  have hb := b.toNat_lt
  have hc := c.toNat_lt
  have hword : v.toNat=a.toNat*65536+b.toNat*256+c.toNat := by
    rw [hv]
    exact toNat_word a b c
  have h18 : ((v >>> 18) &&& 63).toNat=v.toNat/262144%64 := toNat_field v (by decide)
  have h12 : ((v >>> 12) &&& 63).toNat=v.toNat/4096%64 := toNat_field v (by decide)
  have h6 : ((v >>> 6) &&& 63).toNat=v.toNat/64%64 := toNat_field v (by decide)
  have h0 : (v &&& 63).toNat=v.toNat%64 := by
    rw [UInt32.toNat_and]
    exact Nat.and_two_pow_sub_one_eq_mod v.toNat 6
  rw [h18,h12,h6,h0,hword]
  refine ⟨?_,?_,?_,?_⟩
  · omega
  · omega
  · omega
  · omega

/-- The encoder writes the sextets of the octets, each as a character. -/
theorem base64urlEncode_eq (b : Octets) : base64urlEncode b=(sextets b).map b64uChar := by
  induction b using base64urlEncode.induct with
  | case1 => rfl
  | case2 a =>
    have hv : a.toUInt32 <<< 16=a.toUInt32 <<< 16 ||| (0 : UInt8).toUInt32 <<< 8 |||
        (0 : UInt8).toUInt32 := by simp
    obtain ⟨h18,h12,_,_⟩ := word_fields hv
    simp [base64urlEncode,sextets,h18,h12]
  | case3 a b =>
    have hv : a.toUInt32 <<< 16 ||| b.toUInt32 <<< 8=a.toUInt32 <<< 16 ||| b.toUInt32 <<< 8 |||
        (0 : UInt8).toUInt32 := by simp
    obtain ⟨h18,h12,h6,_⟩ := word_fields hv
    simp [base64urlEncode,sextets,h18,h12,h6]
  | case4 a b c rest ih =>
    obtain ⟨h18,h12,h6,h0⟩ := word_fields (Eq.refl (a.toUInt32 <<< 16 ||| b.toUInt32 <<< 8 |||
      c.toUInt32))
    simp only [base64urlEncode,sextets,List.map_cons]
    rw [h18,h12,h6,h0,ih]

/-- The bits of the buffer that are still to be written; those above them count for nothing. -/
def Decoding.pending (st : Decoding) : Pending := ⟨st.bits,st.buf.toNat%2^st.bits⟩

theorem toNat_buf (buf : UInt32) {v : Nat} (hv : v<64) :
    (buf <<< 6 ||| UInt32.ofNat v).toNat=(buf.toNat*64+v)%2^32 := by
  have hshift : (buf <<< 6).toNat=2^6*(buf.toNat%67108864) := by
    rw [UInt32.toNat_shiftLeft,Nat.shiftLeft_eq]
    show buf.toNat*64%4294967296=64*(buf.toNat%67108864)
    omega
  have hlt : v < UInt32.size := by
    show v<4294967296
    omega
  rw [UInt32.toNat_or,UInt32.toNat_ofNat_of_lt' hlt,hshift,← Nat.two_pow_add_eq_or_of_lt hv]
  omega

/-- What falls out of the buffer is none of the bits to be written. -/
theorem buf_mod {n v k : Nat} (hv : v<64) (hk : k+6 ≤ 32) :
    (n*64+v)%2^32%2^(k+6)=n%2^k*64+v := by
  have hdvd : 2^(k+6)∣2^32 := Nat.pow_dvd_pow 2 hk
  have hpow : 2^(k+6)=2^k*64 := Nat.pow_add 2 k 6
  have hlt : n%2^k<2^k := Nat.mod_lt n (Nat.two_pow_pos k)
  have hsplit : n*64+v=2^k*64*(n/2^k)+(n%2^k*64+v) := by
    have hn := Nat.div_add_mod n (2^k)
    calc
      n*64+v=(2^k*(n/2^k)+n%2^k)*64+v := by rw [hn]
      _=2^k*64*(n/2^k)+(n%2^k*64+v) := by ring
  rw [Nat.mod_mod_of_dvd _ hdvd,hpow,hsplit,Nat.mul_add_mod]
  apply Nat.mod_eq_of_lt
  omega

theorem toUInt8_low (w : UInt32) : (w &&& 0xff).toUInt8=UInt8.ofNat w.toNat := by
  apply UInt8.toNat_inj.mp
  have hand : (w &&& 0xff).toNat=w.toNat%256 := by
    rw [UInt32.toNat_and]
    exact Nat.and_two_pow_sub_one_eq_mod w.toNat 8
  rw [UInt32.toNat_toUInt8,hand,UInt8.toNat_ofNat']
  omega

/-- The word that wraps and its count do what a number without a bound would do. -/
theorem push_pending {st : Decoding} {v : Nat} (hbits : st.bits<8) (hv : v<64) :
    (st.push v).pending=(st.pending.push v).2 ∧ (st.push v).out=st.out++(st.pending.push v).1 ∧
      (st.push v).bits<8 := by
  have hmod : (st.buf <<< 6 ||| UInt32.ofNat v).toNat%2^(st.bits+6)=
      st.buf.toNat%2^st.bits*64+v := by
    rw [toNat_buf st.buf hv]
    exact buf_mod hv (by omega)
  by_cases hshort : st.bits+6<8
  · have hnot : ¬st.bits+6 ≥ 8 := by omega
    have hpush : st.push v=⟨st.buf <<< 6 ||| UInt32.ofNat v,st.bits+6,st.out⟩ := if_neg hnot
    rw [hpush,Pending.push_short hshort,List.append_nil]
    refine ⟨?_,rfl,hshort⟩
    rw [Decoding.pending,hmod]
    rfl
  · have hfull : 8 ≤ st.bits+6 := by omega
    have hbits' : st.bits+6-8=st.bits-2 := by omega
    have hpush : st.push v=⟨st.buf <<< 6 ||| UInt32.ofNat v,st.bits-2,
        st.out++[(((st.buf <<< 6 ||| UInt32.ofNat v) >>> UInt32.ofNat (st.bits-2)) &&&
          0xff).toUInt8]⟩ := by
      rw [Decoding.push,if_pos hfull,hbits']
    have hpow : 2^(st.bits+6)=2^(st.bits-2)*256 := by
      have hsum : st.bits+6=st.bits-2+8 := by omega
      rw [hsum]
      exact Nat.pow_add 2 (st.bits-2) 8
    rw [hpow] at hmod
    have hrest : (st.buf.toNat%2^st.bits*64+v)%2^(st.bits-2)=
        (st.buf <<< 6 ||| UInt32.ofNat v).toNat%2^(st.bits-2) := by
      rw [← hmod,Nat.mod_mul_right_mod]
    have hoctet : UInt8.ofNat ((st.buf.toNat%2^st.bits*64+v)/2^(st.bits-2))=
        UInt8.ofNat ((st.buf <<< 6 ||| UInt32.ofNat v).toNat/2^(st.bits-2)) := by
      rw [← hmod,Nat.mod_mul_right_div_self]
      exact UInt8.ofNat_mod_size
    rw [hpush,Pending.push_full hfull,toUInt8_low,toNat_shiftRight _ (by omega)]
    refine ⟨?_,?_,?_⟩
    · show (⟨_,_⟩ : Pending)=⟨_,_⟩
      rw [Decoding.pending,hrest]
    · rw [Decoding.pending,hoctet]
    · show st.bits-2<8
      omega

/-- A character that the decoder has no use for is an error. -/
def isAccepted (c : UInt8) : Bool := (decodeTable c).isSome || isSkipped c

theorem next_of_not_isAccepted {st : Decoding} {c : UInt8} (h : isAccepted c=false) :
    st.next c=.error ⟨1,"invalid base64url char"⟩ := by
  rw [isAccepted,Bool.or_eq_false_iff] at h
  have hnone : decodeTable c=none := by simpa using h.1
  rw [Decoding.next,hnone]
  show (if isSkipped c then _ else _)=_
  rw [h.2]
  rfl

theorem isAccepted_of_foldlM {s : Octets} {st st' : Decoding}
    (h : s.foldlM Decoding.next st=.ok st') : ∀ c∈s,isAccepted c=true := by
  induction s generalizing st with
  | nil =>
    intro c hc
    cases hc
  | cons c s ih =>
    rw [List.foldlM_cons] at h
    have hc : isAccepted c=true := by
      by_contra hnot
      rw [next_of_not_isAccepted (by simpa using hnot)] at h
      cases h
    cases hnext : st.next c with
    | error e =>
      rw [hnext] at h
      cases h
    | ok st1 =>
      rw [hnext] at h
      exact List.forall_mem_cons.mpr ⟨hc,ih h⟩

/-- The loop over characters that it knows writes what their sextets complete. -/
theorem foldlM_next {s : Octets} (hs : ∀ c∈s,isAccepted c=true) {st : Decoding}
    (hbits : st.bits<8) : ∃ st',s.foldlM Decoding.next st=.ok st' ∧
      st'.out=st.out++st.pending.complete (s.filterMap decodeTable) := by
  induction s generalizing st with
  | nil =>
    refine ⟨st,rfl,?_⟩
    rw [List.filterMap_nil,Pending.complete,List.append_nil]
  | cons c s ih =>
    obtain ⟨hc,hs⟩ := List.forall_mem_cons.mp hs
    rw [List.foldlM_cons,List.filterMap_cons]
    cases hv : decodeTable c with
    | none =>
      have hskip : isSkipped c=true := by simpa [isAccepted,hv] using hc
      have hnext : st.next c=.ok st := by simp [Decoding.next,hv,hskip]
      rw [hnext]
      exact ih hs hbits
    | some v =>
      have hnext : st.next c=.ok (st.push v) := by rw [Decoding.next,hv]
      obtain ⟨hpending,hout,hbits'⟩ := push_pending hbits (b64uChar_of_decodeTable hv).1
      obtain ⟨st',hrun,hrest⟩ := ih hs hbits'
      refine ⟨st',?_,?_⟩
      · rw [hnext]
        exact hrun
      · rw [hrest,hout,hpending,List.append_assoc]
        rfl

theorem base64urlDecode_eq_ok_iff {s b : Octets} : base64urlDecode s=.ok b ↔
    (∀ c∈s,isAccepted c=true) ∧ octetsOfSextets (s.filterMap decodeTable)=b := by
  constructor
  · intro h
    cases hrun : s.foldlM Decoding.next Decoding.start with
    | error e =>
      rw [base64urlDecode,hrun] at h
      cases h
    | ok st =>
      have hs := isAccepted_of_foldlM hrun
      obtain ⟨st',hrun',hout⟩ := foldlM_next hs (by decide : Decoding.start.bits<8)
      rw [base64urlDecode,hrun'] at h
      refine ⟨hs,?_⟩
      cases h
      exact hout.symm
  · intro h
    obtain ⟨st',hrun,hout⟩ := foldlM_next h.1 (by decide : Decoding.start.bits<8)
    rw [base64urlDecode,hrun,← h.2]
    exact congrArg Except.ok hout

theorem filterMap_map_b64uChar {vs : List Nat} (h : ∀ v∈vs,v<64) :
    (vs.map b64uChar).filterMap decodeTable=vs := by
  induction vs with
  | nil => rfl
  | cons v vs ih =>
    obtain ⟨hv,hvs⟩ := List.forall_mem_cons.mp h
    rw [List.map_cons,List.filterMap_cons_some (decodeTable_b64uChar hv),ih hvs]

/-- With nothing to pass over, every character stands for a sextet of its own. -/
theorem map_filterMap_decodeTable {s : Octets} (hs : ∀ c∈s,isAccepted c=true)
    (hskip : ∀ c∈s,isSkipped c=false) : (s.filterMap decodeTable).map b64uChar=s := by
  induction s with
  | nil => rfl
  | cons c s ih =>
    obtain ⟨hc,hs⟩ := List.forall_mem_cons.mp hs
    obtain ⟨hc',hskip⟩ := List.forall_mem_cons.mp hskip
    have hsome : (decodeTable c).isSome=true := by simpa [isAccepted,hc'] using hc
    obtain ⟨v,hv⟩ := Option.isSome_iff_exists.mp hsome
    rw [List.filterMap_cons_some hv,List.map_cons,(b64uChar_of_decodeTable hv).2,ih hs hskip]

theorem filterMap_decodeTable_lt (s : Octets) : ∀ v∈s.filterMap decodeTable,v<64 := by
  intro v hv
  obtain ⟨c,_,hc⟩ := List.mem_filterMap.mp hv
  exact (b64uChar_of_decodeTable hc).1

theorem isUrlSafe_b64uChar {v : Nat} (hv : v<64) : isUrlSafe (b64uChar v)=true := by
  have hall : b64uChars.all isUrlSafe=true := by
    rw [b64uChars_eq]
    decide
  rw [← length_b64uChars] at hv
  rw [b64uChar_eq_getElem hv]
  exact List.all_eq_true.mp hall _ (List.getElem_mem hv)

theorem ascii_of_isUrlSafe {c : UInt8} (h : isUrlSafe c=true) : c<0x80 := by
  simp only [isUrlSafe,Bool.or_eq_true,Bool.and_eq_true,decide_eq_true_eq] at h
  grind

theorem isUrlSafe_base64urlEncode {b : Octets} : ∀ c∈base64urlEncode b,isUrlSafe c=true := by
  intro c hc
  rw [base64urlEncode_eq] at hc
  obtain ⟨v,hv,hvc⟩ := List.mem_map.mp hc
  rw [← hvc]
  exact isUrlSafe_b64uChar (sextets_lt b v hv)

theorem decode_encode (b : Octets) : base64urlDecode (base64urlEncode b)=.ok b := by
  have hlt := sextets_lt b
  rw [base64urlEncode_eq,base64urlDecode_eq_ok_iff]
  constructor
  · intro c hc
    obtain ⟨v,hv,hvc⟩ := List.mem_map.mp hc
    rw [← hvc,isAccepted,decodeTable_b64uChar (hlt v hv)]
    rfl
  · rw [filterMap_map_b64uChar hlt,octetsOfSextets_sextets]

theorem encode_decode_iff {s b : Octets} (h : base64urlDecode s=.ok b)
    (hskip : ∀ c∈s,isSkipped c=false) :
    base64urlEncode b=s ↔ Canonical (s.filterMap decodeTable) := by
  obtain ⟨hs,hb⟩ := base64urlDecode_eq_ok_iff.mp h
  have hchars := map_filterMap_decodeTable hs hskip
  have hlt := filterMap_decodeTable_lt s
  rw [← sextets_octetsOfSextets_iff hlt,hb,base64urlEncode_eq]
  constructor
  · intro heq
    rw [← heq,filterMap_map_b64uChar (sextets_lt b)]
  · intro heq
    rw [heq]
    exact hchars

theorem decodeTable_letters : decodeTable 0x41=some 0 ∧ decodeTable 0x42=some 1 := by
  rw [decodeTable,decodeTable,b64uChars_eq]
  decide

theorem octets_letters : octets "AA"=[0x41,0x41] ∧ octets "AB"=[0x41,0x42] := by decide

theorem canonical_aa : Canonical ((octets "AA").filterMap decodeTable) := by
  rw [octets_letters.1]
  simp [decodeTable_letters,Canonical]

theorem decode_aa : base64urlDecode (octets "AA")=.ok [0] := by
  rw [octets_letters.1,base64urlDecode_eq_ok_iff]
  simp [isAccepted,decodeTable_letters,octetsOfSextets_two]

theorem decode_ab : base64urlDecode (octets "AB")=.ok [0] := by
  rw [octets_letters.2,base64urlDecode_eq_ok_iff]
  simp [isAccepted,decodeTable_letters,octetsOfSextets_two]

theorem encode_zero : base64urlEncode [0]=octets "AA" := by
  have hchar : b64uChar 0=0x41 := (b64uChar_of_decodeTable decodeTable_letters.1).2
  rw [octets_letters.1,base64urlEncode_eq]
  show [b64uChar 0,b64uChar 0]=[0x41,0x41]
  rw [hchar]

/-- What is encoded decodes to itself. A text that decodes is encoded again to itself just when it is a
canonical one, and no two canonical texts decode to the same octets. -/
theorem base64url_canonical :
    (∀ b,base64urlDecode (base64urlEncode b)=.ok b ∧ (∀ c∈base64urlEncode b,isUrlSafe c=true) ∧
      0x3d∉base64urlEncode b) ∧
    (∀ s b,base64urlDecode s=.ok b → (∀ c∈s,isSkipped c=false) →
      (base64urlEncode b=s ↔ Canonical (s.filterMap decodeTable))) ∧
    ∀ s t b,base64urlDecode s=.ok b → base64urlDecode t=.ok b → (∀ c∈s,isSkipped c=false) →
      (∀ c∈t,isSkipped c=false) → Canonical (s.filterMap decodeTable) →
      Canonical (t.filterMap decodeTable) → s=t := by
  refine ⟨?_,?_,?_⟩
  · intro b
    refine ⟨decode_encode b,isUrlSafe_base64urlEncode,?_⟩
    intro hpad
    have hsafe := isUrlSafe_base64urlEncode _ hpad
    cases hsafe
  · intro s b h hskip
    exact encode_decode_iff h hskip
  · intro s t b hs ht hskips hskipt hcs hct
    have hs' := (encode_decode_iff hs hskips).mpr hcs
    have ht' := (encode_decode_iff ht hskipt).mpr hct
    exact hs'.symm.trans ht'

theorem base64url_canonical_aa :
    base64urlDecode (octets "AA")=.ok [0] ∧ Canonical ((octets "AA").filterMap decodeTable) ∧
      base64urlEncode [0]=octets "AA" := by
  have hskip : ∀ c∈octets "AA",isSkipped c=false := by decide +kernel
  exact ⟨decode_aa,canonical_aa,
    (base64url_canonical.2.1 (octets "AA") [0] decode_aa hskip).mpr canonical_aa⟩

/-- The last four bits of the second character make up no octet, and the decoder does not ask for zeros
there. -/
theorem base64url_spelled_twice :
    base64urlDecode (octets "AB")=.ok [0] ∧ (∀ c∈octets "AB",isSkipped c=false) ∧
      base64urlEncode [0]≠octets "AB" ∧ base64urlDecode (octets "AA")=.ok [0] ∧
      octets "AA"≠octets "AB" := by
  have hne : octets "AA"≠octets "AB" := by decide
  refine ⟨decode_ab,by decide +kernel,?_,decode_aa,hne⟩
  rw [encode_zero]
  exact hne

end FastPki.Jws
